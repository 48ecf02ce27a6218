import Reckoner.Proofs.Checks

/-!
# History — what a calculator remembers

A history lists what the calls on a calculator came to: outcomes of lines, and resets.  The last answer is what the
history leaves to remember (`remembered`): the value of the latest line that had one, unless the calculator was reset
since.  This is kept call by call (`Faithful.perform`) and so along every run, and so is, under checks, that the last
answer is a finite number.
-/
namespace Reckoner

/-- A call on a calculator. -/
inductive Call where
  | evaluate (line : String)
  | evaluateText (line : String)
  | reset

/-- What a call came to. -/
inductive Entry where
  | outcome (outcome : Except Failure Float)
  | forgotten
deriving DecidableEq

namespace Entry

def isForgotten : Entry → Bool
  | forgotten => true
  | outcome _ => false

def value? : Entry → Option Float
  | outcome (.ok value) => some value
  | _ => none

end Entry

/-- **What a history leaves to remember**: read backwards up to the latest reset, the first value; zero if there is
none. -/
def remembered (history : List Entry) : Float :=
  ((history.reverse.takeWhile fun e => !e.isForgotten).findSome? Entry.value?).getD 0

theorem remembered_append_ok (history : List Entry) (value : Float) :
    remembered (history ++ [.outcome (.ok value)]) = value := by
  rw [remembered, List.reverse_concat]
  rfl

theorem remembered_append_error (history : List Entry) (f : Failure) :
    remembered (history ++ [.outcome (.error f)]) = remembered history := by
  rw [remembered, List.reverse_concat]
  rfl

theorem remembered_append_forgotten (history : List Entry) : remembered (history ++ [.forgotten]) = 0 := by
  rw [remembered, List.reverse_concat]
  rfl

namespace Group

/-- **A value under checks is finite**, also where no step was taken. -/
theorem isFinite_of_resolve_true {ts : List Token} {value : Float} (h : resolve true ts = .ok value) :
    value.isFinite = true := by
  rw [resolve_eq_under, Traced.under_true_eq_ok_iff] at h
  exact h.2 (.value value) (List.mem_of_getLast? (traced_lands ts value h.1))

end Group

theorem Token.number_mem_bindAnswer {answer value : Float} {ts : List Token}
    (h : .number value ∈ bindAnswer answer ts) : .number value ∈ ts ∨ value = answer := by
  obtain ⟨t, ht, hbind⟩ := List.mem_map.1 h
  cases t with
  | answer =>
    cases hbind
    exact .inr rfl
  | _ =>
    rw [← hbind]
    exact .inl ht

namespace Calculator

/-- One call: what it came to, and the calculator after it. -/
def perform (c : Calculator) : Call → Entry × Calculator
  | .evaluate line => (.outcome (c.evaluate line).1, (c.evaluate line).2)
  | .evaluateText line => (.outcome (c.evaluate line).1, (c.evaluateText line).2)
  | .reset => (.forgotten, c.reset)

/-- **Calls one after another**: their history, and the calculator in the end. -/
def run (c : Calculator) : List Call → List Entry × Calculator
  | [] => ([], c)
  | call :: calls =>
    let (entry, next) := c.perform call
    let (entries, last) := next.run calls
    (entry :: entries, last)

theorem isFinite_of_outcome {c : Calculator} {line : String} {value : Float} (hchecks : c.settings.domainChecks = true)
    (h : c.outcome line = .ok value) : value.isFinite = true := by
  unfold outcome at h
  split at h
  · cases h
  · rw [hchecks] at h
    exact Group.isFinite_of_resolve_true h

/-- A call either takes over a value that is finite under checks, or fails and changes nothing, or resets. -/
theorem perform_cases (c : Calculator) (call : Call) :
    (∃ value, c.perform call = (.outcome (.ok value), { c with lastAnswer := value }) ∧
      (c.settings.domainChecks = true → value.isFinite = true)) ∨
    (∃ f, c.perform call = (.outcome (.error f), c)) ∨
    c.perform call = (.forgotten, { c with lastAnswer := 0 }) := by
  have hline : ∀ line, (∃ value, c.evaluate line = (.ok value, { c with lastAnswer := value }) ∧
      (c.settings.domainChecks = true → value.isFinite = true)) ∨ ∃ f, c.evaluate line = (.error f, c) := by
    intro line
    unfold evaluate
    cases houtcome : c.outcome line with
    | ok value => exact .inl ⟨value, rfl, fun hchecks => isFinite_of_outcome hchecks houtcome⟩
    | error f => exact .inr ⟨f, rfl⟩
  cases call with
  | reset => exact .inr (.inr rfl)
  | evaluate line =>
    obtain ⟨value, h, hfinite⟩ | ⟨f, h⟩ := hline line
    · exact .inl ⟨value, by rw [perform, h], hfinite⟩
    · exact .inr (.inl ⟨f, by rw [perform, h]⟩)
  | evaluateText line =>
    obtain ⟨value, h, hfinite⟩ | ⟨f, h⟩ := hline line
    · exact .inl ⟨value, by rw [perform, evaluateText, h], hfinite⟩
    · exact .inr (.inl ⟨f, by rw [perform, evaluateText, h]⟩)

theorem isFinite_zero : (0 : Float).isFinite = true := by decide

/-- A calculator that remembers what its history leaves to remember, a finite number under checks. -/
structure Faithful (settings : Settings) (history : List Entry) (c : Calculator) : Prop where
  settings_eq : c.settings = settings
  lastAnswer_eq : c.lastAnswer = remembered history
  lastAnswer_finite : settings.domainChecks = true → c.lastAnswer.isFinite = true

theorem faithful_new (settings : Settings) : Faithful settings [] (new settings) :=
  ⟨rfl, rfl, fun _ => isFinite_zero⟩

/-- **A call keeps a calculator faithful.** -/
theorem Faithful.perform {settings : Settings} {history : List Entry} {c : Calculator} (h : Faithful settings history c)
    (call : Call) : Faithful settings (history ++ [(c.perform call).1]) (c.perform call).2 := by
  obtain ⟨value, hcall, hfinite⟩ | ⟨f, hcall⟩ | hcall := c.perform_cases call
  · rw [hcall]
    exact ⟨h.settings_eq, (remembered_append_ok history value).symm, fun hchecks =>
      hfinite (by rw [h.settings_eq]; exact hchecks)⟩
  · rw [hcall]
    exact ⟨h.settings_eq, by rw [remembered_append_error]; exact h.lastAnswer_eq, h.lastAnswer_finite⟩
  · rw [hcall]
    exact ⟨h.settings_eq, (remembered_append_forgotten history).symm, fun _ => isFinite_zero⟩

/-- **And so does a run.** -/
theorem Faithful.run {settings : Settings} : ∀ (calls : List Call) {history : List Entry} {c : Calculator},
    Faithful settings history c → Faithful settings (history ++ (c.run calls).1) (c.run calls).2
  | [], history, c, h => by
    rw [Calculator.run, List.append_nil]
    exact h
  | call :: calls, history, c, h => by
    have hnext := Faithful.run calls (h.perform call)
    rw [List.append_assoc, List.singleton_append] at hnext
    exact hnext

/-- **What a calculator remembers after any run.**  Starting new, its settings stay; its last answer is what the history
of the run leaves to remember; a call that fails leaves it as it is; and under checks the last answer is finite, so that
binding it brings in no other numbers. -/
theorem run_remembers (settings : Settings) (calls : List Call) :
    let (history, c) := (new settings).run calls
    c.settings = settings ∧ c.lastAnswer = remembered history ∧
      (∀ call f, (c.perform call).1 = .outcome (.error f) → (c.perform call).2 = c) ∧
      (settings.domainChecks = true → c.lastAnswer.isFinite = true ∧
        ∀ ts value, .number value ∈ Token.bindAnswer c.lastAnswer ts → .number value ∈ ts ∨ value.isFinite = true) := by
  have h := Faithful.run calls (faithful_new settings)
  rw [List.nil_append] at h
  refine ⟨h.settings_eq, h.lastAnswer_eq, fun call f hf => ?_, fun hchecks => ⟨h.lastAnswer_finite hchecks, ?_⟩⟩
  · obtain ⟨value, hcall, _⟩ | ⟨g, hcall⟩ | hcall := perform_cases _ call
    · rw [hcall] at hf
      cases hf
    · rw [hcall]
    · rw [hcall] at hf
      cases hf
  · intro ts value hmem
    refine (Token.number_mem_bindAnswer hmem).imp_right fun hvalue => ?_
    rw [hvalue]
    exact h.lastAnswer_finite hchecks

/-- An answer, and behind it a line that ends in an operator. -/
theorem run_remembers_failing :
    let c := ((new {}).run [.evaluate "6*7"]).2
    c.lastAnswer = 42 ∧ c.lastAnswer.isFinite = true ∧
      (c.perform (.evaluate "a+")).1 = .outcome (.error (.cannotEnd .add)) ∧
      (c.perform (.evaluate "a+")).2 = c := by
  intro c
  have hanswer : c.lastAnswer = 42 := by decide +kernel
  have hfails : (c.perform (.evaluate "a+")).1 = .outcome (.error (.cannotEnd .add)) := by decide +kernel
  obtain ⟨_, _, hkeeps, hfinite⟩ := run_remembers {} [.evaluate "6*7"]
  exact ⟨hanswer, (hfinite rfl).1, hfails, hkeeps _ _ hfails⟩

end Calculator
end Reckoner
