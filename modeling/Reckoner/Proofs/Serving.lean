import Reckoner.Session
import Reckoner.Proofs.Binary64.Counting
import Reckoner.Proofs.History
import Reckoner.Proofs.Line.Parts

/-!
# Serving — one calculator for many

What can be asked of a calculator that is shared, and what it replies.  Calls through the handles of a shared session,
forked at any time and from any handle, get the replies that one calculator gives to the same requests in the same
order, and every handle is on that calculator afterwards (`Session.run_single`).  Such a calculator remembers what its
history leaves to remember (`lastAnswer_serveAll`), and counts lines that add one (`isWhole_serveAll`).
-/
namespace Reckoner

/-- What can be asked through a handle. -/
inductive Request where
  | evaluate (line : String)
  | evaluateText (line : String)
  | lastAnswer

namespace Request

def line? : Request → Option String
  | evaluate line | evaluateText line => some line
  | lastAnswer => none

/-- The call that a request is on the calculator, if it is more than a look at it. -/
def call? : Request → Option Call
  | evaluate line => some (.evaluate line)
  | evaluateText line => some (.evaluateText line)
  | lastAnswer => none

end Request

inductive Reply where
  | outcome (outcome : Except Failure Float)
  | text (text : String)
  | answer (value : Float)
deriving DecidableEq

namespace Calculator

/-- One request: its reply, and the calculator after it. -/
def serve (c : Calculator) : Request → Reply × Calculator
  | .evaluate line => (.outcome (c.evaluate line).1, (c.evaluate line).2)
  | .evaluateText line => (.text (c.evaluateText line).1, (c.evaluateText line).2)
  | .lastAnswer => (.answer c.lastAnswer, c)

/-- **Requests one after another.** -/
def serveAll (c : Calculator) : List Request → List Reply × Calculator
  | [] => ([], c)
  | request :: requests =>
    ((c.serve request).1 :: ((c.serve request).2.serveAll requests).1, ((c.serve request).2.serveAll requests).2)

theorem serveAll_append (requests requests' : List Request) : ∀ c : Calculator,
    c.serveAll (requests ++ requests') =
      ((c.serveAll requests).1 ++ ((c.serveAll requests).2.serveAll requests').1,
        ((c.serveAll requests).2.serveAll requests').2) := by
  induction requests with
  | nil => exact fun c => rfl
  | cons request requests ih => simp [serveAll, ih]

theorem serveAll_concat (c : Calculator) (requests : List Request) (request : Request) :
    c.serveAll (requests ++ [request]) =
      ((c.serveAll requests).1 ++ [((c.serveAll requests).2.serve request).1],
        ((c.serveAll requests).2.serve request).2) := serveAll_append requests [request] c

/-! ## What is remembered -/

/-- A look at the last answer is no call; any other request leaves what the call leaves. -/
theorem serve_snd (c : Calculator) (request : Request) :
    (c.serve request).2 = (c.run request.call?.toList).2 := by
  cases request <;> rfl

theorem run_append (calls calls' : List Call) : ∀ c : Calculator,
    (c.run (calls ++ calls')).2 = ((c.run calls).2.run calls').2 := by
  induction calls with
  | nil => exact fun c => rfl
  | cons call calls ih => exact fun c => ih (c.perform call).2

theorem serveAll_snd (requests : List Request) : ∀ c : Calculator,
    (c.serveAll requests).2 = (c.run (requests.filterMap Request.call?)).2 := by
  induction requests with
  | nil => exact fun c => rfl
  | cons request requests ih =>
    intro c
    have hcalls : (request :: requests).filterMap Request.call? =
        request.call?.toList ++ requests.filterMap Request.call? := by cases request <;> rfl
    rw [serveAll, ih, serve_snd, hcalls, run_append]

/-- **No value is lost, and no failure changes anything**: the last answer is the one of the history. -/
theorem lastAnswer_serveAll (settings : Settings) (requests : List Request) :
    ((new settings).serveAll requests).2.lastAnswer =
      remembered ((new settings).run (requests.filterMap Request.call?)).1 := by
  rw [serveAll_snd]
  exact (Faithful.run _ (faithful_new settings)).lastAnswer_eq

/-! ## Counting -/

theorem tokens_increment (root : Char) : Line.tokens root "a+1" = .ok [.answer, .op .add, .number 1] := by
  have hone : Line.read? root ['1'] = some [.number 1] :=
    Line.read?_run (List.forall_mem_singleton.2 rfl) (by decide +kernel)
  refine Line.tokens_eq_ok_iff.2 ⟨?_, by simp⟩
  show Line.read? root ['a', '+', '1'] = _
  rw [Line.read?_symbol_cons rfl rfl, Line.read?_symbol_cons rfl rfl, hone]
  rfl

theorem resolve_increment (checks : Bool) {x : Float} (h : (x + 1).isFinite = true) :
    Group.resolve checks [.number x, .op .add, .number 1] = .ok (x + 1) := by
  have hbrackets : Group.Bracketless [.number x, .op .add, .number 1] := by simp [Group.Bracketless, Token.isBracket]
  have hrefusal : Flat.Step.refusal? ⟨1, .add, x, 1⟩ = none := if_pos h
  have hadvance : Flat.advance checks [.number x, .op .add, .number 1] = .ok [.number (x + 1)] := by
    have hstep : Flat.nextStep [.number x, .op .add, .number 1] = .ok ⟨1, .add, x, 1⟩ := rfl
    unfold Flat.advance
    rw [hstep]
    cases checks <;> simp only [hrefusal] <;> rfl
  rw [Group.resolve_bracketless checks hbrackets]
  show Flat.value checks [.number x, .op .add, .number 1] = _
  rw [Flat.value_of_one_lt_length (by simp), hadvance]
  show Flat.value checks [.number (x + 1)] = _
  rw [Flat.value_of_length_le_one (by simp), Flat.final, h]
  simp

theorem evaluate_increment {c : Calculator} (h : (c.lastAnswer + 1).isFinite = true) :
    (c.evaluate "a+1").2 = { c with lastAnswer := c.lastAnswer + 1 } := by
  unfold evaluate outcome
  rw [tokens_increment]
  show c.after (Group.resolve c.settings.domainChecks [.number c.lastAnswer, .op .add, .number 1]) = _
  rw [resolve_increment _ h]
  rfl

theorem lastAnswer_serveAll_of_whole : ∀ (requests : List Request) {c : Calculator} {n : Nat},
    c.lastAnswer = Binary64.whole n → (∀ line ∈ requests.filterMap Request.line?, line = "a+1") →
      n + (requests.filterMap Request.line?).length ≤ 2 ^ 53 →
        (c.serveAll requests).2.lastAnswer = Binary64.whole (n + (requests.filterMap Request.line?).length)
  | [], c, n, hc, _, _ => hc
  | .lastAnswer :: requests, c, n, hc, hlines, hle => lastAnswer_serveAll_of_whole requests hc hlines hle
  | .evaluate line :: requests, c, n, hc, hlines, hle
  | .evaluateText line :: requests, c, n, hc, hlines, hle => by
    obtain ⟨rfl, hrest⟩ := List.forall_mem_cons.1 hlines
    have hlength : n + (requests.filterMap Request.line?).length + 1 ≤ 2 ^ 53 := hle
    have hnext : c.lastAnswer + 1 = Binary64.whole (n + 1) := by rw [hc, Binary64.whole_add_one (by omega)]
    have hfinite : (c.lastAnswer + 1).isFinite = true := by
      rw [hnext]
      exact (Binary64.isWhole_whole (by omega)).isFinite
    show ((c.evaluate "a+1").2.serveAll requests).2.lastAnswer =
      Binary64.whole (n + ((requests.filterMap Request.line?).length + 1))
    rw [evaluate_increment hfinite, lastAnswer_serveAll_of_whole requests hnext hrest (by omega)]
    congr 1
    omega

/-- **Lines that add one are counted**, whatever is asked between them. -/
theorem isWhole_serveAll (settings : Settings) (requests : List Request)
    (hlines : ∀ line ∈ requests.filterMap Request.line?, line = "a+1")
    (hle : (requests.filterMap Request.line?).length ≤ 2 ^ 53) :
    Binary64.IsWhole ((new settings).serveAll requests).2.lastAnswer (requests.filterMap Request.line?).length := by
  have hzero : (new settings).lastAnswer = Binary64.whole 0 := Binary64.whole_zero.symm
  rw [lastAnswer_serveAll_of_whole requests hzero hlines (by rwa [Nat.zero_add]), Nat.zero_add]
  exact Binary64.isWhole_whole hle

end Calculator

/-! ## Handles -/

namespace Session

/-- What is done with handles. -/
inductive Act where
  | fork (handle : Nat)
  | ask (handle : Nat) (request : Request)

/-- A request through a handle, which gets a reply if there is such a handle. -/
def serve (s : Session) (handle : Nat) : Request → Option Reply × Session
  | .evaluate line => ((s.evaluate handle line).1.map .outcome, (s.evaluate handle line).2)
  | .evaluateText line => ((s.evaluateText handle line).1.map .text, (s.evaluateText handle line).2)
  | .lastAnswer => ((s.calculator? handle).map fun c => .answer c.lastAnswer, s)

def perform (s : Session) : Act → Option Reply × Session
  | .fork handle => (none, s.fork handle)
  | .ask handle request => s.serve handle request

/-- **Acts one after another**: the replies, and the session in the end. -/
def run (s : Session) : List Act → List Reply × Session
  | [] => ([], s)
  | act :: acts =>
    ((s.perform act).1.toList ++ ((s.perform act).2.run acts).1, ((s.perform act).2.run acts).2)

/-- The requests that reach a calculator, of `n` handles at first. -/
def reaching : Nat → List Act → List Request
  | _, [] => []
  | n, .fork handle :: acts => reaching (if handle < n then n + 1 else n) acts
  | n, .ask handle request :: acts => if handle < n then request :: reaching n acts else reaching n acts

/-- The session of `n` handles on one calculator. -/
def single (n : Nat) (c : Calculator) : Session := ⟨.shared, [c], List.replicate n 0⟩

variable {n handle : Nat} {c : Calculator}

theorem calculator?_single (n handle : Nat) (c : Calculator) :
    (single n c).calculator? handle = if handle < n then some c else none := by
  by_cases h : handle < n
  · simp [calculator?, single, h]
  · simp [calculator?, single, h]

theorem update_single (h : handle < n) (c' : Calculator) : (single n c).update handle c' = single n c' := by
  simp [update, single, h]

theorem fork_single (n handle : Nat) (c : Calculator) :
    (single n c).fork handle = single (if handle < n then n + 1 else n) c := by
  by_cases h : handle < n
  · simp [fork, single, h, List.replicate_succ']
  · simp [fork, single, h]

theorem serve_single_of_lt (h : handle < n) (request : Request) :
    (single n c).serve handle request = (some (c.serve request).1, single n (c.serve request).2) := by
  cases request with
  | evaluate line => simp [serve, evaluate, calculator?_single, h, update_single h, Calculator.serve]
  | evaluateText line => simp [serve, evaluateText, calculator?_single, h, update_single h, Calculator.serve]
  | lastAnswer => simp [serve, calculator?_single, h, Calculator.serve]

theorem serve_single_of_not_lt (h : ¬ handle < n) (request : Request) :
    (single n c).serve handle request = (none, single n c) := by
  cases request with
  | evaluate line => simp [serve, evaluate, calculator?_single, h]
  | evaluateText line => simp [serve, evaluateText, calculator?_single, h]
  | lastAnswer => simp [serve, calculator?_single, h]

/-- **Handles on one calculator are that calculator**: it gives the replies, to the requests that reach it. -/
theorem run_single (acts : List Act) : ∀ (n : Nat) (c : Calculator),
    ((single n c).run acts).1 = (c.serveAll (reaching n acts)).1 ∧
      ∃ m, n ≤ m ∧ ((single n c).run acts).2 = single m (c.serveAll (reaching n acts)).2 := by
  induction acts with
  | nil => exact fun n c => ⟨rfl, n, Nat.le_refl n, rfl⟩
  | cons act acts ih =>
    intro n c
    cases act with
    | fork handle =>
      obtain ⟨hreplies, m, hm, hlast⟩ := ih (if handle < n then n + 1 else n) c
      simp only [run, perform, fork_single, reaching]
      refine ⟨hreplies, m, ?_, hlast⟩
      split at hm <;> omega
    | ask handle request =>
      by_cases h : handle < n
      · obtain ⟨hreplies, m, hm, hlast⟩ := ih n (c.serve request).2
        simp only [run, perform, serve_single_of_lt h, reaching, if_pos h, Calculator.serveAll]
        exact ⟨by rw [hreplies]; rfl, m, hm, hlast⟩
      · simp only [run, perform, serve_single_of_not_lt h, reaching, if_neg h]
        exact ih n c

end Session
end Reckoner
