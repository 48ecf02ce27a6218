import Reckoner.Proofs.Serving

/-!
# Threads — a calculator behind a lock

Threads call on one calculator, each through a handle of its own.  A call waits for the lock, reads what is behind it,
works out what the request makes of that, writes it back and lets go of the lock; between any two of these steps other
threads may take theirs (`Step`).  Only one thread at a time is inside, and what it writes back is made of what was
there when it came in (`Consistent`).  So the replies are those of one calculator to the requests in the order in
which they were replied to (`Reachable.consistent`), and no call is passed over (`Reachable.inOrder`) or held up for
good (`Reachable.exists_step`).
-/
namespace Reckoner
namespace Threads

/-- How far a thread is with its call. -/
inductive Phase where
  | idle
  | waiting (request : Request)
  | entered (request : Request)
  | served (request : Request) (reply : Reply) (next : Calculator)
  | written (request : Request) (reply : Reply)

namespace Phase

/-- The request that has no reply yet. -/
def pending? : Phase → Option Request
  | idle => none
  | waiting request | entered request | served request _ _ | written request _ => some request

/-- Between lock and unlock. -/
def isInside : Phase → Bool
  | idle | waiting _ => false
  | _ => true

/-- Steps that are left until the reply. -/
def work : Phase → Nat
  | idle => 0
  | waiting _ => 4
  | entered _ => 3
  | served .. => 2
  | written .. => 1

/-- What a thread inside knows: `shared` is there now, and `before` was there when it came in. -/
def Knows (before shared : Calculator) : Phase → Prop
  | served request reply next => shared = before ∧ before.serve request = (reply, next)
  | written request reply => before.serve request = (reply, shared)
  | _ => shared = before

end Phase

/-- A call that got its reply. -/
structure Answered where
  thread : Nat
  request : Request
  reply : Reply

/-- All threads at one moment, with the calls made so far and the replies to them. -/
structure State where
  shared : Calculator
  holder : Option Nat
  threads : List Phase
  called : List (Nat × Request)
  answered : List Answered

namespace State

/-- One thread, and nothing called yet. -/
def start (settings : Settings) : State := ⟨.new settings, none, [.idle], [], []⟩

/-- The requests that got a reply, in this order. -/
def requests (s : State) : List Request := s.answered.map (·.request)

def calledBy (s : State) (i : Nat) : List Request := (s.called.filter (·.1 == i)).map (·.2)

def answeredTo (s : State) (i : Nat) : List Request := (s.answered.filter (·.thread == i)).map (·.request)

def pending? (s : State) (i : Nat) : Option Request := s.threads[i]?.bind Phase.pending?

def work (s : State) : Nat := (s.threads.map Phase.work).sum

end State

/-- **What may happen next.** -/
inductive Step (s : State) : State → Prop where
  /-- A thread clones its handle for a new thread. -/
  | clone {i : Nat} (hi : i < s.threads.length) : Step s { s with threads := s.threads ++ [.idle] }
  | call {i : Nat} (request : Request) (hi : s.threads[i]? = some .idle) :
    Step s { s with threads := s.threads.set i (.waiting request), called := s.called ++ [(i, request)] }
  | lock {i : Nat} {request : Request} (hi : s.threads[i]? = some (.waiting request)) (hfree : s.holder = none) :
    Step s { s with threads := s.threads.set i (.entered request), holder := some i }
  | read {i : Nat} {request : Request} (hi : s.threads[i]? = some (.entered request)) :
    Step s { s with
      threads := s.threads.set i (.served request (s.shared.serve request).1 (s.shared.serve request).2) }
  | write {i : Nat} {request : Request} {reply : Reply} {next : Calculator}
    (hi : s.threads[i]? = some (.served request reply next)) :
    Step s { s with threads := s.threads.set i (.written request reply), shared := next }
  | unlock {i : Nat} {request : Request} {reply : Reply} (hi : s.threads[i]? = some (.written request reply)) :
    Step s { s with
      threads := s.threads.set i .idle, holder := none, answered := s.answered ++ [⟨i, request, reply⟩] }

/-- The states that a schedule can lead to. -/
inductive Reachable (settings : Settings) : State → Prop where
  | start : Reachable settings (.start settings)
  | step {s s' : State} (h : Reachable settings s) (hstep : Step s s') : Reachable settings s'

/-! ## One thread at a time -/

/-- **One calculator, and at most one thread inside**: the replies so far are those of `settled`, and what is behind the
lock is `settled` too, but for what the thread inside is about. -/
structure Consistent (settled : List Reply × Calculator) (s : State) : Prop where
  replies : s.answered.map (·.reply) = settled.1
  alone : ∀ i phase, s.threads[i]? = some phase → phase.isInside = true → s.holder = some i
  free : s.holder = none → s.shared = settled.2
  inside : ∀ i, s.holder = some i →
    ∃ phase, s.threads[i]? = some phase ∧ phase.isInside = true ∧ phase.Knows settled.2 s.shared

theorem getElem?_set_cases {α : Type} {l : List α} {i j : Nat} {a b : α} (h : (l.set i a)[j]? = some b) :
    (i = j ∧ b = a) ∨ (i ≠ j ∧ l[j]? = some b) := by
  by_cases hij : i = j
  · subst hij
    rw [List.getElem?_set] at h
    split at h <;> simp_all
  · exact .inr ⟨hij, by rwa [List.getElem?_set_ne hij] at h⟩

theorem getElem?_set_of_some {α : Type} {l : List α} {i : Nat} {a b : α} (h : l[i]? = some b) :
    (l.set i a)[i]? = some a := by
  obtain ⟨hlt, _⟩ := List.getElem?_eq_some_iff.1 h
  exact List.getElem?_set_self hlt

namespace Consistent

variable {settled : List Reply × Calculator} {s : State} {i : Nat} {phase phase' : Phase}

theorem knows (h : Consistent settled s) (hi : s.threads[i]? = some phase) (hinside : phase.isInside = true) :
    s.holder = some i ∧ phase.Knows settled.2 s.shared := by
  have hholder := h.alone i phase hi hinside
  obtain ⟨_, hi', _, hknows⟩ := h.inside i hholder
  rw [hi] at hi'
  cases hi'
  exact ⟨hholder, hknows⟩

/-- A thread goes on outside. -/
theorem outside (h : Consistent settled s) (hi : s.threads[i]? = some phase) (hphase : phase.isInside = false)
    (hphase' : phase'.isInside = false) (called : List (Nat × Request)) :
    Consistent settled { s with threads := s.threads.set i phase', called := called } := by
  refine ⟨h.replies, fun j p hj hp => ?_, h.free, fun j hj => ?_⟩
  · obtain ⟨_, rfl⟩ | ⟨_, hj'⟩ := getElem?_set_cases hj
    · rw [hphase'] at hp
      cases hp
    · exact h.alone j p hj' hp
  · obtain ⟨p, hjp, hp, hknows⟩ := h.inside j hj
    by_cases hij : i = j
    · subst hij
      rw [hi] at hjp
      cases hjp
      rw [hphase] at hp
      cases hp
    · exact ⟨p, by rwa [List.getElem?_set_ne hij], hp, hknows⟩

/-- The thread inside goes on inside. -/
theorem further (h : Consistent settled s) (hi : s.threads[i]? = some phase) (hphase : phase.isInside = true)
    (hphase' : phase'.isInside = true) {shared : Calculator} (hknows : phase'.Knows settled.2 shared) :
    Consistent settled { s with threads := s.threads.set i phase', shared := shared } := by
  have hholder := h.alone i phase hi hphase
  refine ⟨h.replies, fun j p hj hp => ?_, fun hfree => ?_, fun j hj => ?_⟩
  · obtain ⟨rfl, _⟩ | ⟨_, hj'⟩ := getElem?_set_cases hj
    · exact hholder
    · exact h.alone j p hj' hp
  · rw [hholder] at hfree
    cases hfree
  · rw [hholder] at hj
    cases hj
    exact ⟨phase', getElem?_set_of_some hi, hphase', hknows⟩

end Consistent

/-- **What one step keeps.** -/
theorem Step.consistent {settings : Settings} {s s' : State} (hstep : Step s s')
    (h : Consistent ((Calculator.new settings).serveAll s.requests) s) :
    Consistent ((Calculator.new settings).serveAll s'.requests) s' := by
  cases hstep with
  | clone hi =>
    refine ⟨h.replies, fun j p hj hp => ?_, h.free, fun j hj => ?_⟩
    · dsimp only at hj
      by_cases hlt : j < s.threads.length
      · rw [List.getElem?_append_left hlt] at hj
        exact h.alone j p hj hp
      · rw [List.getElem?_append_right (by omega)] at hj
        obtain rfl := List.mem_singleton.1 (List.mem_of_getElem? hj)
        cases hp
    · obtain ⟨p, hjp, hp, hknows⟩ := h.inside j hj
      obtain ⟨hlt, _⟩ := List.getElem?_eq_some_iff.1 hjp
      exact ⟨p, by rwa [List.getElem?_append_left hlt], hp, hknows⟩
  | call request hi => exact h.outside hi rfl rfl _
  | @lock i request hi hfree =>
    refine ⟨h.replies, fun j p hj hp => ?_, fun hnone => (by cases hnone), fun j hj => ?_⟩
    · obtain ⟨rfl, _⟩ | ⟨_, hj'⟩ := getElem?_set_cases hj
      · rfl
      · have hholder := h.alone j p hj' hp
        rw [hfree] at hholder
        cases hholder
    · cases hj
      exact ⟨.entered request, getElem?_set_of_some hi, rfl, h.free hfree⟩
  | read hi =>
    obtain ⟨_, hshared⟩ := h.knows hi rfl
    exact h.further hi rfl rfl ⟨hshared, by rw [← hshared]⟩
  | write hi =>
    obtain ⟨_, _, hserve⟩ := h.knows hi rfl
    exact h.further hi rfl rfl hserve
  -- only here a reply is given, and what the thread made of the calculator is settled
  | @unlock i request reply hi =>
    obtain ⟨hholder, hserve⟩ := h.knows hi rfl
    have hserved : (Calculator.new settings).serveAll (s.requests ++ [request]) =
        (((Calculator.new settings).serveAll s.requests).1 ++ [reply], s.shared) := by
      rw [Calculator.serveAll_concat, hserve]
    have hrequests : (s.answered ++ [Answered.mk i request reply]).map Answered.request = s.requests ++ [request] :=
      List.map_append
    unfold State.requests
    rw [hrequests, hserved]
    refine ⟨?_, fun j p hj hp => ?_, fun _ => rfl, fun j hj => (by cases hj)⟩
    · rw [List.map_append, h.replies]
      rfl
    · obtain ⟨_, rfl⟩ | ⟨hne, hj'⟩ := getElem?_set_cases hj
      · cases hp
      · have hother := h.alone j p hj' hp
        rw [hholder] at hother
        cases hother
        exact absurd rfl hne

/-- **And so does every schedule.** -/
theorem Reachable.consistent {settings : Settings} {s : State} (h : Reachable settings s) :
    Consistent ((Calculator.new settings).serveAll s.requests) s := by
  induction h with
  | start =>
    refine ⟨rfl, fun i p hi hp => ?_, fun _ => rfl, fun i hi => (by cases hi)⟩
    obtain rfl := List.mem_singleton.1 (List.mem_of_getElem? hi)
    cases hp
  | step _ hstep ih => exact hstep.consistent ih

/-! ## No call is passed over -/

/-- **The calls of a thread got their replies in the order of the calls**, all but the one that it may be at. -/
def InOrder (s : State) : Prop := ∀ i, s.calledBy i = s.answeredTo i ++ (s.pending? i).toList

theorem bind_set {l : List Phase} {i : Nat} {phase : Phase} (hi : l[i]? = some phase) (phase' : Phase) (j : Nat) :
    (l.set i phase')[j]?.bind Phase.pending? = if i = j then phase'.pending? else l[j]?.bind Phase.pending? := by
  by_cases hij : i = j
  · subst hij
    rw [getElem?_set_of_some hi, if_pos rfl]
    rfl
  · rw [List.getElem?_set_ne hij, if_neg hij]

/-- A step from lock to unlock makes no difference. -/
theorem InOrder.further {s : State} {i : Nat} {phase phase' : Phase} (h : InOrder s) (hi : s.threads[i]? = some phase)
    (hpending : phase'.pending? = phase.pending?) (shared : Calculator) (holder : Option Nat) :
    InOrder { s with threads := s.threads.set i phase', shared := shared, holder := holder } := by
  intro j
  have hsame : (s.threads.set i phase')[j]?.bind Phase.pending? = s.threads[j]?.bind Phase.pending? := by
    rw [bind_set hi, hpending]
    by_cases hij : i = j
    · rw [if_pos hij, ← hij, hi]
      rfl
    · rw [if_neg hij]
  have hj := h j
  simp only [State.calledBy, State.answeredTo, State.pending?] at hj ⊢
  rw [hsame, hj]

theorem Step.inOrder {s s' : State} (hstep : Step s s') (h : InOrder s) : InOrder s' := by
  cases hstep with
  | lock hi hfree => exact h.further hi (by rfl) _ _
  | read hi => exact h.further hi (by rfl) _ _
  | write hi => exact h.further hi (by rfl) _ _
  | clone hi =>
    intro j
    have hj := h j
    simp only [State.calledBy, State.answeredTo, State.pending?] at hj ⊢
    rw [hj]
    by_cases hlt : j < s.threads.length
    · rw [List.getElem?_append_left hlt]
    · rw [List.getElem?_append_right (by omega), List.getElem?_eq_none (by omega)]
      cases j - s.threads.length <;> rfl
  | @call i request hi =>
    intro j
    have hj := h j
    simp only [State.calledBy, State.answeredTo, State.pending?] at hj ⊢
    rw [bind_set hi, List.filter_append, List.map_append, hj]
    by_cases hij : i = j
    · subst hij
      simp [hi, Phase.pending?]
    · simp [hij]
  | @unlock i request reply hi =>
    intro j
    have hj := h j
    simp only [State.calledBy, State.answeredTo, State.pending?] at hj ⊢
    rw [bind_set hi, List.filter_append, List.map_append, hj]
    by_cases hij : i = j
    · subst hij
      simp [hi, Phase.pending?]
    · simp [hij]

theorem Reachable.inOrder {settings : Settings} {s : State} (h : Reachable settings s) : InOrder s := by
  induction h with
  | start =>
    intro i
    cases i <;> rfl
  | step _ hstep ih => exact hstep.inOrder ih

/-! ## No call is held up -/

theorem sum_set_lt {phase phase' : Phase} (hlt : phase'.work < phase.work) : ∀ {l : List Phase} {i : Nat},
    l[i]? = some phase → ((l.set i phase').map Phase.work).sum < (l.map Phase.work).sum := by
  intro l
  induction l with
  | nil => simp
  | cons p l ih =>
    intro i hi
    cases i with
    | zero =>
      cases hi
      simpa using hlt
    | succ i => simpa using ih hi

/-- **As long as a request is pending, some thread has a step nearer to its reply.** -/
theorem Reachable.exists_step {settings : Settings} {s : State} (h : Reachable settings s) {i : Nat} {request : Request}
    (hi : s.pending? i = some request) : ∃ s', Step s s' ∧ s'.called = s.called ∧ s'.work < s.work := by
  have hconsistent := h.consistent
  cases hholder : s.holder with
  | some j =>
    obtain ⟨phase, hj, hinside, _⟩ := hconsistent.inside j hholder
    cases phase with
    | idle | waiting _ => cases hinside
    | entered _ => exact ⟨_, .read hj, rfl, sum_set_lt (Nat.lt_succ_self _) hj⟩
    | served _ _ _ => exact ⟨_, .write hj, rfl, sum_set_lt (Nat.lt_succ_self _) hj⟩
    | written _ _ => exact ⟨_, .unlock hj, rfl, sum_set_lt (Nat.lt_succ_self _) hj⟩
  -- with the lock free nobody is inside, so the thread itself can take it
  | none =>
    obtain ⟨phase, hphase, hpending⟩ := Option.bind_eq_some_iff.1 hi
    cases phase with
    | idle => cases hpending
    | waiting _ => exact ⟨_, .lock hphase hholder, rfl, sum_set_lt (Nat.lt_succ_self _) hphase⟩
    | entered _ | served _ _ _ | written _ _ =>
      have hinside := hconsistent.alone i _ hphase rfl
      rw [hholder] at hinside
      cases hinside

/-! ## One calculator -/

/-- **Handles on one calculator are one calculator.**  Acts through the handles of a shared session get the replies that
one calculator gives to the requests that reach it.  The same holds of threads, whatever the schedule: no call is
passed over or held up, the replies are those of one calculator to the requests in the order of the replies, and with
the lock free it is that calculator that is behind it.  So its last answer is the one that the history of all threads
leaves to remember, and if all of them only add one, it is the number of times they did. -/
theorem shared_eq_single (settings : Settings) :
    (∀ acts : List Session.Act,
      let (replies, session) := (Session.new .shared settings).run acts
      let (expected, c) := (Calculator.new settings).serveAll (Session.reaching 1 acts)
      replies = expected ∧ ∃ n, 1 ≤ n ∧ session = .single n c) ∧
    ∀ s, Reachable settings s →
      InOrder s ∧
      (∀ i request, s.pending? i = some request → ∃ s', Step s s' ∧ s'.called = s.called ∧ s'.work < s.work) ∧
      s.answered.map (·.reply) = ((Calculator.new settings).serveAll s.requests).1 ∧
      (s.holder = none →
        s.shared = ((Calculator.new settings).serveAll s.requests).2 ∧
        s.shared.lastAnswer = remembered ((Calculator.new settings).run (s.requests.filterMap Request.call?)).1 ∧
        let lines := s.requests.filterMap Request.line?
        ((∀ line ∈ lines, line = "a+1") → lines.length ≤ 2 ^ 53 →
          Binary64.IsWhole s.shared.lastAnswer lines.length)) := by
  refine ⟨fun acts => Session.run_single acts 1 (.new settings), fun s hs => ?_⟩
  have hconsistent := hs.consistent
  refine ⟨hs.inOrder, fun i request hi => hs.exists_step hi, hconsistent.replies, fun hfree => ?_⟩
  have hshared := hconsistent.free hfree
  refine ⟨hshared, ?_, fun hlines hle => ?_⟩
  · rw [hshared]
    exact Calculator.lastAnswer_serveAll settings s.requests
  · rw [hshared]
    exact Calculator.isWhole_serveAll settings s.requests hlines hle

/-- Two threads add one, and the one that called later comes first. -/
theorem shared_eq_single_two : ∃ s, Reachable {} s ∧ s.holder = none ∧ s.answered.map (·.thread) = [1, 0] ∧
    s.answered.map (·.reply) = [.outcome (.ok 1), .outcome (.ok 2)] ∧ Binary64.IsWhole s.shared.lastAnswer 2 := by
  have hcalled := ((@Reachable.start {}).step (.clone (i := 0) (by decide))).step
    (.call (i := 0) (.evaluate "a+1") rfl) |>.step (.call (i := 1) (.evaluate "a+1") rfl)
  have hsecond := ((hcalled.step (.lock (i := 1) rfl rfl)).step (.read (i := 1) rfl)).step (.write (i := 1) rfl)
    |>.step (.unlock (i := 1) rfl)
  have hfirst := ((hsecond.step (.lock (i := 0) rfl rfl)).step (.read (i := 0) rfl)).step (.write (i := 0) rfl)
    |>.step (.unlock (i := 0) rfl)
  obtain ⟨_, _, hreplies, hfree⟩ := (shared_eq_single {}).2 _ hfirst
  obtain ⟨_, _, hwhole⟩ := hfree rfl
  refine ⟨_, hfirst, rfl, rfl, ?_, hwhole ?_ ?_⟩
  · rw [hreplies]
    decide +kernel
  · decide
  · decide

end Threads
end Reckoner
