/-!
# Runs — lists run by run

A list begins with a run of elements of one kind, and what stands behind it begins with none (`exists_run`).  A rule that
says what an element becomes, given what stands in front of it and behind it, says what a list becomes: the pieces one
after the other (`inPlace`).  Where a rule leaves out all of a run but its first element, the run is passed over in one
go (`inPlace_run`).
-/
namespace Reckoner

variable {α β : Type} {p : α → Bool}

/-- **A run is taken up to where it stops**, and nothing behind it. -/
theorem takeWhile_run {run tail : List α} (hrun : ∀ a ∈ run, p a = true) (htail : ∀ a ∈ tail.head?, p a = false) :
    (run ++ tail).takeWhile p = run ∧ (run ++ tail).dropWhile p = tail := by
  rw [List.takeWhile_append_of_pos hrun, List.dropWhile_append_of_pos hrun]
  cases tail with
  | nil => simp
  | cons a tail => simp [htail a rfl]

theorem exists_run (p : α → Bool) (as : List α) :
    ∃ run rest : List α, as = run ++ rest ∧ (∀ a ∈ run, p a = true) ∧ ∀ a ∈ rest.head?, p a = false := by
  refine ⟨as.takeWhile p, as.dropWhile p, List.takeWhile_append_dropWhile.symm,
    fun a ha => List.all_eq_true.1 List.all_takeWhile a ha, fun a ha => ?_⟩
  have hhead := List.head?_dropWhile_not p as
  rw [Option.mem_def.1 ha] at hhead
  simpa using hhead

/-- **The pieces that the elements become**; what stands in front of an element is given nearest first. -/
def inPlace (f : List α → α → List α → List β) (before : List α) : List α → List β
  | [] => []
  | a :: behind => f before a behind ++ inPlace f (a :: before) behind

variable {f : List α → α → List α → List β}

@[simp] theorem inPlace_nil (before : List α) : inPlace f before [] = [] := rfl

theorem inPlace_cons (before : List α) (a : α) (behind : List α) :
    inPlace f before (a :: behind) = f before a behind ++ inPlace f (a :: before) behind := rfl

theorem mem_inPlace_iff {b : β} : ∀ {as before : List α}, b ∈ inPlace f before as ↔
    ∃ (front : List α) (a : α) (behind : List α), as = front ++ a :: behind ∧ b ∈ f (front.reverse ++ before) a behind
  | [], before => by simp
  | a :: as, before => by
    rw [inPlace_cons, List.mem_append, mem_inPlace_iff]
    constructor
    · rintro (h | ⟨front, c, behind, rfl, h⟩)
      · exact ⟨[], a, as, rfl, h⟩
      · exact ⟨a :: front, c, behind, rfl, by simpa using h⟩
    · rintro ⟨_ | ⟨d, front⟩, c, behind, heq, h⟩
      · cases heq
        exact .inl h
      · cases heq
        exact .inr ⟨front, c, behind, rfl, by simpa using h⟩

theorem map_inPlace {γ : Type} (g : β → γ) : ∀ as before : List α,
    (inPlace f before as).map g = inPlace (fun before a behind => (f before a behind).map g) before as
  | [], _ => rfl
  | a :: as, before => by rw [inPlace_cons, inPlace_cons, List.map_append, map_inPlace g as (a :: before)]

theorem inPlace_map (g : α → α) : ∀ as before : List α, inPlace f (before.map g) (as.map g) =
    inPlace (fun before a behind => f (before.map g) (g a) (behind.map g)) before as
  | [], _ => rfl
  | a :: as, before => by
    have ih := inPlace_map g as (a :: before)
    rw [List.map_cons] at ih
    rw [List.map_cons, inPlace_cons, inPlace_cons, ih]

theorem inPlace_run (hf : ∀ before a behind, before.head?.any p = true → p a = true → f before a behind = [])
    (rest : List α) : ∀ (run before : List α), before.head?.any p = true → (∀ a ∈ run, p a = true) →
      inPlace f before (run ++ rest) = inPlace f (run.reverse ++ before) rest
  | [], before, _, _ => rfl
  | a :: run, before, hbefore, hrun => by
    rcases List.forall_mem_cons.1 hrun with ⟨ha, hrun⟩
    have ih := inPlace_run hf rest run (a :: before) (by simpa using ha) hrun
    rw [List.cons_append, inPlace_cons, hf before a _ hbefore ha, List.nil_append, ih]
    simp

/-- The elements of a run, the first of which says all. -/
theorem inPlace_cons_run (hf : ∀ before a behind, before.head?.any p = true → p a = true → f before a behind = [])
    {a : α} {run : List α} (rest before : List α) (h : ∀ b ∈ a :: run, p b = true) :
    inPlace f before (a :: run ++ rest) = f before a (run ++ rest) ++ inPlace f ((a :: run).reverse ++ before) rest := by
  rcases List.forall_mem_cons.1 h with ⟨ha, hrun⟩
  have hbehind := inPlace_run hf rest run (a :: before) (by simpa using ha) hrun
  rw [List.cons_append, inPlace_cons, hbehind]
  simp

end Reckoner
