import Mathlib.Data.List.Basic

namespace history

variable {α : Type}

/-- Wherever an entry of a history satisfies `P`, the entries before it satisfy `Q`. -/
def Preceded (P : α → Prop) (Q : List α → Prop) (entries : List α) : Prop :=
  ∀ before entry after, entries = before ++ entry :: after → P entry → Q before

theorem preceded_of_forall_not {P : α → Prop} (Q : List α → Prop) {entries : List α}
    (h : ∀ entry ∈ entries, ¬ P entry) : Preceded P Q entries := by
  rintro before entry after rfl hentry
  exact absurd hentry (h entry (by simp))

/-- The second part of a history is judged with the first part in its past. -/
theorem preceded_append {P : α → Prop} {Q : List α → Prop} (first second : List α) :
    Preceded P Q (first ++ second) ↔
      Preceded P Q first ∧ Preceded P (fun before => Q (first ++ before)) second := by
  constructor
  · intro h
    refine ⟨?_, ?_⟩
    · rintro before entry after rfl hentry
      exact h before entry (after ++ second) (by simp) hentry
    · rintro before entry after rfl hentry
      exact h (first ++ before) entry after (by simp) hentry
  · rintro ⟨hfirst, hsecond⟩ before entry after heq hentry
    obtain ⟨middle, hbefore, hrest⟩ | ⟨middle, hfront, hrest⟩ := List.append_eq_append_iff.mp heq
    · rw [hbefore]
      exact hsecond middle entry after hrest hentry
    · cases middle with
      | nil =>
        have := hsecond [] entry after (by simpa using hrest.symm) hentry
        simpa [hfront] using this
      | cons head middle =>
        simp only [List.cons_append, List.cons.injEq] at hrest
        obtain ⟨rfl, -⟩ := hrest
        exact hfirst before entry middle hfront hentry

theorem preceded_cons {P : α → Prop} {Q : List α → Prop} (head : α) (tail : List α) :
    Preceded P Q (head :: tail) ↔
      (P head → Q []) ∧ Preceded P (fun before => Q (head :: before)) tail := by
  have happend := preceded_append (P := P) (Q := Q) [head] tail
  rw [List.singleton_append] at happend
  rw [happend]
  refine and_congr_left fun _ => ⟨fun h hhead => h [] head [] rfl hhead, ?_⟩
  intro h before entry after heq hentry
  cases before with
  | nil =>
    simp only [List.nil_append, List.cons.injEq] at heq
    exact h (heq.1 ▸ hentry)
  | cons _ _ => simp at heq

/-- Whatever comes after an entry that satisfies `P` satisfies `R`. -/
def Followed (P R : α → Prop) (entries : List α) : Prop :=
  entries.Pairwise fun entry later => P entry → R later

/-- A first part without such an entry asks nothing of the second. -/
theorem followed_append_of_forall_not {P : α → Prop} (R : α → Prop) {first second : List α}
    (hfirst : ∀ entry ∈ first, ¬ P entry) (hsecond : Followed P R second) :
    Followed P R (first ++ second) := by
  refine List.pairwise_append.mpr ⟨?_, hsecond, fun entry hentry _ _ hP => absurd hP (hfirst entry hentry)⟩
  exact List.pairwise_of_forall_mem_list fun entry hentry _ _ hP => absurd hP (hfirst entry hentry)

end history
