import Mathlib.Data.List.Infix

namespace substring

variable {α : Type} {needle : List α}

/-- A word without the separator cannot stand across it. -/
theorem starts_of_starts_line {run text : List α} {sep : α} (hsep : sep ∉ needle)
    (h : needle <+: run ++ [sep] ++ text) : needle <+: run := by
  rcases List.prefix_or_prefix_of_prefix h (List.prefix_append (run ++ [sep]) text) with hshort | hlong
  · rcases List.prefix_concat_iff.mp hshort with hwhole | hrun
    · rw [hwhole] at hsep
      exact absurd (List.mem_append_right run (List.mem_singleton_self sep)) hsep
    · exact hrun
  · have hmem : sep ∈ run ++ [sep] := List.mem_append_right run (List.mem_singleton_self sep)
    exact absurd (hlong.subset hmem) hsep

/-- Two texts that are equal have the same text before the first separator. -/
theorem eq_of_append_cons_eq {before before' after after' : List α} {sep : α} (h : sep ∉ before)
    (h' : sep ∉ before') (heq : before ++ sep :: after = before' ++ sep :: after') :
    before = before' := by
  induction before generalizing before' with
  | nil =>
    cases before' with
    | nil => rfl
    | cons ch before' =>
      have hhead : sep = ch := (List.cons.inj heq).1
      exact absurd (hhead ▸ List.mem_cons_self) h'
  | cons ch before ih =>
    cases before' with
    | nil =>
      have hhead : ch = sep := (List.cons.inj heq).1
      exact absurd (hhead ▸ List.mem_cons_self) h
    | cons ch' before' =>
      obtain ⟨rfl, hrest⟩ := List.cons.inj heq
      have htail : sep ∉ before := fun hmem => h (List.mem_cons_of_mem _ hmem)
      have htail' : sep ∉ before' := fun hmem => h' (List.mem_cons_of_mem _ hmem)
      rw [ih htail htail' hrest]

variable [DecidableEq α]

/-- Where a word first stands in a text. -/
def find (needle : List α) : List α → Option Nat
  | [] => if needle = [] then some 0 else none
  | ch :: text =>
    if needle.isPrefixOf (ch :: text) then some 0 else (find needle text).map (· + 1)

theorem find_of_starts {text : List α} (h : needle <+: text) : find needle text = some 0 := by
  cases text with
  | nil => rw [find, if_pos (List.prefix_nil.mp h)]
  | cons ch text => rw [find, if_pos (List.isPrefixOf_iff_prefix.mpr h)]

theorem find_cons_of_not_starts {ch : α} {text : List α} (h : ¬ needle <+: ch :: text) :
    find needle (ch :: text) = (find needle text).map (· + 1) := by
  rw [find, if_neg fun hstarts => h (List.isPrefixOf_iff_prefix.mp hstarts)]

theorem find_eq_none_iff {text : List α} : find needle text = none ↔ ¬ needle <:+: text := by
  induction text with
  | nil =>
    rw [find, List.infix_nil, ite_eq_right_iff]
    simp
  | cons ch text ih =>
    rw [List.infix_cons_iff, not_or]
    by_cases hstarts : needle <+: ch :: text
    · rw [find_of_starts hstarts]
      simp [hstarts]
    · rw [find_cons_of_not_starts hstarts, Option.map_eq_none_iff, ih]
      simp [hstarts]

/-- A word that is found has the text before it and the text after it. -/
theorem eq_append_of_find {text : List α} {i : Nat} (h : find needle text = some i) :
    ∃ before after, before.length = i ∧ text = before ++ needle ++ after := by
  induction text generalizing i with
  | nil =>
    rw [find] at h
    obtain ⟨rfl, ⟨⟩⟩ := Option.ite_none_right_eq_some.mp h
    exact ⟨[], [], rfl, rfl⟩
  | cons ch text ih =>
    by_cases hstarts : needle <+: ch :: text
    · rw [find_of_starts hstarts] at h
      obtain ⟨after, hafter⟩ := hstarts
      exact ⟨[], after, Option.some.inj h, hafter.symm⟩
    · rw [find_cons_of_not_starts hstarts] at h
      obtain ⟨j, hj, rfl⟩ := Option.map_eq_some_iff.mp h
      obtain ⟨before, after, hlength, htext⟩ := ih hj
      exact ⟨ch :: before, after, congrArg (· + 1) hlength, by rw [htext]; rfl⟩

/-- The search for a word passes over a text whatever follows it. -/
def Passes (needle front : List α) : Prop :=
  ∀ text, find needle (front ++ text) = (find needle text).map (front.length + ·)

theorem passes_nil : Passes needle [] := by
  intro text
  simp

theorem Passes.append {front front' : List α} (h : Passes needle front) (h' : Passes needle front') :
    Passes needle (front ++ front') := by
  intro text
  rw [List.append_assoc, h, h', Option.map_map, List.length_append]
  congr 1
  exact funext fun i => (Nat.add_assoc _ _ i).symm

theorem Passes.flatMap {β : Type} {parts : List β} {f : β → List α}
    (h : ∀ part ∈ parts, Passes needle (f part)) : Passes needle (parts.flatMap f) := by
  induction parts with
  | nil => exact passes_nil
  | cons part parts ih =>
    rw [List.flatMap_cons]
    exact (h part (by simp)).append (ih fun other hother => h other (by simp [hother]))

theorem passes_line {run : List α} {sep : α} (hsep : sep ∉ needle) (hrun : ¬ needle <:+: run) :
    Passes needle (run ++ [sep]) := by
  intro text
  induction run with
  | nil =>
    have hstarts : ¬ needle <+: [] ++ [sep] ++ text := fun h =>
      hrun (starts_of_starts_line hsep h).isInfix
    rw [List.nil_append] at hstarts ⊢
    rw [List.singleton_append] at hstarts ⊢
    rw [find_cons_of_not_starts hstarts]
    congr 1
    exact funext fun i => Nat.add_comm i 1
  | cons ch run ih =>
    have hstarts : ¬ needle <+: ch :: run ++ [sep] ++ text := fun h =>
      hrun (starts_of_starts_line hsep h).isInfix
    have hrest : ¬ needle <:+: run := fun h => hrun (List.infix_cons h)
    rw [List.cons_append, List.cons_append] at hstarts ⊢
    rw [find_cons_of_not_starts hstarts, ih hrest, Option.map_map]
    congr 1
    exact funext fun i => Nat.add_right_comm _ i 1

end substring
