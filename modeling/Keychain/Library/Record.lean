import Mathlib.Data.List.Basic

namespace record

variable {α : Type}

/-- Walk over records that are stored one behind another, each as long as `size` says from
    its begin on, up to the one that is wanted for the `n`-th time. The result is what is
    stored from there on, or that there is none, or nothing at all if the walk does not end. -/
def walk (size : List α → Nat) (wanted : List α → Bool) : Nat → Nat → List α → Option (Option (List α))
  | 0, _, _ => none
  | _ + 1, _, [] => some none
  | fuel + 1, n, first :: rest =>
    let stored := first :: rest
    if wanted stored = false then walk size wanted fuel n (stored.drop (size stored))
    else if n = 0 then some (some stored)
    else walk size wanted fuel (n - 1) (stored.drop (size stored))

/-- A record is not empty and tells its size and whether it is wanted, whatever follows. -/
structure Framed (size : List α → Nat) (wanted : List α → Bool) (record : List α) : Prop where
  ne_nil : record ≠ []
  size_eq : ∀ rest, size (record ++ rest) = record.length
  wanted_eq : ∀ rest, wanted (record ++ rest) = wanted record

/-- The records from the one on that is wanted for the `n`-th time. -/
def from_nth (wanted : List α → Bool) : Nat → List (List α) → Option (List (List α))
  | _, [] => none
  | n, record :: records =>
    if wanted record = false then from_nth wanted n records
    else if n = 0 then some (record :: records)
    else from_nth wanted (n - 1) records

variable {size : List α → Nat} {wanted : List α → Bool}

theorem walk_framed {record rest : List α} (h : Framed size wanted record) (fuel n : Nat) :
    walk size wanted (fuel + 1) n (record ++ rest) =
      if wanted record = false then walk size wanted fuel n rest
      else if n = 0 then some (some (record ++ rest))
      else walk size wanted fuel (n - 1) rest := by
  have hwanted := h.wanted_eq rest
  have hdrop : (record ++ rest).drop (size (record ++ rest)) = rest := by
    rw [h.size_eq, List.drop_left]
  cases record with
  | nil => exact absurd rfl h.ne_nil
  | cons first more =>
    rw [List.cons_append] at hwanted hdrop ⊢
    rw [walk, hwanted, hdrop]

/-- A walk over framed records ends, and finds the one that it looks for. -/
theorem walk_flatten {records : List (List α)} (h : ∀ record ∈ records, Framed size wanted record)
    {fuel : Nat} (hfuel : records.length < fuel) (n : Nat) :
    walk size wanted fuel n records.flatten = some ((from_nth wanted n records).map List.flatten) := by
  induction records generalizing fuel n with
  | nil =>
    obtain ⟨fuel, rfl⟩ := Nat.exists_eq_succ_of_ne_zero (Nat.ne_of_gt hfuel)
    rfl
  | cons record records ih =>
    obtain ⟨fuel, rfl⟩ := Nat.exists_eq_succ_of_ne_zero (Nat.ne_of_gt (Nat.zero_lt_of_lt hfuel))
    have hrest := fun n => ih (fun other hother => h other (List.mem_cons_of_mem _ hother))
      (Nat.lt_of_succ_lt_succ hfuel) n
    rw [List.flatten_cons, walk_framed (h record List.mem_cons_self), from_nth]
    split_ifs with hwanted hzero
    · exact hrest n
    · rfl
    · exact hrest (n - 1)

theorem from_nth_eq_none {records : List (List α)} (h : ∀ record ∈ records, wanted record = false)
    (n : Nat) : from_nth wanted n records = none := by
  induction records with
  | nil => rfl
  | cons record records ih =>
    rw [from_nth, if_pos (h record List.mem_cons_self)]
    exact ih fun other hother => h other (List.mem_cons_of_mem _ hother)

end record
