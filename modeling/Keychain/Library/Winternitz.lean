import Mathlib.Algebra.GroupWithZero.Nat
import Mathlib.Data.List.Forall2

namespace winternitz

section

variable {α : Type} (step : Nat → α → α)

/-- `n` steps along a hash chain from position `k` on. -/
def walk : Nat → Nat → α → α
  | 0, _, a => a
  | n + 1, k, a => walk n (k + 1) (step k a)

theorem walk_add (m n k : Nat) (a : α) :
    walk step (m + n) k a = walk step n (k + m) (walk step m k a) := by
  induction m generalizing k a with
  | zero => rw [Nat.zero_add, walk, Nat.add_zero]
  | succ m ih => rw [Nat.succ_add, walk, ih, walk, Nat.add_right_comm, Nat.add_assoc]

/-- Who has the node at `k` reaches the end as from the start. -/
theorem walk_rest {k top : Nat} (hk : k ≤ top) (a : α) :
    walk step (top - k) k (walk step k 0 a) = walk step top 0 a := by
  have hjoin := walk_add step k (top - k) 0 a
  rw [Nat.zero_add, Nat.add_sub_cancel' hk] at hjoin
  exact hjoin.symm

end

/-- The steps that are left from the digits to the ends of their chains. -/
def checksum (top : Nat) (digits : List Nat) : Nat :=
  (digits.map (top - ·)).sum

/-- The number with these digits, the highest first. -/
def value (base : Nat) (digits : List Nat) : Nat :=
  digits.foldl (fun v d => v * base + d) 0

variable {top base : Nat} {a b : List Nat}

theorem checksum_cons (top d : Nat) (digits : List Nat) :
    checksum top (d :: digits) = top - d + checksum top digits := by
  rw [checksum, List.map_cons, List.sum_cons, checksum]

theorem checksum_le_length (top : Nat) (digits : List Nat) :
    checksum top digits ≤ top * digits.length := by
  induction digits with
  | nil => exact Nat.zero_le _
  | cons d digits ih =>
    rw [checksum_cons, List.length_cons, Nat.mul_succ, Nat.add_comm]
    exact Nat.add_le_add ih (Nat.sub_le top d)

theorem checksum_le_of_le (h : List.Forall₂ (· ≤ ·) a b) : checksum top b ≤ checksum top a := by
  induction h with
  | nil => exact Nat.le_refl _
  | cons hd _ ih =>
    rw [checksum_cons, checksum_cons]
    exact Nat.add_le_add (Nat.sub_le_sub_left hd top) ih

/-- More steps forward on one chain leave fewer in all. -/
theorem eq_of_checksum_le (h : List.Forall₂ (· ≤ ·) a b) (hb : ∀ d ∈ b, d ≤ top)
    (hsum : checksum top a ≤ checksum top b) : a = b := by
  induction h with
  | nil => rfl
  | @cons d e a b hd hrest ih =>
    have he : e ≤ top := hb e List.mem_cons_self
    have hle : checksum top b ≤ checksum top a := checksum_le_of_le hrest
    rw [checksum_cons, checksum_cons] at hsum
    have hhead : d = e := by omega
    rw [hhead, ih (fun d hmem => hb d (List.mem_cons_of_mem e hmem)) (by omega)]

theorem foldl_mono (h : List.Forall₂ (· ≤ ·) a b) {v w : Nat} (hvw : v ≤ w) :
    a.foldl (fun v d => v * base + d) v ≤ b.foldl (fun v d => v * base + d) w := by
  induction h generalizing v w with
  | nil => exact hvw
  | cons hd _ ih => exact ih (Nat.add_le_add (Nat.mul_le_mul_right base hvw) hd)

theorem value_mono (h : List.Forall₂ (· ≤ ·) a b) : value base a ≤ value base b :=
  foldl_mono h (Nat.le_refl 0)

/-- Behind the digits of their checksums, no digits lie below others at every position. -/
theorem eq_of_le {s t : List Nat} (hs : value base s = checksum top a)
    (ht : value base t = checksum top b) (hb : ∀ d ∈ b, d ≤ top) (hlength : a.length = b.length)
    (h : List.Forall₂ (· ≤ ·) (a ++ s) (b ++ t)) : a = b := by
  have hdigits : List.Forall₂ (· ≤ ·) a b := by
    have htake := List.forall₂_take a.length h
    rwa [List.take_left, hlength, List.take_left] at htake
  have hchecksum : List.Forall₂ (· ≤ ·) s t := by
    have hdrop := List.forall₂_drop a.length h
    rwa [List.drop_left, hlength, List.drop_left] at hdrop
  refine eq_of_checksum_le hdigits hb ?_
  rw [← hs, ← ht]
  exact value_mono hchecksum

end winternitz
