import Mathlib.Algebra.Group.Nat.Even
import Mathlib.Data.Nat.Bitwise

namespace merkle

variable {α : Type} (combine : Nat → Nat → α → α → α) (leaf : Nat → α)

/-- The node at a height and an index of the binary tree over the leaves. A node
    above them is combined at its own height and index from its two children. -/
def node : Nat → Nat → α
  | 0, i => leaf i
  | h + 1, i => combine (h + 1) i (node h (2 * i)) (node h (2 * i + 1))

/-- The index of the node that shares its parent. -/
def sibling (i : Nat) : Nat :=
  if i % 2 = 0 then i + 1 else i - 1

/-- The siblings from a node upwards, for `levels` levels. -/
def path : Nat → Nat → Nat → List α
  | 0, _, _ => []
  | levels + 1, h, i => node combine leaf h (sibling i) :: path levels (h + 1) (i / 2)

/-- What a node and the siblings above it combine to. -/
def climb : Nat → Nat → α → List α → α
  | _, _, a, [] => a
  | h, i, a, s :: rest =>
    climb (h + 1) (i / 2)
      (if i % 2 = 0 then combine (h + 1) (i / 2) a s else combine (h + 1) (i / 2) s a) rest

@[simp] theorem length_path (levels h i : Nat) : (path combine leaf levels h i).length = levels := by
  induction levels generalizing h i with
  | zero => rfl
  | succ levels ih => rw [path, List.length_cons, ih]

theorem xor_eq_one_iff {i j : Nat} : i ^^^ j = 1 ↔ i = sibling j := by
  have hcancel : i ^^^ j = 1 ↔ i = j ^^^ 1 := by
    constructor
    · intro h
      rw [← h, Nat.xor_comm i, Nat.xor_xor_cancel_left]
    · intro h
      rw [h, Nat.xor_comm j, Nat.xor_assoc, Nat.xor_self, Nat.xor_zero]
  rw [hcancel, sibling]
  rcases Nat.mod_two_eq_zero_or_one j with hj | hj
  · rw [if_pos hj, Nat.xor_one_of_even (Nat.even_iff.mpr hj)]
  · rw [if_neg (by omega), Nat.xor_one_of_odd (Nat.odd_iff.mpr hj)]

theorem sibling_add {i j : Nat} (hi : i % 2 = 0) : sibling (i + j) = i + sibling j := by
  unfold sibling
  rcases Nat.mod_two_eq_zero_or_one j with hj | hj
  · rw [if_pos (by omega), if_pos hj, Nat.add_assoc]
  · rw [if_neg (by omega), if_neg (by omega)]
    omega

theorem sibling_lt_iff {i n : Nat} (hn : n % 2 = 0) : sibling i < n ↔ i < n := by
  unfold sibling
  split <;> omega

/-- A node and its sibling combine to their parent, each on its own side. -/
theorem node_parent (h i : Nat) :
    node combine leaf (h + 1) (i / 2) =
      if i % 2 = 0 then
        combine (h + 1) (i / 2) (node combine leaf h i) (node combine leaf h (sibling i))
      else
        combine (h + 1) (i / 2) (node combine leaf h (sibling i)) (node combine leaf h i) := by
  rw [node, sibling]
  split
  · have hleft : 2 * (i / 2) = i := by omega
    rw [hleft]
  · have hleft : 2 * (i / 2) = i - 1 := by omega
    have hright : i - 1 + 1 = i := by omega
    rw [hleft, hright]

/-- The nodes above the leaves from `offset` on, counted from there. -/
theorem node_shift {offset h : Nat} (hoffset : 2 ^ h ∣ offset) (i : Nat) :
    node combine leaf h (i + offset / 2 ^ h) =
      node (fun h i => combine h (i + offset / 2 ^ h)) (fun i => leaf (i + offset)) h i := by
  induction h generalizing i with
  | zero => rw [node, node, Nat.pow_zero, Nat.div_one]
  | succ h ih =>
    have hbelow : 2 ^ h ∣ offset := (Nat.pow_dvd_pow 2 (Nat.le_succ h)).trans hoffset
    have heven : offset / 2 ^ h = 2 * (offset / 2 ^ (h + 1)) := by
      rw [Nat.pow_succ, ← Nat.div_div_eq_div_mul, Nat.mul_div_cancel']
      exact (Nat.dvd_div_iff_mul_dvd hbelow).mpr (by rwa [← Nat.pow_succ])
    have hleft : 2 * (i + offset / 2 ^ (h + 1)) = 2 * i + offset / 2 ^ h := by omega
    have hright : 2 * (i + offset / 2 ^ (h + 1)) + 1 = 2 * i + 1 + offset / 2 ^ h := by omega
    rw [node, node, hright, hleft, ih hbelow, ih hbelow]

theorem path_shift {offset levels h : Nat} (hoffset : 2 ^ (h + levels) ∣ offset) (i : Nat) :
    path combine leaf levels h (i + offset / 2 ^ h) =
      path (fun h i => combine h (i + offset / 2 ^ h)) (fun i => leaf (i + offset)) levels h i := by
  induction levels generalizing h i with
  | zero => rfl
  | succ levels ih =>
    have hbelow : 2 ^ h ∣ offset := (Nat.pow_dvd_pow 2 (Nat.le_add_right h _)).trans hoffset
    have heven : offset / 2 ^ h % 2 = 0 := by
      apply Nat.mod_eq_zero_of_dvd
      apply (Nat.dvd_div_iff_mul_dvd hbelow).mpr
      rw [← Nat.pow_succ]
      exact (Nat.pow_dvd_pow 2 (by omega)).trans hoffset
    have hhalf : (i + offset / 2 ^ h) / 2 = i / 2 + offset / 2 ^ (h + 1) := by
      rw [Nat.pow_succ, ← Nat.div_div_eq_div_mul]
      omega
    rw [path, path, hhalf, ih (by rwa [Nat.add_assoc, Nat.add_comm 1]), Nat.add_comm i,
      sibling_add heven, Nat.add_comm _ (sibling i), node_shift combine leaf hbelow]

theorem getElem?_path (levels h i : Nat) (l : Nat) (hl : l < levels) :
    (path combine leaf levels h i)[l]? =
      some (node combine leaf (h + l) (sibling (i / 2 ^ l))) := by
  induction l generalizing levels h i with
  | zero =>
    obtain ⟨levels, rfl⟩ := Nat.exists_eq_succ_of_ne_zero (Nat.ne_of_gt hl)
    rw [path, Nat.pow_zero, Nat.div_one]
    rfl
  | succ l ih =>
    obtain ⟨levels, rfl⟩ := Nat.exists_eq_succ_of_ne_zero (Nat.ne_of_gt (Nat.zero_lt_of_lt hl))
    rw [path, List.getElem?_cons_succ, ih levels _ _ (Nat.lt_of_succ_lt_succ hl), Nat.pow_succ',
      Nat.div_div_eq_div_mul, Nat.add_right_comm, Nat.add_assoc]

/-- A leaf and its authentication path lead to the root. -/
theorem climb_path (levels h i : Nat) :
    climb combine h i (node combine leaf h i) (path combine leaf levels h i) =
      node combine leaf (h + levels) (i / 2 ^ levels) := by
  induction levels generalizing h i with
  | zero => rw [path, climb, Nat.add_zero, Nat.pow_zero, Nat.div_one]
  | succ levels ih =>
    rw [path, climb, ← node_parent, ih, Nat.pow_succ', ← Nat.div_div_eq_div_mul,
      Nat.add_right_comm, Nat.add_assoc]

end merkle
