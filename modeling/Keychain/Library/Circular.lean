import Mathlib.Logic.Function.Basic
import Mathlib.Data.List.Range
import Mathlib.Data.Nat.ModEq

namespace circular

variable {α : Type} {size : Nat}

/-- The `count` cells that follow index `start` in a circular buffer of `size`
    cells, oldest first. -/
def window (size : Nat) (cells : Nat → α) (start count : Nat) : List α :=
  (List.range count).map fun offset => cells ((start + offset) % size)

/-- The number of steps that lead from index `tail` to index `head` when an
    index wraps at `size`. -/
def distance (size head tail : Nat) : Nat :=
  if tail ≤ head then head - tail else size - (tail - head)

@[simp] theorem window_zero (cells : Nat → α) (start : Nat) : window size cells start 0 = [] := rfl

@[simp] theorem length_window (cells : Nat → α) (start count : Nat) :
    (window size cells start count).length = count := by
  simp [window]

theorem window_succ (cells : Nat → α) (start count : Nat) :
    window size cells start (count + 1) =
      window size cells start count ++ [cells ((start + count) % size)] := by
  simp [window, List.range_succ]

theorem window_cons (cells : Nat → α) (start count : Nat) :
    window size cells start (count + 1) =
      cells (start % size) :: window size cells ((start + 1) % size) count := by
  simp only [window, List.range_succ_eq_map, List.map_cons, List.map_map, Nat.add_zero]
  congr 1
  apply List.map_congr_left
  intro offset _
  simp only [Function.comp_apply, Nat.mod_add_mod]
  congr 2
  omega

theorem window_congr {cells cells' : Nat → α} {start count : Nat}
    (h : ∀ offset < count, cells ((start + offset) % size) = cells' ((start + offset) % size)) :
    window size cells start count = window size cells' start count := by
  apply List.map_congr_left
  intro offset hoffset
  exact h offset (List.mem_range.mp hoffset)

/-- Different offsets below the size name different cells. -/
theorem add_mod_inj {start first second : Nat} (hfirst : first < size) (hsecond : second < size)
    (h : (start + first) % size = (start + second) % size) : first = second := by
  have hmod : first % size = second % size := Nat.ModEq.add_left_cancel' start h
  rwa [Nat.mod_eq_of_lt hfirst, Nat.mod_eq_of_lt hsecond] at hmod

/-- A store to a cell at or beyond the end of a window leaves the window as it
    was, as long as the offset of the cell does not wrap onto the window. -/
theorem window_update_beyond (cells : Nat → α) (value : α) (start : Nat) {count offset : Nat}
    (hcount : count ≤ offset) (hoffset : offset < size) :
    window size (Function.update cells ((start + offset) % size) value) start count =
      window size cells start count := by
  apply window_congr
  intro inner hinner
  apply Function.update_of_ne
  intro heq
  have := add_mod_inj (by omega) hoffset heq
  omega

theorem window_update_end (cells : Nat → α) (value : α) (start : Nat) {count : Nat}
    (hcount : count < size) :
    window size (Function.update cells ((start + count) % size) value) start (count + 1) =
      window size cells start count ++ [value] := by
  rw [window_succ, window_update_beyond cells value start (Nat.le_refl count) hcount]
  simp

theorem distance_self (index : Nat) : distance size index index = 0 := by
  simp [distance]

theorem distance_lt {head tail : Nat} (hhead : head < size) : distance size head tail < size := by
  unfold distance
  split <;> omega

theorem distance_eq_zero_iff {head tail : Nat} (htail : tail < size) :
    distance size head tail = 0 ↔ head = tail := by
  unfold distance
  split <;> omega

theorem add_distance_mod {head tail : Nat} (hhead : head < size) (htail : tail < size) :
    (tail + distance size head tail) % size = head := by
  unfold distance
  split
  · rw [Nat.add_sub_of_le ‹_›, Nat.mod_eq_of_lt hhead]
  · have hsum : tail + (size - (tail - head)) = head + size := by omega
    rw [hsum, Nat.add_mod_right, Nat.mod_eq_of_lt hhead]

theorem succ_mod_eq {index : Nat} (hindex : index < size) :
    (index + 1) % size = if index + 1 = size then 0 else index + 1 := by
  split
  · rename_i h
    rw [h, Nat.mod_self]
  · exact Nat.mod_eq_of_lt (by omega)

/-- Advancing the writing index lengthens the distance by one, unless it runs
    into the reading index. -/
theorem distance_succ_head {head tail : Nat} (hhead : head < size) (htail : tail < size)
    (hroom : (head + 1) % size ≠ tail) :
    distance size ((head + 1) % size) tail = distance size head tail + 1 := by
  rw [succ_mod_eq hhead] at hroom ⊢
  unfold distance
  split_ifs at hroom ⊢ <;> omega

/-- The writing index is one step behind the reading index exactly when all
    cells but one are in the window. -/
theorem succ_head_eq_tail_iff {head tail : Nat} (hhead : head < size) (htail : tail < size) :
    (head + 1) % size = tail ↔ distance size head tail + 1 = size := by
  rw [succ_mod_eq hhead]
  unfold distance
  split_ifs <;> omega

theorem distance_succ_tail {head tail : Nat} (hhead : head < size) (htail : tail < size)
    (hne : tail ≠ head) :
    distance size head ((tail + 1) % size) + 1 = distance size head tail := by
  rw [succ_mod_eq htail]
  unfold distance
  split_ifs <;> omega

end circular
