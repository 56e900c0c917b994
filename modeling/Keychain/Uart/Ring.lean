import Keychain.Library.Circular
import Mathlib.Data.BitVec

namespace keychain.uart

/-- One of the two rings of `uart_t`. The counters are never reset and wrap at
    2^32, the indices wrap at the depth of the ring. -/
structure Ring where
  buf : Nat → UInt8
  wr_index : Nat
  wr_cnt : BitVec 32
  rd_index : Nat
  rd_cnt : BitVec 32

/-- `(u32)(wr_cnt-rd_cnt)`. -/
def Ring.size (r : Ring) : Nat :=
  (r.wr_cnt - r.rd_cnt).toNat

/-- `if (++index >= depth) index = 0`. -/
def next_index (depth index : Nat) : Nat :=
  if index + 1 ≥ depth then 0 else index + 1

def Ring.write (r : Ring) (c : UInt8) : Ring :=
  { r with buf := Function.update r.buf r.wr_index c }

def Ring.advance (depth : Nat) (r : Ring) : Ring :=
  { r with wr_index := next_index depth r.wr_index }

def Ring.count (r : Ring) : Ring :=
  { r with wr_cnt := r.wr_cnt + 1 }

/-- The three updates that put a character in. -/
def Ring.put (depth : Nat) (r : Ring) (c : UInt8) : Ring :=
  ((r.write c).advance depth).count

/-- The two updates that take a character out. -/
def Ring.take (depth : Nat) (r : Ring) : Ring :=
  { r with rd_index := next_index depth r.rd_index, rd_cnt := r.rd_cnt + 1 }

/-- The characters in the ring, oldest first. -/
def Ring.queue (depth : Nat) (r : Ring) : List UInt8 :=
  circular.window depth r.buf r.rd_index r.size

/-- The indices follow the counters, and no more characters are counted than the
    ring has cells. -/
structure Ring.Valid (depth : Nat) (r : Ring) : Prop where
  size_le : r.size ≤ depth
  wr_index : r.wr_index = r.wr_cnt.toNat % depth
  rd_index : r.rd_index = r.rd_cnt.toNat % depth

/-- A ring as it is initialised, whatever the array holds. -/
def Ring.empty (buf : Nat → UInt8) : Ring :=
  { buf, wr_index := 0, wr_cnt := 0, rd_index := 0, rd_cnt := 0 }

@[simp] theorem Ring.length_queue (depth : Nat) (r : Ring) : (r.queue depth).length = r.size := by
  simp [Ring.queue]

theorem Ring.size_eq_zero_iff (r : Ring) : r.size = 0 ↔ r.rd_cnt = r.wr_cnt := by
  constructor
  · intro hsize
    have hzero : r.wr_cnt - r.rd_cnt = 0 := BitVec.eq_of_toNat_eq hsize
    exact (sub_eq_zero.mp hzero).symm
  · intro hcounters
    rw [Ring.size, hcounters, sub_self]
    rfl

theorem Ring.queue_eq_nil {depth : Nat} {r : Ring} (hempty : r.rd_cnt = r.wr_cnt) : r.queue depth = [] := by
  rw [← List.length_eq_zero_iff, r.length_queue, r.size_eq_zero_iff]
  exact hempty

theorem Ring.size_put (depth : Nat) {r : Ring} (hroom : r.size + 1 < 2 ^ 32) (c : UInt8) :
    (r.put depth c).size = r.size + 1 := by
  have hcounters : r.wr_cnt + 1 - r.rd_cnt = r.wr_cnt - r.rd_cnt + 1 := add_sub_right_comm _ _ _
  change (r.wr_cnt + 1 - r.rd_cnt).toNat = _
  rw [hcounters, BitVec.toNat_add]
  exact Nat.mod_eq_of_lt hroom

theorem Ring.size_take (depth : Nat) {r : Ring} (hne : r.rd_cnt ≠ r.wr_cnt) :
    (r.take depth).size + 1 = r.size := by
  have hpos : r.size ≠ 0 := fun hzero => hne (r.size_eq_zero_iff.mp hzero)
  have hcounters : r.wr_cnt - (r.rd_cnt + 1) = r.wr_cnt - r.rd_cnt - 1 := sub_add_eq_sub_sub _ _ _
  have hbound : r.size < 2 ^ 32 := (r.wr_cnt - r.rd_cnt).isLt
  change (r.wr_cnt - (r.rd_cnt + 1)).toNat + 1 = _
  rw [hcounters, BitVec.toNat_sub]
  change (2 ^ 32 - 1 + r.size) % 2 ^ 32 + 1 = r.size
  omega

section Depth

variable {depth : Nat}

theorem next_index_eq {index : Nat} (h : index < depth) : next_index depth index = (index + 1) % depth := by
  rw [circular.succ_mod_eq h, next_index]
  split_ifs <;> omega

/-- A counter and its index wrap together, as the depth divides 2^32. -/
theorem succ_cnt_mod (hdepth : depth ∣ 2 ^ 32) (cnt : BitVec 32) :
    (cnt + 1).toNat % depth = (cnt.toNat % depth + 1) % depth := by
  rw [BitVec.toNat_add, Nat.mod_mod_of_dvd _ hdepth, Nat.mod_add_mod]
  rfl

theorem Ring.Valid.wr_index_eq (hdepth : depth ∣ 2 ^ 32) {r : Ring} (h : r.Valid depth) :
    r.wr_index = (r.rd_index + r.size) % depth := by
  have hcounters : r.wr_cnt = r.rd_cnt + (r.wr_cnt - r.rd_cnt) := (add_sub_cancel _ _).symm
  rw [h.wr_index, h.rd_index, hcounters, BitVec.toNat_add, Nat.mod_mod_of_dvd _ hdepth, Nat.mod_add_mod]
  rfl

theorem Ring.Valid.empty (buf : Nat → UInt8) : (Ring.empty buf).Valid depth where
  size_le := by
    rw [(Ring.empty buf).size_eq_zero_iff.mpr rfl]
    exact Nat.zero_le depth
  wr_index := (Nat.zero_mod depth).symm
  rd_index := (Nat.zero_mod depth).symm

/-- With a cell free, the character is appended to the queue. -/
theorem Ring.Valid.put (hdepth : depth ∣ 2 ^ 32) (hshort : depth < 2 ^ 32) {r : Ring} (h : r.Valid depth)
    (hroom : r.size < depth) (c : UInt8) :
    (r.put depth c).Valid depth ∧ (r.put depth c).queue depth = r.queue depth ++ [c] := by
  have hsize := Ring.size_put depth (r := r) (by omega) c
  have hwrite : r.wr_index < depth := h.wr_index ▸ Nat.mod_lt _ (by omega)
  constructor
  · refine ⟨by omega, ?_, h.rd_index⟩
    change next_index depth r.wr_index = (r.wr_cnt + 1).toNat % depth
    rw [next_index_eq hwrite, succ_cnt_mod hdepth, ← h.wr_index]
  · rw [Ring.queue, hsize]
    change circular.window depth (Function.update r.buf r.wr_index c) r.rd_index (r.size + 1) = _
    rw [h.wr_index_eq hdepth]
    exact circular.window_update_end r.buf c r.rd_index hroom

/-- With the counters apart, the oldest character is taken off the queue. -/
theorem Ring.Valid.take (hdepth : depth ∣ 2 ^ 32) {r : Ring} (h : r.Valid depth)
    (hne : r.rd_cnt ≠ r.wr_cnt) :
    (r.take depth).Valid depth ∧ r.queue depth = r.buf r.rd_index :: (r.take depth).queue depth := by
  have hsize := Ring.size_take depth hne
  have hle := h.size_le
  have hread : r.rd_index < depth := h.rd_index ▸ Nat.mod_lt _ (by omega)
  have hindex : (r.take depth).rd_index = (r.rd_index + 1) % depth := next_index_eq hread
  constructor
  · refine ⟨by omega, h.wr_index, ?_⟩
    change _ = (r.rd_cnt + 1).toNat % depth
    rw [hindex, succ_cnt_mod hdepth, ← h.rd_index]
  · rw [Ring.queue, ← hsize, circular.window_cons, Nat.mod_eq_of_lt hread, ← hindex]
    rfl

end Depth

end keychain.uart
