import Keychain.Library.Machine
import Mathlib.Data.List.Infix

namespace utf8

/-- Where a decoder stands between two bytes: the continuation bytes it still
    owes, the range of the next one, and the bits read so far. -/
structure Pending where
  owed : Nat
  low : UInt8
  high : UInt8
  value : Nat
  low_ge : 0x80 ≤ low

/-- Between two characters. -/
def Pending.none : Pending :=
  ⟨0, 0x80, 0xBF, 0, by decide⟩

/-- The first byte of a character. One that starts none is skipped. -/
def start (byte : UInt8) : Pending × List Nat :=
  if byte < 0x80 then (.none, [byte.toNat])
  else if byte < 0xC2 then (.none, [])
  else if byte < 0xE0 then (⟨1, 0x80, 0xBF, byte.toNat - 0xC0, by decide⟩, [])
  else if byte = 0xE0 then (⟨2, 0xA0, 0xBF, 0, by decide⟩, [])
  else if byte = 0xED then (⟨2, 0x80, 0x9F, 0xD, by decide⟩, [])
  else if byte < 0xF0 then (⟨2, 0x80, 0xBF, byte.toNat - 0xE0, by decide⟩, [])
  else if byte = 0xF0 then (⟨3, 0x90, 0xBF, 0, by decide⟩, [])
  else if byte < 0xF4 then (⟨3, 0x80, 0xBF, byte.toNat - 0xF0, by decide⟩, [])
  else if byte = 0xF4 then (⟨3, 0x80, 0x8F, 4, by decide⟩, [])
  else (.none, [])

/-- One byte, with the character that it completes. A byte outside the range
    makes the decoder skip what it has read of the character, and is then read
    as the first byte of another. -/
def step (pending : Pending) (byte : UInt8) : Pending × List Nat :=
  if pending.owed ≠ 0 ∧ pending.low ≤ byte ∧ byte ≤ pending.high then
    let value := pending.value * 64 + (byte.toNat - 0x80)
    if pending.owed = 1 then (.none, [value])
    else (⟨pending.owed - 1, 0x80, 0xBF, value, by decide⟩, [])
  else
    start byte

/-- The characters of a byte string with what is no UTF-8 left out, also a
    character that its end cuts off. -/
def decode_ignore (bytes : List UInt8) : List Nat :=
  (machine.run step .none bytes).2.flatten

/-- An ASCII byte is never a continuation byte. -/
theorem step_ascii (pending : Pending) {byte : UInt8} (h : byte < 0x80) :
    step pending byte = (.none, [byte.toNat]) := by
  have hout : ¬ (pending.owed ≠ 0 ∧ pending.low ≤ byte ∧ byte ≤ pending.high) := by
    rintro ⟨-, hlow, -⟩
    exact absurd (UInt8.lt_of_lt_of_le h (UInt8.le_trans pending.low_ge hlow)) (UInt8.lt_irrefl _)
  rw [step, if_neg hout, start, if_pos h]

theorem run_ascii {text : List UInt8} (h : ∀ byte ∈ text, byte < 0x80) (pending : Pending) :
    (machine.run step pending text).2.flatten = text.map UInt8.toNat := by
  induction text generalizing pending with
  | nil => rfl
  | cons byte text ih =>
    rw [machine.run_cons, step_ascii pending (h byte (by simp))]
    simp [ih fun other hother => h other (by simp [hother])]

/-- ASCII text that stands in a byte string stands in its characters, whatever
    surrounds it. -/
theorem infix_decode_ignore {text bytes : List UInt8} (hascii : ∀ byte ∈ text, byte < 0x80)
    (h : text <:+: bytes) : text.map UInt8.toNat <:+: decode_ignore bytes := by
  obtain ⟨before, after, rfl⟩ := h
  simp only [decode_ignore, machine.run_append, List.flatten_append, run_ascii hascii]
  exact List.infix_append _ _ _

end utf8
