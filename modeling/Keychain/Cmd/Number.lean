import Keychain.Cmd.Reply
import Mathlib.Algebra.Group.Int.Defs
import Mathlib.Data.Int.Basic

namespace keychain.cmd

/-- The value of a string of digits. -/
def digits_value (digits : List UInt8) : Nat :=
  digits.foldl (fun value ch => value * 10 + (ch.toNat - 48)) 0

/-- The text of a number without its sign. -/
def unsigned_text (s : List UInt8) : List UInt8 :=
  if s.headD 0 = '-'.toUInt8 then s.tail else s

/-- The digits of the number that a text starts with. -/
def number_digits (s : List UInt8) : List UInt8 :=
  (unsigned_text s).takeWhile _isdigit

/-- The integer that they denote with the sign before them. -/
def denoted (s : List UInt8) : Int :=
  if s.headD 0 = '-'.toUInt8 then -digits_value (number_digits s) else digits_value (number_digits s)

/-- The integer is an `s32`. -/
def FitsS32 (n : Int) : Prop :=
  -2 ^ 31 ≤ n ∧ n < 2 ^ 31

instance (n : Int) : Decidable (FitsS32 n) :=
  inferInstanceAs (Decidable (_ ∧ _))

/-- The accumulator holds the value of the digits read so far modulo `2 ^ 32`. -/
theorem parse_digits_spec (p : List UInt8) (value : Nat) :
    parse_digits (BitVec.ofNat 32 value) p =
      (BitVec.ofNat 32 ((p.takeWhile _isdigit).foldl (fun value ch => value * 10 + (ch.toNat - 48)) value),
        p.dropWhile _isdigit) := by
  induction p generalizing value with
  | nil => rfl
  | cons ch p ih =>
    rw [parse_digits]
    by_cases hdigit : _isdigit ch = true
    · have hnext : BitVec.ofNat 32 value * 10#32 + BitVec.ofNat 32 (ch.toNat - 48) =
          BitVec.ofNat 32 (value * 10 + (ch.toNat - 48)) := by
        rw [BitVec.ofNat_add, BitVec.ofNat_mul]
      rw [if_pos hdigit, hnext, ih, List.takeWhile_cons_of_pos hdigit, List.dropWhile_cons_of_pos hdigit,
        List.foldl_cons]
    · rw [if_neg hdigit, List.takeWhile_cons_of_neg hdigit, List.dropWhile_cons_of_neg hdigit,
        List.foldl_nil]

theorem number_digits_eq_nil_iff (s : List UInt8) :
    number_digits s = [] ↔ _isdigit ((unsigned_text s).headD 0) = false := by
  unfold number_digits
  cases unsigned_text s with
  | nil => exact iff_of_true rfl rfl
  | cons ch p =>
    cases hdigit : _isdigit ch <;> simp [hdigit]

/-- The parser stores the integer denoted by the digits it consumes modulo
    `2 ^ 32`, and fails exactly where there is no digit. -/
theorem parse_number_spec (s : List UInt8) :
    parse_number s =
      if number_digits s = [] then none
      else some (BitVec.ofInt 32 (denoted s), (unsigned_text s).dropWhile _isdigit) := by
  have hparsed := parse_digits_spec (unsigned_text s) 0
  have hnone := number_digits_eq_nil_iff s
  change (if _isdigit ((unsigned_text s).headD 0) = true then _ else _) = _
  cases hdigit : _isdigit ((unsigned_text s).headD 0) with
  | false => rw [if_pos (hnone.mpr hdigit), if_neg Bool.false_ne_true]
  | true =>
    have hsome : number_digits s ≠ [] := by
      intro hnil
      rw [hnone.mp hnil] at hdigit
      cases hdigit
    rw [if_neg hsome, if_pos rfl]
    change some (if s.headD 0 = '-'.toUInt8 then -(parse_digits 0#32 (unsigned_text s)).1
      else (parse_digits 0#32 (unsigned_text s)).1, (parse_digits 0#32 (unsigned_text s)).2) = _
    rw [hparsed, denoted]
    split_ifs with hminus
    · rw [BitVec.ofInt_neg, BitVec.ofInt_natCast]
      rfl
    · rw [BitVec.ofInt_natCast]
      rfl

theorem toInt_ofInt_eq_iff (n : Int) : (BitVec.ofInt 32 n).toInt = n ↔ FitsS32 n := by
  rw [BitVec.toInt_ofInt, FitsS32]
  constructor
  · intro h
    rw [← h]
    exact ⟨Int.le_bmod (by decide), Int.bmod_lt (by decide)⟩
  · rintro ⟨hlow, hhigh⟩
    apply Int.bmod_eq_of_le
    · omega
    · omega

/-- The divisors of the table, with the fields that stand for them, are found
    again by either. -/
theorem prescaler_table : ∀ p ∈ LL_SPI_BAUDRATEPRESCALER_DIV,
    p.2 &&& SPI_CFG1_MBR = p.2 ∧ (p.1 : Int) ∈ ([2, 4, 8, 16, 32, 64, 128, 256] : List Int) ∧
      LL_SPI_BAUDRATEPRESCALER_DIV.find? (fun q => q.2 = p.2) = some p := by
  decide

theorem field_of_CFG1 (CFG1 field mask : BitVec 32) :
    ((CFG1 &&& ~~~mask) ||| field) &&& mask = field &&& mask := by
  ext i
  simp only [BitVec.getElem_and, BitVec.getElem_or, BitVec.getElem_not]
  cases mask[i] <;> simp

/-- A divisor that the prescaler accepts is the one that is then read back; any
    other value leaves the board alone. -/
theorem spi1_set_prescaler_spec (b : Board) (value : BitVec 32) :
    spi1_set_prescaler b value = (false, b) ∨
      ∃ b', spi1_set_prescaler b value = (true, b') ∧ spi1_get_prescaler b' = value.toNat ∧
        (value.toNat : Int) ∈ ([2, 4, 8, 16, 32, 64, 128, 256] : List Int) := by
  unfold spi1_set_prescaler
  cases hfind : LL_SPI_BAUDRATEPRESCALER_DIV.find? fun p => p.1 = value.toNat with
  | none => exact .inl rfl
  | some p =>
    have hvalue : p.1 = value.toNat := by simpa using List.find?_some hfind
    obtain ⟨hfield, hdivisor, hback⟩ := prescaler_table p (List.mem_of_find?_eq_some hfind)
    refine .inr ⟨_, rfl, ?_, hvalue ▸ hdivisor⟩
    simp only [spi1_get_prescaler, field_of_CFG1, hfield, hback, hvalue]

/-- The parser stores the integer that the text denotes, and fails if that is no
    `s32`. -/
def ParsesExactly (s : List UInt8) : Prop :=
  (∀ value rest, parse_number s = some (value, rest) → value.toInt = denoted s) ∧
    (¬ FitsS32 (denoted s) → parse_number s = none)

/-- CLKDIV accepts only a divisor that the text denotes, which is then read back,
    and otherwise leaves the prescaler alone. -/
def DivisorExact (s : List UInt8) (b : Board) : Prop :=
  ((_cmd_clkdiv_set s b).1 = true → number_digits s ≠ [] ∧
    denoted s ∈ ([2, 4, 8, 16, 32, 64, 128, 256] : List Int) ∧
    (spi1_get_prescaler (_cmd_clkdiv_set s b).2 : Int) = denoted s) ∧
  ((_cmd_clkdiv_set s b).1 = false → (_cmd_clkdiv_set s b).2.CFG1 = b.CFG1)

theorem divisor_exact_of_fits {s : List UInt8} (h : number_digits s = [] ∨ FitsS32 (denoted s))
    (b : Board) : DivisorExact s b := by
  have hspec := parse_number_spec s
  unfold DivisorExact _cmd_clkdiv_set _cmd_fetch_num
  by_cases hnil : number_digits s = []
  · rw [hspec, if_pos hnil]
    exact ⟨fun hfalse => absurd hfalse Bool.false_ne_true, fun _ => rfl⟩
  · have hfits : FitsS32 (denoted s) := h.resolve_left hnil
    have hint := (toInt_ofInt_eq_iff (denoted s)).mpr hfits
    rw [hspec, if_neg hnil]
    dsimp only
    obtain hno | ⟨b', hset, hread, hdivisor⟩ :=
      spi1_set_prescaler_spec b (BitVec.ofInt 32 (denoted s))
    · rw [hno]
      exact ⟨fun hfalse => absurd hfalse Bool.false_ne_true, fun _ => rfl⟩
    · -- A divisor is small, so it is the same number signed and unsigned.
      have hsmall : (BitVec.ofInt 32 (denoted s)).toNat ≤ 256 := by
        simp only [List.mem_cons, List.not_mem_nil, or_false] at hdivisor
        omega
      have hvalue : ((BitVec.ofInt 32 (denoted s)).toNat : Int) = denoted s :=
        (BitVec.toInt_eq_toNat_of_lt (by omega)).symm.trans hint
      rw [hset]
      refine ⟨fun _ => ⟨hnil, hvalue ▸ hdivisor, ?_⟩, fun hfalse => absurd hfalse.symm Bool.false_ne_true⟩
      simp only [if_true, hread, hvalue]

/-- Numbers are parsed exactly, and CLKDIV is set to what its text denotes, just
    where there is no number or the number is an `s32`. -/
theorem number_exact_iff (s : List UInt8) (b : Board) :
    ParsesExactly s ∧ DivisorExact s b ↔ number_digits s = [] ∨ FitsS32 (denoted s) := by
  have hspec := parse_number_spec s
  constructor
  · rintro ⟨⟨-, hfail⟩, -⟩
    by_contra hnot
    rw [not_or] at hnot
    rw [hfail hnot.2, if_neg hnot.1] at hspec
    cases hspec
  · intro h
    refine ⟨⟨?_, ?_⟩, divisor_exact_of_fits h b⟩
    · intro value rest hparse
      rw [hspec] at hparse
      split_ifs at hparse with hnil
      cases hparse
      exact (toInt_ofInt_eq_iff _).mpr (h.resolve_left hnil)
    · intro hout
      rw [hspec, if_pos (h.resolve_right hout)]

/-- A number that is two more than `2 ^ 32` is taken for the divisor 2. -/
theorem number_above_s32_is_divisor :
    ¬ FitsS32 (denoted (ascii "4294967298")) ∧
      parse_number (ascii "4294967298") = some (2#32, []) ∧
      (_cmd_clkdiv_set (ascii "4294967298") Board.sample).1 = true ∧
      spi1_get_prescaler (_cmd_clkdiv_set (ascii "4294967298") Board.sample).2 = 2 ∧
      ¬ (ParsesExactly (ascii "4294967298") ∧ DivisorExact (ascii "4294967298") Board.sample) := by
  have hout : ¬ FitsS32 (denoted (ascii "4294967298")) := by decide
  have hparse : parse_number (ascii "4294967298") = some (2#32, []) := by decide
  refine ⟨hout, hparse, by decide, by decide, ?_⟩
  rintro ⟨⟨-, hfail⟩, -⟩
  rw [hfail hout] at hparse
  cases hparse

end keychain.cmd
