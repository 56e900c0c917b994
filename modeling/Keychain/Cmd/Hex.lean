import Keychain.Cmd.Grammar

namespace keychain.cmd

/-- A character that stands for the value `n` of a hexadecimal digit, in either case. -/
def WritesDigit (n : Nat) (ch : UInt8) : Prop :=
  ch = hex_digit (ascii "ABCDEF") n ∨ ch = hex_digit (ascii "abcdef") n

/-- Two digits that stand for a byte. -/
def WritesByte (byte : UInt8) (text : List UInt8) : Prop :=
  ∃ high low, text = [high, low] ∧ WritesDigit (byte.toNat / 16) high ∧
    WritesDigit (byte.toNat % 16) low

/-- A text that stands for some bytes, two digits for each. -/
def WritesBytes : List UInt8 → List UInt8 → Prop
  | [], text => text = []
  | byte :: bytes, text => ∃ digits rest, text = digits ++ rest ∧ WritesByte byte digits ∧
      WritesBytes bytes rest

theorem _hex_to_bin_of_writesDigit {n : Nat} (hn : n < 16) {ch : UInt8} (h : WritesDigit n ch) :
    _hex_to_bin ch = n := by
  have hupper : ∀ n < 16, _hex_to_bin (hex_digit (ascii "ABCDEF") n) = n := by decide
  have hlower : ∀ n < 16, _hex_to_bin (hex_digit (ascii "abcdef") n) = n := by decide
  obtain rfl | rfl := h
  · exact hupper n hn
  · exact hlower n hn

/-- The two halves of a byte make it up. -/
theorem byte_of_halves (byte : UInt8) :
    UInt8.ofNat (byte.toNat / 16 * 16) ||| UInt8.ofNat (byte.toNat % 16) = byte := by
  have hbyte : byte.toNat < 256 := byte.toNat_lt
  have hhigh : byte.toNat / 16 * 16 < 256 := by omega
  have hlow : byte.toNat % 16 < 2 ^ 4 := Nat.mod_lt _ (by decide)
  rw [← UInt8.toNat_inj, UInt8.toNat_or, UInt8.toNat_ofNat_of_lt' hhigh,
    UInt8.toNat_ofNat_of_lt' (by omega : byte.toNat % 16 < 256), Nat.mul_comm,
    ← Nat.two_pow_add_eq_or_of_lt hlow]
  exact Nat.div_add_mod byte.toNat 16

theorem _get_hex_of_writesByte {byte : UInt8} {digits : List UInt8} (h : WritesByte byte digits)
    (rest : List UInt8) : _get_hex (digits ++ rest) = some byte := by
  obtain ⟨high, low, rfl, hhigh, hlow⟩ := h
  have hbyte : byte.toNat < 256 := byte.toNat_lt
  have hfirst := _hex_to_bin_of_writesDigit (by omega) hhigh
  have hsecond := _hex_to_bin_of_writesDigit (Nat.mod_lt _ (by decide)) hlow
  simp only [List.cons_append, List.nil_append, _get_hex, List.headD_cons, List.tail_cons, hfirst, hsecond]
  rw [if_neg (by omega), if_neg (by omega), Int.toNat_natCast, Int.toNat_natCast, byte_of_halves]

/-- The bytes that a text stands for are decoded first, and the rest of it then. -/
theorem hex_to_bin_of_writesBytes {bytes text : List UInt8} (h : WritesBytes bytes text)
    (rest : List UInt8) (limit : Nat) :
    hex_to_bin (text ++ rest) (bytes.length + limit) = bytes ++ hex_to_bin rest limit := by
  induction bytes generalizing text with
  | nil =>
    cases h
    rw [List.length_nil, Nat.zero_add]
    rfl
  | cons byte bytes ih =>
    obtain ⟨digits, more, rfl, hdigits, hmore⟩ := h
    have hdrop : (digits ++ (more ++ rest)).drop 2 = more ++ rest := by
      obtain ⟨high, low, rfl, -⟩ := hdigits
      rfl
    rw [List.length_cons, Nat.succ_add, List.append_assoc, hex_to_bin,
      _get_hex_of_writesByte hdigits, hdrop, ih hmore]
    rfl

/-- Such a text has two digits for each byte and nothing else. -/
theorem digits_of_writesBytes {bytes text : List UInt8} (h : WritesBytes bytes text) :
    text.length = 2 * bytes.length ∧ ∀ ch ∈ text, IsHex ch := by
  have hdigit : ∀ {n : Nat} {ch : UInt8}, n < 16 → WritesDigit n ch → IsHex ch := by
    intro n ch hn hch
    rw [← _hex_to_bin_nonneg_iff, _hex_to_bin_of_writesDigit hn hch]
    exact Int.natCast_nonneg n
  induction bytes generalizing text with
  | nil =>
    cases h
    exact ⟨rfl, fun _ hch => absurd hch List.not_mem_nil⟩
  | cons byte bytes ih =>
    obtain ⟨digits, rest, rfl, ⟨high, low, rfl, hhigh, hlow⟩, hrest⟩ := h
    obtain ⟨hlength, hdigits⟩ := ih hrest
    have hbyte : byte.toNat < 256 := byte.toNat_lt
    constructor
    · simp only [List.length_append, List.length_cons, List.length_nil, hlength]
      omega
    · intro ch hch
      simp only [List.cons_append, List.nil_append, List.mem_cons] at hch
      obtain rfl | rfl | hch := hch
      · exact hdigit (by omega) hhigh
      · exact hdigit (Nat.mod_lt _ (by decide)) hlow
      · exact hdigits ch hch

/-- The two digits of a byte, in either case, stand for it. -/
theorem writesByte_hex_digits {letters : List UInt8}
    (h : letters = ascii "ABCDEF" ∨ letters = ascii "abcdef") (byte : UInt8) :
    WritesByte byte (hex_digits letters 2 byte.toNat) := by
  have hbyte : byte.toNat < 256 := byte.toNat_lt
  have hhalf : byte.toNat / 16 % 16 = byte.toNat / 16 := Nat.mod_eq_of_lt (by omega)
  have hdigits : hex_digits letters 2 byte.toNat =
      [hex_digit letters (byte.toNat / 16), hex_digit letters (byte.toNat % 16)] := by
    rw [← hhalf]
    rfl
  obtain rfl | rfl := h
  · exact ⟨_, _, hdigits, .inl rfl, .inl rfl⟩
  · exact ⟨_, _, hdigits, .inr rfl, .inr rfl⟩

theorem writesBytes_hex_digits {letters : List UInt8}
    (h : letters = ascii "ABCDEF" ∨ letters = ascii "abcdef") (bytes : List UInt8) :
    WritesBytes bytes (bytes.flatMap fun byte => hex_digits letters 2 byte.toNat) := by
  induction bytes with
  | nil => rfl
  | cons byte bytes ih => exact ⟨_, _, rfl, writesByte_hex_digits h byte, ih⟩

theorem writesByte_format_02X (byte : UInt8) : WritesByte byte (format_02X byte) :=
  writesByte_hex_digits (.inl rfl) byte

theorem writesBytes_format_02X (bytes : List UInt8) :
    WritesBytes bytes (bytes.flatMap format_02X) :=
  writesBytes_hex_digits (.inl rfl) bytes

end keychain.cmd
