import Keychain.Cmd.Hex

namespace keychain.cmd

/-- `_get_hex` over the memory from `src` on. Outside the memory nothing can be
    read. -/
def _get_hex_in : List UInt8 → Option (Option UInt8)
  | [] => none
  | ch :: src =>
    let high := _hex_to_bin ch
    if high < 0 then some none
    else
      match src with
      | [] => none
      | ch :: _ =>
        let low := _hex_to_bin ch
        if low < 0 then some none
        else some (some (UInt8.ofNat (high.toNat * 16) ||| UInt8.ofNat low.toNat))

/-- The loop of `hex_to_bin`, for as many rounds as there is fuel. The byte is
    stored through `dest`, which has moved on by `i`. -/
def hex_to_bin_loop (limit : Int) : Nat → Nat → List UInt8 → List UInt8 → Option (Nat × List UInt8)
  | 0, _, _, _ => none
  | fuel + 1, i, dest, src =>
    if (i : Int) < limit then
      match _get_hex_in src with
      | none => none
      | some none => some (i, dest)
      | some (some byte) =>
        if i < dest.length then hex_to_bin_loop limit fuel (i + 1) (dest.set i byte) (src.drop 2)
        else none
    else some (i, dest)

/-- `hex_to_bin` with the memory of `dest` and the memory from `src` on: what it
    returns, and the memory of `dest` behind it. -/
def hex_to_bin_in (dest src : List UInt8) (limit : Int) : Option (Nat × List UInt8) :=
  hex_to_bin_loop limit (limit.toNat + 1) 0 dest src

/-- How many hexadecimal digits a text starts with. -/
def leading_digits (text : List UInt8) : Nat :=
  (text.takeWhile fun ch => decide (IsHex ch)).length

theorem writesDigit_of_isHex {ch : UInt8} (h : IsHex ch) : ∃ n < 16, WritesDigit n ch := by
  have hnumeral : ∀ n < 10, hex_digit (ascii "ABCDEF") n = UInt8.ofNat (48 + n) := by decide
  have hlower : ∀ n < 6, hex_digit (ascii "abcdef") (10 + n) = UInt8.ofNat (97 + n) := by decide
  have hupper : ∀ n < 6, hex_digit (ascii "ABCDEF") (10 + n) = UInt8.ofNat (65 + n) := by decide
  obtain ⟨hfrom, hto⟩ | ⟨hfrom, hto⟩ | ⟨hfrom, hto⟩ := h
  · have hge : 48 ≤ ch.toNat := UInt8.le_iff_toNat_le.mp hfrom
    have hle : ch.toNat ≤ 57 := UInt8.le_iff_toNat_le.mp hto
    refine ⟨ch.toNat - 48, by omega, .inl ?_⟩
    rw [hnumeral _ (by omega), Nat.add_sub_of_le hge, UInt8.ofNat_toNat]
  · have hge : 97 ≤ ch.toNat := UInt8.le_iff_toNat_le.mp hfrom
    have hle : ch.toNat ≤ 102 := UInt8.le_iff_toNat_le.mp hto
    refine ⟨10 + (ch.toNat - 97), by omega, .inr ?_⟩
    rw [hlower _ (by omega), Nat.add_sub_of_le hge, UInt8.ofNat_toNat]
  · have hge : 65 ≤ ch.toNat := UInt8.le_iff_toNat_le.mp hfrom
    have hle : ch.toNat ≤ 70 := UInt8.le_iff_toNat_le.mp hto
    refine ⟨10 + (ch.toNat - 65), by omega, .inl ?_⟩
    rw [hupper _ (by omega), Nat.add_sub_of_le hge, UInt8.ofNat_toNat]

/-- Any two digits stand for a byte. -/
theorem writesByte_of_isHex {high low : UInt8} (hhigh : IsHex high) (hlow : IsHex low) :
    ∃ byte, WritesByte byte [high, low] := by
  obtain ⟨n, hn, hfirst⟩ := writesDigit_of_isHex hhigh
  obtain ⟨m, hm, hsecond⟩ := writesDigit_of_isHex hlow
  have hbyte : (UInt8.ofNat (16 * n + m)).toNat = 16 * n + m :=
    UInt8.toNat_ofNat_of_lt' (by omega : 16 * n + m < 256)
  have hdiv : (16 * n + m) / 16 = n := by omega
  have hmod : (16 * n + m) % 16 = m := by omega
  refine ⟨UInt8.ofNat (16 * n + m), high, low, rfl, ?_, ?_⟩
  · rw [hbyte, hdiv]
    exact hfirst
  · rw [hbyte, hmod]
    exact hsecond

theorem leading_digits_cons {ch : UInt8} (text : List UInt8) :
    leading_digits (ch :: text) = if IsHex ch then leading_digits text + 1 else 0 := by
  unfold leading_digits
  rw [List.takeWhile_cons]
  by_cases hch : IsHex ch
  · rw [if_pos (decide_eq_true hch), if_pos hch, List.length_cons]
  · rw [if_neg (by simpa using hch), if_neg hch, List.length_nil]

theorem leading_digits_pair {high low : UInt8} (hhigh : IsHex high) (hlow : IsHex low)
    (rest : List UInt8) : leading_digits (high :: low :: rest) = leading_digits rest + 2 := by
  rw [leading_digits_cons, if_pos hhigh, leading_digits_cons, if_pos hlow]

/-- Either a text starts with two digits, whose byte is read, or with fewer and none
    is read. -/
theorem _get_hex_cases (text : List UInt8) :
    (∃ high low rest byte, text = high :: low :: rest ∧ WritesByte byte [high, low] ∧
      _get_hex text = some byte ∧ leading_digits text = leading_digits rest + 2) ∨
    (leading_digits text < 2 ∧ _get_hex text = none) := by
  match text with
  | [] => exact .inr ⟨Nat.zero_lt_two, _get_hex_eq_none fun h => not_isHex_zero h.1⟩
  | [ch] =>
    refine .inr ⟨?_, _get_hex_eq_none fun h => not_isHex_zero h.2⟩
    exact Nat.lt_succ_of_le (List.takeWhile_prefix _).length_le
  | high :: low :: rest =>
    by_cases hdigits : IsHex high ∧ IsHex low
    · obtain ⟨byte, hbyte⟩ := writesByte_of_isHex hdigits.1 hdigits.2
      exact .inl ⟨high, low, rest, byte, rfl, hbyte, _get_hex_of_writesByte hbyte rest,
        leading_digits_pair hdigits.1 hdigits.2 rest⟩
    · refine .inr ⟨?_, _get_hex_eq_none hdigits⟩
      rw [leading_digits_cons, leading_digits_cons]
      split_ifs with hhigh hlow
      · exact absurd ⟨hhigh, hlow⟩ hdigits
      · exact Nat.one_lt_two
      · exact Nat.zero_lt_two

/-- The bytes that are decoded are those that the digits of the prefix stand for. -/
theorem hex_to_bin_prefix (text : List UInt8) (limit : Nat) :
    (hex_to_bin text limit).length = min limit (leading_digits text / 2) ∧
      WritesBytes (hex_to_bin text limit) (text.take (2 * (hex_to_bin text limit).length)) := by
  induction limit generalizing text with
  | zero =>
    rw [Nat.zero_min]
    cases text <;> exact ⟨rfl, rfl⟩
  | succ limit ih =>
    obtain ⟨high, low, rest, byte, rfl, hbyte, hread, hdigits⟩ | ⟨hshort, hnone⟩ := _get_hex_cases text
    · have hdecode : hex_to_bin (high :: low :: rest) (limit + 1) = byte :: hex_to_bin rest limit := by
        rw [hex_to_bin, hread]
        rfl
      obtain ⟨hlength, hwrites⟩ := ih rest
      rw [hdecode, List.length_cons]
      refine ⟨?_, [high, low], _, ?_, hbyte, hwrites⟩
      · rw [hlength, hdigits, Nat.add_div_right _ Nat.zero_lt_two, Nat.succ_min_succ]
      · rfl
    · have hdecode : hex_to_bin text (limit + 1) = [] := by rw [hex_to_bin, hnone]
      have hzero : leading_digits text / 2 = 0 := Nat.div_eq_of_lt hshort
      rw [hdecode, hzero]
      exact ⟨rfl, rfl⟩

/-- Behind a character that is no digit, nothing is read. -/
theorem _get_hex_in_first {ch : UInt8} (h : _hex_to_bin ch < 0) (src : List UInt8) :
    _get_hex_in (ch :: src) = some none := by
  cases src with
  | nil => exact if_pos h
  | cons next src => exact if_pos h

/-- The NUL is read as no digit. -/
theorem _get_hex_in_eq (text more : List UInt8) :
    _get_hex_in (text ++ 0 :: more) = some (_get_hex text) := by
  have hzero : _hex_to_bin 0 < 0 := by decide
  match text with
  | [] =>
    have hnone : _get_hex [] = none := _get_hex_eq_none fun h => not_isHex_zero h.1
    rw [hnone]
    exact _get_hex_in_first hzero more
  | [ch] =>
    have hnone : _get_hex [ch] = none := _get_hex_eq_none fun h => not_isHex_zero h.2
    rw [hnone]
    by_cases hhigh : _hex_to_bin ch < 0
    · exact _get_hex_in_first hhigh (0 :: more)
    · exact (if_neg hhigh).trans (if_pos hzero)
  | high :: low :: rest =>
    unfold _get_hex_in _get_hex
    dsimp only [List.cons_append, List.headD_cons, List.tail_cons]
    split_ifs <;> rfl

section Loop

variable {limit : Int} {i : Nat} {dest src : List UInt8}

theorem hex_to_bin_loop_end (h : ¬ (i : Int) < limit) (fuel : Nat) :
    hex_to_bin_loop limit (fuel + 1) i dest src = some (i, dest) :=
  if_neg h

theorem hex_to_bin_loop_break (h : (i : Int) < limit) (hread : _get_hex_in src = some none)
    (fuel : Nat) : hex_to_bin_loop limit (fuel + 1) i dest src = some (i, dest) := by
  rw [hex_to_bin_loop, if_pos h, hread]

theorem hex_to_bin_loop_round (h : (i : Int) < limit) {byte : UInt8}
    (hread : _get_hex_in src = some (some byte)) (fuel : Nat) :
    hex_to_bin_loop limit (fuel + 1) i dest src =
      if i < dest.length then hex_to_bin_loop limit fuel (i + 1) (dest.set i byte) (src.drop 2)
      else none := by
  rw [hex_to_bin_loop, if_pos h, hread]

end Loop

/-- Bytes are stored behind a front, if there is room for them, and what is behind
    them stays. -/
def fill (front back bytes : List UInt8) : Option (Nat × List UInt8) :=
  if bytes.length ≤ back.length then
    some (front.length + bytes.length, front ++ bytes ++ back.drop bytes.length)
  else none

theorem fill_nil (front back : List UInt8) : fill front back [] = some (front.length, front ++ back) := by
  have hfill : fill front back [] = some (front.length, front ++ [] ++ back) :=
    if_pos (Nat.zero_le back.length)
  rw [hfill, List.append_nil]

theorem fill_cons (front back : List UInt8) (old byte : UInt8) (bytes : List UInt8) :
    fill front (old :: back) (byte :: bytes) = fill (front ++ [byte]) back bytes := by
  unfold fill
  simp only [List.length_cons, List.length_append, List.length_nil, Nat.add_le_add_iff_right,
    List.append_assoc, List.cons_append, List.drop_succ_cons]
  congr 3
  omega

/-- The loop puts the bytes behind those that it has stored, and stores nothing
    behind them. -/
theorem hex_to_bin_loop_eq {limit : Int} {fuel : Nat} {front : List UInt8}
    (hfuel : (limit - front.length).toNat < fuel) (back text more : List UInt8) :
    hex_to_bin_loop limit fuel front.length (front ++ back) (text ++ 0 :: more) =
      fill front back (hex_to_bin text (limit - front.length).toNat) := by
  induction fuel generalizing front back text with
  | zero => exact absurd hfuel (Nat.not_lt_zero _)
  | succ fuel ih =>
    by_cases hround : (front.length : Int) < limit
    · have hleft : (limit - front.length).toNat = (limit - (front.length + 1 : Nat)).toNat + 1 := by
        omega
      rw [hleft, hex_to_bin]
      obtain ⟨high, low, rest, byte, rfl, -, hread, -⟩ | ⟨-, hnone⟩ := _get_hex_cases text
      · rw [hex_to_bin_loop_round hround ((_get_hex_in_eq _ more).trans (congrArg some hread)), hread]
        dsimp only
        cases back with
        | nil =>
          rw [List.append_nil, if_neg (Nat.lt_irrefl _)]
          exact (if_neg (Nat.not_succ_le_zero _)).symm
        | cons old back =>
          have hroom : front.length < (front ++ old :: back).length := by
            rw [List.length_append, List.length_cons]
            omega
          have hstore : (front ++ old :: back).set front.length byte = front ++ [byte] ++ back := by
            rw [List.set_append_right _ _ (Nat.le_refl _), Nat.sub_self, List.append_assoc]
            rfl
          have hlength : front.length + 1 = (front ++ [byte]).length := by
            rw [List.length_append, List.length_singleton]
          rw [if_pos hroom, hstore, fill_cons, hlength]
          exact ih (by rw [← hlength]; omega) back rest
      · rw [hex_to_bin_loop_break hround ((_get_hex_in_eq text more).trans (congrArg some hnone)),
          hnone]
        exact (fill_nil front back).symm
    · have hdone : (limit - front.length).toNat = 0 := by omega
      rw [hex_to_bin_loop_end hround, hdone, hex_to_bin]
      exact (fill_nil front back).symm

/-- What the function does on memory is what its model on texts says. -/
theorem hex_to_bin_in_eq (dest text more : List UInt8) (limit : Int) :
    hex_to_bin_in dest (text ++ 0 :: more) limit = fill [] dest (hex_to_bin text limit.toNat) := by
  have hrounds : limit - (([] : List UInt8).length : Nat) = limit := Int.sub_zero limit
  have hfuel : (limit - (([] : List UInt8).length : Nat)).toNat < limit.toNat + 1 := by
    rw [hrounds]
    exact Nat.lt_succ_self _
  have hloop := hex_to_bin_loop_eq hfuel dest text more
  rw [hrounds] at hloop
  exact hloop

/-- The bytes of the longest prefix of digit pairs are stored and counted, as many
    as the limit allows, and nothing behind them changes; and bytes written as
    digits of either case are stored again. The memory may end with the NUL, so
    nothing behind that is read. -/
theorem hex_to_bin_decodes_prefix (dest text more : List UInt8) (limit : Int) :
    (∃ bytes, bytes.length = min limit.toNat (leading_digits text / 2) ∧
      WritesBytes bytes (text.take (2 * bytes.length)) ∧
      hex_to_bin_in dest (text ++ 0 :: more) limit =
        if bytes.length ≤ dest.length then some (bytes.length, bytes ++ dest.drop bytes.length)
        else none) ∧
    ∀ bytes digits, WritesBytes bytes digits → (bytes.length : Int) ≤ limit →
      bytes.length ≤ dest.length →
      hex_to_bin_in dest (digits ++ 0 :: more) limit =
        some (bytes.length, bytes ++ dest.drop bytes.length) := by
  have hfill : ∀ bytes, fill [] dest bytes =
      if bytes.length ≤ dest.length then some (bytes.length, bytes ++ dest.drop bytes.length)
      else none := by
    intro bytes
    rw [fill, List.length_nil, Nat.zero_add, List.nil_append]
  constructor
  · obtain ⟨hlength, hwrites⟩ := hex_to_bin_prefix text limit.toNat
    refine ⟨_, hlength, hwrites, ?_⟩
    rw [hex_to_bin_in_eq, hfill]
  · intro bytes digits hdigits hlimit hroom
    have hrounds : bytes.length ≤ limit.toNat := by omega
    obtain ⟨spare, hspare⟩ := Nat.exists_eq_add_of_le hrounds
    have hdecode := hex_to_bin_of_writesBytes hdigits [] spare
    have hstop : hex_to_bin [] spare = [] := by cases spare <;> rfl
    rw [List.append_nil, hstop, List.append_nil, ← hspare] at hdecode
    rw [hex_to_bin_in_eq, hdecode, hfill, if_pos hroom]

/-- A fifth digit is left over, and lower-case digits are decoded. -/
theorem hex_to_bin_decodes_prefix_odd :
    (∃ bytes, bytes.length = 2 ∧ WritesBytes bytes (ascii "4f2A") ∧
      hex_to_bin_in [9, 9, 9] (ascii "4f2Ab" ++ [0]) 5 = some (2, bytes ++ [9])) ∧
    hex_to_bin_in [9, 9, 9] (ascii "ab0f" ++ [0]) 2 = some (2, [0xab, 0x0f, 9]) := by
  obtain ⟨⟨bytes, hlength, hwrites, hstored⟩, hencoded⟩ :=
    hex_to_bin_decodes_prefix [9, 9, 9] (ascii "4f2Ab") [] 5
  have htwo : bytes.length = 2 := hlength
  constructor
  · rw [htwo] at hwrites hstored
    exact ⟨bytes, htwo, hwrites, hstored⟩
  · have hdigits : WritesBytes [0xab, 0x0f] (ascii "ab0f") :=
      writesBytes_hex_digits (.inr rfl) [0xab, 0x0f]
    exact hencoded [0xab, 0x0f] (ascii "ab0f") hdigits (by decide) (by decide)

end keychain.cmd
