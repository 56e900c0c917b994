import Keychain.Cmd.Number
import Mathlib.Data.List.DropRight

namespace keychain.cmd

def AllSpaces (text : List UInt8) : Prop :=
  ∀ ch ∈ text, ch = ' '.toUInt8

def IsBit (ch : UInt8) : Prop :=
  ch = '0'.toUInt8 ∨ ch = '1'.toUInt8

def IsHex (ch : UInt8) : Prop :=
  ('0'.toUInt8 ≤ ch ∧ ch ≤ '9'.toUInt8) ∨ ('a'.toUInt8 ≤ ch ∧ ch ≤ 'f'.toUInt8) ∨
    ('A'.toUInt8 ≤ ch ∧ ch ≤ 'F'.toUInt8)

instance (ch : UInt8) : Decidable (IsBit ch) :=
  inferInstanceAs (Decidable (_ ∨ _))

instance (ch : UInt8) : Decidable (IsHex ch) :=
  inferInstanceAs (Decidable (_ ∨ _))

/-- A field of AUTO between two texts: a comma after any spaces and two digits
    right behind it, or only the spaces where no comma follows them. -/
def Field (text rest : List UInt8) : Prop :=
  (∃ spaces high low, text = spaces ++ ','.toUInt8 :: high :: low :: rest ∧ AllSpaces spaces ∧
    IsHex high ∧ IsHex low) ∨
  ∃ spaces, text = spaces ++ rest ∧ AllSpaces spaces ∧ rest.headD 0 ≠ ' '.toUInt8 ∧
    rest.headD 0 ≠ ','.toUInt8

/-- A mode and two fields, with anything behind them. -/
def AutoText (text : List UInt8) : Prop :=
  ∃ mode after_mode between rest, text = mode :: after_mode ∧ IsBit mode ∧
    Field after_mode between ∧ Field between rest

theorem _hex_to_bin_nonneg_iff (ch : UInt8) : 0 ≤ _hex_to_bin ch ↔ IsHex ch := by
  unfold _hex_to_bin IsHex
  split_ifs with hdigit hlower hupper
  · refine iff_of_true ?_ (.inl hdigit)
    have hlow : 48 ≤ ch.toNat := UInt8.le_iff_toNat_le.mp hdigit.1
    omega
  · refine iff_of_true ?_ (.inr (.inl hlower))
    have hlow : 97 ≤ ch.toNat := UInt8.le_iff_toNat_le.mp hlower.1
    omega
  · refine iff_of_true ?_ (.inr (.inr hupper))
    have hlow : 65 ≤ ch.toNat := UInt8.le_iff_toNat_le.mp hupper.1
    omega
  · exact iff_of_false (by decide) (by tauto)

theorem not_isHex_zero : ¬ IsHex 0 := by decide

theorem _get_hex_eq_none {text : List UInt8}
    (h : ¬ (IsHex (text.headD 0) ∧ IsHex (text.tail.headD 0))) : _get_hex text = none := by
  rw [← _hex_to_bin_nonneg_iff, ← _hex_to_bin_nonneg_iff] at h
  unfold _get_hex
  by_cases hhigh : _hex_to_bin (text.headD 0) < 0
  · exact if_pos hhigh
  · have hlow : _hex_to_bin (text.tail.headD 0) < 0 :=
      Int.not_le.mp fun hlow => h ⟨Int.not_lt.mp hhigh, hlow⟩
    exact (if_neg hhigh).trans (if_pos hlow)

theorem _get_hex_eq_some {text : List UInt8} (hhigh : IsHex (text.headD 0))
    (hlow : IsHex (text.tail.headD 0)) : ∃ byte, _get_hex text = some byte := by
  rw [← _hex_to_bin_nonneg_iff] at hhigh hlow
  unfold _get_hex
  exact ⟨_, (if_neg (Int.not_lt.mpr hhigh)).trans (if_neg (Int.not_lt.mpr hlow))⟩

/-- A byte is fetched if two hexadecimal digits come next. -/
theorem _cmd_fetch_hex_cases (text : List UInt8) :
    (IsHex (text.headD 0) ∧ IsHex (text.tail.headD 0) ∧
      ∃ byte, _cmd_fetch_hex text = some (byte, text.drop 2)) ∨
    ¬ (IsHex (text.headD 0) ∧ IsHex (text.tail.headD 0)) ∧ _cmd_fetch_hex text = none := by
  by_cases hdigits : IsHex (text.headD 0) ∧ IsHex (text.tail.headD 0)
  · obtain ⟨byte, hbyte⟩ := _get_hex_eq_some hdigits.1 hdigits.2
    refine .inl ⟨hdigits.1, hdigits.2, byte, ?_⟩
    rw [_cmd_fetch_hex, hex_to_bin, hbyte]
    rfl
  · refine .inr ⟨hdigits, ?_⟩
    rw [_cmd_fetch_hex, hex_to_bin, _get_hex_eq_none hdigits]

theorem _cmd_fetch_hex_iff (text rest : List UInt8) :
    (∃ byte, _cmd_fetch_hex text = some (byte, rest)) ↔
      ∃ high low, text = high :: low :: rest ∧ IsHex high ∧ IsHex low := by
  obtain ⟨hhigh, hlow, byte, hfetch⟩ | ⟨hnot, hfetch⟩ := _cmd_fetch_hex_cases text
  · rw [hfetch]
    cases text with
    | nil => exact absurd hhigh not_isHex_zero
    | cons high text =>
      cases text with
      | nil => exact absurd hlow not_isHex_zero
      | cons low more =>
        constructor
        · rintro ⟨_, hsome⟩
          cases hsome
          exact ⟨high, low, rfl, hhigh, hlow⟩
        · rintro ⟨_, _, htext, -, -⟩
          cases htext
          exact ⟨byte, rfl⟩
  · rw [hfetch]
    constructor
    · rintro ⟨_, hsome⟩
      cases hsome
    · rintro ⟨high, low, rfl, hishigh, hislow⟩
      exact absurd ⟨hishigh, hislow⟩ hnot

theorem _skip_spaces_eq_nil_iff (text : List UInt8) : _skip_spaces text = [] ↔ AllSpaces text := by
  simp [_skip_spaces, AllSpaces, List.dropWhile_eq_nil_iff]

theorem _skip_spaces_append {spaces : List UInt8} (h : AllSpaces spaces) (rest : List UInt8) :
    _skip_spaces (spaces ++ rest) = _skip_spaces rest :=
  List.dropWhile_append_of_pos fun ch hch => decide_eq_true (h ch hch)

/-- A text is some spaces and what skipping them leaves. -/
theorem _skip_spaces_split (text : List UInt8) :
    ∃ spaces, text = spaces ++ _skip_spaces text ∧ AllSpaces spaces ∧
      (_skip_spaces text).headD 0 ≠ ' '.toUInt8 := by
  induction text with
  | nil => exact ⟨[], rfl, by simp [AllSpaces], by decide⟩
  | cons ch text ih =>
    by_cases hspace : ch = ' '.toUInt8
    · obtain ⟨spaces, htext, hspaces, hhead⟩ := ih
      have hskip : _skip_spaces (ch :: text) = _skip_spaces text :=
        List.dropWhile_cons_of_pos (decide_eq_true hspace)
      rw [hskip]
      exact ⟨ch :: spaces, congrArg (ch :: ·) htext, by simpa [AllSpaces, hspace] using hspaces, hhead⟩
    · have hskip : _skip_spaces (ch :: text) = ch :: text :=
        List.dropWhile_cons_of_neg (by simpa using hspace)
      rw [hskip]
      exact ⟨[], rfl, by simp [AllSpaces], hspace⟩

theorem _skip_spaces_of_head {text : List UInt8} (h : text.headD 0 ≠ ' '.toUInt8) :
    _skip_spaces text = text := by
  cases text with
  | nil => rfl
  | cons ch text => exact List.dropWhile_cons_of_neg (by simpa using h)

theorem _skip_spaces_comma (rest : List UInt8) :
    _skip_spaces (','.toUInt8 :: rest) = ','.toUInt8 :: rest :=
  have hcomma : ','.toUInt8 ≠ ' '.toUInt8 := by decide
  _skip_spaces_of_head hcomma

/-- Where a field is optional, the fetch succeeds just on the texts of the
    grammar, and stops behind the field. -/
theorem fetch_field_iff (text rest : List UInt8) (default : UInt8) :
    (∃ byte, (if (_cmd_fetch_next text).1 then _cmd_fetch_hex (_cmd_fetch_next text).2
      else some (default, (_cmd_fetch_next text).2)) = some (byte, rest)) ↔ Field text rest := by
  obtain ⟨spaces, htext, hspaces, hhead⟩ := _skip_spaces_split text
  unfold _cmd_fetch_next
  by_cases hcomma : (_skip_spaces text).headD 0 = ','.toUInt8
  · simp only [hcomma, ne_eq, not_true_eq_false, if_false, if_true, _cmd_fetch_hex_iff]
    obtain ⟨after, hafter⟩ : ∃ after, _skip_spaces text = ','.toUInt8 :: after := by
      cases hskip : _skip_spaces text with
      | nil =>
        rw [hskip] at hcomma
        exact absurd hcomma (by decide)
      | cons ch after =>
        rw [hskip] at hcomma
        exact ⟨after, congrArg (· :: after) hcomma⟩
    rw [hafter, List.tail_cons]
    constructor
    · rintro ⟨high, low, rfl, hhigh, hlow⟩
      exact .inl ⟨spaces, high, low, by rw [← hafter]; exact htext, hspaces, hhigh, hlow⟩
    · rintro (⟨before, high, low, rfl, hbefore, hhigh, hlow⟩ | ⟨before, rfl, hbefore, hno, hnocomma⟩)
      · rw [_skip_spaces_append hbefore, _skip_spaces_comma] at hafter
        cases hafter
        exact ⟨high, low, rfl, hhigh, hlow⟩
      · rw [_skip_spaces_append hbefore, _skip_spaces_of_head hno] at hcomma
        exact absurd hcomma hnocomma
  · simp only [hcomma, ne_eq, not_false_eq_true, if_true, Bool.false_eq_true, if_false]
    constructor
    · rintro ⟨byte, hsome⟩
      cases hsome
      exact .inr ⟨spaces, htext, hspaces, hhead, hcomma⟩
    · rintro (⟨before, high, low, rfl, hbefore, -⟩ | ⟨before, rfl, hbefore, hno, hnocomma⟩)
      · rw [_skip_spaces_append hbefore, _skip_spaces_comma] at hcomma
        exact absurd rfl hcomma
      · rw [_skip_spaces_append hbefore, _skip_spaces_of_head hno]
        exact ⟨default, rfl⟩

theorem _cmd_fetch_bool_cases (text : List UInt8) :
    (IsBit (text.headD 0) ∧ ∃ state, _cmd_fetch_bool text = some (state, text.tail)) ∨
      ¬ IsBit (text.headD 0) ∧ _cmd_fetch_bool text = none := by
  unfold _cmd_fetch_bool IsBit
  by_cases hzero : text.headD 0 = '0'.toUInt8
  · exact .inl ⟨.inl hzero, false, if_pos hzero⟩
  · by_cases hone : text.headD 0 = '1'.toUInt8
    · exact .inl ⟨.inr hone, true, by simp only [if_neg hzero, if_pos hone]⟩
    · exact .inr ⟨by tauto, by simp only [if_neg hzero, if_neg hone]⟩

theorem _cmd_fetch_bool_isSome_iff (text : List UInt8) :
    (_cmd_fetch_bool text).isSome = true ↔ IsBit (text.headD 0) := by
  obtain ⟨hbit, state, hfetch⟩ | ⟨hnot, hfetch⟩ := _cmd_fetch_bool_cases text
  · rw [hfetch]
    exact iff_of_true rfl hbit
  · rw [hfetch]
    exact iff_of_false Bool.false_ne_true hnot

/-- CS takes any text that starts with one of its two digits. -/
theorem _cmd_cs_set_iff (text : List UInt8) (b : Board) :
    (_cmd_cs_set text b).1 = true ↔ IsBit (text.headD 0) := by
  have hfetch : (_cmd_cs_set text b).1 = (_cmd_fetch_bool text).isSome := by
    unfold _cmd_cs_set
    cases _cmd_fetch_bool text <;> rfl
  rw [hfetch]
  exact _cmd_fetch_bool_isSome_iff text

/-- PWR takes the same texts. -/
theorem _cmd_pwr_set_iff (text : List UInt8) (b : Board) :
    (_cmd_pwr_set text b).1 = true ↔ IsBit (text.headD 0) := by
  have hfetch : (_cmd_pwr_set text b).1 = (_cmd_fetch_bool text).isSome := by
    unfold _cmd_pwr_set
    cases _cmd_fetch_bool text <;> rfl
  rw [hfetch]
  exact _cmd_fetch_bool_isSome_iff text

theorem spi1_set_prescaler_accepts (b : Board) (value : BitVec 32) :
    (spi1_set_prescaler b value).1 = true ↔
      (value.toNat : Int) ∈ ([2, 4, 8, 16, 32, 64, 128, 256] : List Int) := by
  obtain hno | ⟨b', hset, -, hdivisor⟩ := spi1_set_prescaler_spec b value
  · rw [hno]
    refine iff_of_false Bool.false_ne_true fun hdivisor => ?_
    unfold spi1_set_prescaler at hno
    split at hno
    · cases hno
    · rename_i hnone
      rw [List.find?_eq_none] at hnone
      simp [LL_SPI_BAUDRATEPRESCALER_DIV] at hnone hdivisor
      omega
  · rw [hset]
    exact iff_of_true rfl hdivisor

/-- CLKDIV needs a number, and takes it if it denotes one of the divisors. -/
theorem _cmd_clkdiv_set_iff {text : List UInt8} (hfits : FitsS32 (denoted text)) (b : Board) :
    (_cmd_clkdiv_set text b).1 = true ↔ number_digits text ≠ [] ∧
      denoted text ∈ ([2, 4, 8, 16, 32, 64, 128, 256] : List Int) := by
  constructor
  · intro hset
    obtain ⟨hdigits, hdivisor, -⟩ := (divisor_exact_of_fits (.inr hfits) b).1 hset
    exact ⟨hdigits, hdivisor⟩
  · rintro ⟨hdigits, hdivisor⟩
    have hint := (toInt_ofInt_eq_iff (denoted text)).mpr hfits
    have hsmall : 0 ≤ denoted text ∧ denoted text ≤ 256 := by
      simp only [List.mem_cons, List.not_mem_nil, or_false] at hdivisor
      omega
    have hvalue : ((BitVec.ofInt 32 (denoted text)).toNat : Int) = denoted text := by
      rw [BitVec.toNat_ofInt]
      omega
    have haccepts := (spi1_set_prescaler_accepts b (BitVec.ofInt 32 (denoted text))).mpr
      (hvalue.symm ▸ hdivisor)
    unfold _cmd_clkdiv_set _cmd_fetch_num
    rw [parse_number_spec, if_neg hdigits]
    simp only [haccepts, if_true]

/-- AUTO takes a mode and two optional fields, one after the other. -/
theorem _cmd_auto_set_iff (text : List UInt8) (b : Board) :
    (_cmd_auto_set text b).1 = true ↔ AutoText text := by
  unfold _cmd_auto_set
  obtain ⟨hbit, state, hfetch⟩ | ⟨hnot, hfetch⟩ := _cmd_fetch_bool_cases text
  · obtain ⟨mode, after_mode, rfl⟩ : ∃ mode after_mode, text = mode :: after_mode := by
      cases text with
      | nil => exact absurd hbit (by decide)
      | cons mode after_mode => exact ⟨mode, after_mode, rfl⟩
    rw [hfetch]
    dsimp only [List.tail_cons]
    have hfirst := fun between => fetch_field_iff after_mode between 0xAA
    cases hsecond : (if (_cmd_fetch_next after_mode).1 then
        _cmd_fetch_hex (_cmd_fetch_next after_mode).2
      else some (0xAA, (_cmd_fetch_next after_mode).2)) with
    | none =>
      refine iff_of_false Bool.false_ne_true ?_
      rintro ⟨_, _, between, rest, htext, -, hfield, -⟩
      cases htext
      obtain ⟨byte, hsome⟩ := (hfirst between).mpr hfield
      rw [hsecond] at hsome
      cases hsome
    | some second =>
      obtain ⟨get_resp, between⟩ := second
      dsimp only
      have hafter := fun rest => fetch_field_iff between rest 0xFF
      cases hthird : (if (_cmd_fetch_next between).1 then _cmd_fetch_hex (_cmd_fetch_next between).2
        else some (0xFF, (_cmd_fetch_next between).2)) with
      | none =>
        refine iff_of_false Bool.false_ne_true ?_
        rintro ⟨_, _, other, rest, htext, -, hfield, hlast⟩
        cases htext
        obtain ⟨byte, hsome⟩ := (hfirst other).mpr hfield
        rw [hsecond] at hsome
        cases hsome
        obtain ⟨byte, hsome⟩ := (hafter rest).mpr hlast
        rw [hthird] at hsome
        cases hsome
      | some third =>
        obtain ⟨no_resp, rest⟩ := third
        exact iff_of_true rfl ⟨mode, after_mode, between, rest, rfl, hbit,
          (hfirst between).mp ⟨get_resp, hsecond⟩, (hafter rest).mp ⟨no_resp, hthird⟩⟩
  · rw [hfetch]
    refine iff_of_false Bool.false_ne_true ?_
    rintro ⟨mode, _, _, _, rfl, hbit, -⟩
    exact hnot hbit

/-- A text without the spaces at its end. -/
def trimmed (text : List UInt8) : List UInt8 :=
  text.rdropWhile (· = ' '.toUInt8)

/-- A mode, alone or with both bytes. -/
def DocumentedAuto : List UInt8 → Prop
  | [mode] => IsBit mode
  | [mode, first, high, low, second, high', low'] => IsBit mode ∧ first = ','.toUInt8 ∧
      IsHex high ∧ IsHex low ∧ second = ','.toUInt8 ∧ IsHex high' ∧ IsHex low'
  | _ => False

/-- The language of the documentation, with any spaces behind it. -/
def FuncSet.Documented : FuncSet → List UInt8 → Prop
  | .auto_set, text => DocumentedAuto (trimmed text)
  | .clkdiv_set, text =>
    trimmed text ∈ ["2", "4", "8", "16", "32", "64", "128", "256"].map ascii
  | .cs_set, text | .pwr_set, text => trimmed text ∈ ["0", "1"].map ascii
  | .tls_set, _ => True

theorem trimmed_append (text : List UInt8) :
    ∃ spaces, text = trimmed text ++ spaces ∧ AllSpaces spaces := by
  refine ⟨text.rtakeWhile (· = ' '.toUInt8), List.rdropWhile_append_rtakeWhile.symm, ?_⟩
  intro ch hch
  simpa using List.mem_rtakeWhile_imp hch

theorem field_of_spaces {spaces : List UInt8} (h : AllSpaces spaces) : Field spaces [] :=
  .inr ⟨spaces, (List.append_nil _).symm, h, by decide, by decide⟩

/-- The numerals of the documentation denote the divisors. -/
theorem numerals_denote : ∀ numeral ∈ ["2", "4", "8", "16", "32", "64", "128", "256"].map ascii,
    numeral.headD 0 ≠ '-'.toUInt8 ∧ numeral ≠ [] ∧ numeral.all _isdigit = true ∧
      (digits_value numeral : Int) ∈ ([2, 4, 8, 16, 32, 64, 128, 256] : List Int) := by
  decide

theorem number_digits_append_spaces {numeral spaces : List UInt8} (hnil : numeral ≠ [])
    (hsign : numeral.headD 0 ≠ '-'.toUInt8) (hdigits : ∀ ch ∈ numeral, _isdigit ch = true)
    (hspaces : AllSpaces spaces) :
    number_digits (numeral ++ spaces) = numeral ∧ denoted (numeral ++ spaces) = digits_value numeral := by
  have hhead : (numeral ++ spaces).headD 0 = numeral.headD 0 := by
    cases numeral with
    | nil => exact absurd rfl hnil
    | cons ch rest => rfl
  have hstop : spaces.takeWhile _isdigit = [] := by
    cases spaces with
    | nil => rfl
    | cons ch rest =>
      have hch : ch = ' '.toUInt8 := hspaces ch List.mem_cons_self
      have hspace : _isdigit ' '.toUInt8 = false := by decide
      rw [hch, List.takeWhile_cons_of_neg (by rw [hspace]; exact Bool.false_ne_true)]
  have htext : number_digits (numeral ++ spaces) = numeral := by
    rw [number_digits, unsigned_text, hhead, if_neg hsign, List.takeWhile_append_of_pos hdigits, hstop,
      List.append_nil]
  exact ⟨htext, by rw [denoted, hhead, if_neg hsign, htext]⟩

theorem AutoText.of_documented {text : List UInt8} (h : FuncSet.auto_set.Documented text) :
    AutoText text := by
  obtain ⟨spaces, htext, hspaces⟩ := trimmed_append text
  change DocumentedAuto (trimmed text) at h
  unfold DocumentedAuto at h
  split at h
  · rename_i mode htrimmed
    rw [htrimmed] at htext
    exact ⟨mode, spaces, [], [], htext, h, field_of_spaces hspaces, field_of_spaces (by simp [AllSpaces])⟩
  · rename_i mode first high low second high' low' htrimmed
    obtain ⟨hmode, rfl, hhigh, hlow, rfl, hhigh', hlow'⟩ := h
    rw [htrimmed] at htext
    exact ⟨mode, _, _, spaces, htext, hmode,
      .inl ⟨[], high, low, rfl, by simp [AllSpaces], hhigh, hlow⟩,
      .inl ⟨[], high', low', rfl, by simp [AllSpaces], hhigh', hlow'⟩⟩
  · exact h.elim

theorem isBit_of_documented {text : List UInt8} (h : trimmed text ∈ ["0", "1"].map ascii) :
    IsBit (text.headD 0) := by
  obtain ⟨spaces, htext, -⟩ := trimmed_append text
  have hbits : ∀ bit ∈ ["0", "1"].map ascii, bit ≠ [] ∧ IsBit (bit.headD 0) := by decide
  obtain ⟨hnil, hbit⟩ := hbits _ h
  rw [htext]
  cases htrimmed : trimmed text with
  | nil => exact absurd htrimmed hnil
  | cons bit rest =>
    rw [htrimmed] at hbit
    exact hbit

theorem divisor_of_documented {text : List UInt8} (h : FuncSet.clkdiv_set.Documented text) :
    number_digits text ≠ [] ∧ denoted text ∈ ([2, 4, 8, 16, 32, 64, 128, 256] : List Int) := by
  obtain ⟨spaces, htext, hspaces⟩ := trimmed_append text
  obtain ⟨hsign, hnil, hdigits, hdivisor⟩ := numerals_denote (trimmed text) h
  obtain ⟨hnumber, hdenoted⟩ := number_digits_append_spaces hnil hsign (List.all_eq_true.mp hdigits) hspaces
  rw [htext, hnumber, hdenoted]
  exact ⟨hnil, hdivisor⟩

/-- What the set functions accept of a text whose leading spaces the dispatcher
    has skipped: CS and PWR look at one digit, CLKDIV at one number, and AUTO at a
    digit and two fields that are optional each. What follows is not looked at.
    Every documented text is accepted. -/
theorem set_functions_accept (text : List UInt8) (b : Board) :
    ((_cmd_cs_set text b).1 = true ↔ IsBit (text.headD 0)) ∧
      ((_cmd_pwr_set text b).1 = true ↔ IsBit (text.headD 0)) ∧
      (FitsS32 (denoted text) → ((_cmd_clkdiv_set text b).1 = true ↔ number_digits text ≠ [] ∧
        denoted text ∈ ([2, 4, 8, 16, 32, 64, 128, 256] : List Int))) ∧
      ((_cmd_auto_set text b).1 = true ↔ AutoText text) ∧
      ∀ f : FuncSet, f.Documented text → (f.call text b).1 = true := by
  refine ⟨_cmd_cs_set_iff text b, _cmd_pwr_set_iff text b, fun hfits => _cmd_clkdiv_set_iff hfits b,
    _cmd_auto_set_iff text b, ?_⟩
  intro f hdocumented
  cases f with
  | auto_set => exact (_cmd_auto_set_iff text b).mpr (.of_documented hdocumented)
  | clkdiv_set =>
    obtain ⟨hnumber, hdivisor⟩ := divisor_of_documented hdocumented
    have hfits : FitsS32 (denoted text) := by
      unfold FitsS32
      simp only [List.mem_cons, List.not_mem_nil, or_false] at hdivisor
      omega
    exact (_cmd_clkdiv_set_iff hfits b).mpr ⟨hnumber, hdivisor⟩
  | cs_set => exact (_cmd_cs_set_iff text b).mpr (isBit_of_documented hdocumented)
  | pwr_set => exact (_cmd_pwr_set_iff text b).mpr (isBit_of_documented hdocumented)
  | tls_set => rfl

/-- A divisor with a remark behind it. -/
theorem set_functions_accept_eight :
    (_cmd_clkdiv_set (ascii "8 MHz") Board.sample).1 = true ↔ number_digits (ascii "8 MHz") ≠ [] ∧
      denoted (ascii "8 MHz") ∈ ([2, 4, 8, 16, 32, 64, 128, 256] : List Int) :=
  (set_functions_accept (ascii "8 MHz") Board.sample).2.2.1 (by decide)

/-- Letters behind the digit of CS, and a single field of AUTO. -/
theorem undocumented_is_accepted :
    (FuncSet.cs_set.call (ascii "1xyz") Board.sample).1 = true ∧
      ¬ FuncSet.cs_set.Documented (ascii "1xyz") ∧
      (FuncSet.auto_set.call (ascii "1,AA") Board.sample).1 = true ∧
      ¬ FuncSet.auto_set.Documented (ascii "1,AA") := by
  refine ⟨by decide, ?_, by decide, fun h => h⟩
  change ¬ trimmed (ascii "1xyz") ∈ ["0", "1"].map ascii
  decide

end keychain.cmd
