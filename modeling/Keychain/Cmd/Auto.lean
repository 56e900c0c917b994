import Keychain.Cmd.Grammar
import Keychain.Cmd.Hex
import Keychain.Cmd.Lookup

namespace keychain.cmd

def spaces (count : Nat) : List UInt8 :=
  List.replicate count ' '.toUInt8

/-- The text of `AUTO=` for the enabled state, with any spaces on the two sides
    of the first comma and of the second one. -/
def auto_text (before after before' after' : Nat) (get_resp no_resp : List UInt8) : List UInt8 :=
  '1'.toUInt8 :: (spaces before ++ ','.toUInt8 :: (spaces after ++ (get_resp ++
    (spaces before' ++ ','.toUInt8 :: (spaces after' ++ no_resp)))))

/-- The line `AUTO=<text>` is answered with OK and leaves AUTO enabled with the
    two bytes. -/
def Restores (b : Board) (text : List UInt8) (get_resp no_resp : UInt8) : Prop :=
  ∃ b', cmd_parse b (ascii "AUTO=" ++ text) = some b' ∧
    b'.console = b.console ++ (ascii "OK" ++ NL) ∧ b'.main_spi_auto = true ∧
    b'.main_spi_get_resp = get_resp ∧ b'.main_spi_no_resp = no_resp

theorem allSpaces_spaces (count : Nat) : AllSpaces (spaces count) :=
  fun _ hch => List.eq_of_mem_replicate hch

/-- A comma is found behind any spaces. -/
theorem _cmd_fetch_next_spaces (count : Nat) (rest : List UInt8) :
    _cmd_fetch_next (spaces count ++ ','.toUInt8 :: rest) = (true, rest) := by
  have hskip : _skip_spaces (spaces count ++ ','.toUInt8 :: rest) = ','.toUInt8 :: rest := by
    rw [_skip_spaces_append (allSpaces_spaces count), _skip_spaces_comma]
  unfold _cmd_fetch_next
  rw [hskip]
  rfl

theorem _cmd_fetch_hex_of_writesByte {byte : UInt8} {digits : List UInt8} (h : WritesByte byte digits)
    (rest : List UInt8) : _cmd_fetch_hex (digits ++ rest) = some (byte, rest) := by
  have hbyte := _get_hex_of_writesByte h rest
  obtain ⟨high, low, rfl, -⟩ := h
  simp only [_cmd_fetch_hex, hex_to_bin, hbyte]
  rfl

/-- No space is passed over in front of the digits. -/
theorem _cmd_fetch_hex_spaces {byte : UInt8} {digits : List UInt8} (h : WritesByte byte digits)
    (count : Nat) (rest : List UInt8) :
    _cmd_fetch_hex (spaces count ++ (digits ++ rest)) = if count = 0 then some (byte, rest) else none := by
  cases count with
  | zero => exact _cmd_fetch_hex_of_writesByte h rest
  | succ count => rfl

/-- AUTO takes the text, and then sets what it says, unless a space follows one
    of the commas. -/
theorem _cmd_auto_set_auto_text {get_resp no_resp : UInt8} {get no : List UInt8}
    (hget : WritesByte get_resp get) (hno : WritesByte no_resp no) (before after before' after' : Nat)
    (b : Board) :
    _cmd_auto_set (auto_text before after before' after' get no) b =
      if after = 0 ∧ after' = 0 then
        (true, { b with
          main_spi_auto := true, main_spi_get_resp := get_resp, main_spi_no_resp := no_resp })
      else (false, _cmd_error b ERR_INVALID_PARAMETER) := by
  have hbool : ∀ rest, _cmd_fetch_bool ('1'.toUInt8 :: rest) = some (true, rest) := fun _ => rfl
  have hlast := _cmd_fetch_hex_spaces hno after' []
  rw [List.append_nil] at hlast
  unfold _cmd_auto_set auto_text
  simp only [hbool, _cmd_fetch_next_spaces, if_true, _cmd_fetch_hex_spaces hget]
  by_cases hafter : after = 0
  · simp only [if_pos hafter, _cmd_fetch_next_spaces, if_true, hlast]
    by_cases hafter' : after' = 0
    · simp only [if_pos hafter', if_pos (And.intro hafter hafter')]
    · simp only [if_neg hafter', if_neg fun h : after = 0 ∧ after' = 0 => hafter' h.2]
  · simp only [if_neg hafter, if_neg fun h : after = 0 ∧ after' = 0 => hafter h.1]

/-- A line that starts with `AUTO=` is handed to the set function of AUTO. -/
theorem cmd_parse_auto (b : Board) (text : List UInt8) :
    cmd_parse b (ascii "AUTO=" ++ text) =
      some (if (_cmd_auto_set (_skip_spaces text) b).1 = true then
        (_cmd_auto_set (_skip_spaces text) b).2.printf (ascii "OK" ++ NL)
      else (_cmd_auto_set (_skip_spaces text) b).2) := by
  have hword : command_word (ascii "AUTO=" ++ text) = ascii "AUTO" := rfl
  have hbehind : (ascii "AUTO=" ++ text).dropWhile is_char = '='.toUInt8 :: text := rfl
  have hentry : (_CMD_TABLE.find? fun cmd => SameWord (ascii "AUTO") cmd.text) =
      some ⟨ascii "AUTO", some .auto, some .auto_set, ascii "Automatic response reading get/set"⟩ := by
    decide
  have hremark : (ascii "AUTO=" ++ text).headD 0 ≠ '#'.toUInt8 := by
    change 'A'.toUInt8 ≠ '#'.toUInt8
    decide
  have hspoken : strnicmp (ascii "AUTO") (ascii "TLS") 3 ≠ 0 := by decide
  have hskip : _skip_spaces ('='.toUInt8 :: text) = '='.toUInt8 :: text := rfl
  rw [cmd_parse, if_neg hremark, _find_cmd_eq table_wellNamed, hword, hentry, hbehind]
  simp only [Option.map_some, _process_cmd, hskip, List.headD_cons, if_true, List.tail_cons, FuncSet.call]
  cases hset : _cmd_auto_set (_skip_spaces text) b with
  | mk ok b' =>
    cases ok with
    | false => rfl
    | true => simp only [if_pos hspoken, if_true]

/-- The text that the query prints for an enabled state. -/
theorem _cmd_auto_prints {b : Board} (h : b.main_spi_auto = true) (cmd : cmd_t) :
    (_cmd_auto cmd b).console = b.console ++ (cmd.text ++ ascii ": ") ++
      (auto_text 0 1 0 1 (format_02X b.main_spi_get_resp) (format_02X b.main_spi_no_resp) ++ NL) := by
  have hbasic : (_cmd_basic_reply cmd b).main_spi_auto = true := h
  have hopen : ascii "1, " = ['1'.toUInt8, ','.toUInt8, ' '.toUInt8] := by decide
  have hcomma : ascii ", " = [','.toUInt8, ' '.toUInt8] := by decide
  rw [_cmd_auto, if_pos hbasic, hopen, hcomma]
  simp [_cmd_basic_reply, Board.printf, auto_text, spaces]

theorem restores_auto_text_iff (b : Board) {get_resp no_resp : UInt8} {get no : List UInt8}
    (hget : WritesByte get_resp get) (hno : WritesByte no_resp no) (before after before' after' : Nat) :
    Restores b (auto_text before after before' after' get no) get_resp no_resp ↔
      after = 0 ∧ after' = 0 := by
  have hskip : _skip_spaces (auto_text before after before' after' get no) =
      auto_text before after before' after' get no := rfl
  unfold Restores
  rw [cmd_parse_auto, hskip, _cmd_auto_set_auto_text hget hno]
  by_cases hnone : after = 0 ∧ after' = 0
  · rw [if_pos hnone]
    exact iff_of_true ⟨_, rfl, rfl, rfl, rfl, rfl⟩ hnone
  · rw [if_neg hnone]
    refine iff_of_false ?_ hnone
    rintro ⟨b', hparse, hconsole, -⟩
    cases hparse
    have herror : ascii "ERROR: " ++ ERR_INVALID_PARAMETER ++ NL ≠ ascii "OK" ++ NL := by decide
    exact herror (List.append_cancel_left hconsole)

/-- AUTO takes back a text with its two bytes, in digits of either case and with
    any spaces in front of the commas, exactly if no space follows a comma. The
    text that its own query prints has a space behind both. -/
theorem auto_restores_iff (b : Board) {get_resp no_resp : UInt8} {get no : List UInt8}
    (hget : WritesByte get_resp get) (hno : WritesByte no_resp no) (before after before' after' : Nat) :
    (Restores b (auto_text before after before' after' get no) get_resp no_resp ↔
        after = 0 ∧ after' = 0) ∧
      ∀ (enabled : Board) (cmd : cmd_t), enabled.main_spi_auto = true → ∃ text,
        (_cmd_auto cmd enabled).console =
          enabled.console ++ (cmd.text ++ ascii ": ") ++ (text ++ NL) ∧
        ¬ Restores b text enabled.main_spi_get_resp enabled.main_spi_no_resp := by
  refine ⟨restores_auto_text_iff b hget hno before after before' after', ?_⟩
  intro enabled cmd henabled
  refine ⟨_, _cmd_auto_prints henabled cmd, ?_⟩
  rw [restores_auto_text_iff b (writesByte_format_02X _) (writesByte_format_02X _)]
  rintro ⟨hone, -⟩
  cases hone

/-- The default bytes in digits of different case. -/
theorem auto_restores_iff_defaults :
    (Restores Board.sample (ascii "1 ,aA,Ff") 0xAA 0xFF ↔ 0 = 0 ∧ 0 = 0) ∧
      ∀ (enabled : Board) (cmd : cmd_t), enabled.main_spi_auto = true → ∃ text,
        (_cmd_auto cmd enabled).console =
          enabled.console ++ (cmd.text ++ ascii ": ") ++ (text ++ NL) ∧
        ¬ Restores Board.sample text enabled.main_spi_get_resp enabled.main_spi_no_resp := by
  have hget : WritesByte 0xAA (ascii "aA") := ⟨_, _, rfl, .inr (by decide), .inl (by decide)⟩
  have hno : WritesByte 0xFF (ascii "Ff") := ⟨_, _, rfl, .inl (by decide), .inr (by decide)⟩
  have htext : ascii "1 ,aA,Ff" = auto_text 1 0 0 0 (ascii "aA") (ascii "Ff") := by decide
  rw [htext]
  exact auto_restores_iff Board.sample hget hno 1 0 0 0

/-- The query prints `1, AA, FF`, and the set function refuses just that. -/
theorem auto_refuses_own_text :
    let enabled := { Board.sample with
      main_spi_auto := true, main_spi_get_resp := 0xAA, main_spi_no_resp := 0xFF }
    (cmd_parse enabled (ascii "AUTO")).map (·.console) =
        some (ascii "AUTO: 1, AA, FF" ++ NL ++ ascii "OK" ++ NL) ∧
      (cmd_parse enabled (ascii "AUTO=1, AA, FF")).map (·.console) =
        some (ascii "ERROR: invalid parameter" ++ NL) ∧
      ¬ Restores enabled (ascii "1, AA, FF") 0xAA 0xFF := by
  intro enabled
  refine ⟨by decide, by decide, ?_⟩
  have hdigits := writesByte_format_02X
  have htext : ascii "1, AA, FF" = auto_text 0 1 0 1 (format_02X 0xAA) (format_02X 0xFF) := by decide
  rw [htext, restores_auto_text_iff enabled (hdigits 0xAA) (hdigits 0xFF)]
  rintro ⟨hone, -⟩
  cases hone

end keychain.cmd
