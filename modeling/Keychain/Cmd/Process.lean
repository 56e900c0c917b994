import Keychain.Cmd.Table

namespace keychain.cmd

def _cmd_auto_set (text : List UInt8) (b : Board) : Bool × Board :=
  let err := (false, _cmd_error b ERR_INVALID_PARAMETER)
  match _cmd_fetch_bool text with
  | none => err
  | some (state, text) =>
    let second := _cmd_fetch_next text
    match (if second.1 then _cmd_fetch_hex second.2 else some (0xAA, second.2)) with
    | none => err
    | some (get_resp, text) =>
      let third := _cmd_fetch_next text
      match (if third.1 then _cmd_fetch_hex third.2 else some (0xFF, third.2)) with
      | none => err
      | some (no_resp, _) =>
        (true, { b with
          main_spi_auto := state, main_spi_get_resp := get_resp, main_spi_no_resp := no_resp })

def _cmd_cs_set (text : List UInt8) (b : Board) : Bool × Board :=
  match _cmd_fetch_bool text with
  | none => (false, _cmd_error b ERR_INVALID_PARAMETER)
  | some (state, _) => (true, spi1_cs b (if state then SPI_CS_ACTIVE else SPI_CS_IDLE))

def _cmd_clkdiv_set (text : List UInt8) (b : Board) : Bool × Board :=
  let err := (false, _cmd_error b ERR_INVALID_PARAMETER)
  match _cmd_fetch_num text with
  | none => err
  | some (value, _) =>
    let set := spi1_set_prescaler b value
    if set.1 then (true, set.2) else err

/-- The level shifter that the source also switches is not on this board. -/
def _cmd_pwr_set (text : List UInt8) (b : Board) : Bool × Board :=
  match _cmd_fetch_bool text with
  | none => (false, _cmd_error b ERR_INVALID_PARAMETER)
  | some (state, _) =>
    let b := if state then { b with chip_pwr := true } else { b with chip_pwr := false }
    (true, { b with _pwr_state := state })

/-- The text is not sent: the session has a message of its own. -/
def _cmd_tls_set (b : Board) : Bool × Board :=
  (true, { b with tls_sessions := b.tls_sessions + 1 })

/-- There is no result for a reset, from which the call does not return. -/
def Func.call : Func → cmd_t → Board → Option (Bool × Board)
  | .auto, cmd, b => some (true, _cmd_auto cmd b)
  | .button, cmd, b => some (true, _cmd_button cmd b)
  | .cs, cmd, b => some (true, _cmd_cs cmd b)
  | .clkdiv, cmd, b => some (true, _cmd_clkdiv cmd b)
  | .gpo, cmd, b => some (true, _cmd_gpo cmd b)
  | .help, _, b => some (true, _cmd_help b)
  | .id, cmd, b => some (true, _cmd_id cmd b)
  | .pwr, cmd, b => some (true, _cmd_pwr cmd b)
  | .reset, _, _ => none
  | .tls, _, b => some (true, b)
  | .sn, cmd, b => some (true, _cmd_sn cmd b)
  | .ver, cmd, b => some (true, _cmd_ver cmd b)

def FuncSet.call : FuncSet → List UInt8 → Board → Bool × Board
  | .auto_set, text, b => _cmd_auto_set text b
  | .clkdiv_set, text, b => _cmd_clkdiv_set text b
  | .cs_set, text, b => _cmd_cs_set text b
  | .pwr_set, text, b => _cmd_pwr_set text b
  | .tls_set, _, b => _cmd_tls_set b

/-- The entry whose name the text starts with, and the text behind the name.
    Lengths are a `uint16_t` here and an `unsigned char` in `strnicmp`. -/
def _find_cmd : List cmd_t → List UInt8 → Option (cmd_t × List UInt8)
  | [], _ => none
  | cmd :: table, text =>
    let l := cmd.text.length % 2 ^ 16
    if l = 0 then none
    else if strnicmp text cmd.text (l % 2 ^ 8) = 0 ∧ !is_char ((text.drop l).headD 0) then
      some (cmd, text.drop l)
    else
      _find_cmd table text

def _process_cmd (cmd : cmd_t) (text : List UInt8) (b : Board) : Option (Bool × Board) :=
  let text := _skip_spaces text
  if text.headD 0 = '='.toUInt8 then
    match cmd.pfunc_set with
    | none => some (false, _cmd_error b ERR_INVALID_PARAMETER)
    | some f => some (f.call (_skip_spaces text.tail) b)
  else if text.headD 0 ≠ '?'.toUInt8 ∧ text.headD 0 ≠ 0 then
    match cmd.pfunc_set with
    | some f => some (f.call text b)
    | none => some (false, _cmd_error b ERR_ILLEGAL_PARAMETER)
  else
    match cmd.pfunc with
    | none => some (false, _cmd_error b ERR_MISSING_PARAMETER)
    | some f => f.call cmd b

def cmd_parse (b : Board) (text : List UInt8) : Option Board :=
  if text.headD 0 = '#'.toUInt8 then
    some b
  else
    match _find_cmd _CMD_TABLE text with
    | none => some (_cmd_error b ERR_UNKNOWN_COMMAND)
    | some (cmd, text) =>
      match _process_cmd cmd text b with
      | none => none
      | some (false, b) => some b
      | some (true, b) =>
        some (if strnicmp cmd.text (ascii "TLS") 3 ≠ 0 then b.printf (ascii "OK" ++ NL) else b)

end keychain.cmd
