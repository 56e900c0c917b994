import Keychain.Cmd.Board

namespace keychain.cmd

def ERR_INVALID_PARAMETER : List UInt8 := ascii "invalid parameter"
def ERR_MISSING_PARAMETER : List UInt8 := ascii "missing parameter"
def ERR_ILLEGAL_PARAMETER : List UInt8 := ascii "illegal parameter"
def ERR_UNKNOWN_COMMAND : List UInt8 := ascii "unknown command"

def _cmd_error (b : Board) (msg : List UInt8) : Board :=
  b.printf (ascii "ERROR: " ++ msg ++ NL)

def _skip_spaces (text : List UInt8) : List UInt8 :=
  text.dropWhile (· = ' '.toUInt8)

def _isdigit (ch : UInt8) : Bool :=
  decide ('0'.toUInt8 ≤ ch) && decide (ch ≤ '9'.toUInt8)

/-- The loop of `parse_number`. Its `s32` is taken to wrap where a number is too
    long for it; C leaves that case open. -/
def parse_digits : BitVec 32 → List UInt8 → BitVec 32 × List UInt8
  | tmp, [] => (tmp, [])
  | tmp, ch :: p =>
    if _isdigit ch then parse_digits (tmp * 10#32 + BitVec.ofNat 32 (ch.toNat - 48)) p
    else (tmp, ch :: p)

/-- The number and the rest of the text behind it. -/
def parse_number (s : List UInt8) : Option (BitVec 32 × List UInt8) :=
  let p := if s.headD 0 = '-'.toUInt8 then s.tail else s
  if _isdigit (p.headD 0) then
    let parsed := parse_digits 0#32 p
    some (if s.headD 0 = '-'.toUInt8 then -parsed.1 else parsed.1, parsed.2)
  else
    none

def _cmd_fetch_bool (text : List UInt8) : Option (Bool × List UInt8) :=
  let ch := text.headD 0
  if ch = '0'.toUInt8 then some (false, text.tail)
  else if ch = '1'.toUInt8 then some (true, text.tail)
  else none

def _cmd_fetch_num (text : List UInt8) : Option (BitVec 32 × List UInt8) :=
  parse_number text

def _cmd_fetch_hex (text : List UInt8) : Option (UInt8 × List UInt8) :=
  match hex_to_bin text 1 with
  | [byte] => some (byte, text.drop 2)
  | _ => none

/-- Skips the spaces in any case, and a comma behind them if there is one. -/
def _cmd_fetch_next (text : List UInt8) : Bool × List UInt8 :=
  let text := _skip_spaces text
  if text.headD 0 ≠ ','.toUInt8 then (false, text) else (true, text.tail)

/-- The functions that the table names in its column `pfunc`. -/
inductive Func where
  | auto | button | cs | clkdiv | gpo | help | id | pwr | reset | tls | sn | ver
  deriving DecidableEq

/-- The functions that the table names in its column `pfunc_set`. -/
inductive FuncSet where
  | auto_set | clkdiv_set | cs_set | pwr_set | tls_set
  deriving DecidableEq

structure cmd_t where
  text : List UInt8
  pfunc : Option Func
  pfunc_set : Option FuncSet
  help : List UInt8
  deriving DecidableEq

/-- The table up to its terminating entry. -/
def _CMD_TABLE : List cmd_t :=
  [⟨ascii "AUTO", some .auto, some .auto_set, ascii "Automatic response reading get/set"⟩,
    ⟨ascii "BUTTON", some .button, none, ascii "Get button state"⟩,
    ⟨ascii "CLKDIV", some .clkdiv, some .clkdiv_set, ascii "Clock divisor get/set"⟩,
    ⟨ascii "CS", some .cs, some .cs_set, ascii "SPI chip select direct control"⟩,
    ⟨ascii "GPO", some .gpo, none, ascii "Show GPO state"⟩,
    ⟨ascii "HELP", some .help, none, ascii "This help text"⟩,
    ⟨ascii "ID", some .id, none, ascii "Request product id"⟩,
    ⟨ascii "PWR", some .pwr, some .pwr_set, ascii "Get/set target power"⟩,
    ⟨ascii "RESET", some .reset, none, ascii "Instant reset"⟩,
    ⟨ascii "TLS", some .tls, some .tls_set, ascii "TLS 1.3 handshake over USB (ML-KEM-768)"⟩,
    ⟨ascii "SN", some .sn, none, ascii "Request product serial number"⟩,
    ⟨ascii "VER", some .ver, none, ascii "Request version information"⟩]

/-- The digit that `%x` prints, or `%X` with the upper letters. -/
def hex_digit (letters : List UInt8) (n : Nat) : UInt8 :=
  (ascii "0123456789" ++ letters).getD n 0

/-- The last `width` hexadecimal digits of a number. -/
def hex_digits (letters : List UInt8) : Nat → Nat → List UInt8
  | 0, _ => []
  | width + 1, n => hex_digits letters width (n / 16) ++ [hex_digit letters (n % 16)]

/-- `%02X` of a byte. -/
def format_02X (byte : UInt8) : List UInt8 :=
  hex_digits (ascii "ABCDEF") 2 byte.toNat

def ux_device_sn_text (b : Board) : List UInt8 :=
  let sn0 := b.uid.1 + b.uid.2.2
  let sn1 := b.uid.2.1
  hex_digits (ascii "abcdef") 4 (((sn1 >>> 16) ^^^ sn1) &&& 0xFFFF#32).toNat ++
    hex_digits (ascii "abcdef") 8 sn0.toNat

def bit_text (state : Bool) : List UInt8 :=
  if state then ascii "1" else ascii "0"

/-- `_cmd_help` passes over an empty help text, and stops at an empty name. -/
def help_lines : List cmd_t → List (List UInt8)
  | [] => []
  | cmd :: table =>
    if cmd.help.length = 0 then help_lines table
    else if cmd.text.length = 0 then []
    else (cmd.text ++ ascii " : " ++ cmd.help) :: help_lines table

def _cmd_help (b : Board) : Board :=
  let b := b.printf (ascii "Tropicsquare USB/SPI interface" ++ NL)
  let b := b.printf
    (ascii "STM32 accepts named commands only; raw hex pass-through is disabled" ++ NL)
  let b := b.printf (ascii "Supported commands:" ++ NL)
  (help_lines _CMD_TABLE).foldl (fun b line => b.printf (line ++ NL)) b

def _cmd_basic_reply (cmd : cmd_t) (b : Board) : Board :=
  b.printf (cmd.text ++ ascii ": ")

def _cmd_auto (cmd : cmd_t) (b : Board) : Board :=
  let b := _cmd_basic_reply cmd b
  if b.main_spi_auto then
    b.printf (ascii "1, " ++ format_02X b.main_spi_get_resp ++ ascii ", " ++
      format_02X b.main_spi_no_resp ++ NL)
  else
    b.printf (ascii "0" ++ NL)

def _cmd_button (cmd : cmd_t) (b : Board) : Board :=
  (_cmd_basic_reply cmd b).printf (bit_text b.button ++ NL)

def _cmd_cs (cmd : cmd_t) (b : Board) : Board :=
  (_cmd_basic_reply cmd b).printf (bit_text (spi1_cs_state b == SPI_CS_ACTIVE) ++ NL)

def _cmd_clkdiv (cmd : cmd_t) (b : Board) : Board :=
  (_cmd_basic_reply cmd b).printf (ascii (toString (spi1_get_prescaler b)) ++ NL)

def _cmd_id (cmd : cmd_t) (b : Board) : Board :=
  (_cmd_basic_reply cmd b).printf (ascii "USB/SPI converter (master)" ++ NL)

def _cmd_sn (cmd : cmd_t) (b : Board) : Board :=
  ((_cmd_basic_reply cmd b).printf (ux_device_sn_text b)).printf NL

def _cmd_ver (cmd : cmd_t) (b : Board) : Board :=
  (_cmd_basic_reply cmd b).printf
    (ascii "FW 1.4.1, HW TS1302, https://github.com/tropicsquare" ++ NL)

def _cmd_gpo (cmd : cmd_t) (b : Board) : Board :=
  (_cmd_basic_reply cmd b).printf (bit_text b.gpo_in ++ NL)

def _cmd_pwr (cmd : cmd_t) (b : Board) : Board :=
  (_cmd_basic_reply cmd b).printf (bit_text b._pwr_state ++ NL)

end keychain.cmd
