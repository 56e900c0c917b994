import Keychain.Cmd.Process

namespace keychain.main

open cmd

/-- The state of the main task: the board that the commands work on, the main
    loop's own flag, and the number of bytes exchanged with the chip. -/
structure Main where
  board : Board
  _spi_cs_active : Bool
  transfers : Nat

/-- The state when the main loop is entered, with the chip powered and idle. -/
def Main.power_on (CFG1 : BitVec 32) (uid : BitVec 32 × BitVec 32 × BitVec 32) (button gpo_in : Bool) :
    Main where
  board :=
    { main_spi_auto := false, main_spi_get_resp := 0, main_spi_no_resp := 0, CFG1
      _spi1_cs_state := SPI_CS_IDLE, cs_low := false, _pwr_state := true, chip_pwr := true
      button, gpo_in, uid, tls_sessions := 0, console := [] }
  _spi_cs_active := false
  transfers := 0

def _spi_cs_enable (m : Main) : Main :=
  { m with board := spi1_cs m.board true, _spi_cs_active := true }

def _spi_cs_disable (m : Main) : Main :=
  { m with board := spi1_cs m.board false, _spi_cs_active := false }

/-- The chip answers each byte that it is sent, as a function of how many have
    been exchanged before. -/
def spi1_transfer (chip : Nat → UInt8 → UInt8) (m : Main) (c : UInt8) : UInt8 × Main :=
  (chip m.transfers c, { m with transfers := m.transfers + 1 })

/-- `count` bytes of a response, read by sending zeros. -/
def read_response (chip : Nat → UInt8 → UInt8) : Nat → Main → List UInt8 × Main
  | 0, m => ([], m)
  | count + 1, m =>
    let first := spi1_transfer chip m 0
    let rest := read_response chip count first.2
    (first.1 :: rest.1, rest.2)

def _spi_auto_task (chip : Nat → UInt8 → UInt8) (m : Main) : Main :=
  let m := _spi_cs_enable m
  let m := (spi1_transfer chip m m.board.main_spi_get_resp).2
  let header := spi1_transfer chip m 0
  let m := header.2
  if header.1 = m.board.main_spi_no_resp then
    _spi_cs_disable m
  else
    let l := spi1_transfer chip m 0
    let data := read_response chip (l.1.toNat + 2) l.2
    let m := _spi_cs_disable data.2
    { m with board := m.board.printf ((header.1 :: l.1 :: data.1).flatMap format_02X ++ NL) }

/-- What the block that runs every 100 ms does with the SPI. -/
def main_100ms (chip : Nat → UInt8 → UInt8) (m : Main) : Main :=
  if m.board.main_spi_auto then
    if m._spi_cs_active = false then _spi_auto_task chip m else m
  else m

/-- `_tty_rx_parser`, which the line editor calls with each line. There is no
    result if the line resets the device. -/
def tty_rx_parser_line (m : Main) (data : List UInt8) : Option Main :=
  match cmd_parse m.board (_skip_spaces data) with
  | some board => some { m with board }
  | none => none

end keychain.main
