import Keychain.Common.Util

namespace keychain.cmd

/-- The state of the firmware and of its pins that the commands read or write. -/
structure Board where
  main_spi_auto : Bool
  main_spi_get_resp : UInt8
  main_spi_no_resp : UInt8
  /-- The register `SPI1->CFG1`. -/
  CFG1 : BitVec 32
  _spi1_cs_state : Bool
  /-- The chip-select line is driven low. -/
  cs_low : Bool
  _pwr_state : Bool
  /-- The pin that switches the power of the chip. -/
  chip_pwr : Bool
  /-- The levels of the two input pins. -/
  button : Bool
  gpo_in : Bool
  /-- The three words of the unique device identifier. -/
  uid : BitVec 32 × BitVec 32 × BitVec 32
  /-- The number of the TLS sessions started by commands. -/
  tls_sessions : Nat
  /-- The characters printed so far. -/
  console : List UInt8

def NL : List UInt8 := [0x0D, 0x0A]

def Board.printf (b : Board) (text : List UInt8) : Board :=
  { b with console := b.console ++ text }

def SPI_CS_ACTIVE : Bool := true
def SPI_CS_IDLE : Bool := false

def spi1_cs_state (b : Board) : Bool :=
  b._spi1_cs_state

def spi1_cs (b : Board) (state : Bool) : Board :=
  if state then { b with cs_low := true, _spi1_cs_state := SPI_CS_ACTIVE }
  else { b with cs_low := false, _spi1_cs_state := SPI_CS_IDLE }

/-- The baud rate field of `CFG1`. -/
def SPI_CFG1_MBR : BitVec 32 := 0x70000000#32

/-- The eight divisors with the value of the field that stands for each. -/
def LL_SPI_BAUDRATEPRESCALER_DIV : List (Nat × BitVec 32) :=
  [(2, 0x00000000#32), (4, 0x10000000#32), (8, 0x20000000#32), (16, 0x30000000#32),
    (32, 0x40000000#32), (64, 0x50000000#32), (128, 0x60000000#32), (256, 0x70000000#32)]

def spi1_get_prescaler (b : Board) : Nat :=
  match LL_SPI_BAUDRATEPRESCALER_DIV.find? fun p => p.2 = b.CFG1 &&& SPI_CFG1_MBR with
  | some p => p.1
  | none => 0

def spi1_set_prescaler (b : Board) (value : BitVec 32) : Bool × Board :=
  match LL_SPI_BAUDRATEPRESCALER_DIV.find? fun p => p.1 = value.toNat with
  | some p => (true, { b with CFG1 := (b.CFG1 &&& ~~~SPI_CFG1_MBR) ||| p.2 })
  | none => (false, b)

end keychain.cmd
