import Keychain.Uart.Ring

namespace keychain.uart

def UART1_RX_BUF_DEPTH : Nat := 512
def UART1_TX_BUF_DEPTH : Nat := 1024

/-- `u1`, with the transmit interrupt enable bit of the register `CR1` and the
    characters written to the register `TDR` so far. -/
structure uart_t where
  rx : Ring
  tx : Ring
  tx_run : Bool
  TXEIE : Bool
  TDR : List UInt8

/-- The two arrays hold anything. -/
def uart1_init (rx_buf tx_buf : Nat → UInt8) : uart_t where
  rx := .empty rx_buf
  tx := .empty tx_buf
  tx_run := false
  TXEIE := false
  TDR := []

def _u1_rx (u1 : uart_t) (c : UInt8) : uart_t :=
  if u1.rx.size ≥ UART1_RX_BUF_DEPTH then u1
  else { u1 with rx := u1.rx.put UART1_RX_BUF_DEPTH c }

def uart1_getchar (u1 : uart_t) : Int × uart_t :=
  if u1.rx.rd_cnt = u1.rx.wr_cnt then (-1, u1)
  else ((u1.rx.buf u1.rx.rd_index).toNat, { u1 with rx := u1.rx.take UART1_RX_BUF_DEPTH })

def uart1_putchar (u1 : uart_t) (c : UInt8) : Bool × uart_t :=
  if u1.tx.size ≥ UART1_TX_BUF_DEPTH then (false, u1)
  else
    let u1 := { u1 with tx := u1.tx.put UART1_TX_BUF_DEPTH c }
    (true, if u1.tx_run = false then { u1 with tx_run := true, TXEIE := true } else u1)

def _u1_tx (u1 : uart_t) : uart_t :=
  { u1 with tx := u1.tx.take UART1_TX_BUF_DEPTH, TDR := u1.TDR ++ [u1.tx.buf u1.tx.rd_index] }

/-- What the interrupt does when the transmitter can take a character. -/
def transmit (u1 : uart_t) : uart_t :=
  if u1.tx.wr_cnt = u1.tx.rd_cnt then { u1 with TXEIE := false, tx_run := false } else _u1_tx u1

/-- Called with two flags of the register `ISR` and with the register `RDR`. The
    error flags, which are only cleared, are left out. -/
def LPUART1_IRQHandler (u1 : uart_t) (TXE RXNE : Bool) (RDR : UInt8) : uart_t :=
  let u1 := if TXE && u1.TXEIE then transmit u1 else u1
  if RXNE then _u1_rx u1 RDR else u1

end keychain.uart
