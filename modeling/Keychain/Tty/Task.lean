import Keychain.Tty.Line
import Keychain.Tty.UsbStream

namespace keychain.tty

/-- One of the two static line buffers of `tty_rx_task`, with the characters
    given to `_rx_feed` for it and the strings its callback received so far. -/
structure Channel where
  buf : tty_buf_t
  fed : List UInt8
  lines : List (List UInt8)

/-- Feeds one character and tells which lines it completed. -/
def Channel.feed (c : Channel) (ch : UInt8) : Option (Channel × List (List UInt8)) := do
  let (buf, lines) ← _rx_feed c.buf ch
  some ({ buf, fed := c.fed ++ [ch], lines := c.lines ++ lines }, lines)

/-- Where the characters come from: the command stream, and the bytes that wait
    at the UART. With `HW_CONSOLE_ON_UART` at 0 no byte ever waits there. What
    each of the two has accepted so far is on record. -/
structure Inputs where
  stream : UsbStream
  uart : List UInt8
  usb_accepted : List UInt8
  uart_accepted : List UInt8

inductive Arrival where
  | packet (buf : List UInt8)
  | uart (bytes : List UInt8)

/-- A packet that `_usb_rx_handler` gets in command mode is taken whole or dropped. -/
def Inputs.arrive (inputs : Inputs) : Arrival → Inputs
  | .packet buf =>
    let put := usb_rx_command inputs.stream buf
    { inputs with
      stream := put.1
      usb_accepted := inputs.usb_accepted ++ if put.2 then buf else [] }
  | .uart bytes =>
    { inputs with uart := inputs.uart ++ bytes, uart_accepted := inputs.uart_accepted ++ bytes }

def usb_getchar (inputs : Inputs) : Int × Inputs :=
  let (ch, stream) := _usb_getchar inputs.stream
  (ch, { inputs with stream })

/-- The macro `TTY_UART_GETCHAR`. -/
def uart_getchar (inputs : Inputs) : Int × Inputs :=
  match inputs.uart with
  | [] => (-1, inputs)
  | byte :: uart => (byte.toNat, { inputs with uart })

/-- What comes in while `_rx_callback` handles a line, as it does when a TLS
    session polls the USB device. -/
def Inputs.handle_line (callback : Inputs → List UInt8 → List Arrival) (inputs : Inputs)
    (line : List UInt8) : Inputs :=
  (callback inputs line).foldl Inputs.arrive inputs

/-- `while ((ch = getchar()) >= 0) _rx_feed(&buf, ch)`, stopped after `turns`
    turns. Handling a line may bring in new characters, so the number of turns
    has no bound. -/
def rx_loop (getchar : Inputs → Int × Inputs) (callback : Inputs → List UInt8 → List Arrival) :
    Nat → Inputs → Channel → Option (Inputs × Channel)
  | 0, inputs, c => some (inputs, c)
  | turns + 1, inputs, c =>
    if (getchar inputs).1 ≥ 0 then do
      let (c, lines) ← c.feed (getchar inputs).1.toNat.toUInt8
      rx_loop getchar callback turns (lines.foldl (Inputs.handle_line callback) (getchar inputs).2) c
    else
      some ((getchar inputs).2, c)

structure Tty where
  inputs : Inputs
  usb_rx : Channel
  uart_rx : Channel

def tty_rx_task (callback : Inputs → List UInt8 → List Arrival) (turns uart_turns : Nat) (t : Tty) :
    Option Tty := do
  let (inputs, usb_rx) ← rx_loop usb_getchar callback turns t.inputs t.usb_rx
  let (inputs, uart_rx) ← rx_loop uart_getchar callback uart_turns inputs t.uart_rx
  some { inputs, usb_rx, uart_rx }

/-- A step of the command mode: something arrives, or the main loop calls
    `tty_rx_task`. -/
inductive RxStep where
  | arrival (input : Arrival)
  | task (turns uart_turns : Nat)

def RxStep.run (callback : Inputs → List UInt8 → List Arrival) (t : Tty) : RxStep → Option Tty
  | .arrival input => some { t with inputs := t.inputs.arrive input }
  | .task turns uart_turns => tty_rx_task callback turns uart_turns t

/-- The device before its first step, whatever the two arrays hold and whatever
    waits already. -/
def Tty.start (stream : UsbStream) (uart : List UInt8) (usb_data uart_data : Vector UInt8 TTY_BUF_SIZE) :
    Tty where
  inputs := { stream, uart, usb_accepted := [], uart_accepted := [] }
  usb_rx := ⟨⟨usb_data, 0⟩, [], []⟩
  uart_rx := ⟨⟨uart_data, 0⟩, [], []⟩

end keychain.tty
