import Keychain.Library.Interaction
import Keychain.Tls.RingBuffer
import Mathlib.Tactic.Simps.Basic
import Keychain.Tty.UsbStream

namespace keychain.tls

/-- What the USB side of the device looks like over time: whether the host has
    it configured, which packet a poll finds at the OUT endpoint, and whether
    `usb_cdc_tx` reports its buffer as sent. -/
structure Usb where
  connected : Nat → Bool
  packet : Nat → Option (List UInt8)
  tx_ok : Nat → Bool

/-- What the two I/O callbacks answer. -/
inductive Cbio where
  | count (n : Int)
  | want_read
  | want_write
  | conn_rst
  deriving DecidableEq

/-- What a TLS session lets an observer of the two receive paths see. -/
inductive Event where
  /-- A packet given to `tls_pqc_usb_rx_handler`, of which `RB_Write` kept some bytes. -/
  | to_ring (packet : List UInt8) (bytes_written : Nat)
  /-- A packet for the command stream, which was taken as a whole or dropped. -/
  | to_stream (packet : List UInt8) (taken : Bool)
  /-- The reset of the ring that opens a session. -/
  | session_reset
  /-- wolfSSL has called `EmbedReceive` while `waiting` was in the ring, and got
      this answer with these bytes in its buffer. -/
  | embed_receive (waiting : List UInt8) (sz : Int) (answer : Cbio) (buf : List UInt8)
  deriving DecidableEq

inductive Filetype where
  | asn1
  | pem
  deriving DecidableEq

/-- The calls into wolfSSL, with those results the task looks at, and the entry
    of the cleanup function. -/
inductive Call where
  | Init (ret : Int)
  | CTX_new (created : Bool)
  | CTX_set_verify
  | CTX_SetIORecv
  | CTX_SetIOSend
  | CTX_use_certificate_buffer (ret : Int)
  | CTX_use_PrivateKey_buffer (ret : Int)
  | CTX_use_AltPrivateKey_buffer (format : Filetype) (ret : Int)
  | new (created : Bool)
  | UseCKS (ret : Int)
  | SetIOReadCtx
  | connect (ret : Int)
  | get_error
  | ERR_error_string
  | peerSigSpec (spec : Option UInt8) (size : Nat)
  | get_cipher
  | write (msg : List UInt8) (ret : Int)
  | shutdown
  | cleanup
  | free
  | CTX_free
  deriving DecidableEq

/-- The part of the firmware's state that a TLS session can see. `now` counts
    the moments at which the USB side was looked at. -/
structure Device where
  tls_active : Bool
  rxRing : RingBuffer
  stream : tty.UsbStream
  now : Nat
  trace : List Event
  calls : List Call
  console : List String

/-- The device at power on, whatever its two buffers hold. -/
def Device.power_on (ring stream : Nat → UInt8) : Device :=
  { tls_active := false, rxRing := ⟨ring, 0, 0, 0⟩, stream := ⟨stream, 0, 0⟩, now := 0,
    trace := [], calls := [], console := [] }

theorem Device.power_on_stream_valid (ring stream : Nat → UInt8) :
    (Device.power_on ring stream).stream.Valid :=
  ⟨Nat.zero_lt_succ _, Nat.zero_lt_succ _⟩

@[simps]
def Device.tick (d : Device) : Device :=
  { d with now := d.now + 1 }

@[simps]
def Device.emit (d : Device) (e : Event) : Device :=
  { d with trace := d.trace ++ [e] }

@[simps]
def Device.call (d : Device) (c : Call) : Device :=
  { d with calls := d.calls ++ [c] }

@[simps]
def Device.print (d : Device) (text : String) : Device :=
  { d with console := d.console ++ [text] }

/-- `buffer` has room for 255 characters and the terminator. -/
@[simps]
def debug_printf (d : Device) (text : String) : Device :=
  { d with console := d.console ++ ["DEBUG: " ++ String.ofList (text.toList.take 255)] }

def tls_pqc_usb_rx_handler (d : Device) (data : List UInt8) : Device :=
  let written := RB_Write_loop d.rxRing 0 data
  ({ d with rxRing := written.1 }).emit (.to_ring data written.2)

def _usb_rx_handler (d : Device) (buf : List UInt8) : Device :=
  if d.tls_active then
    tls_pqc_usb_rx_handler d buf
  else
    let put := tty.usb_rx_command d.stream buf
    let d := if put.2 then d else d.print "ERROR: USB RX overflow !\r\n"
    ({ d with stream := put.1 }).emit (.to_stream buf put.2)

/-- The packet that `ux_device_cdc_acm_task` hands to its receive handler at a
    moment: none while the device is not configured, and no empty one. -/
def Usb.delivers (u : Usb) (now : Nat) : Option (List UInt8) :=
  if u.connected now then (u.packet now).filter (fun buf => buf.length ≠ 0) else none

def usb_device_task (u : Usb) (d : Device) : Device :=
  match u.delivers d.now with
  | some buf => _usb_rx_handler d.tick buf
  | none => d.tick

/-- `count` polls in a row, as the waiting loops of the cleanup make them. -/
def usb_device_polls (u : Usb) : Nat → Device → Device
  | 0, d => d
  | count + 1, d => usb_device_polls u count (usb_device_task u d)

/-- The check for overflows that opens `EmbedReceive`. -/
def report_overflow (d : Device) : Device :=
  if d.rxRing.overflow_count > 0 then
    { d with
      rxRing := { d.rxRing with overflow_count := 0 }
      console := d.console ++ ["DEBUG: [CRITICAL] RX BUFFER OVERFLOW! Lost " ++
        toString d.rxRing.overflow_count ++ " bytes"] }
  else d

/-- The answer comes with the bytes stored into `buf`. -/
def EmbedReceive (d : Device) (sz : Int) : (Cbio × List UInt8) × Device :=
  let d := report_overflow d
  if RB_IsEmpty d.rxRing then
    ((.want_read, []), d)
  else
    let read := RB_Read d.rxRing sz
    ((.count read.1.length, read.1), { d with rxRing := read.2 })

/-- The answer to `EmbedSend` for a buffer of `sz` bytes. -/
def EmbedSend (u : Usb) (d : Device) (sz : Int) : Cbio × Device :=
  if !u.connected d.now then
    (.conn_rst, d.tick)
  else
    let d := usb_device_task u d.tick
    if u.tx_ok d.now then (.count sz, d.tick) else (.want_write, d.tick)

/-- The callbacks that wolfSSL makes while it connects, writes or shuts down. -/
inductive Callback where
  | recv (sz : Int)
  | send (buf : List UInt8)

abbrev Io (Result : Type) := interaction.Tree Callback (Cbio × List UInt8) Result

/-- The answer of the firmware to one callback. Each answer to a read goes on
    record as wolfSSL gets it. -/
def handle (u : Usb) : Callback → Device → (Cbio × List UInt8) × Device
  | .recv sz, d =>
    let answered := EmbedReceive d sz
    (answered.1, answered.2.emit (.embed_receive d.rxRing.queue sz answered.1.1 answered.1.2))
  | .send buf, d => (((EmbedSend u d buf.length).1, []), (EmbedSend u d buf.length).2)

/-- Polls and callbacks make no call into wolfSSL and leave the routing flag alone. -/
def Device.SameCalls (d d' : Device) : Prop :=
  d'.calls = d.calls ∧ d'.tls_active = d.tls_active

theorem Device.SameCalls.trans {d d' d'' : Device} (h : d.SameCalls d') (h' : d'.SameCalls d'') :
    d.SameCalls d'' :=
  ⟨h'.1.trans h.1, h'.2.trans h.2⟩

/-- A poll finds nothing, or a packet that goes where the flag sends it. -/
theorem usb_device_task_cases (u : Usb) (d : Device) :
    (u.delivers d.now = none ∧ usb_device_task u d = d.tick) ∨
    (∃ buf, u.delivers d.now = some buf ∧ d.tls_active = true ∧
      usb_device_task u d = tls_pqc_usb_rx_handler d.tick buf) ∨
    (∃ buf console, u.delivers d.now = some buf ∧ d.tls_active = false ∧
      usb_device_task u d = { d.tick with
        stream := (tty.usb_rx_command d.stream buf).1
        trace := d.trace ++ [.to_stream buf (tty.usb_rx_command d.stream buf).2]
        console }) := by
  unfold usb_device_task
  cases hpacket : u.delivers d.now with
  | none => exact .inl ⟨rfl, rfl⟩
  | some buf =>
    cases hactive : d.tls_active with
    | true => exact .inr (.inl ⟨buf, rfl, rfl, by simp [_usb_rx_handler, hactive]⟩)
    | false =>
      refine .inr (.inr ⟨buf, (if (tty.usb_rx_command d.stream buf).2 then d.tick
        else d.tick.print "ERROR: USB RX overflow !\r\n").console, rfl, rfl, ?_⟩)
      simp only [_usb_rx_handler, Device.tick_tls_active, hactive, Bool.false_eq_true, if_false,
        Device.tick_stream]
      split <;> simp [Device.emit, Device.print, Device.tick, hactive]

@[simp] theorem usb_device_task_now (u : Usb) (d : Device) :
    (usb_device_task u d).now = d.now + 1 := by
  obtain ⟨-, h⟩ | ⟨buf, -, -, h⟩ | ⟨buf, console, -, -, h⟩ := usb_device_task_cases u d
  all_goals rw [h]; rfl

theorem usb_device_task_same_calls (u : Usb) (d : Device) : d.SameCalls (usb_device_task u d) := by
  obtain ⟨-, h⟩ | ⟨buf, -, -, h⟩ | ⟨buf, console, -, -, h⟩ := usb_device_task_cases u d
  all_goals rw [h]; exact ⟨rfl, rfl⟩

theorem usb_device_polls_same_calls (u : Usb) (count : Nat) (d : Device) :
    d.SameCalls (usb_device_polls u count d) := by
  induction count generalizing d with
  | zero => exact ⟨rfl, rfl⟩
  | succ count ih => exact (usb_device_task_same_calls u d).trans (ih _)

theorem handle_same_calls (u : Usb) (c : Callback) (d : Device) : d.SameCalls (handle u c d).2 := by
  cases c with
  | recv sz =>
    simp only [handle, EmbedReceive, report_overflow]
    split <;> split <;> exact ⟨rfl, rfl⟩
  | send buf =>
    simp only [handle, EmbedSend]
    split
    · exact ⟨rfl, rfl⟩
    · have hpoll := usb_device_task_same_calls u d.tick
      split <;> exact hpoll

theorem run_same_calls {Result : Type} (u : Usb) (t : Io Result) (d : Device) :
    d.SameCalls (t.run (handle u) d).2 :=
  t.run_related (handle u) Device.SameCalls (fun _ => ⟨rfl, rfl⟩) (fun _ _ _ => .trans)
    (handle_same_calls u) d

@[simp] theorem usb_device_task_calls (u : Usb) (d : Device) : (usb_device_task u d).calls = d.calls :=
  (usb_device_task_same_calls u d).1

@[simp] theorem usb_device_polls_calls (u : Usb) (count : Nat) (d : Device) :
    (usb_device_polls u count d).calls = d.calls :=
  (usb_device_polls_same_calls u count d).1

@[simp] theorem run_calls {Result : Type} (u : Usb) (t : Io Result) (d : Device) :
    (t.run (handle u) d).2.calls = d.calls :=
  (run_same_calls u t d).1

@[simp] theorem usb_device_polls_tls_active (u : Usb) (count : Nat) (d : Device) :
    (usb_device_polls u count d).tls_active = d.tls_active :=
  (usb_device_polls_same_calls u count d).2

end keychain.tls
