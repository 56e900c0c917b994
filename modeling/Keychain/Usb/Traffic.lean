import Keychain.Library.Machine
import Keychain.Tls.Device
import Keychain.Usb.CdcAcm

namespace keychain.usb

open delivery

/-- The two writers on the IN endpoint. Besides the device and the memory that
    the buffers lie in, the state keeps the books: every buffer offered so far,
    the offer that the state machine has taken last, and the offer that wolfSSL
    repeats until it is sent. -/
structure Traffic where
  device : UsbDevice
  memory : Nat → UInt8
  offers : List (Offer UInt8)
  taken : Nat
  tls : Option Nat

/-- Everything put on the endpoint so far. -/
def Traffic.wire (t : Traffic) : List UInt8 :=
  t.device.cdc_acm.transfer.wire

/-- A configured device with nothing to send. -/
def Traffic.start (memory : Nat → UInt8) : Traffic where
  device :=
    { activated := true
      configured := true
      cdc_acm :=
        { write_state := .RESET, write_buffer := 0, write_requested_length := 0
          write_transfer_length := 0, write_actual_length := 0, write_host_length := 0
          transfer :=
            { state := .RESET, data := [], requested_length := 0, actual_length := 0
              force_zlp := false, ed_transfer := false, ed_done := false, wire := [] } } }
  memory
  offers := []
  taken := 0
  tls := none

/-- A buffer is offered for the first time. -/
def Traffic.offer (t : Traffic) (data len : Nat) : Traffic :=
  { t with offers := t.offers ++ [⟨data, read t.memory data len, .pending⟩] }

def Traffic.settle (t : Traffic) (i : Nat) (outcome : Outcome) : Traffic :=
  { t with offers := delivery.settle t.offers i outcome }

/-- `usb_cdc_tx`, called for an offer. -/
def Traffic.tx (t : Traffic) (i data len : Nat) : usb_result_e × Traffic :=
  let sent := usb_cdc_tx t.memory t.device data len
  (sent.1,
    { t with
      device := sent.2
      taken := if t.device.cdc_acm.write_state = .RESET then i else t.taken })

/-- Some packets are taken by the host. -/
def Traffic.data_in_stages : Nat → Traffic → Traffic
  | 0, t => t
  | count + 1, t =>
    data_in_stages count
      { t with device := { t.device with cdc_acm := t.device.cdc_acm.data_in_stage } }

/-- Its poll of the OUT endpoint does not concern the IN endpoint; what the poll
    may print is sent before. -/
def EmbedSend (t : Traffic) (i buf sz : Nat) : tls.Cbio × Traffic :=
  if usb_device_connected t.device = false then
    (.conn_rst, t)
  else
    let sent := t.tx i buf (sz % 2 ^ 16)
    if sent.1 = .BUSY then (.want_write, sent.2) else (.count sz, sent.2)

/-- A session sees of this only whether `usb_cdc_tx` reports the buffer as sent. -/
theorem EmbedSend_answer (t : Traffic) (i buf sz : Nat) (u : tls.Usb) (d : tls.Device)
    (hconnected : u.connected d.now = usb_device_connected t.device)
    (htx : u.tx_ok (d.now + 2) = decide ((t.tx i buf (sz % 2 ^ 16)).1 = .OK)) :
    (EmbedSend t i buf sz).1 = (tls.EmbedSend u d sz).1 := by
  unfold EmbedSend tls.EmbedSend
  rw [hconnected]
  cases usb_device_connected t.device with
  | false => rfl
  | true =>
    have hnow : (tls.usb_device_task u d.tick).now = d.now + 2 := tls.usb_device_task_now u d.tick
    simp only [hnow, htx]
    cases (t.tx i buf (sz % 2 ^ 16)).1 <;> rfl

def USB_RETRY_NUM : Nat := 100

/-- The first loop of `_usb_send_data` with a limit left; `delay` tells how many
    packets the host takes during each of the delays. There is a result if the
    buffer has been reported as sent. -/
def send_loop (delay : Nat → Nat) (i data len : Nat) : Nat → Traffic → Bool × Traffic
  | 0, t => (false, t)
  | limit + 1, t =>
    let sent := t.tx i data len
    if sent.1 = .BUSY then
      if limit = 0 then (false, sent.2)
      else send_loop delay i data len limit (sent.2.data_in_stages (delay limit))
    else (true, sent.2)

/-- The second loop is left at once, as `usb_cdc_tx_busy` is always false. -/
def _usb_send_data (delay : Nat → Nat) (t : Traffic) (i data len : Nat) : Bool × Traffic :=
  if usb_device_connected t.device = false then (false, t)
  else send_loop delay i data (len % 2 ^ 16) USB_RETRY_NUM t

inductive Step where
  /-- The host takes a packet. -/
  | data_in_stage
  /-- The program writes to its memory. -/
  | store (address : Nat) (byte : UInt8)
  /-- wolfSSL calls `EmbedSend`. -/
  | embed_send (buf sz : Nat)
  /-- A text is given to `_usb_send_data`. -/
  | send_data (data len : Nat) (delay : Nat → Nat)

/-- The offer that a call of `EmbedSend` makes or repeats. -/
def Traffic.tls_offer (t : Traffic) (buf sz : Nat) : Nat × Traffic :=
  match t.tls with
  | some i => (i, t)
  | none => (t.offers.length, { t.offer buf sz with tls := some t.offers.length })

def Traffic.step (t : Traffic) : Step → Traffic × Unit
  | .data_in_stage => (t.data_in_stages 1, ())
  | .store address byte => ({ t with memory := Function.update t.memory address byte }, ())
  | .embed_send buf sz =>
    let offered := t.tls_offer buf sz
    let sent := EmbedSend offered.2 offered.1 buf sz
    if sent.1 = .count sz then ({ sent.2.settle offered.1 .sent with tls := none }, ())
    else (sent.2, ())
  | .send_data data len delay =>
    let sent := _usb_send_data delay (t.offer data len) t.offers.length data len
    (sent.2.settle t.offers.length (if sent.1 then .sent else .abandoned), ())

/-- The assumptions: lengths below 65536, and of wolfSSL that it repeats an offer
    with the same buffer and size until that is sent, and leaves the bytes alone. -/
def Traffic.Permits (t : Traffic) : Step → Prop
  | .data_in_stage => True
  | .store address _ => ∀ o ∈ t.offers, o.outcome = .pending →
      address < o.address ∨ o.address + o.bytes.length ≤ address
  | .embed_send buf sz => sz < 2 ^ 16 ∧
      ∀ i ∈ t.tls, ∀ o ∈ t.offers[i]?, buf = o.address ∧ sz = o.bytes.length
  | .send_data _ len _ => len < 2 ^ 16

/-- A call for offer `i` of `len` bytes may find the state machine idle or at work
    on this offer. At work on another one, it must not end that transfer, unless
    the other is abandoned and of another length; and what it copies of an
    abandoned buffer must still be there. -/
def Traffic.Clear (t : Traffic) (i len : Nat) : Prop :=
  t.device.cdc_acm.write_state ≠ .RESET → t.taken ≠ i → ∀ o ∈ t.offers[t.taken]?,
    (t.device.cdc_acm.ends = true → o.outcome = .abandoned ∧ o.bytes.length ≠ len) ∧
    (o.outcome = .abandoned →
      read t.memory t.device.cdc_acm.write_buffer t.device.cdc_acm.next_copy =
        (o.bytes.drop t.device.cdc_acm.write_actual_length).take t.device.cdc_acm.next_copy)

/-- Every call of the loop finds the state machine so. -/
def SendClear (delay : Nat → Nat) (i data len : Nat) : Nat → Traffic → Prop
  | 0, _ => True
  | limit + 1, t => t.Clear i len ∧
      ((t.tx i data len).1 = .BUSY →
        SendClear delay i data len limit ((t.tx i data len).2.data_in_stages (delay limit)))

/-- Every call that a step makes finds the state machine so. -/
def Traffic.ClearFor (t : Traffic) : Step → Prop
  | .data_in_stage => True
  | .store _ _ => True
  | .embed_send buf sz => (t.tls_offer buf sz).2.Clear (t.tls_offer buf sz).1 sz
  | .send_data data len delay =>
    SendClear delay t.offers.length data len USB_RETRY_NUM (t.offer data len)

instance (t : Traffic) (s : Step) : Decidable (t.Permits s) :=
  match s with
  | .data_in_stage => inferInstanceAs (Decidable True)
  | .store _ _ => inferInstanceAs (Decidable (∀ o ∈ t.offers, _))
  | .embed_send _ _ => inferInstanceAs (Decidable (_ ∧ ∀ i ∈ t.tls, ∀ o ∈ t.offers[i]?, _))
  | .send_data _ _ _ => inferInstanceAs (Decidable (_ < _))

instance (t : Traffic) (i len : Nat) : Decidable (t.Clear i len) :=
  inferInstanceAs (Decidable (_ → _ → ∀ o ∈ t.offers[t.taken]?, _))

instance sendClearDecidable (delay : Nat → Nat) (i data len : Nat) :
    ∀ limit t, Decidable (SendClear delay i data len limit t)
  | 0, _ => inferInstanceAs (Decidable True)
  | limit + 1, t =>
    have := sendClearDecidable delay i data len limit ((t.tx i data len).2.data_in_stages (delay limit))
    inferInstanceAs (Decidable (_ ∧ (_ → _)))

instance (t : Traffic) (s : Step) : Decidable (t.ClearFor s) :=
  match s with
  | .data_in_stage => inferInstanceAs (Decidable True)
  | .store _ _ => inferInstanceAs (Decidable True)
  | .embed_send buf sz =>
    inferInstanceAs (Decidable ((t.tls_offer buf sz).2.Clear (t.tls_offer buf sz).1 sz))
  | .send_data data len delay =>
    inferInstanceAs (Decidable (SendClear delay t.offers.length data len USB_RETRY_NUM _))

end keychain.usb
