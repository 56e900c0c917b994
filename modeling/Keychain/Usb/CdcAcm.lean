import Keychain.Library.Delivery
import Keychain.Usb.TransferRun

namespace keychain.usb

open delivery

/-- The transfer request of the IN endpoint, with two flags of the controller driver and the
    bytes that `HAL_PCD_EP_Transmit` has been given so far. -/
structure Transfer where
  state : TransferState
  /-- What has been copied to the buffer of the endpoint. -/
  data : List UInt8
  requested_length : Nat
  actual_length : Nat
  force_zlp : Bool
  ed_transfer : Bool
  ed_done : Bool
  wire : List UInt8
  deriving DecidableEq

/-- `USBD_CDCACM_EPIN_FS_MPS`: the device runs at full speed. -/
def wMaxPacketSize : Nat := 64

def UX_DEVICE_CLASS_CDC_ACM_WRITE_BUFFER_SIZE : Nat := 512

/-- The bulk endpoint that the device sends on. -/
def endpoint_in : EndpointDescriptor where
  control := false
  direction_in := true
  wMaxPacketSize

/-- The calls of the HAL driver, of which what is to be sent is remembered. -/
def recorder : Pcd (List UInt8) where
  HAL_PCD_EP_Open wire := wire
  HAL_PCD_EP_Close wire := wire
  HAL_PCD_EP_Abort wire := wire
  HAL_PCD_EP_Flush wire := wire
  HAL_PCD_EP_SetStall wire := wire
  HAL_PCD_EP_ClrStall wire := wire
  HAL_PCD_EP_Transmit wire bytes := wire ++ bytes
  HAL_PCD_EP_Receive wire _ := wire

/-- Of the IN endpoint, only a host that neither stalls it nor clears a stall is modelled. -/
def Transfer.request (t : Transfer) : TransferRequest (List UInt8) where
  state := t.state
  phase := .DATA_OUT
  pending := true
  completion_success := true
  status_phase_ignore := false
  requested_length := t.requested_length
  actual_length := t.actual_length
  in_transfer_length := t.requested_length
  current_data_pointer := 0
  force_zlp := t.force_zlp
  halted := false
  ed_used := true
  ed_stalled := false
  ed_transfer := t.ed_transfer
  ed_done := t.ed_done
  ed_setup := 0
  hal := t.wire

/-- The device is configured whenever this is called for the IN endpoint. -/
def Transfer._ux_device_stack_transfer_run (t : Transfer) (slave_length host_length : Nat) :
    UX_STATE × Transfer :=
  let ran := usb._ux_device_stack_transfer_run recorder endpoint_in .CONFIGURED
    (fun count => t.data.take count) t.request slave_length host_length
  (ran.1, { t with
    state := ran.2.state
    requested_length := ran.2.requested_length
    actual_length := ran.2.actual_length
    force_zlp := ran.2.force_zlp
    ed_transfer := ran.2.ed_transfer
    ed_done := ran.2.ed_done
    wire := ran.2.hal })

theorem Transfer.served (t : Transfer) : t.request.Served .CONFIGURED :=
  ⟨by simp, rfl, rfl, rfl⟩

theorem Transfer.run_begins {t : Transfer} (hstate : t.state = .RESET) (htransfer : t.ed_transfer = false)
    (slave_length host_length : Nat) :
    t._ux_device_stack_transfer_run slave_length host_length =
      (.WAIT, { t with
        state := .TRAN_WAIT
        requested_length := slave_length
        actual_length := 0
        force_zlp := decide (slave_length ≠ 0 ∧ host_length ≠ slave_length ∧
          slave_length % wMaxPacketSize = 0)
        ed_transfer := true
        wire := t.wire ++ t.data.take slave_length }) := by
  rw [Transfer._ux_device_stack_transfer_run, t.served.transfer_begins hstate htransfer]
  simp [TransferRequest.launched, TransferRequest.begin, endpoint_in, recorder, Transfer.request]

theorem Transfer.run_waits {t : Transfer} (hstate : t.state = .TRAN_WAIT) (htransfer : t.ed_transfer = true)
    (hdone : t.ed_done = false) (slave_length host_length : Nat) :
    t._ux_device_stack_transfer_run slave_length host_length = (.WAIT, t) := by
  rw [Transfer._ux_device_stack_transfer_run, t.served.transfer_waits hstate htransfer hdone]
  rfl

theorem Transfer.run_ends {t : Transfer} (hstate : t.state = .TRAN_WAIT) (htransfer : t.ed_transfer = true)
    (hdone : t.ed_done = true) (slave_length host_length : Nat) :
    t._ux_device_stack_transfer_run slave_length host_length =
      (.NEXT, { t with state := .RESET, ed_transfer := false, ed_done := false }) := by
  rw [Transfer._ux_device_stack_transfer_run, t.served.transfer_ends hstate htransfer hdone]
  rfl

/-- The interrupt for a packet that the host has taken. A packet without bytes
    may have to follow before the transfer is done. -/
def HAL_PCD_DataInStageCallback (t : Transfer) : Transfer :=
  if t.force_zlp = true ∧ t.requested_length ≠ 0 then { t with force_zlp := false }
  else { t with actual_length := t.requested_length, ed_done := true }

/-- The states of `ux_device_class_cdc_acm_write_state`. -/
inductive WriteState where
  | RESET
  | START
  | WAIT
  deriving DecidableEq

/-- The write state machine of `UX_SLAVE_CLASS_CDC_ACM` on its endpoint. -/
structure CdcAcm where
  write_state : WriteState
  write_buffer : Nat
  write_requested_length : Nat
  write_transfer_length : Nat
  write_actual_length : Nat
  write_host_length : Nat
  transfer : Transfer
  deriving DecidableEq

/-- The case `UX_DEVICE_CLASS_CDC_ACM_WRITE_WAIT`. The number comes with the
    status if `*actual_length` has been written. -/
def write_wait (c : CdcAcm) : (UX_STATE × Option Nat) × CdcAcm :=
  let ran :=
    c.transfer._ux_device_stack_transfer_run c.write_transfer_length c.write_host_length
  let c := { c with transfer := ran.2 }
  if ran.1.code < UX_STATE.NEXT.code then
    ((.ERROR, none), { c with write_state := .RESET })
  else if ran.1 = .NEXT then
    let c :=
      { c with
        write_buffer := c.write_buffer + c.transfer.actual_length
        write_actual_length := c.write_actual_length + c.transfer.actual_length }
    if c.write_requested_length = 0 then
      ((.NEXT, some c.write_actual_length), { c with write_state := .RESET })
    else
      ((.WAIT, some c.write_actual_length), { c with write_state := .START })
  else
    ((.WAIT, none), c)

/-- The case `UX_DEVICE_CLASS_CDC_ACM_WRITE_START`, which falls through into the
    next one unless there is nothing left to send. -/
def write_start (memory : Nat → UInt8) (zlp : Bool) (c : CdcAcm) :
    (UX_STATE × Option Nat) × CdcAcm :=
  let requested_length := c.write_requested_length - c.write_actual_length
  if requested_length = 0 ∧ zlp = false then
    ((.NEXT, some c.write_actual_length), { c with write_state := .RESET })
  else
    let c :=
      if requested_length > UX_DEVICE_CLASS_CDC_ACM_WRITE_BUFFER_SIZE then
        { c with write_transfer_length := UX_DEVICE_CLASS_CDC_ACM_WRITE_BUFFER_SIZE }
      else
        { c with
          write_transfer_length := requested_length
          write_host_length := UX_DEVICE_CLASS_CDC_ACM_WRITE_BUFFER_SIZE + 1 }
    let data := read memory c.write_buffer c.write_transfer_length
    write_wait { c with write_state := .WAIT, transfer := { c.transfer with data, state := .RESET } }

def _ux_device_class_cdc_acm_write_run (memory : Nat → UInt8) (configured : Bool) (c : CdcAcm)
    (buffer requested_length : Nat) : (UX_STATE × Option Nat) × CdcAcm :=
  if configured = false then
    ((.EXIT, none), { c with write_state := .RESET })
  else
    match c.write_state with
    | .RESET =>
      write_start memory (decide (requested_length = 0))
        { c with
          write_state := .START
          write_buffer := buffer
          write_requested_length := requested_length
          write_actual_length := 0
          write_host_length := UX_DEVICE_CLASS_CDC_ACM_WRITE_BUFFER_SIZE }
    | .START => write_start memory false c
    | .WAIT => write_wait c

/-- The interrupt comes only while a packet is under way. -/
def CdcAcm.data_in_stage (c : CdcAcm) : CdcAcm :=
  if c.transfer.ed_transfer = true ∧ c.transfer.ed_done = false then
    { c with transfer := HAL_PCD_DataInStageCallback c.transfer }
  else c

/-- Whether the next call of the write state machine ends the transfer. -/
def CdcAcm.ends (c : CdcAcm) : Bool :=
  match c.write_state with
  | .RESET => false
  | .START => decide (c.write_requested_length - c.write_actual_length = 0)
  | .WAIT => c.transfer.ed_done && decide (c.write_requested_length = 0)

/-- How many bytes the next call copies from the remembered buffer. -/
def CdcAcm.next_copy (c : CdcAcm) : Nat :=
  match c.write_state with
  | .START =>
    min (c.write_requested_length - c.write_actual_length) UX_DEVICE_CLASS_CDC_ACM_WRITE_BUFFER_SIZE
  | _ => 0

/-- The state machine waits for a buffer. -/
structure CdcAcm.Idle (c : CdcAcm) : Prop where
  write_state : c.write_state = .RESET
  ed_transfer : c.transfer.ed_transfer = false
  ed_done : c.transfer.ed_done = false

/-- The state machine works on the buffer at an address that held `bytes` when it
    was taken, and has put `out` on the endpoint. It is between two transfers, or
    waits for the host to take one. -/
inductive CdcAcm.Works (c : CdcAcm) (address : Nat) (bytes out : List UInt8) : Prop where
  | start (write_state : c.write_state = .START)
      (ed_transfer : c.transfer.ed_transfer = false) (ed_done : c.transfer.ed_done = false)
      (requested : c.write_requested_length = bytes.length)
      (buffer : c.write_buffer = address + c.write_actual_length)
      (fits : c.write_actual_length ≤ bytes.length)
      (out_eq : out = bytes.take c.write_actual_length)
  | wait (write_state : c.write_state = .WAIT) (state : c.transfer.state = .TRAN_WAIT)
      (ed_transfer : c.transfer.ed_transfer = true)
      (requested : c.write_requested_length = bytes.length)
      (buffer : c.write_buffer = address + c.write_actual_length)
      (fits : c.write_actual_length + c.write_transfer_length ≤ bytes.length)
      (transfer_length : c.transfer.requested_length = c.write_transfer_length)
      (done : c.transfer.ed_done = true → c.transfer.actual_length = c.write_transfer_length)
      (out_eq : out = bytes.take (c.write_actual_length + c.write_transfer_length))

theorem CdcAcm.Works.busy {c : CdcAcm} {address : Nat} {bytes out : List UInt8}
    (h : c.Works address bytes out) : c.write_state ≠ .RESET := by
  cases h with
  | start write_state => simp [write_state]
  | wait write_state => simp [write_state]

theorem CdcAcm.Works.prefix_bytes {c : CdcAcm} {address : Nat} {bytes out : List UInt8}
    (h : c.Works address bytes out) : out <+: bytes := by
  cases h with
  | start _ _ _ _ _ _ out_eq => exact out_eq ▸ List.take_prefix _ _
  | wait _ _ _ _ _ _ _ _ out_eq => exact out_eq ▸ List.take_prefix _ _

theorem CdcAcm.Idle.data_in_stage {c : CdcAcm} (h : c.Idle) : c.data_in_stage = c := by
  simp [CdcAcm.data_in_stage, h.ed_transfer]

/-- An interrupt changes what is known of the transfer, but not what it sends. -/
theorem CdcAcm.Works.data_in_stage {c : CdcAcm} {address : Nat} {bytes out : List UInt8}
    (h : c.Works address bytes out) :
    c.data_in_stage.Works address bytes out ∧ c.data_in_stage.transfer.wire = c.transfer.wire := by
  cases h with
  | start write_state ed_transfer ed_done requested buffer fits out_eq =>
    have hsame : c.data_in_stage = c := by simp [CdcAcm.data_in_stage, ed_transfer]
    rw [hsame]
    exact ⟨.start write_state ed_transfer ed_done requested buffer fits out_eq, rfl⟩
  | wait write_state state ed_transfer requested buffer fits transfer_length done out_eq =>
    unfold CdcAcm.data_in_stage HAL_PCD_DataInStageCallback
    split
    · split
      · exact ⟨.wait write_state state ed_transfer requested buffer fits transfer_length done out_eq, rfl⟩
      · exact ⟨.wait write_state state ed_transfer requested buffer fits transfer_length
          (fun _ => transfer_length) out_eq, rfl⟩
    · exact ⟨.wait write_state state ed_transfer requested buffer fits transfer_length done out_eq, rfl⟩

/-- A fresh transfer request is started, and the caller told to wait. -/
theorem write_wait_launch {c : CdcAcm} {address : Nat} {bytes : List UInt8}
    (hwrite_state : c.write_state = .WAIT) (hstate : c.transfer.state = .RESET)
    (hed_transfer : c.transfer.ed_transfer = false) (hed_done : c.transfer.ed_done = false)
    (hrequested : c.write_requested_length = bytes.length)
    (hbuffer : c.write_buffer = address + c.write_actual_length)
    (hfits : c.write_actual_length + c.write_transfer_length ≤ bytes.length)
    (hdata : c.transfer.data = (bytes.drop c.write_actual_length).take c.write_transfer_length) :
    (write_wait c).1.1 = .WAIT ∧
      (write_wait c).2.Works address bytes
        (bytes.take c.write_actual_length ++ c.transfer.data) ∧
      (write_wait c).2.transfer.wire = c.transfer.wire ++ c.transfer.data := by
  have hwhole : c.transfer.data.take c.write_transfer_length = c.transfer.data := by
    rw [hdata, List.take_take, Nat.min_self]
  have hlaunch : write_wait c = ((.WAIT, none),
      { c with
        transfer :=
          { c.transfer with
            state := .TRAN_WAIT
            requested_length := c.write_transfer_length
            actual_length := 0
            force_zlp := decide (c.write_transfer_length ≠ 0 ∧
              c.write_host_length ≠ c.write_transfer_length ∧
              c.write_transfer_length % wMaxPacketSize = 0)
            ed_transfer := true
            wire := c.transfer.wire ++ c.transfer.data } }) := by
    simp [write_wait, Transfer.run_begins hstate hed_transfer, UX_STATE.code, hwhole]
  rw [hlaunch]
  refine ⟨rfl, .wait hwrite_state rfl rfl hrequested hbuffer hfits rfl ?_ ?_, rfl⟩
  · intro hdone
    rw [hed_done] at hdone
    cases hdone
  · rw [hdata, ← List.take_add]

/-- A transfer under way: nothing happens before the host has taken it. -/
theorem write_wait_pending {c : CdcAcm} (hstate : c.transfer.state = .TRAN_WAIT)
    (hed_transfer : c.transfer.ed_transfer = true) (hed_done : c.transfer.ed_done = false) :
    write_wait c = ((.WAIT, none), c) := by
  simp [write_wait, Transfer.run_waits hstate hed_transfer hed_done, UX_STATE.code]

/-- The host has taken the transfer. That is the end only of an empty buffer: for
    any other one the next call looks whether there is more. -/
theorem write_wait_taken {c : CdcAcm} (hstate : c.transfer.state = .TRAN_WAIT)
    (hed_transfer : c.transfer.ed_transfer = true) (hed_done : c.transfer.ed_done = true) :
    write_wait c =
      let taken :=
        { c with
          transfer := { c.transfer with ed_transfer := false, ed_done := false, state := .RESET }
          write_buffer := c.write_buffer + c.transfer.actual_length
          write_actual_length := c.write_actual_length + c.transfer.actual_length }
      if c.write_requested_length = 0 then
        ((.NEXT, some (c.write_actual_length + c.transfer.actual_length)),
          { taken with write_state := .RESET })
      else
        ((.WAIT, some (c.write_actual_length + c.transfer.actual_length)),
          { taken with write_state := .START }) := by
  simp [write_wait, Transfer.run_ends hstate hed_transfer hed_done, UX_STATE.code]

/-- Fill the buffer of the endpoint and start its transfer. -/
theorem write_start_launch {memory : Nat → UInt8} {zlp : Bool} {c : CdcAcm} {address : Nat}
    {bytes : List UInt8} (hed_transfer : c.transfer.ed_transfer = false)
    (hed_done : c.transfer.ed_done = false) (hrequested : c.write_requested_length = bytes.length)
    (hbuffer : c.write_buffer = address + c.write_actual_length)
    (hfits : c.write_actual_length ≤ bytes.length)
    (hmore : ¬ (c.write_requested_length - c.write_actual_length = 0 ∧ zlp = false))
    {count : Nat} (hcount : count = min (c.write_requested_length - c.write_actual_length)
      UX_DEVICE_CLASS_CDC_ACM_WRITE_BUFFER_SIZE)
    (hintact : read memory c.write_buffer count = (bytes.drop c.write_actual_length).take count) :
    let ran := write_start memory zlp c
    ran.1.1 = .WAIT ∧ ∃ more, ran.2.Works address bytes (bytes.take c.write_actual_length ++ more) ∧
      ran.2.transfer.wire = c.transfer.wire ++ more := by
  have hfits : c.write_actual_length + count ≤ bytes.length := by omega
  unfold write_start
  dsimp only
  rw [if_neg hmore]
  by_cases hlarge : c.write_requested_length - c.write_actual_length >
      UX_DEVICE_CLASS_CDC_ACM_WRITE_BUFFER_SIZE
  · have hsize : UX_DEVICE_CLASS_CDC_ACM_WRITE_BUFFER_SIZE = count := by omega
    rw [if_pos hlarge, hsize]
    obtain ⟨hwait, hworks, hwire⟩ := write_wait_launch (c := { c with
      write_state := .WAIT, write_transfer_length := count
      transfer := { c.transfer with data := read memory c.write_buffer count, state := .RESET } })
      rfl rfl hed_transfer hed_done hrequested hbuffer hfits hintact
    exact ⟨hwait, _, hworks, hwire⟩
  · have hsize : c.write_requested_length - c.write_actual_length = count := by omega
    rw [if_neg hlarge, hsize]
    obtain ⟨hwait, hworks, hwire⟩ := write_wait_launch (c := { c with
      write_state := .WAIT, write_transfer_length := count
      write_host_length := UX_DEVICE_CLASS_CDC_ACM_WRITE_BUFFER_SIZE + 1
      transfer := { c.transfer with data := read memory c.write_buffer count, state := .RESET } })
      rfl rfl hed_transfer hed_done hrequested hbuffer hfits hintact
    exact ⟨hwait, _, hworks, hwire⟩

/-- An idle state machine takes the buffer of whoever calls it. -/
theorem CdcAcm.Idle.write_run {c : CdcAcm} (h : c.Idle) (memory : Nat → UInt8)
    (buffer requested_length : Nat) :
    let ran := _ux_device_class_cdc_acm_write_run memory true c buffer requested_length
    ran.1.1 = .WAIT ∧ ∃ out, ran.2.Works buffer (read memory buffer requested_length) out ∧
      ran.2.transfer.wire = c.transfer.wire ++ out := by
  simp only [_ux_device_class_cdc_acm_write_run, Bool.true_eq_false, if_false, h.write_state]
  have hbytes : read memory buffer (read memory buffer requested_length).length =
      read memory buffer requested_length := by rw [length_read]
  have hfits : 0 + min (requested_length - 0) UX_DEVICE_CLASS_CDC_ACM_WRITE_BUFFER_SIZE ≤
      (read memory buffer requested_length).length := by
    rw [length_read]
    omega
  exact write_start_launch h.ed_transfer h.ed_done (length_read _ _ _).symm rfl (Nat.zero_le _)
    (by simp) rfl (read_slice hbytes hfits)

/-- A working state machine goes on with the buffer it has, whatever the caller
    offers it. The call that ends the transfer reports how long that buffer was. -/
theorem CdcAcm.Works.write_run {c : CdcAcm} {address : Nat} {bytes out : List UInt8}
    (h : c.Works address bytes out) {memory : Nat → UInt8}
    (hintact : read memory c.write_buffer c.next_copy =
      (bytes.drop c.write_actual_length).take c.next_copy) (buffer requested_length : Nat) :
    let ran := _ux_device_class_cdc_acm_write_run memory true c buffer requested_length
    (c.ends = false ∧ ran.1.1 = .WAIT ∧ ∃ more, ran.2.Works address bytes (out ++ more) ∧
      ran.2.transfer.wire = c.transfer.wire ++ more) ∨
    (c.ends = true ∧ out = bytes ∧ ran.1 = (.NEXT, some bytes.length) ∧ ran.2.Idle ∧
      ran.2.transfer.wire = c.transfer.wire) := by
  cases h with
  | start write_state ed_transfer ed_done requested buffer_eq fits out_eq =>
    simp only [_ux_device_class_cdc_acm_write_run, Bool.true_eq_false, if_false, write_state,
      CdcAcm.ends, CdcAcm.next_copy] at hintact ⊢
    by_cases hrest : c.write_requested_length - c.write_actual_length = 0
    · right
      have hall : c.write_actual_length = bytes.length := by omega
      simp only [write_start, hrest, and_self, if_true]
      refine ⟨by simp, ?_, by rw [hall], ⟨rfl, ed_transfer, ed_done⟩, trivial⟩
      rw [out_eq, hall, List.take_length]
    · left
      rw [out_eq]
      exact ⟨by simp [hrest], write_start_launch ed_transfer ed_done requested buffer_eq fits
        (fun h => hrest h.1) rfl hintact⟩
  | wait write_state state ed_transfer requested buffer_eq fits transfer_length done out_eq =>
    simp only [_ux_device_class_cdc_acm_write_run, Bool.true_eq_false, if_false, write_state,
      CdcAcm.ends]
    cases hdone : c.transfer.ed_done with
    | false =>
      left
      rw [write_wait_pending state ed_transfer hdone]
      refine ⟨rfl, rfl, [], ?_, (List.append_nil _).symm⟩
      rw [List.append_nil]
      exact .wait write_state state ed_transfer requested buffer_eq fits transfer_length done out_eq
    | true =>
      rw [write_wait_taken state ed_transfer hdone]
      have hlength := done hdone
      by_cases hnone : c.write_requested_length = 0
      · right
        have hempty : bytes = [] := List.eq_nil_of_length_eq_zero (requested ▸ hnone)
        have hsum : c.write_actual_length + c.transfer.actual_length = bytes.length := by omega
        rw [if_pos hnone, hsum]
        refine ⟨by simp [hnone], ?_, rfl, ⟨rfl, rfl, rfl⟩, rfl⟩
        rw [out_eq, hempty, List.take_nil]
      · left
        rw [if_neg hnone]
        refine ⟨by simp [hnone], rfl, [], ?_, (List.append_nil _).symm⟩
        rw [List.append_nil, out_eq, ← hlength]
        refine .start rfl rfl rfl requested ?_ ?_ rfl
        · rw [buffer_eq, Nat.add_assoc]
        · rw [hlength]
          exact fits

/-- The USB device: whether the class instance `cdc_acm` is there, whether the
    host has configured the device, and the instance itself. -/
structure UsbDevice where
  activated : Bool
  configured : Bool
  cdc_acm : CdcAcm
  deriving DecidableEq

def usb_device_connected (d : UsbDevice) : Bool :=
  d.activated && d.configured

def ux_device_cdc_acm_tx (memory : Nat → UInt8) (d : UsbDevice) (data len : Nat) : Bool × UsbDevice :=
  if d.activated = false then
    (false, d)
  else
    let ran := _ux_device_class_cdc_acm_write_run memory d.configured d.cdc_acm data len
    let d := { d with cdc_acm := ran.2 }
    if ran.1.1 ≠ .NEXT then (false, d)
    else if ran.1.2 ≠ some len then (false, d)
    else (true, d)

inductive usb_result_e where
  | OK
  | BUSY
  deriving DecidableEq

def usb_cdc_tx (memory : Nat → UInt8) (d : UsbDevice) (data len : Nat) : usb_result_e × UsbDevice :=
  let sent := ux_device_cdc_acm_tx memory d data len
  if sent.1 then (.OK, sent.2) else (.BUSY, sent.2)

/-- A connected device judges success by the length that the state machine reports. -/
theorem usb_cdc_tx_eq (memory : Nat → UInt8) {d : UsbDevice} (hactivated : d.activated = true)
    (hconfigured : d.configured = true) (data len : Nat) :
    usb_cdc_tx memory d data len =
      let ran := _ux_device_class_cdc_acm_write_run memory true d.cdc_acm data len
      (if ran.1 = (.NEXT, some len) then .OK else .BUSY, { d with cdc_acm := ran.2 }) := by
  simp only [usb_cdc_tx, ux_device_cdc_acm_tx, hactivated, hconfigured, Bool.true_eq_false, if_false]
  generalize _ux_device_class_cdc_acm_write_run memory true d.cdc_acm data len = ran
  obtain ⟨⟨status, actual_length⟩, c⟩ := ran
  by_cases hstatus : status = .NEXT
  · by_cases hlength : actual_length = some len
    · simp [hstatus, hlength]
    · simp [hstatus, hlength]
  · simp [hstatus]

end keychain.usb
