import Keychain.Library.Machine
import Keychain.Usb.CdcAcm

namespace keychain.usb

open delivery

variable {η : Type}

/-- The bulk endpoint that the device receives on, of the same size as the other one. -/
def endpoint_out : EndpointDescriptor where
  control := false
  direction_in := false
  wMaxPacketSize

/-- What the host meets at the OUT endpoint, besides the calls of the driver. A packet that
    is acknowledged comes with what is in the buffer of the endpoint when the interrupt is
    raised, and with `HAL_PCD_EP_GetRxCount`. -/
structure OutController (η : Type) extends Pcd η where
  packet : η → (Nat → UInt8) → List UInt8 → Option (η × (Nat → UInt8) × Nat)

/-- How the controller answers a packet for an endpoint. -/
inductive RxStatus where
  | DISABLED
  | NAK
  | VALID
  deriving DecidableEq

/-- What the stack relies on: an endpoint that is opened answers NAK until the driver is
    asked to receive, and then takes one packet. -/
structure OutController.Documented (pcd : OutController η) (status : η → RxStatus) : Prop where
  opens : ∀ hal, status hal = .DISABLED → status (pcd.HAL_PCD_EP_Open hal) = .NAK
  closes : ∀ hal, status (pcd.HAL_PCD_EP_Close hal) = .DISABLED
  receives : ∀ hal, status hal = .NAK → status (pcd.HAL_PCD_EP_Receive hal wMaxPacketSize) = .VALID
  acknowledges : ∀ hal data packet, status hal = .VALID → packet.length ≤ wMaxPacketSize →
    ∃ hal' data', pcd.packet hal data packet = some (hal', data', packet.length) ∧
      status hal' = .NAK ∧ read data' 0 packet.length = packet
  ignores : ∀ hal data packet, status hal ≠ .VALID ∨ wMaxPacketSize < packet.length →
    pcd.packet hal data packet = none

/-- The transfer request of the OUT endpoint, with what its buffer holds. -/
structure OutTransfer (η : Type) extends TransferRequest η where
  data : Nat → UInt8

/-- No packet without bytes is forced in this direction, so that `host_length` does not matter. -/
def OutTransfer._ux_device_stack_transfer_run (pcd : Pcd η) (device_state : DeviceState)
    (t : OutTransfer η) (slave_length : Nat) : UX_STATE × OutTransfer η :=
  let ran := usb._ux_device_stack_transfer_run pcd endpoint_out device_state (read t.data 0)
    t.toTransferRequest slave_length slave_length
  (ran.1, { t with toTransferRequest := ran.2 })

/-- The interrupt for a packet of `count` bytes on an endpoint other than 0. -/
def HAL_PCD_DataOutStageCallback (t : OutTransfer η) (count : Nat) : OutTransfer η :=
  { t with actual_length := count, completion_success := true, pending := false, ed_done := true }

/-- The host sends a packet, which is acknowledged or not. -/
def OutTransfer.packet (pcd : OutController η) (t : OutTransfer η) (bytes : List UInt8) :
    Bool × OutTransfer η :=
  match pcd.packet t.hal t.data bytes with
  | some (hal, data, count) => (true, HAL_PCD_DataOutStageCallback { t with hal, data } count)
  | none => (false, t)

/-- The completion code is `UX_TRANSFER_BUS_RESET`. -/
def OutTransfer._ux_device_stack_transfer_abort (pcd : Pcd η) (t : OutTransfer η) : OutTransfer η :=
  let t := { t with completion_success := false }
  if t.pending then
    { t with pending := false, hal := pcd.HAL_PCD_EP_Flush (pcd.HAL_PCD_EP_Abort t.hal) }
  else t

def OutTransfer._ux_dcd_stm32_endpoint_destroy (pcd : Pcd η) (t : OutTransfer η) : OutTransfer η :=
  { t with
    ed_used := false, ed_stalled := false, ed_transfer := false, ed_done := false, ed_setup := 0
    hal := pcd.HAL_PCD_EP_Close t.hal }

/-- Whether the endpoint has been created. -/
def OutTransfer._ux_dcd_stm32_endpoint_create (pcd : Pcd η) (t : OutTransfer η) :
    Bool × OutTransfer η :=
  if t.ed_used then (false, t)
  else (true, { t with ed_used := true, hal := pcd.HAL_PCD_EP_Open t.hal })

def OutTransfer._ux_dcd_stm32_endpoint_stall (pcd : Pcd η) (t : OutTransfer η) : OutTransfer η :=
  { t with ed_stalled := true, hal := pcd.HAL_PCD_EP_SetStall t.hal }

/-- The flag of a transfer under way is kept, but not that it is done. -/
def OutTransfer._ux_dcd_stm32_endpoint_reset (pcd : Pcd η) (t : OutTransfer η) : OutTransfer η :=
  { t with
    ed_stalled := false, ed_done := false, ed_setup := 0
    hal := pcd.HAL_PCD_EP_Flush (pcd.HAL_PCD_EP_ClrStall t.hal) }

/-- The states of `ux_device_class_cdc_acm_read_state`. -/
inductive ReadState where
  | RESET
  | START
  | WAIT
  deriving DecidableEq

/-- The read state machine of `UX_SLAVE_CLASS_CDC_ACM` on its endpoint. Its buffer is a
    place in `acm_rx_buffer`, counted from the first byte. -/
structure CdcAcmRead (η : Type) where
  read_state : ReadState
  read_buffer : Nat
  read_requested_length : Nat
  read_transfer_length : Nat
  read_actual_length : Nat
  transfer : OutTransfer η
  acm_rx_buffer : Nat → UInt8

/-- The case `UX_DEVICE_CLASS_CDC_ACM_READ_WAIT`. The number comes with the status if
    `*actual_length` has been written. The copy is as long as the transfer, whatever
    the packet was. -/
def read_wait (pcd : Pcd η) (device_state : DeviceState) (c : CdcAcmRead η) :
    (UX_STATE × Option Nat) × CdcAcmRead η :=
  let ran := c.transfer._ux_device_stack_transfer_run pcd device_state c.read_transfer_length
  let c := { c with transfer := ran.2 }
  if ran.1.code < UX_STATE.NEXT.code then
    ((.ERROR, none), { c with read_state := .RESET })
  else if ran.1 = .NEXT then
    let c :=
      { c with
        acm_rx_buffer :=
          write c.acm_rx_buffer c.read_buffer (read c.transfer.data 0 c.read_transfer_length)
        read_buffer := c.read_buffer + c.transfer.actual_length
        read_actual_length := c.read_actual_length + c.transfer.actual_length }
    if c.transfer.actual_length < c.transfer.requested_length then
      ((.NEXT, some c.read_actual_length), { c with read_state := .RESET })
    else
      ((.WAIT, some c.read_actual_length), { c with read_state := .START })
  else
    ((.WAIT, none), c)

/-- The case `UX_DEVICE_CLASS_CDC_ACM_READ_START`, which falls through into the next one
    unless there is nothing left to read. -/
def read_start (pcd : Pcd η) (device_state : DeviceState) (c : CdcAcmRead η) :
    (UX_STATE × Option Nat) × CdcAcmRead η :=
  let requested_length := c.read_requested_length - c.read_actual_length
  if requested_length = 0 then
    ((.NEXT, some c.read_actual_length), { c with read_state := .RESET })
  else
    let read_transfer_length :=
      if requested_length > wMaxPacketSize then wMaxPacketSize else requested_length
    read_wait pcd device_state { c with
      read_transfer_length, read_state := .WAIT, transfer := { c.transfer with state := .RESET } }

def _ux_device_class_cdc_acm_read_run (pcd : Pcd η) (device_state : DeviceState) (c : CdcAcmRead η)
    (buffer requested_length : Nat) : (UX_STATE × Option Nat) × CdcAcmRead η :=
  if device_state ≠ .CONFIGURED then
    ((.EXIT, none), { c with read_state := .RESET })
  else
    match c.read_state with
    | .RESET =>
      read_start pcd device_state { c with
        read_state := .START
        read_buffer := buffer
        read_requested_length := requested_length
        read_actual_length := 0 }
    | .START => read_start pcd device_state c
    | .WAIT => read_wait pcd device_state c

/-- The device as the host and the main loop see it. `cdc_acm` tells whether the pointer
    of that name is set. -/
structure SlaveDevice (η : Type) where
  state : DeviceState
  configuration_selected : Nat
  cdc_acm : Bool
  acm : CdcAcmRead η

def SlaveDevice.transfer (d : SlaveDevice η) (t : OutTransfer η) : SlaveDevice η :=
  { d with acm := { d.acm with transfer := t } }

/-- The class is deactivated, which ends its transfers. That does not look at the read
    state machine. -/
def SlaveDevice._ux_device_class_cdc_acm_deactivate (pcd : Pcd η) (d : SlaveDevice η) : SlaveDevice η :=
  { d.transfer (d.acm.transfer._ux_device_stack_transfer_abort pcd) with cdc_acm := false }

/-- `_ux_device_stack_interface_delete` for the interface of the class, and the state of its
    endpoint. -/
def SlaveDevice._ux_device_stack_interface_delete (pcd : Pcd η) (d : SlaveDevice η) : SlaveDevice η :=
  d.transfer { d.acm.transfer._ux_dcd_stm32_endpoint_destroy pcd with halted := false }

/-- The class is activated if the endpoint can be created. -/
def SlaveDevice._ux_device_stack_interface_set (pcd : Pcd η) (d : SlaveDevice η) : SlaveDevice η :=
  let created := d.acm.transfer._ux_dcd_stm32_endpoint_create pcd
  { d.transfer created.2 with cdc_acm := if created.1 then true else d.cdc_acm }

/-- The device framework has one configuration, which is number 1. -/
def SlaveDevice._ux_device_stack_configuration_set (pcd : Pcd η) (d : SlaveDevice η)
    (configuration_value : Nat) : SlaveDevice η :=
  if d.configuration_selected = configuration_value then d
  else if configuration_value ≠ 1 ∧ configuration_value ≠ 0 then d
  else
    let d :=
      if d.configuration_selected ≠ 0 then
        (d._ux_device_class_cdc_acm_deactivate pcd)._ux_device_stack_interface_delete pcd
      else d
    let d := { d with configuration_selected := 0, state := .ATTACHED }
    if configuration_value = 0 then d
    else
      { d._ux_device_stack_interface_set pcd with
        configuration_selected := configuration_value, state := .CONFIGURED }

def SlaveDevice._ux_device_stack_disconnect (pcd : Pcd η) (d : SlaveDevice η) : SlaveDevice η :=
  let d :=
    if d.state = .CONFIGURED then
      (d._ux_device_class_cdc_acm_deactivate pcd)._ux_device_stack_interface_delete pcd
    else d
  { d with configuration_selected := 0, state := .RESET }

/-- `_ux_device_stack_set_feature` for the halt of the OUT endpoint, which is found while the
    device is configured. -/
def SlaveDevice._ux_device_stack_set_feature (pcd : Pcd η) (d : SlaveDevice η) : SlaveDevice η :=
  if d.state = .CONFIGURED then d.transfer (d.acm.transfer._ux_dcd_stm32_endpoint_stall pcd) else d

/-- `_ux_device_stack_clear_feature` for the halt of the OUT endpoint. -/
def SlaveDevice._ux_device_stack_clear_feature (pcd : Pcd η) (d : SlaveDevice η) : SlaveDevice η :=
  if d.state = .CONFIGURED then
    d.transfer { d.acm.transfer._ux_dcd_stm32_endpoint_reset pcd with halted := false }
  else d

def HAL_PCD_ResetCallback (pcd : Pcd η) (d : SlaveDevice η) : SlaveDevice η :=
  let d := if d.state ≠ .RESET then d._ux_device_stack_disconnect pcd else d
  { d with state := .ATTACHED }

def HAL_PCD_DisconnectCallback (pcd : Pcd η) (d : SlaveDevice η) : SlaveDevice η :=
  if d.state ≠ .RESET then d._ux_device_stack_disconnect pcd else d

/-- How much `ux_device_cdc_acm_task` asks for at full speed, the only speed that the
    controller is set up for. -/
def read_length : Nat := 64

/-- What the receive handler is called with, if it is called. -/
def ux_device_cdc_acm_task (pcd : Pcd η) (d : SlaveDevice η) : Option (List UInt8) × SlaveDevice η :=
  if d.cdc_acm = false then (none, d)
  else if d.state ≠ .CONFIGURED then (none, d)
  else
    let ran := _ux_device_class_cdc_acm_read_run pcd d.state d.acm 0 read_length
    let handed :=
      match ran.1 with
      | (.NEXT, some actual_length) =>
        if actual_length ≠ 0 then some (read ran.2.acm_rx_buffer 0 actual_length) else none
      | _ => none
    (handed, { d with acm := ran.2 })

/-- What happens to the device: the main loop polls it, the host sends a packet, selects a
    configuration or sets or clears the halt of the OUT endpoint, and the bus is reset or the
    cable taken off. -/
inductive UsbStep where
  | poll
  | packet (bytes : List UInt8)
  | set_configuration (configuration_value : Nat)
  | set_feature
  | clear_feature
  | bus_reset
  | disconnect
  deriving DecidableEq

/-- The host leaves the halt of the OUT endpoint alone. -/
def UsbStep.Plain (step : UsbStep) : Prop :=
  step ≠ .set_feature ∧ step ≠ .clear_feature

instance (step : UsbStep) : Decidable step.Plain :=
  inferInstanceAs (Decidable (_ ∧ _))

/-- What an observer sees of a step: a packet that is acknowledged, what a poll hands to the
    receive handler, or that a device which was configured is so no more. -/
inductive Seen where
  | acked (packet : List UInt8)
  | polled (handed : Option (List UInt8))
  | closed
  | other
  deriving DecidableEq

def SlaveDevice.control (d next : SlaveDevice η) : SlaveDevice η × Seen :=
  (next, if d.state = .CONFIGURED ∧ next.state ≠ .CONFIGURED then .closed else .other)

def SlaveDevice.step (pcd : OutController η) (d : SlaveDevice η) : UsbStep → SlaveDevice η × Seen
  | .poll =>
    let ran := ux_device_cdc_acm_task pcd.toPcd d
    (ran.2, .polled ran.1)
  | .packet bytes =>
    let sent := d.acm.transfer.packet pcd bytes
    (d.transfer sent.2, if sent.1 then .acked bytes else .other)
  | .set_configuration configuration_value =>
    d.control (d._ux_device_stack_configuration_set pcd.toPcd configuration_value)
  | .set_feature => d.control (d._ux_device_stack_set_feature pcd.toPcd)
  | .clear_feature => d.control (d._ux_device_stack_clear_feature pcd.toPcd)
  | .bus_reset => d.control (HAL_PCD_ResetCallback pcd.toPcd d)
  | .disconnect => d.control (HAL_PCD_DisconnectCallback pcd.toPcd d)

/-- The device after `ux_device_stack_initialize`, before the host is there. The two
    buffers may hold anything. -/
def SlaveDevice.start (hal : η) (data acm_rx_buffer : Nat → UInt8) : SlaveDevice η where
  state := .RESET
  configuration_selected := 0
  cdc_acm := false
  acm :=
    { read_state := .RESET, read_buffer := 0, read_requested_length := 0, read_transfer_length := 0
      read_actual_length := 0, acm_rx_buffer
      transfer :=
        { state := .RESET, phase := .DATA_IN, pending := false, completion_success := true
          status_phase_ignore := false, requested_length := 0, actual_length := 0, in_transfer_length := 0
          current_data_pointer := 0, force_zlp := false, halted := false, ed_used := false
          ed_stalled := false, ed_transfer := false, ed_done := false, ed_setup := 0, hal, data } }

end keychain.usb
