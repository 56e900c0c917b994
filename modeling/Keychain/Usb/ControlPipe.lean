import Keychain.Library.Machine
import Keychain.Usb.GetDescriptor
import Keychain.Usb.Receive

namespace keychain.usb

open delivery

variable {η : Type}

def USBD_MAX_EP0_SIZE : Nat := 64

/-- The control endpoint, with the size from the device descriptor. -/
def endpoint_control : EndpointDescriptor where
  control := true
  direction_in := false
  wMaxPacketSize := USBD_MAX_EP0_SIZE

example : (device_descriptor.getD 7 0).toNat = endpoint_control.wMaxPacketSize := by decide

/-- What the host meets at the control endpoint, besides the calls of the driver. A setup packet
    and one that the host asks for are answered by the controller itself; the interrupt for the
    latter comes at some later time. -/
structure ControlController (η : Type) extends OutController η where
  HAL_PCD_EP_SetStall_out : η → η
  setup : η → η
  in_token : η → Option (η × List UInt8)
  interrupt : η → Option η

/-- How the controller answers when the host asks for a packet. It answers NAK as well while the
    interrupt for the packet before has not been served. -/
inductive TxStatus where
  | DISABLED
  | NAK
  | STALL
  | VALID (packet : List UInt8)
  | SENT
  deriving DecidableEq

/-- What the stack relies on: one call sends one packet of the endpoint's size at most, and a
    setup packet puts an end to what was to be sent, and to a stall. -/
structure ControlController.Documented (pcd : ControlController η) (status : η → TxStatus) : Prop where
  setups : ∀ hal, status hal ≠ .DISABLED → status hal ≠ .SENT → status (pcd.setup hal) = .NAK
  transmits : ∀ hal bytes, status hal = .NAK →
    status (pcd.HAL_PCD_EP_Transmit hal bytes) = .VALID (bytes.take USBD_MAX_EP0_SIZE)
  receives : ∀ hal count, status (pcd.HAL_PCD_EP_Receive hal count) = status hal
  stalls : ∀ hal, status hal = .NAK ∨ status hal = .STALL →
    status (pcd.HAL_PCD_EP_SetStall hal) = .STALL
  sends : ∀ hal packet, status hal = .VALID packet →
    ∃ hal', pcd.in_token hal = some (hal', packet) ∧ status hal' = .SENT
  refuses : ∀ hal, (∀ packet, status hal ≠ .VALID packet) → pcd.in_token hal = none
  interrupts : ∀ hal, status hal = .SENT → ∃ hal', pcd.interrupt hal = some hal' ∧ status hal' = .NAK
  quiet : ∀ hal, status hal ≠ .SENT → pcd.interrupt hal = none
  acknowledges : ∀ hal data hal' data' count, pcd.packet hal data [] = some (hal', data', count) →
    status hal' = status hal ∧ data' = data

/-- The states of the control endpoint in the controller driver. -/
inductive EdState where
  | IDLE
  | DATA_TX
  | DATA_RX
  | STATUS_TX
  | STATUS_RX
  deriving DecidableEq

def UX_DCD_STM32_ED_STATUS_SETUP_IN : Nat := 1

def UX_DCD_STM32_ED_STATUS_SETUP_STATUS : Nat := 2

/-- Both bits. -/
def UX_DCD_STM32_ED_STATUS_SETUP_OUT : Nat := 3

/-- The control endpoint of a device, with the request that has arrived last and what the
    buffer of the transfer request holds. -/
structure ControlPipe (η : Type) extends TransferRequest η where
  device_state : DeviceState
  setup : Setup
  data : Nat → UInt8
  ed_direction_in : Bool
  ed_state : EdState

/-- What the rest of the stack makes of a request that is not for a descriptor: the state that
    the device is in then, the data that are sent, with the length that the host has asked for,
    whether it has the endpoint stalled, and whether it counts as a success. -/
structure Answer where
  device_state : DeviceState
  reply : Option (List UInt8 × Nat)
  stall : Bool
  success : Bool
  deriving DecidableEq

def ControlPipe._ux_dcd_stm32_endpoint_stall (pcd : ControlController η) (p : ControlPipe η) :
    ControlPipe η :=
  { p with
    ed_stalled := true
    hal :=
      if p.ed_direction_in then pcd.HAL_PCD_EP_SetStall p.hal else pcd.HAL_PCD_EP_SetStall_out p.hal }

/-- A control endpoint is not marked as halted. -/
def ControlPipe._ux_device_stack_endpoint_stall (pcd : ControlController η) (p : ControlPipe η) :
    ControlPipe η :=
  if p.device_state ≠ .RESET ∧ p.halted = false then p._ux_dcd_stm32_endpoint_stall pcd else p

/-- The transfer is started and not waited for. The result tells whether it is `UX_SUCCESS`. -/
def ControlPipe._ux_device_stack_transfer_request (pcd : ControlController η) (p : ControlPipe η)
    (slave_length host_length : Nat) : Bool × ControlPipe η :=
  let ran := _ux_device_stack_transfer_run pcd.toPcd endpoint_control p.device_state (read p.data 0)
    { p.toTransferRequest with state := .RESET } slave_length host_length
  (if ran.1.code < UX_STATE.NEXT.code then ran.2.completion_success else true,
    { p with toTransferRequest := ran.2 })

/-- The data are copied into the buffer and sent. -/
def ControlPipe.transfer (pcd : ControlController η) (p : ControlPipe η) (data : List UInt8)
    (host_length : Nat) : Bool × ControlPipe η :=
  ControlPipe._ux_device_stack_transfer_request pcd
    { p with phase := .DATA_OUT, data := write p.data 0 data } data.length host_length

def ControlPipe.get_descriptor (pcd : ControlController η) (p : ControlPipe η) : Reply → Bool × ControlPipe η
  | .transfer data => p.transfer pcd data p.setup.wLength.toNat
  | .stall success => (success, p._ux_dcd_stm32_endpoint_stall pcd)
  | .error => (false, p)

def ControlPipe.other_request (pcd : ControlController η) (p : ControlPipe η) (answer : Answer) :
    Bool × ControlPipe η :=
  let p := { p with device_state := answer.device_state }
  let p :=
    match answer.reply with
    | some (data, host_length) => (p.transfer pcd data host_length).2
    | none => p
  (answer.success, if answer.stall then p._ux_dcd_stm32_endpoint_stall pcd else p)

def UX_REQUEST_IN : UInt8 := 0x80

def UX_REQUEST_TYPE : UInt8 := 0x60

def UX_GET_DESCRIPTOR : UInt8 := 6

/-- A request that does not succeed has the endpoint stalled. There is no result if the stack
    does not return from the request. -/
def ControlPipe._ux_device_stack_control_request_process (fw : Frameworks) (pcd : ControlController η)
    (answer : Answer) (p : ControlPipe η) : Option (Bool × ControlPipe η) :=
  if p.completion_success = false then some (false, p)
  else
    let ran :=
      if p.setup.bmRequestType &&& UX_REQUEST_TYPE = 0 ∧ p.setup.bRequest = UX_GET_DESCRIPTOR then
        (process_get_descriptor fw p.setup).map (p.get_descriptor pcd)
      else some (p.other_request pcd answer)
    ran.map fun ran => if ran.1 then ran else (false, ran.2._ux_device_stack_endpoint_stall pcd)

def ControlPipe._ux_dcd_stm32_setup_in (fw : Frameworks) (pcd : ControlController η) (answer : Answer)
    (p : ControlPipe η) : Option (ControlPipe η) :=
  (ControlPipe._ux_device_stack_control_request_process fw pcd answer
    { p with ed_direction_in := true, ed_state := .DATA_TX }).map Prod.snd

/-- The part that the other two kinds of requests share: a request that has succeeded is
    acknowledged with an empty packet. -/
def ControlPipe.setup_then (fw : Frameworks) (pcd : ControlController η) (answer : Answer)
    (ed_state : EdState) (p : ControlPipe η) : Option (ControlPipe η) :=
  (ControlPipe._ux_device_stack_control_request_process fw pcd answer
    { p with ed_direction_in := true }).map fun ran =>
      if ran.1 then { ran.2 with ed_state, hal := pcd.HAL_PCD_EP_Transmit ran.2.hal [] } else ran.2

def ControlPipe._ux_dcd_stm32_setup_out (fw : Frameworks) (pcd : ControlController η) (answer : Answer)
    (p : ControlPipe η) : Option (ControlPipe η) :=
  ControlPipe.setup_then fw pcd answer .STATUS_TX { p with completion_success := true }

def ControlPipe._ux_dcd_stm32_setup_status (fw : Frameworks) (pcd : ControlController η)
    (answer : Answer) (p : ControlPipe η) : Option (ControlPipe η) :=
  p.setup_then fw pcd answer .STATUS_RX

/-- The main loop handles what the interrupts have left to it. -/
def ControlPipe._ux_dcd_stm32_setup_isr_pending (fw : Frameworks) (pcd : ControlController η)
    (answer : Answer) (p : ControlPipe η) : Option (ControlPipe η) :=
  if p.ed_setup = 0 then some p
  else
    let left := { p with ed_setup := 0 }
    if p.ed_setup = UX_DCD_STM32_ED_STATUS_SETUP_IN then left._ux_dcd_stm32_setup_in fw pcd answer
    else if p.ed_setup = UX_DCD_STM32_ED_STATUS_SETUP_OUT then
      left._ux_dcd_stm32_setup_out fw pcd answer
    else left._ux_dcd_stm32_setup_status fw pcd answer

/-- The bits of a request that is still pending are kept. -/
def ControlPipe.HAL_PCD_SetupStageCallback (pcd : ControlController η) (p : ControlPipe η) (setup : Setup) :
    ControlPipe η :=
  let p :=
    { p with
      setup, actual_length := 0, completion_success := true
      ed_stalled := false, ed_transfer := false, ed_done := false }
  if setup.bmRequestType &&& UX_REQUEST_IN ≠ 0 then
    { p with ed_setup := p.ed_setup ||| UX_DCD_STM32_ED_STATUS_SETUP_IN }
  else
    let p := { p with ed_direction_in := false }
    if setup.wLength = 0 then
      { p with ed_setup := p.ed_setup ||| UX_DCD_STM32_ED_STATUS_SETUP_STATUS }
    else
      let p := { p with requested_length := setup.wLength.toNat }
      if p.requested_length > UX_SLAVE_REQUEST_CONTROL_MAX_LENGTH then
        { p._ux_dcd_stm32_endpoint_stall pcd with
          ed_state := .IDLE, ed_setup := p.ed_setup ||| UX_DCD_STM32_ED_STATUS_SETUP_STATUS }
      else
        { p with
          current_data_pointer := 0
          hal := pcd.HAL_PCD_EP_Receive p.hal p.requested_length
          ed_state := .DATA_RX }

/-- The interrupt for a packet that has been sent, for endpoint 0. -/
def ControlPipe.HAL_PCD_DataInStageCallback (pcd : ControlController η) (p : ControlPipe η) :
    ControlPipe η :=
  if p.ed_state ≠ .DATA_TX then p
  else
    let p := { p with hal := pcd.HAL_PCD_EP_Receive p.hal 0 }
    if p.in_transfer_length ≤ USBD_MAX_EP0_SIZE then
      if p.force_zlp then { p with force_zlp := false, hal := pcd.HAL_PCD_EP_Transmit p.hal [] }
      else
        { p with
          completion_success := true, pending := false, actual_length := p.requested_length
          ed_done := true, ed_state := .STATUS_RX }
    else
      let transfer_length := p.in_transfer_length - USBD_MAX_EP0_SIZE
      let transfer_length :=
        if transfer_length > USBD_MAX_EP0_SIZE then USBD_MAX_EP0_SIZE else transfer_length
      let current_data_pointer := p.current_data_pointer + USBD_MAX_EP0_SIZE
      { p with
        current_data_pointer
        in_transfer_length := p.in_transfer_length - transfer_length
        hal := pcd.HAL_PCD_EP_Transmit p.hal (read p.data current_data_pointer transfer_length) }

/-- The interrupt for a packet of `transfer_length` bytes from the host, for endpoint 0. -/
def ControlPipe.HAL_PCD_DataOutStageCallback (pcd : ControlController η) (p : ControlPipe η)
    (transfer_length : Nat) : ControlPipe η :=
  if p.ed_state ≠ .DATA_RX then p
  else
    let p := { p with actual_length := p.actual_length + transfer_length }
    if p.actual_length ≤ p.requested_length then
      if p.actual_length = p.requested_length ∨ transfer_length ≠ USBD_MAX_EP0_SIZE then
        { p with ed_setup := p.ed_setup ||| UX_DCD_STM32_ED_STATUS_SETUP_OUT }
      else
        { p with
          current_data_pointer := p.current_data_pointer + USBD_MAX_EP0_SIZE
          hal := pcd.HAL_PCD_EP_Receive p.hal USBD_MAX_EP0_SIZE }
    else { p with completion_success := false, ed_done := true }

/-- The state of the endpoint in the driver is not among what is cleared. -/
def ControlPipe._ux_dcd_stm32_endpoint_destroy (pcd : ControlController η) (p : ControlPipe η) :
    ControlPipe η :=
  { p with
    ed_used := false, ed_stalled := false, ed_transfer := false, ed_done := false, ed_setup := 0
    hal := pcd.HAL_PCD_EP_Close p.hal }

def ControlPipe._ux_device_stack_disconnect (pcd : ControlController η) (p : ControlPipe η) :
    ControlPipe η :=
  let p := if p.device_state = .CONFIGURED then { p with device_state := .ATTACHED } else p
  let p := if p.device_state = .ATTACHED then p._ux_dcd_stm32_endpoint_destroy pcd else p
  { p with device_state := .RESET }

/-- The endpoint is created and opened in both directions. It then waits for a setup packet,
    which has 8 bytes. -/
def ControlPipe._ux_dcd_stm32_initialize_complete (pcd : ControlController η) (p : ControlPipe η) :
    ControlPipe η :=
  { p with
    current_data_pointer := 0, requested_length := 8, in_transfer_length := 8, actual_length := 0
    pending := true, halted := false, ed_used := true
    ed_direction_in := if p.ed_used then p.ed_direction_in else false
    hal :=
      pcd.HAL_PCD_EP_Open (pcd.HAL_PCD_EP_Flush (pcd.HAL_PCD_EP_Open (pcd.HAL_PCD_EP_Flush p.hal))) }

def ControlPipe.HAL_PCD_ResetCallback (pcd : ControlController η) (p : ControlPipe η) : ControlPipe η :=
  let p := if p.device_state ≠ .RESET then p._ux_device_stack_disconnect pcd else p
  { p._ux_dcd_stm32_initialize_complete pcd with device_state := .ATTACHED }

def ControlPipe.HAL_PCD_DisconnectCallback (pcd : ControlController η) (p : ControlPipe η) :
    ControlPipe η :=
  if p.device_state ≠ .RESET then p._ux_device_stack_disconnect pcd else p

/-- What happens on the control pipe: a request arrives, the main loop runs the tasks of the
    stack, the host asks for a packet, the interrupt for it is served, the host sends a packet,
    and the bus is reset or the cable taken off. -/
inductive ControlStep where
  | setup (setup : Setup)
  | task (answer : Answer)
  | in_token
  | interrupt
  | out_packet (bytes : List UInt8)
  | bus_reset
  | disconnect
  deriving DecidableEq

def ControlPipe.out_packet (pcd : ControlController η) (p : ControlPipe η) (bytes : List UInt8) :
    ControlPipe η :=
  match pcd.packet p.hal p.data bytes with
  | some (hal, data, count) => { p with hal, data }.HAL_PCD_DataOutStageCallback pcd count
  | none => p

/-- A step of a pipe whose stack runs on, with the packet that the host gets. -/
def ControlPipe.act (fw : Frameworks) (pcd : ControlController η) (p : ControlPipe η) :
    ControlStep → Option (ControlPipe η) × Option (List UInt8)
  | .setup setup => (some ({ p with hal := pcd.setup p.hal }.HAL_PCD_SetupStageCallback pcd setup), none)
  | .task answer => (p._ux_dcd_stm32_setup_isr_pending fw pcd answer, none)
  | .in_token =>
    match pcd.in_token p.hal with
    | some (hal, packet) => (some { p with hal }, some packet)
    | none => (some p, none)
  | .interrupt =>
    match pcd.interrupt p.hal with
    | some hal => (some ({ p with hal }.HAL_PCD_DataInStageCallback pcd), none)
    | none => (some p, none)
  | .out_packet bytes => (some (p.out_packet pcd bytes), none)
  | .bus_reset => (some (p.HAL_PCD_ResetCallback pcd), none)
  | .disconnect => (some (p.HAL_PCD_DisconnectCallback pcd), none)

def ControlPipe.step (fw : Frameworks) (pcd : ControlController η) (state : Option (ControlPipe η))
    (step : ControlStep) : Option (ControlPipe η) × Option (List UInt8) :=
  match state with
  | some p => p.act fw pcd step
  | none => (none, none)

/-- The packets that the host gets in a run. -/
def ControlPipe.packets (fw : Frameworks) (pcd : ControlController η) (p : ControlPipe η)
    (steps : List ControlStep) : List (List UInt8) :=
  (machine.run (ControlPipe.step fw pcd) (some p) steps).2.filterMap id

/-- The control endpoint before the host is there. Its buffer may hold anything. -/
def ControlPipe.start (hal : η) (data : Nat → UInt8) : ControlPipe η where
  state := .RESET
  phase := .DATA_IN
  pending := false
  completion_success := true
  status_phase_ignore := false
  requested_length := 0
  actual_length := 0
  in_transfer_length := 0
  current_data_pointer := 0
  force_zlp := false
  halted := false
  ed_used := false
  ed_stalled := false
  ed_transfer := false
  ed_done := false
  ed_setup := 0
  hal
  device_state := .RESET
  setup := ⟨0, 0, 0, 0, 0⟩
  data
  ed_direction_in := false
  ed_state := .IDLE

end keychain.usb
