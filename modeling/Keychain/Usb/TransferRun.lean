import Mathlib.Data.List.Basic

namespace keychain.usb

/-- What the run functions of the USB stack return. Callers compare the codes. -/
inductive UX_STATE where
  | RESET
  | EXIT
  | IDLE
  | ERROR
  | NEXT
  | WAIT
  deriving DecidableEq

def UX_STATE.code : UX_STATE → Nat
  | .RESET => 0
  | .EXIT => 1
  | .IDLE => 2
  | .ERROR => 3
  | .NEXT => 4
  | .WAIT => 5

/-- `ux_slave_device_state`. This controller driver never sets the state in between,
    `UX_DEVICE_ADDRESSED`. -/
inductive DeviceState where
  | RESET
  | ATTACHED
  | CONFIGURED
  deriving DecidableEq

/-- The states of a transfer request. The last one is that of a status phase which is
    left out. -/
inductive TransferState where
  | RESET
  | HALT_WAIT
  | TRAN_WAIT
  | NEXT
  deriving DecidableEq

/-- The stack names the phases by the host's side: in `DATA_OUT` the device sends. -/
inductive TransferPhase where
  | DATA_IN
  | DATA_OUT
  deriving DecidableEq

/-- What the run functions read of the descriptor of an endpoint. -/
structure EndpointDescriptor where
  control : Bool
  direction_in : Bool
  wMaxPacketSize : Nat

/-- The calls of the HAL driver for one endpoint, of which only the interface is at hand.
    What the driver and the controller remember of the endpoint is of type `η`. -/
structure Pcd (η : Type) where
  HAL_PCD_EP_Open : η → η
  HAL_PCD_EP_Close : η → η
  HAL_PCD_EP_Abort : η → η
  HAL_PCD_EP_Flush : η → η
  HAL_PCD_EP_SetStall : η → η
  HAL_PCD_EP_ClrStall : η → η
  HAL_PCD_EP_Transmit : η → List UInt8 → η
  HAL_PCD_EP_Receive : η → Nat → η

/-- A transfer request with the state of its endpoint (`halted`) and with the flags that the
    controller driver keeps of it; `ed_setup` are the two bits `SETUP`. Of the completion code,
    only `UX_SUCCESS` is told from the others. -/
structure TransferRequest (η : Type) where
  state : TransferState
  phase : TransferPhase
  pending : Bool
  completion_success : Bool
  status_phase_ignore : Bool
  requested_length : Nat
  actual_length : Nat
  in_transfer_length : Nat
  current_data_pointer : Nat
  force_zlp : Bool
  halted : Bool
  ed_used : Bool
  ed_stalled : Bool
  ed_transfer : Bool
  ed_done : Bool
  ed_setup : Nat
  hal : η
  deriving DecidableEq

section

variable {η : Type}

/-- `bytes` gives the first bytes of the buffer of the transfer request. -/
def _ux_dcd_stm32_transfer_run (pcd : Pcd η) (device_state : DeviceState) (bytes : Nat → List UInt8)
    (t : TransferRequest η) : UX_STATE × TransferRequest η :=
  if device_state = .RESET then (.EXIT, { t with completion_success := false })
  else if t.ed_stalled then (.NEXT, { t with completion_success := false })
  else if t.ed_transfer then
    if t.ed_done then
      (.NEXT, { t with ed_transfer := false, ed_done := false, ed_setup := 0 })
    else (.WAIT, t)
  else
    let hal :=
      match t.phase with
      | .DATA_OUT => pcd.HAL_PCD_EP_Transmit t.hal (bytes t.requested_length)
      | .DATA_IN => pcd.HAL_PCD_EP_Receive t.hal t.requested_length
    (.WAIT, { t with ed_transfer := true, hal })

/-- The case `UX_STATE_RESET` of `_ux_device_stack_transfer_run`. -/
def TransferRequest.begin (endpoint : EndpointDescriptor) (t : TransferRequest η)
    (slave_length host_length : Nat) : TransferRequest η :=
  let phase :=
    if endpoint.control then t.phase else if endpoint.direction_in then .DATA_OUT else .DATA_IN
  { t with
    phase
    force_zlp := decide (phase = .DATA_OUT ∧ slave_length ≠ 0 ∧ host_length ≠ slave_length ∧
      slave_length % endpoint.wMaxPacketSize = 0)
    actual_length := 0
    requested_length := slave_length
    in_transfer_length := slave_length
    current_data_pointer := 0
    pending := true
    state := .HALT_WAIT }

/-- The case `UX_DEVICE_STACK_TRANSFER_STATE_TRAN_WAIT`. -/
def transfer_tran_wait (pcd : Pcd η) (device_state : DeviceState) (bytes : Nat → List UInt8)
    (t : TransferRequest η) : UX_STATE × TransferRequest η :=
  let ran := _ux_dcd_stm32_transfer_run pcd device_state bytes t
  if ran.1.code < UX_STATE.WAIT.code then (ran.1, { ran.2 with state := .RESET }) else ran

/-- The case `UX_DEVICE_STACK_TRANSFER_STATE_HALT_WAIT`, which falls through into the next one. -/
def transfer_halt_wait (pcd : Pcd η) (endpoint : EndpointDescriptor) (device_state : DeviceState)
    (bytes : Nat → List UInt8) (t : TransferRequest η) : UX_STATE × TransferRequest η :=
  if endpoint.control = false ∧ t.halted = true then (.WAIT, t)
  else transfer_tran_wait pcd device_state bytes { t with state := .TRAN_WAIT }

def _ux_device_stack_transfer_run (pcd : Pcd η) (endpoint : EndpointDescriptor)
    (device_state : DeviceState) (bytes : Nat → List UInt8) (t : TransferRequest η)
    (slave_length host_length : Nat) : UX_STATE × TransferRequest η :=
  if t.status_phase_ignore then (.NEXT, { t with state := .NEXT, completion_success := true })
  else if device_state = .RESET then (.EXIT, { t with state := .RESET, completion_success := false })
  else
    match t.state with
    | .RESET =>
      transfer_halt_wait pcd endpoint device_state bytes (t.begin endpoint slave_length host_length)
    | .HALT_WAIT => transfer_halt_wait pcd endpoint device_state bytes t
    | .TRAN_WAIT => transfer_tran_wait pcd device_state bytes t
    | .NEXT => (.EXIT, { t with state := .RESET })

/-- Nothing keeps the stack from running a transfer. -/
structure TransferRequest.Served (device_state : DeviceState) (t : TransferRequest η) : Prop where
  attached : device_state ≠ .RESET
  status_phase_ignore : t.status_phase_ignore = false
  halted : t.halted = false
  ed_stalled : t.ed_stalled = false

variable {pcd : Pcd η} {endpoint : EndpointDescriptor} {device_state : DeviceState}
variable {bytes : Nat → List UInt8} {t : TransferRequest η}

/-- The driver is asked to send or to receive. -/
def TransferRequest.launched (pcd : Pcd η) (bytes : Nat → List UInt8) (t : TransferRequest η) :
    TransferRequest η :=
  { t with
    state := .TRAN_WAIT
    ed_transfer := true
    hal :=
      match t.phase with
      | .DATA_OUT => pcd.HAL_PCD_EP_Transmit t.hal (bytes t.requested_length)
      | .DATA_IN => pcd.HAL_PCD_EP_Receive t.hal t.requested_length }

theorem TransferRequest.Served.transfer_begins (h : t.Served device_state) (hstate : t.state = .RESET)
    (htransfer : t.ed_transfer = false) (slave_length host_length : Nat) :
    _ux_device_stack_transfer_run pcd endpoint device_state bytes t slave_length host_length =
      (.WAIT, (t.begin endpoint slave_length host_length).launched pcd bytes) := by
  simp [_ux_device_stack_transfer_run, transfer_halt_wait, transfer_tran_wait,
    _ux_dcd_stm32_transfer_run, begin, launched, h.attached, h.status_phase_ignore, h.halted,
    h.ed_stalled, hstate, htransfer]

/-- A transfer whose flag has gone is started again as it was. -/
theorem TransferRequest.Served.transfer_restarts (h : t.Served device_state)
    (hstate : t.state = .TRAN_WAIT) (htransfer : t.ed_transfer = false)
    (slave_length host_length : Nat) :
    _ux_device_stack_transfer_run pcd endpoint device_state bytes t slave_length host_length =
      (.WAIT, t.launched pcd bytes) := by
  simp [_ux_device_stack_transfer_run, transfer_tran_wait, _ux_dcd_stm32_transfer_run, launched,
    h.attached, h.status_phase_ignore, h.ed_stalled, hstate, htransfer]

theorem TransferRequest.Served.transfer_waits (h : t.Served device_state)
    (hstate : t.state = .TRAN_WAIT) (htransfer : t.ed_transfer = true) (hdone : t.ed_done = false)
    (slave_length host_length : Nat) :
    _ux_device_stack_transfer_run pcd endpoint device_state bytes t slave_length host_length =
      (.WAIT, t) := by
  simp [_ux_device_stack_transfer_run, transfer_tran_wait, _ux_dcd_stm32_transfer_run,
    h.attached, h.status_phase_ignore, h.ed_stalled, hstate, htransfer, hdone]

theorem TransferRequest.Served.transfer_ends (h : t.Served device_state)
    (hstate : t.state = .TRAN_WAIT) (htransfer : t.ed_transfer = true) (hdone : t.ed_done = true)
    (slave_length host_length : Nat) :
    _ux_device_stack_transfer_run pcd endpoint device_state bytes t slave_length host_length =
      (.NEXT, { t with state := .RESET, ed_transfer := false, ed_done := false, ed_setup := 0 }) := by
  simp [_ux_device_stack_transfer_run, transfer_tran_wait, _ux_dcd_stm32_transfer_run,
    h.attached, h.status_phase_ignore, h.ed_stalled, hstate, htransfer, hdone, UX_STATE.code]

theorem transfer_tran_wait_frame :
    (transfer_tran_wait pcd device_state bytes t).2.status_phase_ignore = t.status_phase_ignore ∧
      (transfer_tran_wait pcd device_state bytes t).2.halted = t.halted := by
  simp only [transfer_tran_wait, _ux_dcd_stm32_transfer_run]
  split_ifs <;> exact ⟨rfl, rfl⟩

/-- A run does not touch what keeps the stack from transfers. -/
theorem transfer_run_frame (slave_length host_length : Nat) :
    (_ux_device_stack_transfer_run pcd endpoint device_state bytes t slave_length
        host_length).2.status_phase_ignore = t.status_phase_ignore ∧
      (_ux_device_stack_transfer_run pcd endpoint device_state bytes t slave_length
        host_length).2.halted = t.halted := by
  have hhalt_wait : ∀ t : TransferRequest η,
      (transfer_halt_wait pcd endpoint device_state bytes t).2.status_phase_ignore =
          t.status_phase_ignore ∧
        (transfer_halt_wait pcd endpoint device_state bytes t).2.halted = t.halted := by
    intro t
    rw [transfer_halt_wait]
    split_ifs
    · exact ⟨rfl, rfl⟩
    · exact transfer_tran_wait_frame
  rw [_ux_device_stack_transfer_run]
  split_ifs
  · exact ⟨rfl, rfl⟩
  · exact ⟨rfl, rfl⟩
  · cases t.state with
    | RESET => exact hhalt_wait _
    | HALT_WAIT => exact hhalt_wait _
    | TRAN_WAIT => exact transfer_tran_wait_frame
    | NEXT => exact ⟨rfl, rfl⟩

end

end keychain.usb
