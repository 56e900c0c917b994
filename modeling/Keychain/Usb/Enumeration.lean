import Keychain.Cmd.Reply
import Keychain.Usb.DataStage

namespace keychain.usb

open delivery

/-- A standard request for a descriptor. The stack does not look at the recipient. -/
def Setup.GetDescriptor (setup : Setup) : Prop :=
  setup.bmRequestType &&& UX_REQUEST_IN ≠ 0 ∧ setup.bmRequestType &&& UX_REQUEST_TYPE = 0 ∧
    setup.bRequest = UX_GET_DESCRIPTOR

instance (setup : Setup) : Decidable setup.GetDescriptor :=
  inferInstanceAs (Decidable (_ ∧ _ ∧ _))

/-- How often the host is answered after the main loop has first run the tasks. -/
def answered_after_task (steps : List ControlStep) : Nat :=
  answered true (steps.dropWhile fun | .task _ => false | _ => true)

/-- The packets of a reply. -/
def Reply.packets (wanted : Nat) (reply : Reply) : List (List UInt8) :=
  match reply.data with
  | some data => packet.all USBD_MAX_EP0_SIZE data wanted
  | none => []

theorem Reply.eq_transfer {reply : Reply} {data : List UInt8} (h : reply.data = some data) :
    reply = .transfer data := by
  cases reply with
  | transfer sent => exact congrArg Reply.transfer (Option.some.inj h)
  | stall success => cases h
  | error => cases h

section

variable {η : Type}

/-- The device is attached, no request of another kind is pending nor its data still to come,
    and the endpoint is open, with the interrupt for the packet that was sent last served. -/
structure ControlPipe.Ready (status : η → TxStatus) (p : ControlPipe η) : Prop where
  attached : p.device_state ≠ .RESET
  ed_setup : p.ed_setup = 0 ∨ p.ed_setup = UX_DCD_STM32_ED_STATUS_SETUP_IN
  ed_state : p.ed_state ≠ .DATA_RX
  opened : status p.hal ≠ .DISABLED
  served : status p.hal ≠ .SENT

variable {pcd : ControlController η} {status : η → TxStatus} {fw : Frameworks}
variable {p p' : ControlPipe η} {data : List UInt8}

/-- A request for a descriptor waits for the main loop. -/
structure ControlPipe.Waits (status : η → TxStatus) (setup : Setup) (p : ControlPipe η) : Prop where
  setup : p.setup = setup
  ed_setup : p.ed_setup = UX_DCD_STM32_ED_STATUS_SETUP_IN
  ed_state : p.ed_state ≠ .DATA_RX
  completion_success : p.completion_success = true
  idle : p.Idle status

/-- The pipe in which the main loop handles a request to send. -/
def ControlPipe.serving (p : ControlPipe η) : ControlPipe η :=
  { p with ed_setup := 0, ed_direction_in := true, ed_state := .DATA_TX }

variable {setup : Setup} {reply : Reply} {steps : List ControlStep}

theorem ControlPipe.Waits.serving (h : p.Waits status setup) : p.serving.Idle status :=
  ⟨⟨h.idle.served.attached, h.idle.served.status_phase_ignore, h.idle.served.halted,
    h.idle.served.ed_stalled⟩, h.idle.ed_transfer, h.idle.nak⟩

/-- What the main loop makes of a request that waits, when the stack returns from it. -/
theorem ControlPipe.Waits.task (h : p.Waits status setup) (hsetup : setup.GetDescriptor)
    (hreply : process_get_descriptor fw setup = some reply) (answer : Answer) :
    p._ux_dcd_stm32_setup_isr_pending fw pcd answer =
      some (if (p.serving.get_descriptor pcd reply).1 then (p.serving.get_descriptor pcd reply).2
        else (p.serving.get_descriptor pcd reply).2._ux_device_stack_endpoint_stall pcd) := by
  have hpending : ¬ p.ed_setup = 0 := by simp [h.ed_setup, UX_DCD_STM32_ED_STATUS_SETUP_IN]
  have hrequest : p.setup.bmRequestType &&& UX_REQUEST_TYPE = 0 ∧ p.setup.bRequest = UX_GET_DESCRIPTOR := by
    rw [h.setup]
    exact hsetup.2
  have hfound : process_get_descriptor fw p.setup = some reply := by rw [h.setup, hreply]
  have hsucceeded : ¬ p.completion_success = false := by simp [h.completion_success]
  rw [ControlPipe._ux_dcd_stm32_setup_isr_pending, if_neg hpending]
  dsimp only
  rw [if_pos h.ed_setup, ControlPipe._ux_dcd_stm32_setup_in,
    ControlPipe._ux_device_stack_control_request_process]
  dsimp only
  rw [if_neg hsucceeded, if_pos hrequest, hfound, Option.map_some, Option.map_some, Option.map_some]
  change some (if (p.serving.get_descriptor pcd reply).1 then _ else _ : Bool × ControlPipe η).2 = _
  split_ifs <;> rfl

theorem ControlPipe.endpoint_stall_eq (hattached : p.device_state ≠ .RESET) (hhalted : p.halted = false) :
    p._ux_device_stack_endpoint_stall pcd = p._ux_dcd_stm32_endpoint_stall pcd :=
  if_pos ⟨hattached, hhalted⟩

theorem ControlPipe.Waits.task_stall (hpcd : pcd.Documented status) (h : p.Waits status setup)
    (hsetup : setup.GetDescriptor) (hreply : process_get_descriptor fw setup = some reply)
    (hnone : reply.data = none) (answer : Answer) :
    ∃ p', p.act fw pcd (.task answer) = (some p', none) ∧ p'.Stalled status := by
  have honce := hpcd.stalls p.hal (.inl h.idle.nak)
  have hattached := h.serving.served.attached
  have hhalted := h.serving.served.halted
  refine ⟨_, congrArg (·, none) (h.task hsetup hreply answer), ?_⟩
  cases reply with
  | transfer data => cases hnone
  | stall success =>
    cases success with
    | true => exact ⟨⟨rfl, EdState.noConfusion⟩, rfl, honce⟩
    | false =>
      change ((p.serving._ux_dcd_stm32_endpoint_stall pcd)._ux_device_stack_endpoint_stall pcd).Stalled status
      rw [ControlPipe.endpoint_stall_eq (p := p.serving._ux_dcd_stm32_endpoint_stall pcd) hattached hhalted]
      exact ⟨⟨rfl, EdState.noConfusion⟩, rfl, hpcd.stalls _ (.inr honce)⟩
  | error =>
    change (p.serving._ux_device_stack_endpoint_stall pcd).Stalled status
    rw [ControlPipe.endpoint_stall_eq hattached hhalted]
    exact ⟨⟨rfl, EdState.noConfusion⟩, rfl, honce⟩

theorem ControlPipe.Waits.task_transfer (hpcd : pcd.Documented status) (h : p.Waits status setup)
    (hsetup : setup.GetDescriptor) (hreply : process_get_descriptor fw setup = some (.transfer data))
    (answer : Answer) :
    ∃ p', p.act fw pcd (.task answer) = (some p', none) ∧ p'.Quiet ∧
      p'.Sends status data setup.wLength.toNat 0 true := by
  have hfound : p.serving.get_descriptor pcd (.transfer data) =
      (true, p.serving.sending pcd data setup.wLength.toNat) := by
    rw [← ControlPipe.transfer_eq h.serving.served h.serving.ed_transfer, ← h.setup]
    rfl
  rw [ControlPipe.act, h.task hsetup hreply, hfound]
  exact ⟨_, rfl, ⟨rfl, by simp [ControlPipe.sending, ControlPipe.serving]⟩, h.serving.sends hpcd rfl _ _⟩

variable (fw) in
/-- Until the main loop runs, nothing happens. -/
theorem ControlPipe.Waits.act (hpcd : pcd.Documented status) (h : p.Waits status setup)
    {step : ControlStep} (hstep : step.Reads) (htask : ∀ answer, step ≠ .task answer) :
    ∃ p', p.act fw pcd step = (some p', none) ∧ p'.Waits status setup := by
  cases step with
  | task answer => exact absurd rfl (htask answer)
  | in_token => exact ⟨p, ControlPipe.act_in_token_none hpcd (by simp [h.idle.nak]), h⟩
  | interrupt => exact ⟨p, ControlPipe.act_interrupt_none hpcd (by simp [h.idle.nak]), h⟩
  | out_packet bytes =>
    obtain rfl : bytes = [] := hstep
    obtain ⟨hal, hact, hsame⟩ := ControlPipe.act_out_packet fw hpcd h.ed_state
    refine ⟨_, hact, h.setup, h.ed_setup, h.ed_state, h.completion_success, ?_, h.idle.ed_transfer,
      hsame.trans h.idle.nak⟩
    exact ⟨h.idle.served.attached, h.idle.served.status_phase_ignore, h.idle.served.halted,
      h.idle.served.ed_stalled⟩
  | setup setup => exact absurd hstep id
  | bus_reset => exact absurd hstep id
  | disconnect => exact absurd hstep id

/-- From the request on, the host gets the packets of the reply, once the main loop has run. -/
theorem ControlPipe.Waits.run (hpcd : pcd.Documented status) (h : p.Waits status setup)
    (hsetup : setup.GetDescriptor) (hreply : process_get_descriptor fw setup = some reply)
    {steps : List ControlStep} (hsteps : ∀ step ∈ steps, step.Reads) :
    p.packets fw pcd steps =
      (reply.packets setup.wLength.toNat).take (answered_after_task steps) := by
  induction steps generalizing p with
  | nil => exact List.take_zero.symm
  | cons step rest ih =>
    obtain ⟨hstep, hrest⟩ := List.forall_mem_cons.mp hsteps
    by_cases htask : ∃ answer, step = .task answer
    · obtain ⟨answer, rfl⟩ := htask
      cases hdata : reply.data with
      | none =>
        obtain ⟨p', hact, hstalled⟩ := h.task_stall hpcd hsetup hreply hdata answer
        rw [ControlPipe.packets_cons hact, (hstalled.run hpcd hrest).1, Reply.packets, hdata]
        exact List.take_nil.symm
      | some data =>
        obtain rfl := Reply.eq_transfer hdata
        obtain ⟨p', hact, hquiet, hsends⟩ := h.task_transfer hpcd hsetup hreply answer
        rw [ControlPipe.packets_cons hact, hsends.run hpcd hquiet hrest]
        rfl
    · push Not at htask
      obtain ⟨p', hact, hwaits⟩ := h.act fw hpcd hstep htask
      have hskip : answered_after_task (step :: rest) = answered_after_task rest := by
        cases step with
        | task answer => exact absurd rfl (htask answer)
        | _ => rfl
      rw [ControlPipe.packets_cons hact, ih hwaits hrest, hskip]
      rfl

/-- An endpoint at which a request waits that is not answered is stalled when the main loop
    has run. -/
theorem ControlPipe.Waits.run_stalled (hpcd : pcd.Documented status) (h : p.Waits status setup)
    (hsetup : setup.GetDescriptor) (hreply : process_get_descriptor fw setup = some reply)
    (hnone : reply.data = none) {steps : List ControlStep} (hsteps : ∀ step ∈ steps, step.Reads)
    {answer : Answer} (htask : .task answer ∈ steps) :
    ∃ p', (machine.run (ControlPipe.step fw pcd) (some p) steps).1 = some p' ∧ p'.Stalled status := by
  induction steps generalizing p with
  | nil => cases htask
  | cons step rest ih =>
    obtain ⟨hstep, hrest⟩ := List.forall_mem_cons.mp hsteps
    by_cases hhere : ∃ answer, step = .task answer
    · obtain ⟨other, rfl⟩ := hhere
      obtain ⟨p', hact, hstalled⟩ := h.task_stall hpcd hsetup hreply hnone other
      rw [ControlPipe.run_cons hact]
      exact (hstalled.run hpcd hrest).2
    · push Not at hhere
      obtain ⟨p', hact, hwaits⟩ := h.act fw hpcd hstep hhere
      rw [ControlPipe.run_cons hact]
      exact ih hwaits hrest (List.mem_of_ne_of_mem (hhere answer).symm htask)

/-- The stack is never told to leave out a transfer of the control endpoint. -/
structure ControlPipe.Sound (p : ControlPipe η) : Prop where
  status_phase_ignore : p.status_phase_ignore = false
  halted : p.halted = false

/-- A setup packet that reaches a pipe that is ready for it waits for the main loop. -/
theorem ControlPipe.Ready.waits (hpcd : pcd.Documented status) (h : p.Ready status) (hsound : p.Sound)
    (hsetup : setup.GetDescriptor) :
    ({ p with hal := pcd.setup p.hal }.HAL_PCD_SetupStageCallback pcd setup).Waits status setup := by
  have hbits : p.ed_setup ||| UX_DCD_STM32_ED_STATUS_SETUP_IN = UX_DCD_STM32_ED_STATUS_SETUP_IN := by
    obtain hnone | hin := h.ed_setup
    · rw [hnone]
      rfl
    · rw [hin]
      rfl
  rw [ControlPipe.HAL_PCD_SetupStageCallback]
  dsimp only
  rw [if_pos hsetup.1]
  exact ⟨rfl, hbits, h.ed_state, rfl, ⟨h.attached, hsound.status_phase_ignore, hsound.halted, rfl⟩, rfl,
    hpcd.setups _ h.opened h.served⟩

theorem ControlPipe.Sound.transfer (h : p.Sound) (data : List UInt8) (host_length : Nat) :
    (p.transfer pcd data host_length).2.Sound := by
  rw [ControlPipe.transfer, ControlPipe._ux_device_stack_transfer_request]
  exact ⟨(transfer_run_frame _ _).1.trans h.status_phase_ignore, (transfer_run_frame _ _).2.trans h.halted⟩

theorem ControlPipe.Sound.dcd_stall (h : p.Sound) : (p._ux_dcd_stm32_endpoint_stall pcd).Sound :=
  ⟨h.status_phase_ignore, h.halted⟩

theorem ControlPipe.Sound.endpoint_stall (h : p.Sound) :
    (p._ux_device_stack_endpoint_stall pcd).Sound := by
  rw [ControlPipe._ux_device_stack_endpoint_stall]
  split_ifs
  · exact h.dcd_stall
  · exact h

theorem ControlPipe.Sound.get_descriptor (h : p.Sound) (reply : Reply) :
    (p.get_descriptor pcd reply).2.Sound := by
  cases reply with
  | transfer data => exact h.transfer data _
  | stall success => exact h.dcd_stall
  | error => exact h

theorem ControlPipe.Sound.other_request (h : p.Sound) (answer : Answer) :
    (p.other_request pcd answer).2.Sound := by
  obtain ⟨device_state, reply, stall, success⟩ := answer
  have hnext : ({ p with device_state } : ControlPipe η).Sound := ⟨h.status_phase_ignore, h.halted⟩
  have hsent : ∀ {p : ControlPipe η}, p.Sound →
      (if stall then p._ux_dcd_stm32_endpoint_stall pcd else p).Sound := by
    intro p h
    split_ifs
    · exact h.dcd_stall
    · exact h
  cases reply with
  | none => exact hsent hnext
  | some sent => exact hsent (hnext.transfer sent.1 sent.2)

variable (pcd) in
/-- A stack that returns from the requests for descriptors returns from every request. -/
theorem ControlPipe.Sound.process (hreturns : ∀ setup, (process_get_descriptor fw setup).isSome)
    (h : p.Sound) (answer : Answer) :
    ∃ ran, p._ux_device_stack_control_request_process fw pcd answer = some ran ∧ ran.2.Sound := by
  have hstalls : ∀ ran : Bool × ControlPipe η, ran.2.Sound →
      (if ran.1 then ran else (false, ran.2._ux_device_stack_endpoint_stall pcd)).2.Sound := by
    intro ran hran
    split_ifs
    · exact hran
    · exact hran.endpoint_stall
  rw [ControlPipe._ux_device_stack_control_request_process]
  split_ifs
  · exact ⟨_, rfl, h⟩
  · obtain ⟨reply, hreply⟩ := Option.isSome_iff_exists.mp (hreturns p.setup)
    rw [hreply]
    exact ⟨_, rfl, hstalls _ (h.get_descriptor reply)⟩
  · exact ⟨_, rfl, hstalls _ (h.other_request answer)⟩

variable (pcd) in
theorem ControlPipe.Sound.task (hreturns : ∀ setup, (process_get_descriptor fw setup).isSome)
    (h : p.Sound) (answer : Answer) :
    ∃ p', p._ux_dcd_stm32_setup_isr_pending fw pcd answer = some p' ∧ p'.Sound := by
  have hthen : ∀ (ed_state : EdState) (p : ControlPipe η), p.Sound →
      ∃ p', p.setup_then fw pcd answer ed_state = some p' ∧ p'.Sound := by
    intro ed_state p h
    obtain ⟨ran, hran, hsound⟩ := ControlPipe.Sound.process pcd hreturns
      (p := { p with ed_direction_in := true }) ⟨h.status_phase_ignore, h.halted⟩ answer
    rw [ControlPipe.setup_then, hran]
    refine ⟨_, rfl, ?_⟩
    dsimp only
    split_ifs
    · exact ⟨hsound.status_phase_ignore, hsound.halted⟩
    · exact hsound
  rw [ControlPipe._ux_dcd_stm32_setup_isr_pending]
  split_ifs
  · exact ⟨p, rfl, h⟩
  · obtain ⟨ran, hran, hsound⟩ := ControlPipe.Sound.process pcd hreturns
      (p := p.serving) ⟨h.status_phase_ignore, h.halted⟩ answer
    exact ⟨ran.2, congrArg (Option.map Prod.snd) hran, hsound⟩
  · exact hthen .STATUS_TX _ ⟨h.status_phase_ignore, h.halted⟩
  · exact hthen .STATUS_RX _ ⟨h.status_phase_ignore, h.halted⟩

theorem ControlPipe.Sound.controller (h : p.Sound) (hal : η) (data : Nat → UInt8) :
    { p with hal, data }.Sound :=
  ⟨h.status_phase_ignore, h.halted⟩

theorem ControlPipe.Sound.setup_stage (h : p.Sound) (setup : Setup) :
    (p.HAL_PCD_SetupStageCallback pcd setup).Sound := by
  simp only [ControlPipe.HAL_PCD_SetupStageCallback]
  split_ifs <;> exact ⟨h.status_phase_ignore, h.halted⟩

theorem ControlPipe.Sound.data_in (h : p.Sound) : (p.HAL_PCD_DataInStageCallback pcd).Sound := by
  simp only [ControlPipe.HAL_PCD_DataInStageCallback]
  split_ifs <;> exact ⟨h.status_phase_ignore, h.halted⟩

theorem ControlPipe.Sound.data_out (h : p.Sound) (transfer_length : Nat) :
    (p.HAL_PCD_DataOutStageCallback pcd transfer_length).Sound := by
  simp only [ControlPipe.HAL_PCD_DataOutStageCallback]
  split_ifs <;> exact ⟨h.status_phase_ignore, h.halted⟩

theorem ControlPipe.Sound.disconnect (h : p.Sound) : (p._ux_device_stack_disconnect pcd).Sound := by
  simp only [ControlPipe._ux_device_stack_disconnect]
  split_ifs <;> exact ⟨h.status_phase_ignore, h.halted⟩

variable (pcd) in
theorem ControlPipe.Sound.act (hreturns : ∀ setup, (process_get_descriptor fw setup).isSome)
    (h : p.Sound) (step : ControlStep) :
    ∃ p' sent, p.act fw pcd step = (some p', sent) ∧ p'.Sound := by
  cases step with
  | setup setup => exact ⟨_, none, rfl, (h.controller (pcd.setup p.hal) p.data).setup_stage setup⟩
  | task answer =>
    obtain ⟨p', hpending, hsound⟩ := h.task pcd hreturns answer
    exact ⟨p', none, by rw [ControlPipe.act, hpending], hsound⟩
  | in_token =>
    rw [ControlPipe.act]
    cases pcd.in_token p.hal with
    | none => exact ⟨p, none, rfl, h⟩
    | some sent => exact ⟨_, _, rfl, h.controller sent.1 p.data⟩
  | interrupt =>
    rw [ControlPipe.act]
    cases pcd.interrupt p.hal with
    | none => exact ⟨p, none, rfl, h⟩
    | some hal => exact ⟨_, none, rfl, (h.controller hal p.data).data_in⟩
  | out_packet bytes =>
    refine ⟨_, none, rfl, ?_⟩
    rw [ControlPipe.out_packet]
    cases pcd.packet p.hal p.data bytes with
    | none => exact h
    | some received => exact (h.controller received.1 received.2.1).data_out received.2.2
  | bus_reset =>
    refine ⟨_, none, rfl, ?_, rfl⟩
    rw [ControlPipe.HAL_PCD_ResetCallback]
    split_ifs
    · exact h.disconnect.status_phase_ignore
    · exact h.status_phase_ignore
  | disconnect =>
    refine ⟨_, none, rfl, ?_⟩
    rw [ControlPipe.HAL_PCD_DisconnectCallback]
    split_ifs
    · exact h.disconnect
    · exact h

variable (pcd) in
/-- The stack runs on, whatever happens. -/
theorem ControlPipe.Sound.run (hreturns : ∀ setup, (process_get_descriptor fw setup).isSome)
    (h : p.Sound) (steps : List ControlStep) :
    ∃ p', (machine.run (ControlPipe.step fw pcd) (some p) steps).1 = some p' ∧ p'.Sound := by
  refine machine.run_invariant (ControlPipe.step fw pcd) (fun state => ∃ p, state = some p ∧ p.Sound)
    (fun _ => True) ?_ (some p) steps ⟨p, rfl, h⟩ fun _ _ => trivial
  rintro state step ⟨p, rfl, h⟩ -
  obtain ⟨p', sent, hact, hsound⟩ := h.act pcd hreturns step
  exact ⟨p', congrArg Prod.fst hact, hsound⟩

/-- The packets of a run are those of its parts. -/
theorem ControlPipe.run_setup (hready : (machine.run (ControlPipe.step fw pcd) (some p) steps).1 = some p')
    (after : List ControlStep) (setup : Setup) :
    let waiting := { p' with hal := pcd.setup p'.hal }.HAL_PCD_SetupStageCallback pcd setup
    (machine.run (ControlPipe.step fw pcd) (some p) (steps ++ .setup setup :: after)).1 =
        (machine.run (ControlPipe.step fw pcd) (some waiting) after).1 ∧
      p.packets fw pcd (steps ++ .setup setup :: after) =
        p.packets fw pcd steps ++ waiting.packets fw pcd after := by
  intro waiting
  constructor
  · rw [machine.run_append, hready]
    rfl
  · rw [ControlPipe.packets, machine.run_append, hready, List.filterMap_append]
    rfl

/-- What a pipe has to be ready for: when a request without data is pending, one for a descriptor
    gets the kind of a request that has come with its data. The packet of its data is followed at
    once by an empty one, and the interrupt for a packet then sends no more of them. -/
theorem ControlPipe.get_descriptor_overtakes (hsound : p.Sound) (hattached : p.device_state ≠ .RESET)
    (hpending : p.ed_setup = UX_DCD_STM32_ED_STATUS_SETUP_STATUS) (hsetup : setup.GetDescriptor)
    (hreply : process_get_descriptor fw setup = some (.transfer data)) (answer : Answer) :
    ∃ p', ({ p with hal := pcd.setup p.hal }.HAL_PCD_SetupStageCallback pcd
          setup)._ux_dcd_stm32_setup_isr_pending fw pcd answer = some p' ∧
      p'.hal = pcd.HAL_PCD_EP_Transmit (pcd.HAL_PCD_EP_Transmit (pcd.setup p.hal) data) [] ∧
      p'.HAL_PCD_DataInStageCallback pcd = p' := by
  have hbits : p.ed_setup ||| UX_DCD_STM32_ED_STATUS_SETUP_IN = UX_DCD_STM32_ED_STATUS_SETUP_OUT := by
    rw [hpending]
    rfl
  rw [ControlPipe.HAL_PCD_SetupStageCallback]
  dsimp only
  rw [if_pos hsetup.1, hbits, ControlPipe._ux_dcd_stm32_setup_isr_pending]
  dsimp only
  rw [if_neg (by decide), if_neg (by decide), if_pos rfl, ControlPipe._ux_dcd_stm32_setup_out,
    ControlPipe.setup_then, ControlPipe._ux_device_stack_control_request_process]
  dsimp only
  rw [if_neg (by decide), if_pos hsetup.2, hreply, Option.map_some, Option.map_some, Option.map_some,
    ControlPipe.get_descriptor, ControlPipe.transfer_eq]
  · refine ⟨_, rfl, ?_, rfl⟩
    exact congrArg (pcd.HAL_PCD_EP_Transmit · []) (ControlPipe.sending_hal data _)
  · exact ⟨hattached, hsound.status_phase_ignore, hsound.halted, rfl⟩
  · rfl

end

/-- A controller that knows nothing but how it answers. -/
def ControlController.simple : ControlController TxStatus where
  HAL_PCD_EP_Open _ := .NAK
  HAL_PCD_EP_Close _ := .DISABLED
  HAL_PCD_EP_Abort _ := .NAK
  HAL_PCD_EP_Flush hal := hal
  HAL_PCD_EP_SetStall _ := .STALL
  HAL_PCD_EP_ClrStall _ := .NAK
  HAL_PCD_EP_Transmit _ bytes := .VALID (bytes.take USBD_MAX_EP0_SIZE)
  HAL_PCD_EP_Receive hal _ := hal
  packet hal data bytes := some (hal, write data 0 bytes, bytes.length)
  HAL_PCD_EP_SetStall_out hal := hal
  setup _ := .NAK
  in_token
    | .VALID packet => some (.SENT, packet)
    | _ => none
  interrupt
    | .SENT => some .NAK
    | _ => none

theorem ControlController.simple_documented : ControlController.simple.Documented id where
  setups _ _ _ := rfl
  transmits _ _ _ := rfl
  receives _ _ := rfl
  stalls _ _ := rfl
  sends hal packet hvalid := by
    obtain rfl : hal = .VALID packet := hvalid
    exact ⟨.SENT, rfl, rfl⟩
  refuses hal hnot := by
    cases hal with
    | VALID packet => exact absurd rfl (hnot packet)
    | _ => rfl
  interrupts hal hsent := by
    obtain rfl : hal = .SENT := hsent
    exact ⟨.NAK, rfl, rfl⟩
  quiet hal hnot := by
    cases hal with
    | SENT => exact absurd rfl hnot
    | _ => rfl
  acknowledges hal data hal' data' count hpacket := by
    obtain ⟨rfl, rfl, rfl⟩ : hal = hal' ∧ write data 0 [] = data' ∧ 0 = count := by
      simpa [ControlController.simple] using hpacket
    exact ⟨rfl, funext fun a => write_beyond data (Nat.zero_le a)⟩

end keychain.usb
