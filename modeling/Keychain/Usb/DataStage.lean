import Keychain.Library.Packet
import Keychain.Usb.ControlPipe

namespace keychain.usb

open delivery

/-- What may happen until the next request, as long as the bus is not reset: all that the host
    sends is the empty packet of the status stage. -/
def ControlStep.Reads : ControlStep → Prop
  | .task _ => True
  | .in_token => True
  | .interrupt => True
  | .out_packet bytes => bytes = []
  | _ => False

instance : ∀ step : ControlStep, Decidable step.Reads
  | .task _ => .isTrue trivial
  | .in_token => .isTrue trivial
  | .interrupt => .isTrue trivial
  | .out_packet bytes => inferInstanceAs (Decidable (bytes = []))
  | .setup _ => .isFalse id
  | .bus_reset => .isFalse id
  | .disconnect => .isFalse id

/-- How often the host asks for a packet when the interrupt for the one before has been served. -/
def answered (served : Bool) : List ControlStep → Nat
  | [] => 0
  | .in_token :: rest => if served then answered false rest + 1 else answered false rest
  | .interrupt :: rest => answered true rest
  | _ :: rest => answered served rest

section

variable {η : Type}

/-- No request is pending. -/
structure ControlPipe.Quiet (p : ControlPipe η) : Prop where
  ed_setup : p.ed_setup = 0
  ed_state : p.ed_state ≠ .DATA_RX

/-- There is nothing that the controller is to send. -/
structure ControlPipe.Silent (status : η → TxStatus) (p : ControlPipe η) : Prop where
  unsent : status p.hal ≠ .SENT
  empty : ∀ packet, status p.hal ≠ .VALID packet

/-- The packet with number `m` is the next one to be sent, or has been sent. The length that
    counts down stops at a packet, so that the last one is known by it. -/
structure ControlPipe.Holds (data : List UInt8) (wanted : Nat) (p : ControlPipe η) (m : Nat) : Prop where
  le_last : m ≤ packet.last USBD_MAX_EP0_SIZE data
  ed_state : p.ed_state = .DATA_TX
  buffer : read p.data 0 data.length = data
  current : p.current_data_pointer = USBD_MAX_EP0_SIZE * m
  in_length : p.in_transfer_length =
    max (min data.length USBD_MAX_EP0_SIZE) (data.length - USBD_MAX_EP0_SIZE * m)
  force_zlp : p.force_zlp = decide (packet.Open USBD_MAX_EP0_SIZE data wanted)

/-- The same for the empty packet behind the last one with data. -/
structure ControlPipe.Ends (data : List UInt8) (wanted : Nat) (p : ControlPipe η) : Prop where
  is_open : packet.Open USBD_MAX_EP0_SIZE data wanted
  ed_state : p.ed_state = .DATA_TX
  in_length : p.in_transfer_length ≤ USBD_MAX_EP0_SIZE
  force_zlp : p.force_zlp = false

/-- The host has got `m` packets of a transfer. The flag tells whether the interrupt for the
    last of them has been served. -/
inductive ControlPipe.Sends (status : η → TxStatus) (data : List UInt8) (wanted : Nat)
    (p : ControlPipe η) : Nat → Bool → Prop
  | data {m : Nat} (holds : p.Holds data wanted m)
      (hal : status p.hal = .VALID (packet.nth USBD_MAX_EP0_SIZE data m)) : p.Sends status data wanted m true
  | taken {m : Nat} (holds : p.Holds data wanted m) (hal : status p.hal = .SENT) :
      p.Sends status data wanted (m + 1) false
  | zlp (ends : p.Ends data wanted) (hal : status p.hal = .VALID []) :
      p.Sends status data wanted (packet.last USBD_MAX_EP0_SIZE data + 1) true
  | zlp_taken (ends : p.Ends data wanted) (hal : status p.hal = .SENT) :
      p.Sends status data wanted (packet.last USBD_MAX_EP0_SIZE data + 2) false
  | finished {served : Bool} (silent : p.Silent status) :
      p.Sends status data wanted (packet.all USBD_MAX_EP0_SIZE data wanted).length served

variable {pcd : ControlController η} {status : η → TxStatus} {fw : Frameworks}
variable {p p' : ControlPipe η} {data : List UInt8} {wanted m : Nat} {served : Bool}

theorem ControlPipe.act_task (h : p.ed_setup = 0) (answer : Answer) :
    p.act fw pcd (.task answer) = (some p, none) := by
  rw [ControlPipe.act, ControlPipe._ux_dcd_stm32_setup_isr_pending, if_pos h]

variable (fw) in
theorem ControlPipe.act_in_token (hpcd : pcd.Documented status) {packet : List UInt8}
    (h : status p.hal = .VALID packet) :
    ∃ hal, p.act fw pcd .in_token = (some { p with hal }, some packet) ∧ status hal = .SENT := by
  obtain ⟨hal, htoken, hsent⟩ := hpcd.sends p.hal packet h
  exact ⟨hal, by rw [ControlPipe.act, htoken], hsent⟩

theorem ControlPipe.act_in_token_none (hpcd : pcd.Documented status)
    (h : ∀ packet, status p.hal ≠ .VALID packet) : p.act fw pcd .in_token = (some p, none) := by
  rw [ControlPipe.act, hpcd.refuses p.hal h]

variable (fw) in
theorem ControlPipe.act_interrupt (hpcd : pcd.Documented status) (h : status p.hal = .SENT) :
    ∃ hal, p.act fw pcd .interrupt =
      (some ({ p with hal }.HAL_PCD_DataInStageCallback pcd), none) ∧ status hal = .NAK := by
  obtain ⟨hal, hinterrupt, hnak⟩ := hpcd.interrupts p.hal h
  exact ⟨hal, by rw [ControlPipe.act, hinterrupt], hnak⟩

theorem ControlPipe.act_interrupt_none (hpcd : pcd.Documented status) (h : status p.hal ≠ .SENT) :
    p.act fw pcd .interrupt = (some p, none) := by
  rw [ControlPipe.act, hpcd.quiet p.hal h]

variable (fw) in
/-- The packet of the status stage changes nothing but the controller. -/
theorem ControlPipe.act_out_packet (hpcd : pcd.Documented status) (h : p.ed_state ≠ .DATA_RX) :
    ∃ hal, p.act fw pcd (.out_packet []) = (some { p with hal }, none) ∧ status hal = status p.hal := by
  rw [ControlPipe.act, ControlPipe.out_packet]
  cases hpacket : pcd.packet p.hal p.data [] with
  | none => exact ⟨p.hal, rfl, rfl⟩
  | some received =>
    obtain ⟨hal, data, count⟩ := received
    obtain ⟨hsame, rfl⟩ := hpcd.acknowledges _ _ _ _ _ hpacket
    refine ⟨hal, ?_, hsame⟩
    dsimp only
    rw [ControlPipe.HAL_PCD_DataOutStageCallback, if_pos h]

variable (fw) in
/-- A pipe that has nothing to send and to do. -/
theorem ControlPipe.Silent.act (hpcd : pcd.Documented status) (h : p.Silent status) (hquiet : p.Quiet)
    {step : ControlStep} (hstep : step.Reads) :
    ∃ hal, p.act fw pcd step = (some { p with hal }, none) ∧ status hal = status p.hal := by
  cases step with
  | task answer => exact ⟨p.hal, ControlPipe.act_task hquiet.ed_setup answer, rfl⟩
  | in_token => exact ⟨p.hal, ControlPipe.act_in_token_none hpcd h.empty, rfl⟩
  | interrupt => exact ⟨p.hal, ControlPipe.act_interrupt_none hpcd h.unsent, rfl⟩
  | out_packet bytes =>
    obtain rfl : bytes = [] := hstep
    exact ControlPipe.act_out_packet fw hpcd hquiet.ed_state
  | setup setup => exact absurd hstep id
  | bus_reset => exact absurd hstep id
  | disconnect => exact absurd hstep id

theorem ControlPipe.packets_cons {step : ControlStep} {sent : Option (List UInt8)}
    (h : p.act fw pcd step = (some p', sent)) (rest : List ControlStep) :
    p.packets fw pcd (step :: rest) = sent.toList ++ p'.packets fw pcd rest := by
  rw [ControlPipe.packets, ControlPipe.packets, machine.run_cons, ControlPipe.step, h]
  cases sent <;> rfl

theorem ControlPipe.run_cons {step : ControlStep} {sent : Option (List UInt8)}
    (h : p.act fw pcd step = (some p', sent)) (rest : List ControlStep) :
    (machine.run (ControlPipe.step fw pcd) (some p) (step :: rest)).1 =
      (machine.run (ControlPipe.step fw pcd) (some p') rest).1 := by
  rw [machine.run_cons, ControlPipe.step, h]

/-- A transfer has been handed to the driver. -/
def ControlPipe.sending (pcd : ControlController η) (p : ControlPipe η) (data : List UInt8)
    (wanted : Nat) : ControlPipe η :=
  let buffer := write p.data 0 data
  { p with
    data := buffer
    toTransferRequest := ({ p.toTransferRequest with phase := .DATA_OUT, state := .RESET }.begin
      endpoint_control data.length wanted).launched pcd.toPcd (read buffer 0) }

theorem ControlPipe.transfer_eq (hserved : p.toTransferRequest.Served p.device_state)
    (htransfer : p.ed_transfer = false) (data : List UInt8) (wanted : Nat) :
    p.transfer pcd data wanted = (true, p.sending pcd data wanted) := by
  have hreset : { p.toTransferRequest with phase := .DATA_OUT, state := .RESET }.Served p.device_state :=
    ⟨hserved.attached, hserved.status_phase_ignore, hserved.halted, hserved.ed_stalled⟩
  rw [ControlPipe.transfer, ControlPipe._ux_device_stack_transfer_request,
    hreset.transfer_begins rfl htransfer]
  rfl

theorem ControlPipe.sending_hal (data : List UInt8) (wanted : Nat) :
    (p.sending pcd data wanted).hal = pcd.HAL_PCD_EP_Transmit p.hal data := by
  change pcd.HAL_PCD_EP_Transmit p.hal (read (write p.data 0 data) 0 data.length) = _
  rw [read_write _ _ _ (Nat.le_refl _), List.take_length]

/-- Nothing keeps the stack from a transfer on the endpoint. -/
structure ControlPipe.Idle (status : η → TxStatus) (p : ControlPipe η) : Prop where
  served : p.toTransferRequest.Served p.device_state
  ed_transfer : p.ed_transfer = false
  nak : status p.hal = .NAK

/-- A request that finds data is answered with their first packet. -/
theorem ControlPipe.Idle.sends (hpcd : pcd.Documented status) (h : p.Idle status)
    (hstate : p.ed_state = .DATA_TX) (data : List UInt8) (wanted : Nat) :
    (p.sending pcd data wanted).Sends status data wanted 0 true := by
  have hzlp : decide (data.length ≠ 0 ∧ wanted ≠ data.length ∧ data.length % USBD_MAX_EP0_SIZE = 0) =
      decide (packet.Open USBD_MAX_EP0_SIZE data wanted) := by
    rw [decide_eq_decide, packet.Open, List.length_eq_zero_iff.ne]
  refine .data ⟨Nat.zero_le _, hstate, ?_, rfl, ?_, ?_⟩ ?_
  · exact (read_write p.data 0 data (Nat.le_refl _)).trans List.take_length
  · change data.length = _
    rw [Nat.mul_zero, Nat.sub_zero]
    omega
  · rw [← hzlp]
    simp [ControlPipe.sending, TransferRequest.launched, TransferRequest.begin, endpoint_control]
  · rw [ControlPipe.sending_hal, hpcd.transmits _ _ h.nak]
    rfl

/-- Before the last packet with data, more than one packet is left. -/
theorem lt_length_of_lt_last (h : m < packet.last USBD_MAX_EP0_SIZE data) :
    USBD_MAX_EP0_SIZE * (m + 1) < data.length := by
  have hmul : packet.last USBD_MAX_EP0_SIZE data * 64 ≤ data.length - 1 := Nat.div_mul_le_self _ 64
  have hsize : USBD_MAX_EP0_SIZE = 64 := rfl
  rw [hsize]
  omega

/-- The interrupt behind a packet that is not the last one with data. -/
theorem ControlPipe.Holds.data_in_continues (hpcd : pcd.Documented status) (h : p.Holds data wanted m)
    (hlt : m < packet.last USBD_MAX_EP0_SIZE data) (hnak : status p.hal = .NAK) :
    (p.HAL_PCD_DataInStageCallback pcd).Sends status data wanted (m + 1) true := by
  have hmore := lt_length_of_lt_last hlt
  have hsize : USBD_MAX_EP0_SIZE = 64 := rfl
  have hcount : USBD_MAX_EP0_SIZE * (m + 1) = USBD_MAX_EP0_SIZE * m + USBD_MAX_EP0_SIZE := Nat.mul_succ _ m
  have hlength := h.in_length
  have hbehind : ¬ p.in_transfer_length ≤ USBD_MAX_EP0_SIZE := by omega
  have hleft : (if p.in_transfer_length - USBD_MAX_EP0_SIZE > USBD_MAX_EP0_SIZE then USBD_MAX_EP0_SIZE
      else p.in_transfer_length - USBD_MAX_EP0_SIZE) =
        min (data.length - USBD_MAX_EP0_SIZE * (m + 1)) USBD_MAX_EP0_SIZE := by
    split_ifs <;> omega
  have hnext : p.current_data_pointer + USBD_MAX_EP0_SIZE = USBD_MAX_EP0_SIZE * (m + 1) := by
    rw [h.current, hcount]
  rw [ControlPipe.HAL_PCD_DataInStageCallback, if_neg (not_not.mpr h.ed_state)]
  dsimp only
  rw [if_neg hbehind, hleft, hnext]
  refine .data ⟨hlt, h.ed_state, h.buffer, rfl, ?_, h.force_zlp⟩ ?_
  · change p.in_transfer_length - min _ USBD_MAX_EP0_SIZE = _
    omega
  · have hfits : USBD_MAX_EP0_SIZE * (m + 1) +
        min (data.length - USBD_MAX_EP0_SIZE * (m + 1)) USBD_MAX_EP0_SIZE ≤ data.length := by omega
    have hslice := read_slice h.buffer hfits
    rw [Nat.zero_add] at hslice
    rw [hpcd.transmits _ _ ((hpcd.receives _ _).trans hnak), hslice, packet.nth, List.take_take,
      Nat.min_comm _ USBD_MAX_EP0_SIZE, ← Nat.min_assoc, Nat.min_self, Nat.min_comm, ← List.length_drop,
      Nat.min_comm, ← List.take_eq_take_min]

/-- The interrupt behind the last packet with data ends the transfer, or has an empty packet
    follow. -/
theorem ControlPipe.Holds.data_in_ends (hpcd : pcd.Documented status)
    (h : p.Holds data wanted (packet.last USBD_MAX_EP0_SIZE data)) (hnak : status p.hal = .NAK) :
    (p.HAL_PCD_DataInStageCallback pcd).Sends status data wanted
      (packet.last USBD_MAX_EP0_SIZE data + 1) true := by
  have hsize : USBD_MAX_EP0_SIZE = 64 := rfl
  have hle : data.length ≤ USBD_MAX_EP0_SIZE * (packet.last USBD_MAX_EP0_SIZE data + 1) :=
    packet.length_le (by decide : 0 < USBD_MAX_EP0_SIZE)
  have hlength := h.in_length
  rw [Nat.mul_succ] at hle
  have hend : p.in_transfer_length ≤ USBD_MAX_EP0_SIZE := by omega
  have hreceived := (hpcd.receives p.hal 0).trans hnak
  rw [ControlPipe.HAL_PCD_DataInStageCallback, if_neg (not_not.mpr h.ed_state)]
  dsimp only
  rw [if_pos hend, h.force_zlp]
  by_cases hopen : packet.Open USBD_MAX_EP0_SIZE data wanted
  · rw [if_pos (decide_eq_true hopen)]
    exact .zlp ⟨hopen, h.ed_state, hend, rfl⟩ (hpcd.transmits _ _ hreceived)
  · have hall : packet.last USBD_MAX_EP0_SIZE data + 1 =
        (packet.all USBD_MAX_EP0_SIZE data wanted).length := by
      rw [packet.length_all, if_neg hopen]
    rw [if_neg (by simpa using hopen), hall]
    exact .finished ⟨by simp [hreceived], by simp [hreceived]⟩

/-- Behind the empty packet there is nothing. -/
theorem ControlPipe.Ends.data_in (hpcd : pcd.Documented status) (h : p.Ends data wanted)
    (hnak : status p.hal = .NAK) :
    (p.HAL_PCD_DataInStageCallback pcd).Sends status data wanted
      (packet.last USBD_MAX_EP0_SIZE data + 2) true := by
  have hreceived := (hpcd.receives p.hal 0).trans hnak
  have hall : packet.last USBD_MAX_EP0_SIZE data + 2 =
      (packet.all USBD_MAX_EP0_SIZE data wanted).length := by
    rw [packet.length_all, if_pos h.is_open]
  rw [ControlPipe.HAL_PCD_DataInStageCallback, if_neg (not_not.mpr h.ed_state)]
  dsimp only
  rw [if_pos h.in_length, h.force_zlp, if_neg Bool.false_ne_true, hall]
  exact .finished ⟨by simp [hreceived], by simp [hreceived]⟩

theorem ControlPipe.Quiet.data_in (h : p.Quiet) : (p.HAL_PCD_DataInStageCallback pcd).Quiet := by
  simp only [ControlPipe.HAL_PCD_DataInStageCallback]
  split_ifs
  · exact h
  · exact ⟨h.ed_setup, h.ed_state⟩
  · exact ⟨h.ed_setup, by simp⟩
  · exact ⟨h.ed_setup, h.ed_state⟩
  · exact ⟨h.ed_setup, h.ed_state⟩

/-- The controller may remember more than how it answers. -/
theorem ControlPipe.Sends.controller (h : p.Sends status data wanted m served) {hal : η}
    (hsame : status hal = status p.hal) : { p with hal }.Sends status data wanted m served := by
  cases h with
  | data holds hal => exact .data { holds with } (hsame.trans hal)
  | taken holds hal => exact .taken { holds with } (hsame.trans hal)
  | zlp ends hal => exact .zlp { ends with } (hsame.trans hal)
  | zlp_taken ends hal => exact .zlp_taken { ends with } (hsame.trans hal)
  | finished silent =>
    exact .finished ⟨hsame ▸ silent.unsent, fun packet => hsame ▸ silent.empty packet⟩

variable (fw) in
/-- The host gets the next packet of the transfer, and there is none behind the last one. -/
theorem ControlPipe.Sends.in_token (hpcd : pcd.Documented status)
    (h : p.Sends status data wanted m true) :
    ∃ hal m', p.act fw pcd .in_token =
        (some { p with hal }, (packet.all USBD_MAX_EP0_SIZE data wanted)[m]?) ∧
      { p with hal }.Sends status data wanted m' false ∧
        (packet.all USBD_MAX_EP0_SIZE data wanted).drop m' =
          (packet.all USBD_MAX_EP0_SIZE data wanted).drop (m + 1) := by
  generalize hserved : true = served at h
  cases h with
  | data holds hal =>
    obtain ⟨next, hact, hsent⟩ := ControlPipe.act_in_token fw hpcd hal
    refine ⟨next, m + 1, ?_, .taken { holds with } hsent, rfl⟩
    rw [hact, packet.getElem?_all, if_pos holds.le_last]
  | taken holds hal => cases hserved
  | zlp ends hal =>
    obtain ⟨next, hact, hsent⟩ := ControlPipe.act_in_token fw hpcd hal
    refine ⟨next, _, ?_, .zlp_taken { ends with } hsent, rfl⟩
    rw [hact, packet.getElem?_all, if_neg (Nat.not_succ_le_self _), if_pos ⟨rfl, ends.is_open⟩]
  | zlp_taken ends hal => cases hserved
  | finished silent =>
    refine ⟨p.hal, _, ?_, .finished silent, ?_⟩
    · rw [ControlPipe.act_in_token_none hpcd silent.empty, List.getElem?_eq_none (Nat.le_refl _)]
    · rw [List.drop_length, List.drop_eq_nil_of_le (Nat.le_succ _)]

/-- There is no packet until the interrupt for the one before has been served. -/
theorem ControlPipe.Sends.in_token_early (hpcd : pcd.Documented status)
    (h : p.Sends status data wanted m false) : p.act fw pcd .in_token = (some p, none) := by
  refine ControlPipe.act_in_token_none hpcd ?_
  generalize hserved : false = served at h
  cases h with
  | data holds hal => cases hserved
  | taken holds hal => simp [hal]
  | zlp ends hal => cases hserved
  | zlp_taken ends hal => simp [hal]
  | finished silent => exact silent.empty

variable (fw) in
/-- The interrupt has the next packet follow, if there is one. -/
theorem ControlPipe.Sends.interrupt (hpcd : pcd.Documented status)
    (h : p.Sends status data wanted m served) (hquiet : p.Quiet) :
    ∃ p', p.act fw pcd .interrupt = (some p', none) ∧ p'.Quiet ∧ p'.Sends status data wanted m true := by
  cases h with
  | data holds hal =>
    exact ⟨p, ControlPipe.act_interrupt_none hpcd (by simp [hal]), hquiet, .data holds hal⟩
  | taken holds hal =>
    obtain ⟨next, hact, hnak⟩ := ControlPipe.act_interrupt fw hpcd hal
    refine ⟨_, hact, ControlPipe.Quiet.data_in ⟨hquiet.ed_setup, hquiet.ed_state⟩, ?_⟩
    obtain hlt | rfl := Nat.lt_or_eq_of_le holds.le_last
    · exact ControlPipe.Holds.data_in_continues hpcd { holds with } hlt hnak
    · exact ControlPipe.Holds.data_in_ends hpcd { holds with } hnak
  | zlp ends hal => exact ⟨p, ControlPipe.act_interrupt_none hpcd (by simp [hal]), hquiet, .zlp ends hal⟩
  | zlp_taken ends hal =>
    obtain ⟨next, hact, hnak⟩ := ControlPipe.act_interrupt fw hpcd hal
    exact ⟨_, hact, ControlPipe.Quiet.data_in ⟨hquiet.ed_setup, hquiet.ed_state⟩,
      ControlPipe.Ends.data_in hpcd { ends with } hnak⟩
  | finished silent =>
    exact ⟨p, ControlPipe.act_interrupt_none hpcd silent.unsent, hquiet, .finished silent⟩

/-- While no request arrives, the host gets what is left of the transfer. -/
theorem ControlPipe.Sends.run (hpcd : pcd.Documented status) (h : p.Sends status data wanted m served)
    (hquiet : p.Quiet) {steps : List ControlStep} (hsteps : ∀ step ∈ steps, step.Reads) :
    p.packets fw pcd steps =
      ((packet.all USBD_MAX_EP0_SIZE data wanted).drop m).take (answered served steps) := by
  induction steps generalizing p m served with
  | nil => exact List.take_zero.symm
  | cons step rest ih =>
    obtain ⟨hstep, hrest⟩ := List.forall_mem_cons.mp hsteps
    cases step with
    | task answer =>
      rw [ControlPipe.packets_cons (ControlPipe.act_task hquiet.ed_setup answer)]
      exact ih h hquiet hrest
    | in_token =>
      cases served with
      | false =>
        rw [ControlPipe.packets_cons (h.in_token_early hpcd)]
        exact ih h hquiet hrest
      | true =>
        obtain ⟨hal, m', hact, hsends, hdrop⟩ := h.in_token fw hpcd
        have hcount : answered true (.in_token :: rest) = answered false rest + 1 := rfl
        rw [ControlPipe.packets_cons hact, ih hsends ⟨hquiet.ed_setup, hquiet.ed_state⟩ hrest, hdrop, hcount,
          List.drop_eq_getElem?_toList_append (i := m)]
        cases hnth : (packet.all USBD_MAX_EP0_SIZE data wanted)[m]? with
        | some bytes => rfl
        | none =>
          have hle := List.getElem?_eq_none_iff.mp hnth
          rw [List.drop_eq_nil_of_le (Nat.le_succ_of_le hle)]
          simp
    | interrupt =>
      obtain ⟨p', hact, hnext, hsends⟩ := h.interrupt fw hpcd hquiet
      rw [ControlPipe.packets_cons hact]
      exact ih hsends hnext hrest
    | out_packet bytes =>
      obtain rfl : bytes = [] := hstep
      obtain ⟨hal, hact, hsame⟩ := ControlPipe.act_out_packet fw hpcd hquiet.ed_state
      rw [ControlPipe.packets_cons hact]
      exact ih (h.controller hsame) ⟨hquiet.ed_setup, hquiet.ed_state⟩ hrest
    | setup setup => exact absurd hstep id
    | bus_reset => exact absurd hstep id
    | disconnect => exact absurd hstep id

/-- A request has not been answered, and the host gets no packet. -/
structure ControlPipe.Stalled (status : η → TxStatus) (p : ControlPipe η) : Prop where
  quiet : p.Quiet
  ed_stalled : p.ed_stalled = true
  stall : status p.hal = .STALL

theorem ControlPipe.Stalled.run (hpcd : pcd.Documented status) (h : p.Stalled status)
    {steps : List ControlStep} (hsteps : ∀ step ∈ steps, step.Reads) :
    p.packets fw pcd steps = [] ∧
      ∃ p', (machine.run (ControlPipe.step fw pcd) (some p) steps).1 = some p' ∧ p'.Stalled status := by
  induction steps generalizing p with
  | nil => exact ⟨rfl, p, rfl, h⟩
  | cons step rest ih =>
    obtain ⟨hstep, hrest⟩ := List.forall_mem_cons.mp hsteps
    have hsilent : p.Silent status := ⟨by simp [h.stall], by simp [h.stall]⟩
    obtain ⟨hal, hact, hsame⟩ := hsilent.act fw hpcd h.quiet hstep
    rw [ControlPipe.packets_cons hact, ControlPipe.run_cons hact]
    exact ih ⟨⟨h.quiet.ed_setup, h.quiet.ed_state⟩, h.ed_stalled, hsame.trans h.stall⟩ hrest

end

end keychain.usb
