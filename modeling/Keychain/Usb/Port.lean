import Keychain.Usb.Receive

namespace keychain.usb

open delivery

/-- What becomes of a packet on its way from the endpoint to the receive handler. -/
inductive Phase where
  /-- No transfer has been started. -/
  | idle
  /-- The endpoint went away under a transfer. -/
  | halted
  | listening
  /-- A packet is in the buffer of the endpoint. -/
  | taken (packet : List UInt8)
  /-- A packet of the full size has been copied, and waits for the next poll. -/
  | full (packet : List UInt8)

/-- What the receiving side of the device is for: a box for one packet, which is there
    while the device is configured. -/
structure Port where
  configured : Bool
  phase : Phase

def Phase.poll : Phase → Option (List UInt8) × Phase
  | .taken packet =>
    if packet.length < wMaxPacketSize then (if packet = [] then none else some packet, .idle)
    else (none, .full packet)
  | .full packet => (some packet, .idle)
  | _ => (none, .listening)

def Phase.close : Phase → Phase
  | .listening => .halted
  | .taken _ => .halted
  | phase => phase

def Port.close (p : Port) : Port × Seen :=
  (⟨false, p.phase.close⟩, if p.configured then .closed else .other)

def Port.step (p : Port) : UsbStep → Port × Seen
  | .poll =>
    if p.configured then (⟨true, p.phase.poll.2⟩, .polled p.phase.poll.1) else (p, .polled none)
  | .packet bytes =>
    match p.phase with
    | .listening =>
      if bytes.length ≤ wMaxPacketSize then (⟨p.configured, .taken bytes⟩, .acked bytes) else (p, .other)
    | _ => (p, .other)
  | .set_configuration configuration_value =>
    if configuration_value = 0 then p.close
    else if configuration_value = 1 then (⟨true, p.phase⟩, .other) else (p, .other)
  | .set_feature | .clear_feature => (p, .other)
  | .bus_reset | .disconnect => p.close

/-- Packets are no longer than the endpoint allows, and only a configured device has
    one under way. -/
structure Port.Valid (p : Port) : Prop where
  closed : p.configured = false → p.phase.close = p.phase
  taken : ∀ packet, p.phase = .taken packet → packet.length ≤ wMaxPacketSize
  full : ∀ packet, p.phase = .full packet → packet.length = wMaxPacketSize

theorem Port.Valid.close_eq {p : Port} (h : p.Valid) (hconfigured : p.configured = false) :
    p.close = (p, .other) := by
  have hport : (⟨false, p.phase⟩ : Port) = p := by rw [← hconfigured]
  rw [Port.close, h.closed hconfigured, hport, hconfigured]
  rfl

theorem Port.Valid.close {p : Port} (h : p.Valid) : p.close.1.Valid := by
  obtain ⟨configured, phase⟩ := p
  refine ⟨fun _ => by cases phase <;> rfl, fun packet hphase => ?_, fun packet hphase => ?_⟩
  · cases phase <;> cases hphase
  · cases phase with
    | full => exact h.full packet hphase
    | _ => cases hphase

theorem Port.Valid.poll {p : Port} (h : p.Valid) : (p.step .poll).1.Valid := by
  obtain ⟨configured, phase⟩ := p
  cases configured with
  | false => exact h
  | true =>
    refine ⟨fun hnot => (Bool.noConfusion hnot), fun packet hphase => ?_, fun packet hphase => ?_⟩
    · cases phase with
      | taken other =>
        simp only [Port.step, Phase.poll, if_true] at hphase
        split_ifs at hphase
      | _ => cases hphase
    · cases phase with
      | taken other =>
        have hfits := h.taken other rfl
        simp only [Port.step, Phase.poll, if_true] at hphase
        split_ifs at hphase with hshort
        · cases hphase
          exact Nat.le_antisymm hfits (Nat.not_lt.mp hshort)
      | _ => cases hphase

/-- Only a configured device listens. -/
theorem Port.Valid.configured_of_listening {p : Port} (h : p.Valid) (hphase : p.phase = .listening) :
    p.configured = true := by
  by_contra hnot
  have hclosed := h.closed (eq_false_of_ne_true hnot)
  rw [hphase] at hclosed
  cases hclosed

theorem Port.Valid.step {p : Port} (h : p.Valid) (input : UsbStep) : (p.step input).1.Valid := by
  cases input with
  | poll => exact h.poll
  | packet bytes =>
    obtain ⟨configured, phase⟩ := p
    cases phase with
    | listening =>
      have hconfigured : configured = true := h.configured_of_listening rfl
      simp only [Port.step]
      split_ifs with hfits
      · refine ⟨fun hnot => absurd (hconfigured.symm.trans hnot) Bool.noConfusion, ?_, ?_⟩
        · rintro packet ⟨⟩
          exact hfits
        · rintro packet ⟨⟩
      · exact h
    | _ => exact h
  | set_configuration configuration_value =>
    simp only [Port.step]
    split_ifs
    · exact h.close
    · exact ⟨fun hnot => Bool.noConfusion hnot, h.taken, h.full⟩
    · exact h
  | set_feature => exact h
  | clear_feature => exact h
  | bus_reset => exact h.close
  | disconnect => exact h.close

variable {η : Type} {pcd : OutController η} {status : η → RxStatus}

/-- Nothing but the calls of a transfer reaches the endpoint. -/
structure OutTransfer.Plain (t : OutTransfer η) : Prop where
  status_phase_ignore : t.status_phase_ignore = false
  halted : t.halted = false
  ed_stalled : t.ed_stalled = false

theorem OutTransfer.Plain.served {t : OutTransfer η} (h : t.Plain) :
    t.toTransferRequest.Served .CONFIGURED :=
  ⟨by simp, h.status_phase_ignore, h.halted, h.ed_stalled⟩

/-- No transfer is under way. -/
structure OutTransfer.Quiet (status : η → RxStatus) (t : OutTransfer η) : Prop where
  ed_transfer : t.ed_transfer = false
  ed_done : t.ed_done = false
  status : status t.hal = if t.ed_used then .NAK else .DISABLED

/-- The read state machine waits for a transfer of a whole packet. -/
structure CdcAcmRead.Reads (c : CdcAcmRead η) : Prop where
  read_state : c.read_state = .WAIT
  state : c.transfer.state = .TRAN_WAIT
  phase : c.transfer.phase = .DATA_IN
  read_buffer : c.read_buffer = 0
  read_requested_length : c.read_requested_length = wMaxPacketSize
  actual_length : c.read_actual_length = 0
  transfer_length : c.read_transfer_length = wMaxPacketSize
  requested_length : c.transfer.requested_length = wMaxPacketSize

inductive CdcAcmRead.At (status : η → RxStatus) (c : CdcAcmRead η) : Phase → Prop
  | idle (read_state : c.read_state = .RESET) (quiet : c.transfer.Quiet status) : c.At status .idle
  | halted (reads : c.Reads) (quiet : c.transfer.Quiet status) : c.At status .halted
  | listening (reads : c.Reads) (ed_transfer : c.transfer.ed_transfer = true)
      (ed_done : c.transfer.ed_done = false) (valid : status c.transfer.hal = .VALID) :
      c.At status .listening
  | taken (packet : List UInt8) (reads : c.Reads) (ed_used : c.transfer.ed_used = true)
      (ed_transfer : c.transfer.ed_transfer = true) (ed_done : c.transfer.ed_done = true)
      (nak : status c.transfer.hal = .NAK) (actual_length : c.transfer.actual_length = packet.length)
      (fits : packet.length ≤ wMaxPacketSize)
      (data : read c.transfer.data 0 packet.length = packet) : c.At status (.taken packet)
  | full (packet : List UInt8) (read_state : c.read_state = .START) (quiet : c.transfer.Quiet status)
      (requested_length : c.read_requested_length = wMaxPacketSize)
      (actual_length : c.read_actual_length = wMaxPacketSize)
      (length : packet.length = wMaxPacketSize)
      (data : read c.acm_rx_buffer 0 wMaxPacketSize = packet) : c.At status (.full packet)

/-- The device does what the port does, and keeps to the first bytes of `acm_rx_buffer`. -/
structure SlaveDevice.At (status : η → RxStatus) (buffer : Nat → UInt8) (d : SlaveDevice η)
    (p : Port) : Prop where
  state : d.state = .CONFIGURED ↔ p.configured = true
  selected : d.configuration_selected = if p.configured then 1 else 0
  cdc_acm : d.cdc_acm = p.configured
  ed_used : d.acm.transfer.ed_used = p.configured
  plain : d.acm.transfer.Plain
  valid : p.Valid
  acm : d.acm.At status p.phase
  beyond : ∀ i, wMaxPacketSize ≤ i → d.acm.acm_rx_buffer i = buffer i

/-- A transfer for a whole packet arms an endpoint at which none is under way. -/
theorem OutTransfer.Quiet.run_launch (hpcd : pcd.Documented status) {t : OutTransfer η}
    (hplain : t.Plain) (hquiet : t.Quiet status) (hused : t.ed_used = true)
    (hstate : t.state = .RESET ∨
      t.state = .TRAN_WAIT ∧ t.phase = .DATA_IN ∧ t.requested_length = wMaxPacketSize) :
    ∃ t' : OutTransfer η,
      t._ux_device_stack_transfer_run pcd.toPcd .CONFIGURED wMaxPacketSize = (.WAIT, t') ∧
      t'.state = .TRAN_WAIT ∧ t'.phase = .DATA_IN ∧ t'.requested_length = wMaxPacketSize ∧
      t'.ed_used = true ∧ t'.ed_transfer = true ∧ t'.ed_done = false ∧ t'.Plain ∧
      status t'.hal = .VALID := by
  have hnak : status t.hal = .NAK := by rw [hquiet.status, if_pos hused]
  have harmed := hpcd.receives t.hal hnak
  obtain hreset | ⟨hwait, hphase, hlength⟩ := hstate
  · refine ⟨{ t with toTransferRequest := (t.toTransferRequest.begin endpoint_out wMaxPacketSize
                         wMaxPacketSize).launched pcd.toPcd (read t.data 0) },
      ?_, rfl, rfl, rfl, hused, rfl, hquiet.ed_done, ?_, harmed⟩
    · rw [OutTransfer._ux_device_stack_transfer_run,
        hplain.served.transfer_begins hreset hquiet.ed_transfer]
    · exact ⟨hplain.status_phase_ignore, hplain.halted, hplain.ed_stalled⟩
  · refine ⟨{ t with state := .TRAN_WAIT, ed_transfer := true
                     hal := pcd.HAL_PCD_EP_Receive t.hal wMaxPacketSize },
      ?_, rfl, hphase, hlength, hused, rfl, hquiet.ed_done, ?_, harmed⟩
    · rw [OutTransfer._ux_device_stack_transfer_run,
        hplain.served.transfer_restarts hwait hquiet.ed_transfer, TransferRequest.launched, hphase,
        hlength]
    · exact ⟨hplain.status_phase_ignore, hplain.halted, hplain.ed_stalled⟩

variable (pcd) in
theorem OutTransfer.Plain.run_pending {t : OutTransfer η} (h : t.Plain) (hstate : t.state = .TRAN_WAIT)
    (htransfer : t.ed_transfer = true) (hdone : t.ed_done = false) (n : Nat) :
    t._ux_device_stack_transfer_run pcd.toPcd .CONFIGURED n = (.WAIT, t) := by
  rw [OutTransfer._ux_device_stack_transfer_run, h.served.transfer_waits hstate htransfer hdone]

variable (pcd) in
theorem OutTransfer.Plain.run_done {t : OutTransfer η} (h : t.Plain) (hstate : t.state = .TRAN_WAIT)
    (htransfer : t.ed_transfer = true) (hdone : t.ed_done = true) (n : Nat) :
    t._ux_device_stack_transfer_run pcd.toPcd .CONFIGURED n =
      (.NEXT, { t with state := .RESET, ed_transfer := false, ed_done := false, ed_setup := 0 }) := by
  rw [OutTransfer._ux_device_stack_transfer_run, h.served.transfer_ends hstate htransfer hdone]

/-- A transfer is started where none is under way. -/
theorem read_wait_launch (hpcd : pcd.Documented status) {c : CdcAcmRead η}
    (hread_state : c.read_state = .WAIT) (hbuffer : c.read_buffer = 0)
    (hrequest : c.read_requested_length = wMaxPacketSize) (hactual : c.read_actual_length = 0)
    (hlength : c.read_transfer_length = wMaxPacketSize) (hplain : c.transfer.Plain)
    (hquiet : c.transfer.Quiet status) (hused : c.transfer.ed_used = true)
    (hstate : c.transfer.state = .RESET ∨ c.transfer.state = .TRAN_WAIT ∧
      c.transfer.phase = .DATA_IN ∧ c.transfer.requested_length = wMaxPacketSize) :
    ∃ c', read_wait pcd.toPcd .CONFIGURED c = ((.WAIT, none), c') ∧ c'.At status .listening ∧
      c'.transfer.ed_used = true ∧ c'.transfer.Plain ∧ c'.acm_rx_buffer = c.acm_rx_buffer := by
  obtain ⟨t', hrun, hstate, hphase, hlaunched, hused', htransfer, hdone, hplain', hvalid⟩ :=
    hquiet.run_launch hpcd hplain hused hstate
  refine ⟨{ c with transfer := t' }, ?_, ?_, hused', hplain', rfl⟩
  · simp [read_wait, hlength, hrun, UX_STATE.code]
  · exact .listening ⟨hread_state, hstate, hphase, hbuffer, hrequest, hactual, hlength, hlaunched⟩
      htransfer hdone hvalid

/-- A packet is copied, and is all there is to come if it is a short one. -/
theorem read_wait_done {c : CdcAcmRead η} (h : c.Reads) (hplain : c.transfer.Plain)
    (htransfer : c.transfer.ed_transfer = true) (hdone : c.transfer.ed_done = true) :
    read_wait pcd.toPcd .CONFIGURED c =
      (((if c.transfer.actual_length < wMaxPacketSize then .NEXT else .WAIT),
        some c.transfer.actual_length),
        { c with
          read_state := if c.transfer.actual_length < wMaxPacketSize then .RESET else .START
          read_buffer := c.transfer.actual_length
          read_actual_length := c.transfer.actual_length
          transfer :=
            { c.transfer with state := .RESET, ed_transfer := false, ed_done := false, ed_setup := 0 }
          acm_rx_buffer := write c.acm_rx_buffer 0 (read c.transfer.data 0 wMaxPacketSize) }) := by
  have hrun := hplain.run_done pcd h.state htransfer hdone c.read_transfer_length
  rw [h.transfer_length] at hrun
  simp only [read_wait, h.transfer_length, hrun, h.read_buffer, h.actual_length, h.requested_length,
    Nat.zero_add]
  split_ifs <;> simp_all [UX_STATE.code]

/-- What a poll does to the read state machine, and what it hands over. -/
theorem CdcAcmRead.At.read_run (hpcd : pcd.Documented status) {c : CdcAcmRead η} {phase : Phase}
    (h : c.At status phase) (hplain : c.transfer.Plain) (hused : c.transfer.ed_used = true) :
    ∃ answer c',
      _ux_device_class_cdc_acm_read_run pcd.toPcd .CONFIGURED c 0 read_length = (answer, c') ∧
      c'.At status phase.poll.2 ∧ c'.transfer.ed_used = true ∧ c'.transfer.Plain ∧
      (∀ i, wMaxPacketSize ≤ i → c'.acm_rx_buffer i = c.acm_rx_buffer i) ∧
      (match answer with
        | (.NEXT, some actual_length) =>
          if actual_length ≠ 0 then some (read c'.acm_rx_buffer 0 actual_length) else none
        | _ => none) = phase.poll.1 := by
  cases h with
  | idle read_state quiet =>
    obtain ⟨c', hwait, hat, hused', hplain', hbuffer⟩ := read_wait_launch hpcd
      (c := { c with
        read_state := .WAIT, read_buffer := 0, read_requested_length := read_length
        read_actual_length := 0, read_transfer_length := wMaxPacketSize
        transfer := { c.transfer with state := .RESET } })
      rfl rfl rfl rfl rfl ⟨hplain.status_phase_ignore, hplain.halted, hplain.ed_stalled⟩
      ⟨quiet.ed_transfer, quiet.ed_done, quiet.status⟩ hused (.inl rfl)
    refine ⟨(.WAIT, none), c', ?_, hat, hused', hplain', fun i _ => by rw [hbuffer], rfl⟩
    simpa [_ux_device_class_cdc_acm_read_run, read_state, read_start, read_length, wMaxPacketSize]
      using hwait
  | halted reads quiet =>
    obtain ⟨c', hwait, hat, hused', hplain', hbuffer⟩ := read_wait_launch hpcd reads.read_state
      reads.read_buffer reads.read_requested_length reads.actual_length reads.transfer_length hplain
      quiet hused (.inr ⟨reads.state, reads.phase, reads.requested_length⟩)
    refine ⟨(.WAIT, none), c', ?_, hat, hused', hplain', fun i _ => by rw [hbuffer], rfl⟩
    simpa [_ux_device_class_cdc_acm_read_run, reads.read_state] using hwait
  | listening reads ed_transfer ed_done valid =>
    have hwait : read_wait pcd.toPcd .CONFIGURED c = ((.WAIT, none), c) := by
      simp [read_wait, UX_STATE.code, hplain.run_pending pcd reads.state ed_transfer ed_done]
    refine ⟨(.WAIT, none), c, ?_, .listening reads ed_transfer ed_done valid, hused, hplain,
      fun _ _ => rfl, rfl⟩
    simpa [_ux_device_class_cdc_acm_read_run, reads.read_state] using hwait
  | taken packet reads ed_used ed_transfer ed_done nak actual_length fits data =>
    have hcopy : read (write c.acm_rx_buffer 0 (read c.transfer.data 0 wMaxPacketSize)) 0
        packet.length = packet := by
      rw [read_write _ _ _ (by simpa using fits), take_read _ _ fits, data]
    have hbeyond : ∀ i, wMaxPacketSize ≤ i →
        write c.acm_rx_buffer 0 (read c.transfer.data 0 wMaxPacketSize) i = c.acm_rx_buffer i :=
      fun i hi => write_beyond _ (by simpa using hi)
    have hrun : _ux_device_class_cdc_acm_read_run pcd.toPcd .CONFIGURED c 0 read_length =
        read_wait pcd.toPcd .CONFIGURED c := by
      simp [_ux_device_class_cdc_acm_read_run, reads.read_state]
    have hnak : status c.transfer.hal = if c.transfer.ed_used then .NAK else .DISABLED := by
      rw [if_pos hused, nak]
    have hplain' : OutTransfer.Plain
        { c.transfer with state := .RESET, ed_transfer := false, ed_done := false, ed_setup := 0 } :=
      ⟨hplain.status_phase_ignore, hplain.halted, hplain.ed_stalled⟩
    rw [hrun, read_wait_done reads hplain ed_transfer ed_done, actual_length]
    by_cases hshort : packet.length < wMaxPacketSize
    · rw [if_pos hshort, if_pos hshort, Phase.poll, if_pos hshort]
      refine ⟨(.NEXT, some packet.length), _, rfl, .idle rfl ⟨rfl, rfl, hnak⟩, hused, hplain',
        hbeyond, ?_⟩
      simp [hcopy]
    · have hfull : packet.length = wMaxPacketSize := Nat.le_antisymm fits (Nat.not_lt.mp hshort)
      rw [if_neg hshort, if_neg hshort, Phase.poll, if_neg hshort]
      exact ⟨(.WAIT, some packet.length), _, rfl, .full packet rfl ⟨rfl, rfl, hnak⟩
        reads.read_requested_length hfull hfull (hfull ▸ hcopy), hused, hplain', hbeyond, rfl⟩
  | full packet read_state quiet requested_length actual_length length data =>
    have hrun : _ux_device_class_cdc_acm_read_run pcd.toPcd .CONFIGURED c 0 read_length =
        ((.NEXT, some wMaxPacketSize), { c with read_state := .RESET }) := by
      simp [_ux_device_class_cdc_acm_read_run, read_state, read_start, requested_length, actual_length]
    refine ⟨(.NEXT, some wMaxPacketSize), _, hrun, .idle rfl quiet, hused, hplain, fun _ _ => rfl, ?_⟩
    exact congrArg some data

/-- A packet is acknowledged exactly by an endpoint that listens. -/
theorem CdcAcmRead.At.packet (hpcd : pcd.Documented status) {c : CdcAcmRead η} {phase : Phase}
    (h : c.At status phase) (hplain : c.transfer.Plain) (hused : phase = .listening → c.transfer.ed_used = true)
    (bytes : List UInt8) :
    (c.transfer.packet pcd bytes = (false, c.transfer) ∧
        ¬ (phase = .listening ∧ bytes.length ≤ wMaxPacketSize)) ∨
      (phase = .listening ∧ bytes.length ≤ wMaxPacketSize ∧ (c.transfer.packet pcd bytes).1 = true ∧
        ({ c with transfer := (c.transfer.packet pcd bytes).2 } : CdcAcmRead η).At status (.taken bytes) ∧
        (c.transfer.packet pcd bytes).2.ed_used = true ∧ (c.transfer.packet pcd bytes).2.Plain) := by
  have hrefused : status c.transfer.hal ≠ .VALID ∨ wMaxPacketSize < bytes.length →
      c.transfer.packet pcd bytes = (false, c.transfer) := fun hnot => by
    rw [OutTransfer.packet, hpcd.ignores _ _ _ hnot]
  have hquiet : c.transfer.Quiet status → status c.transfer.hal ≠ .VALID := fun h => by
    rw [h.status]
    split_ifs <;> simp
  cases h with
  | listening reads ed_transfer ed_done valid =>
    by_cases hfits : bytes.length ≤ wMaxPacketSize
    · obtain ⟨hal', data', hpacket, hnak, hdata⟩ :=
        hpcd.acknowledges c.transfer.hal c.transfer.data bytes valid hfits
      refine .inr ⟨rfl, hfits, ?_⟩
      rw [OutTransfer.packet, hpacket]
      exact ⟨rfl, .taken bytes ⟨reads.read_state, reads.state, reads.phase, reads.read_buffer,
        reads.read_requested_length, reads.actual_length, reads.transfer_length,
        reads.requested_length⟩ (hused rfl) ed_transfer rfl hnak rfl hfits hdata, hused rfl,
        ⟨hplain.status_phase_ignore, hplain.halted, hplain.ed_stalled⟩⟩
    · exact .inl ⟨hrefused (.inr (Nat.not_le.mp hfits)), fun hall => hfits hall.2⟩
  | idle _ quiet => exact .inl ⟨hrefused (.inl (hquiet quiet)), by simp⟩
  | halted _ quiet => exact .inl ⟨hrefused (.inl (hquiet quiet)), by simp⟩
  | taken _ _ _ _ _ nak => exact .inl ⟨hrefused (.inl (by simp [nak])), by simp⟩
  | full _ _ quiet => exact .inl ⟨hrefused (.inl (hquiet quiet)), by simp⟩

/-- What a class that is deactivated and an interface that is deleted leave of a transfer. -/
def OutTransfer.closed (pcd : Pcd η) (t : OutTransfer η) : OutTransfer η :=
  { (t._ux_device_stack_transfer_abort pcd)._ux_dcd_stm32_endpoint_destroy pcd with halted := false }

/-- A transfer without its endpoint. -/
theorem OutTransfer.closed_spec (hpcd : pcd.Documented status) (t : OutTransfer η)
    (hplain : t.Plain) :
    (t.closed pcd.toPcd).Quiet status ∧ (t.closed pcd.toPcd).Plain ∧
      (t.closed pcd.toPcd).ed_used = false ∧ (t.closed pcd.toPcd).state = t.state ∧
      (t.closed pcd.toPcd).phase = t.phase ∧
      (t.closed pcd.toPcd).requested_length = t.requested_length := by
  have hsame : (t._ux_device_stack_transfer_abort pcd.toPcd).state = t.state ∧
      (t._ux_device_stack_transfer_abort pcd.toPcd).phase = t.phase ∧
      (t._ux_device_stack_transfer_abort pcd.toPcd).requested_length = t.requested_length ∧
      (t._ux_device_stack_transfer_abort pcd.toPcd).status_phase_ignore = t.status_phase_ignore := by
    rw [OutTransfer._ux_device_stack_transfer_abort]
    split_ifs <;> exact ⟨rfl, rfl, rfl, rfl⟩
  exact ⟨⟨rfl, rfl, hpcd.closes _⟩, ⟨hsame.2.2.2.trans hplain.status_phase_ignore, rfl, rfl⟩, rfl,
    hsame.1, hsame.2.1, hsame.2.2.1⟩

/-- Without its endpoint, a transfer is halted, and what has been copied stays. -/
theorem CdcAcmRead.At.closed (hpcd : pcd.Documented status) {c : CdcAcmRead η} {phase : Phase}
    (h : c.At status phase) (hplain : c.transfer.Plain) :
    ({ c with transfer := c.transfer.closed pcd.toPcd } : CdcAcmRead η).At status phase.close := by
  obtain ⟨hquiet, -, -, hstate, hphase, hlength⟩ := c.transfer.closed_spec hpcd hplain
  have hreads : c.Reads →
      ({ c with transfer := c.transfer.closed pcd.toPcd } : CdcAcmRead η).Reads :=
    fun h => ⟨h.read_state, hstate.trans h.state, hphase.trans h.phase, h.read_buffer,
      h.read_requested_length, h.actual_length, h.transfer_length, hlength.trans h.requested_length⟩
  cases h with
  | idle read_state => exact .idle read_state hquiet
  | halted reads => exact .halted (hreads reads) hquiet
  | listening reads => exact .halted (hreads reads) hquiet
  | taken packet reads => exact .halted (hreads reads) hquiet
  | full packet read_state quiet requested_length actual_length length data =>
    exact .full packet read_state hquiet requested_length actual_length length data

/-- Creating the endpoint opens it, and nothing is under way at one that was not in use. -/
theorem CdcAcmRead.At.create (hpcd : pcd.Documented status) {c : CdcAcmRead η} {phase : Phase}
    (h : c.At status phase) (hclosed : phase.close = phase) (hused : c.transfer.ed_used = false) :
    ({ c with
        transfer :=
          { c.transfer with ed_used := true, hal := pcd.HAL_PCD_EP_Open c.transfer.hal } } :
      CdcAcmRead η).At status phase := by
  have hquiet : c.transfer.Quiet status →
      OutTransfer.Quiet status
        { c.transfer with ed_used := true, hal := pcd.HAL_PCD_EP_Open c.transfer.hal } :=
    fun h => ⟨h.ed_transfer, h.ed_done, hpcd.opens _ (by rw [h.status, hused]; rfl)⟩
  cases h with
  | idle read_state quiet => exact .idle read_state (hquiet quiet)
  | halted reads quiet =>
    exact .halted ⟨reads.read_state, reads.state, reads.phase, reads.read_buffer,
      reads.read_requested_length, reads.actual_length, reads.transfer_length,
      reads.requested_length⟩ (hquiet quiet)
  | listening => cases hclosed
  | taken => cases hclosed
  | full packet read_state quiet requested_length actual_length length data =>
    exact .full packet read_state (hquiet quiet) requested_length actual_length length data

section

variable {buffer : Nat → UInt8} {d : SlaveDevice η} {p : Port}

theorem SlaveDevice.At.poll (hpcd : pcd.Documented status) (h : d.At status buffer p) :
    (ux_device_cdc_acm_task pcd.toPcd d).2.At status buffer (p.step .poll).1 ∧
      Seen.polled (ux_device_cdc_acm_task pcd.toPcd d).1 = (p.step .poll).2 := by
  have hcdc := h.cdc_acm
  cases hconfigured : p.configured with
  | false =>
    rw [hconfigured] at hcdc
    simp only [ux_device_cdc_acm_task, hcdc, if_true, Port.step, hconfigured, Bool.false_eq_true,
      if_false]
    exact ⟨h, trivial⟩
  | true =>
    rw [hconfigured] at hcdc
    have hstate := h.state.mpr hconfigured
    obtain ⟨answer, c', hrun, hat, hused, hplain, hbeyond, hhanded⟩ :=
      h.acm.read_run hpcd h.plain (h.ed_used.trans hconfigured)
    simp only [ux_device_cdc_acm_task, hcdc, hstate, Port.step, hconfigured, hrun,
      Bool.true_eq_false, ne_eq, not_true_eq_false, if_false, if_true]
    refine ⟨⟨by simp, ?_, rfl, hused, hplain, ?_, hat, fun i hi => ?_⟩, ?_⟩
    · rw [h.selected, hconfigured]
    · have hnext := h.valid.step .poll
      rwa [Port.step, if_pos hconfigured] at hnext
    · rw [hbeyond i hi, h.beyond i hi]
    · exact congrArg Seen.polled hhanded

/-- The device without a configuration, after the interface has been deleted if there
    was one. -/
def SlaveDevice.torn_down (pcd : Pcd η) (d : SlaveDevice η) (state : DeviceState) : SlaveDevice η :=
  { (if d.state = .CONFIGURED then
      (d._ux_device_class_cdc_acm_deactivate pcd)._ux_device_stack_interface_delete pcd
    else d) with
    configuration_selected := 0, state }

theorem SlaveDevice.At.torn_down (hpcd : pcd.Documented status) (h : d.At status buffer p)
    {state : DeviceState} (hstate : state ≠ .CONFIGURED) :
    (d.torn_down pcd.toPcd state).At status buffer p.close.1 ∧
      (d.control (d.torn_down pcd.toPcd state)).2 = p.close.2 := by
  have hiff := h.state
  obtain ⟨-, hplain, -⟩ := d.acm.transfer.closed_spec hpcd h.plain
  cases hconfigured : p.configured with
  | true =>
    have hwas := hiff.mpr hconfigured
    constructor
    · rw [SlaveDevice.torn_down, if_pos hwas]
      exact ⟨by simp [hstate, Port.close], rfl, rfl, rfl, hplain, h.valid.close,
        h.acm.closed hpcd h.plain, h.beyond⟩
    · simp [SlaveDevice.control, SlaveDevice.torn_down, hwas, hstate, Port.close, hconfigured]
  | false =>
    have hwas : d.state ≠ .CONFIGURED := by simp [hiff, hconfigured]
    have hsame := h.valid.closed hconfigured
    constructor
    · rw [SlaveDevice.torn_down, if_neg hwas]
      refine ⟨by simp [hstate, Port.close], rfl, ?_, ?_, h.plain, h.valid.close, ?_, h.beyond⟩
      · exact h.cdc_acm.trans hconfigured
      · exact h.ed_used.trans hconfigured
      · have hacm := h.acm
        rwa [← hsame] at hacm
    · simp [SlaveDevice.control, hwas, Port.close, hconfigured]

theorem SlaveDevice.At.not_configured (h : d.At status buffer p) :
    d.configuration_selected = 0 ↔ d.state ≠ .CONFIGURED := by
  have hselected := h.selected
  have hstate := h.state
  cases hconfigured : p.configured <;> simp_all

theorem SlaveDevice.At.reset_eq (h : d.At status buffer p) :
    HAL_PCD_ResetCallback pcd.toPcd d = d.torn_down pcd.toPcd .ATTACHED := by
  have hselected := h.not_configured
  unfold HAL_PCD_ResetCallback SlaveDevice._ux_device_stack_disconnect SlaveDevice.torn_down
  by_cases hreset : d.state = .RESET
  · simp only [hreset, ne_eq, reduceCtorEq, not_false_eq_true, iff_true, not_true_eq_false,
      if_false] at hselected ⊢
    rw [← hselected]
  · simp [hreset]

theorem SlaveDevice.At.disconnect_eq (h : d.At status buffer p) :
    HAL_PCD_DisconnectCallback pcd.toPcd d = d.torn_down pcd.toPcd .RESET := by
  have hselected := h.not_configured
  unfold HAL_PCD_DisconnectCallback SlaveDevice._ux_device_stack_disconnect SlaveDevice.torn_down
  by_cases hreset : d.state = .RESET
  · simp only [hreset, ne_eq, reduceCtorEq, not_false_eq_true, iff_true, not_true_eq_false,
      if_false] at hselected ⊢
    rw [← hselected, ← hreset]
  · simp [hreset]

/-- A configuration is selected, again or for the first time. -/
theorem SlaveDevice.At.set_configuration (hpcd : pcd.Documented status) (h : d.At status buffer p)
    (configuration_value : Nat) :
    (d.step pcd (.set_configuration configuration_value)).1.At status buffer
        (p.step (.set_configuration configuration_value)).1 ∧
      (d.step pcd (.set_configuration configuration_value)).2 =
        (p.step (.set_configuration configuration_value)).2 := by
  have hselected := h.selected
  have hstate := h.state
  have hunchanged : (d.control d).2 = .other := by simp [SlaveDevice.control]
  by_cases hzero : configuration_value = 0
  · have htorn : d._ux_device_stack_configuration_set pcd.toPcd 0 =
        if p.configured then d.torn_down pcd.toPcd .ATTACHED else d := by
      unfold SlaveDevice._ux_device_stack_configuration_set SlaveDevice.torn_down
      cases hconfigured : p.configured <;> simp_all
    subst hzero
    simp only [SlaveDevice.step, Port.step, if_true, htorn]
    cases hconfigured : p.configured with
    | true => exact h.torn_down hpcd (by simp)
    | false =>
      simp only [Bool.false_eq_true, if_false, h.valid.close_eq hconfigured]
      exact ⟨h, hunchanged⟩
  · by_cases hone : configuration_value = 1
    · subst hone
      cases hconfigured : p.configured with
      | true =>
        have hsame : d._ux_device_stack_configuration_set pcd.toPcd 1 = d := by
          simp [SlaveDevice._ux_device_stack_configuration_set, hselected, hconfigured]
        have hport : (⟨true, p.phase⟩ : Port) = p := by rw [← hconfigured]
        simp only [SlaveDevice.step, Port.step, hsame, hport, Nat.one_ne_zero, if_false, if_true]
        exact ⟨h, hunchanged⟩
      | false =>
        have hunused : d.acm.transfer.ed_used = false := h.ed_used.trans hconfigured
        have hcreated : d._ux_device_stack_configuration_set pcd.toPcd 1 =
            { d with
              state := .CONFIGURED, configuration_selected := 1, cdc_acm := true
              acm := { d.acm with
                transfer := { d.acm.transfer with
                  ed_used := true, hal := pcd.HAL_PCD_EP_Open d.acm.transfer.hal } } } := by
          simp [SlaveDevice._ux_device_stack_configuration_set, hselected, hconfigured,
            SlaveDevice._ux_device_stack_interface_set, OutTransfer._ux_dcd_stm32_endpoint_create,
            hunused, SlaveDevice.transfer]
        have hacm := h.acm.create hpcd (h.valid.closed hconfigured) hunused
        simp only [SlaveDevice.step, Port.step, hcreated, Nat.one_ne_zero, if_false, if_true]
        refine ⟨⟨by simp [SlaveDevice.control], rfl, rfl, rfl,
          ⟨h.plain.status_phase_ignore, h.plain.halted, h.plain.ed_stalled⟩,
          ⟨fun hnot => Bool.noConfusion hnot, h.valid.taken, h.valid.full⟩, hacm, h.beyond⟩, ?_⟩
        simp [SlaveDevice.control]
    · have hsame : d._ux_device_stack_configuration_set pcd.toPcd configuration_value = d := by
        simp [SlaveDevice._ux_device_stack_configuration_set, hzero, hone]
      simp only [SlaveDevice.step, Port.step, hsame, if_neg hzero, if_neg hone]
      exact ⟨h, hunchanged⟩

/-- As long as the host leaves the halt of the endpoint alone, the device does what the port
    does. -/
theorem SlaveDevice.At.step (hpcd : pcd.Documented status) (h : d.At status buffer p)
    {input : UsbStep} (hplain : input.Plain) :
    (d.step pcd input).2 = (p.step input).2 ∧ (d.step pcd input).1.At status buffer (p.step input).1 := by
  cases input with
  | poll => exact (h.poll hpcd).symm
  | packet bytes =>
    simp only [SlaveDevice.step, Port.step]
    have hused : p.phase = .listening → d.acm.transfer.ed_used = true := fun hlistening =>
      h.ed_used.trans (h.valid.configured_of_listening hlistening)
    obtain ⟨hrefused, hnot⟩ | ⟨hphase, hfits, hacked, hat, hused', hplain'⟩ :=
      h.acm.packet hpcd h.plain hused bytes
    · have hport : (match p.phase with
          | .listening => if bytes.length ≤ wMaxPacketSize then
              ((⟨p.configured, .taken bytes⟩, .acked bytes) : Port × Seen) else (p, .other)
          | _ => (p, .other)) = (p, .other) := by
        split
        · rename_i hlistening
          rw [if_neg fun hfits => hnot ⟨hlistening, hfits⟩]
        · rfl
      rw [hrefused, hport]
      exact ⟨rfl, h⟩
    · have hnext := h.valid.step (.packet bytes)
      have hconfigured := h.valid.configured_of_listening hphase
      simp only [Port.step, hphase, if_pos hfits] at hnext
      simp only [hphase, hacked, if_pos hfits, if_true]
      exact ⟨trivial, h.state, h.selected, h.cdc_acm, hused'.trans hconfigured.symm, hplain', hnext, hat,
        h.beyond⟩
  | set_configuration configuration_value => exact (h.set_configuration hpcd configuration_value).symm
  | set_feature => exact absurd rfl hplain.1
  | clear_feature => exact absurd rfl hplain.2
  | bus_reset =>
    simp only [SlaveDevice.step, h.reset_eq]
    exact (h.torn_down hpcd (by simp)).symm
  | disconnect =>
    simp only [SlaveDevice.step, h.disconnect_eq]
    exact (h.torn_down hpcd (by simp)).symm

theorem SlaveDevice.at_start {hal : η} (hhal : status hal = .DISABLED) (data buffer : Nat → UInt8) :
    (SlaveDevice.start hal data buffer).At status buffer ⟨false, .idle⟩ where
  state := by simp [SlaveDevice.start]
  selected := rfl
  cdc_acm := rfl
  ed_used := rfl
  plain := ⟨rfl, rfl, rfl⟩
  valid := ⟨fun _ => rfl, by simp, by simp⟩
  acm := .idle rfl ⟨rfl, rfl, hhal⟩
  beyond _ _ := rfl

end

end keychain.usb
