import Keychain.Usb.Port

namespace keychain.usb

open delivery

/-- What the polls of a history hand to the receive handler. -/
def handed (seen : List Seen) : List (List UInt8) :=
  seen.filterMap fun
    | .polled packet => packet
    | _ => none

/-- The packets that the host has had acknowledged. -/
def acked (seen : List Seen) : List (List UInt8) :=
  seen.filterMap fun
    | .acked packet => some packet
    | _ => none

/-- A poll comes before the configuration goes. -/
def polled_first : List Seen → Bool
  | [] => false
  | .polled _ :: _ => true
  | .closed :: _ => false
  | _ :: rest => polled_first rest

/-- The acknowledged packets that are fetched from the endpoint before it goes. -/
def fetched : List Seen → List (List UInt8)
  | [] => []
  | .acked packet :: rest => if polled_first rest then packet :: fetched rest else fetched rest
  | _ :: rest => fetched rest

/-- What is still to be handed over of an earlier packet. -/
def Phase.owes (seen : List Seen) : Phase → List (List UInt8)
  | .taken packet => if polled_first seen then [packet] else []
  | .full packet => [packet]
  | _ => []

/-- A packet that has been fetched and not yet been handed over. -/
def Phase.held : Phase → Option (List UInt8)
  | .full packet => some packet
  | _ => none

/-- The packet that is between the host and the receive handler. -/
def Phase.contents : Phase → List (List UInt8)
  | .taken packet => [packet]
  | .full packet => [packet]
  | _ => []

def nonempty (packets : List (List UInt8)) : List (List UInt8) :=
  packets.filter (· ≠ [])

@[simp] theorem nonempty_append (first second : List (List UInt8)) :
    nonempty (first ++ second) = nonempty first ++ nonempty second :=
  List.filter_append ..

/-- Packets without bytes add none. -/
theorem flatten_nonempty (packets : List (List UInt8)) :
    (nonempty packets).flatten = packets.flatten := by
  induction packets with
  | nil => rfl
  | cons packet rest ih =>
    rw [nonempty, List.filter_cons]
    split_ifs with hne
    · rw [List.flatten_cons, List.flatten_cons]
      exact congrArg _ ih
    · have hnil : packet = [] := by simpa using hne
      rw [hnil]
      exact ih

theorem nonempty_full {packet : List UInt8} (h : packet.length = wMaxPacketSize) :
    nonempty [packet] = [packet] := by
  have hne : packet ≠ [] := by
    rintro rfl
    cases h
  simp [nonempty, hne]

section

variable {p : Port}

/-- A poll hands over what there is, or keeps a packet of the full size for the next one. -/
theorem Port.Valid.poll_handed (h : p.Valid) :
    handed [.polled p.phase.poll.1] ++ nonempty p.phase.poll.2.contents = nonempty p.phase.contents := by
  obtain ⟨configured, phase⟩ := p
  cases phase with
  | taken packet =>
    simp only [Phase.poll]
    split_ifs with hshort hnil
    · subst hnil
      rfl
    · simp [handed, Phase.contents, nonempty, hnil]
    · rfl
  | full packet => exact (nonempty_full (h.full packet rfl)).symm
  | _ => rfl

theorem Phase.owes_polled (phase : Phase) (packet : Option (List UInt8)) (seen : List Seen) :
    phase.owes (.polled packet :: seen) = phase.contents := by
  cases phase <;> rfl

/-- After a poll, nothing is left at the endpoint. -/
theorem Phase.poll_owes (phase : Phase) (seen : List Seen) :
    phase.poll.2.owes seen = phase.poll.2.contents := by
  cases phase with
  | taken packet =>
    simp only [Phase.poll]
    split_ifs <;> rfl
  | _ => rfl

/-- Where a step leads, the rest of the history has to hand over what was owed before,
    less what the step itself hands over. -/
def Port.Settles (p : Port) (seen : List Seen) (step : Port × Seen) : Prop :=
  handed [step.2] ++ nonempty (step.1.phase.owes seen ++ fetched seen) =
    nonempty (p.phase.owes (step.2 :: seen) ++ fetched (step.2 :: seen))

theorem Port.settles_other (p : Port) (seen : List Seen) : p.Settles seen (p, .other) := by
  obtain ⟨configured, phase⟩ := p
  cases phase <;> rfl

theorem Port.Valid.settles_close (h : p.Valid) (seen : List Seen) : p.Settles seen p.close := by
  cases hconfigured : p.configured with
  | false =>
    rw [h.close_eq hconfigured]
    exact p.settles_other seen
  | true =>
    rw [Port.Settles, Port.close, hconfigured]
    cases p.phase <;> rfl

theorem Port.Valid.settles_poll (h : p.Valid) (seen : List Seen) : p.Settles seen (p.step .poll) := by
  obtain ⟨configured, phase⟩ := p
  cases configured with
  | false =>
    cases phase with
    | taken packet => cases h.closed rfl
    | _ => rfl
  | true =>
    rw [Port.Settles, Port.step, if_pos rfl, Phase.poll_owes, Phase.owes_polled, nonempty_append,
      nonempty_append, ← List.append_assoc, h.poll_handed]
    rfl

theorem Port.Valid.settles (h : p.Valid) (seen : List Seen) (input : UsbStep) :
    p.Settles seen (p.step input) := by
  cases input with
  | poll => exact h.settles_poll seen
  | packet bytes =>
    obtain ⟨configured, phase⟩ := p
    cases phase with
    | listening =>
      simp only [Port.step]
      split_ifs
      · cases hpolled : polled_first seen with
        | true => simp [Port.Settles, handed, Phase.owes, fetched, hpolled]
        | false => simp [Port.Settles, handed, Phase.owes, fetched, hpolled]
      · exact Port.settles_other _ seen
    | _ => exact Port.settles_other _ seen
  | set_feature => exact p.settles_other seen
  | clear_feature => exact p.settles_other seen
  | set_configuration configuration_value =>
    simp only [Port.step]
    split_ifs
    · exact h.settles_close seen
    · obtain ⟨configured, phase⟩ := p
      cases phase <;> rfl
    · exact p.settles_other seen
  | bus_reset => exact h.settles_close seen
  | disconnect => exact h.settles_close seen

theorem Port.Valid.run_handed (h : p.Valid) (inputs : List UsbStep) :
    handed (machine.run Port.step p inputs).2 ++ (machine.run Port.step p inputs).1.phase.held.toList =
      nonempty (p.phase.owes (machine.run Port.step p inputs).2 ++
        fetched (machine.run Port.step p inputs).2) := by
  induction inputs generalizing p with
  | nil =>
    obtain ⟨configured, phase⟩ := p
    cases phase with
    | full packet => exact (nonempty_full (h.full packet rfl)).symm
    | _ => rfl
  | cons input rest ih =>
    have hrest := ih (h.step input)
    have hsettles := h.settles (machine.run Port.step (p.step input).1 rest).2 input
    rw [machine.run_cons]
    dsimp only
    rw [← hsettles, ← hrest, ← List.append_assoc]
    congr 1
    exact List.filterMap_append (l := [(p.step input).2])

theorem Port.Valid.step_contents (h : p.Valid) (input : UsbStep) (hopen : (p.step input).2 ≠ .closed) :
    handed [(p.step input).2] ++ nonempty (p.step input).1.phase.contents =
      nonempty (p.phase.contents ++ acked [(p.step input).2]) := by
  have hother : ∀ p : Port, handed [.other] ++ nonempty p.phase.contents =
      nonempty (p.phase.contents ++ acked [.other]) := fun p => by simp [handed, acked]
  have hclose : p.close.2 ≠ .closed → handed [p.close.2] ++ nonempty p.close.1.phase.contents =
      nonempty (p.phase.contents ++ acked [p.close.2]) := by
    intro hopen
    cases hconfigured : p.configured with
    | false =>
      rw [h.close_eq hconfigured]
      exact hother p
    | true => simp [Port.close, hconfigured] at hopen
  cases input with
  | poll =>
    obtain ⟨configured, phase⟩ := p
    cases configured with
    | false => simp [Port.step, handed, acked]
    | true =>
      rw [Port.step, if_pos rfl, h.poll_handed]
      exact congrArg nonempty (List.append_nil _).symm
  | packet bytes =>
    obtain ⟨configured, phase⟩ := p
    cases phase with
    | listening =>
      simp only [Port.step]
      split_ifs
      · rfl
      · exact hother _
    | _ => exact hother _
  | set_configuration configuration_value =>
    simp only [Port.step] at hopen ⊢
    split_ifs at hopen ⊢
    · exact hclose hopen
    · exact hother _
    · exact hother _
  | set_feature => exact hother p
  | clear_feature => exact hother p
  | bus_reset => exact hclose hopen
  | disconnect => exact hclose hopen

theorem Port.Valid.run_contents (h : p.Valid) (inputs : List UsbStep)
    (hopen : .closed ∉ (machine.run Port.step p inputs).2) :
    handed (machine.run Port.step p inputs).2 ++
        nonempty (machine.run Port.step p inputs).1.phase.contents =
      nonempty (p.phase.contents ++ acked (machine.run Port.step p inputs).2) := by
  induction inputs generalizing p with
  | nil => simp [handed, acked]
  | cons input rest ih =>
    rw [machine.run_cons, List.mem_cons, not_or] at hopen
    have hhere := h.step_contents input (Ne.symm hopen.1)
    have hrest := ih (h.step input) hopen.2
    rw [machine.run_cons]
    dsimp only
    generalize machine.run Port.step (p.step input).1 rest = later at hrest ⊢
    have hhanded : handed ((p.step input).2 :: later.2) = handed [(p.step input).2] ++ handed later.2 :=
      List.filterMap_append (l := [(p.step input).2])
    have hacked : acked ((p.step input).2 :: later.2) = acked [(p.step input).2] ++ acked later.2 :=
      List.filterMap_append (l := [(p.step input).2])
    rw [hhanded, hacked, List.append_assoc, hrest, nonempty_append, ← List.append_assoc, hhere]
    simp

/-- There is room for one packet. -/
theorem Port.Valid.length_contents (h : p.Valid) :
    (nonempty p.phase.contents).length ≤ 1 ∧
      (nonempty p.phase.contents).flatten.length ≤ wMaxPacketSize := by
  obtain ⟨configured, phase⟩ := p
  rw [flatten_nonempty]
  refine ⟨Nat.le_trans (List.length_filter_le ..) ?_, ?_⟩
  · cases phase <;> simp [Phase.contents]
  · cases phase with
    | taken packet => simpa [Phase.contents] using h.taken packet rfl
    | full packet => simpa [Phase.contents] using Nat.le_of_eq (h.full packet rfl)
    | _ => exact Nat.zero_le _

/-- What is on its way is handed over within two polls, and the third one makes the endpoint
    listen again. -/
theorem Phase.three_polls (phase : Phase) : phase.poll.2.poll.2.poll.2 = .listening := by
  cases phase with
  | taken packet =>
    simp only [Phase.poll]
    split_ifs <;> rfl
  | _ => rfl

theorem Port.run_three_polls (hconfigured : p.configured = true) :
    (machine.run Port.step p [.poll, .poll, .poll]).1.phase = .listening := by
  simp only [machine.run_cons, machine.run_nil, Port.step, hconfigured, if_true]
  exact p.phase.three_polls

/-- A packet that is held waits for a poll, whatever the host does. -/
theorem Port.step_full {packet : List UInt8} (hphase : p.phase = .full packet) {input : UsbStep}
    (hinput : input ≠ .poll) : (p.step input).1.phase = .full packet := by
  obtain ⟨configured, phase⟩ := p
  subst hphase
  cases input with
  | poll => exact absurd rfl hinput
  | set_configuration configuration_value =>
    simp only [Port.step]
    split_ifs <;> rfl
  | _ => rfl

theorem Port.run_full {packet : List UInt8} (hphase : p.phase = .full packet) {later : List UsbStep}
    (hlater : ∀ step ∈ later, step ≠ .poll) :
    (machine.run Port.step p later).1.phase = .full packet :=
  machine.run_invariant Port.step (fun p => p.phase = .full packet) (· ≠ .poll)
    (fun _ _ hphase hinput => Port.step_full hphase hinput) p later hphase hlater

end

/-- A controller that knows nothing but whether the endpoint is open and armed. -/
def OutController.simple : OutController RxStatus where
  HAL_PCD_EP_Open _ := .NAK
  HAL_PCD_EP_Close _ := .DISABLED
  HAL_PCD_EP_Abort _ := .NAK
  HAL_PCD_EP_Flush hal := hal
  HAL_PCD_EP_SetStall hal := hal
  HAL_PCD_EP_ClrStall hal := hal
  HAL_PCD_EP_Transmit hal _ := hal
  HAL_PCD_EP_Receive _ _ := .VALID
  packet hal data bytes :=
    if hal = .VALID ∧ bytes.length ≤ wMaxPacketSize then some (.NAK, write data 0 bytes, bytes.length)
    else none

theorem OutController.simple_documented : OutController.simple.Documented id where
  opens _ _ := rfl
  closes _ := rfl
  receives _ _ := rfl
  acknowledges hal data packet hvalid hfits := by
    refine ⟨.NAK, write data 0 packet, if_pos ⟨hvalid, hfits⟩, rfl, ?_⟩
    exact (read_write _ _ _ (Nat.le_refl _)).trans List.take_length
  ignores hal data packet hnot := by
    refine if_neg fun hboth => ?_
    obtain hstatus | hlong := hnot
    · exact hstatus hboth.1
    · exact Nat.not_le.mpr hlong hboth.2

section

variable {η : Type} {pcd : OutController η} {status : η → RxStatus} {hal : η} {d : SlaveDevice η} {p : Port}
variable {buffer : Nat → UInt8} {inputs : List UsbStep}

theorem SlaveDevice.At.run (hpcd : pcd.Documented status) (h : d.At status buffer p)
    (hplain : ∀ input ∈ inputs, input.Plain) :
    (machine.run (SlaveDevice.step pcd) d inputs).2 = (machine.run Port.step p inputs).2 ∧
      (machine.run (SlaveDevice.step pcd) d inputs).1.At status buffer
        (machine.run Port.step p inputs).1 :=
  machine.run_refines_where (SlaveDevice.step pcd) Port.step (SlaveDevice.At status buffer)
    UsbStep.Plain (fun _ _ _ h hplain => SlaveDevice.At.step hpcd h hplain) d p inputs h hplain

theorem Port.valid_start : (⟨false, .idle⟩ : Port).Valid :=
  ⟨fun _ => rfl, by simp, by simp⟩

/-- What a poll of the configured device hands over of a packet that is held. -/
theorem SlaveDevice.At.poll_full (hpcd : pcd.Documented status) (h : d.At status buffer p)
    {packet : List UInt8} (hphase : p.phase = .full packet) (hconfigured : d.state = .CONFIGURED) :
    (d.step pcd .poll).2 = .polled (some packet) := by
  have hpoll := (h.poll hpcd).2
  rw [Port.step, if_pos (h.state.mp hconfigured), hphase] at hpoll
  exact hpoll

/-- An endpoint that listens takes the next packet. -/
theorem SlaveDevice.At.packet_listening (hpcd : pcd.Documented status) (h : d.At status buffer p)
    (hphase : p.phase = .listening) {packet : List UInt8} (hfits : packet.length ≤ wMaxPacketSize) :
    (d.step pcd (.packet packet)).2 = .acked packet := by
  obtain ⟨hseen, -⟩ := h.step hpcd (show (UsbStep.packet packet).Plain from ⟨by simp, by simp⟩)
  rw [hseen, Port.step, hphase]
  exact congrArg Prod.snd (if_pos hfits)

/-- What three polls hand over. -/
def SlaveDevice.pending (pcd : OutController η) (d : SlaveDevice η) : List (List UInt8) :=
  handed (machine.run (SlaveDevice.step pcd) d [.poll, .poll, .poll]).2

/-- From a configured device, three polls hand over what is on its way. -/
theorem SlaveDevice.At.pending_eq (hpcd : pcd.Documented status) (h : d.At status buffer p)
    (hconfigured : d.state = .CONFIGURED) : d.pending pcd = nonempty p.phase.contents := by
  have hport := h.state.mp hconfigured
  obtain ⟨hseen, -⟩ := h.run hpcd
    (show ∀ input ∈ ([.poll, .poll, .poll] : List UsbStep), input.Plain by decide)
  -- a poll neither closes the device nor acknowledges a packet
  have hcontents := h.valid.run_contents [.poll, .poll, .poll] (by simp [Port.step, hport])
  have hacked : acked (machine.run Port.step p [.poll, .poll, .poll]).2 = [] := by
    simp [Port.step, hport, acked]
  rw [Port.run_three_polls hport, hacked, List.append_nil] at hcontents
  rw [SlaveDevice.pending, hseen]
  exact (List.append_nil _).symm.trans hcontents

/-- A device is not configured any more only if that has been seen. -/
theorem SlaveDevice.stays_configured (hconfigured : d.state = .CONFIGURED)
    (hopen : .closed ∉ (machine.run (SlaveDevice.step pcd) d inputs).2) :
    (machine.run (SlaveDevice.step pcd) d inputs).1.state = .CONFIGURED := by
  induction inputs generalizing d with
  | nil => exact hconfigured
  | cons input rest ih =>
    rw [machine.run_cons, List.mem_cons, not_or] at hopen
    refine ih ?_ hopen.2
    have hcontrol : ∀ next : SlaveDevice η, Seen.closed ≠ (d.control next).2 →
        next.state = .CONFIGURED := by
      intro next hseen
      by_contra hnot
      exact hseen (if_pos ⟨hconfigured, hnot⟩).symm
    cases input with
    | poll =>
      simp only [SlaveDevice.step, ux_device_cdc_acm_task]
      split_ifs <;> exact hconfigured
    | packet bytes => exact hconfigured
    | set_configuration configuration_value => exact hcontrol _ hopen.1
    | set_feature => exact hcontrol _ hopen.1
    | clear_feature => exact hcontrol _ hopen.1
    | bus_reset => exact hcontrol _ hopen.1
    | disconnect => exact hcontrol _ hopen.1

/-- While the device stays configured, no packet is lost: all but one at most of those that
    the host has had acknowledged have been handed over, and that one is handed over by the next
    polls. -/
theorem acked_packets_reach_handler (hpcd : pcd.Documented status) (hhal : status hal = .DISABLED)
    (data buffer : Nat → UInt8) (hplain : ∀ input ∈ inputs, input.Plain) :
    let ran := machine.run (SlaveDevice.step pcd) (.start hal data buffer) inputs
    .closed ∉ ran.2 → ran.1.state = .CONFIGURED →
      handed ran.2 ++ ran.1.pending pcd = nonempty (acked ran.2) ∧
        (ran.1.pending pcd).length ≤ 1 ∧ (ran.1.pending pcd).flatten.length ≤ wMaxPacketSize := by
  intro ran hopen hconfigured
  obtain ⟨hseen, hat⟩ := (SlaveDevice.at_start hhal data buffer).run hpcd hplain
  change ran.2 = _ at hseen
  change ran.1.At status buffer _ at hat
  have hpending := hat.pending_eq hpcd hconfigured
  have hcontents := Port.valid_start.run_contents inputs (hseen ▸ hopen)
  rw [hpending, hseen]
  exact ⟨hcontents, hat.valid.length_contents⟩

/-- What the halt is left alone for: when it is cleared under a transfer, the flag of the
    transfer stays and that of its end goes. A packet that was to be fetched is lost, and no poll
    asks the driver to receive again. -/
theorem polls_after_clear_feature (hpcd : pcd.Documented status) (hhal : status hal = .DISABLED)
    (data buffer : Nat → UInt8) (hplain : ∀ input ∈ inputs, input.Plain) (polls : Nat) :
    let d := (machine.run (SlaveDevice.step pcd) (.start hal data buffer) inputs).1
    let cleared := (d.step pcd .clear_feature).1
    d.state = .CONFIGURED → d.acm.transfer.ed_transfer = true →
      machine.run (SlaveDevice.step pcd) cleared (List.replicate polls .poll) =
        (cleared, List.replicate polls (.polled none)) := by
  intro d cleared hconfigured htransfer
  obtain ⟨-, hat⟩ := (SlaveDevice.at_start hhal data buffer).run hpcd hplain
  have hcdc : d.cdc_acm = true := hat.cdc_acm.trans (hat.state.mp hconfigured)
  have hreads : d.acm.Reads := by
    have hacm := hat.acm
    generalize (machine.run Port.step ⟨false, .idle⟩ inputs).1.phase = phase at hacm
    cases hacm with
    | listening reads => exact reads
    | taken _ reads => exact reads
    | halted reads => exact reads
    | idle _ quiet => exact absurd (htransfer.symm.trans quiet.ed_transfer) (by simp)
    | full _ _ quiet => exact absurd (htransfer.symm.trans quiet.ed_transfer) (by simp)
  have hcleared : cleared =
      d.transfer { d.acm.transfer._ux_dcd_stm32_endpoint_reset pcd.toPcd with halted := false } :=
    if_pos hconfigured
  have hplain' : cleared.acm.transfer.Plain := by
    rw [hcleared]
    exact ⟨hat.plain.status_phase_ignore, rfl, rfl⟩
  have hwait : read_wait pcd.toPcd .CONFIGURED cleared.acm = ((.WAIT, none), cleared.acm) := by
    have hrun := hplain'.run_pending pcd (by rw [hcleared]; exact hreads.state)
      (by rw [hcleared]; exact htransfer) (by rw [hcleared]; rfl) cleared.acm.read_transfer_length
    simp [read_wait, hrun, UX_STATE.code]
  have hpoll : cleared.step pcd .poll = (cleared, .polled none) := by
    have hstate : cleared.state = .CONFIGURED := by rw [hcleared]; exact hconfigured
    have hset : cleared.cdc_acm = true := by rw [hcleared]; exact hcdc
    have hread : cleared.acm.read_state = .WAIT := by rw [hcleared]; exact hreads.read_state
    simp only [SlaveDevice.step, ux_device_cdc_acm_task, hstate, hset, _ux_device_class_cdc_acm_read_run,
      hread, hwait, ne_eq, not_true_eq_false, if_false, Bool.true_eq_false]
    rw [← hstate, ← hset]
  induction polls with
  | zero => rfl
  | succ polls ih => rw [List.replicate_succ, List.replicate_succ, machine.run_cons, hpoll, ih]

end

end keychain.usb
