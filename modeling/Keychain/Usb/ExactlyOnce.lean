import Keychain.Usb.Traffic

namespace keychain.usb

open delivery

/-- The state machine and the books agree: it is idle, or works on the offer that
    it has taken last. What is pending has not been touched in memory. -/
structure Traffic.Sound (t : Traffic) : Prop where
  activated : t.device.activated = true
  configured : t.device.configured = true
  intact : ∀ (i : Nat) (o : Offer UInt8), t.offers[i]? = some o → o.outcome = .pending →
    read t.memory o.address o.bytes.length = o.bytes
  machine : (t.device.cdc_acm.Idle ∧ ∃ done, Booked t.offers t.wire done none) ∨
    ∃ o out done, t.offers[t.taken]? = some o ∧ t.device.cdc_acm.Works o.address o.bytes out ∧
      Booked t.offers t.wire done (some (t.taken, out))

/-- The offer that wolfSSL repeats is pending. -/
def Traffic.TlsPending (t : Traffic) : Prop :=
  ∀ i ∈ t.tls, ∃ o, t.offers[i]? = some o ∧ o.outcome = .pending

theorem Traffic.Sound.exactly_once {t : Traffic} (h : t.Sound) : ExactlyOnce t.offers t.wire := by
  obtain ⟨-, done, hbooked⟩ | ⟨o, out, done, -, -, hbooked⟩ := h.machine
  · exact hbooked.exactly_once
  · exact hbooked.exactly_once

/-- An offer settled as something else than pending is no longer pending; the
    others are as they were. -/
theorem pending_of_settle {offers : List (Offer UInt8)} {i j : Nat} {outcome : Outcome}
    (houtcome : outcome ≠ .pending) {o : Offer UInt8}
    (ho : (delivery.settle offers i outcome)[j]? = some o) (hpending : o.outcome = .pending) :
    i ≠ j ∧ offers[j]? = some o := by
  rw [getElem?_settle] at ho
  by_cases hij : i = j
  · rw [if_pos hij] at ho
    obtain ⟨o', -, rfl⟩ := Option.map_eq_some_iff.mp ho
    exact absurd hpending houtcome
  · rw [if_neg hij] at ho
    exact ⟨hij, ho⟩

/-- What the state machine is about to copy is still what was offered. -/
theorem Traffic.Sound.next_copy_intact {t : Traffic} (h : t.Sound) {o : Offer UInt8}
    (ho : t.offers[t.taken]? = some o) {out : List UInt8}
    (hworks : t.device.cdc_acm.Works o.address o.bytes out) (hpending : o.outcome = .pending) :
    read t.memory t.device.cdc_acm.write_buffer t.device.cdc_acm.next_copy =
      (o.bytes.drop t.device.cdc_acm.write_actual_length).take t.device.cdc_acm.next_copy := by
  cases hworks with
  | start write_state _ _ requested buffer fits _ =>
    rw [buffer]
    apply read_slice (h.intact _ o ho hpending)
    simp only [CdcAcm.next_copy, write_state]
    omega
  | wait write_state _ _ _ _ _ _ _ _ =>
    simp [CdcAcm.next_copy, write_state, delivery.read]

/-- A clear call for a pending offer is told to come again, or that this very
    offer has been sent. -/
theorem Traffic.Sound.tx {t : Traffic} (h : t.Sound) {i : Nat} {o : Offer UInt8}
    (ho : t.offers[i]? = some o) (hpending : o.outcome = .pending)
    (hclear : t.Clear i o.bytes.length) :
    ((t.tx i o.address o.bytes.length).1 = .BUSY ∧ (t.tx i o.address o.bytes.length).2.Sound) ∨
    ((t.tx i o.address o.bytes.length).1 = .OK ∧
      ((t.tx i o.address o.bytes.length).2.settle i .sent).Sound) := by
  unfold Traffic.tx
  rw [usb_cdc_tx_eq t.memory h.activated h.configured]
  obtain ⟨hidle, done, hbooked⟩ | ⟨w, out, done, hw, hworks, hbooked⟩ := h.machine
  · obtain ⟨hwait, out, hworks, hwire⟩ := hidle.write_run t.memory o.address o.bytes.length
    rw [h.intact i o ho hpending] at hworks
    have hbegin := hbooked.begin ho hpending hworks.prefix_bytes
    generalize _ux_device_class_cdc_acm_write_run t.memory true t.device.cdc_acm o.address
      o.bytes.length = ran at hwait hworks hwire
    obtain ⟨⟨status, actual_length⟩, c⟩ := ran
    subst hwait
    have hwire : c.transfer.wire = t.wire ++ out := hwire
    rw [← hwire] at hbegin
    left
    simp only [hidle.write_state, if_true]
    exact ⟨by simp, h.activated, h.configured, h.intact, .inr ⟨o, out, done, ho, hworks, hbegin⟩⟩
  · have hunsent := hbooked.flight_unsent (t.taken, out) rfl w hw
    have hclear := fun hother => hclear hworks.busy hother w hw
    have hintact : read t.memory t.device.cdc_acm.write_buffer t.device.cdc_acm.next_copy =
        (w.bytes.drop t.device.cdc_acm.write_actual_length).take t.device.cdc_acm.next_copy := by
      cases houtcome : w.outcome with
      | pending => exact h.next_copy_intact hw hworks houtcome
      | sent => exact absurd houtcome hunsent
      | abandoned =>
        refine (hclear ?_).2 houtcome
        rintro rfl
        rw [hw] at ho
        cases ho
        rw [houtcome] at hpending
        cases hpending
    have hrun := hworks.write_run hintact o.address o.bytes.length
    generalize _ux_device_class_cdc_acm_write_run t.memory true t.device.cdc_acm o.address
      o.bytes.length = ran at hrun
    obtain ⟨⟨status, actual_length⟩, c⟩ := ran
    simp only [hworks.busy, if_false]
    obtain ⟨-, hwait, more, hworks', hwire⟩ | ⟨hends, hall, hnext, hidle, hwire⟩ := hrun
    · have hextend := hbooked.extend hw hworks'.prefix_bytes
      subst hwait
      have hwire : c.transfer.wire = t.wire ++ more := hwire
      rw [← hwire] at hextend
      left
      exact ⟨by simp, h.activated, h.configured, h.intact, .inr ⟨w, _, done, hw, hworks', hextend⟩⟩
    · cases hnext
      have hsame : c.transfer.wire = t.wire := hwire
      by_cases hown : t.taken = i
      · subst hown
        rw [ho] at hw
        cases hw
        rw [hall, ← hsame] at hbooked
        right
        refine ⟨by simp, h.activated, h.configured, ?_, .inl ⟨hidle, _, hbooked.sent ho⟩⟩
        intro j o' ho' hpending'
        exact h.intact j o' (pending_of_settle (by decide) ho' hpending').2 hpending'
      · obtain ⟨habandoned, hlength⟩ := (hclear hown).1 hends
        rw [← hsame] at hbooked
        left
        exact ⟨by simp [hlength], h.activated, h.configured, h.intact,
          .inl ⟨hidle, _, hbooked.leave hw habandoned⟩⟩

theorem Traffic.Sound.data_in_stages {t : Traffic} (h : t.Sound) (count : Nat) :
    (t.data_in_stages count).Sound ∧ (t.data_in_stages count).offers = t.offers ∧
      (t.data_in_stages count).tls = t.tls := by
  induction count generalizing t with
  | zero => exact ⟨h, rfl, rfl⟩
  | succ count ih =>
    rw [Traffic.data_in_stages]
    apply ih
    refine ⟨h.activated, h.configured, h.intact, ?_⟩
    obtain ⟨hidle, done, hbooked⟩ | ⟨w, out, done, hw, hworks, hbooked⟩ := h.machine
    · rw [Traffic.wire, hidle.data_in_stage]
      exact .inl ⟨hidle, done, hbooked⟩
    · obtain ⟨hworks', hwire⟩ := hworks.data_in_stage
      rw [Traffic.wire, hwire]
      exact .inr ⟨w, out, done, hw, hworks', hbooked⟩

/-- Giving up on an offer leaves the state machine at work on it, if it is. -/
theorem Traffic.Sound.abandon {t : Traffic} (h : t.Sound) (i : Nat) :
    (t.settle i .abandoned).Sound := by
  refine ⟨h.activated, h.configured, ?_, ?_⟩
  · intro j o ho hpending
    exact h.intact j o (pending_of_settle (by decide) ho hpending).2 hpending
  · obtain ⟨hidle, done, hbooked⟩ | ⟨w, out, done, hw, hworks, hbooked⟩ := h.machine
    · exact .inl ⟨hidle, done, hbooked.abandon i⟩
    · obtain ⟨w', hw', haddress, hbytes⟩ := settled_offer hw i .abandoned
      rw [← haddress, ← hbytes] at hworks
      exact .inr ⟨w', out, done, hw', hworks, hbooked.abandon i⟩

/-- Try by try: the loop sends the offer, or gives up on it while it is pending. -/
theorem Traffic.Sound.send_loop {t : Traffic} (h : t.Sound) {i : Nat} {o : Offer UInt8}
    (ho : t.offers[i]? = some o) (hpending : o.outcome = .pending) {data len : Nat}
    (hdata : o.address = data) (hlen : o.bytes.length = len) {delay : Nat → Nat} {limit : Nat}
    (hclear : SendClear delay i data len limit t) :
    let sent := send_loop delay i data len limit t
    (sent.2.settle i (if sent.1 then .sent else .abandoned)).Sound ∧ sent.2.offers = t.offers ∧
      sent.2.tls = t.tls := by
  subst hdata hlen
  induction limit generalizing t with
  | zero => exact ⟨h.abandon i, rfl, rfl⟩
  | succ limit ih =>
    obtain ⟨hbusy, hsound⟩ | ⟨hok, hsound⟩ := h.tx ho hpending hclear.1
    · have hlater := hclear.2 hbusy
      simp only [usb.send_loop, hbusy, if_true]
      by_cases hlast : limit = 0
      · simp only [hlast, if_true]
        exact ⟨hsound.abandon i, rfl, rfl⟩
      · simp only [hlast, if_false]
        obtain ⟨hdelayed, hoffers, htls⟩ := hsound.data_in_stages (delay limit)
        have hwhole := ih hdelayed (by rw [hoffers]; exact ho) hlater
        rw [hoffers, htls] at hwhole
        exact hwhole
    · simp only [usb.send_loop, hok, reduceCtorEq, if_false]
      exact ⟨hsound, rfl, rfl⟩

theorem Traffic.Sound.offer {t : Traffic} (h : t.Sound) (data len : Nat) : (t.offer data len).Sound := by
  have hold : ∀ {i : Nat} {o : Offer UInt8}, t.offers[i]? = some o →
      (t.offer data len).offers[i]? = some o := by
    intro i o ho
    exact (List.getElem?_append_left (List.getElem?_eq_some_iff.mp ho).1).trans ho
  refine ⟨h.activated, h.configured, ?_, ?_⟩
  · intro i o ho hpending
    obtain hi | ⟨-, rfl⟩ := offered_cases ho
    · exact h.intact i o hi hpending
    · simp [Traffic.offer]
  · obtain ⟨hidle, done, hbooked⟩ | ⟨w, out, done, hw, hworks, hbooked⟩ := h.machine
    · exact .inl ⟨hidle, done, hbooked.offer data _⟩
    · exact .inr ⟨w, out, done, hold hw, hworks, hbooked.offer data _⟩

/-- What a call of `EmbedSend` offers is pending, and is what it has been before. -/
theorem Traffic.Sound.tls_offer {t : Traffic} (h : t.Sound) (htls : t.TlsPending) {buf sz : Nat}
    (hrepeats : ∀ i ∈ t.tls, ∀ o ∈ t.offers[i]?, buf = o.address ∧ sz = o.bytes.length) :
    (t.tls_offer buf sz).2.Sound ∧ (t.tls_offer buf sz).2.tls = some (t.tls_offer buf sz).1 ∧
      ∃ o, (t.tls_offer buf sz).2.offers[(t.tls_offer buf sz).1]? = some o ∧ o.outcome = .pending ∧
        o.address = buf ∧ o.bytes.length = sz := by
  unfold Traffic.tls_offer
  cases hi : t.tls with
  | none =>
    have hoffer := h.offer buf sz
    refine ⟨⟨hoffer.activated, hoffer.configured, hoffer.intact, hoffer.machine⟩, rfl,
      ⟨buf, read t.memory buf sz, .pending⟩, ?_, rfl, rfl, length_read _ _ _⟩
    simp [Traffic.offer]
  | some i =>
    obtain ⟨o, ho, hpending⟩ := htls i hi
    obtain ⟨hbuf, hsz⟩ := hrepeats i hi o ho
    exact ⟨h, hi, o, ho, hpending, hbuf.symm, hsz.symm⟩

theorem Traffic.Sound.connected {t : Traffic} (h : t.Sound) : usb_device_connected t.device = true := by
  rw [usb_device_connected, h.activated, h.configured, Bool.and_self]

theorem Traffic.Sound.embed_send {t : Traffic} (h : t.Sound) (htls : t.TlsPending) {buf sz : Nat}
    (hpermits : t.Permits (.embed_send buf sz)) (hclear : t.ClearFor (.embed_send buf sz)) :
    (t.step (.embed_send buf sz)).1.Sound ∧ (t.step (.embed_send buf sz)).1.TlsPending := by
  obtain ⟨hsmall, hrepeats⟩ := hpermits
  obtain ⟨hoffered, hown, o, ho, hpending, rfl, rfl⟩ := h.tls_offer htls hrepeats
  have hclear : (t.tls_offer o.address o.bytes.length).2.Clear
    (t.tls_offer o.address o.bytes.length).1 o.bytes.length := hclear
  simp only [Traffic.step, EmbedSend, hoffered.connected, Bool.true_eq_false, if_false,
    Nat.mod_eq_of_lt hsmall]
  obtain ⟨hbusy, hsound⟩ | ⟨hok, hsound⟩ := hoffered.tx ho hpending hclear
  · simp only [hbusy, if_true, reduceCtorEq, if_false]
    refine ⟨hsound, ?_⟩
    intro j hj
    have hj : j ∈ (t.tls_offer o.address o.bytes.length).2.tls := hj
    rw [hown] at hj
    cases hj
    exact ⟨o, ho, hpending⟩
  · simp only [hok, reduceCtorEq, if_false, if_true]
    refine ⟨⟨hsound.activated, hsound.configured, hsound.intact, hsound.machine⟩, ?_⟩
    intro j hj
    cases hj

theorem Traffic.Sound.send_data {t : Traffic} (h : t.Sound) (htls : t.TlsPending) {data len : Nat}
    {delay : Nat → Nat} (hpermits : t.Permits (.send_data data len delay))
    (hclear : t.ClearFor (.send_data data len delay)) :
    (t.step (.send_data data len delay)).1.Sound ∧
      (t.step (.send_data data len delay)).1.TlsPending := by
  have hsmall : len < 2 ^ 16 := hpermits
  have hclear : SendClear delay t.offers.length data len USB_RETRY_NUM (t.offer data len) := hclear
  have hoffered := h.offer data len
  have hnew : (t.offer data len).offers[t.offers.length]? =
      some ⟨data, read t.memory data len, .pending⟩ := by
    simp [Traffic.offer]
  obtain ⟨hsound, hoffers, hsame⟩ :=
    hoffered.send_loop hnew rfl rfl (length_read _ _ _) hclear
  simp only [Traffic.step, _usb_send_data, hoffered.connected, Bool.true_eq_false, if_false,
    Nat.mod_eq_of_lt hsmall]
  refine ⟨hsound, ?_⟩
  intro i hi
  obtain ⟨o, ho, hpending⟩ := htls i (hsame ▸ hi)
  have hlt := (List.getElem?_eq_some_iff.mp ho).1
  refine ⟨o, ?_, hpending⟩
  rw [Traffic.settle, hoffers, getElem?_settle, if_neg (Nat.ne_of_gt hlt)]
  exact (List.getElem?_append_left hlt).trans ho

theorem Traffic.Sound.step {t : Traffic} (h : t.Sound) (htls : t.TlsPending) {s : Step}
    (hpermits : t.Permits s) (hclear : t.ClearFor s) :
    (t.step s).1.Sound ∧ (t.step s).1.TlsPending := by
  cases s with
  | data_in_stage =>
    obtain ⟨hsound, hoffers, hsame⟩ := h.data_in_stages 1
    refine ⟨hsound, ?_⟩
    intro i hi
    rw [Traffic.step, hoffers]
    exact htls i (hsame ▸ hi)
  | store address byte =>
    refine ⟨⟨h.activated, h.configured, ?_, h.machine⟩, htls⟩
    intro i o ho hpending
    have houtside := hpermits o (List.mem_of_getElem? ho) hpending
    refine Eq.trans (read_congr ?_) (h.intact i o ho hpending)
    intro a hle hlt
    exact Function.update_of_ne (by omega) _ _
  | embed_send buf sz => exact h.embed_send htls hpermits hclear
  | send_data data len delay => exact h.send_data htls hpermits hclear

theorem Traffic.start_sound (memory : Nat → UInt8) : (Traffic.start memory).Sound where
  activated := rfl
  configured := rfl
  intact := by simp [Traffic.start]
  machine := .inl ⟨⟨rfl, rfl, rfl⟩, [], booked_nil⟩

/-- In every run of the two writers, the host and the rest of the program in which
    each call finds the state machine clear, whatever is reported as sent is on
    the wire once and in one piece, and nothing is on the wire twice. -/
theorem exactly_once_when_clear (memory : Nat → UInt8) (steps : List Step)
    (hsteps : machine.Admits Traffic.step (fun t s => t.Permits s ∧ t.ClearFor s)
      (Traffic.start memory) steps) :
    ∀ t, machine.Reached Traffic.step (Traffic.start memory) steps t → ExactlyOnce t.offers t.wire := by
  intro t hreached
  have hstart : (Traffic.start memory).Sound ∧ (Traffic.start memory).TlsPending :=
    ⟨Traffic.start_sound memory, by simp [Traffic.TlsPending, Traffic.start]⟩
  have hinv := machine.reached_invariant Traffic.step (fun t => t.Sound ∧ t.TlsPending)
    (fun t s => t.Permits s ∧ t.ClearFor s)
    (fun t s hinv hallowed => hinv.1.step hinv.2 hallowed.1 hallowed.2) hstart hsteps hreached
  exact hinv.1.exactly_once

/-- A message of wolfSSL and then a text go out one after the other. -/
theorem exactly_once_in_turn :
    let steps : List Step :=
      [.embed_send 1 3, .data_in_stage, .embed_send 1 3, .embed_send 1 3, .send_data 4 3 fun _ => 1]
    let t := (machine.run Traffic.step (Traffic.start fun a => UInt8.ofNat a) steps).1
    ExactlyOnce t.offers t.wire :=
  exactly_once_when_clear _ _ (by decide) _ ⟨_, [], (List.append_nil _).symm, rfl⟩

/-- wolfSSL offers three bytes, which the host takes. A text of three bytes finds
    the state machine at the end of that transfer: the text is reported as sent
    without being on the wire, and the message, offered again, is sent twice. -/
theorem text_reported_unsent :
    let steps : List Step := [.embed_send 1 3, .data_in_stage, .send_data 4 3 fun _ => 0]
    let t := (machine.run Traffic.step (Traffic.start fun a => UInt8.ofNat a) steps).1
    machine.Admits Traffic.step Traffic.Permits (Traffic.start fun a => UInt8.ofNat a)
        (steps ++ [.embed_send 1 3]) ∧
      t.offers = [⟨1, [1, 2, 3], .pending⟩, ⟨4, [4, 5, 6], .sent⟩] ∧ t.wire = [1, 2, 3] ∧
      (t.step (.embed_send 1 3)).1.wire = [1, 2, 3, 1, 2, 3] ∧ ¬ ExactlyOnce t.offers t.wire := by
  refine ⟨by decide, by decide, by decide, by decide, fun h => ?_⟩
  have hmem := h.mem_wire (i := 1) (o := ⟨4, [4, 5, 6], .sent⟩) (by decide) rfl 4 (by decide)
  exact absurd hmem (by decide)

end keychain.usb
