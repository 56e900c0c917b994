import Keychain.Tls.Invariant
import Keychain.Tls.Run

namespace keychain.tls

variable {σ : Type}

/-- The ring is the only way for packets between two moments: the command
    stream is the same in both and no packet was given to it in between. -/
structure Device.Diverted (d d' : Device) : Prop where
  active : d'.tls_active = true
  stream : d'.stream = d.stream
  trace : ∃ evs, d'.trace = d.trace ++ evs ∧ ∀ packet taken, .to_stream packet taken ∉ evs

theorem Device.Diverted.trans {d d' d'' : Device} (h : d.Diverted d') (h' : d'.Diverted d'') :
    d.Diverted d'' := by
  obtain ⟨evs, hevs, hnone⟩ := h.trace
  obtain ⟨evs', hevs', hnone'⟩ := h'.trace
  refine ⟨h'.active, h'.stream.trans h.stream, evs ++ evs', by rw [hevs', hevs, List.append_assoc], ?_⟩
  intro packet taken hmem
  obtain hmem | hmem := List.mem_append.mp hmem
  · exact hnone packet taken hmem
  · exact hnone' packet taken hmem

theorem Device.Diverted.of_eq {d d' : Device} (hactive : d'.tls_active = true)
    (hstream : d'.stream = d.stream) (htrace : d'.trace = d.trace) : d.Diverted d' :=
  ⟨hactive, hstream, [], by simp [htrace], by simp⟩

theorem usb_device_task_diverted (u : Usb) {d : Device} (h : d.tls_active = true) :
    d.Diverted (usb_device_task u d) := by
  obtain ⟨-, heq⟩ | ⟨buf, -, -, heq⟩ | ⟨buf, console, -, hinactive, -⟩ := usb_device_task_cases u d
  · rw [heq]
    exact .of_eq h rfl rfl
  · rw [heq]
    exact ⟨h, rfl, [.to_ring buf (RB_Write_loop d.rxRing 0 buf).2], rfl, by simp⟩
  · rw [h] at hinactive
    cases hinactive

theorem handle_diverted (u : Usb) (c : Callback) {d : Device} (h : d.tls_active = true) :
    d.Diverted (handle u c d).2 := by
  cases c with
  | recv sz =>
    obtain ⟨hstream, -, htrace, hactive⟩ := EmbedReceive_frame d sz
    exact ⟨hactive.trans h, hstream, [.embed_receive _ sz _ _], congrArg (· ++ _) htrace, by simp⟩
  | send buf =>
    have htick : d.Diverted d.tick := .of_eq h rfl rfl
    simp only [handle, EmbedSend]
    split
    · exact htick
    · have hpoll := htick.trans (usb_device_task_diverted u htick.active)
      split <;> exact hpoll.trans (.of_eq hpoll.active rfl rfl)

/-- While a session is active, whatever it does keeps packets off the stream. -/
theorem Device.Diverted.kept (u : Usb) (d : Device) : Kept u d.Diverted :=
  ⟨fun _ h => h.trans (usb_device_task_diverted u h.active),
    fun c _ h => h.trans (handle_diverted u c h.active),
    fun _ _ h => h.trans (.of_eq h.active rfl rfl), fun _ _ h => h.trans (.of_eq h.active rfl rfl)⟩

/-- Up to the label `cleanup` no packet reaches the command stream. -/
theorem tls_pqc_body_diverted (u : Usb) (w : WolfSSL σ) (turns : Nat) (d : Device) :
    { d with tls_active := true : Device }.Diverted (tls_pqc_body u w turns d).2 := by
  apply (Device.Diverted.kept u _).body
  · intro d' h
    exact h.trans ⟨h.active, rfl, [.session_reset], rfl, by simp⟩
  · exact .of_eq rfl rfl rfl

/-- Once the flag is down, a row of polls gives a packet to the command stream
    exactly when one of them finds a packet that fits in what the stream has
    room for at the start. -/
theorem usb_device_polls_to_stream (u : Usb) (count : Nat) {d : Device} (hvalid : d.stream.Valid)
    (hinactive : d.tls_active = false) :
    ∃ evs, (usb_device_polls u count d).trace = d.trace ++ evs ∧
      ((∃ packet, .to_stream packet true ∈ evs) ↔
        ∃ i < count, ∃ packet, u.delivers (d.now + i) = some packet ∧ d.stream.Fits packet) := by
  induction count generalizing d with
  | zero => exact ⟨[], by simp [usb_device_polls], by simp⟩
  | succ count ih =>
    rw [usb_device_polls]
    simp only [Nat.exists_lt_succ_left, Nat.add_zero]
    rcases usb_device_task_cases u d with ⟨hnone, heq⟩ | ⟨buf, -, hactive, -⟩ |
      ⟨buf, console, hsome, -, heq⟩
    · obtain ⟨evs, hevs, hiff⟩ := ih (d := d.tick) hvalid hinactive
      refine ⟨evs, by rw [heq, hevs]; rfl, ?_⟩
      simp only [hnone, reduceCtorEq, false_and, exists_false, false_or]
      simpa [Nat.add_assoc, Nat.add_comm 1] using hiff
    · rw [hactive] at hinactive
      cases hinactive
    · obtain ⟨hnext, htaken, hqueue⟩ := tty.usb_rx_command_spec hvalid buf
      obtain ⟨evs, hevs, hiff⟩ := ih (d := usb_device_task u d) (by rw [heq]; exact hnext)
        (by rw [heq]; exact hinactive)
      refine ⟨.to_stream buf (tty.usb_rx_command d.stream buf).2 :: evs, ?_, ?_⟩
      · rw [hevs, heq]
        simp
      · by_cases hfits : d.stream.Fits buf
        · exact iff_of_true ⟨buf, by simp [htaken.mpr hfits]⟩ (.inl ⟨buf, hsome, hfits⟩)
        · -- A dropped packet leaves the queue as it was, so the same packets fit later on.
          have hsame : ∀ packet, (usb_device_task u d).stream.Fits packet ↔ d.stream.Fits packet := by
            intro packet
            rw [if_neg hfits] at hqueue
            simp only [heq, tty.UsbStream.Fits, hqueue]
          have hdropped : (tty.usb_rx_command d.stream buf).2 = false := by
            simpa [hfits] using htaken
          simp only [hsame, usb_device_task_now, Nat.add_assoc, Nat.add_comm 1] at hiff
          simp only [hdropped, List.mem_cons, Event.to_stream.injEq, Bool.true_eq_false, and_false,
            false_or, hiff, hsome, Option.some.injEq, exists_eq_left', hfits]

/-- The host sends no packet, in the ten polls that the cleanup makes with the
    flag down, for which the command stream has room. -/
def Session.Contained (u : Usb) (s : Session σ) : Prop :=
  ∀ ssl ctx d, tls_pqc_body u s.w s.turns s.device = (.cleanup ssl ctx, d) →
    ∀ i < 10, ∀ packet, u.delivers (d.now + 5 + i) = some packet → ¬ s.device.stream.Fits packet

theorem usb_device_polls_now (u : Usb) (count : Nat) (d : Device) :
    (usb_device_polls u count d).now = d.now + count := by
  induction count generalizing d with
  | zero => rfl
  | succ count ih =>
    rw [usb_device_polls, ih, usb_device_task_now]
    omega

/-- The first five polls of the cleanup are still diverted; what the last ten
    give to the command stream depends on what fits there. -/
theorem cleanup_to_stream (u : Usb) (ssl ctx : Bool) {d : Device} (hvalid : d.stream.Valid)
    (hactive : d.tls_active = true) :
    ∃ evs, (cleanup_tls_resources u ssl ctx d).trace = d.trace ++ evs ∧
      ((∃ packet, .to_stream packet true ∈ evs) ↔
        ∃ i < 10, ∃ packet, u.delivers (d.now + 5 + i) = some packet ∧ d.stream.Fits packet) := by
  obtain ⟨htrace, hnow, hstream, hflag⟩ := release_objects_frame ssl ctx d
  have hreleased : d.Diverted (release_objects ssl ctx d) :=
    .of_eq (hflag.trans hactive) hstream htrace
  have hquiet := (Device.Diverted.kept u d).polls 5 hreleased
  have hquiet_now := usb_device_polls_now u 5 (release_objects ssl ctx d)
  unfold cleanup_tls_resources
  dsimp only
  generalize usb_device_polls u 5 (release_objects ssl ctx d) = quiet at hquiet hquiet_now ⊢
  obtain ⟨first, hfirst, hnone⟩ := hquiet.trace
  obtain ⟨last, hlast, hiff⟩ := usb_device_polls_to_stream u 10
    (d := debug_printf { quiet with tls_active := false } "TLS task completed, ready for next command")
    (by simpa [hquiet.stream] using hvalid) rfl
  refine ⟨first ++ last, ?_, ?_⟩
  · rw [hlast, debug_printf_trace, ← List.append_assoc, ← hfirst]
  · simp only [debug_printf_now, debug_printf_stream, hquiet_now, hnow, hquiet.stream] at hiff
    rw [← hiff]
    simp only [List.mem_append, hnone, false_or]

/-- A session keeps its packets off the command stream exactly when it is
    contained. -/
theorem Session.no_to_stream_iff (u : Usb) (s : Session σ) (hvalid : s.device.stream.Valid) :
    (∀ packet, .to_stream packet true ∉ s.events u) ↔ s.Contained u := by
  obtain ⟨d, w, turns⟩ := s
  have hbody := tls_pqc_body_diverted u w turns d
  simp only [Session.events, Session.Contained, tls_pqc_task]
  generalize tls_pqc_body u w turns d = body at hbody ⊢
  obtain ⟨stage, d'⟩ := body
  obtain ⟨evs, hevs, hnone⟩ := hbody.trace
  have hstream : d'.stream = d.stream := hbody.stream
  dsimp only at hevs hvalid
  cases stage with
  | looping s => simp [hevs, hnone]
  | connected s => simp [hevs, hnone]
  | cleanup ssl ctx =>
    obtain ⟨late, hlate, hiff⟩ := cleanup_to_stream u ssl ctx (d := d') (by rwa [hstream]) hbody.active
    rw [hlate, hevs, List.append_assoc, List.drop_left]
    rw [hstream] at hiff
    constructor
    · rintro hoff ssl' ctx' _ ⟨⟩ i hi packet hpacket hfits
      obtain ⟨taken, htaken⟩ := hiff.mpr ⟨i, hi, packet, hpacket, hfits⟩
      exact hoff taken (List.mem_append_right evs htaken)
    · intro hcontained packet hmem
      obtain hmem | hmem := List.mem_append.mp hmem
      · exact hnone packet true hmem
      · obtain ⟨i, hi, buf, hbuf, hfits⟩ := hiff.mp ⟨packet, hmem⟩
        exact hcontained ssl ctx d' rfl i hi buf hbuf hfits

/-- Whatever happens, the pointers of the command stream stay inside its buffer. -/
theorem stream_valid_kept (u : Usb) : Kept u fun d => d.stream.Valid := by
  have hpoll : ∀ d : Device, d.stream.Valid → (usb_device_task u d).stream.Valid := by
    intro d h
    obtain ⟨-, heq⟩ | ⟨buf, -, -, heq⟩ | ⟨buf, console, -, -, heq⟩ := usb_device_task_cases u d
    · rwa [heq]
    · rwa [heq]
    · rw [heq]
      exact (tty.usb_rx_command_spec h buf).1
  have hreceive : ∀ (sz : Int) (d : Device), d.stream.Valid →
      (handle u (.recv sz) d).2.stream.Valid := by
    intro sz d h
    rwa [handle, Device.emit_stream, (EmbedReceive_frame d sz).1]
  exact .of_receive hpoll hreceive (fun _ h => h) (fun _ _ h => h) fun _ _ h => h

theorem tls_pqc_task_stream_valid (u : Usb) (w : WolfSSL σ) (turns : Nat) {d : Device}
    (h : d.stream.Valid) : (tls_pqc_task u w turns d).2.stream.Valid := by
  have hbody : (tls_pqc_body u w turns d).2.stream.Valid :=
    (stream_valid_kept u).body (fun _ h => h) w turns h
  unfold tls_pqc_task
  generalize tls_pqc_body u w turns d = body at hbody ⊢
  obtain ⟨stage, d'⟩ := body
  cases stage with
  | looping s => exact hbody
  | connected s => exact hbody
  | cleanup ssl ctx =>
    have hrelease : (release_objects ssl ctx d').stream.Valid := by
      rw [(release_objects_frame ssl ctx d').2.2.1]
      exact hbody
    have hquiet := (stream_valid_kept u).polls 5 hrelease
    exact (stream_valid_kept u).polls 10 ((stream_valid_kept u).print _ _ hquiet)

/-- In every run from power on, the sessions keep their packets off the command
    stream exactly when all of them are contained. -/
theorem no_tls_traffic_in_stream_iff (u : Usb) (ring stream : Nat → UInt8)
    (actions : List (Action σ)) :
    (∀ s ∈ sessions u (Device.power_on ring stream) actions,
        ∀ packet, .to_stream packet true ∉ s.events u) ↔
      ∀ s ∈ sessions u (Device.power_on ring stream) actions, s.Contained u := by
  have hvalid := sessions_invariant u (fun d => d.stream.Valid) (stream_valid_kept u).poll
    (fun d h => (tty._usb_getchar_spec h).1)
    (fun w turns d h => tls_pqc_task_stream_valid u w turns h) actions
    _ (Device.power_on_stream_valid ring stream)
  exact forall₂_congr fun s hs => s.no_to_stream_iff u (hvalid s hs)

/-- A packet that the sixth poll of the cleanup finds: the first one after the
    flag is down. It waits in the command stream when the session is over. -/
theorem tls_packet_becomes_command :
    ∃ s ∈ sessions ⟨fun _ => true, fun now => if now = 5 then some [0x49, 0x44, 0x0A] else none,
        fun _ => true⟩ (Device.power_on (fun _ => 0) (fun _ => 0)) [.session (permissive 1 1) 1],
      .to_stream [0x49, 0x44, 0x0A] true ∈ s.events ⟨fun _ => true,
        fun now => if now = 5 then some [0x49, 0x44, 0x0A] else none, fun _ => true⟩ :=
  ⟨_, List.mem_cons_self, by decide⟩

end keychain.tls
