import Keychain.Library.History
import Keychain.Tls.Invariant
import Keychain.Tls.Run
import Keychain.Tls.RingBuffer.Write
import Keychain.Tls.RingBuffer.Read

namespace keychain.tls

variable {σ : Type}

/-- The bytes that the calls of `EmbedReceive` have returned, in order: as many
    of each buffer as the answer counts. -/
def received (evs : List Event) : List UInt8 :=
  evs.flatMap fun
    | .embed_receive _ _ (.count n) buf => buf.take n.toNat
    | _ => []

/-- The bytes that `RB_Write` has kept, in order. -/
def kept (evs : List Event) : List UInt8 :=
  evs.flatMap fun
    | .to_ring packet bytes_written => packet.take bytes_written
    | _ => []

/-- The packets given to `tls_pqc_usb_rx_handler`, one after the other. -/
def routed (evs : List Event) : List UInt8 :=
  evs.flatMap fun
    | .to_ring packet _ => packet
    | _ => []

/-- `RB_Write` has dropped no byte. -/
def Lossless (evs : List Event) : Prop :=
  ∀ packet bytes_written, .to_ring packet bytes_written ∈ evs → bytes_written = packet.length

def Event.isArrival : Event → Bool
  | .to_ring _ _ | .to_stream _ _ => true
  | _ => false

/-- The answers of `EmbedReceive` are sound: asked for bytes, it wants to read
    with the ring empty, or returns between 1 and `sz` of them. And it wants to
    read only if all that was kept has been received. -/
structure Answers (evs : List Event) : Prop where
  sound : ∀ waiting sz answer buf, .embed_receive waiting sz answer buf ∈ evs → 0 < sz →
    answer = .want_read ∧ waiting = [] ∨
      ∃ n : Int, answer = .count n ∧ 1 ≤ n ∧ n ≤ sz ∧ buf.length = n
  waits : history.Preceded (fun e => ∃ waiting sz buf, e = .embed_receive waiting sz .want_read buf)
    (fun before => received before = kept before) evs

/-- The session gave up before the reset of the ring and received nothing, or
    what it received since then is a prefix of what was kept since then. -/
def Isolated (evs : List Event) : Prop :=
  (∀ e ∈ evs, e.isArrival = true) ∨
    ∃ after, evs = .session_reset :: after ∧ .session_reset ∉ after ∧
      received after <+: kept after ∧ (Lossless after → received after <+: routed after) ∧
      Answers after

@[simp] theorem received_append (evs more : List Event) :
    received (evs ++ more) = received evs ++ received more := by
  simp [received]

@[simp] theorem kept_append (evs more : List Event) : kept (evs ++ more) = kept evs ++ kept more := by
  simp [kept]

theorem received_of_arrivals {evs : List Event} (h : ∀ e ∈ evs, e.isArrival = true) :
    received evs = [] := by
  rw [received, List.flatMap_eq_nil_iff]
  intro e he
  have := h e he
  cases e <;> first | rfl | simp [Event.isArrival] at this

theorem kept_of_lossless {evs : List Event} (h : Lossless evs) : kept evs = routed evs := by
  apply List.flatMap_congr
  intro e he
  cases e with
  | to_ring packet bytes_written =>
    simp only
    rw [h packet bytes_written he, List.take_length]
  | _ => rfl

/-- Arrivals add nothing to answer for. -/
theorem Answers.append_arrivals {evs more : List Event} (h : Answers evs)
    (hmore : ∀ e ∈ more, e.isArrival = true) : Answers (evs ++ more) := by
  constructor
  · intro waiting sz answer buf hmem
    obtain hmem | hmem := List.mem_append.mp hmem
    · exact h.sound waiting sz answer buf hmem
    · simpa [Event.isArrival] using hmore _ hmem
  · refine (history.preceded_append _ _).mpr ⟨h.waits, history.preceded_of_forall_not _ ?_⟩
    rintro e he ⟨waiting, sz, buf, rfl⟩
    simpa [Event.isArrival] using hmore _ he

/-- Since the events `base`, the ring has held exactly what was kept and not
    yet received, and every answer has been sound. -/
def Device.Streaming (base : List Event) (d : Device) : Prop :=
  ∃ evs, d.trace = base ++ evs ∧ d.rxRing.Valid ∧ .session_reset ∉ evs ∧
    received evs ++ d.rxRing.queue = kept evs ∧ Answers evs

/-- What touches neither the ring nor the trace goes unseen. -/
theorem Device.Streaming.of_eq {base : List Event} {d d' : Device} (h : d.Streaming base)
    (htrace : d'.trace = d.trace) (hring : d'.rxRing = d.rxRing) : d'.Streaming base := by
  obtain ⟨evs, hevs, hvalid, hreset, hlinked, hanswers⟩ := h
  exact ⟨evs, by rw [htrace, hevs], hring ▸ hvalid, hreset, hring ▸ hlinked, hanswers⟩

theorem Device.Streaming.poll {base : List Event} {d : Device} (h : d.Streaming base) (u : Usb) :
    (usb_device_task u d).Streaming base := by
  obtain ⟨evs, hevs, hvalid, hreset, hlinked, hanswers⟩ := h
  obtain ⟨-, heq⟩ | ⟨buf, -, -, heq⟩ | ⟨buf, console, -, -, heq⟩ := usb_device_task_cases u d
  · rw [heq]
    exact ⟨evs, hevs, hvalid, hreset, hlinked, hanswers⟩
  · rw [heq]
    refine ⟨evs ++ [.to_ring buf (RB_Write_loop d.rxRing 0 buf).2], ?_,
      RB_Write_valid hvalid buf, ?_, ?_, hanswers.append_arrivals (by simp [Event.isArrival])⟩
    · simp [tls_pqc_usb_rx_handler, hevs]
    · simpa using hreset
    · have hqueue : (tls_pqc_usb_rx_handler d.tick buf).rxRing.queue =
          d.rxRing.queue ++ buf.take (RB_Write_loop d.rxRing 0 buf).2 := by
        rw [RB_Write_written hvalid, Nat.min_comm, ← List.take_eq_take_min]
        exact RB_Write_queue hvalid buf
      rw [hqueue, received_append, kept_append, ← hlinked]
      simp [received, kept]
  · rw [heq]
    refine ⟨evs ++ [.to_stream buf (tty.usb_rx_command d.stream buf).2], ?_, hvalid, ?_, ?_,
      hanswers.append_arrivals (by simp [Event.isArrival])⟩
    · simp [hevs]
    · simpa using hreset
    · simpa [received, kept] using hlinked

theorem Device.Streaming.receive {base : List Event} {d : Device} (h : d.Streaming base) (u : Usb)
    (sz : Int) : (handle u (.recv sz) d).2.Streaming base := by
  obtain ⟨evs, hevs, hvalid, hreset, hlinked, hanswers⟩ := h
  obtain ⟨hvalid', hreply⟩ := EmbedReceive_spec hvalid sz
  obtain ⟨-, -, htrace, -⟩ := EmbedReceive_frame d sz
  have hevs' : (handle u (.recv sz) d).2.trace = base ++ (evs ++
      [.embed_receive d.rxRing.queue sz (EmbedReceive d sz).1.1 (EmbedReceive d sz).1.2]) := by
    rw [handle, Device.emit_trace, htrace, hevs, List.append_assoc]
  refine ⟨_, hevs', hvalid', by simpa using hreset, ?_⟩
  rw [handle, Device.emit_rxRing]
  by_cases hnil : d.rxRing.queue = []
  · rw [if_pos hnil] at hreply
    rw [hreply.1, hreply.2]
    refine ⟨?_, ?_, ?_⟩
    · simpa [received, kept, hnil] using hlinked
    · intro waiting size answer buf hmem
      obtain hmem | hmem := List.mem_append.mp hmem
      · exact hanswers.sound waiting size answer buf hmem
      · cases List.mem_singleton.mp hmem
        exact fun _ => .inl ⟨rfl, hnil⟩
    · refine (history.preceded_append _ _).mpr ⟨hanswers.waits,
        (history.preceded_cons _ _).mpr ⟨fun _ => ?_, history.preceded_of_forall_not _ (by simp)⟩⟩
      simpa [hnil] using hlinked
  · rw [if_neg hnil] at hreply
    rw [hreply.1, hreply.2]
    refine ⟨?_, ?_, ?_⟩
    · rw [received_append, kept_append, ← hlinked]
      simp only [received, kept, List.flatMap_cons, List.flatMap_nil, List.append_nil,
        Int.toNat_natCast, List.take_length, List.append_assoc, List.take_append_drop]
    · intro waiting size answer buf hmem
      obtain hmem | hmem := List.mem_append.mp hmem
      · exact hanswers.sound waiting size answer buf hmem
      · cases List.mem_singleton.mp hmem
        intro hsize
        have hpos := List.length_pos_iff.mpr hnil
        refine .inr ⟨_, rfl, ?_, ?_, rfl⟩
        · rw [List.length_take]
          omega
        · rw [List.length_take]
          omega
    · refine (history.preceded_append _ _).mpr ⟨hanswers.waits, history.preceded_of_forall_not _ ?_⟩
      simp

theorem Device.Streaming.send {base : List Event} {d : Device} (h : d.Streaming base) (u : Usb)
    (sz : Int) : (EmbedSend u d sz).2.Streaming base := by
  unfold EmbedSend
  split
  · exact h.of_eq rfl rfl
  · have htick : d.tick.Streaming base := h.of_eq rfl rfl
    have hpoll := htick.poll u
    dsimp only
    split <;> exact hpoll.of_eq rfl rfl

theorem Device.Streaming.kept (u : Usb) (base : List Event) : Kept u (Device.Streaming base) := by
  refine ⟨fun d h => h.poll u, ?_, fun c d h => h.of_eq rfl rfl, fun text d h => h.of_eq rfl rfl⟩
  intro c d h
  cases c with
  | recv sz => exact h.receive u sz
  | send buf => exact h.send u buf.length

theorem load_client_trace (w : WolfSSL σ) (d : Device) : (load_client w d).2.trace = d.trace := by
  unfold load_client
  dsimp only
  split_ifs <;> simp

/-- The setup is unseen up to its reset of the ring, which starts a new stream. -/
theorem tls_pqc_setup_streaming (w : WolfSSL σ) (d : Device) :
    match (tls_pqc_setup w d).1 with
    | some _ => (tls_pqc_setup w d).2.trace = d.trace
    | none => (tls_pqc_setup w d).2.Streaming (d.trace ++ [.session_reset]) := by
  unfold tls_pqc_setup
  dsimp only
  by_cases hctx : w.CTX_new = true
  · simp only [hctx, Bool.not_true, Bool.false_eq_true, if_false]
    generalize hload : load_client w _ = result
    have hresult : result.2.trace = d.trace := by
      rw [← hload, load_client_trace]
      simp
    by_cases hloaded : result.1 = true
    · by_cases hnew : w.new = true
      · by_cases hcks : w.UseCKS = 0
        · simp [hloaded, hnew, hcks, hresult]
        · simp only [hloaded, hnew, hcks, Bool.not_true, Bool.false_eq_true, if_false]
          refine ⟨[], ?_, RingBuffer.valid_reset _, by simp, ?_, by simp, ?_⟩
          · simp [hresult]
          · simp [received, kept]
          · exact history.preceded_of_forall_not _ (by simp)
      · simp [hloaded, hnew, hresult]
    · simp [hloaded, hresult]
  · simp [hctx]

/-- Polls add arrivals to the trace and nothing else. -/
theorem usb_device_polls_trace (u : Usb) (count : Nat) (d : Device) :
    ∃ more, (usb_device_polls u count d).trace = d.trace ++ more ∧
      ∀ e ∈ more, e.isArrival = true := by
  induction count generalizing d with
  | zero => exact ⟨[], by simp [usb_device_polls], by simp⟩
  | succ count ih =>
    obtain ⟨more, htrace, hmore⟩ := ih (usb_device_task u d)
    rw [usb_device_polls]
    obtain ⟨-, heq⟩ | ⟨buf, -, -, heq⟩ | ⟨buf, console, -, -, heq⟩ := usb_device_task_cases u d
    · exact ⟨more, by rw [htrace, heq]; rfl, hmore⟩
    · refine ⟨.to_ring buf (RB_Write_loop d.rxRing 0 buf).2 :: more, ?_, ?_⟩
      · rw [htrace, heq]
        simp [tls_pqc_usb_rx_handler]
      · simpa [Event.isArrival] using hmore
    · refine ⟨.to_stream buf (tty.usb_rx_command d.stream buf).2 :: more, ?_, ?_⟩
      · rw [htrace, heq]
        simp
      · simpa [Event.isArrival] using hmore

theorem cleanup_tls_resources_trace (u : Usb) (ssl ctx : Bool) (d : Device) :
    ∃ more, (cleanup_tls_resources u ssl ctx d).trace = d.trace ++ more ∧
      ∀ e ∈ more, e.isArrival = true := by
  obtain ⟨first, hfirst, hfirst_kind⟩ := usb_device_polls_trace u 5 (release_objects ssl ctx d)
  obtain ⟨second, hsecond, hsecond_kind⟩ := usb_device_polls_trace u 10
    (debug_printf { usb_device_polls u 5 (release_objects ssl ctx d) with tls_active := false }
      "TLS task completed, ready for next command")
  refine ⟨first ++ second, ?_, ?_⟩
  · unfold cleanup_tls_resources
    rw [hsecond, debug_printf_trace]
    simp only [hfirst, (release_objects_frame ssl ctx d).1, List.append_assoc]
  · intro e he
    obtain he | he := List.mem_append.mp he
    · exact hfirst_kind e he
    · exact hsecond_kind e he

/-- A stream followed by arrivals is isolated, whatever becomes of the ring. -/
theorem isolated_of_streaming {base evs more : List Event} {d : Device}
    (h : d.Streaming (base ++ [.session_reset])) (hmore : ∀ e ∈ more, e.isArrival = true)
    (hevs : d.trace ++ more = base ++ evs) : Isolated evs := by
  obtain ⟨stream, hstream, -, hreset, hlinked, hanswers⟩ := h
  have heq : evs = .session_reset :: (stream ++ more) := by
    rw [hstream] at hevs
    simpa using hevs.symm
  have hprefix : received (stream ++ more) <+: kept (stream ++ more) := by
    rw [received_append, kept_append, received_of_arrivals hmore, ← hlinked, List.append_nil,
      List.append_assoc]
    exact List.prefix_append _ _
  refine .inr ⟨stream ++ more, heq, ?_, hprefix, ?_, hanswers.append_arrivals hmore⟩
  · intro hmem
    obtain hmem | hmem := List.mem_append.mp hmem
    · exact hreset hmem
    · simpa [Event.isArrival] using hmore _ hmem
  · intro hlossless
    rwa [← kept_of_lossless hlossless]

/-- The events of one session, from whatever state it starts in. -/
theorem Session.isolated (u : Usb) (s : Session σ) : Isolated (s.events u) := by
  obtain ⟨d, w, turns⟩ := s
  have htask : ∃ evs, (tls_pqc_task u w turns d).2.trace = d.trace ++ evs ∧ Isolated evs := by
    have hsetup := tls_pqc_setup_streaming w d
    unfold tls_pqc_task tls_pqc_body
    generalize tls_pqc_setup w d = setup at hsetup ⊢
    obtain ⟨stop, d₀⟩ := setup
    cases stop with
    | some pointers =>
      obtain ⟨more, hmore, hkind⟩ := cleanup_tls_resources_trace u pointers.1 pointers.2 d₀
      exact ⟨more, by rw [← hsetup]; exact hmore, .inl hkind⟩
    | none =>
      dsimp only at hsetup ⊢
      have hloop := (Device.Streaming.kept u _).handshake_loop w turns w.start hsetup
      generalize handshake_loop u w turns w.start d₀ = finish at hloop ⊢
      obtain ⟨stage, d₁⟩ := finish
      -- Where the task goes on to the cleanup, the arrivals there come on top.
      have hend : ∀ d₂ : Device, d₂.Streaming (d.trace ++ [.session_reset]) → ∀ more,
          (∀ e ∈ more, e.isArrival = true) → ∃ evs, d₂.trace ++ more = d.trace ++ evs ∧ Isolated evs := by
        intro d₂ hd₂ more hmore
        obtain ⟨stream, hstream, -⟩ := id hd₂
        have hevs : d₂.trace ++ more = d.trace ++ ([.session_reset] ++ stream ++ more) := by
          rw [hstream]
          simp
        exact ⟨_, hevs, isolated_of_streaming hd₂ hmore hevs⟩
      cases stage with
      | looping next =>
        obtain ⟨evs, hevs, hisolated⟩ := hend d₁ hloop [] (by simp)
        exact ⟨evs, by simpa using hevs, hisolated⟩
      | cleanup ssl ctx =>
        obtain ⟨more, hmore, hkind⟩ := cleanup_tls_resources_trace u ssl ctx d₁
        obtain ⟨evs, hevs, hisolated⟩ := hend d₁ hloop more hkind
        exact ⟨evs, by rw [← hevs]; exact hmore, hisolated⟩
      | connected next =>
        have hafter := (Device.Streaming.kept u _).after_handshake w next hloop
        obtain ⟨more, hmore, hkind⟩ :=
          cleanup_tls_resources_trace u true true (after_handshake u w next d₁)
        obtain ⟨evs, hevs, hisolated⟩ := hend _ hafter more hkind
        exact ⟨evs, by rw [← hevs]; exact hmore, hisolated⟩
  obtain ⟨evs, hevs, hisolated⟩ := htask
  simpa [Session.events, hevs] using hisolated

/-- The reads on record, each with its answer and the bytes stored. -/
def answers (evs : List Event) : List (Int × Cbio × List UInt8) :=
  evs.filterMap fun
    | .embed_receive _ sz answer buf => some (sz, answer, buf)
    | _ => none

/-- The reads that wolfSSL has made, with the replies it got. -/
def replies (calls : List (Callback × Cbio × List UInt8)) : List (Int × Cbio × List UInt8) :=
  calls.filterMap fun
    | (.recv sz, answer, buf) => some (sz, answer, buf)
    | (.send _, _) => none

theorem answers_append (evs more : List Event) : answers (evs ++ more) = answers evs ++ answers more :=
  List.filterMap_append ..

theorem answers_of_arrivals {evs : List Event} (h : ∀ e ∈ evs, e.isArrival = true) : answers evs = [] := by
  rw [answers, List.filterMap_eq_nil_iff]
  intro e he
  have := h e he
  cases e <;> first | rfl | simp [Event.isArrival] at this

theorem EmbedSend_trace (u : Usb) (d : Device) (sz : Int) :
    ∃ more, (EmbedSend u d sz).2.trace = d.trace ++ more ∧ ∀ e ∈ more, e.isArrival = true := by
  obtain ⟨more, htrace, hmore⟩ := usb_device_polls_trace u 1 d.tick
  unfold EmbedSend
  split
  · exact ⟨[], (List.append_nil _).symm, by simp⟩
  · dsimp only
    split <;> exact ⟨more, htrace, hmore⟩

/-- One callback adds to the record the read that it is, if it is one. -/
theorem handle_answers (u : Usb) (c : Callback) (d : Device) :
    ∃ more, (handle u c d).2.trace = d.trace ++ more ∧ answers more = replies [(c, (handle u c d).1)] := by
  cases c with
  | recv sz =>
    obtain ⟨-, -, htrace, -⟩ := EmbedReceive_frame d sz
    exact ⟨_, congrArg (· ++ _) htrace, rfl⟩
  | send buf =>
    obtain ⟨more, htrace, hmore⟩ := EmbedSend_trace u d buf.length
    exact ⟨more, htrace, answers_of_arrivals hmore⟩

/-- Whatever wolfSSL computes, the record of its reads is what it has been told. -/
theorem run_answers {Result : Type} (u : Usb) (t : Io Result) (d : Device) :
    ∃ more, (t.run (handle u) d).2.trace = d.trace ++ more ∧
      answers more = replies (t.calls (handle u) d) := by
  induction t generalizing d with
  | done result => exact ⟨[], (List.append_nil _).symm, rfl⟩
  | call c rest ih =>
    obtain ⟨first, hfirst, hanswer⟩ := handle_answers u c d
    obtain ⟨more, hmore, hanswers⟩ := ih (handle u c d).1 (handle u c d).2
    refine ⟨first ++ more, ?_, ?_⟩
    · rw [interaction.Tree.run_call, hmore, hfirst, List.append_assoc]
    · rw [answers_append, hanswer, hanswers, interaction.Tree.calls]
      exact (List.filterMap_append (l := [(c, (handle u c d).1)])).symm

/-- In every run from power on, with packets wherever they arrive, each session
    receives a prefix of what has come in since its own reset of the ring. What is
    on record as received is what wolfSSL has been given in reply to its reads. -/
theorem sessions_isolated (u : Usb) (ring stream : Nat → UInt8) (actions : List (Action σ)) :
    (∀ s ∈ sessions u (Device.power_on ring stream) actions, Isolated (s.events u)) ∧
      ∀ (t : Io (Int × σ)) (d : Device), ∃ more, (t.run (handle u) d).2.trace = d.trace ++ more ∧
        answers more = replies (t.calls (handle u) d) :=
  ⟨fun s _ => s.isolated u, fun t d => run_answers u t d⟩

/-- A session that reads from the ring before it connects, with packets in plenty. -/
theorem sessions_isolated_reading :
    let u : Usb := ⟨fun _ => true, fun _ => some [0x16, 0x03, 0x03], fun _ => true⟩
    let w := sample 1 1 () (fun _ => .call (.recv 2) fun _ => .done (1, ())) (fun _ _ => .other 0)
    (∀ s ∈ sessions u (Device.power_on (fun _ => 0) (fun _ => 0)) [.session w 1],
      Isolated (s.events u)) ∧
      ∀ (t : Io (Int × Unit)) (d : Device), ∃ more, (t.run (handle u) d).2.trace = d.trace ++ more ∧
        answers more = replies (t.calls (handle u) d) :=
  sessions_isolated _ (fun _ => 0) (fun _ => 0) _

end keychain.tls
