import Keychain.Tls.RingBuffer.Read
import Keychain.Tls.Task

namespace keychain.tls

variable {σ : Type}

/-- A property of the device that a poll, a callback, a call into wolfSSL and a
    line on the console all preserve. -/
structure Kept (u : Usb) (Inv : Device → Prop) : Prop where
  poll : ∀ d, Inv d → Inv (usb_device_task u d)
  callback : ∀ c d, Inv d → Inv (handle u c d).2
  call : ∀ c d, Inv d → Inv (d.call c)
  print : ∀ text d, Inv d → Inv (debug_printf d text)

variable {u : Usb} {Inv : Device → Prop}

/-- Sending is a poll between two ticks at most. -/
theorem Kept.of_receive (hpoll : ∀ d, Inv d → Inv (usb_device_task u d))
    (hreceive : ∀ sz d, Inv d → Inv (handle u (.recv sz) d).2) (htick : ∀ d, Inv d → Inv d.tick)
    (hcall : ∀ c d, Inv d → Inv (d.call c)) (hprint : ∀ text d, Inv d → Inv (debug_printf d text)) :
    Kept u Inv := by
  refine ⟨hpoll, ?_, hcall, hprint⟩
  intro c d h
  cases c with
  | recv sz => exact hreceive sz d h
  | send buf =>
    simp only [handle, EmbedSend]
    split
    · exact htick d h
    · have hpolled := hpoll d.tick (htick d h)
      split <;> exact htick _ hpolled

theorem EmbedReceive_frame (d : Device) (sz : Int) :
    (EmbedReceive d sz).2.stream = d.stream ∧ (EmbedReceive d sz).2.now = d.now ∧
      (EmbedReceive d sz).2.trace = d.trace ∧ (EmbedReceive d sz).2.tls_active = d.tls_active := by
  simp only [EmbedReceive, report_overflow]
  split <;> split <;> exact ⟨rfl, rfl, rfl, rfl⟩

/-- `EmbedReceive` takes its bytes from the front of what waits, or finds the ring
    empty and leaves it so. -/
theorem EmbedReceive_spec {d : Device} (h : d.rxRing.Valid) (sz : Int) :
    (EmbedReceive d sz).2.rxRing.Valid ∧
      if d.rxRing.queue = [] then
        (EmbedReceive d sz).1 = (.want_read, []) ∧ (EmbedReceive d sz).2.rxRing.queue = []
      else
        (EmbedReceive d sz).1 =
            (.count (d.rxRing.queue.take sz.toNat).length, d.rxRing.queue.take sz.toNat) ∧
          (EmbedReceive d sz).2.rxRing.queue = d.rxRing.queue.drop sz.toNat := by
  have hreport : (report_overflow d).rxRing.Valid ∧
      (report_overflow d).rxRing.queue = d.rxRing.queue := by
    unfold report_overflow
    split
    · exact ⟨⟨h.head_lt, h.tail_lt, by simp⟩, rfl⟩
    · exact ⟨h, rfl⟩
  obtain ⟨hvalid, hqueue⟩ := hreport
  unfold EmbedReceive
  dsimp only
  generalize report_overflow d = d' at hvalid hqueue ⊢
  rw [← hqueue]
  by_cases hempty : RB_IsEmpty d'.rxRing = true
  · have hnil := (RB_IsEmpty_iff hvalid).mp hempty
    rw [if_pos hempty, if_pos hnil]
    exact ⟨hvalid, rfl, hnil⟩
  · have hne : d'.rxRing.queue ≠ [] := fun hnil => hempty ((RB_IsEmpty_iff hvalid).mpr hnil)
    rw [if_neg hempty, if_neg hne]
    refine ⟨RB_Read_valid hvalid sz, ?_, RB_Read_queue hvalid sz⟩
    rw [RB_Read_bytes hvalid]

theorem Kept.run {Result : Type} (h : Kept u Inv) (t : Io Result) {d : Device} (hd : Inv d) :
    Inv (t.run (handle u) d).2 :=
  t.run_invariant (handle u) Inv h.callback hd

theorem Kept.polls (h : Kept u Inv) (count : Nat) {d : Device} (hd : Inv d) :
    Inv (usb_device_polls u count d) := by
  induction count generalizing d with
  | zero => exact hd
  | succ count ih => exact ih (h.poll d hd)

theorem Kept.load_client (h : Kept u Inv) (w : WolfSSL σ) {d : Device} (hd : Inv d) :
    Inv (load_client w d).2 := by
  unfold tls.load_client
  dsimp only
  split
  · exact h.print _ _ (h.call _ _ hd)
  have hcert := h.print "Client certificate loaded successfully" _
    (h.call (.CTX_use_certificate_buffer w.use_certificate) _ hd)
  split
  · exact h.print _ _ (h.call _ _ hcert)
  have hkey := h.print "Client ECC key loaded successfully" _
    (h.call (.CTX_use_PrivateKey_buffer w.use_PrivateKey) _ hcert)
  have hasn1 := h.call (.CTX_use_AltPrivateKey_buffer .asn1 (w.use_AltPrivateKey .asn1)) _ hkey
  split
  · split <;> exact h.print _ _ (h.call _ _ hasn1)
  · exact h.print _ _ hasn1

theorem Kept.handshake_turn (h : Kept u Inv) (w : WolfSSL σ) (s : σ) {d : Device} (hd : Inv d) :
    Inv (handshake_turn u w s d).2 := by
  have hattempt := h.run (w.connect s) hd
  unfold tls.handshake_turn
  generalize (w.connect s).run (handle u) d = attempt at hattempt ⊢
  have hret := h.call (.connect attempt.1.1) _ hattempt
  have herr := h.call .get_error _ hret
  dsimp only
  split
  · exact hret
  · split
    · apply h.poll
      split
      · exact h.print _ _ herr
      · exact herr
    · exact h.print _ _ (h.call _ _ herr)

theorem Kept.handshake_loop (h : Kept u Inv) (w : WolfSSL σ) (turns : Nat) (s : σ) {d : Device}
    (hd : Inv d) : Inv (handshake_loop u w turns s d).2 := by
  induction turns generalizing s d with
  | zero => exact hd
  | succ turns ih =>
    have hturn := h.handshake_turn w s hd
    rw [tls.handshake_loop]
    generalize tls.handshake_turn u w s d = turn at hturn ⊢
    obtain ⟨stage, d'⟩ := turn
    cases stage with
    | looping next => exact ih next hturn
    | connected next => exact hturn
    | cleanup ssl ctx => exact hturn

theorem Kept.send_hello (h : Kept u Inv) (w : WolfSSL σ) (s : σ) {d : Device} (hd : Inv d) :
    Inv (send_hello u w s d) := by
  unfold tls.send_hello
  dsimp only
  generalize "hello".toList.map Char.toUInt8 = msg
  have hwrite := h.run (w.write s msg) (h.print ("TLS Handshake Complete! Cipher: " ++ w.get_cipher s) _
    (h.call .get_cipher _ hd))
  generalize (w.write s msg).run (handle u) _ = attempt at hwrite ⊢
  have hret := h.call (.write msg attempt.1.1) _ hwrite
  refine h.call _ _ (h.run _ (h.print _ _ ?_))
  split
  · exact h.print _ _ (h.call _ _ hret)
  · exact h.print _ _ hret

theorem Kept.after_handshake (h : Kept u Inv) (w : WolfSSL σ) (s : σ) {d : Device} (hd : Inv d) :
    Inv (after_handshake u w s d) := by
  have hspec := h.call (.peerSigSpec (w.peerSigSpec s) (w.peerSigSpecSz s)) _ hd
  unfold tls.after_handshake
  dsimp only
  split
  · exact h.print _ _ hspec
  · split
    · split
      · exact h.print _ _ hspec
      · exact h.send_hello w s hspec
    · exact h.print _ _ hspec

/-- The setup raises the flag first and may end with the reset of the ring. -/
theorem Kept.setup (h : Kept u Inv)
    (hreset : ∀ d, Inv d → Inv ({ d with rxRing := d.rxRing.reset : Device }.emit .session_reset))
    (w : WolfSSL σ) {d : Device} (hd : Inv { d with tls_active := true }) :
    Inv (tls_pqc_setup w d).2 := by
  have hctx := h.call (.CTX_new w.CTX_new) _ (h.print ("TLS PQC task starting. RB Size: " ++
    toString RING_BUF_SIZE) _ (h.call (.Init w.Init) _ hd))
  have hload := h.load_client w
    (h.call .CTX_SetIOSend _ (h.call .CTX_SetIORecv _ (h.call .CTX_set_verify _ hctx)))
  unfold tls_pqc_setup
  dsimp only
  split
  · exact h.print _ _ hctx
  split
  · exact hload
  have hnew := h.call (.new w.new) _ hload
  split
  · exact h.print _ _ hnew
  have hcks := h.call (.UseCKS w.UseCKS) _ hnew
  split
  · exact h.print _ _ hcks
  · exact h.print _ _ (hreset _ (h.call _ _ hcks))

theorem Kept.body (h : Kept u Inv)
    (hreset : ∀ d, Inv d → Inv ({ d with rxRing := d.rxRing.reset : Device }.emit .session_reset))
    (w : WolfSSL σ) (turns : Nat) {d : Device} (hd : Inv { d with tls_active := true }) :
    Inv (tls_pqc_body u w turns d).2 := by
  have hsetup := h.setup hreset w hd
  unfold tls_pqc_body
  generalize tls_pqc_setup w d = setup at hsetup ⊢
  obtain ⟨stop, d₀⟩ := setup
  cases stop with
  | some pointers => exact hsetup
  | none =>
    have hloop := h.handshake_loop w turns w.start hsetup
    dsimp only at hloop ⊢
    generalize tls.handshake_loop u w turns w.start d₀ = finish at hloop ⊢
    obtain ⟨stage, d₁⟩ := finish
    cases stage with
    | looping next => exact hloop
    | connected next => exact h.after_handshake w next hloop
    | cleanup ssl ctx => exact hloop

end keychain.tls
