import Keychain.Library.History
import Keychain.Tls.Task

namespace keychain.tls

variable {σ : Type}

def Call.isWrite : Call → Bool
  | .write _ _ => true
  | _ => false

def Call.releases : Call → Bool
  | .cleanup | .free | .CTX_free => true
  | _ => false

/-- The calls of the handshake loop and of what follows it, up to `cleanup`. -/
def Call.inSession : Call → Bool
  | .connect _ | .get_error | .ERR_error_string | .peerSigSpec _ _ | .get_cipher | .write _ _
  | .shutdown => true
  | _ => false

/-- The calls that are given the SSL object, or read one of its fields. -/
def Call.usesSSL : Call → Bool
  | .UseCKS _ | .SetIOReadCtx | .connect _ | .get_error | .peerSigSpec _ _ | .get_cipher
  | .write _ _ | .shutdown | .free => true
  | _ => false

/-- The calls that are given the context. -/
def Call.usesCTX : Call → Bool
  | .CTX_set_verify | .CTX_SetIORecv | .CTX_SetIOSend | .CTX_use_certificate_buffer _
  | .CTX_use_PrivateKey_buffer _ | .CTX_use_AltPrivateKey_buffer _ _ | .new _ | .CTX_free => true
  | _ => false

/-- Application data goes out at most once, and only after a connection to a
    peer that is known to have signed with both algorithms. -/
structure HybridWrites (both : UInt8) (cs : List Call) : Prop where
  once : cs.countP Call.isWrite ≤ 1
  authorized : history.Preceded (fun c => c.isWrite = true)
    (fun before => .connect WOLFSSL_SUCCESS ∈ before ∧
      ∃ size, 0 < size ∧ .peerSigSpec (some both) size ∈ before) cs

/-- One cleanup, which frees each object that was created, once and for good,
    the SSL object before its context. -/
structure Released (cs : List Call) : Prop where
  cleanup_once : cs.count .cleanup = 1
  free_count : cs.count .free = if .new true ∈ cs then 1 else 0
  CTX_free_count : cs.count .CTX_free = if .CTX_new true ∈ cs then 1 else 0
  ssl_unused : history.Followed (· = .free) (fun later => later.usesSSL = false) cs
  ctx_unused : history.Followed (· = .CTX_free)
    (fun later => later.usesCTX = false ∧ later ≠ .free) cs

/-- The two pointers at the label `cleanup` tell what has been created, and
    nothing has been released there. -/
structure Acquired (ssl ctx : Bool) (cs : List Call) : Prop where
  new_mem : .new true ∈ cs ↔ ssl = true
  CTX_new_mem : .CTX_new true ∈ cs ↔ ctx = true
  unreleased : ∀ c ∈ cs, c.releases = false

/-- The results with which the setup gets to the handshake loop. -/
def WolfSSL.Configured (w : WolfSSL σ) : Prop :=
  w.CTX_new = true ∧ w.use_certificate = WOLFSSL_SUCCESS ∧ w.use_PrivateKey = WOLFSSL_SUCCESS ∧
    (w.use_AltPrivateKey .asn1 = WOLFSSL_SUCCESS ∨ w.use_AltPrivateKey .pem = WOLFSSL_SUCCESS) ∧
    w.new = true ∧ w.UseCKS ≠ 0

instance (w : WolfSSL σ) : Decidable w.Configured :=
  inferInstanceAs (Decidable (_ ∧ _))

theorem HybridWrites.of_no_write (both : UInt8) {cs : List Call} (h : ∀ c ∈ cs, c.isWrite = false) :
    HybridWrites both cs := by
  refine ⟨?_, history.preceded_of_forall_not _ fun c hc => by simp [h c hc]⟩
  rw [List.countP_eq_zero.mpr fun c hc => by simp [h c hc]]
  exact Nat.zero_le 1

theorem HybridWrites.append_no_write {both : UInt8} {cs more : List Call} (h : HybridWrites both cs)
    (hmore : ∀ c ∈ more, c.isWrite = false) : HybridWrites both (cs ++ more) := by
  refine ⟨?_, (history.preceded_append cs more).mpr
    ⟨h.authorized, history.preceded_of_forall_not _ fun c hc => by simp [hmore c hc]⟩⟩
  have hnone : more.countP Call.isWrite = 0 :=
    List.countP_eq_zero.mpr fun c hc => by simp [hmore c hc]
  rw [List.countP_append, hnone]
  exact h.once

/-- The one write of a session, with what has to stand before it. -/
theorem HybridWrites.write {both : UInt8} {before : List Call} {size : Nat} (msg : List UInt8)
    (ret : Int) (hbefore : ∀ c ∈ before, c.isWrite = false)
    (hconnect : .connect WOLFSSL_SUCCESS ∈ before) (hsize : 0 < size)
    (hspec : .peerSigSpec (some both) size ∈ before) :
    HybridWrites both (before ++ [.write msg ret]) := by
  constructor
  · rw [List.countP_append, List.countP_eq_zero.mpr fun c hc => by simp [hbefore c hc]]
    exact Nat.le_of_eq rfl
  · refine (history.preceded_append _ _).mpr
      ⟨history.preceded_of_forall_not _ fun c hc => by simp [hbefore c hc], ?_⟩
    refine (history.preceded_cons _ _).mpr ⟨fun _ => ?_, history.preceded_of_forall_not _ (by simp)⟩
    simp only [List.append_nil]
    exact ⟨hconnect, size, hsize, hspec⟩

theorem Acquired.append {ssl ctx : Bool} {cs more : List Call} (h : Acquired ssl ctx cs)
    (hmore : ∀ c ∈ more, c.inSession = true) : Acquired ssl ctx (cs ++ more) := by
  have hnot : ∀ c : Call, c.inSession = false → c ∉ more := by
    intro c hc hmem
    simp [hmore c hmem] at hc
  refine ⟨?_, ?_, ?_⟩
  · simp [h.new_mem, hnot (.new true) rfl]
  · simp [h.CTX_new_mem, hnot (.CTX_new true) rfl]
  · intro c hc
    obtain hc | hc := List.mem_append.mp hc
    · exact h.unreleased c hc
    · have := hmore c hc
      cases c <;> first | rfl | simp [Call.inSession] at this

/-- The calls that load the key files. -/
def Call.loads : Call → Bool
  | .CTX_use_certificate_buffer _ | .CTX_use_PrivateKey_buffer _
  | .CTX_use_AltPrivateKey_buffer _ _ => true
  | _ => false

/-- The loaders make loading calls only, and their flag says that each file was
    loaded, the last one in one of its two formats. -/
theorem load_client_calls (w : WolfSSL σ) (d : Device) :
    ∃ cs, (load_client w d).2.calls = d.calls ++ cs ∧ (∀ c ∈ cs, c.loads = true) ∧
      ((load_client w d).1 = true ↔
        w.use_certificate = WOLFSSL_SUCCESS ∧ w.use_PrivateKey = WOLFSSL_SUCCESS ∧
          (w.use_AltPrivateKey .asn1 = WOLFSSL_SUCCESS ∨
            w.use_AltPrivateKey .pem = WOLFSSL_SUCCESS)) := by
  by_cases hcert : w.use_certificate = WOLFSSL_SUCCESS
  · by_cases hkey : w.use_PrivateKey = WOLFSSL_SUCCESS
    · by_cases hasn1 : w.use_AltPrivateKey .asn1 = WOLFSSL_SUCCESS
      · refine ⟨[.CTX_use_certificate_buffer WOLFSSL_SUCCESS, .CTX_use_PrivateKey_buffer WOLFSSL_SUCCESS,
          .CTX_use_AltPrivateKey_buffer .asn1 WOLFSSL_SUCCESS], ?_, ?_, ?_⟩
        · simp [load_client, hcert, hkey, hasn1]
        · simp [Call.loads]
        · simp [load_client, hcert, hkey, hasn1]
      · refine ⟨[.CTX_use_certificate_buffer WOLFSSL_SUCCESS, .CTX_use_PrivateKey_buffer WOLFSSL_SUCCESS,
          .CTX_use_AltPrivateKey_buffer .asn1 (w.use_AltPrivateKey .asn1),
          .CTX_use_AltPrivateKey_buffer .pem (w.use_AltPrivateKey .pem)], ?_, ?_, ?_⟩
        · by_cases hpem : w.use_AltPrivateKey .pem = WOLFSSL_SUCCESS <;>
            simp [load_client, hcert, hkey, hasn1, hpem]
        · simp [Call.loads]
        · by_cases hpem : w.use_AltPrivateKey .pem = WOLFSSL_SUCCESS <;>
            simp [load_client, hcert, hkey, hasn1, hpem]
    · refine ⟨[.CTX_use_certificate_buffer WOLFSSL_SUCCESS,
        .CTX_use_PrivateKey_buffer w.use_PrivateKey], ?_, ?_, ?_⟩
      · simp [load_client, hcert, hkey]
      · simp [Call.loads]
      · simp [load_client, hcert, hkey]
  · refine ⟨[.CTX_use_certificate_buffer w.use_certificate], ?_, ?_, ?_⟩
    · simp [load_client, hcert]
    · simp [Call.loads]
    · simp [load_client, hcert]

/-- The calls that open every setup whose context could be created. -/
def WolfSSL.opening (w : WolfSSL σ) : List Call :=
  [.Init w.Init, .CTX_new true, .CTX_set_verify, .CTX_SetIORecv, .CTX_SetIOSend]

/-- What the opening, the loaders and up to three more calls of the setup leave
    behind: no write, no release, a context, and an SSL object if `new` made one. -/
theorem WolfSSL.acquired_of_loads (w : WolfSSL σ) (ssl : Bool) (rest : List Call) {files : List Call}
    (hfiles : ∀ c ∈ files, c.loads = true) (hrest : .new true ∈ rest ↔ ssl = true)
    (hmore : ∀ c ∈ rest, c.isWrite = false ∧ c.inSession = false ∧ c.releases = false) :
    (∀ c ∈ w.opening ++ files ++ rest, c.isWrite = false ∧ c.inSession = false) ∧
      Acquired ssl true (w.opening ++ files ++ rest) := by
  have hfile : ∀ c ∈ files, c.isWrite = false ∧ c.inSession = false ∧ c.releases = false := by
    intro c hc
    have := hfiles c hc
    cases c <;> first | exact ⟨rfl, rfl, rfl⟩ | simp [Call.loads] at this
  have hopening : ∀ c ∈ w.opening, c.isWrite = false ∧ c.inSession = false ∧ c.releases = false := by
    simp [WolfSSL.opening, Call.isWrite, Call.inSession, Call.releases]
  have hall : ∀ c ∈ w.opening ++ files ++ rest,
      c.isWrite = false ∧ c.inSession = false ∧ c.releases = false := by
    intro c hc
    simp only [List.mem_append] at hc
    obtain (hc | hc) | hc := hc
    · exact hopening c hc
    · exact hfile c hc
    · exact hmore c hc
  have hnew : .new true ∉ files := fun hmem => by simpa [Call.loads] using hfiles _ hmem
  refine ⟨fun c hc => ⟨(hall c hc).1, (hall c hc).2.1⟩, ?_, ?_, fun c hc => (hall c hc).2.2⟩
  · simp [WolfSSL.opening, hnew, hrest]
  · simp [WolfSSL.opening]

/-- Each way through the setup makes calls of its own, never a write or a
    release; it gets to the handshake exactly when the checked results allow it. -/
theorem tls_pqc_setup_calls (w : WolfSSL σ) (d : Device) :
    ∃ cs, (tls_pqc_setup w d).2.calls = d.calls ++ cs ∧
      (∀ c ∈ cs, c.isWrite = false ∧ c.inSession = false) ∧
      match (tls_pqc_setup w d).1 with
      | some (ssl, ctx) => Acquired ssl ctx cs ∧ ¬ w.Configured
      | none => Acquired true true cs ∧ w.Configured := by
  cases hctx : w.CTX_new with
  | false =>
    refine ⟨[.Init w.Init, .CTX_new false], ?_, ?_, ?_⟩
    · simp [tls_pqc_setup, hctx]
    · simp [Call.isWrite, Call.inSession]
    · simp only [tls_pqc_setup, hctx, Bool.not_false, if_true]
      exact ⟨⟨by simp, by simp, by simp [Call.releases]⟩, by simp [WolfSSL.Configured, hctx]⟩
  | true =>
    unfold tls_pqc_setup
    simp only [hctx, Bool.not_true, Bool.false_eq_true, if_false]
    generalize hload : load_client w _ = result
    obtain ⟨files, hcalls, hfiles, hflag⟩ := load_client_calls w _
    rw [hload] at hcalls hflag
    obtain ⟨loaded, loaded_device⟩ := result
    have hbase : loaded_device.calls = d.calls ++ (w.opening ++ files) := by
      rw [hcalls]
      simp [WolfSSL.opening]
    cases loaded with
    | false =>
      obtain ⟨hquiet, hacquired⟩ := w.acquired_of_loads false [] hfiles (by simp) (by simp)
      have hunloaded : ¬ w.Configured := fun h => by
        simpa using hflag.mpr ⟨h.2.1, h.2.2.1, h.2.2.2.1⟩
      exact ⟨_, by simp [hbase], hquiet, hacquired, hunloaded⟩
    | true =>
      have hfiles_loaded := hflag.mp rfl
      cases hnew : w.new with
      | false =>
        obtain ⟨hquiet, hacquired⟩ := w.acquired_of_loads false [.new false] hfiles (by simp)
          (by simp [Call.isWrite, Call.inSession, Call.releases])
        exact ⟨_, by simp [hbase], hquiet, hacquired, by simp [WolfSSL.Configured, hnew]⟩
      | true =>
        by_cases hcks : w.UseCKS = 0
        · obtain ⟨hquiet, hacquired⟩ := w.acquired_of_loads true [.new true, .UseCKS 0] hfiles
            (by simp) (by simp [Call.isWrite, Call.inSession, Call.releases])
          simp only [hcks, if_true, Bool.not_true, Bool.false_eq_true, if_false]
          exact ⟨_, by simp [hbase], hquiet, hacquired, by simp [WolfSSL.Configured, hcks]⟩
        · obtain ⟨hquiet, hacquired⟩ := w.acquired_of_loads true
            [.new true, .UseCKS w.UseCKS, .SetIOReadCtx] hfiles (by simp)
            (by simp [Call.isWrite, Call.inSession, Call.releases])
          simp only [hcks, if_false, Bool.not_true, Bool.false_eq_true]
          exact ⟨_, by simp [hbase], hquiet, hacquired, hctx, hfiles_loaded.1, hfiles_loaded.2.1,
            hfiles_loaded.2.2, hnew, hcks⟩

/-- Only a successful attempt ends the loop as connected, and the loop leaves
    for `cleanup` with both objects. -/
def Stage.Backed (cs : List Call) : Stage σ → Prop
  | .looping _ => True
  | .connected _ => .connect WOLFSSL_SUCCESS ∈ cs
  | .cleanup ssl ctx => ssl = true ∧ ctx = true

theorem Stage.Backed.append_left {stage : Stage σ} {rest : List Call} (h : stage.Backed rest)
    (cs : List Call) : stage.Backed (cs ++ rest) := by
  cases stage with
  | looping _ => trivial
  | connected _ => exact List.mem_append_right cs h
  | cleanup _ _ => exact h

/-- One turn of the handshake loop begins with an attempt to connect and makes
    no write. -/
theorem handshake_turn_calls (u : Usb) (w : WolfSSL σ) (s : σ) (d : Device) :
    ∃ cs, (handshake_turn u w s d).2.calls = d.calls ++ cs ∧
      (∀ c ∈ cs, c.inSession = true ∧ c.isWrite = false) ∧ (∃ ret, .connect ret ∈ cs) ∧
      (handshake_turn u w s d).1.Backed cs := by
  unfold handshake_turn
  generalize hattempt : (w.connect s).run (handle u) d = attempt
  have hcalls : attempt.2.calls = d.calls := by rw [← hattempt, run_calls]
  obtain ⟨⟨ret, next⟩, d'⟩ := attempt
  dsimp only at hcalls ⊢
  by_cases hret : ret = WOLFSSL_SUCCESS
  · refine ⟨[.connect ret], ?_, by simp [Call.inSession, Call.isWrite], ⟨ret, by simp⟩, ?_⟩
    · simp [hret, hcalls]
    · simp [hret, Stage.Backed]
  · simp only [hret, if_false]
    by_cases herr : w.get_error next ret = .want_read ∨ w.get_error next ret = .want_write
    · refine ⟨[.connect ret, .get_error], ?_, by simp [Call.inSession, Call.isWrite],
        ⟨ret, by simp⟩, ?_⟩
      · simp only [herr, if_true, usb_device_task_calls]
        split_ifs <;> simp [hcalls]
      · simp [herr, Stage.Backed]
    · refine ⟨[.connect ret, .get_error, .ERR_error_string], ?_,
        by simp [Call.inSession, Call.isWrite], ⟨ret, by simp⟩, ?_⟩
      · simp [herr, hcalls]
      · simp [herr, Stage.Backed]

theorem handshake_loop_calls (u : Usb) (w : WolfSSL σ) (turns : Nat) (s : σ) (d : Device) :
    ∃ cs, (handshake_loop u w turns s d).2.calls = d.calls ++ cs ∧
      (∀ c ∈ cs, c.inSession = true ∧ c.isWrite = false) ∧
      (0 < turns → ∃ ret, .connect ret ∈ cs) ∧
      (handshake_loop u w turns s d).1.Backed cs := by
  induction turns generalizing s d with
  | zero => exact ⟨[], by simp [handshake_loop], by simp, by simp, trivial⟩
  | succ turns ih =>
    obtain ⟨cs, hcalls, hkind, ⟨ret, hret⟩, hstage⟩ := handshake_turn_calls u w s d
    rw [handshake_loop]
    generalize handshake_turn u w s d = turn at hcalls hstage
    obtain ⟨stage, d'⟩ := turn
    dsimp only at hcalls hstage
    cases stage with
    | looping next =>
      obtain ⟨rest, hrest, hrestkind, -, hreststage⟩ := ih next d'
      refine ⟨cs ++ rest, ?_, ?_, fun _ => ⟨ret, by simp [hret]⟩, ?_⟩
      · simp only [hrest, hcalls, List.append_assoc]
      · intro c hc
        obtain hc | hc := List.mem_append.mp hc
        · exact hkind c hc
        · exact hrestkind c hc
      · exact hreststage.append_left cs
    | connected next => exact ⟨cs, hcalls, hkind, fun _ => ⟨ret, hret⟩, hstage⟩
    | cleanup ssl ctx => exact ⟨cs, hcalls, hkind, fun _ => ⟨ret, hret⟩, hstage⟩

theorem send_hello_calls (u : Usb) (w : WolfSSL σ) (s : σ) (d : Device) :
    ∃ msg ret rest, (send_hello u w s d).calls = d.calls ++ [.get_cipher] ++ [.write msg ret] ++ rest ∧
      ∀ c ∈ rest, c.inSession = true ∧ c.isWrite = false := by
  unfold send_hello
  dsimp only
  generalize "hello".toList.map Char.toUInt8 = msg
  generalize hattempt : (w.write s msg).run (handle u) _ = attempt
  have hcalls : attempt.2.calls = d.calls ++ [.get_cipher] := by
    rw [← hattempt, run_calls]
    simp
  refine ⟨msg, attempt.1.1, (if attempt.1.1 < 0 then [.get_error] else []) ++ [.shutdown], ?_, ?_⟩
  · split_ifs <;> simp [hcalls]
  · split_ifs <;> simp [Call.inSession, Call.isWrite]

/-- Behind a successful handshake there is one write, to a peer whose signature
    spec has just been seen to be hybrid, or none at all. -/
theorem after_handshake_calls (u : Usb) (w : WolfSSL σ) (s : σ) (d : Device) :
    ∃ cs, (after_handshake u w s d).calls = d.calls ++ cs ∧ (∀ c ∈ cs, c.inSession = true) ∧
      ((∀ c ∈ cs, c.isWrite = false) ∨
        ∃ size msg ret rest, 0 < size ∧
          cs = [.peerSigSpec (some w.CKS_SIGSPEC_BOTH) size, .get_cipher] ++ [.write msg ret] ++ rest ∧
            ∀ c ∈ rest, c.isWrite = false) := by
  unfold after_handshake
  cases hspec : w.peerSigSpec s with
  | none =>
    exact ⟨[.peerSigSpec none (w.peerSigSpecSz s)], by simp, by simp [Call.inSession],
      .inl (by simp [Call.isWrite])⟩
  | some server_sigspec =>
    by_cases hsize : w.peerSigSpecSz s > 0
    · by_cases hboth : server_sigspec = w.CKS_SIGSPEC_BOTH
      · subst hboth
        obtain ⟨msg, ret, rest, hcalls, hrest⟩ := send_hello_calls u w s
          (d.call (.peerSigSpec (some w.CKS_SIGSPEC_BOTH) (w.peerSigSpecSz s)))
        refine ⟨_, ?_, ?_, .inr ⟨w.peerSigSpecSz s, msg, ret, rest, hsize, rfl, fun c hc =>
          (hrest c hc).2⟩⟩
        · simp [hsize, hcalls]
        · intro c hc
          simp only [List.mem_append, List.mem_cons, List.not_mem_nil, or_false] at hc
          obtain ((rfl | rfl) | rfl) | hc := hc
          · rfl
          · rfl
          · rfl
          · exact (hrest c hc).1
      · exact ⟨[.peerSigSpec (some server_sigspec) (w.peerSigSpecSz s)], by simp [hsize, hboth],
          by simp [Call.inSession], .inl (by simp [Call.isWrite])⟩
    · exact ⟨[.peerSigSpec (some server_sigspec) (w.peerSigSpecSz s)], by simp [hsize],
        by simp [Call.inSession], .inl (by simp [Call.isWrite])⟩

/-- Up to the label `cleanup` nothing is released, the two pointers tell what
    was created, and the connection is only tried by a configured session. -/
theorem tls_pqc_body_calls (u : Usb) (w : WolfSSL σ) (turns : Nat) (d : Device) :
    ∃ cs, (tls_pqc_body u w turns d).2.calls = d.calls ++ cs ∧
      HybridWrites w.CKS_SIGSPEC_BOTH cs ∧
      (∀ ssl ctx, (tls_pqc_body u w turns d).1 = .cleanup ssl ctx → Acquired ssl ctx cs) ∧
      (0 < turns → ((∃ ret, .connect ret ∈ cs) ↔ w.Configured)) := by
  obtain ⟨setup, hsetup, hquiet, hstop⟩ := tls_pqc_setup_calls w d
  have hnowrite : ∀ c ∈ setup, c.isWrite = false := fun c hc => (hquiet c hc).1
  have hnoconnect : ∀ ret, .connect ret ∉ setup := fun ret hmem => by
    simpa [Call.inSession] using (hquiet _ hmem).2
  unfold tls_pqc_body
  generalize tls_pqc_setup w d = start at hsetup hstop ⊢
  obtain ⟨stop, d₀⟩ := start
  dsimp only at hsetup hstop
  cases stop with
  | some pointers =>
    obtain ⟨ssl, ctx⟩ := pointers
    refine ⟨setup, hsetup, .of_no_write _ hnowrite, ?_, fun _ => ?_⟩
    · rintro _ _ ⟨⟩
      exact hstop.1
    · simp [hnoconnect, hstop.2]
  | none =>
    dsimp only
    obtain ⟨hacquired, hconfigured⟩ := hstop
    obtain ⟨loop, hloop, hkind, hconnect, hstage⟩ := handshake_loop_calls u w turns w.start d₀
    generalize handshake_loop u w turns w.start d₀ = finish at hloop hstage ⊢
    obtain ⟨stage, d₁⟩ := finish
    dsimp only at hloop hstage ⊢
    have hloopquiet : ∀ c ∈ setup ++ loop, c.isWrite = false := by
      intro c hc
      obtain hc | hc := List.mem_append.mp hc
      · exact hnowrite c hc
      · exact (hkind c hc).2
    have hboth : Acquired true true (setup ++ loop) := hacquired.append fun c hc => (hkind c hc).1
    have htried : 0 < turns → ∃ ret, .connect ret ∈ setup ++ loop := fun hturns => by
      obtain ⟨ret, hret⟩ := hconnect hturns
      exact ⟨ret, List.mem_append_right setup hret⟩
    cases stage with
    | looping s =>
      refine ⟨setup ++ loop, by rw [hloop, hsetup, List.append_assoc],
        .of_no_write _ hloopquiet, ?_, fun hturns => ?_⟩
      · rintro _ _ ⟨⟩
      · exact iff_of_true (htried hturns) hconfigured
    | cleanup ssl ctx =>
      obtain ⟨rfl, rfl⟩ := hstage
      refine ⟨setup ++ loop, by rw [hloop, hsetup, List.append_assoc],
        .of_no_write _ hloopquiet, ?_, fun hturns => ?_⟩
      · rintro _ _ ⟨⟩
        exact hboth
      · exact iff_of_true (htried hturns) hconfigured
    | connected s =>
      obtain ⟨tail, htail, htailkind, hwrite⟩ := after_handshake_calls u w s d₁
      refine ⟨setup ++ loop ++ tail, by simp only [htail, hloop, hsetup, List.append_assoc], ?_, ?_,
        fun hturns => ?_⟩
      · obtain hnone | ⟨size, msg, ret, rest, hsize, rfl, hrest⟩ := hwrite
        · exact (HybridWrites.of_no_write _ hloopquiet).append_no_write hnone
        · have hpast : ∀ c ∈ setup ++ loop ++ [.peerSigSpec (some w.CKS_SIGSPEC_BOTH) size,
              .get_cipher], c.isWrite = false := by
            intro c hc
            obtain hc | hc := List.mem_append.mp hc
            · exact hloopquiet c hc
            · simp only [List.mem_cons, List.not_mem_nil, or_false] at hc
              obtain rfl | rfl := hc
              · rfl
              · rfl
          have honce : HybridWrites w.CKS_SIGSPEC_BOTH _ := HybridWrites.write msg ret hpast
            (by simp [show _ ∈ loop from hstage]) hsize (by simp)
          simpa only [List.append_assoc] using honce.append_no_write hrest
      · rintro _ _ ⟨⟩
        exact hboth.append htailkind
      · obtain ⟨ret, hret⟩ := htried hturns
        simp only [hconfigured, iff_true]
        exact ⟨ret, List.mem_append_left tail hret⟩

theorem cleanup_tls_resources_calls (u : Usb) (ssl ctx : Bool) (d : Device) :
    (cleanup_tls_resources u ssl ctx d).calls =
      d.calls ++ [.cleanup] ++ (if ssl then [.free] else []) ++ (if ctx then [.CTX_free] else []) := by
  simp [cleanup_tls_resources]

theorem cleanup_tls_resources_tls_active (u : Usb) (ssl ctx : Bool) (d : Device) :
    (cleanup_tls_resources u ssl ctx d).tls_active = false := by
  simp [cleanup_tls_resources]

/-- The cleanup releases what the pointers name, behind every other use. -/
theorem Acquired.released {ssl ctx : Bool} {cs : List Call} (h : Acquired ssl ctx cs) :
    Released (cs ++ [.cleanup] ++ (if ssl then [.free] else []) ++ (if ctx then [.CTX_free] else [])) := by
  have hnot : ∀ c : Call, c.releases = true → ∀ other ∈ cs, other ≠ c := by
    rintro c hc other hother rfl
    simp [h.unreleased other hother] at hc
  have hcount : ∀ c : Call, c.releases = true → cs.count c = 0 := fun c hc =>
    List.count_eq_zero.mpr fun hmem => hnot c hc c hmem rfl
  constructor
  · cases ssl <;> cases ctx <;> simp [hcount .cleanup rfl]
  · cases ssl <;> cases ctx <;> simp [hcount .free rfl, h.new_mem]
  · cases ssl <;> cases ctx <;> simp [hcount .CTX_free rfl, h.CTX_new_mem]
  · simp only [List.append_assoc]
    apply history.followed_append_of_forall_not _ (hnot .free rfl)
    cases ssl <;> cases ctx <;> simp [history.Followed, Call.usesSSL]
  · simp only [List.append_assoc]
    apply history.followed_append_of_forall_not _ (hnot .CTX_free rfl)
    cases ssl <;> cases ctx <;> simp [history.Followed]

/-- What the task does through all of its calls, whether it returns or not. -/
theorem tls_pqc_task_calls (u : Usb) (w : WolfSSL σ) (turns : Nat) (d : Device) :
    ∃ cs, (tls_pqc_task u w turns d).2.calls = d.calls ++ cs ∧
      HybridWrites w.CKS_SIGSPEC_BOTH cs ∧
      (0 < turns → ((∃ ret, .connect ret ∈ cs) ↔ w.Configured)) ∧
      ((tls_pqc_task u w turns d).1 = true →
        Released cs ∧ (tls_pqc_task u w turns d).2.tls_active = false) := by
  obtain ⟨cs, hcalls, hwrites, hacquired, hconnect⟩ := tls_pqc_body_calls u w turns d
  unfold tls_pqc_task
  generalize tls_pqc_body u w turns d = body at hcalls hacquired ⊢
  obtain ⟨stage, d'⟩ := body
  dsimp only at hcalls hacquired
  cases stage with
  | looping s => exact ⟨cs, hcalls, hwrites, hconnect, fun h => by cases h⟩
  | connected s => exact ⟨cs, hcalls, hwrites, hconnect, fun h => by cases h⟩
  | cleanup ssl ctx =>
    refine ⟨cs ++ [.cleanup] ++ (if ssl then [.free] else []) ++ (if ctx then [.CTX_free] else []),
      ?_, ?_, fun hturns => ?_, fun _ =>
        ⟨(hacquired ssl ctx rfl).released, cleanup_tls_resources_tls_active u ssl ctx d'⟩⟩
    · simp only [cleanup_tls_resources_calls, hcalls, List.append_assoc]
    · simp only [List.append_assoc]
      apply hwrites.append_no_write
      cases ssl <;> cases ctx <;> simp [Call.isWrite]
    · rw [← hconnect hturns]
      cases ssl <;> cases ctx <;> simp

/-- Turns one after the other. -/
theorem handshake_loop_add (u : Usb) (w : WolfSSL σ) (first second : Nat) (s : σ) (d : Device) :
    handshake_loop u w (first + second) s d =
      match handshake_loop u w first s d with
      | (.looping s', d') => handshake_loop u w second s' d'
      | stop => stop := by
  induction first generalizing s d with
  | zero => simp [handshake_loop]
  | succ first ih =>
    rw [Nat.add_right_comm, handshake_loop, handshake_loop]
    generalize tls.handshake_turn u w s d = turn
    obtain ⟨stage, d'⟩ := turn
    cases stage with
    | looping s' => exact ih s' d'
    | connected s' => rfl
    | cleanup ssl ctx => rfl

/-- The loop is over with a turn that is the last one. -/
theorem handshake_loop_ends {u : Usb} {w : WolfSSL σ} {turns : Nat} {s s' : σ} {d d' : Device}
    (hloop : handshake_loop u w turns s d = (.looping s', d'))
    (hturn : ∀ s₁ d₁, handshake_turn u w s' d' ≠ (.looping s₁, d₁)) {more : Nat} (hmore : turns < more)
    (s₁ : σ) (d₁ : Device) : handshake_loop u w more s d ≠ (.looping s₁, d₁) := by
  intro hlooping
  obtain ⟨rest, rfl⟩ := Nat.exists_eq_add_of_lt hmore
  rw [Nat.add_assoc, handshake_loop_add, hloop] at hlooping
  dsimp only at hlooping
  rw [handshake_loop] at hlooping
  generalize tls.handshake_turn u w s' d' = turn at hturn hlooping
  obtain ⟨stage, d₂⟩ := turn
  cases stage with
  | looping s₂ => exact hturn s₂ d₂ rfl
  | connected s₂ => cases hlooping
  | cleanup ssl ctx => cases hlooping

theorem tls_pqc_body_looping_iff (u : Usb) (w : WolfSSL σ) (turns : Nat) {d d₀ : Device}
    (hsetup : tls_pqc_setup w d = (none, d₀)) (s' : σ) (d' : Device) :
    tls_pqc_body u w turns d = (.looping s', d') ↔
      handshake_loop u w turns w.start d₀ = (.looping s', d') := by
  unfold tls_pqc_body
  rw [hsetup]
  dsimp only
  generalize tls.handshake_loop u w turns w.start d₀ = finish
  obtain ⟨stage, d₁⟩ := finish
  cases stage with
  | looping s => rfl
  | connected s => simp
  | cleanup ssl ctx => rfl

/-- The task returns once the body is past its loop. -/
theorem tls_pqc_task_returns_iff (u : Usb) (w : WolfSSL σ) (turns : Nat) (d : Device) :
    (tls_pqc_task u w turns d).1 = true ↔ ∀ s' d', tls_pqc_body u w turns d ≠ (.looping s', d') := by
  have hstage : ∀ s' d', tls_pqc_body u w turns d ≠ (.connected s', d') := by
    intro s' d' h
    unfold tls_pqc_body at h
    generalize tls_pqc_setup w d = setup at h
    obtain ⟨stop, d₀⟩ := setup
    cases stop with
    | some pointers => simp at h
    | none =>
      dsimp only at h
      generalize tls.handshake_loop u w turns w.start d₀ = finish at h
      obtain ⟨stage, d₁⟩ := finish
      cases stage <;> simp at h
  unfold tls_pqc_task
  generalize tls_pqc_body u w turns d = body at hstage ⊢
  obtain ⟨stage, d'⟩ := body
  cases stage with
  | looping s => simp
  | connected s => exact absurd rfl (hstage s d')
  | cleanup ssl ctx => simp

/-- An attempt to connect that succeeds, or fails for another reason than that it has to
    wait, is the last one: with a turn for it the task returns. -/
theorem tls_pqc_task_returns (u : Usb) (w : WolfSSL σ) {turns : Nat} {d d' : Device} {s : σ}
    (hloop : tls_pqc_body u w turns d = (.looping s, d'))
    (hlast :
      let attempt := ((w.connect s).run (handle u) d').1
      attempt.1 = WOLFSSL_SUCCESS ∨
        ¬ (w.get_error attempt.2 attempt.1 = .want_read ∨ w.get_error attempt.2 attempt.1 = .want_write))
    {more : Nat} (hmore : turns < more) : (tls_pqc_task u w more d).1 = true := by
  have hturn : ∀ s' d'', handshake_turn u w s d' ≠ (.looping s', d'') := by
    intro s' d'' h
    unfold handshake_turn at h
    generalize (w.connect s).run (handle u) d' = attempt at hlast h
    obtain hret | herr := hlast
    · simp [hret] at h
    · by_cases hret : attempt.1.1 = WOLFSSL_SUCCESS
      · simp [hret] at h
      · simp [hret, herr] at h
  refine (tls_pqc_task_returns_iff u w _ d).mpr fun s' d'' hlooping => ?_
  cases hsetup : tls_pqc_setup w d with
  | mk stop d₀ =>
    cases stop with
    | some pointers => simp [tls_pqc_body, hsetup] at hloop
    | none =>
      rw [tls_pqc_body_looping_iff u w _ hsetup] at hloop hlooping
      exact handshake_loop_ends hloop hturn hmore s' d'' hlooping

/-- Whatever wolfSSL answers, application data leaves at most once and only
    over a hybrid session; and when the task returns, each object it created has
    been released once, behind its last use, and packets go to the commands again. -/
theorem tls_pqc_task_fails_closed (u : Usb) (w : WolfSSL σ) (turns : Nat) (d : Device) :
    ∃ cs, (tls_pqc_task u w turns d).2.calls = d.calls ++ cs ∧
      HybridWrites w.CKS_SIGSPEC_BOTH cs ∧
      ((tls_pqc_task u w turns d).1 = true →
        Released cs ∧ (tls_pqc_task u w turns d).2.tls_active = false) := by
  obtain ⟨cs, hcalls, hwrites, -, hreturn⟩ := tls_pqc_task_calls u w turns d
  exact ⟨cs, hcalls, hwrites, hreturn⟩

/-- A session with a peer that signs with both keys: it connects at once, and the task returns. -/
theorem tls_pqc_task_fails_closed_hybrid :
    let u : Usb := ⟨fun _ => true, fun _ => none, fun _ => true⟩
    let w : WolfSSL Unit := { permissive 1 1 with peerSigSpec := fun _ => some 3, peerSigSpecSz := fun _ => 1 }
    let d := Device.power_on (fun _ => 0) (fun _ => 0)
    (tls_pqc_task u w 1 d).1 = true ∧
      ∃ cs, (tls_pqc_task u w 1 d).2.calls = d.calls ++ cs ∧ HybridWrites 3 cs ∧
        ((tls_pqc_task u w 1 d).1 = true →
          Released cs ∧ (tls_pqc_task u w 1 d).2.tls_active = false) :=
  ⟨by decide, tls_pqc_task_fails_closed _ _ 1 _⟩

end keychain.tls
