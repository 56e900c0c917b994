import Keychain.Tls.Control
import Keychain.Tls.Invariant
import Keychain.Tls.RingBuffer.Read
import Keychain.Tls.RingBuffer.Write

namespace keychain.tls

open interaction (Path Tree)

variable {σ : Type}

/-- What the loop relies on: an attempt to connect reports that it wants to read
    or to write exactly when a callback said so to it, and it reports another
    error when a callback said that the connection is gone. -/
structure WolfSSL.Reports (w : WolfSSL σ) : Prop where
  want_read : ∀ s calls ret s', Path (w.connect s) calls (ret, s') →
    ((∃ sz bytes, (.recv sz, (.want_read, bytes)) ∈ calls) ↔
      ret ≠ WOLFSSL_SUCCESS ∧ w.get_error s' ret = .want_read)
  want_write : ∀ s calls ret s', Path (w.connect s) calls (ret, s') →
    ((∃ buf bytes, (.send buf, (.want_write, bytes)) ∈ calls) ↔
      ret ≠ WOLFSSL_SUCCESS ∧ w.get_error s' ret = .want_write)
  conn_rst : ∀ s calls ret s', Path (w.connect s) calls (ret, s') →
    (∃ buf bytes, (.send buf, (.conn_rst, bytes)) ∈ calls) →
      ret ≠ WOLFSSL_SUCCESS ∧ ∃ code, w.get_error s' ret = .other code

/-- After a report that it wants to read, the next attempt goes on with reading. -/
def WolfSSL.Resumes (w : WolfSSL σ) : Prop :=
  ∀ s calls ret s', Path (w.connect s) calls (ret, s') → ret ≠ WOLFSSL_SUCCESS →
    w.get_error s' ret = .want_read → ∃ sz rest, w.connect s' = .call (.recv sz) rest

/-- With `queue` waiting in the ring and nothing to come, the attempt asks for
    bytes when there are none left, before it has anything to send. -/
def starves {Result : Type} : Io Result → List UInt8 → Prop
  | .done _, _ => False
  | .call (.send _) _, _ => False
  | .call (.recv sz) rest, queue =>
    queue = [] ∨ starves (rest (.count (queue.take sz.toNat).length, queue.take sz.toNat))
      (queue.drop sz.toNat)

/-- The device is offline from the moment `since` on, and that moment has come. -/
structure Offline (u : Usb) (since : Nat) (d : Device) : Prop where
  disconnected : ∀ now, since ≤ now → u.connected now = false
  reached : since ≤ d.now
  valid : d.rxRing.Valid

theorem Offline.poll {u : Usb} {since : Nat} {d : Device} (h : Offline u since d) :
    usb_device_task u d = d.tick := by
  simp [usb_device_task, Usb.delivers, h.disconnected d.now h.reached]

theorem Offline.tick {u : Usb} {since : Nat} {d : Device} (h : Offline u since d) :
    Offline u since d.tick :=
  ⟨h.disconnected, Nat.le_succ_of_le h.reached, h.valid⟩

theorem Offline.send {u : Usb} {since : Nat} {d : Device} (h : Offline u since d) (buf : List UInt8) :
    handle u (.send buf) d = ((.conn_rst, []), d.tick) := by
  simp [handle, EmbedSend, h.disconnected d.now h.reached]

/-- Offline, a call of `EmbedReceive` takes its bytes from what waits, or finds
    the ring empty and leaves it so. -/
theorem Offline.recv {u : Usb} {since : Nat} {d : Device} (h : Offline u since d) (sz : Int) :
    Offline u since (handle u (.recv sz) d).2 ∧
      if d.rxRing.queue = [] then
        (handle u (.recv sz) d).1 = (.want_read, []) ∧ (handle u (.recv sz) d).2.rxRing.queue = []
      else
        (handle u (.recv sz) d).1 =
            (.count (d.rxRing.queue.take sz.toNat).length, d.rxRing.queue.take sz.toNat) ∧
          (handle u (.recv sz) d).2.rxRing.queue = d.rxRing.queue.drop sz.toNat := by
  obtain ⟨hvalid, hreply⟩ := EmbedReceive_spec h.valid sz
  obtain ⟨-, hnow, -⟩ := EmbedReceive_frame d sz
  refine ⟨⟨h.disconnected, ?_, hvalid⟩, hreply⟩
  change since ≤ (EmbedReceive d sz).2.now
  rw [hnow]
  exact h.reached

/-- An attempt that starts offline: it wants to read exactly if it starves,
    unless it has been told that the connection is gone; and a starving attempt
    leaves nothing in the ring. -/
theorem Offline.run {Result : Type} {u : Usb} {since : Nat} (t : Io Result) {d : Device}
    (h : Offline u since d) :
    Offline u since (t.run (handle u) d).2 ∧
      (∀ buf bytes, (.send buf, (.want_write, bytes)) ∉ t.calls (handle u) d) ∧
      (d.rxRing.queue = [] → (t.run (handle u) d).2.rxRing.queue = []) ∧
      (starves t d.rxRing.queue → (t.run (handle u) d).2.rxRing.queue = [] ∧
        ∃ sz bytes, (.recv sz, (.want_read, bytes)) ∈ t.calls (handle u) d) ∧
      (¬ starves t d.rxRing.queue →
        (∃ buf bytes, (.send buf, (.conn_rst, bytes)) ∈ t.calls (handle u) d) ∨
          ∀ sz bytes, (.recv sz, (.want_read, bytes)) ∉ t.calls (handle u) d) := by
  induction t generalizing d with
  | done result => exact ⟨h, by simp [Tree.calls], id, by simp [starves], fun _ => .inr (by simp [Tree.calls])⟩
  | call c rest ih =>
    cases c with
    | send buf =>
      obtain ⟨hnext, hwrite, hempty, -, -⟩ := ih (.conn_rst, []) h.tick
      simp only [Tree.run_call, Tree.calls, h.send buf, starves]
      refine ⟨hnext, ?_, hempty, False.elim, fun _ => .inl ⟨buf, [], by simp⟩⟩
      intro buf' bytes hmem
      simp only [List.mem_cons, Prod.mk.injEq, reduceCtorEq, and_false, false_and, false_or] at hmem
      exact hwrite buf' bytes hmem
    | recv sz =>
      obtain ⟨hnext, hreply⟩ := h.recv sz
      obtain ⟨hend, hwrite, hempty, hstarve, hfed⟩ := ih (handle u (.recv sz) d).1 hnext
      have hnowrite : ∀ buf bytes, (.send buf, (.want_write, bytes)) ∉
          (Tree.call (.recv sz) rest).calls (handle u) d := by
        intro buf bytes hmem
        simp only [Tree.calls, List.mem_cons, Prod.mk.injEq, reduceCtorEq, false_and, false_or] at hmem
        exact hwrite buf bytes hmem
      by_cases hnil : d.rxRing.queue = []
      · rw [if_pos hnil] at hreply
        refine ⟨hend, hnowrite, fun _ => hempty hreply.2, fun _ => ⟨hempty hreply.2, sz, [], ?_⟩, ?_⟩
        · simp [Tree.calls, hreply.1]
        · intro hfalse
          exact absurd (.inl hnil) hfalse
      · rw [if_neg hnil] at hreply
        refine ⟨hend, hnowrite, fun hfalse => absurd hfalse hnil, ?_, ?_⟩
        · intro hstarves
          obtain ⟨hdrained, size, bytes, hmem⟩ := hstarve (by
            rw [hreply.1, hreply.2]
            exact hstarves.resolve_left hnil)
          exact ⟨hdrained, size, bytes, List.mem_cons_of_mem _ hmem⟩
        · intro hfeeds
          rcases hfed (by
            rw [hreply.1, hreply.2]
            exact fun hlater => hfeeds (.inr hlater)) with ⟨buf, bytes, hmem⟩ | hnone
          · exact .inl ⟨buf, bytes, List.mem_cons_of_mem _ hmem⟩
          · refine .inr fun size bytes hmem => ?_
            simp only [Tree.calls, List.mem_cons, hreply.1, Prod.mk.injEq, reduceCtorEq, false_and,
              and_false, false_or] at hmem
            exact hnone size bytes (by rw [hreply.1]; exact hmem)

/-- A turn that starts offline goes round again exactly when its attempt
    starves, and then the ring is empty and the next attempt starves as well. -/
theorem Offline.handshake_turn {u : Usb} {since : Nat} {w : WolfSSL σ} (hw : w.Reports) (s : σ)
    {d : Device} (h : Offline u since d) :
    (starves (w.connect s) d.rxRing.queue → ∃ s' d', handshake_turn u w s d = (.looping s', d') ∧
      Offline u since d' ∧ d'.rxRing.queue = [] ∧
      (w.Resumes → starves (w.connect s') [])) ∧
    (¬ starves (w.connect s) d.rxRing.queue →
      ∀ s' d', handshake_turn u w s d ≠ (.looping s', d')) := by
  have hpath := Tree.path_calls (handle u) (w.connect s) d
  obtain ⟨hend, hnowrite, -, hstarve, hfed⟩ := Offline.run (w.connect s) h
  unfold tls.handshake_turn
  generalize (w.connect s).run (handle u) d = attempt at hpath hend hstarve ⊢
  generalize (w.connect s).calls (handle u) d = calls at hpath hnowrite hstarve hfed
  obtain ⟨⟨ret, s'⟩, d'⟩ := attempt
  have hread := hw.want_read s calls ret s' hpath
  have hwrite := hw.want_write s calls ret s' hpath
  dsimp only at hend hstarve ⊢
  constructor
  · intro hstarves
    obtain ⟨hdrained, hmem⟩ := hstarve hstarves
    obtain ⟨hret, herr⟩ := hread.mp hmem
    have havail : ¬ RB_Available d'.rxRing > (RING_BUF_SIZE / 2 : Nat) := by
      rw [RB_Available_eq hend.valid, hdrained]
      decide
    have hcalled : Offline u since ((d'.call (.connect ret)).call .get_error) :=
      ⟨hend.disconnected, hend.reached, hend.valid⟩
    refine ⟨s', ((d'.call (.connect ret)).call .get_error).tick, ?_, hcalled.tick, hdrained, ?_⟩
    · simp only [hret, if_false, herr, true_or, if_true, Device.call_rxRing, havail, hcalled.poll]
    · intro hresumes
      obtain ⟨sz, rest, hconnect⟩ := hresumes s calls ret s' hpath hret herr
      rw [hconnect]
      exact .inl rfl
  · intro hfeeds s'' d'' hloop
    have hquiet : ¬ (ret ≠ WOLFSSL_SUCCESS ∧
        (w.get_error s' ret = .want_read ∨ w.get_error s' ret = .want_write)) := by
      rintro ⟨hret, herr | herr⟩
      · obtain hgone | hnone := hfed hfeeds
        · obtain ⟨-, code, hcode⟩ := hw.conn_rst s calls ret s' hpath hgone
          rw [hcode] at herr
          cases herr
        · obtain ⟨sz, bytes, hmem⟩ := hread.mpr ⟨hret, herr⟩
          exact hnone sz bytes hmem
      · obtain ⟨buf, bytes, hmem⟩ := hwrite.mpr ⟨hret, herr⟩
        exact hnowrite buf bytes hmem
    by_cases hret : ret = WOLFSSL_SUCCESS
    · simp [hret] at hloop
    · have herr : ¬ (w.get_error s' ret = .want_read ∨ w.get_error s' ret = .want_write) :=
        fun herr => hquiet ⟨hret, herr⟩
      simp [hret, herr] at hloop

theorem now_kept (u : Usb) (start : Nat) : Kept u fun d => start ≤ d.now := by
  have hpoll : ∀ d : Device, start ≤ d.now → start ≤ (usb_device_task u d).now := by
    intro d h
    rw [usb_device_task_now]
    omega
  have hreceive : ∀ (sz : Int) (d : Device), start ≤ d.now → start ≤ (handle u (.recv sz) d).2.now := by
    intro sz d h
    rwa [handle, Device.emit_now, (EmbedReceive_frame d sz).2.1]
  exact .of_receive hpoll hreceive (fun _ h => Nat.le_succ_of_le h) (fun _ _ h => h) fun _ _ h => h

/-- Every turn that goes round again takes time, so a loop that goes on gets
    past any moment. -/
theorem handshake_loop_now (u : Usb) (w : WolfSSL σ) (turns : Nat) (s : σ) (d : Device) {s' : σ}
    {d' : Device} (h : handshake_loop u w turns s d = (.looping s', d')) : d.now + turns ≤ d'.now := by
  induction turns generalizing s d with
  | zero =>
    cases h
    exact Nat.le_refl _
  | succ turns ih =>
    have hattempt := (now_kept u d.now).run (w.connect s) (Nat.le_refl d.now)
    rw [handshake_loop, tls.handshake_turn] at h
    generalize (w.connect s).run (handle u) d = attempt at hattempt h
    dsimp only at h
    split_ifs at h with hret herr
    · cases h
    · have hrest := ih _ _ h
      simp only [usb_device_task_now, debug_printf_now, Device.call_now] at hrest
      omega
    · have hrest := ih _ _ h
      simp only [usb_device_task_now, Device.call_now] at hrest
      omega
    · cases h

/-- What the end of a handshake depends on once the device is offline: no
    attempt may run into an empty ring before it has something to send. -/
def WolfSSL.NeverStarves (u : Usb) (w : WolfSSL σ) (since : Nat) (d : Device) : Prop :=
  ∀ turns s' d', tls_pqc_body u w turns d = (.looping s', d') → since ≤ d'.now →
    ¬ starves (w.connect s') d'.rxRing.queue

theorem ring_valid_kept (u : Usb) : Kept u fun d => d.rxRing.Valid := by
  have hpoll : ∀ d : Device, d.rxRing.Valid → (usb_device_task u d).rxRing.Valid := by
    intro d h
    obtain ⟨-, heq⟩ | ⟨buf, -, -, heq⟩ | ⟨buf, console, -, -, heq⟩ := usb_device_task_cases u d
    · rwa [heq]
    · rw [heq]
      exact RB_Write_valid h buf
    · rwa [heq]
  have hreceive : ∀ (sz : Int) (d : Device), d.rxRing.Valid → (handle u (.recv sz) d).2.rxRing.Valid :=
    fun sz _ h => (EmbedReceive_spec h sz).1
  exact .of_receive hpoll hreceive (fun _ h => h) (fun _ _ h => h) fun _ _ h => h

theorem tls_pqc_setup_ring_valid (w : WolfSSL σ) (d : Device) (h : (tls_pqc_setup w d).1 = none) :
    (tls_pqc_setup w d).2.rxRing.Valid := by
  unfold tls_pqc_setup at h ⊢
  dsimp only at h ⊢
  split_ifs at h ⊢
  exact RingBuffer.valid_reset _

/-- A starving attempt is followed by another one, without end. -/
theorem Offline.handshake_loop_starves {u : Usb} {since : Nat} {w : WolfSSL σ} (hw : w.Reports)
    (hresumes : w.Resumes) (turns : Nat) (s : σ) {d : Device} (h : Offline u since d)
    (hstarves : starves (w.connect s) d.rxRing.queue) :
    ∃ s' d', handshake_loop u w turns s d = (.looping s', d') := by
  induction turns generalizing s d with
  | zero => exact ⟨s, d, rfl⟩
  | succ turns ih =>
    obtain ⟨s', d', hturn, hoffline, hdrained, hnext⟩ := (h.handshake_turn hw s).1 hstarves
    rw [handshake_loop, hturn]
    exact ih s' hoffline (by rw [hdrained]; exact hnext hresumes)

/-- The loop stops at the first turn that starts offline and does not starve. -/
theorem handshake_loop_stops {u : Usb} {since : Nat} {w : WolfSSL σ} (hw : w.Reports)
    (hdisconnected : ∀ now, since ≤ now → u.connected now = false) (s : σ) {d : Device}
    (hvalid : d.rxRing.Valid)
    (hfeeds : ∀ turns s' d', handshake_loop u w turns s d = (.looping s', d') → since ≤ d'.now →
      ¬ starves (w.connect s') d'.rxRing.queue) :
    ∃ turns, ∀ s' d', handshake_loop u w turns s d ≠ (.looping s', d') := by
  by_contra hgoes
  simp only [ne_eq, not_exists, not_forall, not_not] at hgoes
  obtain ⟨s', d', hloop⟩ := hgoes since
  have hnow := handshake_loop_now u w since s d hloop
  have hvalid' : d'.rxRing.Valid := by
    have := (ring_valid_kept u).handshake_loop w since s hvalid
    rwa [hloop] at this
  have hoffline : Offline u since d' := ⟨hdisconnected, by omega, hvalid'⟩
  obtain ⟨s'', d'', hnext⟩ := hgoes (since + 1)
  have hturn := (hoffline.handshake_turn hw s').2 (hfeeds since s' d' hloop hoffline.reached)
  exact handshake_loop_ends hloop hturn (Nat.lt_succ_self since) s'' d'' hnext

theorem tls_pqc_body_of_stop (u : Usb) (w : WolfSSL σ) (turns : Nat) {d d₀ : Device}
    {pointers : Bool × Bool} (hsetup : tls_pqc_setup w d = (some pointers, d₀)) :
    ∀ s' d', tls_pqc_body u w turns d ≠ (.looping s', d') := by
  intro s' d' h
  unfold tls_pqc_body at h
  rw [hsetup] at h
  cases h

/-- A session that has not returned when an attempt starves never does. -/
theorem never_returns_of_starves {u : Usb} {since : Nat} {w : WolfSSL σ} (hw : w.Reports)
    (hresumes : w.Resumes) (hdisconnected : ∀ now, since ≤ now → u.connected now = false)
    {d : Device} (turns : Nat) {s' : σ} {d' : Device}
    (hbody : tls_pqc_body u w turns d = (.looping s', d')) (hreached : since ≤ d'.now)
    (hstarves : starves (w.connect s') d'.rxRing.queue) (more : Nat) :
    (tls_pqc_task u w more d).1 = false := by
  rcases hsetup : tls_pqc_setup w d with ⟨stop, d₀⟩
  cases stop with
  | some pointers => exact absurd hbody (tls_pqc_body_of_stop u w turns hsetup s' d')
  | none =>
    have hloop := (tls_pqc_body_looping_iff u w turns hsetup s' d').mp hbody
    have hvalid₀ : d₀.rxRing.Valid := by
      have := tls_pqc_setup_ring_valid w d (by rw [hsetup])
      rwa [hsetup] at this
    have hvalid : d'.rxRing.Valid := by
      have := (ring_valid_kept u).handshake_loop w turns w.start hvalid₀
      rwa [hloop] at this
    have hoffline : Offline u since d' := ⟨hdisconnected, hreached, hvalid⟩
    obtain ⟨s₁, d₁, hgoes⟩ := hoffline.handshake_loop_starves hw hresumes more s' hstarves
    rw [Bool.eq_false_iff]
    intro hreturns
    have hstop := (tls_pqc_task_returns_iff u w more d).mp hreturns
    -- The loop would be past its end after `more` turns and still run after some others.
    have hfar : handshake_loop u w (more + turns) w.start d₀ = (.looping s₁, d₁) := by
      rw [Nat.add_comm, handshake_loop_add, hloop]
      exact hgoes
    rw [handshake_loop_add] at hfar
    have hstop₀ := fun s d => mt (tls_pqc_body_looping_iff u w more hsetup s d).mpr (hstop s d)
    generalize tls.handshake_loop u w more w.start d₀ = finish at hfar hstop₀
    obtain ⟨stage, d₂⟩ := finish
    cases stage with
    | looping s₂ => exact hstop₀ s₂ d₂ rfl
    | connected s₂ => cases hfar
    | cleanup ssl ctx => cases hfar

/-- Once the device is offline for good, the session ends if no attempt starves
    from then on, and only then if wolfSSL goes on with the read it wanted. -/
theorem session_ends_offline (u : Usb) (w : WolfSSL σ) (since : Nat) (d : Device) (hw : w.Reports)
    (hdisconnected : ∀ now, since ≤ now → u.connected now = false) :
    (w.NeverStarves u since d → ∃ turns, (tls_pqc_task u w turns d).1 = true) ∧
      (w.Resumes → (∃ turns, (tls_pqc_task u w turns d).1 = true) → w.NeverStarves u since d) := by
  constructor
  · intro hfeeds
    rcases hsetup : tls_pqc_setup w d with ⟨stop, d₀⟩
    cases stop with
    | some pointers =>
      exact ⟨0, (tls_pqc_task_returns_iff u w 0 d).mpr (tls_pqc_body_of_stop u w 0 hsetup)⟩
    | none =>
      have hvalid : d₀.rxRing.Valid := by
        have := tls_pqc_setup_ring_valid w d (by rw [hsetup])
        rwa [hsetup] at this
      obtain ⟨turns, hstop⟩ := handshake_loop_stops hw hdisconnected w.start hvalid
        fun turns s' d' hloop =>
          hfeeds turns s' d' ((tls_pqc_body_looping_iff u w turns hsetup s' d').mpr hloop)
      refine ⟨turns, (tls_pqc_task_returns_iff u w turns d).mpr fun s' d' hbody => ?_⟩
      exact hstop s' d' ((tls_pqc_body_looping_iff u w turns hsetup s' d').mp hbody)
  · rintro hresumes ⟨turns, hreturns⟩ n s' d' hbody hreached hstarves
    have hnever := never_returns_of_starves hw hresumes hdisconnected n hbody hreached hstarves turns
    rw [hnever] at hreturns
    cases hreturns

/-- The second half of a small handshake: it reads the answer of the server. -/
def await_answer : Io (Int × Bool × Error) :=
  .call (.recv 5) fun
    | (.count _, _) => .done (1, (true, .other 0))
    | (.want_read, _) => .done (-1, (true, .want_read))
    | _ => .done (-1, (true, .other (-308)))

/-- The first half: it sends a message, unless that has been done. The state
    tells whether it has, and the last error. -/
def patient_connect (s : Bool × Error) : Io (Int × Bool × Error) :=
  if s.1 then await_answer
  else .call (.send [1, 0, 0]) fun
    | (.count _, _) => await_answer
    | (.want_write, _) => .done (-1, (false, .want_write))
    | _ => .done (-1, (false, .other (-308)))

def patient : WolfSSL (Bool × Error) :=
  sample 1 1 (false, .other 0) patient_connect fun s _ => s.2

/-- What the answers to its callbacks make the library report. -/
def patient_reports_of (calls : List (Callback × Cbio × List UInt8)) (ret : Int) (s : Bool × Error) :
    Prop :=
  ((∃ sz bytes, (.recv sz, (.want_read, bytes)) ∈ calls) ↔ ret ≠ 1 ∧ s = (true, .want_read)) ∧
    ((∃ buf bytes, (.send buf, (.want_write, bytes)) ∈ calls) ↔ ret ≠ 1 ∧ s = (false, .want_write)) ∧
    ((∃ buf bytes, (.send buf, (.conn_rst, bytes)) ∈ calls) →
      ret ≠ 1 ∧ s.2 = .other (-308)) ∧ (ret ≠ 1 → s.2 = .want_read → s.1 = true) ∧
    (ret ≠ 1 → s.2 = .want_write → s.1 = false)

theorem await_answer_path {calls : List (Callback × Cbio × List UInt8)} {ret : Int} {s : Bool × Error}
    (h : Path await_answer calls (ret, s)) : patient_reports_of calls ret s := by
  rw [await_answer] at h
  cases h with
  | @call _ reply _ rest _ tail =>
    obtain ⟨answer, bytes⟩ := reply
    cases answer <;> cases tail <;> simp [patient_reports_of]

theorem patient_path {s s' : Bool × Error} {calls : List (Callback × Cbio × List UInt8)} {ret : Int}
    (h : Path (patient_connect s) calls (ret, s')) : patient_reports_of calls ret s' := by
  unfold patient_connect at h
  split at h
  · exact await_answer_path h
  · cases h with
    | @call _ reply _ rest _ tail =>
      obtain ⟨answer, bytes⟩ := reply
      cases answer with
      | count n => simpa [patient_reports_of] using await_answer_path tail
      | want_read => cases tail; simp [patient_reports_of]
      | want_write => cases tail; simp [patient_reports_of]
      | conn_rst => cases tail; simp [patient_reports_of]

theorem patient_reports : patient.Reports := by
  constructor
  · intro s calls ret s' h
    obtain ⟨hread, -, -, htrue, -⟩ := patient_path h
    rw [hread]
    refine and_congr_right fun hret => ⟨fun heq => by rw [heq]; rfl, fun herr => ?_⟩
    exact Prod.ext (htrue hret herr) herr
  · intro s calls ret s' h
    obtain ⟨-, hwrite, -, -, hfalse⟩ := patient_path h
    rw [hwrite]
    refine and_congr_right fun hret => ⟨fun heq => by rw [heq]; rfl, fun herr => ?_⟩
    exact Prod.ext (hfalse hret herr) herr
  · intro s calls ret s' h hgone
    obtain ⟨hret, herr⟩ := (patient_path h).2.2.1 hgone
    exact ⟨hret, -308, herr⟩

theorem patient_resumes : patient.Resumes := by
  intro s calls ret s' h hret herr
  have hsent : s'.1 = true := (patient_path h).2.2.2.1 hret herr
  have hnext : patient_connect s' = await_answer := by
    rw [patient_connect, if_pos hsent]
  exact ⟨5, _, hnext⟩

/-- The host is there for the first three moments and then never again. It
    never sends a packet. -/
def unplugged : Usb :=
  ⟨fun now => decide (now < 3), fun _ => none, fun _ => true⟩

/-- The device waits for the answer of a server that is gone, whatever the
    number of turns it is given. -/
theorem waits_forever_for_server : patient.Reports ∧ (∀ now, 3 ≤ now → unplugged.connected now = false) ∧
    ∀ turns, (tls_pqc_task unplugged patient turns
      (Device.power_on (fun _ => 0) (fun _ => 0))).1 = false := by
  have hdisconnected : ∀ now, 3 ≤ now → unplugged.connected now = false := by
    intro now hnow
    simp only [unplugged, decide_eq_false_iff_not]
    omega
  refine ⟨patient_reports, hdisconnected, ?_⟩
  exact never_returns_of_starves patient_reports patient_resumes hdisconnected 1 rfl
    (by decide) (.inl (by decide))

/-- Where the host is gone from the start, the first message cannot be sent. -/
theorem session_ends_offline_unsent : ∃ turns, (tls_pqc_task ⟨fun _ => false, fun _ => none, fun _ => true⟩
    patient turns (Device.power_on (fun _ => 0) (fun _ => 0))).1 = true := by
  apply (session_ends_offline _ patient 0 _ patient_reports (fun _ _ => rfl)).1
  intro turns s' d' hbody _
  cases turns with
  | zero =>
    cases hbody
    exact id
  | succ turns => cases hbody

end keychain.tls
