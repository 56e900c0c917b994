import Keychain.Tls.Device

namespace keychain.tls

def WOLFSSL_SUCCESS : Int := 1

/-- What `wolfSSL_get_error` tells, as far as the handshake loop looks at it. -/
inductive Error where
  | want_read
  | want_write
  | other (code : Int)
  deriving DecidableEq

/-- wolfSSL as the task sees it: the results of the setup calls, and the
    behavior of the calls on the SSL object, whose state is a `σ`. -/
structure WolfSSL (σ : Type) where
  Init : Int
  CTX_new : Bool
  use_certificate : Int
  use_PrivateKey : Int
  use_AltPrivateKey : Filetype → Int
  new : Bool
  UseCKS : Int
  start : σ
  connect : σ → Io (Int × σ)
  get_error : σ → Int → Error
  error_string : Error → String
  /-- The number that `%d` prints for an error. -/
  error_code : Error → Int
  /-- The first byte behind the pointer `ssl->peerSigSpec`, unless it is NULL. -/
  peerSigSpec : σ → Option UInt8
  peerSigSpecSz : σ → Nat
  CKS_SIGSPEC_BOTH : UInt8
  get_cipher : σ → String
  write : σ → List UInt8 → Io (Int × σ)
  shutdown : σ → Io (Int × σ)

/-- A library whose setup succeeds up to two results, and whose attempts to
    connect are given. -/
def sample (Init UseCKS : Int) (start : σ) (connect : σ → Io (Int × σ))
    (get_error : σ → Int → Error) : WolfSSL σ where
  Init := Init
  CTX_new := true
  use_certificate := 1
  use_PrivateKey := 1
  use_AltPrivateKey _ := 1
  new := true
  UseCKS := UseCKS
  start := start
  connect := connect
  get_error := get_error
  error_string _ := ""
  error_code _ := 0
  peerSigSpec _ := none
  peerSigSpecSz _ := 0
  CKS_SIGSPEC_BOTH := 3
  get_cipher _ := ""
  write s msg := .done (msg.length, s)
  shutdown s := .done (1, s)

/-- It connects at once. -/
def permissive (Init UseCKS : Int) : WolfSSL Unit :=
  sample Init UseCKS () (fun _ => .done (1, ())) (fun _ _ => .other 0)

/-- A moment at which the task has left for its label `cleanup`, with the two
    pointers there, or is still at the head of the handshake loop. -/
inductive Stage (σ : Type) where
  | looping (s : σ)
  | connected (s : σ)
  | cleanup (ssl ctx : Bool)

/-- The cleanup frees the objects that exist and clears the ring. -/
def release_objects (ssl ctx : Bool) (d : Device) : Device :=
  let d := d.call .cleanup
  let d := if ssl then d.call .free else d
  let d := if ctx then d.call .CTX_free else d
  { d with rxRing := d.rxRing.reset }

def cleanup_tls_resources (u : Usb) (ssl ctx : Bool) (d : Device) : Device :=
  let d := release_objects ssl ctx d
  let d := usb_device_polls u 5 d
  let d := { d with tls_active := false }
  let d := debug_printf d "TLS task completed, ready for next command"
  usb_device_polls u 10 d

@[simp] theorem release_objects_calls (ssl ctx : Bool) (d : Device) :
    (release_objects ssl ctx d).calls =
      d.calls ++ [.cleanup] ++ (if ssl then [.free] else []) ++ (if ctx then [.CTX_free] else []) := by
  cases ssl <;> cases ctx <;> simp [release_objects]

theorem release_objects_frame (ssl ctx : Bool) (d : Device) :
    (release_objects ssl ctx d).trace = d.trace ∧ (release_objects ssl ctx d).now = d.now ∧
      (release_objects ssl ctx d).stream = d.stream ∧
      (release_objects ssl ctx d).tls_active = d.tls_active := by
  cases ssl <;> cases ctx <;> exact ⟨rfl, rfl, rfl, rfl⟩

/-- The three key files of the client, in the order of the source. The flag is
    false where the source jumps to `cleanup`. -/
def load_client (w : WolfSSL σ) (d : Device) : Bool × Device :=
  let ret := w.use_certificate
  let d := d.call (.CTX_use_certificate_buffer ret)
  if ret ≠ WOLFSSL_SUCCESS then
    (false, debug_printf d ("Error: Failed to load client certificate (code=" ++ toString ret ++ ")"))
  else
  let d := debug_printf d "Client certificate loaded successfully"
  let ret := w.use_PrivateKey
  let d := d.call (.CTX_use_PrivateKey_buffer ret)
  if ret ≠ WOLFSSL_SUCCESS then
    (false, debug_printf d ("Error: Failed to load client ECC key (code=" ++ toString ret ++ ")"))
  else
  let d := debug_printf d "Client ECC key loaded successfully"
  let ret := w.use_AltPrivateKey .asn1
  let d := d.call (.CTX_use_AltPrivateKey_buffer .asn1 ret)
  if ret ≠ WOLFSSL_SUCCESS then
    let ret := w.use_AltPrivateKey .pem
    let d := d.call (.CTX_use_AltPrivateKey_buffer .pem ret)
    if ret ≠ WOLFSSL_SUCCESS then
      (false,
        debug_printf d ("Error: Failed to load client Dilithium key (code=" ++ toString ret ++ ")"))
    else
      (true, debug_printf d "Client Dilithium key loaded successfully (PEM format)")
  else
    (true, debug_printf d "Client Dilithium key loaded successfully (DER format)")

/-- One turn of `while (1)`: the attempt to connect and what follows from it. -/
def handshake_turn (u : Usb) (w : WolfSSL σ) (s : σ) (d : Device) : Stage σ × Device :=
  let attempt := (w.connect s).run (handle u) d
  let ret := attempt.1.1
  let s := attempt.1.2
  let d := attempt.2.call (.connect ret)
  if ret = WOLFSSL_SUCCESS then
    (.connected s, d)
  else
    let err := w.get_error s ret
    let d := d.call .get_error
    if err = .want_read ∨ err = .want_write then
      let avail := RB_Available d.rxRing
      let d :=
        if avail > (RING_BUF_SIZE / 2 : Nat) then
          debug_printf d ("Warning: RB Load High: " ++ toString avail ++ " bytes waiting")
        else d
      (.looping s, usb_device_task u d)
    else
      -- `error_count` is 1 here, so the message about too many errors never appears.
      let d := d.call .ERR_error_string
      (.cleanup true true, debug_printf d ("TLS fatal error: " ++ w.error_string err ++ " (" ++
        toString (w.error_code err) ++ ")"))

/-- The handshake loop, stopped after `turns` turns if it still runs. -/
def handshake_loop (u : Usb) (w : WolfSSL σ) : Nat → σ → Device → Stage σ × Device
  | 0, s, d => (.looping s, d)
  | turns + 1, s, d =>
    match handshake_turn u w s d with
    | (.looping s, d) => handshake_loop u w turns s d
    | stop => stop

/-- What a session with hybrid signatures is used for: one message. -/
def send_hello (u : Usb) (w : WolfSSL σ) (s : σ) (d : Device) : Device :=
  let d := d.call .get_cipher
  let d := debug_printf d ("TLS Handshake Complete! Cipher: " ++ w.get_cipher s)
  let msg := "hello".toList.map Char.toUInt8
  let attempt := (w.write s msg).run (handle u) d
  let write_ret := attempt.1.1
  let s := attempt.1.2
  let d := attempt.2.call (.write msg write_ret)
  let d :=
    if write_ret < 0 then
      debug_printf (d.call .get_error)
        ("Error: TLS write failed (code=" ++ toString (w.error_code (w.get_error s write_ret)) ++ ")")
    else
      debug_printf d ("TLS write success: " ++ toString write_ret ++ " bytes")
  let d := debug_printf d "Shutting down TLS connection..."
  ((w.shutdown s).run (handle u) d).2.call .shutdown

/-- What follows a successful handshake, up to the label `cleanup`. -/
def after_handshake (u : Usb) (w : WolfSSL σ) (s : σ) (d : Device) : Device :=
  let d := d.call (.peerSigSpec (w.peerSigSpec s) (w.peerSigSpecSz s))
  match w.peerSigSpec s with
  | none => debug_printf d "Error: Server signature spec not available"
  | some server_sigspec =>
    if w.peerSigSpecSz s > 0 then
      if server_sigspec ≠ w.CKS_SIGSPEC_BOTH then
        debug_printf d ("Error: Server did not use hybrid signatures (sigspec=" ++
          toString server_sigspec ++ ")")
      else
        send_hello u w s d
    else
      debug_printf d "Error: Server signature spec not available"

/-- The part of `tls_pqc_task` before the handshake loop. Where the source jumps
    to `cleanup`, the result tells which of `ssl` and `ctx` are not NULL there. -/
def tls_pqc_setup (w : WolfSSL σ) (d : Device) : Option (Bool × Bool) × Device :=
  let d := { d with tls_active := true }
  let d := d.call (.Init w.Init)
  let d := debug_printf d ("TLS PQC task starting. RB Size: " ++ toString RING_BUF_SIZE)
  let d := d.call (.CTX_new w.CTX_new)
  if !w.CTX_new then
    (some (false, false), debug_printf d "Error: Failed to create SSL context")
  else
  let d := ((d.call .CTX_set_verify).call .CTX_SetIORecv).call .CTX_SetIOSend
  let (loaded, d) := load_client w d
  if !loaded then
    (some (false, true), d)
  else
  let d := d.call (.new w.new)
  if !w.new then
    (some (false, true), debug_printf d "Error: Failed to create SSL object")
  else
  let d := d.call (.UseCKS w.UseCKS)
  if w.UseCKS = 0 then
    (some (true, true),
      debug_printf d "Error: Failed to set Dual-Alg (CKS) verification to BOTH")
  else
  let d := d.call .SetIOReadCtx
  let d := ({ d with rxRing := d.rxRing.reset }).emit .session_reset
  (none, debug_printf d "Starting TLS handshake...")

/-- `tls_pqc_task` up to its label `cleanup`, with a bound on the turns of the
    handshake loop. -/
def tls_pqc_body (u : Usb) (w : WolfSSL σ) (turns : Nat) (d : Device) : Stage σ × Device :=
  match tls_pqc_setup w d with
  | (some (ssl, ctx), d) => (.cleanup ssl ctx, d)
  | (none, d) =>
    match handshake_loop u w turns w.start d with
    | (.connected s, d) => (.cleanup true true, after_handshake u w s d)
    | stop => stop

/-- The whole task. The flag tells whether it has returned within the bound. -/
def tls_pqc_task (u : Usb) (w : WolfSSL σ) (turns : Nat) (d : Device) : Bool × Device :=
  match tls_pqc_body u w turns d with
  | (.cleanup ssl ctx, d) => (true, cleanup_tls_resources u ssl ctx d)
  | (_, d) => (false, d)

end keychain.tls
