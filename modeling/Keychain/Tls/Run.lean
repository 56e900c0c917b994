import Keychain.Tls.Task

namespace keychain.tls

variable {σ : Type}

/-- What the main loop does with the two receive paths: it polls the USB side,
    fetches a character of a command, or runs a TLS session. -/
inductive Action (σ : Type) where
  | poll
  | getchar
  | session (w : WolfSSL σ) (turns : Nat)

/-- A TLS session with the state of the device when it was started. -/
structure Session (σ : Type) where
  device : Device
  w : WolfSSL σ
  turns : Nat

/-- What an observer of the two receive paths sees of a session. -/
def Session.events (u : Usb) (s : Session σ) : List Event :=
  (tls_pqc_task u s.w s.turns s.device).2.trace.drop s.device.trace.length

/-- The sessions of a run. A session that still is in its handshake loop ends
    the run: nothing else gets its turn. -/
def sessions (u : Usb) : Device → List (Action σ) → List (Session σ)
  | _, [] => []
  | d, .poll :: rest => sessions u (usb_device_task u d) rest
  | d, .getchar :: rest =>
    sessions u { d with stream := (tty._usb_getchar d.stream).2 } rest
  | d, .session w turns :: rest =>
    let task := tls_pqc_task u w turns d
    ⟨d, w, turns⟩ :: if task.1 then sessions u task.2 rest else []

/-- What every action preserves holds of the device at the start of every session. -/
theorem sessions_invariant (u : Usb) (Inv : Device → Prop)
    (hpoll : ∀ d, Inv d → Inv (usb_device_task u d))
    (hgetchar : ∀ d, Inv d → Inv { d with stream := (tty._usb_getchar d.stream).2 })
    (hsession : ∀ (w : WolfSSL σ) turns d, Inv d → Inv (tls_pqc_task u w turns d).2)
    (actions : List (Action σ)) (d : Device) (h : Inv d) :
    ∀ s ∈ sessions u d actions, Inv s.device := by
  induction actions generalizing d with
  | nil => simp [sessions]
  | cons action rest ih =>
    cases action with
    | poll => exact ih _ (hpoll d h)
    | getchar => exact ih _ (hgetchar d h)
    | session w turns =>
      intro s hs
      rw [sessions, List.mem_cons] at hs
      obtain rfl | hs := hs
      · exact h
      · split_ifs at hs
        · exact ih _ (hsession w turns d h) s hs
        · simp at hs

end keychain.tls
