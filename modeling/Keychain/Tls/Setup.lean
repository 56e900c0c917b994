import Keychain.Tls.Control

namespace keychain.tls

variable {σ : Type}

/-- Every setup call has reported success; for the alternative key, one of its
    two attempts has. -/
def WolfSSL.SetupSucceeded (w : WolfSSL σ) : Prop :=
  w.Init = WOLFSSL_SUCCESS ∧ w.CTX_new = true ∧ w.use_certificate = WOLFSSL_SUCCESS ∧
    w.use_PrivateKey = WOLFSSL_SUCCESS ∧
    (w.use_AltPrivateKey .asn1 = WOLFSSL_SUCCESS ∨ w.use_AltPrivateKey .pem = WOLFSSL_SUCCESS) ∧
    w.new = true ∧ w.UseCKS = WOLFSSL_SUCCESS

instance (w : WolfSSL σ) : Decidable w.SetupSucceeded :=
  inferInstanceAs (Decidable (_ ∧ _))

/-- The checks of the source miss two of the results: the one of `wolfSSL_Init`,
    and a negative one of `wolfSSL_UseCKS`. -/
theorem WolfSSL.setupSucceeded_iff (w : WolfSSL σ) :
    w.SetupSucceeded ↔
      w.Configured ∧ w.Init = WOLFSSL_SUCCESS ∧ w.UseCKS = WOLFSSL_SUCCESS := by
  constructor
  · rintro ⟨hinit, hctx, hcert, hkey, halt, hnew, hcks⟩
    refine ⟨⟨hctx, hcert, hkey, halt, hnew, ?_⟩, hinit, hcks⟩
    rw [hcks]
    decide
  · rintro ⟨⟨hctx, hcert, hkey, halt, hnew, -⟩, hinit, hcks⟩
    exact ⟨hinit, hctx, hcert, hkey, halt, hnew, hcks⟩

/-- A session connects only after a successful setup exactly when one of the
    checks stops it, or the two results that no check can tell are successes. -/
theorem connects_only_after_setup_iff (u : Usb) (w : WolfSSL σ) (turns : Nat) (d : Device) :
    ∃ cs, (tls_pqc_task u w (turns + 1) d).2.calls = d.calls ++ cs ∧
      (((∃ ret, .connect ret ∈ cs) → w.SetupSucceeded) ↔
        ¬ w.Configured ∨ (w.Init = WOLFSSL_SUCCESS ∧ w.UseCKS = WOLFSSL_SUCCESS)) := by
  obtain ⟨cs, hcalls, -, hconnect, -⟩ := tls_pqc_task_calls u w (turns + 1) d
  refine ⟨cs, hcalls, ?_⟩
  rw [hconnect (Nat.succ_pos turns), w.setupSucceeded_iff]
  tauto

/-- The task connects although `wolfSSL_UseCKS` answered with an error code, and
    likewise although `wolfSSL_Init` did. -/
theorem connects_after_failed_setup :
    (.connect 1 ∈ (tls_pqc_task ⟨fun _ => true, fun _ => none, fun _ => true⟩ (permissive 1 (-173)) 1
        (Device.power_on (fun _ => 0) (fun _ => 0))).2.calls ∧
      ¬ (permissive 1 (-173)).SetupSucceeded) ∧
    (.connect 1 ∈ (tls_pqc_task ⟨fun _ => true, fun _ => none, fun _ => true⟩ (permissive (-228) 1) 1
        (Device.power_on (fun _ => 0) (fun _ => 0))).2.calls ∧
      ¬ (permissive (-228) 1).SetupSucceeded) := by
  decide

end keychain.tls
