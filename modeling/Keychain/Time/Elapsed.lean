import Keychain.Time.Monotonic
import Mathlib.Data.Int.ModEq

namespace keychain.time

/-- What a reading is made of: a millisecond for each update, the counter, and a
    millisecond more if the call was late. `first` is the number of updates at
    the start of the run. -/
structure Reading.Measures (first : Nat) (r : Reading) : Prop where
  value_eq : r.value = (1000 * r.mark.updates + r.mark.cnt + 1000 * r.mark.late.toNat) % 2 ^ 64
  counts_eq : r.mark.counts + 1001 * first = 1001 * r.mark.updates + r.mark.cnt

/-- The difference of two returned times, as a `u64`, is the number of counter
    steps between the two reads of the counter. -/
def ElapsedExact (earlier later : Reading) : Prop :=
  (later.value : Int) - earlier.value ≡ later.mark.counts - earlier.mark.counts [ZMOD 2 ^ 64]

/-- There are as many update events between the two reads of the counter as make
    up for the millisecond that a late call adds. -/
def UpdatesBalance (earlier later : Reading) : Prop :=
  (later.mark.updates : Int) - earlier.mark.updates ≡
    1000 * (later.mark.late.toNat - earlier.mark.late.toNat) [ZMOD 2 ^ 64]

instance (earlier later : Reading) : Decidable (ElapsedExact earlier later) :=
  inferInstanceAs (Decidable (_ = _))

instance (earlier later : Reading) : Decidable (UpdatesBalance earlier later) :=
  inferInstanceAs (Decidable (_ = _))

theorem Timer.Kept.reading {first : Nat} {s : Timer} (h : s.Kept first) (event : Event) :
    ∀ r ∈ (s.step event).2, r.Measures first := by
  obtain ⟨-, hstep⟩ | hstep | hstep | ⟨-, hstep⟩ | ⟨-, pc, -, hstep⟩ := s.step_cases event
  · simp [hstep]
  · rw [hstep, Timer.access]
    cases hpc : s.pc with
    | ret t mark =>
      have hnoted := h.noted
      rw [hpc] at hnoted
      obtain ⟨hcounts, hvalue⟩ := hnoted
      rintro r hr
      cases hr
      refine ⟨?_, hcounts⟩
      rw [← hvalue, h.ms_eq, Nat.mul_comm]
      exact ((Nat.mod_modEq s.serviced _).mul_left 1000).add_right t
    | out => simp
    | handler => simp
    | cnt => simp
    | sr t mark => simp
  · simp [hstep]
  · simp [hstep]
  · simp [hstep]

theorem readings_measure {UIF : Bool} {events : List Event}
    (hserviced : machine.Admits Timer.step Timer.Serviced (.start UIF) events) :
    ∀ r ∈ readings (.start UIF) events, r.Measures UIF.toNat := by
  intro r hr
  obtain ⟨output, houtput, hsome⟩ := List.mem_filterMap.mp hr
  exact machine.run_outputs Timer.step (Timer.Kept UIF.toNat) Timer.Serviced
    (fun output => ∀ r ∈ output, r.Measures UIF.toNat)
    (fun s event h hserviced => ⟨h.step event hserviced, h.reading event⟩) (Timer.start_kept UIF)
    hserviced output houtput r hsome

theorem Reading.Measures.value_modEq {first : Nat} {r : Reading} (h : r.Measures first) :
    (r.value : Int) ≡ 1000 * r.mark.updates + r.mark.cnt + 1000 * r.mark.late.toNat [ZMOD 2 ^ 64] := by
  have hvalue := h.value_eq
  rw [Int.ModEq, hvalue]
  push_cast
  exact Int.emod_emod_of_dvd _ (Int.dvd_refl _)

/-- The period of the counter is one step longer than the millisecond that an
    update counts for, so the times of two calls measure the steps between them
    exactly only where the updates in between make up for late calls. -/
theorem elapsed_exact_iff (UIF : Bool) (events : List Event)
    (hserviced : machine.Admits Timer.step Timer.Serviced (.start UIF) events)
    (earlier later : Reading) (hearlier : earlier ∈ readings (.start UIF) events)
    (hlater : later ∈ readings (.start UIF) events) :
    ElapsedExact earlier later ↔ UpdatesBalance earlier later := by
  have hold := readings_measure hserviced earlier hearlier
  have hnew := readings_measure hserviced later hlater
  have hdiff := Int.ModEq.sub hnew.value_modEq hold.value_modEq
  have holdcounts := hold.counts_eq
  have hnewcounts := hnew.counts_eq
  have hgap : ((later.mark.counts : Int) - earlier.mark.counts) -
      ((1000 * later.mark.updates + later.mark.cnt + 1000 * later.mark.late.toNat) -
        (1000 * earlier.mark.updates + earlier.mark.cnt + 1000 * earlier.mark.late.toNat)) =
      (later.mark.updates - earlier.mark.updates) -
        1000 * (later.mark.late.toNat - earlier.mark.late.toNat) := by
    omega
  unfold ElapsedExact UpdatesBalance
  constructor
  · intro h
    have hzero := Int.modEq_iff_dvd.mp (hdiff.symm.trans h)
    rw [hgap] at hzero
    exact (Int.modEq_iff_dvd.mpr hzero).symm
  · intro h
    refine hdiff.trans (Int.modEq_iff_dvd.mpr ?_)
    rw [hgap]
    exact Int.modEq_iff_dvd.mp h.symm

/-- Two calls one microsecond apart. -/
theorem elapsed_exact_iff_one_count :
    ElapsedExact ⟨0, 0, 0, 0, false⟩ ⟨1, 1, 1, 0, false⟩ ↔
      UpdatesBalance ⟨0, 0, 0, 0, false⟩ ⟨1, 1, 1, 0, false⟩ :=
  elapsed_exact_iff false
    [.get_time, .access, .access, .access, .count, .get_time, .access, .access, .access] (by decide)
    ⟨0, 0, 0, 0, false⟩ ⟨1, 1, 1, 0, false⟩ (by decide) (by decide)

/-- A call, one whole period of the counter, and another call. -/
def one_period : List Event :=
  [.get_time, .access, .access, .access] ++ (List.replicate 1000 .count ++
    [.count, .irq, .get_time, .access, .access, .access])

/-- The counter makes 1001 steps between two calls, and the times that they
    return differ by 1000. -/
theorem one_period_is_short :
    machine.Admits Timer.step Timer.Serviced (.start false) one_period ∧
      readings (.start false) one_period = [⟨0, 0, 0, 0, false⟩, ⟨1000, 0, 1001, 1, false⟩] ∧
      ¬ ElapsedExact ⟨0, 0, 0, 0, false⟩ ⟨1000, 0, 1001, 1, false⟩ := by
  have hend : (Timer.start false).CNT + 1000 ≤ ARR := by decide
  refine ⟨?_, ?_, by decide⟩
  · rw [one_period, machine.admits_append]
    refine ⟨by decide, ?_⟩
    have hread : (machine.run Timer.step (Timer.start false)
        [.get_time, .access, .access, .access]).1 = Timer.start false := rfl
    rw [hread, machine.admits_append, Timer.run_counts hend]
    refine ⟨?_, by decide⟩
    exact machine.admits_mono Timer.step (fun _ _ h => h.1)
      (Timer.admits_counts hend rfl (by decide))
  · have hread : ∀ rest, readings (.start false) ([.get_time, .access, .access, .access] ++ rest) =
        ⟨0, 0, 0, 0, false⟩ :: readings (.start false) rest := fun _ => rfl
    rw [one_period, hread, Timer.readings_counts hend]
    decide

end keychain.time
