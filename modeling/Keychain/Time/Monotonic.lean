import Keychain.Time.Timer
import Mathlib.Order.Nat

namespace keychain.time

/-- The time that the updates and the counter stand for. -/
def Timer.shown (s : Timer) : Nat :=
  1000 * s.updates + s.CNT

/-- Times stay below `2 ^ 64`. -/
def Timer.InRange (s : Timer) : Event → Prop
  | .count => s.count.shown < 2 ^ 64
  | _ => True

/-- The counter does not wrap between the two register reads of a call. If an
    update is pending at the first, `Timer.Serviced` excludes it already. -/
def Timer.Prompt (s : Timer) : Event → Prop
  | .count => s.CNT = ARR → ∀ t mark, s.pc ≠ .sr t mark
  | _ => True

/-- What the running call is going to return, or the time for a call to come. -/
def Timer.floor (s : Timer) : Nat :=
  match s.pc with
  | .sr t _ => 1000 * s.updates + t
  | .ret t _ => 1000 * s.serviced + t
  | _ => s.shown

/-- The running call returns no time that is still to come. -/
structure Timer.Behind (first : Nat) (s : Timer) : Prop extends s.Kept first where
  in_range : s.shown < 2 ^ 64
  floor_le : s.floor ≤ s.shown

theorem Timer.shown_count_le (s : Timer) : s.shown ≤ s.count.shown := by
  unfold Timer.shown Timer.count
  split_ifs with hend
  · simp only [hend, ARR]
    omega
  · dsimp only
    omega

theorem Timer.count_updates_of_ne {s : Timer} (h : s.CNT ≠ ARR) : s.count.updates = s.updates := by
  rw [Timer.count, if_neg h]

theorem Timer.count_pc (s : Timer) : s.count.pc = s.pc := by
  unfold Timer.count
  split <;> rfl

theorem Timer.count_serviced (s : Timer) : s.count.serviced = s.serviced := by
  unfold Timer.count
  split <;> rfl

/-- Counting leaves alone what the running call is going to return. -/
theorem Timer.floor_count {s : Timer} (hprompt : s.Prompt .count) :
    s.count.floor = s.floor ∨ s.floor = s.shown ∧ s.count.floor = s.count.shown := by
  unfold Timer.floor
  rw [s.count_pc, s.count_serviced]
  cases hpc : s.pc with
  | sr t mark =>
    have hne : s.CNT ≠ ARR := fun hend => hprompt hend t mark hpc
    exact .inl (by rw [Timer.count_updates_of_ne hne])
  | ret t mark => exact .inl rfl
  | out => exact .inr ⟨rfl, rfl⟩
  | handler => exact .inr ⟨rfl, rfl⟩
  | cnt => exact .inr ⟨rfl, rfl⟩

theorem TIM2_IRQHandler_shown (s : Timer) : (TIM2_IRQHandler s).shown = s.shown := by
  unfold TIM2_IRQHandler
  split <;> rfl

theorem TIM2_IRQHandler_pc (s : Timer) : (TIM2_IRQHandler s).pc = s.pc := by
  unfold TIM2_IRQHandler
  split <;> rfl

/-- The software count is short of the updates by the one that is pending. -/
theorem Timer.Kept.timer_ms_eq {first : Nat} {s : Timer} (h : s.Kept first)
    (hrange : s.shown < 2 ^ 64) : s.timer_ms = s.serviced := by
  have hupdates := h.updates_eq
  rw [h.ms_eq]
  apply Nat.mod_eq_of_lt
  unfold Timer.shown at hrange
  omega

theorem Timer.Behind.count {first : Nat} {s : Timer} (h : s.Behind first)
    (hserviced : s.Serviced .count) (hrange : s.InRange .count) (hprompt : s.Prompt .count) :
    s.count.Behind first ∧ s.floor ≤ s.count.floor := by
  have hshown := s.shown_count_le
  have hle := h.floor_le
  obtain hsame | ⟨hnow, hnext⟩ := Timer.floor_count hprompt
  · exact ⟨⟨h.toKept.count hserviced, hrange, by omega⟩, by omega⟩
  · exact ⟨⟨h.toKept.count hserviced, hrange, by omega⟩, by omega⟩

/-- An access takes no time, and leaves what the running call is going to return
    as it is until the call returns it. -/
theorem Timer.Kept.access_floor {first : Nat} {s : Timer} (h : s.Kept first)
    (hrange : s.shown < 2 ^ 64) :
    s.access.1.shown = s.shown ∧
      (s.access.2 = none ∧ s.access.1.floor = s.floor ∨
        s.access.2.map Reading.value = some (s.floor % 2 ^ 64) ∧ s.access.1.floor = s.shown) := by
  have hms := h.timer_ms_eq hrange
  have hupdates := h.updates_eq
  unfold Timer.access Timer.floor
  cases hpc : s.pc with
  | out => exact ⟨rfl, .inl ⟨rfl, by rw [hpc]⟩⟩
  | handler => exact ⟨TIM2_IRQHandler_shown s, .inl ⟨rfl, TIM2_IRQHandler_shown s⟩⟩
  | cnt =>
    refine ⟨rfl, .inl ⟨rfl, ?_⟩⟩
    dsimp only
    by_cases hsmall : s.CNT < 100
    · rw [if_pos hsmall]
      rfl
    · rw [h.uif_of_high hsmall, Bool.toNat_false, Nat.add_zero] at hupdates
      rw [if_neg hsmall]
      exact congrArg (1000 * · + s.CNT) hupdates
  | sr t mark =>
    refine ⟨rfl, .inl ⟨rfl, ?_⟩⟩
    dsimp only
    cases hUIF : s.UIF with
    | false =>
      rw [hUIF, Bool.toNat_false, Nat.add_zero] at hupdates
      rw [hupdates]
      rfl
    | true =>
      rw [hUIF, Bool.toNat_true] at hupdates
      simp only [if_true]
      omega
  | ret t mark => exact ⟨rfl, .inr ⟨by simp [hms, Nat.mul_comm], rfl⟩⟩

theorem Timer.Behind.access {first : Nat} {s : Timer} (h : s.Behind first) :
    s.access.1.Behind first ∧ s.floor ≤ s.access.1.floor ∧
      ∀ v ∈ s.access.2.map Reading.value, s.floor ≤ v ∧ v ≤ s.access.1.floor := by
  have hle := h.floor_le
  have hrange := h.in_range
  obtain ⟨hshown, ⟨hnone, hfloor⟩ | ⟨hvalue, hfloor⟩⟩ := h.toKept.access_floor hrange
  · refine ⟨⟨h.toKept.access, by omega, by omega⟩, by omega, ?_⟩
    simp [hnone]
  · refine ⟨⟨h.toKept.access, by omega, by omega⟩, by omega, ?_⟩
    intro v hv
    rw [hvalue] at hv
    cases hv
    rw [Nat.mod_eq_of_lt (by omega)]
    omega

/-- What happens outside the calls takes no time and returns none. -/
theorem Timer.Behind.idle {first : Nat} {s next : Timer} (h : s.Behind first) (hout : s.pc = .out)
    (hkept : next.Kept first) (hshown : next.shown = s.shown) (hfloor : next.floor = next.shown) :
    next.Behind first ∧ s.floor ≤ next.floor ∧
      ∀ v ∈ (none : Option Reading).map Reading.value, s.floor ≤ v ∧ v ≤ next.floor := by
  have hnow : s.floor = s.shown := by simp only [Timer.floor, hout]
  have hrange := h.in_range
  exact ⟨⟨hkept, by omega, by omega⟩, by omega, by simp⟩

theorem Timer.Behind.step {first : Nat} {s : Timer} (h : s.Behind first) (event : Event)
    (hserviced : s.Serviced event) (hrange : s.InRange event) (hprompt : s.Prompt event) :
    (s.step event).1.Behind first ∧ s.floor ≤ (s.step event).1.floor ∧
      ∀ v ∈ (s.step event).2.map Reading.value, s.floor ≤ v ∧ v ≤ (s.step event).1.floor := by
  have hkept := h.toKept.step event hserviced
  obtain ⟨rfl, hstep⟩ | hstep | hstep | ⟨hout, hstep⟩ | ⟨hout, pc, hpc, hstep⟩ := s.step_cases event
  · obtain ⟨hnext, hfloor⟩ := h.count hserviced hrange hprompt
    rw [hstep]
    exact ⟨hnext, hfloor, by simp⟩
  · rw [hstep]
    exact h.access
  · rw [hstep]
    exact ⟨h, Nat.le_refl _, by simp⟩
  · rw [hstep] at hkept ⊢
    have hpc : (TIM2_IRQHandler s).pc = .out := by
      rw [TIM2_IRQHandler_pc, hout]
    exact h.idle hout hkept (TIM2_IRQHandler_shown s) (by simp only [Timer.floor, hpc])
  · rw [hstep] at hkept ⊢
    obtain rfl | rfl := hpc
    · exact h.idle hout hkept rfl rfl
    · exact h.idle hout hkept rfl rfl

/-- What the run is assumed to do. -/
def Timer.Allowed (s : Timer) (event : Event) : Prop :=
  s.Serviced event ∧ s.InRange event

instance (s : Timer) (event : Event) : Decidable (s.InRange event) :=
  match event with
  | .count => inferInstanceAs (Decidable (_ < _))
  | .irq | .get_time | .get_time_irq | .access => inferInstanceAs (Decidable True)

instance (s : Timer) (event : Event) : Decidable (s.Allowed event) :=
  inferInstanceAs (Decidable (_ ∧ _))

theorem Timer.Kept.step_in_range {first : Nat} {s : Timer} (h : s.Kept first)
    (hrange : s.shown < 2 ^ 64) (event : Event) (hallowed : s.InRange event) :
    (s.step event).1.shown < 2 ^ 64 := by
  obtain ⟨rfl, -⟩ | hstep | hstep | ⟨-, hstep⟩ | ⟨-, pc, -, hstep⟩ := s.step_cases event
  · exact hallowed
  · obtain ⟨hshown, -⟩ := h.access_floor hrange
    rw [hstep, hshown]
    exact hrange
  · rw [hstep]
    exact hrange
  · rw [hstep, TIM2_IRQHandler_shown]
    exact hrange
  · rw [hstep]
    exact hrange

theorem Timer.start_in_range (UIF : Bool) : (Timer.start UIF).shown < 2 ^ 64 := by
  cases UIF <;> decide

/-- Whether the counter wraps in a step, as a number. -/
def Timer.wraps (s : Timer) : Event → Nat
  | .count => if s.CNT = ARR then 1 else 0
  | _ => 0

/-- How often the counter wraps in a run. -/
def wraps : Timer → List Event → Nat
  | _, [] => 0
  | s, event :: rest => s.wraps event + wraps (s.step event).1 rest

theorem TIM2_IRQHandler_updates (s : Timer) : (TIM2_IRQHandler s).updates = s.updates := by
  unfold TIM2_IRQHandler
  split <;> rfl

theorem Timer.access_updates (s : Timer) : s.access.1.updates = s.updates := by
  unfold Timer.access
  cases s.pc with
  | handler => exact TIM2_IRQHandler_updates s
  | _ => rfl

theorem Timer.step_updates (s : Timer) (event : Event) :
    (s.step event).1.updates = s.updates + s.wraps event := by
  cases event with
  | count =>
    simp only [Timer.step, Timer.count, Timer.wraps]
    split_ifs <;> rfl
  | access => exact s.access_updates
  | irq =>
    simp only [Timer.step]
    split_ifs
    · exact TIM2_IRQHandler_updates s
    · rfl
  | get_time =>
    simp only [Timer.step]
    split_ifs <;> rfl
  | get_time_irq =>
    simp only [Timer.step]
    split_ifs <;> rfl

theorem run_updates (s : Timer) (events : List Event) :
    (machine.run Timer.step s events).1.updates = s.updates + wraps s events := by
  induction events generalizing s with
  | nil => rfl
  | cons event rest ih => rw [machine.run_cons, ih, s.step_updates, wraps, Nat.add_assoc]

/-- In every run whose updates are serviced in time, the software count and the
    pending update are all wraps there were, and the update of `timer_init` if that
    was pending at the start. If moreover the counter never wraps between the two
    register reads of a call, the times returned never decrease. -/
theorem timer_never_runs_backwards (UIF : Bool) (events : List Event)
    (hallowed : machine.Admits Timer.step Timer.Allowed (.start UIF) events) :
    (∀ before, before <+: events →
      let s := (machine.run Timer.step (.start UIF) before).1
      s.timer_ms + s.UIF.toNat = wraps (.start UIF) before + UIF.toNat) ∧
      (machine.Admits Timer.step Timer.Prompt (.start UIF) events →
        ((readings (.start UIF) events).map Reading.value).Pairwise (· ≤ ·)) := by
  constructor
  · rintro before ⟨after, hevents⟩ s
    obtain ⟨hkept, hrange⟩ := machine.reached_invariant Timer.step
      (fun s => s.Kept UIF.toNat ∧ s.shown < 2 ^ 64) Timer.Allowed
      (fun s event h hallowed => ⟨h.1.step event hallowed.1, h.1.step_in_range h.2 event hallowed.2⟩)
      ⟨Timer.start_kept UIF, Timer.start_in_range UIF⟩ hallowed ⟨before, after, hevents.symm, rfl⟩
    calc s.timer_ms + s.UIF.toNat
      _ = s.updates := by rw [hkept.timer_ms_eq hrange, hkept.updates_eq]
      _ = UIF.toNat + wraps (.start UIF) before := run_updates (.start UIF) before
      _ = wraps (.start UIF) before + UIF.toNat := Nat.add_comm _ _
  · intro hprompt
    have hstart : (Timer.start UIF).Behind UIF.toNat :=
      ⟨Timer.start_kept UIF, Timer.start_in_range UIF, Nat.le_refl _⟩
    obtain ⟨hsorted, -⟩ := machine.run_pairwise_le Timer.step (Timer.Behind UIF.toNat)
      (fun s event => s.Allowed event ∧ s.Prompt event) Timer.floor (Option.map Reading.value)
      (fun s event h hboth => h.step event hboth.1.1 hboth.1.2 hboth.2) hstart
      (machine.admits_and Timer.step hallowed hprompt)
    rw [readings, List.map_filterMap]
    exact hsorted

/-- A call that the update of its first microsecond falls into, and a second one
    after that update is serviced. -/
theorem timer_never_runs_backwards_two_calls :
    (∀ before, before <+: [Event.get_time, .access, .count, .access, .access, .irq, .get_time,
        .access, .access, .access] →
      let s := (machine.run Timer.step (.start true) before).1
      s.timer_ms + s.UIF.toNat = wraps (.start true) before + 1) ∧
      (machine.Admits Timer.step Timer.Prompt (.start true)
          [.get_time, .access, .count, .access, .access, .irq, .get_time, .access, .access, .access] →
        ((readings (.start true) [.get_time, .access, .count, .access, .access, .irq, .get_time,
          .access, .access, .access]).map Reading.value).Pairwise (· ≤ ·)) :=
  timer_never_runs_backwards true _ (by decide)

theorem Timer.readings_counts {s : Timer} {passed : Nat} (h : s.CNT + passed ≤ ARR)
    (events : List Event) :
    readings s (List.replicate passed .count ++ events) =
      readings { s with CNT := s.CNT + passed, counts := s.counts + passed } events := by
  rw [readings, machine.run_append, Timer.run_counts h, readings]
  simp [List.filterMap_append]

/-- While no update is pending, nothing stops the counter before its end. -/
theorem Timer.admits_counts {s : Timer} {passed : Nat} (h : s.CNT + passed ≤ ARR)
    (hUIF : s.UIF = false) (hrange : 1000 * s.updates + ARR < 2 ^ 64) :
    machine.Admits Timer.step Timer.Allowed s (List.replicate passed .count) := by
  induction passed generalizing s with
  | zero => trivial
  | succ passed ih =>
    have hcount : s.count = { s with CNT := s.CNT + 1, counts := s.counts + 1 } :=
      if_neg (by omega)
    refine ⟨⟨fun hset => ?_, ?_⟩, ?_⟩
    · rw [hUIF] at hset
      cases hset
    · simp only [Timer.InRange, hcount, Timer.shown]
      omega
    · rw [Timer.step, hcount]
      exact ih (by dsimp only; omega) hUIF hrange

/-- A call reads the counter at 50, then waits until the counter has wrapped, and
    is followed by another call. -/
def stalling : List Event :=
  List.replicate 50 .count ++ ([.get_time, .access] ++ (List.replicate 950 .count ++
    [.count, .access, .access, .get_time, .access, .access, .access]))

/-- The timer when the stalled call has read the counter. -/
def stalled : Timer :=
  ⟨50, false, 0, .sr 50 ⟨50, 50, 0, false⟩, 50, 0, 0⟩

/-- The stalled call returns 1050, and the one after it 1000. An update of
    `timer_init` that is pending at the start is no wrap. -/
theorem stalled_call_runs_ahead :
    machine.Admits Timer.step Timer.Allowed (.start false) stalling ∧
      (readings (.start false) stalling).map Reading.value = [1050, 1000] ∧
      ¬ ((readings (.start false) stalling).map Reading.value).Pairwise (· ≤ ·) ∧
      (Timer.start true).timer_ms + (Timer.start true).UIF.toNat ≠ wraps (.start true) [] := by
  have hfirst : (Timer.start false).CNT + 50 ≤ ARR := by decide
  have hsecond : stalled.CNT + 950 ≤ ARR := by decide
  have hvalues : (readings (.start false) stalling).map Reading.value = [1050, 1000] := by
    have hread : ∀ rest, readings { Timer.start false with CNT := 50, counts := 50 }
        ([.get_time, .access] ++ rest) = readings stalled rest := fun _ => rfl
    rw [stalling, Timer.readings_counts hfirst]
    refine (congrArg _ (hread _)).trans ?_
    rw [Timer.readings_counts hsecond]
    decide
  refine ⟨?_, hvalues, by rw [hvalues]; decide, by decide⟩
  rw [stalling, machine.admits_append, Timer.run_counts hfirst]
  refine ⟨Timer.admits_counts hfirst rfl (by decide), ?_⟩
  rw [machine.admits_append]
  refine ⟨by decide, ?_⟩
  have hread : (machine.run Timer.step { Timer.start false with CNT := 50, counts := 50 }
      [.get_time, .access]).1 = stalled := rfl
  refine Eq.mpr (congrArg (fun s => machine.Admits Timer.step Timer.Allowed s _) hread) ?_
  rw [machine.admits_append, Timer.run_counts hsecond]
  exact ⟨Timer.admits_counts hsecond rfl (by decide), by decide⟩

end keychain.time
