import Keychain.Library.Machine
import Mathlib.Algebra.Group.Nat.Defs

namespace keychain.time

/-- The auto-reload value that `timer_init` writes. The counter takes the values
    `0` to `ARR`. -/
def ARR : Nat := 1000

/-- What a call noted at its read of `CNT`: the value it read, with the counter
    steps and the update events up to then. It is late if an update event came
    between that read and the one of the flag. -/
structure Mark where
  cnt : Nat
  counts : Nat
  updates : Nat
  late : Bool
  deriving DecidableEq

/-- Where the running call of `timer_get_time` or `timer_get_time_irq` stands:
    before it runs the handler by hand, before the reads of `CNT` and of `SR`,
    or before it returns. Interrupts are disabled until then. -/
inductive Pc where
  | out
  | handler
  | cnt
  | sr (t : Nat) (mark : Mark)
  | ret (t : Nat) (mark : Mark)
  deriving DecidableEq

/-- The timer with its software count, and the call that is running. The last
    three fields are not in the device: the steps of the counter, its update
    events, and the updates that the handler has counted. -/
structure Timer where
  CNT : Nat
  UIF : Bool
  timer_ms : Nat
  pc : Pc
  counts : Nat
  updates : Nat
  serviced : Nat
  deriving DecidableEq

/-- A time that a call returned. -/
structure Reading where
  value : Nat
  mark : Mark
  deriving DecidableEq

/-- After `timer_init`. The update event that it generates counts as one if its
    flag is still set. -/
def Timer.start (UIF : Bool) : Timer :=
  ⟨0, UIF, 0, .out, 0, UIF.toNat, 0⟩

/-- One microsecond of the counter. -/
def Timer.count (s : Timer) : Timer :=
  if s.CNT = ARR then
    { s with CNT := 0, UIF := true, counts := s.counts + 1, updates := s.updates + 1 }
  else
    { s with CNT := s.CNT + 1, counts := s.counts + 1 }

def TIM2_IRQHandler (s : Timer) : Timer :=
  if s.UIF then
    { s with UIF := false, timer_ms := (s.timer_ms + 1) % 2 ^ 64, serviced := s.serviced + 1 }
  else s

/-- The next access of the running call to a register or to `timer_ms`. -/
def Timer.access (s : Timer) : Timer × Option Reading :=
  match s.pc with
  | .out => (s, none)
  | .handler => ({ TIM2_IRQHandler s with pc := .cnt }, none)
  | .cnt =>
    let mark := ⟨s.CNT, s.counts, s.updates, false⟩
    ({ s with pc := if s.CNT < 100 then .sr s.CNT mark else .ret s.CNT mark }, none)
  | .sr t mark =>
    let late := decide (s.updates ≠ mark.updates)
    ({ s with pc := .ret (if s.UIF then t + 1000 else t) { mark with late } }, none)
  | .ret t mark => ({ s with pc := .out }, some ⟨(s.timer_ms * 1000 + t) % 2 ^ 64, mark⟩)

/-- What can happen: a step of the counter, a run of the interrupt handler, the
    begin of a call, or its next access. -/
inductive Event where
  | count
  | irq
  | get_time
  | get_time_irq
  | access

/-- The handler runs, and a call begins, only where no call is running. -/
def Timer.step (s : Timer) : Event → Timer × Option Reading
  | .count => (s.count, none)
  | .irq => (if s.pc = .out then TIM2_IRQHandler s else s, none)
  | .get_time => (if s.pc = .out then { s with pc := .cnt } else s, none)
  | .get_time_irq => (if s.pc = .out then { s with pc := .handler } else s, none)
  | .access => s.access

/-- The readings of a run, in the order in which the calls returned. -/
def readings (s : Timer) (events : List Event) : List Reading :=
  (machine.run Timer.step s events).2.filterMap id

/-- A pending update is serviced before the counter next reaches 100. -/
def Timer.Serviced (s : Timer) : Event → Prop
  | .count => s.UIF = true → s.CNT ≠ 99
  | _ => True

instance (s : Timer) (event : Event) : Decidable (s.Serviced event) :=
  match event with
  | .count => inferInstanceAs (Decidable (_ → _))
  | .irq | .get_time | .get_time_irq | .access => inferInstanceAs (Decidable True)

/-- How far the running call has come, told by what it noted. -/
def Pc.Noted (s : Timer) (first : Nat) : Pc → Prop
  | .sr t mark => mark.cnt = t ∧ t < 100 ∧ mark.late = false ∧
      mark.counts + 1001 * first = 1001 * mark.updates + t ∧
      (s.updates = mark.updates ∨ s.updates = mark.updates + 1 ∧ s.UIF = true)
  | .ret t mark => mark.counts + 1001 * first = 1001 * mark.updates + mark.cnt ∧
      1000 * s.serviced + t = 1000 * mark.updates + mark.cnt + 1000 * mark.late.toNat
  | _ => True

/-- The updates are those that the handler counted and the one that is pending,
    if there is one. `first` is the number of updates at the start. -/
structure Timer.Kept (first : Nat) (s : Timer) : Prop where
  cnt_le : s.CNT ≤ ARR
  pending : s.UIF = true → s.CNT < 100
  ms_eq : s.timer_ms = s.serviced % 2 ^ 64
  updates_eq : s.serviced + s.UIF.toNat = s.updates
  counts_eq : s.counts + 1001 * first = 1001 * s.updates + s.CNT
  noted : s.pc.Noted s first

theorem Timer.start_kept (UIF : Bool) : (Timer.start UIF).Kept UIF.toNat where
  cnt_le := Nat.zero_le _
  pending _ := Nat.zero_lt_succ 99
  ms_eq := rfl
  updates_eq := Nat.zero_add _
  counts_eq := Nat.zero_add _
  noted := trivial

/-- A counter that has come far has no update pending, so none is lost at its end. -/
theorem Timer.Kept.uif_of_high {first : Nat} {s : Timer} (h : s.Kept first) (hhigh : ¬ s.CNT < 100) :
    s.UIF = false := by
  by_contra hset
  exact hhigh (h.pending (by simpa using hset))

theorem Timer.Kept.count {first : Nat} {s : Timer} (h : s.Kept first)
    (hserviced : s.Serviced .count) : s.count.Kept first := by
  have hfree := h.uif_of_high
  obtain ⟨hle, hpending, hms, hupdates, hcounts, hnoted⟩ := h
  by_cases hend : s.CNT = ARR
  · have hUIF := hfree (by rw [hend]; decide)
    rw [hUIF, Bool.toNat_false, Nat.add_zero] at hupdates
    rw [Timer.count, if_pos hend]
    refine ⟨Nat.zero_le _, fun _ => Nat.zero_lt_succ 99, hms, ?_, ?_, ?_⟩
    · simp only [Bool.toNat_true, hupdates]
    · simp only [hend, ARR] at hcounts ⊢
      omega
    · cases hpc : s.pc with
      | sr t mark =>
        rw [hpc] at hnoted
        obtain ⟨hcnt, hsmall, hlate, hmark, hsame | ⟨-, hset⟩⟩ := hnoted
        · exact ⟨hcnt, hsmall, hlate, hmark, .inr ⟨congrArg (· + 1) hsame, rfl⟩⟩
        · rw [hUIF] at hset
          cases hset
      | ret t mark =>
        rw [hpc] at hnoted
        exact hnoted
      | out => trivial
      | handler => trivial
      | cnt => trivial
  · rw [Timer.count, if_neg hend]
    refine ⟨by dsimp only; omega, ?_, hms, hupdates, by dsimp only; omega, ?_⟩
    · intro hset
      have hlow := hpending hset
      have hnot := hserviced hset
      dsimp only
      omega
    · cases hpc : s.pc with
      | sr t mark =>
        rw [hpc] at hnoted
        exact hnoted
      | ret t mark =>
        rw [hpc] at hnoted
        exact hnoted
      | out => trivial
      | handler => trivial
      | cnt => trivial

/-- Outside the accesses of a call the handler moves a pending update to the
    software count. -/
theorem Timer.Kept.handler {first : Nat} {s : Timer} (h : s.Kept first) {pc : Pc}
    (hpc : ∀ s : Timer, pc.Noted s first) : ({ TIM2_IRQHandler s with pc } : Timer).Kept first := by
  obtain ⟨hle, hpending, hms, hupdates, hcounts, -⟩ := h
  unfold TIM2_IRQHandler
  cases hUIF : s.UIF with
  | false =>
    rw [hUIF] at hupdates
    exact ⟨hle, fun hset => by simp [hUIF] at hset, hms, by simpa [hUIF] using hupdates, hcounts,
      hpc _⟩
  | true =>
    rw [hUIF, Bool.toNat_true] at hupdates
    refine ⟨hle, fun hset => by simp at hset, ?_, hupdates, hcounts, hpc _⟩
    simp only [if_true, hms, Nat.mod_add_mod]

theorem Timer.Kept.access {first : Nat} {s : Timer} (h : s.Kept first) : s.access.1.Kept first := by
  have hkept := h
  obtain ⟨hle, hpending, hms, hupdates, hcounts, hnoted⟩ := h
  unfold Timer.access
  cases hpc : s.pc with
  | out => exact hkept
  | handler => exact hkept.handler fun _ => trivial
  | cnt =>
    refine ⟨hle, hpending, hms, hupdates, hcounts, ?_⟩
    dsimp only
    split_ifs with hsmall
    · exact ⟨rfl, hsmall, rfl, hcounts, .inl rfl⟩
    · rw [hkept.uif_of_high hsmall] at hupdates
      refine ⟨hcounts, ?_⟩
      simp only [Bool.toNat_false] at hupdates ⊢
      omega
  | sr t mark =>
    rw [hpc] at hnoted
    obtain ⟨hcnt, -, -, hmark, hsince⟩ := hnoted
    refine ⟨hle, hpending, hms, hupdates, hcounts, by rw [hcnt]; exact hmark, ?_⟩
    dsimp only
    obtain hsame | ⟨hnext, hset⟩ := hsince
    · have hlate : decide (s.updates ≠ mark.updates) = false := by simp [hsame]
      cases hUIF : s.UIF <;>
        simp only [hUIF, hlate, Bool.toNat_false, Bool.toNat_true, if_true, Bool.false_eq_true,
          if_false] at hupdates ⊢ <;>
        omega
    · have hlate : decide (s.updates ≠ mark.updates) = true := by simp [hnext]
      simp only [hset, hlate, Bool.toNat_true, if_true] at hupdates ⊢
      omega
  | ret t mark => exact ⟨hle, hpending, hms, hupdates, hcounts, trivial⟩

/-- What a step can do: the counter counts, the running call makes its next
    access, and between calls the handler runs or a call begins. -/
theorem Timer.step_cases (s : Timer) (event : Event) :
    event = .count ∧ s.step event = (s.count, none) ∨ s.step event = s.access ∨
      s.step event = (s, none) ∨ s.pc = .out ∧ s.step event = (TIM2_IRQHandler s, none) ∨
      s.pc = .out ∧ ∃ pc, (pc = .cnt ∨ pc = .handler) ∧ s.step event = ({ s with pc }, none) := by
  by_cases hout : s.pc = .out
  · cases event with
    | count => exact .inl ⟨rfl, rfl⟩
    | access => exact .inr (.inl rfl)
    | irq => exact .inr (.inr (.inr (.inl ⟨hout, by rw [Timer.step, if_pos hout]⟩)))
    | get_time =>
      exact .inr (.inr (.inr (.inr ⟨hout, .cnt, .inl rfl, by rw [Timer.step, if_pos hout]⟩)))
    | get_time_irq =>
      exact .inr (.inr (.inr (.inr ⟨hout, .handler, .inr rfl, by rw [Timer.step, if_pos hout]⟩)))
  · cases event with
    | count => exact .inl ⟨rfl, rfl⟩
    | access => exact .inr (.inl rfl)
    | irq => exact .inr (.inr (.inl (by rw [Timer.step, if_neg hout])))
    | get_time => exact .inr (.inr (.inl (by rw [Timer.step, if_neg hout])))
    | get_time_irq => exact .inr (.inr (.inl (by rw [Timer.step, if_neg hout])))

theorem Timer.Kept.step {first : Nat} {s : Timer} (h : s.Kept first) (event : Event)
    (hserviced : s.Serviced event) : (s.step event).1.Kept first := by
  obtain ⟨rfl, hstep⟩ | hstep | hstep | ⟨hout, hstep⟩ | ⟨-, pc, hpc, hstep⟩ := s.step_cases event
  · rw [hstep]
    exact h.count hserviced
  · rw [hstep]
    exact h.access
  · rw [hstep]
    exact h
  · have hsame : TIM2_IRQHandler s = { TIM2_IRQHandler s with pc := .out } := by
      unfold TIM2_IRQHandler
      split <;> rw [← hout]
    rw [hstep, hsame]
    exact h.handler fun _ => trivial
  · rw [hstep]
    obtain rfl | rfl := hpc
    · exact ⟨h.cnt_le, h.pending, h.ms_eq, h.updates_eq, h.counts_eq, trivial⟩
    · exact ⟨h.cnt_le, h.pending, h.ms_eq, h.updates_eq, h.counts_eq, trivial⟩

/-- The counter runs up to its end. -/
theorem Timer.run_counts {s : Timer} {passed : Nat} (h : s.CNT + passed ≤ ARR) :
    machine.run Timer.step s (List.replicate passed .count) =
      ({ s with CNT := s.CNT + passed, counts := s.counts + passed },
        List.replicate passed none) := by
  induction passed generalizing s with
  | zero => rfl
  | succ passed ih =>
    have hcount : s.count = { s with CNT := s.CNT + 1, counts := s.counts + 1 } :=
      if_neg (by omega)
    rw [List.replicate_succ, machine.run_cons, Timer.step, hcount, ih (by dsimp only; omega),
      List.replicate_succ]
    simp only [Nat.add_comm 1 passed, Nat.add_assoc]

end keychain.time
