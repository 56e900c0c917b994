import Mathlib.Data.BitVec
import Mathlib.Data.Nat.ModEq

namespace keychain.time

def TIMER_MS : BitVec 32 := 1000#32

/-- `while ((timer_time_t)(timer_get_time() - time) < tm) ;`, where `timer` gives
    the value that each call of `timer_get_time` returns, and `call` is the next
    one. The result is the call that ends the loop. -/
def delay_loop (timer : Nat → BitVec 64) (time : BitVec 64) (tm : BitVec 32) : Nat → Nat → Option Nat
  | 0, _ => none
  | fuel + 1, call =>
    if timer call - time < tm.setWidth 64 then delay_loop timer time tm fuel (call + 1)
    else some call

def time_delay_ms (timer : Nat → BitVec 64) (fuel : Nat) (tm : BitVec 32) : Option Nat :=
  let tm := tm * TIMER_MS
  let time := timer 0
  delay_loop timer time tm fuel 1

/-- The macro `OS_DELAY` is `time_delay_ms`. -/
def HAL_Delay (timer : Nat → BitVec 64) (fuel : Nat) (delay : BitVec 32) : Option Nat :=
  time_delay_ms timer fuel delay

/-- The timer value is returned as a `u32`. -/
def HAL_GetTick (os_timer_get_time : BitVec 64) : BitVec 32 :=
  os_timer_get_time.setWidth 32

/-- The timer as a delay reads it that polls at every microsecond, the first time
    in the microsecond of its entry. -/
def polled (entry : BitVec 64) (call : Nat) : BitVec 64 :=
  entry + BitVec.ofNat 64 (call - 1)

theorem delay_loop_polled (entry : BitVec 64) (tm : BitVec 32) {fuel passed : Nat}
    (hpassed : passed ≤ tm.toNat) (hfuel : tm.toNat < fuel + passed) :
    delay_loop (polled entry) entry tm fuel (passed + 1) = some (tm.toNat + 1) := by
  have hbound : tm.toNat < 2 ^ 32 := tm.isLt
  induction fuel generalizing passed with
  | zero => omega
  | succ fuel ih =>
    have hdiff : polled entry (passed + 1) - entry = BitVec.ofNat 64 passed := by
      rw [polled, Nat.add_sub_cancel, BitVec.add_comm, BitVec.add_sub_cancel]
    have hless : BitVec.ofNat 64 passed < tm.setWidth 64 ↔ passed < tm.toNat := by
      rw [BitVec.lt_def, BitVec.toNat_ofNat, BitVec.toNat_setWidth, Nat.mod_eq_of_lt (by omega),
        Nat.mod_eq_of_lt (by omega)]
    rw [delay_loop, hdiff]
    by_cases hmore : passed < tm.toNat
    · rw [if_pos (hless.mpr hmore)]
      exact ih (by omega) (by omega)
    · rw [if_neg (hless.not.mpr hmore)]
      have hend : passed = tm.toNat := by omega
      rw [hend]

/-- The microseconds that a delay waits for do not wrap below `2 ^ 22`. -/
theorem toNat_mul_TIMER_MS {d : BitVec 32} (hd : d.toNat < 2 ^ 22) :
    (d * TIMER_MS).toNat = 1000 * d.toNat := by
  rw [BitVec.toNat_mul, TIMER_MS, BitVec.toNat_ofNat]
  omega

/-- The loop leaves at the first moment at which `1000 * d` microseconds have
    passed. -/
theorem HAL_Delay_polled (entry : BitVec 64) {d : BitVec 32} (hd : d.toNat < 2 ^ 22) {fuel : Nat}
    (hfuel : 1000 * d.toNat < fuel) :
    HAL_Delay (polled entry) fuel d = some (1000 * d.toNat + 1) := by
  have htm := toNat_mul_TIMER_MS hd
  have hentry : polled entry 0 = entry := by simp [polled]
  rw [HAL_Delay, time_delay_ms, hentry]
  have hloop : delay_loop (polled entry) entry (d * TIMER_MS) fuel (0 + 1) = _ :=
    delay_loop_polled entry (d * TIMER_MS) (Nat.zero_le _) (by omega)
  rw [← htm, ← hloop]

/-- Ticks count the timer's microseconds modulo `2 ^ 32`. -/
theorem HAL_GetTick_elapsed (earlier elapsed : BitVec 64) :
    HAL_GetTick (earlier + elapsed) - HAL_GetTick earlier = elapsed.setWidth 32 := by
  rw [HAL_GetTick, HAL_GetTick, BitVec.setWidth_add _ _ (by decide), BitVec.add_comm,
    BitVec.add_sub_cancel]

/-- A number of ticks is a number of milliseconds up to one. -/
def CountsMs (ticks : BitVec 32) (ms : Nat) : Prop :=
  ticks = BitVec.ofNat 32 ms ∨ ticks = BitVec.ofNat 32 (ms + 1)

instance (ticks : BitVec 32) (ms : Nat) : Decidable (CountsMs ticks ms) :=
  inferInstanceAs (Decidable (_ ∨ _))

theorem countsMs_iff (ticks : BitVec 32) (ms : Nat) :
    CountsMs ticks ms ↔ ticks.toNat = ms % 2 ^ 32 ∨ ticks.toNat = (ms + 1) % 2 ^ 32 := by
  simp only [CountsMs, ← BitVec.toNat_inj, BitVec.toNat_ofNat]

theorem add_mod_eq_iff (common first second : Nat) :
    (common + first) % 2 ^ 32 = (common + second) % 2 ^ 32 ↔ first % 2 ^ 32 = second % 2 ^ 32 :=
  ⟨Nat.ModEq.add_left_cancel' common, Nat.ModEq.add_left common⟩

/-- A delay of `d` milliseconds ends, at the first moment it can, after
    `1000 * d` ticks, so the ticks are the milliseconds up to one only for the
    delay 0. Between two instants they are so only where the microseconds and the
    milliseconds that elapsed differ by at most one modulo `2 ^ 32`. -/
theorem HAL_tick_counts_ms_iff (entry : BitVec 64) (d : BitVec 32) (hd : d.toNat < 2 ^ 22) (fuel : Nat)
    (hfuel : 1000 * d.toNat < fuel) (earlier elapsed : BitVec 64) :
    (∃ last, HAL_Delay (polled entry) fuel d = some last ∧
        (CountsMs (HAL_GetTick (polled entry last) - HAL_GetTick entry) d.toNat ↔ d = 0#32)) ∧
      (CountsMs (HAL_GetTick (earlier + elapsed) - HAL_GetTick earlier) (elapsed.toNat / 1000) ↔
        (elapsed.toNat - elapsed.toNat / 1000) % 2 ^ 32 ≤ 1) := by
  constructor
  · refine ⟨_, HAL_Delay_polled entry hd hfuel, ?_⟩
    rw [polled, HAL_GetTick_elapsed, countsMs_iff, BitVec.toNat_setWidth, BitVec.toNat_ofNat,
      ← BitVec.toNat_inj, BitVec.toNat_ofNat, Nat.add_sub_cancel, Nat.zero_mod]
    -- No value on either side is large enough to wrap.
    have hwide : 1000 * d.toNat % 2 ^ 64 = 1000 * d.toNat := Nat.mod_eq_of_lt (by omega)
    have hticks : 1000 * d.toNat % 2 ^ 32 = 1000 * d.toNat := Nat.mod_eq_of_lt (by omega)
    have hms : d.toNat % 2 ^ 32 = d.toNat := Nat.mod_eq_of_lt (by omega)
    have hnext : (d.toNat + 1) % 2 ^ 32 = d.toNat + 1 := Nat.mod_eq_of_lt (by omega)
    rw [hwide, hticks, hms, hnext]
    omega
  · have hle : elapsed.toNat / 1000 ≤ elapsed.toNat := Nat.div_le_self _ _
    obtain ⟨more, hmore⟩ := Nat.exists_eq_add_of_le hle
    rw [HAL_GetTick_elapsed, countsMs_iff, BitVec.toNat_setWidth]
    generalize elapsed.toNat / 1000 = ms at hmore hle ⊢
    have hzero := add_mod_eq_iff ms more 0
    have hone := add_mod_eq_iff ms more 1
    rw [Nat.add_zero] at hzero
    rw [hmore, Nat.add_sub_cancel_left, hzero, hone]
    omega

/-- A delay of 5 ms, entered shortly before the ticks wrap, and an interval of
    three microseconds across the wrap. -/
theorem HAL_tick_counts_ms_five :
    (∃ last, HAL_Delay (polled 0xFFFFFFF0#64) 5001 5#32 = some last ∧
        (CountsMs (HAL_GetTick (polled 0xFFFFFFF0#64 last) - HAL_GetTick 0xFFFFFFF0#64) 5 ↔
          5#32 = 0#32)) ∧
      (CountsMs (HAL_GetTick (0xFFFFFFFE#64 + 3#64) - HAL_GetTick 0xFFFFFFFE#64) (3 / 1000) ↔
        (3 - 3 / 1000) % 2 ^ 32 ≤ 1) :=
  HAL_tick_counts_ms_iff 0xFFFFFFF0#64 5#32 (by decide) 5001 (by decide) 0xFFFFFFFE#64 3#64

/-- One millisecond of delay counts as a thousand ticks. -/
theorem HAL_tick_of_one_ms :
    ∃ last, HAL_Delay (polled 0#64) 1001 1#32 = some last ∧
      HAL_GetTick (polled 0#64 last) - HAL_GetTick 0#64 = 1000#32 ∧
      ¬ CountsMs (HAL_GetTick (polled 0#64 last) - HAL_GetTick 0#64) 1 :=
  ⟨1001, HAL_Delay_polled 0#64 (d := 1#32) (by decide) (by decide), by decide, by decide⟩

/-- With a timer that starts at `entry` and never goes back, the function returns
    only once `1000 * d` microseconds have passed. -/
def Waits (delay : (Nat → BitVec 64) → Nat → BitVec 32 → Option Nat) (entry : BitVec 64)
    (d : BitVec 32) : Prop :=
  ∀ timer : Nat → BitVec 64, timer 0 = entry → (∀ call, timer call ≤ timer (call + 1)) →
    ∀ fuel last, delay timer fuel d = some last → entry.toNat + 1000 * d.toNat ≤ (timer last).toNat

/-- The call that ends the loop is one on which its condition fails. -/
theorem delay_loop_some {timer : Nat → BitVec 64} {time : BitVec 64} {tm : BitVec 32}
    {fuel call last : Nat} (h : delay_loop timer time tm fuel call = some last) :
    ¬ timer last - time < tm.setWidth 64 := by
  induction fuel generalizing call with
  | zero => cases h
  | succ fuel ih =>
    rw [delay_loop] at h
    by_cases hless : timer call - time < tm.setWidth 64
    · rw [if_pos hless] at h
      exact ih h
    · rw [if_neg hless] at h
      cases h
      exact hless

theorem timer_le {timer : Nat → BitVec 64} (h : ∀ call, timer call ≤ timer (call + 1)) (call : Nat) :
    (timer 0).toNat ≤ (timer call).toNat := by
  induction call with
  | zero => exact Nat.le_refl _
  | succ call ih => exact Nat.le_trans ih (BitVec.le_def.mp (h call))

theorem toNat_mul_wrapped (d : BitVec 32) : (d * TIMER_MS).toNat = 1000 * d.toNat % 2 ^ 32 := by
  rw [BitVec.toNat_mul, Nat.mul_comm]
  rfl

/-- The product in 32 bits is what a delay waits for in any case. -/
theorem time_delay_ms_some {timer : Nat → BitVec 64} (h : ∀ call, timer call ≤ timer (call + 1))
    {fuel last : Nat} {d : BitVec 32} (hreturns : time_delay_ms timer fuel d = some last) :
    (timer 0).toNat + 1000 * d.toNat % 2 ^ 32 ≤ (timer last).toNat := by
  have hloop := delay_loop_some hreturns
  have hle := timer_le h last
  have hlast := (timer last).isLt
  rw [BitVec.lt_def, BitVec.toNat_sub, BitVec.toNat_setWidth, toNat_mul_wrapped] at hloop
  omega

theorem time_delay_ms_waits_iff (entry : BitVec 64) (d : BitVec 32) :
    Waits time_delay_ms entry d ↔
      1000 * d.toNat < 2 ^ 32 ∨ 2 ^ 64 ≤ entry.toNat + 1000 * d.toNat % 2 ^ 32 := by
  constructor
  · intro hwaits
    by_contra hnot
    rw [not_or, Nat.not_lt, Nat.not_le] at hnot
    obtain ⟨hlong, hfits⟩ := hnot
    -- a timer that jumps to the end of the shortened delay
    let later : BitVec 64 := BitVec.ofNat 64 (entry.toNat + 1000 * d.toNat % 2 ^ 32)
    have hlater : later.toNat = entry.toNat + 1000 * d.toNat % 2 ^ 32 := Nat.mod_eq_of_lt hfits
    let timer : Nat → BitVec 64 := fun call => if call = 0 then entry else later
    have hmono : ∀ call, timer call ≤ timer (call + 1) := by
      intro call
      cases call with
      | zero => exact BitVec.le_def.mpr (Nat.le_trans (Nat.le_add_right _ _) (Nat.le_of_eq hlater.symm))
      | succ call => exact BitVec.le_refl later
    have hends : ¬ later - entry < (d * TIMER_MS).setWidth 64 := by
      rw [BitVec.lt_def, BitVec.toNat_sub, BitVec.toNat_setWidth, toNat_mul_wrapped, hlater]
      omega
    have hreturns : time_delay_ms timer 1 d = some 1 := if_neg hends
    have hpassed := hwaits timer rfl hmono 1 1 hreturns
    change entry.toNat + 1000 * d.toNat ≤ later.toNat at hpassed
    omega
  · intro hcond timer hentry hmono fuel last hreturns
    have hpassed := time_delay_ms_some hmono hreturns
    have hlast := (timer last).isLt
    rw [hentry] at hpassed
    omega

theorem HAL_Delay_waits_iff (entry : BitVec 64) (d : BitVec 32) :
    Waits HAL_Delay entry d ↔
      1000 * d.toNat < 2 ^ 32 ∨ 2 ^ 64 ≤ entry.toNat + 1000 * d.toNat % 2 ^ 32 :=
  time_delay_ms_waits_iff entry d

/-- A delay is never shorter than asked for exactly if its microseconds fit 32 bits,
    or else if the timer has not even the wrapped number of them left to count. -/
theorem delays_wait_iff (entry : BitVec 64) (d : BitVec 32) :
    (Waits time_delay_ms entry d ↔
        1000 * d.toNat < 2 ^ 32 ∨ 2 ^ 64 ≤ entry.toNat + 1000 * d.toNat % 2 ^ 32) ∧
      (Waits HAL_Delay entry d ↔
        1000 * d.toNat < 2 ^ 32 ∨ 2 ^ 64 ≤ entry.toNat + 1000 * d.toNat % 2 ^ 32) :=
  ⟨time_delay_ms_waits_iff entry d, HAL_Delay_waits_iff entry d⟩

/-- A delay of 4294968 ms, over 71 minutes, ends after 704 microseconds. -/
theorem delay_ends_early :
    time_delay_ms (polled 0#64) 705 4294968#32 = some 705 ∧ polled 0#64 705 = 704#64 ∧
      ¬ Waits time_delay_ms 0#64 4294968#32 ∧ ¬ Waits HAL_Delay 0#64 0xFFFFFFFF#32 := by
  have hloop : delay_loop (polled 0#64) 0#64 (4294968#32 * TIMER_MS) 705 (0 + 1) = some 705 :=
    delay_loop_polled 0#64 (4294968#32 * TIMER_MS) (Nat.zero_le _) (by decide)
  refine ⟨hloop, by decide, ?_, ?_⟩
  · rw [time_delay_ms_waits_iff]
    decide
  · rw [HAL_Delay_waits_iff]
    decide

end keychain.time
