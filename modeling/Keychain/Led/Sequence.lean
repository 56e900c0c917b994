import Keychain.Library.Circular
import Keychain.Library.Machine
import Mathlib.Data.BitVec

namespace keychain.led

/-- The two functions that switch a LED are set or not. -/
structure led_t where
  mask_run : BitVec 32
  mask : BitVec 32
  on : Bool
  off : Bool
  count : UInt8
  prio : UInt8
  length : UInt8

/-- `led_init`, after which the application sets the two functions. -/
def led_init (on off : Bool) : led_t where
  mask_run := 0
  mask := 0
  on
  off
  count := 0
  prio := 0
  length := 0

/-- `length--; if (length > 31) length = 31;` -/
def last_bit (length : UInt8) : UInt8 :=
  if length - 1 > 31 then 31 else length - 1

def led_cyclic_sequence (led : led_t) (new_mask : BitVec 32) (length prio : UInt8) : led_t :=
  if led.mask = new_mask then led
  else if led.mask ≠ 0 ∧ prio < led.prio then led
  else { led with length := last_bit length, mask := new_mask, prio, count := 0 }

def led_instant_sequence (led : led_t) (new_mask : BitVec 32) (length : UInt8) : led_t :=
  { led with count := last_bit length, mask_run := new_mask }

/-- A call of one of the two functions. -/
inductive Action where
  | on
  | off
  deriving DecidableEq

/-- The calls that show a bit. -/
def led_t.shows (led : led_t) (bit : Bool) : List Action :=
  if bit then (if led.on then [.on] else []) else if led.off then [.off] else []

def led_tick (led : led_t) : led_t × List Action :=
  let shown := led.shows (decide (led.mask_run &&& 1 ≠ 0))
  let led := { led with mask_run := led.mask_run >>> 1 }
  (if led.count > 0 then { led with count := led.count - 1 }
    else { led with count := led.length, mask_run := led.mask }, shown)

inductive Call where
  | cyclic (mask : BitVec 32) (length prio : UInt8)
  | instant (mask : BitVec 32) (length : UInt8)
  | tick

/-- Only a tick shows something. -/
def led_t.call (led : led_t) : Call → led_t × Option (List Action)
  | .cyclic mask length prio => (led_cyclic_sequence led mask length prio, none)
  | .instant mask length => (led_instant_sequence led mask length, none)
  | .tick => ((led_tick led).1, some (led_tick led).2)

/-- A request is accepted if it is for another mask than the current one, and no
    signal of a higher priority is there. -/
def led_t.Accepts (led : led_t) (mask : BitVec 32) (prio : UInt8) : Prop :=
  led.mask ≠ mask ∧ (led.mask ≠ 0 → led.prio ≤ prio)

instance (led : led_t) (mask : BitVec 32) (prio : UInt8) : Decidable (led.Accepts mask prio) :=
  inferInstanceAs (Decidable (_ ∧ (_ → _)))

/-- What may follow on a request of a priority: ticks, requests of a lower one, and
    other requests that are not accepted. -/
def Follows (prio : UInt8) (led : led_t) : Call → Prop
  | .cyclic mask' _ prio' => prio' < prio ∨ ¬ led.Accepts mask' prio'
  | .instant _ _ => False
  | .tick => True

instance (prio : UInt8) (led : led_t) (call : Call) : Decidable (Follows prio led call) :=
  match call with
  | .cyclic _ _ _ => inferInstanceAs (Decidable (_ ∨ ¬ _))
  | .instant _ _ => inferInstanceAs (Decidable False)
  | .tick => inferInstanceAs (Decidable True)

/-- What the ticks of a run show. -/
def shown (led : led_t) (calls : List Call) : List (List Action) :=
  (machine.run led_t.call led calls).2.filterMap id

/-- No counter exceeds the number of the last bit of a mask. -/
structure led_t.Bounded (led : led_t) : Prop where
  count : led.count.toNat ≤ 31
  length : led.length.toNat ≤ 31

/-- A signal is played: `since` ticks have passed since its request, and after the
    first of them, the mask is shifted out bit by bit and reloaded. -/
structure led_t.Plays (led : led_t) (mask : BitVec 32) (last : Nat) (prio : UInt8) (since : Nat) : Prop where
  mask_eq : led.mask = mask
  length_eq : led.length.toNat = last
  prio_eq : led.prio = prio
  first : since = 0 → led.count.toNat = 0
  mask_run : ∀ k, since = k + 1 → led.mask_run = mask >>> (k % (last + 1))
  count : ∀ k, since = k + 1 → led.count.toNat + k % (last + 1) = last

theorem last_bit_le (length : UInt8) : (last_bit length).toNat ≤ 31 := by
  unfold last_bit
  split_ifs with h
  · exact Nat.le_refl 31
  · exact UInt8.le_iff_toNat_le.mp (UInt8.not_lt.mp h)

theorem pred_toNat {count : UInt8} (h : count.toNat ≠ 0) : (count - 1).toNat = count.toNat - 1 :=
  UInt8.toNat_sub_of_le _ _ (UInt8.le_iff_toNat_le.mpr (Nat.one_le_iff_ne_zero.mpr h))

theorem pos_iff (count : UInt8) : count > 0 ↔ count.toNat ≠ 0 := by
  rw [gt_iff_lt, UInt8.lt_iff_toNat_lt]
  exact Nat.pos_iff_ne_zero

/-- Lengths from 1 to 32 are kept. -/
theorem last_bit_toNat {length : UInt8} (hpos : 1 ≤ length.toNat) (hle : length.toNat ≤ 32) :
    (last_bit length).toNat + 1 = length.toNat := by
  have hsub := pred_toNat (Nat.one_le_iff_ne_zero.mp hpos)
  have hshort : ¬ length - 1 > 31 := by
    rw [gt_iff_lt, UInt8.lt_iff_toNat_lt, hsub]
    change ¬ 31 < length.toNat - 1
    omega
  rw [last_bit, if_neg hshort, hsub]
  omega

theorem led_t.Bounded.call {led : led_t} (h : led.Bounded) (call : Call) : (led.call call).1.Bounded := by
  have hcount := h.count
  cases call with
  | cyclic mask length prio =>
    dsimp only [led_t.call]
    unfold led_cyclic_sequence
    split_ifs
    · exact h
    · exact h
    · exact ⟨Nat.zero_le 31, last_bit_le length⟩
  | instant mask length => exact ⟨last_bit_le length, h.length⟩
  | tick =>
    dsimp only [led_t.call, led_tick]
    split_ifs with hpos
    · refine ⟨?_, h.length⟩
      dsimp only
      rw [pred_toNat ((pos_iff _).mp hpos)]
      omega
    · exact ⟨h.length, h.length⟩

/-- A tick tests the bit that is to be shown. -/
theorem and_one_ne_zero (mask : BitVec 32) : decide (mask &&& 1 ≠ 0) = mask.getLsbD 0 := by
  have hand : mask &&& 1 = (BitVec.ofBool (mask.getLsbD 0)).setWidth 32 :=
    BitVec.and_one_eq_setWidth_ofBool_getLsbD
  rw [hand]
  cases mask.getLsbD 0 <;> rfl

theorem led_tick_shows (led : led_t) : (led_tick led).1.shows = led.shows := by
  unfold led_tick
  dsimp only
  split_ifs <;> rfl

theorem succ_mod_eq (k last : Nat) :
    (k + 1) % (last + 1) = if k % (last + 1) = last then 0 else k % (last + 1) + 1 := by
  have hlt : k % (last + 1) < last + 1 := Nat.mod_lt _ (Nat.succ_pos last)
  rw [← Nat.mod_add_mod, circular.succ_mod_eq hlt]
  simp only [Nat.add_right_cancel_iff]

/-- Behind the last bit, a tick starts the mask again. -/
theorem led_tick_reload {led : led_t} (h : led.count.toNat = 0) :
    (led_tick led).1 = { led with mask_run := led.mask, count := led.length } :=
  if_neg fun hpos => (pos_iff _).mp hpos h

theorem led_tick_shift {led : led_t} (h : led.count.toNat ≠ 0) :
    (led_tick led).1 = { led with mask_run := led.mask_run >>> 1, count := led.count - 1 } :=
  if_pos ((pos_iff _).mpr h)

section Plays

variable {led : led_t} {mask : BitVec 32} {last since : Nat} {prio : UInt8}

theorem led_t.Plays.reload (h : led.Plays mask last prio since) (hzero : led.count.toNat = 0) :
    (led_tick led).1.Plays mask last prio (since + 1) := by
  have hstart : since % (last + 1) = 0 := by
    cases since with
    | zero => exact Nat.zero_mod _
    | succ k =>
      have hend := h.count k rfl
      rw [succ_mod_eq, if_pos (by omega)]
  rw [led_tick_reload hzero]
  refine ⟨h.mask_eq, h.length_eq, h.prio_eq, ?_, ?_, ?_⟩
  · exact fun hfirst => absurd hfirst (Nat.succ_ne_zero since)
  · intro k hk
    cases hk
    rw [hstart, h.mask_eq]
    exact (BitVec.ushiftRight_zero mask).symm
  · intro k hk
    cases hk
    rw [hstart, h.length_eq, Nat.add_zero]

theorem led_t.Plays.shift {k : Nat} (h : led.Plays mask last prio (k + 1)) (hzero : led.count.toNat ≠ 0) :
    (led_tick led).1.Plays mask last prio (k + 2) := by
  have hbit := h.count k rfl
  have hnext : (k + 1) % (last + 1) = k % (last + 1) + 1 := by
    rw [succ_mod_eq, if_neg (by omega)]
  rw [led_tick_shift hzero]
  refine ⟨h.mask_eq, h.length_eq, h.prio_eq, ?_, ?_, ?_⟩
  · exact fun hfirst => absurd hfirst (Nat.succ_ne_zero _)
  · intro k' hk'
    cases hk'
    rw [hnext, h.mask_run k rfl, BitVec.shiftRight_add]
  · intro k' hk'
    cases hk'
    dsimp only
    rw [hnext, pred_toNat hzero]
    omega

/-- The mask moves on by one bit with each tick, and starts again behind the last. -/
theorem led_t.Plays.tick (h : led.Plays mask last prio since) :
    (led_tick led).1.Plays mask last prio (since + 1) ∧
      ∀ k, since = k + 1 → (led_tick led).2 = led.shows (mask.getLsbD (k % (last + 1))) := by
  constructor
  · by_cases hzero : led.count.toNat = 0
    · exact h.reload hzero
    · cases since with
      | zero => exact absurd (h.first rfl) hzero
      | succ k => exact h.shift hzero
  · intro k hk
    change led.shows (decide (led.mask_run &&& 1 ≠ 0)) = _
    rw [and_one_ne_zero, h.mask_run k hk, BitVec.getLsbD_ushiftRight, Nat.add_zero]

/-- What may follow on a request leaves its signal alone, ticks apart. -/
theorem led_t.Plays.ignores (h : led.Plays mask last prio since) (hmask : mask ≠ 0)
    {mask' : BitVec 32} {prio' : UInt8}
    (hfollows : prio' < prio ∨ ¬ led.Accepts mask' prio') (length' : UInt8) :
    led_cyclic_sequence led mask' length' prio' = led := by
  have hcurrent : led.mask ≠ 0 := h.mask_eq ▸ hmask
  unfold led_cyclic_sequence
  by_cases hsame : led.mask = mask'
  · rw [if_pos hsame]
  · rw [if_neg hsame, if_pos]
    refine ⟨hcurrent, ?_⟩
    obtain hlower | hrefused := hfollows
    · rw [h.prio_eq]
      exact hlower
    · by_contra hnot
      exact hrefused ⟨hsame, fun _ => UInt8.not_lt.mp hnot⟩

/-- While a signal plays, its ticks show its bits in turn. -/
theorem led_t.Plays.shown (h : led.Plays mask last prio since) (hmask : mask ≠ 0) {calls : List Call}
    (hfollows : machine.Admits led_t.call (Follows prio) led calls) {tick k : Nat} (hk : since + tick = k + 1)
    {actions : List Action} (hshown : (shown led calls)[tick]? = some actions) :
    actions = led.shows (mask.getLsbD (k % (last + 1))) := by
  induction calls generalizing led since tick with
  | nil => cases hshown
  | cons call calls ih =>
    obtain ⟨hcall, hrest⟩ := hfollows
    cases call with
    | cyclic mask' length' prio' =>
      have hsame : (led.call (.cyclic mask' length' prio')).1 = led := h.ignores hmask hcall length'
      rw [hsame] at hrest
      have hshown' : (keychain.led.shown (led.call (.cyclic mask' length' prio')).1 calls)[tick]? =
          some actions := hshown
      rw [hsame] at hshown'
      exact ih h hrest hk hshown'
    | instant mask' length' => cases hcall
    | tick =>
      obtain ⟨hnext, hbit⟩ := h.tick
      cases tick with
      | zero =>
        cases hshown
        exact hbit k hk
      | succ tick =>
        rw [← led_tick_shows]
        exact ih hnext hrest (by omega) hshown

end Plays

/-- An accepted request is played from its first tick on. -/
theorem led_t.Accepts.plays {led : led_t} {mask : BitVec 32} {prio : UInt8} (h : led.Accepts mask prio)
    {length : UInt8} (hpos : 1 ≤ length.toNat) (hle : length.toNat ≤ 32) :
    (led_cyclic_sequence led mask length prio).Plays mask (length.toNat - 1) prio 0 := by
  obtain ⟨hother, hprio⟩ := h
  have hlast := last_bit_toNat hpos hle
  have hrefused : ¬ (led.mask ≠ 0 ∧ prio < led.prio) := by
    rintro ⟨hcurrent, hlower⟩
    exact UInt8.not_le.mpr hlower (hprio hcurrent)
  rw [led_cyclic_sequence, if_neg hother, if_neg hrefused]
  refine ⟨rfl, ?_, rfl, fun _ => rfl, fun _ h => (by cases h), fun _ h => (by cases h)⟩
  dsimp only
  omega

theorem led_cyclic_sequence_shows (led : led_t) (mask : BitVec 32) (length prio : UInt8) :
    (led_cyclic_sequence led mask length prio).shows = led.shows := by
  unfold led_cyclic_sequence
  split_ifs <;> rfl

/-- After every history, the counters are in range, a request for the current mask
    changes nothing, and an accepted one shows its bits from the second tick on,
    whatever requests of a lower priority follow. -/
theorem led_obeys_request_and_priority (on off : Bool) (calls : List Call) {led : led_t}
    (hreached : machine.Reached led_t.call (led_init on off) calls led) :
    led.count.toNat ≤ 31 ∧ led.length.toNat ≤ 31 ∧
      (∀ length prio, led_cyclic_sequence led led.mask length prio = led) ∧
      ∀ (mask : BitVec 32) (length prio : UInt8) (after : List Call), mask ≠ 0 → 1 ≤ length.toNat →
        length.toNat ≤ 32 → led.Accepts mask prio →
        machine.Admits led_t.call (Follows prio) (led_cyclic_sequence led mask length prio) after →
        ∀ k actions, (shown (led_cyclic_sequence led mask length prio) after)[k + 1]? = some actions →
          actions = led.shows (mask.getLsbD (k % length.toNat)) := by
  obtain ⟨before, rest, -, rfl⟩ := hreached
  have hstart : (led_init on off).Bounded := ⟨Nat.zero_le 31, Nat.zero_le 31⟩
  have hbounded := machine.run_invariant led_t.call led_t.Bounded (fun _ => True)
    (fun _ call h _ => h.call call) (led_init on off) before hstart (fun _ _ => trivial)
  refine ⟨hbounded.count, hbounded.length, fun _ _ => if_pos rfl, ?_⟩
  intro mask length prio after hmask hpos hle haccepts hfollows k actions hshown
  have hplayed := (haccepts.plays hpos hle).shown hmask hfollows (Nat.zero_add _) hshown
  rw [led_cyclic_sequence_shows, Nat.sub_add_cancel hpos] at hplayed
  exact hplayed

/-- A signal of a higher priority replaces the one that plays. -/
theorem led_obeys_request_and_priority_higher :
    let led := (machine.run led_t.call (led_init true true) [.cyclic 5 3 0, .tick]).1
    led.count.toNat ≤ 31 ∧ led.length.toNat ≤ 31 ∧
      (∀ length prio, led_cyclic_sequence led led.mask length prio = led) ∧
      ([.on] : List Action) = led.shows ((9 : BitVec 32).getLsbD (3 % 4)) := by
  intro led
  have hreached : machine.Reached led_t.call (led_init true true) [.cyclic 5 3 0, .tick] led :=
    ⟨_, [], (List.append_nil _).symm, rfl⟩
  obtain ⟨hcount, hlength, hcurrent, hplayed⟩ := led_obeys_request_and_priority true true _ hreached
  exact ⟨hcount, hlength, hcurrent, hplayed 9 4 2 [.tick, .cyclic 1 4 1, .tick, .tick, .tick, .tick]
    (by decide) (by decide) (by decide) (by decide) (by decide) 3 [.on] (by decide)⟩

/-- A request for the current mask with another length is ignored, and so the
    fourth bit is not shown. Nor does it raise the priority: the request after it
    is accepted with a lower one. -/
theorem request_for_current_mask_is_ignored :
    let led := (machine.run led_t.call (led_init true true) [.cyclic 5 3 0]).1
    let requested := led_cyclic_sequence led 5 4 9
    (5 : BitVec 32) ≠ 0 ∧ (led.mask ≠ 0 → led.prio ≤ 9) ∧
      (shown requested [.tick, .tick, .tick, .tick, .tick])[3 + 1]? = some [.on] ∧
      led.shows ((5 : BitVec 32).getLsbD (3 % 4)) = [.off] ∧
      (shown requested [.cyclic 2 4 3, .tick, .tick])[0 + 1]? = some [.off] ∧
      led.shows ((5 : BitVec 32).getLsbD (0 % 4)) = [.on] := by
  decide

end keychain.led
