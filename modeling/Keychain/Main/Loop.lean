import Keychain.Led.Sequence
import Keychain.Main.Task
import Keychain.Time.Delay

namespace keychain.main

open led (led_t led_init led_tick led_cyclic_sequence Action)

/-- A mask, a length and a priority for `led_cyclic_sequence`. -/
def _LED_MODE_IDLE : BitVec 32 × UInt8 × UInt8 := (0x01, 4, 0)
def _LED_MODE_READY : BitVec 32 × UInt8 × UInt8 := (0x0F, 4, 0)

/-- The LED with the variable `prev_state` of `_usb_update_state`. -/
structure Indicator where
  prev_state : Bool
  led1 : led_t

/-- The output enable of the SPI, which this function sets as well, is not on the board. -/
def _usb_update_state (i : Indicator) (state : Bool) : Indicator :=
  if i.prev_state = state then i
  else
    let mode := if state then _LED_MODE_READY else _LED_MODE_IDLE
    { prev_state := state, led1 := led_cyclic_sequence i.led1 mode.1 mode.2.1 mode.2.2 }

/-- What the LED is told in a block that finds the USB device connected or not. -/
def Indicator.step (i : Indicator) (connected : Bool) : Indicator × List Action :=
  let i := _usb_update_state i connected
  ({ i with led1 := (led_tick i.led1).1 }, (led_tick i.led1).2)

/-- `_main_task` between two turns of its loop. -/
structure Loop where
  timer_100ms : BitVec 64
  indicator : Indicator
  device : Main

/-- What a turn meets: the time at its begin, the work that `tty_rx_task` and
    `usb_device_task` do on the device, the times at which a TLS session, which runs in the
    first of them, feeds the watchdog, whether the device is connected then, and the time
    when the block feeds the watchdog, if it runs. -/
structure Turn where
  now : BitVec 64
  work : Main → Main
  feeds : List (BitVec 64)
  connected : Bool
  fed_at : BitVec 64

/-- What an observer sees of the block that runs every 100 ms. -/
structure Block where
  fed_at : BitVec 64
  connected : Bool
  shown : List Action
  deriving DecidableEq

/-- `100*TIMER_MS` -/
def period : BitVec 32 := 100#32 * time.TIMER_MS

def Loop.turn (chip : Nat → UInt8 → UInt8) (l : Loop) (t : Turn) : Loop × Option Block :=
  let l := { l with device := t.work l.device }
  if t.now > l.timer_100ms then
    let shown := l.indicator.step t.connected
    ({ timer_100ms := l.timer_100ms + period.setWidth 64
       indicator := shown.1
       device := main_100ms chip l.device }, some ⟨t.fed_at, t.connected, shown.2⟩)
  else (l, none)

/-- When the loop is entered. `led1.on` and `led1.off` are set. -/
def Loop.start (timer_100ms : BitVec 64) (device : Main) : Loop where
  timer_100ms
  indicator :=
    { prev_state := false
      led1 := led_cyclic_sequence (led_init true true) _LED_MODE_IDLE.1 _LED_MODE_IDLE.2.1
        _LED_MODE_IDLE.2.2 }
  device

/-- The blocks that run in a number of turns. -/
def Loop.blocks (chip : Nat → UInt8 → UInt8) (l : Loop) (turns : List Turn) : List Block :=
  (machine.run (Loop.turn chip) l turns).2.filterMap id

/-- When the watchdog is fed in a number of turns. -/
def Loop.fed (chip : Nat → UInt8 → UInt8) : Loop → List Turn → List (BitVec 64)
  | _, [] => []
  | l, t :: turns =>
    (t.feeds ++ ((l.turn chip t).2.map Block.fed_at).toList) ++ Loop.fed chip (l.turn chip t).1 turns

/-- The times that bound the work of a turn from below. -/
def Turn.times (t : Turn) : List (BitVec 64) :=
  t.now :: t.feeds

/-- The last of these. -/
def Turn.reached (t : Turn) : BitVec 64 :=
  t.feeds.getLast?.getD t.now

/-- The second time comes after the first, and not much later. -/
def Soon (limit : Nat) (a b : BitVec 64) : Prop :=
  a.toNat ≤ b.toNat ∧ b.toNat ≤ a.toNat + limit

instance (limit : Nat) (a b : BitVec 64) : Decidable (Soon limit a b) :=
  inferInstanceAs (Decidable (_ ∧ _))

/-- The reload value of the watchdog, which counts units of 8 ms. -/
def WD_TIMEOUT : Nat := 2500

/-- The time after which the watchdog resets the device, in microseconds. -/
def watchdog : Nat := WD_TIMEOUT * 8 * time.TIMER_MS.toNat

/-- How many periods of 100 ms have begun since a start. -/
def due (start now : BitVec 64) : Nat :=
  (now.toNat - start.toNat + (period.toNat - 1)) / period.toNat

section

variable (chip : Nat → UInt8 → UInt8) {l : Loop} {t : Turn} {start : BitVec 64} {count : Nat}

theorem Loop.turn_waits (h : ¬ t.now > l.timer_100ms) :
    l.turn chip t = ({ l with device := t.work l.device }, none) :=
  if_neg h

theorem Loop.turn_runs (h : t.now > l.timer_100ms) :
    l.turn chip t =
      ({ timer_100ms := l.timer_100ms + period.setWidth 64
         indicator := (l.indicator.step t.connected).1
         device := main_100ms chip (t.work l.device) },
        some ⟨t.fed_at, t.connected, (l.indicator.step t.connected).2⟩) :=
  if_pos h

/-- A period later, as long as the times stay in range. -/
theorem toNat_add_period {timer now : BitVec 64} (h : timer < now)
    (hrange : now.toNat + period.toNat < 2 ^ 64) :
    (timer + period.setWidth 64).toNat = timer.toNat + period.toNat := by
  have hperiod : (period.setWidth 64).toNat = period.toNat := rfl
  have hlt := BitVec.lt_def.mp h
  rw [BitVec.toNat_add, hperiod, Nat.mod_eq_of_lt (by omega)]

theorem Loop.blocks_cons (l : Loop) (t : Turn) (turns : List Turn) :
    l.blocks chip (t :: turns) = (l.turn chip t).2.toList ++ (l.turn chip t).1.blocks chip turns := by
  rw [blocks, machine.run_cons, List.filterMap_cons]
  cases (l.turn chip t).2 <;> rfl

/-- A block waits for the next period to begin. -/
theorem lt_due_iff (start now : BitVec 64) (count : Nat) :
    count < due start now ↔ start.toNat + period.toNat * count < now.toNat := by
  have hperiod : period.toNat = 100000 := rfl
  rw [due, hperiod]
  omega

/-- The timer stands `count` periods after the start, and these have begun. -/
structure Loop.Counts (l : Loop) (start : BitVec 64) (count : Nat) : Prop where
  timer : l.timer_100ms.toNat = start.toNat + period.toNat * count

/-- The block runs if it is behind the time, and so catches up by one period a turn. -/
theorem Loop.Counts.turn (h : l.Counts start count) (hrange : t.now.toNat + period.toNat < 2 ^ 64) :
    ((l.turn chip t).2 = none ∧ ¬ count < due start t.now ∧ (l.turn chip t).1.Counts start count) ∨
      (∃ block, (l.turn chip t).2 = some block ∧ block.fed_at = t.fed_at ∧ count < due start t.now ∧
        (l.turn chip t).1.Counts start (count + 1)) := by
  have hiff : t.now > l.timer_100ms ↔ count < due start t.now := by
    rw [gt_iff_lt, BitVec.lt_def, h.timer, lt_due_iff]
  by_cases hbehind : count < due start t.now
  · have hruns := hiff.mpr hbehind
    rw [Loop.turn_runs chip hruns]
    refine .inr ⟨_, rfl, rfl, hbehind, ⟨?_⟩⟩
    rw [toNat_add_period hruns hrange, h.timer, Nat.mul_succ, Nat.add_assoc]
  · rw [Loop.turn_waits chip (hiff.not.mpr hbehind)]
    exact .inl ⟨rfl, hbehind, ⟨h.timer⟩⟩

theorem due_mono {now later : BitVec 64} (h : now.toNat ≤ later.toNat) :
    due start now ≤ due start later := by
  by_contra hnot
  have hearly := (lt_due_iff start now _).mp (Nat.not_le.mp hnot)
  exact absurd ((lt_due_iff start later _).mpr (Nat.lt_of_lt_of_le hearly h)) (Nat.lt_irrefl _)

/-- A turn brings the count up by one period at most, and not beyond those that have begun. -/
theorem Loop.Counts.turn_count (h : l.Counts start count) (hbegun : count ≤ due start t.now)
    (hrange : t.now.toNat + period.toNat < 2 ^ 64) :
    (l.turn chip t).1.Counts start (min (count + 1) (due start t.now)) ∧
      count + (l.turn chip t).2.toList.length = min (count + 1) (due start t.now) := by
  obtain ⟨hnone, hcaught, hcounts⟩ | ⟨block, hblock, -, hbehind, hcounts⟩ := h.turn chip hrange
  · have hdue : due start t.now = count := Nat.le_antisymm (Nat.not_lt.mp hcaught) hbegun
    rw [hdue, Nat.min_eq_right (Nat.le_succ count), hnone]
    exact ⟨hcounts, rfl⟩
  · rw [Nat.min_eq_left hbehind, hblock]
    exact ⟨hcounts, rfl⟩

theorem Loop.Counts.le_blocks_iff (h : l.Counts start count) {turns : List Turn}
    (hsorted : turns.IsChain fun a b => a.now.toNat ≤ b.now.toNat)
    (hbegun : ∀ t ∈ turns.head?, count ≤ due start t.now)
    (hrange : ∀ t ∈ turns, t.now.toNat + period.toNat < 2 ^ 64) (n : Nat) :
    n ≤ count + (l.blocks chip turns).length ↔ n ≤ count + turns.length ∧
      ∀ j (hj : j < turns.length), n ≤ due start turns[j].now + (turns.length - 1 - j) := by
  induction turns generalizing l count with
  | nil => simp [Loop.blocks]
  | cons t turns ih =>
    obtain ⟨hcounts, hcount⟩ := h.turn_count chip (hbegun t rfl) (hrange t List.mem_cons_self)
    have hnext : ∀ later ∈ turns.head?, min (count + 1) (due start t.now) ≤ due start later.now := by
      intro later hlater
      have hle : t.now.toNat ≤ later.now.toNat := by
        cases turns with
        | nil => cases hlater
        | cons other rest =>
          cases hlater
          exact hsorted.rel
      exact Nat.le_trans (Nat.min_le_right _ _) (due_mono hle)
    have hrest := ih hcounts hsorted.of_cons hnext
      (fun later hlater => hrange later (List.mem_cons_of_mem _ hlater))
    have hlength : (t :: turns).length = turns.length + 1 := rfl
    rw [Loop.blocks_cons, List.length_append, ← Nat.add_assoc, hcount, hrest]
    constructor
    · rintro ⟨hshort, hlater⟩
      refine ⟨by omega, fun j hj => ?_⟩
      cases j with
      | zero =>
        rw [List.getElem_cons_zero]
        omega
      | succ j =>
        have hhere := hlater j (by omega)
        rw [List.getElem_cons_succ]
        omega
    · rintro ⟨hshort, hall⟩
      have hfirst := hall 0 (Nat.succ_pos _)
      rw [List.getElem_cons_zero] at hfirst
      refine ⟨by omega, fun j hj => ?_⟩
      have hhere := hall (j + 1) (by omega)
      rw [List.getElem_cons_succ] at hhere
      omega

/-- The timer and the last time that is known are at most `lead` ahead of the time when the
    watchdog was fed. That time counts from `ahead` before the zero of the timer. -/
structure Loop.Fresh (l : Loop) (ahead lead : Nat) (last : BitVec 64) (fed : Nat) : Prop where
  timer_le : l.timer_100ms.toNat + ahead ≤ fed + lead
  timer_le_last : l.timer_100ms.toNat ≤ last.toNat + period.toNat
  last_le : last.toNat + ahead ≤ fed + lead

theorem Turn.getLast?_times (t : Turn) : t.times.getLast? = some t.reached := by
  rw [Turn.times, List.getLast?_cons, Turn.reached]

variable {ahead lead limit fed : Nat} {last : BitVec 64}

/-- The work of a turn feeds the watchdog in time, or does not feed it. -/
theorem Loop.Fresh.work (h : l.Fresh ahead lead last fed) (hlead : period.toNat ≤ lead)
    (hnow : Soon limit last t.now) (htimes : t.times.IsChain (Soon limit)) :
    ∃ fed', (fed :: t.feeds.map fun time => time.toNat + ahead).IsChain
        (fun a b => b ≤ a + (lead + 2 * limit)) ∧
      (fed :: t.feeds.map fun time => time.toNat + ahead).getLast? = some fed' ∧
      t.now.toNat ≤ t.reached.toNat ∧ l.timer_100ms.toNat + ahead ≤ fed' + lead ∧
      t.reached.toNat + ahead ≤ fed' + lead + limit ∧
      (t.now.toNat ≤ l.timer_100ms.toNat → t.reached.toNat + ahead ≤ fed' + lead) := by
  have htimer := h.timer_le
  have hbehind := h.timer_le_last
  have hlast := h.last_le
  obtain ⟨hafter, hsoon⟩ := hnow
  cases hfeeds : t.feeds with
  | nil =>
    have hreached : t.reached = t.now := by rw [Turn.reached, hfeeds]; rfl
    rw [hreached]
    exact ⟨fed, .singleton fed, rfl, Nat.le_refl _, htimer, by omega, by omega⟩
  | cons first later =>
    rw [Turn.times, hfeeds] at htimes
    have hchain : (first :: later).IsChain (Soon limit) := htimes.of_cons
    obtain ⟨hfrom, hfirst⟩ := htimes.rel
    have hreached : t.feeds.getLast? = some t.reached := by
      rw [Turn.reached, hfeeds, List.getLast?_cons]
      rfl
    -- the times of a chain do not go back
    have hlater : first.toNat ≤ t.reached.toNat := by
      have hmem : t.reached ∈ first :: later := hfeeds ▸ List.mem_of_getLast? hreached
      have hsorted : (first :: later).Pairwise fun a b => a.toNat ≤ b.toNat :=
        (hchain.imp fun _ _ hstep => hstep.1).pairwise
      obtain heq | hrest := List.mem_cons.mp hmem
      · exact Nat.le_of_eq (congrArg _ heq.symm)
      · exact List.rel_of_pairwise_cons hsorted hrest
    refine ⟨t.reached.toNat + ahead, ?_, ?_, by omega, by omega, by omega, by omega⟩
    · have hshift : ∀ a b : BitVec 64, Soon limit a b →
          b.toNat + ahead ≤ a.toNat + ahead + (lead + 2 * limit) := by
        intro a b hstep
        have hle := hstep.2
        omega
      have hbegin : first.toNat + ahead ≤ fed + (lead + 2 * limit) := by omega
      exact .cons_cons hbegin
        (List.isChain_map_of_isChain (fun time : BitVec 64 => time.toNat + ahead) hshift hchain)
    · rw [← hfeeds, List.getLast?_cons, List.getLast?_map, hreached]
      rfl

/-- A turn that does not feed the watchdog has not got further than the timer says. -/
theorem Loop.Fresh.turn (h : l.Fresh ahead lead last fed) (hlead : period.toNat ≤ lead)
    (hnow : Soon limit last t.now) (htimes : t.times.IsChain (Soon limit))
    (hfed : Soon limit t.reached t.fed_at) (hrange : t.now.toNat + period.toNat < 2 ^ 64) :
    ∃ fed', (fed :: (t.feeds ++ ((l.turn chip t).2.map Block.fed_at).toList).map
        fun time => time.toNat + ahead).IsChain (fun a b => b ≤ a + (lead + 2 * limit)) ∧
      (fed :: (t.feeds ++ ((l.turn chip t).2.map Block.fed_at).toList).map
        fun time => time.toNat + ahead).getLast? = some fed' ∧
      (l.turn chip t).1.Fresh ahead lead t.reached fed' := by
  obtain ⟨fed', hchain, hend, hbegun, htimer, hreached, hwaits⟩ := h.work hlead hnow htimes
  have hbehind := h.timer_le_last
  have hafter := hnow.1
  rw [List.map_append, ← List.cons_append]
  by_cases hruns : t.now > l.timer_100ms
  · have hlt := BitVec.lt_def.mp hruns
    have htimer' := toNat_add_period hruns hrange
    obtain ⟨hfed_le, hfed_soon⟩ := hfed
    rw [Loop.turn_runs chip hruns]
    refine ⟨t.fed_at.toNat + ahead, ?_, List.getLast?_concat, ⟨?_, ?_, ?_⟩⟩
    · refine hchain.append (.singleton _) fun a ha b hb => ?_
      have hsame : fed' = a := Option.some.inj (hend.symm.trans ha)
      have hfirst : t.fed_at.toNat + ahead = b := Option.some.inj hb
      omega
    · dsimp only
      omega
    · dsimp only
      omega
    · omega
  · have hle := BitVec.not_lt.mp hruns
    rw [BitVec.le_def] at hle
    rw [Loop.turn_waits chip hruns, Option.map_none, Option.toList_none, List.map_nil, List.append_nil]
    exact ⟨fed', hchain, hend, ⟨htimer, by dsimp only; omega, hwaits hle⟩⟩

/-- Neither between two of the times when it is fed nor behind the last one, the watchdog
    waits longer than `lead` and twice the time that the turns may let pass. -/
theorem Loop.Fresh.chain {ended : BitVec 64} (h : l.Fresh ahead lead last fed)
    (hlead : period.toNat ≤ lead) {turns : List Turn}
    (hturns : (last :: (turns.flatMap Turn.times ++ [ended])).IsChain (Soon limit))
    (hfed : ∀ t ∈ turns, Soon limit t.reached t.fed_at)
    (hrange : ∀ t ∈ turns, t.now.toNat + period.toNat < 2 ^ 64) :
    (fed :: (l.fed chip turns ++ [ended]).map fun time => time.toNat + ahead).IsChain
      fun a b => b ≤ a + (lead + 2 * limit) := by
  induction turns generalizing l last fed with
  | nil =>
    have hend := hturns.rel.2
    have hlast := h.last_le
    have hstop : ended.toNat + ahead ≤ fed + (lead + 2 * limit) := by omega
    exact .cons_cons hstop (.singleton _)
  | cons t turns ih =>
    rw [List.flatMap_cons, List.append_assoc] at hturns
    obtain ⟨htimes, hrest, hjoin⟩ := List.isChain_append.mp hturns.of_cons
    have hnext : (t.reached :: (turns.flatMap Turn.times ++ [ended])).IsChain (Soon limit) :=
      hrest.cons (hjoin _ t.getLast?_times)
    obtain ⟨fed', hchain, hend, hfresh⟩ := h.turn chip hlead hturns.rel htimes
      (hfed t List.mem_cons_self) (hrange t List.mem_cons_self)
    have hlater := ih hfresh hnext (fun later hmem => hfed later (List.mem_cons_of_mem _ hmem))
      (fun later hmem => hrange later (List.mem_cons_of_mem _ hmem))
    rw [Loop.fed, List.append_assoc, List.map_append, ← List.cons_append]
    refine hchain.append hlater.of_cons fun a ha b hb => ?_
    have hsame : fed' = a := Option.some.inj (hend.symm.trans ha)
    exact hsame ▸ hlater.rel_head? hb

/-- What the blocks show is what the LED does in blocks that find the device connected then. -/
theorem Loop.blocks_shown (l : Loop) (turns : List Turn) :
    (l.blocks chip turns).map Block.shown =
      (machine.run Indicator.step l.indicator ((l.blocks chip turns).map Block.connected)).2 := by
  induction turns generalizing l with
  | nil => rfl
  | cons t turns ih =>
    rw [Loop.blocks_cons]
    by_cases hruns : t.now > l.timer_100ms
    · rw [Loop.turn_runs chip hruns, Option.toList_some, List.singleton_append, List.map_cons,
        List.map_cons, machine.run_cons, ih]
    · rw [Loop.turn_waits chip hruns]
      exact ih _

end

section Indicator

variable {i : Indicator} {since : Nat} {connected : Bool}

/-- The mask that is played while the device is connected, or while it is not. -/
def mode_mask (connected : Bool) : BitVec 32 :=
  if connected then _LED_MODE_READY.1 else _LED_MODE_IDLE.1

/-- The mask of the last state is played, with `since` blocks since it came. -/
structure Indicator.Shows (i : Indicator) (since : Nat) : Prop where
  plays : i.led1.Plays (mode_mask i.prev_state) 3 0 since
  shows : i.led1.shows = fun bit => if bit then [.on] else [.off]

theorem Indicator.Shows.tick (h : i.Shows since) :
    Indicator.Shows { i with led1 := (led_tick i.led1).1 } (since + 1) :=
  ⟨h.plays.tick.1, (led.led_tick_shows i.led1).trans h.shows⟩

/-- A change of the state starts the other mask. -/
theorem Indicator.Shows.change (h : i.Shows since) (hother : i.prev_state ≠ connected) :
    (_usb_update_state i connected).Shows 0 ∧ (_usb_update_state i connected).prev_state = connected := by
  have haccepts : i.led1.Accepts (mode_mask connected) 0 := by
    rw [led_t.Accepts, h.plays.mask_eq, h.plays.prio_eq]
    refine ⟨?_, fun _ => UInt8.le_refl 0⟩
    cases hprev : i.prev_state <;> cases connected
    all_goals first | exact absurd hprev hother | decide
  have hnew : _usb_update_state i connected =
      { prev_state := connected, led1 := led_cyclic_sequence i.led1 (mode_mask connected) 4 0 } := by
    rw [_usb_update_state, if_neg hother]
    cases connected <;> rfl
  rw [hnew]
  refine ⟨⟨haccepts.plays (by decide) (by decide), ?_⟩, rfl⟩
  exact (led.led_cyclic_sequence_shows _ _ _ _).trans h.shows

/-- A block counts on in the same state, and from one in another. -/
theorem Indicator.Shows.step (h : i.Shows since) (connected : Bool) :
    (i.step connected).1.Shows (if i.prev_state = connected then since + 1 else 1) ∧
      (i.step connected).1.prev_state = connected := by
  rw [Indicator.step]
  by_cases hsame : i.prev_state = connected
  · rw [if_pos hsame, _usb_update_state, if_pos hsame]
    exact ⟨h.tick, hsame⟩
  · rw [if_neg hsame]
    obtain ⟨hchange, hprev⟩ := h.change hsame
    exact ⟨hchange.tick, hprev⟩

/-- In the same state, a block shows the next bit of the mask. -/
theorem Indicator.Shows.step_shown {k : Nat} (h : i.Shows (k + 1)) :
    (i.step i.prev_state).2 = if i.prev_state ∨ k % 4 = 0 then [.on] else [.off] := by
  have hbit := h.plays.tick.2 k rfl
  have hfour : k % 4 < 4 := Nat.mod_lt k (by decide)
  have htable : ∀ connected : Bool, ∀ n < 4,
      (mode_mask connected).getLsbD n = decide (connected = true ∨ n = 0) := by
    decide
  rw [Indicator.step, _usb_update_state, if_pos rfl]
  dsimp only
  rw [hbit, h.shows, htable _ _ hfour]
  simp only [decide_eq_true_eq]

/-- In the same state, the blocks go through the mask bit by bit. -/
theorem Indicator.Shows.run_shown {k : Nat} (h : i.Shows (k + 1)) {states : List Bool}
    (hsame : ∀ connected ∈ states, connected = i.prev_state) {n : Nat} {actions : List Action}
    (hshown : (machine.run Indicator.step i states).2[n]? = some actions) :
    actions = if i.prev_state ∨ (k + n) % 4 = 0 then [.on] else [.off] := by
  induction states generalizing i k n with
  | nil => cases hshown
  | cons connected states ih =>
    have hhere : connected = i.prev_state := hsame connected List.mem_cons_self
    subst hhere
    obtain ⟨hnext, hprev⟩ := h.step i.prev_state
    rw [if_pos rfl] at hnext
    cases n with
    | zero =>
      cases hshown
      exact h.step_shown
    | succ n =>
      have hrest := ih hnext
        (fun other hother => (hsame other (List.mem_cons_of_mem _ hother)).trans hprev.symm) hshown
      rw [hprev] at hrest
      rwa [Nat.add_right_comm] at hrest

/-- After any blocks, the mask of the last one is played. -/
theorem Indicator.Shows.run (h : i.Shows since) (states : List Bool) :
    (∃ since', (machine.run Indicator.step i states).1.Shows since') ∧
      (machine.run Indicator.step i states).1.prev_state = states.getLast?.getD i.prev_state := by
  induction states generalizing i since with
  | nil => exact ⟨⟨since, h⟩, rfl⟩
  | cons connected states ih =>
    obtain ⟨hnext, hprev⟩ := h.step connected
    obtain ⟨hlater, hlast⟩ := ih hnext
    refine ⟨hlater, ?_⟩
    rw [machine.run_cons, hlast, hprev, List.getLast?_cons]
    rfl

/-- The first block of a state starts its mask, also if there is no block before it. -/
theorem Indicator.Shows.first_block (h : i.Shows 0) {before : List Block}
    (hbefore : ∀ block ∈ before.getLast?, block.connected ≠ connected) :
    let first := (machine.run Indicator.step i (before.map Block.connected)).1.step connected
    first.1.Shows 1 ∧ first.1.prev_state = connected := by
  obtain ⟨⟨since, hsince⟩, hprev⟩ := h.run (before.map Block.connected)
  cases hlast : before.getLast? with
  | none =>
    rw [List.getLast?_eq_none_iff.mp hlast]
    obtain ⟨hfirst, hstate⟩ := h.step connected
    rw [Nat.zero_add, ite_self] at hfirst
    exact ⟨hfirst, hstate⟩
  | some block =>
    rw [List.getLast?_map, hlast] at hprev
    obtain ⟨hfirst, hstate⟩ := hsince.step connected
    have hother := hbefore block hlast
    rw [hprev, Option.map_some, Option.getD_some, if_neg hother] at hfirst
    exact ⟨hfirst, hstate⟩

end Indicator

theorem Loop.start_counts (start : BitVec 64) (device : Main) :
    (Loop.start start device).Counts start 0 :=
  ⟨rfl⟩

/-- The number of blocks that have run after any turns is the largest that leaves out no
    turn and no period: one block a turn, and none before its period has begun. -/
theorem blocks_keep_pace (chip : Nat → UInt8 → UInt8) (device : Main) (start : BitVec 64)
    (turns : List Turn) (hsorted : turns.IsChain fun a b => a.now.toNat ≤ b.now.toNat)
    (hrange : ∀ t ∈ turns, t.now.toNat + period.toNat < 2 ^ 64) (n : Nat) :
    n ≤ ((Loop.start start device).blocks chip turns).length ↔ n ≤ turns.length ∧
      ∀ j (hj : j < turns.length), n ≤ due start turns[j].now + (turns.length - 1 - j) := by
  have hcount := (Loop.start_counts start device).le_blocks_iff chip hsorted
    (fun _ _ => Nat.zero_le _) hrange n
  rwa [Nat.zero_add, Nat.zero_add] at hcount

/-- The third turn comes late, and the fourth catches up. -/
theorem blocks_keep_pace_late :
    let turns := [1, 100001, 350000, 350001].map fun now : BitVec 64 => (⟨now, id, [], false, now⟩ : Turn)
    4 ≤ ((Loop.start 0 (Main.power_on 0 (0, 0, 0) false false)).blocks (fun _ c => c) turns).length ↔
      4 ≤ turns.length ∧
        ∀ j (hj : j < turns.length), 4 ≤ due 0 turns[j].now + (turns.length - 1 - j) :=
  blocks_keep_pace _ _ 0 _ (by decide) (by decide) 4

theorem Loop.start_fresh (start : BitVec 64) (device : Main) (ahead : Nat) :
    (Loop.start start device).Fresh ahead (max period.toNat ahead) start start.toNat where
  timer_le := Nat.add_le_add_left (Nat.le_max_right _ _) _
  timer_le_last := Nat.le_add_right _ _
  last_le := Nat.add_le_add_left (Nat.le_max_right _ _) _

/-- The watchdog has been started `ahead` microseconds before the loop is entered. If no
    turn lets pass more than 9.95 s without a TLS session feeding it, it never resets the
    device, neither between two of the times when it is fed nor behind the last one, when
    the run has ended. -/
theorem watchdog_is_fed (chip : Nat → UInt8 → UInt8) (device : Main) (start ended : BitVec 64)
    (turns : List Turn) (ahead limit : Nat) (hlimit : max period.toNat ahead + 2 * limit ≤ watchdog)
    (hturns : (start :: (turns.flatMap Turn.times ++ [ended])).IsChain (Soon limit))
    (hfed : ∀ t ∈ turns, Soon limit t.reached t.fed_at)
    (hrange : ∀ t ∈ turns, t.now.toNat + period.toNat < 2 ^ 64) :
    (start.toNat :: ((Loop.start start device).fed chip turns ++ [ended]).map
      fun time => time.toNat + ahead).IsChain fun a b => b ≤ a + watchdog := by
  have hchain := (Loop.start_fresh start device ahead).chain chip (Nat.le_max_left _ _) hturns hfed hrange
  exact hchain.imp fun a b hle => Nat.le_trans hle (Nat.add_le_add_left hlimit _)

/-- Turns that take as long as they may, and a session that takes longer. -/
theorem watchdog_is_fed_slow :
    let turns : List Turn := [⟨9950000, id, [], true, 19900000⟩,
      ⟨19900000, id, [29850000, 39800000], true, 49750000⟩]
    (0 :: ((Loop.start 0 (Main.power_on 0 (0, 0, 0) false false)).fed (fun _ c => c) turns ++
      [49750000]).map fun time : BitVec 64 => time.toNat + 40000).IsChain fun a b => b ≤ a + watchdog :=
  watchdog_is_fed _ _ 0 49750000 _ 40000 9950000 (by decide) (by decide) (by decide) (by decide)

theorem Loop.start_shows (start : BitVec 64) (device : Main) :
    (Loop.start start device).indicator.Shows 0 := by
  have haccepts : (led_init true true).Accepts _LED_MODE_IDLE.1 0 := by decide
  exact ⟨haccepts.plays (by decide) (by decide), led.led_cyclic_sequence_shows _ _ _ _⟩

/-- However the device is connected and disconnected, from the second block on in which it
    is connected, the LED is on, and from the second on in which it is not, it is on in
    every fourth one. -/
theorem led_shows_connection (chip : Nat → UInt8 → UInt8) (device : Main) (start : BitVec 64)
    (turns : List Turn) {before same after : List Block} {connected : Bool}
    (hblocks : (Loop.start start device).blocks chip turns = before ++ (same ++ after))
    (hbefore : ∀ block ∈ before.getLast?, block.connected ≠ connected)
    (hsame : ∀ block ∈ same, block.connected = connected) {n : Nat} {block : Block}
    (hblock : same[n + 1]? = some block) :
    block.shown = if connected ∨ n % 4 = 0 then [.on] else [.off] := by
  have hstart := Loop.start_shows start device
  have hshown := Loop.blocks_shown chip (Loop.start start device) turns
  rw [hblocks, List.map_append, List.map_append, List.map_append, List.map_append,
    machine.run_append, machine.run_append] at hshown
  -- the part of the run that the same state goes on for
  have hlength : ∀ (i : Indicator) (blocks : List Block), (blocks.map Block.shown).length =
      (machine.run Indicator.step i (blocks.map Block.connected)).2.length := by
    intro i blocks
    rw [machine.run_length, List.length_map, List.length_map]
  have hpart := (List.append_inj (List.append_inj hshown (hlength _ _)).2 (hlength _ _)).1
  cases same with
  | nil => cases hblock
  | cons first rest =>
    have hfirst : first.connected = connected := hsame first List.mem_cons_self
    rw [List.map_cons, List.map_cons, machine.run_cons, List.cons.injEq, hfirst] at hpart
    obtain ⟨hone, hprev⟩ := hstart.first_block hbefore
    have hactions : (rest.map Block.shown)[n]? = some block.shown := by
      rw [List.getElem?_map, ← List.getElem?_cons_succ, hblock, Option.map_some]
    rw [hpart.2] at hactions
    have hbit := hone.run_shown (fun state hstate => ?_) hactions
    · rwa [hprev, Nat.zero_add] at hbit
    · obtain ⟨other, hother, rfl⟩ := List.mem_map.mp hstate
      exact (hsame other (List.mem_cons_of_mem _ hother)).trans hprev.symm

/-- The device is plugged in, and unplugged four blocks later. -/
theorem led_shows_connection_unplugged :
    let connected := [true, true, true, false, false, false, false, false, false]
    let turns := connected.zipIdx.map fun b : Bool × Nat =>
      (⟨BitVec.ofNat 64 (100000 * b.2 + 1), id, [], b.1, BitVec.ofNat 64 (100000 * b.2 + 2)⟩ : Turn)
    let blocks := (Loop.start 0 (Main.power_on 0 (0, 0, 0) false false)).blocks (fun _ c => c) turns
    (blocks.drop 3).map Block.shown = [[.on], [.on], [.off], [.off], [.off], [.on]] ∧
      ([.on] : List Action) = if false = true ∨ 4 % 4 = 0 then [.on] else [.off] := by
  intro connected turns blocks
  have hblocks : blocks = blocks.take 3 ++ (blocks.drop 3 ++ []) := by
    rw [List.append_nil, List.take_append_drop]
  exact ⟨by decide, led_shows_connection _ _ 0 turns hblocks (n := 4)
    (by decide) (by decide) (show _ = some (⟨800002, false, [.on]⟩ : Block) by decide)⟩

end keychain.main
