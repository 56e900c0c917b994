import Keychain.Library.Machine
import Keychain.Cmd.Reply
import Keychain.Main.Task

namespace keychain.main

open cmd

/-- What a set function asks of the chip select, if it accepts its text. -/
def FuncSet.request (f : FuncSet) (text : List UInt8) : Option Bool :=
  if f = .cs_set then (_cmd_fetch_bool text).map (·.1) else none

/-- The same for a command with the text behind its name. -/
def command_request (cmd : cmd_t) (text : List UInt8) : Option Bool :=
  let text := _skip_spaces text
  match cmd.pfunc_set with
  | none => none
  | some f =>
    if text.headD 0 = '='.toUInt8 then FuncSet.request f (_skip_spaces text.tail)
    else if text.headD 0 ≠ '?'.toUInt8 ∧ text.headD 0 ≠ 0 then FuncSet.request f text
    else none

/-- What a command line asks of the chip select: `CS=1` and its other spellings
    are `some true`, and a line that is no such command is `none`. -/
def cs_request (line : List UInt8) : Option Bool :=
  if line.headD 0 = '#'.toUInt8 then none
  else
    match _find_cmd _CMD_TABLE line with
    | none => none
    | some (cmd, text) => command_request cmd text

/-- The main task with what the host has asked of the chip select and has not
    taken back, and whether an automatic read has been started against that. -/
structure Bench where
  device : Main
  host_holds : Bool
  auto_while_held : Bool

inductive Step where
  | line (data : List UInt8)
  | block_100ms

def Bench.start (boot : Main) : Bench :=
  ⟨boot, false, false⟩

/-- A reset brings back the state that the device has booted into. -/
def Bench.step (chip : Nat → UInt8 → UInt8) (boot : Main) (b : Bench) : Step → Bench × Unit
  | .line data =>
    match tty_rx_parser_line b.device data with
    | none => (Bench.start boot, ())
    | some main => (⟨main, (cs_request (_skip_spaces data)).getD b.host_holds, b.auto_while_held⟩, ())
  | .block_100ms =>
    let started := b.device.board.main_spi_auto && !b.device._spi_cs_active
    (⟨main_100ms chip b.device, b.host_holds, b.auto_while_held || (started && b.host_holds)⟩, ())

/-- The two copies of the chip-select state agree, no automatic read has cut
    into a transaction of the host, and the line is low while the host holds it. -/
structure Bench.Owned (b : Bench) : Prop where
  agree : b.device._spi_cs_active = b.device.board._spi1_cs_state
  undisturbed : b.auto_while_held = false
  held : b.host_holds = true → b.device.board.cs_low = true

/-- The chip select after a request: driven as asked, the copy included. -/
def after_request (before : Bool × Bool) : Option Bool → Bool × Bool
  | none => before
  | some state => (state, state)

theorem FuncSet.call_chip_select (f : FuncSet) (text : List UInt8) (b : Board) :
    (f.call text b).2.settings.chip_select =
      after_request b.settings.chip_select (FuncSet.request f text) := by
  by_cases hf : f = .cs_set
  · subst hf
    simp only [FuncSet.request, if_true, FuncSet.call, _cmd_cs_set]
    cases _cmd_fetch_bool text with
    | none => rfl
    | some bit =>
      obtain ⟨state, rest⟩ := bit
      cases state <;> rfl
  · have hname : f.name ≠ ascii "CS" := by
      cases f <;> first | exact absurd rfl hf | decide
    rw [FuncSet.request, if_neg hf]
    obtain herr | ⟨b', hok, -, -, hown⟩ := f.call_spec text b
    · rw [herr]
      rfl
    · rw [hok]
      exact hown.chip_select hname

theorem command_request_eq (cmd : cmd_t) (text : List UInt8) :
    command_request cmd text =
      if IsQuery text then none
      else cmd.pfunc_set.bind fun f => FuncSet.request f (set_text text) := by
  unfold command_request set_text
  dsimp only
  cases cmd.pfunc_set with
  | none => exact (ite_self none).symm
  | some f =>
    by_cases hassign : (_skip_spaces text).headD 0 = '='.toUInt8
    · have hform : ¬ IsQuery text := by
        rw [IsQuery, hassign]
        decide
      simp only [if_pos hassign, if_neg hform, Option.bind_some]
    · by_cases hform : IsQuery text
      · have hfree : ¬ ((_skip_spaces text).headD 0 ≠ '?'.toUInt8 ∧ (_skip_spaces text).headD 0 ≠ 0) := by
          rw [← not_or, not_not]
          exact hform
        simp only [if_neg hassign, if_neg hfree, if_pos hform]
      · simp only [if_neg hassign, if_pos (not_or.mp hform), if_neg hform, Option.bind_some]

theorem _process_cmd_chip_select {cmd : cmd_t} (hcmd : cmd ∈ _CMD_TABLE) {text : List UInt8}
    {b b' : Board} {ok : Bool} (h : _process_cmd cmd text b = some (ok, b')) :
    b'.settings.chip_select = after_request b.settings.chip_select (command_request cmd text) := by
  rw [command_request_eq]
  obtain ⟨reason, -, herr, hnone, -⟩ | ⟨f, hset, hform, hcall⟩ | ⟨f, -, hform, hcall⟩ :=
    _process_cmd_cases cmd text b
  · rw [herr] at h
    cases h
    by_cases hform : IsQuery text
    · rw [if_pos hform]
      rfl
    · rw [if_neg hform, hnone hform]
      rfl
  · rw [hcall] at h
    have hselect := FuncSet.call_chip_select f (set_text text) b
    rw [Option.some.inj h] at hselect
    rw [if_neg hform, hset]
    exact hselect
  · obtain ⟨out, rfl⟩ := Func.call_prints hcmd (hcall.symm.trans h)
    rw [if_pos hform]
    rfl

/-- A line acts on the chip select as it asks, and not at all if it does not ask. -/
theorem cmd_parse_chip_select {b b' : Board} {line : List UInt8} (h : cmd_parse b line = some b') :
    b'.settings.chip_select = after_request b.settings.chip_select (cs_request line) := by
  unfold cs_request
  obtain ⟨hremark, rfl⟩ | ⟨hremark, hfind, rfl⟩ | ⟨hremark, cmd, text, ok, b₁, out, hfind, hprocess, rfl⟩ :=
    cmd_parse_cases h
  · rw [if_pos hremark]
    rfl
  · rw [if_neg hremark, hfind]
    rfl
  · have hselect := _process_cmd_chip_select (_find_cmd_mem hfind) hprocess
    rw [if_neg hremark, hfind]
    exact hselect

/-- The automatic read leaves the line idle and both copies agree on that. -/
theorem _spi_auto_task_spec (chip : Nat → UInt8 → UInt8) (m : Main) :
    (_spi_auto_task chip m)._spi_cs_active = false ∧
      (_spi_auto_task chip m).board.settings.chip_select = (false, false) := by
  unfold _spi_auto_task
  dsimp only
  split <;> exact ⟨rfl, rfl⟩

/-- A line that asks for the chip select is no reset. -/
theorem cmd_parse_of_request (b : Board) {line : List UInt8} {state : Bool}
    (h : cs_request line = some state) : ∃ b', cmd_parse b line = some b' := by
  unfold cs_request at h
  unfold cmd_parse
  split_ifs at h ⊢ with hremark
  cases hfind : _find_cmd _CMD_TABLE line with
  | none =>
    rw [hfind] at h
    cases h
  | some found =>
    obtain ⟨cmd, text⟩ := found
    rw [hfind] at h
    dsimp only at h ⊢
    rw [command_request_eq] at h
    have hreturns : ∃ result, _process_cmd cmd text b = some result := by
      obtain ⟨reason, -, herr, -⟩ | ⟨f, -, -, hcall⟩ | ⟨f, -, hform, -⟩ := _process_cmd_cases cmd text b
      · exact ⟨_, herr⟩
      · exact ⟨_, hcall⟩
      · rw [if_pos hform] at h
        cases h
    obtain ⟨⟨ok, b₁⟩, hresult⟩ := hreturns
    rw [hresult]
    cases ok <;> exact ⟨_, rfl⟩

theorem Bench.step_line_cases (chip : Nat → UInt8 → UInt8) (boot : Main) (b : Bench)
    (data : List UInt8) :
    (b.step chip boot (.line data)).1 = Bench.start boot ∨
      ∃ board, cmd_parse b.device.board (_skip_spaces data) = some board ∧
        (b.step chip boot (.line data)).1 =
          ⟨{ b.device with board }, (cs_request (_skip_spaces data)).getD b.host_holds,
            b.auto_while_held⟩ := by
  cases hparse : cmd_parse b.device.board (_skip_spaces data) with
  | none =>
    left
    simp only [Bench.step, tty_rx_parser_line, hparse]
  | some board =>
    refine .inr ⟨board, rfl, ?_⟩
    simp only [Bench.step, tty_rx_parser_line, hparse]

/-- With its own flag down the main loop starts a read whenever AUTO is on. -/
theorem main_100ms_eq (chip : Nat → UInt8 → UInt8) {m : Main} (h : m._spi_cs_active = false) :
    main_100ms chip m = if m.board.main_spi_auto then _spi_auto_task chip m else m := by
  rw [main_100ms, if_pos h]

/-- The main loop's own flag is down whenever the main loop is between steps:
    no command ever raises it. -/
theorem step_cs_active (chip : Nat → UInt8 → UInt8) {boot : Main} (hboot : boot._spi_cs_active = false)
    (b : Bench) (s : Step) (h : b.device._spi_cs_active = false) :
    (b.step chip boot s).1.device._spi_cs_active = false := by
  cases s with
  | line data =>
    obtain heq | ⟨board, -, heq⟩ := b.step_line_cases chip boot data
    · rw [heq]
      exact hboot
    · rw [heq]
      exact h
  | block_100ms =>
    simp only [Bench.step, main_100ms_eq chip h]
    split
    · exact (_spi_auto_task_spec chip b.device).1
    · exact h

/-- What holds as long as no line asks for the chip select. -/
structure Bench.Idle (b : Bench) : Prop where
  cs_active : b.device._spi_cs_active = false
  chip_select : b.device.board.settings.chip_select = (false, false)
  unheld : b.host_holds = false
  undisturbed : b.auto_while_held = false

theorem Bench.Idle.owned {b : Bench} (h : b.Idle) : b.Owned := by
  refine ⟨?_, h.undisturbed, fun hheld => ?_⟩
  · have hstate := congrArg Prod.fst h.chip_select
    rw [h.cs_active]
    exact hstate.symm
  · rw [h.unheld] at hheld
    cases hheld

theorem Bench.Idle.step {b : Bench} (h : b.Idle) (chip : Nat → UInt8 → UInt8) {boot : Main}
    (hboot : (Bench.start boot).Idle) (s : Step)
    (hs : ∀ data, s = .line data → cs_request (_skip_spaces data) ≠ some true) :
    (b.step chip boot s).1.Idle := by
  have hboot_active : boot._spi_cs_active = false := hboot.cs_active
  have hactive := step_cs_active chip hboot_active b s h.cs_active
  cases s with
  | line data =>
    obtain heq | ⟨board, hparse, heq⟩ := b.step_line_cases chip boot data
    · rw [heq]
      exact hboot
    · have hselect := cmd_parse_chip_select hparse
      have hrequest := hs data rfl
      rw [h.chip_select] at hselect
      rw [heq] at hactive ⊢
      generalize cs_request (_skip_spaces data) = request at hselect hrequest hactive ⊢
      cases request with
      | none => exact ⟨hactive, hselect, h.unheld, h.undisturbed⟩
      | some state =>
        cases state with
        | false => exact ⟨hactive, hselect, rfl, h.undisturbed⟩
        | true => exact absurd rfl hrequest
  | block_100ms =>
    refine ⟨hactive, ?_, h.unheld, ?_⟩
    · simp only [Bench.step, main_100ms_eq chip h.cs_active]
      split
      · exact (_spi_auto_task_spec chip b.device).2
      · exact h.chip_select
    · simp [Bench.step, h.undisturbed, h.unheld]

/-- The request itself breaks the agreement: it raises the driver's copy only. -/
theorem not_owned_of_request {b : Bench} (h : b.device._spi_cs_active = false)
    (chip : Nat → UInt8 → UInt8) (boot : Main) {data : List UInt8}
    (hrequest : cs_request (_skip_spaces data) = some true) :
    ¬ (b.step chip boot (.line data)).1.Owned := by
  intro howned
  obtain ⟨board, hparse⟩ := cmd_parse_of_request b.device.board hrequest
  have hselect := cmd_parse_chip_select hparse
  rw [hrequest] at hselect
  have hstate : board._spi1_cs_state = true := congrArg Prod.fst hselect
  have hagree := howned.agree
  simp only [Bench.step, tty_rx_parser_line, hparse, hstate, h] at hagree
  cases hagree

/-- In a run of lines and 100 ms blocks from power on, the chip select is owned
    properly in every state exactly if no line asks for it to be held. -/
theorem chip_select_owned_iff (chip : Nat → UInt8 → UInt8) (CFG1 : BitVec 32)
    (uid : BitVec 32 × BitVec 32 × BitVec 32) (button gpo_in : Bool) (steps : List Step) :
    (∀ b, machine.Reached (Bench.step chip (Main.power_on CFG1 uid button gpo_in))
        (Bench.start (Main.power_on CFG1 uid button gpo_in)) steps b → b.Owned) ↔
      ∀ data, .line data ∈ steps → cs_request (_skip_spaces data) ≠ some true := by
  have hboot : (Bench.start (Main.power_on CFG1 uid button gpo_in)).Idle := ⟨rfl, rfl, rfl, rfl⟩
  generalize Main.power_on CFG1 uid button gpo_in = boot at hboot ⊢
  have hboot_active : boot._spi_cs_active = false := hboot.cs_active
  constructor
  · intro howned data hmem hrequest
    obtain ⟨before, after, rfl⟩ := List.append_of_mem hmem
    have hactive := machine.run_invariant (Bench.step chip boot)
      (fun b => b.device._spi_cs_active = false) (fun _ => True)
      (fun b s h _ => step_cs_active chip hboot_active b s h) (Bench.start boot) before
      hboot.cs_active (fun _ _ => trivial)
    apply not_owned_of_request hactive chip boot hrequest
    apply howned
    refine ⟨before ++ [.line data], after, by simp, ?_⟩
    rw [machine.run_append]
    rfl
  · rintro hrequests b ⟨before, after, rfl, rfl⟩
    refine (machine.run_invariant (Bench.step chip boot) Bench.Idle
      (fun s => ∀ data, s = .line data → cs_request (_skip_spaces data) ≠ some true)
      (fun b s h hs => h.step chip hboot s hs) (Bench.start boot) before hboot ?_).owned
    rintro s hs data rfl
    exact hrequests data (List.mem_append_left after hs)

/-- The host takes the chip select and turns automatic reading on: the next
    100 ms block reads from the chip in the middle of the host's transaction and
    ends by releasing the line that the host still holds. -/
theorem auto_read_cuts_in :
    let boot := Main.power_on 0x40000000#32 (1, 2, 3) false false
    let last := (machine.run (Bench.step (fun _ _ => 0xFF) boot) (Bench.start boot)
      [.line (ascii "AUTO=1"), .line (ascii "CS=1"), .block_100ms]).1
    last.host_holds = true ∧ last.auto_while_held = true ∧ last.device.board.cs_low = false ∧
      ¬ ∀ b, machine.Reached (Bench.step (fun _ _ => 0xFF) boot) (Bench.start boot)
        [.line (ascii "AUTO=1"), .line (ascii "CS=1"), .block_100ms] b → b.Owned := by
  refine ⟨by decide, by decide, by decide, fun howned => ?_⟩
  have hlast := howned _ ⟨_, [], (List.append_nil _).symm, rfl⟩
  exact absurd hlast.undisturbed (by decide)

end keychain.main
