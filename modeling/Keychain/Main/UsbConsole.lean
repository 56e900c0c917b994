import Keychain.Main.Handshake
import Keychain.Main.HostLines
import Keychain.Usb.Inbound

namespace keychain.main

open cmd (SameWord)
open tty
open usb (OutController RxStatus SlaveDevice UsbStep Seen handed acked nonempty)

/-- What the main task does: it reads lines, it is in the session that a line has opened, or a
    line has reset the device. -/
inductive Mode where
  | command
  | session
  | reset
  deriving DecidableEq

/-- The main task with the USB device below it and the line editor of the command stream. -/
structure UsbConsole (η : Type) where
  slave : SlaveDevice η
  console : Option Console
  task : Main
  mode : Mode

inductive UsbConsoleStep where
  /-- What happens to the device. In a session, a packet that is handed over is for the ring of
      the session, but for those before its start and behind its end (`to_stream`). -/
  | usb (step : UsbStep) (to_stream : Bool)
  /-- The loop of `tty_rx_task` makes a turn. -/
  | turn
  | session_ends

section

variable {η : Type}

/-- A line is handled: that opens a session, or resets the device, or is done with. -/
def UsbConsole.parse (u : UsbConsole η) (line : List UInt8) : UsbConsole η :=
  match tty_rx_parser_line u.task line with
  | none => { u with mode := .reset }
  | some task =>
    { u with
      task
      mode := if task.board.tls_sessions = u.task.board.tls_sessions then u.mode else .session }

/-- The turn that completes a line is over when the line has been handled. -/
def UsbConsole.turn (u : UsbConsole η) : UsbConsole η :=
  match u.console with
  | none => u
  | some c =>
    match c.turn with
    | none => { u with console := none }
    | some next =>
      (next.usb_rx.lines.drop c.usb_rx.lines.length).foldl UsbConsole.parse
        { u with console := some next }

def UsbConsole.step (pcd : OutController η) (u : UsbConsole η) :
    UsbConsoleStep → UsbConsole η × Option Seen
  | .usb input to_stream =>
    let stepped := u.slave.step pcd input
    let console :=
      match stepped.2 with
      | .polled (some packet) =>
        if u.mode = .command ∨ u.mode = .session ∧ to_stream = true then
          u.console.map (·.packet packet)
        else u.console
      | _ => u.console
    ({ u with slave := stepped.1, console }, some stepped.2)
  | .turn => (if u.mode = .command then u.turn else u, none)
  | .session_ends => (if u.mode = .session then { u with mode := .command } else u, none)

/-- What the host and the polls see of a run. -/
def UsbConsole.seen (pcd : OutController η) (u : UsbConsole η) (inputs : List UsbConsoleStep) :
    List Seen :=
  (machine.run (UsbConsole.step pcd) u inputs).2.filterMap id

/-- What a run gives the USB device to do. -/
def usb_inputs (inputs : List UsbConsoleStep) : List UsbStep :=
  inputs.filterMap fun
    | .usb step _ => some step
    | _ => none

def UsbConsole.start (hal : η) (data acm_rx_buffer stream : Nat → UInt8)
    (line : Vector UInt8 TTY_BUF_SIZE) (task : Main) : UsbConsole η :=
  ⟨.start hal data acm_rx_buffer, some (.start stream line), task, .command⟩

/-- The host is silent: three polls, and as many turns as the stream has cells. -/
@[irreducible] def draining : List UsbConsoleStep :=
  List.replicate 3 (.usb .poll false) ++ List.replicate USB_TTY_BUFFER_SIZE .turn

/-- When the line has been handled, the main task goes on reading lines. -/
def StaysInCommand (line : List UInt8) : Prop :=
  ∀ m, ∃ m', tty_rx_parser_line m line = some m' ∧ m'.board.tls_sessions = m.board.tls_sessions

/-- That is so of all lines but those that start a handshake and those with the word of the
    reset. -/
theorem staysInCommand_of_word {line : List UInt8} (htls : ¬ StartsTls line)
    (hreset : ¬ SameWord (cmd.command_word (cmd._skip_spaces line)) (ascii "RESET")) :
    StaysInCommand line := by
  intro m
  have hparse : ∃ board, cmd.cmd_parse m.board (cmd._skip_spaces line) = some board := by
    rw [cmd.cmd_parse]
    split_ifs
    · exact ⟨_, rfl⟩
    · cases hfind : cmd._find_cmd cmd._CMD_TABLE (cmd._skip_spaces line) with
      | none => exact ⟨_, rfl⟩
      | some found =>
        obtain ⟨entry, text⟩ := found
        have hword : entry.text ≠ ascii "RESET" := by
          intro hname
          rw [cmd._find_cmd_eq cmd.table_wellNamed] at hfind
          obtain ⟨found, hfound, heq⟩ := Option.map_eq_some_iff.mp hfind
          cases heq
          rw [← hname] at hreset
          exact hreset (by simpa using List.find?_some hfound)
        obtain ⟨reason, -, hresult⟩ | ⟨b', lines, hresult, -⟩ :=
          cmd._process_cmd_goes (cmd._find_cmd_mem hfind) hword text m.board
        · simp only [hresult]
          exact ⟨_, rfl⟩
        · simp only [hresult]
          exact ⟨_, rfl⟩
  obtain ⟨board, hboard⟩ := hparse
  have hline : tty_rx_parser_line m line = some { m with board } := by
    rw [tty_rx_parser_line, hboard]
  refine ⟨_, hline, ?_⟩
  have hsessions := tty_rx_parser_line_sessions hline
  rwa [if_neg htls, Nat.add_zero] at hsessions

variable {pcd : OutController η} {u : UsbConsole η} {c : Console}

theorem UsbConsole.seen_cons (u : UsbConsole η) (input : UsbConsoleStep) (inputs : List UsbConsoleStep) :
    u.seen pcd (input :: inputs) =
      (u.step pcd input).2.toList ++ (u.step pcd input).1.seen pcd inputs := by
  rw [seen, machine.run_cons, List.filterMap_cons]
  cases (u.step pcd input).2 <;> rfl

theorem UsbConsole.parse_frame (u : UsbConsole η) (lines : List (List UInt8)) :
    (lines.foldl UsbConsole.parse u).slave = u.slave ∧
      (lines.foldl UsbConsole.parse u).console = u.console := by
  induction lines generalizing u with
  | nil => exact ⟨rfl, rfl⟩
  | cons line lines ih =>
    have hline : (u.parse line).slave = u.slave ∧ (u.parse line).console = u.console := by
      rw [UsbConsole.parse]
      split <;> exact ⟨rfl, rfl⟩
    exact ⟨(ih _).1.trans hline.1, (ih _).2.trans hline.2⟩

theorem UsbConsole.parse_mode {u : UsbConsole η} (hmode : u.mode = .command) {lines : List (List UInt8)}
    (hlines : ∀ line ∈ lines, StaysInCommand line) :
    (lines.foldl UsbConsole.parse u).mode = .command := by
  induction lines generalizing u with
  | nil => exact hmode
  | cons line lines ih =>
    obtain ⟨m', hm', hsessions⟩ := hlines line List.mem_cons_self u.task
    refine ih ?_ fun other hother => hlines other (List.mem_cons_of_mem _ hother)
    rw [UsbConsole.parse, hm']
    exact (if_pos hsessions).trans hmode

theorem UsbConsole.turn_slave (u : UsbConsole η) : u.turn.slave = u.slave := by
  rw [UsbConsole.turn]
  split
  · rfl
  · split
    · rfl
    · exact (UsbConsole.parse_frame _ _).1

variable (pcd) in
/-- The part of a run that the USB device takes is a run of its own. -/
theorem UsbConsole.run_slave (u : UsbConsole η) (inputs : List UsbConsoleStep) :
    (machine.run (UsbConsole.step pcd) u inputs).1.slave =
        (machine.run (SlaveDevice.step pcd) u.slave (usb_inputs inputs)).1 ∧
      u.seen pcd inputs = (machine.run (SlaveDevice.step pcd) u.slave (usb_inputs inputs)).2 := by
  refine machine.run_project (UsbConsole.step pcd) (SlaveDevice.step pcd) (fun _ => True)
    UsbConsole.slave (fun | .usb step _ => some step | _ => none) id (fun u input _ => ⟨trivial, ?_⟩)
    trivial inputs
  cases input with
  | usb step to_stream => exact ⟨rfl, rfl⟩
  | turn =>
    refine ⟨?_, rfl⟩
    rw [UsbConsole.step]
    split_ifs
    · exact u.turn_slave
    · rfl
  | session_ends =>
    refine ⟨?_, rfl⟩
    rw [UsbConsole.step]
    split_ifs <;> rfl

/-- A stream holds no more than was accepted. -/
theorem Console.Sound.length_queue_le (h : c.Sound) : c.stream.queue.length ≤ c.host.length := by
  have hqueue := congrArg List.length h.queue
  rw [List.length_append] at hqueue
  have haccepted : c.host.accepted.length ≤ c.host.length := by
    rw [Sent.accepted, Sent.bytes, List.length_map]
    exact List.length_filter_le ..
  omega

/-- Nothing is dropped before the host has sent as much as the stream has room for. -/
def Console.Kept (c : Console) : Prop :=
  c.host.length < USB_TTY_BUFFER_SIZE → ∀ mark ∈ c.host, mark.2 = true

theorem Console.Sound.kept_packet (h : c.Sound) (hkept : c.Kept) (packet : List UInt8) :
    (c.packet packet).Kept := by
  obtain ⟨-, hhost⟩ := h.packet packet
  intro hshort
  rw [hhost] at hshort ⊢
  rw [List.length_append, List.length_map] at hshort
  have hfits : c.stream.Fits packet := by
    have hqueue := h.length_queue_le
    unfold UsbStream.Fits
    omega
  intro mark hmark
  obtain hold | hnew := List.mem_append.mp hmark
  · exact hkept (by omega) mark hold
  · obtain ⟨byte, -, rfl⟩ := List.mem_map.mp hnew
    exact decide_eq_true hfits

/-- A line has been parsed after which the main task did not just go on. -/
def Console.Leaves (c : Console) : Prop :=
  ∃ line ∈ c.usb_rx.lines, ¬ StaysInCommand line

/-- That happened when the host had been handed over some first part of `bytes`, of which the
    console has kept a record since. -/
def Console.HasLeft (c : Console) (bytes : List UInt8) : Prop :=
  ∃ first : Console, first.Leaves ∧ first.Sound ∧ first.Kept ∧ first.host <+: c.host ∧
    first.host.bytes <+: bytes

theorem Console.HasLeft.mono {bytes : List UInt8} {next : Console} (h : c.HasLeft bytes)
    (hhost : c.host <+: next.host) : next.HasLeft bytes := by
  obtain ⟨first, hleaves, hsound, hkept, hfirst, hbytes⟩ := h
  exact ⟨first, hleaves, hsound, hkept, hfirst.trans hhost, hbytes⟩

theorem Console.HasLeft.append {bytes : List UInt8} (h : c.HasLeft bytes) (more : List UInt8) :
    c.HasLeft (bytes ++ more) := by
  obtain ⟨first, hleaves, hsound, hkept, hfirst, hbytes⟩ := h
  exact ⟨first, hleaves, hsound, hkept, hfirst, hbytes.trans (List.prefix_append _ _)⟩

/-- The line is among those of the accepted bytes. -/
theorem Console.HasLeft.mem_delivered {bytes : List UInt8} (h : c.HasLeft bytes) :
    ∃ line ∈ delivered c.host.accepted, ¬ StaysInCommand line := by
  obtain ⟨first, ⟨line, hline, hleaves⟩, hsound, -, ⟨later, hlater⟩, -⟩ := h
  refine ⟨line, ?_, hleaves⟩
  rw [hsound.agrees.lines_eq] at hline
  rw [← hlater, Sent.accepted_append, ← hsound.queue, List.append_assoc]
  exact (prefix_delivered_append _ _).subset hline

/-- If the bytes are so few that none is dropped, the line is among theirs. -/
theorem Console.HasLeft.mem_delivered_of_length {bytes : List UInt8} (h : c.HasLeft bytes)
    (hshort : bytes.length < USB_TTY_BUFFER_SIZE) :
    ∃ line ∈ delivered bytes, ¬ StaysInCommand line := by
  obtain ⟨first, ⟨line, hline, hleaves⟩, hsound, hkept, -, hbytes⟩ := h
  refine ⟨line, ?_, hleaves⟩
  have hlength : first.host.length ≤ bytes.length := by
    have hle := hbytes.length_le
    rwa [Sent.bytes, List.length_map] at hle
  have hall : first.host.accepted = first.host.bytes := by
    rw [Sent.accepted, List.filter_eq_self.mpr (hkept (by omega))]
  obtain ⟨rest, rfl⟩ := hbytes
  rw [hsound.agrees.lines_eq] at hline
  rw [← hall, ← hsound.queue, List.append_assoc]
  exact (prefix_delivered_append _ _).subset hline

/-- The host has been handed over `bytes`, which are all for the command stream unless a line
    has opened a session or reset the device. -/
structure UsbConsole.At (u : UsbConsole η) (c : Console) (bytes : List UInt8) : Prop where
  console : u.console = some c
  sound : c.Sound
  kept : c.Kept
  command : c.HasLeft bytes ∨ u.mode = .command ∧ c.host.bytes = bytes

variable (pcd) in
theorem UsbConsole.At.turn {bytes : List UInt8} (h : u.At c bytes) :
    ∃ next, (u.step pcd .turn).1.At next bytes ∧ next.host = c.host ∧
      (next.HasLeft bytes ∨ next.stream.queue = c.stream.queue.tail) := by
  rw [UsbConsole.step]
  by_cases hmode : u.mode = .command
  · obtain ⟨next, hturn, hsound, hhost, hqueue⟩ := h.sound.turn
    have hkept : next.Kept := by
      have hkept := h.kept
      rwa [Console.Kept, ← hhost] at hkept
    rw [if_pos hmode, UsbConsole.turn, h.console]
    dsimp only
    rw [hturn]
    dsimp only
    refine ⟨next, ⟨(UsbConsole.parse_frame _ _).2, hsound, hkept, ?_⟩, hhost, .inr hqueue⟩
    obtain hleft | ⟨-, hbytes⟩ := h.command
    · exact .inl (hleft.mono (hhost ▸ List.prefix_refl _))
    · by_cases hnew : ∀ line ∈ next.usb_rx.lines.drop c.usb_rx.lines.length, StaysInCommand line
      · exact .inr ⟨UsbConsole.parse_mode (u := { u with console := some next }) hmode hnew,
          by rw [hhost, hbytes]⟩
      · push Not at hnew
        obtain ⟨line, hline, hleaves⟩ := hnew
        have hall : next.host.bytes = bytes := by rw [hhost, hbytes]
        exact .inl ⟨next, ⟨line, List.mem_of_mem_drop hline, hleaves⟩, hsound, hkept,
          List.prefix_refl _, hall ▸ List.prefix_refl _⟩
  · rw [if_neg hmode]
    exact ⟨c, h, rfl, .inl (h.command.resolve_right fun hcommand => hmode hcommand.1)⟩

theorem UsbConsole.At.packet {bytes : List UInt8} (h : u.At c bytes) (slave : SlaveDevice η)
    (packet : List UInt8) (to_stream : Prop) [Decidable to_stream] (hstream : u.mode = .command → to_stream) :
    ∃ next, UsbConsole.At
      { u with slave, console := if to_stream then u.console.map (·.packet packet) else u.console }
      next (bytes ++ packet) := by
  by_cases hto : to_stream
  · obtain ⟨hsound, hhost⟩ := h.sound.packet packet
    refine ⟨c.packet packet, by rw [if_pos hto, h.console]; rfl, hsound, h.sound.kept_packet h.kept packet,
      h.command.imp (fun hleft => (hleft.mono (hhost ▸ List.prefix_append _ _)).append packet) ?_⟩
    rintro ⟨hmode, hbytes⟩
    refine ⟨hmode, ?_⟩
    rw [hhost, Sent.bytes_append, Sent.bytes_marked, hbytes]
  · have hleft := h.command.resolve_right fun hcommand => hto (hstream hcommand.1)
    exact ⟨c, by rw [if_neg hto]; exact h.console, h.sound, h.kept, .inl (hleft.append packet)⟩

variable (pcd) in
/-- What a step hands over is for the stream as long as no line has led elsewhere. -/
theorem UsbConsole.At.step {bytes : List UInt8} (h : u.At c bytes) (input : UsbConsoleStep) :
    ∃ next, (u.step pcd input).1.At next (bytes ++ (handed (u.step pcd input).2.toList).flatten) := by
  cases input with
  | usb step to_stream =>
    simp only [UsbConsole.step, Option.toList_some]
    cases hseen : (u.slave.step pcd step).2 with
    | polled packet =>
      cases packet with
      | none => exact ⟨c, h.console, h.sound, h.kept, by simpa [handed] using h.command⟩
      | some packet =>
        obtain ⟨next, hnext⟩ := h.packet (u.slave.step pcd step).1 packet
          (u.mode = .command ∨ u.mode = .session ∧ to_stream = true) .inl
        exact ⟨next, by simpa [handed] using hnext⟩
    | _ => exact ⟨c, h.console, h.sound, h.kept, by simpa [handed] using h.command⟩
  | turn =>
    obtain ⟨next, hnext, -⟩ := h.turn pcd
    exact ⟨next, by simpa [handed, UsbConsole.step] using hnext⟩
  | session_ends =>
    refine ⟨c, ?_⟩
    simp only [UsbConsole.step, Option.toList_none, handed, List.filterMap_nil, List.flatten_nil,
      List.append_nil]
    split_ifs with hsession
    · exact ⟨h.console, h.sound, h.kept, h.command.imp_right fun hcommand => ⟨rfl, hcommand.2⟩⟩
    · exact h

variable (pcd) in
theorem UsbConsole.At.run {bytes : List UInt8} (h : u.At c bytes) (inputs : List UsbConsoleStep) :
    ∃ last, (machine.run (UsbConsole.step pcd) u inputs).1.At last
      (bytes ++ (handed (u.seen pcd inputs)).flatten) := by
  induction inputs generalizing u c bytes with
  | nil => exact ⟨c, by simpa [UsbConsole.seen, handed] using h⟩
  | cons input rest ih =>
    obtain ⟨next, hnext⟩ := h.step pcd input
    obtain ⟨last, hlast⟩ := ih hnext
    have hhanded : handed (u.seen pcd (input :: rest)) =
        handed (u.step pcd input).2.toList ++ handed ((u.step pcd input).1.seen pcd rest) := by
      rw [UsbConsole.seen_cons]
      exact List.filterMap_append
    refine ⟨last, ?_⟩
    rw [machine.run_cons, hhanded, List.flatten_append, ← List.append_assoc]
    exact hlast

variable (pcd) in
/-- After as many turns as there are characters, the stream is empty. -/
theorem UsbConsole.At.drained {bytes : List UInt8} (h : u.At c bytes) {turns : Nat}
    (hle : c.HasLeft bytes ∨ c.stream.queue.length ≤ turns) :
    ∃ last, (machine.run (UsbConsole.step pcd) u (List.replicate turns .turn)).1.At last bytes ∧
      (last.HasLeft bytes ∨ last.stream.queue = []) := by
  induction turns generalizing u c with
  | zero =>
    exact ⟨c, h, hle.imp_right fun hle => List.length_eq_zero_iff.mp (Nat.le_zero.mp hle)⟩
  | succ turns ih =>
    obtain ⟨next, hnext, hhost, hqueue⟩ := h.turn pcd
    rw [List.replicate_succ, machine.run_cons]
    refine ih hnext ?_
    obtain hbefore | hlength := hle
    · exact .inl (hbefore.mono (hhost ▸ List.prefix_refl _))
    · refine hqueue.imp_right fun hqueue => ?_
      rw [hqueue, List.length_tail]
      omega

/-- Three polls hand over the rest of what the host has had acknowledged. -/
theorem UsbConsole.handed_drained {status : η → RxStatus} (hpcd : pcd.Documented status) {hal : η}
    (hhal : status hal = .DISABLED) (data acm_rx_buffer stream : Nat → UInt8)
    (line : Vector UInt8 TTY_BUF_SIZE) (task : Main) {inputs : List UsbConsoleStep}
    (hplain : ∀ step ∈ usb_inputs inputs, step.Plain) :
    let start := UsbConsole.start hal data acm_rx_buffer stream line task
    .closed ∉ start.seen pcd inputs →
      (machine.run (UsbConsole.step pcd) start inputs).1.slave.state = .CONFIGURED →
        (handed (start.seen pcd (inputs ++ List.replicate 3 (.usb .poll false)))).flatten =
          (acked (start.seen pcd inputs)).flatten := by
  intro start hopen hconfigured
  obtain ⟨hslave, hseen⟩ := start.run_slave pcd inputs
  obtain ⟨-, hpolls⟩ := start.run_slave pcd (inputs ++ List.replicate 3 (.usb .poll false))
  rw [hslave] at hconfigured
  rw [hseen] at hopen
  obtain ⟨hreach, -⟩ :=
    usb.acked_packets_reach_handler hpcd hhal data acm_rx_buffer hplain hopen hconfigured
  have hinputs : usb_inputs (inputs ++ List.replicate 3 (.usb .poll false)) =
      usb_inputs inputs ++ [.poll, .poll, .poll] := List.filterMap_append
  rw [hpolls, hinputs, machine.run_append, hseen, ← usb.flatten_nonempty (acked _)]
  exact congrArg List.flatten (List.filterMap_append.trans hreach)

end

/-- However packets, polls and turns of the line editor's loop have alternated: when the host
    is silent, what has been parsed is what the reference editor makes of the packets that found
    room in the stream, if none of these lines opens a session or resets the device. Every packet
    that the host has had acknowledged found room before they were 4096 bytes. -/
theorem host_lines_are_parsed {η : Type} {pcd : OutController η} {status : η → RxStatus}
    (hpcd : pcd.Documented status) {hal : η} (hhal : status hal = .DISABLED)
    (data acm_rx_buffer stream : Nat → UInt8) (line : Vector UInt8 TTY_BUF_SIZE) (task : Main)
    {inputs : List UsbConsoleStep} (hplain : ∀ step ∈ usb_inputs inputs, step.Plain) :
    let start := UsbConsole.start hal data acm_rx_buffer stream line task
    let sent := (acked (start.seen pcd inputs)).flatten
    .closed ∉ start.seen pcd inputs →
      (machine.run (UsbConsole.step pcd) start inputs).1.slave.state = .CONFIGURED →
        ∃ c, (machine.run (UsbConsole.step pcd) start (inputs ++ draining)).1.console = some c ∧
          ((∀ line ∈ delivered c.host.accepted, StaysInCommand line) →
            c.host.bytes = sent ∧ c.parsed = (delivered c.host.accepted).map cmd._skip_spaces) ∧
          (sent.length < USB_TTY_BUFFER_SIZE → (∀ line ∈ delivered sent, StaysInCommand line) →
            c.parsed = (delivered sent).map cmd._skip_spaces) := by
  intro start sent hopen hconfigured
  have hhanded := UsbConsole.handed_drained hpcd hhal data acm_rx_buffer stream line task hplain hopen
    hconfigured
  have hstart : start.At (.start stream line) [] :=
    ⟨rfl, (Console.start_lined stream line).toSound, fun _ mark hmark => absurd hmark List.not_mem_nil,
      .inr ⟨rfl, rfl⟩⟩
  obtain ⟨polled, hpolled⟩ := hstart.run pcd (inputs ++ List.replicate 3 (.usb .poll false))
  rw [List.nil_append, hhanded] at hpolled
  have hroom : polled.stream.queue.length ≤ USB_TTY_BUFFER_SIZE := by
    rw [polled.stream.length_queue]
    exact Nat.le_of_lt (circular.distance_lt hpolled.sound.valid.wr_lt)
  obtain ⟨c, hc, hempty⟩ := hpolled.drained pcd (.inr hroom)
  have hparsed : ¬ c.HasLeft sent →
      c.host.bytes = sent ∧ c.parsed = (delivered c.host.accepted).map cmd._skip_spaces := by
    intro hstays
    have hfed := hc.sound.queue
    rw [hempty.resolve_left hstays, List.append_nil] at hfed
    refine ⟨(hc.command.resolve_left hstays).2, ?_⟩
    rw [Console.parsed, hc.sound.agrees.lines_eq, hfed]
  refine ⟨c, ?_, fun hlines => hparsed fun hleft => ?_, fun hshort hlines => ?_⟩
  · rw [draining, ← List.append_assoc, machine.run_append]
    exact hc.console
  · obtain ⟨line, hline, hleaves⟩ := hleft.mem_delivered
    exact hleaves (hlines line hline)
  · obtain ⟨hbytes, hlast⟩ := hparsed fun hleft => by
      obtain ⟨line, hline, hleaves⟩ := hleft.mem_delivered_of_length hshort
      exact hleaves (hlines line hline)
    have hlength : c.host.length = sent.length := by
      rw [← hbytes, Sent.bytes, List.length_map]
    have hall : c.host.accepted = c.host.bytes := by
      rw [Sent.accepted, List.filter_eq_self.mpr (hc.kept (hlength ▸ hshort))]
    rw [hlast, hall, hbytes]

/-- One line in two packets, the second of which has not been handed over yet. -/
theorem host_lines_are_parsed_two_packets :
    let start := UsbConsole.start .DISABLED (fun _ => 0) (fun _ => 0) (fun _ => 0) (.replicate _ 0)
      (.power_on 0 (0, 0, 0) false false)
    let inputs : List UsbConsoleStep := [.usb (.set_configuration 1) false, .usb .poll false,
      .usb (.packet (ascii "CS")) false, .usb .poll false, .turn, .usb .poll false,
      .usb (.packet (ascii "=1\r")) false]
    ∃ c, (machine.run (UsbConsole.step .simple) start (inputs ++ draining)).1.console = some c ∧
      c.parsed = [ascii "CS=1"] := by
  intro start inputs
  obtain ⟨c, hc, -, hparsed⟩ := host_lines_are_parsed OutController.simple_documented rfl (fun _ => 0)
    (fun _ => 0) (fun _ => 0) (.replicate _ 0) (.power_on 0 (0, 0, 0) false false)
    (show ∀ step ∈ usb_inputs inputs, step.Plain by decide) (by decide) rfl
  have hsent : (acked (start.seen .simple inputs)).flatten = ascii "CS=1\r" := by decide
  have hlines : delivered (ascii "CS=1\r") = [ascii "CS=1"] := by decide
  have hstays : StaysInCommand (ascii "CS=1") := staysInCommand_of_word (by decide) (by decide)
  change _ → (∀ line ∈ delivered (acked (start.seen .simple inputs)).flatten, _) → _ at hparsed
  rw [hsent, hlines] at hparsed
  exact ⟨c, hc, (hparsed (by decide) (by simpa using hstays)).trans (by decide)⟩

end keychain.main
