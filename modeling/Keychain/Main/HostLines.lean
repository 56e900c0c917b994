import Keychain.Cmd.Table
import Keychain.Tty.Editor
import Keychain.Tty.Fifo

namespace keychain.main

open tty

/-- The bytes that the host sent, each with whether its packet was accepted. -/
abbrev Sent := List (UInt8 × Bool)

def Sent.bytes (host : Sent) : List UInt8 :=
  host.map (·.1)

def Sent.accepted (host : Sent) : List UInt8 :=
  Sent.bytes (host.filter (·.2))

/-- The last byte that was sent is lost. -/
def Sent.Lost (host : Sent) : Prop :=
  ∃ byte, host.getLast? = some (byte, false)

/-- The command stream of the device with the line buffer that it feeds, and
    what the host sent. -/
structure Console where
  stream : UsbStream
  usb_rx : Channel
  host : Sent

/-- In command mode a packet arrives, or the loop of `tty_rx_task` makes a turn. -/
inductive ConsoleStep where
  | packet (buf : List UInt8)
  | turn

def Console.packet (c : Console) (buf : List UInt8) : Console :=
  let rx := usb_rx_command c.stream buf
  { c with stream := rx.1, host := c.host ++ buf.map fun byte => (byte, rx.2) }

/-- One turn of `while ((ch = _usb_getchar()) >= 0) _rx_feed(&usb_rx_buf, ch)`.
    There is no result if the character leaves the line buffer. -/
def Console.turn (c : Console) : Option Console := do
  let (ch, stream) := _usb_getchar c.stream
  if ch ≥ 0 then
    let (usb_rx, _) ← c.usb_rx.feed ch.toNat.toUInt8
    some { c with stream, usb_rx }
  else
    some { c with stream }

/-- A step of a console that has not left its arrays. -/
def Console.step (state : Option Console) (step : ConsoleStep) : Option Console × Unit :=
  match step with
  | .packet buf => (state.map (·.packet buf), ())
  | .turn => (state.bind Console.turn, ())

def Console.start (buffer : Nat → UInt8) (data : Vector UInt8 TTY_BUF_SIZE) : Console :=
  ⟨.start buffer, ⟨⟨data, 0⟩, [], []⟩, []⟩

/-- What `_tty_rx_parser` passed to `cmd_parse`. -/
def Console.parsed (c : Console) : List (List UInt8) :=
  c.usb_rx.lines.map cmd._skip_spaces

def IsTerminator (ch : UInt8) : Prop :=
  ch = '\r'.toUInt8 ∨ ch = '\n'.toUInt8 ∨ ch = 0

/-- The stream has not begun, or a line has just ended. -/
def EndsLine (bytes : List UInt8) : Prop :=
  ∀ last, bytes.getLast? = some last → IsTerminator last

/-- A line that the host sent: the edited content of one stretch of its stream
    between two terminators, with no byte of it lost. -/
def HostLine (host : Sent) (line : List UInt8) : Prop :=
  ∃ before stretch last after, host = before ++ stretch ++ (last, true) :: after ∧
    EndsLine before.bytes ∧ (∀ mark ∈ stretch, mark.2 = true ∧ ¬ IsTerminator mark.1) ∧
    IsTerminator last ∧ line = kept_after (Sent.bytes stretch)

/-- What the device holds of the current line is what the host sent of it. -/
def InStep (host : Sent) : Prop :=
  ∃ before stretch, host = before ++ stretch ∧ EndsLine before.bytes ∧
    (∀ mark ∈ stretch, mark.2 = true ∧ ¬ IsTerminator mark.1) ∧
    kept_after host.accepted = kept_after (Sent.bytes stretch)

theorem kept_after_of_endsLine {bytes : List UInt8} (h : EndsLine bytes) : kept_after bytes = [] := by
  obtain rfl | ⟨front, last, rfl⟩ := List.eq_nil_or_concat' bytes
  · rfl
  · rw [kept_after_append, edit_terminator (h last (by simp))]

@[simp] theorem Sent.bytes_append (first second : Sent) :
    Sent.bytes (first ++ second) = first.bytes ++ second.bytes :=
  List.map_append

@[simp] theorem Sent.accepted_append (first second : Sent) :
    Sent.accepted (first ++ second) = first.accepted ++ second.accepted := by
  simp [Sent.accepted]

theorem Sent.bytes_marked (buf : List UInt8) (flag : Bool) :
    Sent.bytes (buf.map fun byte => (byte, flag)) = buf := by
  simp [Sent.bytes, Function.comp_def]

theorem Sent.accepted_marked (buf : List UInt8) (flag : Bool) :
    Sent.accepted (buf.map fun byte => (byte, flag)) = if flag then buf else [] := by
  cases flag <;> simp [Sent.accepted, Sent.bytes, List.filter_map, Function.comp_def]

theorem HostLine.append {host : Sent} {line : List UInt8} (h : HostLine host line) (more : Sent) :
    HostLine (host ++ more) line := by
  obtain ⟨before, stretch, last, after, rfl, hrest⟩ := h
  exact ⟨before, stretch, last, after ++ more, by simp, hrest⟩

/-- A device that has lost nothing of the current line keeps in step with the
    host, and the line that a byte completes is one that the host sent. -/
theorem InStep.accept {host : Sent} (h : InStep host) (ch : UInt8) :
    InStep (host ++ [(ch, true)]) ∧
      ∀ line ∈ (edit (kept_after host.accepted) ch).2, HostLine (host ++ [(ch, true)]) line := by
  obtain ⟨before, stretch, hhost, hends, hstretch, hkept⟩ := h
  have hone : Sent.accepted [(ch, true)] = [ch] := rfl
  by_cases hch : IsTerminator ch
  · constructor
    · refine ⟨host ++ [(ch, true)], [], by simp, ?_, by simp, ?_⟩
      · intro last hlast
        have : last = ch := by simpa [Sent.bytes] using hlast.symm
        rw [this]
        exact hch
      · rw [Sent.accepted_append, hone, kept_after_append, edit_terminator hch]
        rfl
    · intro line hline
      refine ⟨before, stretch, ch, [], by rw [hhost], hends, hstretch, hch, ?_⟩
      rw [edit_terminator hch, hkept] at hline
      split_ifs at hline with hempty
      · simp at hline
      · exact List.mem_singleton.mp hline
  · constructor
    · refine ⟨before, stretch ++ [(ch, true)], by simp [hhost], hends, ?_, ?_⟩
      · intro mark hmark
        obtain hold | hnew := List.mem_append.mp hmark
        · exact hstretch mark hold
        · rw [List.mem_singleton] at hnew
          rw [hnew]
          exact ⟨rfl, hch⟩
      · rw [Sent.accepted_append, hone, Sent.bytes_append, kept_after_append, hkept]
        exact (kept_after_append _ ch).symm
    · rw [edit_other hch]
      simp

/-- The lines that the device makes of what it accepted are lines of the host. -/
def AllHostLines (host : Sent) : Prop :=
  ∀ line ∈ delivered host.accepted, HostLine host line

theorem InStep.receive {host : Sent} (h : InStep host) (hlines : AllHostLines host)
    (buf : List UInt8) :
    InStep (host ++ buf.map fun byte => (byte, true)) ∧
      AllHostLines (host ++ buf.map fun byte => (byte, true)) := by
  induction buf generalizing host with
  | nil => simpa using ⟨h, hlines⟩
  | cons ch buf ih =>
    obtain ⟨hnext, hnew⟩ := h.accept ch
    have hall : AllHostLines (host ++ [(ch, true)]) := by
      intro line hline
      have hone : Sent.accepted [(ch, true)] = [ch] := rfl
      rw [Sent.accepted_append, hone, delivered_append] at hline
      obtain hold | hlast := List.mem_append.mp hline
      · exact (hlines line hold).append _
      · exact hnew line hlast
    simpa using ih hnext hall

/-- What holds of the console in any run: nothing that was accepted is lost or
    repeated on its way to the line buffer. -/
structure Console.Sound (c : Console) : Prop where
  valid : c.stream.Valid
  agrees : c.usb_rx.Agrees
  queue : c.usb_rx.fed ++ c.stream.queue = c.host.accepted

/-- The lines are those of the host, and so is the current one unless the last
    byte of the host was lost. -/
structure Console.Lined (c : Console) : Prop extends c.Sound where
  lines : AllHostLines c.host
  in_step : ¬ c.host.Lost → InStep c.host

/-- A packet that is accepted after a loss begins a line, for the host as well
    as for the device. -/
def Console.Allows (c : Console) : ConsoleStep → Prop
  | .packet buf => buf ≠ [] → c.stream.Fits buf → c.host.Lost →
    EndsLine c.host.accepted ∧ EndsLine c.host.bytes
  | .turn => True

theorem Console.Sound.packet {c : Console} (h : c.Sound) (buf : List UInt8) :
    (c.packet buf).Sound ∧
      (c.packet buf).host = c.host ++ buf.map fun byte => (byte, decide (c.stream.Fits buf)) := by
  obtain ⟨hvalid, haccepted, hqueue⟩ := usb_rx_command_spec h.valid buf
  have hflag : (usb_rx_command c.stream buf).2 = decide (c.stream.Fits buf) := by
    rw [Bool.eq_iff_iff, haccepted, decide_eq_true_iff]
  refine ⟨⟨hvalid, h.agrees, ?_⟩, ?_⟩
  · have hcontent := h.queue
    simp only [Console.packet, hqueue, hflag, Sent.accepted_append, Sent.accepted_marked]
    by_cases hfits : c.stream.Fits buf
    · simp [hfits, ← hcontent]
    · simp [hfits, ← hcontent]
  · simp only [Console.packet, hflag]

theorem Console.Sound.turn {c : Console} (h : c.Sound) :
    ∃ next, c.turn = some next ∧ next.Sound ∧ next.host = c.host ∧
      next.stream.queue = c.stream.queue.tail := by
  obtain ⟨hvalid, hmatch⟩ := _usb_getchar_spec h.valid
  cases hqueue : c.stream.queue with
  | nil =>
    rw [hqueue] at hmatch
    refine ⟨c, ?_, h, rfl, hqueue⟩
    simp [Console.turn, hmatch]
  | cons byte rest =>
    rw [hqueue] at hmatch
    obtain ⟨hch, hrest⟩ := hmatch
    obtain ⟨usb_rx, lines, hfeed, hagrees⟩ := h.agrees.feed byte
    have hbyte : ((byte.toNat : Int)).toNat.toUInt8 = byte := by simp
    refine ⟨{ c with stream := (_usb_getchar c.stream).2, usb_rx }, ?_, ⟨hvalid, hagrees, ?_⟩, rfl,
      hrest⟩
    · rw [← hbyte, ← hch] at hfeed
      have hpos : (_usb_getchar c.stream).1 ≥ 0 := by
        rw [hch]
        exact Int.natCast_nonneg _
      simp [Console.turn, hpos, hfeed]
    · have hfed : usb_rx.fed = c.usb_rx.fed ++ [byte] := Channel.fed_of_feed hfeed
      have hcontent := h.queue
      rw [hqueue] at hcontent
      rw [← hcontent]
      simp [hfed, hrest]

theorem Console.start_lined (buffer : Nat → UInt8) (data : Vector UInt8 TTY_BUF_SIZE) :
    (Console.start buffer data).Lined := by
  refine ⟨⟨UsbStream.start_valid buffer, Channel.agrees_start data, UsbStream.queue_start buffer⟩, ?_,
    fun _ => ?_⟩
  · intro line hline
    simp [Console.start, Sent.accepted, Sent.bytes, delivered] at hline
  · exact ⟨[], [], rfl, by simp [EndsLine, Sent.bytes], by simp, rfl⟩

theorem Sent.lost_append_marked (host : Sent) {buf : List UInt8} (hbuf : buf ≠ []) (flag : Bool) :
    Sent.Lost (host ++ buf.map fun byte => (byte, flag)) ↔ flag = false := by
  obtain rfl | ⟨front, last, rfl⟩ := List.eq_nil_or_concat' buf
  · exact absurd rfl hbuf
  · simp [Sent.Lost]

theorem Console.Lined.packet {c : Console} (h : c.Lined) {buf : List UInt8}
    (hallowed : c.Allows (.packet buf)) : (c.packet buf).Lined := by
  obtain ⟨hsound, hhost⟩ := h.toSound.packet buf
  by_cases hbuf : buf = []
  · have hsame : (c.packet buf).host = c.host := by
      rw [hhost, hbuf, List.map_nil, List.append_nil]
    exact ⟨hsound, hsame ▸ h.lines, hsame ▸ h.in_step⟩
  · by_cases hfits : c.stream.Fits buf
    · have hin : InStep c.host := by
        by_cases hlost : c.host.Lost
        · -- Both ends of the stream stand between two lines.
          obtain ⟨hdevice, hends⟩ := hallowed hbuf hfits hlost
          exact ⟨c.host, [], by simp, hends, by simp, kept_after_of_endsLine hdevice⟩
        · exact h.in_step hlost
      obtain ⟨hnext, hlines⟩ := hin.receive h.lines buf
      rw [decide_eq_true hfits] at hhost
      exact ⟨hsound, hhost ▸ hlines, fun _ => hhost ▸ hnext⟩
    · rw [decide_eq_false hfits] at hhost
      refine ⟨hsound, ?_, fun hkept => ?_⟩
      · intro line hline
        rw [hhost, Sent.accepted_append, Sent.accepted_marked] at hline
        rw [hhost]
        exact (h.lines line (by simpa using hline)).append _
      · rw [hhost, Sent.lost_append_marked c.host hbuf] at hkept
        exact absurd rfl hkept

theorem Console.Lined.turn {c : Console} (h : c.Lined) :
    ∃ next, c.turn = some next ∧ next.Lined := by
  obtain ⟨next, hturn, hsound, hhost, -⟩ := h.toSound.turn
  exact ⟨next, hturn, hsound, hhost ▸ h.lines, hhost ▸ h.in_step⟩

theorem prefix_delivered_append (stream more : List UInt8) : delivered stream <+: delivered (stream ++ more) := by
  simp [delivered, machine.run_append]

theorem Console.Lined.host_lines {c : Console} (h : c.Lined) :
    ∀ line ∈ c.usb_rx.lines, HostLine c.host line := by
  intro line hline
  apply h.lines
  rw [h.agrees.lines_eq] at hline
  rw [← h.queue]
  exact (prefix_delivered_append _ _).subset hline

/-- In a run in which a packet that is accepted after a loss always begins a
    line, the text that is parsed is always a line that the host sent, from its
    first character that is no space. -/
theorem parsed_lines_are_host_lines (buffer : Nat → UInt8) (data : Vector UInt8 TTY_BUF_SIZE)
    (steps : List ConsoleStep) (state : Option Console)
    (hadmits : machine.Admits Console.step (fun state step => ∀ c ∈ state, c.Allows step)
      (some (.start buffer data)) steps)
    (hreached : machine.Reached Console.step (some (.start buffer data)) steps state) :
    ∃ c, state = some c ∧
      ∀ text ∈ c.parsed, ∃ line, HostLine c.host line ∧ text = cmd._skip_spaces line := by
  obtain ⟨c, hc, hlined⟩ := machine.reached_invariant Console.step
    (fun state => ∃ c, state = some c ∧ c.Lined) (fun state step => ∀ c ∈ state, c.Allows step)
    (by
      rintro state step ⟨c, rfl, hlined⟩ hallowed
      cases step with
      | packet buf => exact ⟨_, rfl, hlined.packet (hallowed c rfl)⟩
      | turn =>
        obtain ⟨next, hturn, hnext⟩ := hlined.turn
        exact ⟨next, hturn, hnext⟩)
    ⟨_, rfl, Console.start_lined buffer data⟩ hadmits hreached
  refine ⟨c, hc, ?_⟩
  intro text htext
  obtain ⟨line, hline, rfl⟩ := List.mem_map.mp htext
  exact ⟨line, hlined.host_lines line hline, rfl⟩

/-- A run without a loss in which one line is parsed. -/
theorem parsed_lines_are_host_lines_take_cs :
    ∃ c, (machine.run Console.step (some (.start (fun _ => 0) (.replicate _ 0)))
        [.packet (ascii "CS=1\r"), .turn, .turn, .turn, .turn, .turn]).1 = some c ∧
      ∀ text ∈ c.parsed, ∃ line, HostLine c.host line ∧ text = cmd._skip_spaces line := by
  refine parsed_lines_are_host_lines (fun _ => 0) (.replicate _ 0)
    [.packet (ascii "CS=1\r"), .turn, .turn, .turn, .turn, .turn] _ ?_ ⟨_, [], by simp, rfl⟩
  refine ⟨?_, fun _ _ => trivial, fun _ _ => trivial, fun _ _ => trivial, fun _ _ => trivial,
    fun _ _ => trivial, trivial⟩
  rintro c hc - - ⟨byte, hlost⟩
  cases hc
  simp [Console.start] at hlost

theorem run_none (steps : List ConsoleStep) : (machine.run Console.step none steps).1 = none := by
  induction steps with
  | nil => rfl
  | cons step steps ih => cases step <;> exact ih

/-- A turn that finds no character changes nothing. -/
theorem Console.run_idle {c : Console} (h : c.turn = some c) (turns : Nat) :
    (machine.run Console.step (some c) (List.replicate turns .turn)).1 = some c := by
  induction turns with
  | zero => rfl
  | succ turns ih =>
    rw [List.replicate_succ, machine.run_cons]
    simpa [Console.step, h] using ih

/-- The loop of `tty_rx_task` as it runs in command mode, where handling a line
    brings in no character, is a sequence of turns. -/
theorem rx_loop_eq_turns (turns : Nat) (c : Console) (uart : List UInt8) :
    (rx_loop usb_getchar (fun _ _ => []) turns ⟨c.stream, uart, [], []⟩ c.usb_rx).map
        (fun result => (result.1.stream, result.2)) =
      (machine.run Console.step (some c) (List.replicate turns .turn)).1.map
        (fun last => (last.stream, last.usb_rx)) := by
  induction turns generalizing c with
  | zero => rfl
  | succ turns ih =>
    have hget : usb_getchar ⟨c.stream, uart, [], []⟩ =
        ((_usb_getchar c.stream).1, ⟨(_usb_getchar c.stream).2, uart, [], []⟩) := rfl
    have hlines : ∀ (lines : List (List UInt8)) (inputs : Inputs),
        lines.foldl (Inputs.handle_line fun _ _ => []) inputs = inputs := by
      intro lines inputs
      induction lines with
      | nil => rfl
      | cons line lines ih => exact ih
    simp only [rx_loop, hget]
    by_cases hch : (_usb_getchar c.stream).1 ≥ 0
    · rw [if_pos hch, List.replicate_succ, machine.run_cons]
      cases hfeed : c.usb_rx.feed (_usb_getchar c.stream).1.toNat.toUInt8 with
      | none =>
        have hturn : c.turn = none := by simp [Console.turn, hch, hfeed]
        simp only [Console.step, Option.bind_some, hturn, run_none]
        simp
      | some fed =>
        have hturn : c.turn = some { c with stream := (_usb_getchar c.stream).2, usb_rx := fed.1 } := by
          simp [Console.turn, hch, hfeed]
        simp only [Console.step, Option.bind_some, hturn]
        rw [← ih]
        simp [hlines]
    · have hempty : c.stream.rd_ptr = c.stream.wr_ptr := by
        by_contra hne
        rw [_usb_getchar, if_neg hne] at hch
        exact hch (Int.natCast_nonneg _)
      have hidle : c.turn = some c := by
        simp [Console.turn, _usb_getchar, hempty]
      rw [if_neg hch, Console.run_idle hidle]
      simp [_usb_getchar, hempty]

/-- A line of the host is one that the reference editor makes of its stream. -/
theorem HostLine.mem_delivered {host : Sent} {line : List UInt8} (h : HostLine host line)
    (hline : line ≠ []) : line ∈ delivered host.bytes := by
  obtain ⟨before, stretch, last, after, rfl, hends, -, hlast, rfl⟩ := h
  have hkept : kept_after (before.bytes ++ Sent.bytes stretch) = kept_after (Sent.bytes stretch) := by
    have hstart := kept_after_of_endsLine hends
    simp only [kept_after] at hstart
    simp only [kept_after, machine.run_append, hstart]
  have hdelivered : kept_after (Sent.bytes stretch) ∈
      delivered (before.bytes ++ Sent.bytes stretch ++ [last]) := by
    rw [delivered_append, hkept, edit_terminator hlast, if_neg hline]
    simp
  have hbytes : Sent.bytes (before ++ stretch ++ (last, true) :: after) =
      before.bytes ++ Sent.bytes stretch ++ [last] ++ Sent.bytes after := by
    simp [Sent.bytes]
  rw [hbytes]
  exact (prefix_delivered_append _ _).subset hdelivered

theorem Console.Sound.run_packets {c : Console} (h : c.Sound) (bufs : List (List UInt8))
    (hroom : c.stream.queue.length + bufs.flatten.length ≤ USB_TTY_BUFFER_SIZE - 1) :
    ∃ last, (machine.run Console.step (some c) (bufs.map .packet)).1 = some last ∧ last.Sound ∧
      last.host = c.host ++ bufs.flatten.map (fun byte => (byte, true)) ∧ last.usb_rx = c.usb_rx := by
  induction bufs generalizing c with
  | nil => exact ⟨c, rfl, h, by simp, rfl⟩
  | cons buf bufs ih =>
    obtain ⟨hsound, hhost⟩ := h.packet buf
    have hfits : c.stream.Fits buf := by
      simp only [List.flatten_cons, List.length_append] at hroom
      unfold UsbStream.Fits
      omega
    have hqueue : (c.packet buf).stream.queue = c.stream.queue ++ buf := by
      obtain ⟨-, -, hqueue⟩ := usb_rx_command_spec h.valid buf
      rw [if_pos hfits] at hqueue
      exact hqueue
    obtain ⟨last, hrun, hlast, hsent, hrx⟩ := ih hsound (by
      rw [hqueue]
      simpa [Nat.add_assoc] using hroom)
    refine ⟨last, hrun, hlast, ?_, hrx⟩
    rw [hsent, hhost, decide_eq_true hfits]
    simp

theorem Console.Sound.run_turns {c : Console} (h : c.Sound) :
    ∃ last, (machine.run Console.step (some c)
        (List.replicate c.stream.queue.length .turn)).1 = some last ∧
      last.Sound ∧ last.host = c.host ∧ last.stream.queue = [] := by
  generalize hcount : c.stream.queue.length = count
  induction count generalizing c with
  | zero => exact ⟨c, rfl, h, rfl, List.length_eq_zero_iff.mp hcount⟩
  | succ count ih =>
    obtain ⟨next, hturn, hsound, hhost, hqueue⟩ := h.turn
    obtain ⟨last, hrun, hlast, hsent, hempty⟩ := ih hsound (by
      rw [hqueue, List.length_tail]
      omega)
    refine ⟨last, ?_, hlast, hsent.trans hhost, hempty⟩
    rw [List.replicate_succ, machine.run_cons]
    simpa [Console.step, hturn] using hrun

theorem delivered_append_of_kept {first : List UInt8} (h : kept_after first = [])
    (second : List UInt8) : delivered (first ++ second) = delivered first ++ delivered second := by
  simp only [kept_after] at h
  simp [delivered, machine.run_append, h]

theorem delivered_newlines (count : Nat) (rest : List UInt8) :
    delivered (List.replicate count '\n'.toUInt8 ++ rest) = delivered rest := by
  induction count with
  | zero => rfl
  | succ count ih =>
    have hone : kept_after ['\n'.toUInt8] = [] := rfl
    rw [List.replicate_succ, ← List.singleton_append, List.append_assoc,
      delivered_append_of_kept hone, ih]
    rfl

/-- Packets of at most 64 bytes that fill the stream up to its last cell. -/
def filling : List (List UInt8) :=
  List.replicate 63 (List.replicate 64 '\n'.toUInt8) ++
    [List.replicate 60 '\n'.toUInt8 ++ ascii "CS="]

/-- The end of a line and the start of the next one find no room, the end of the
    latter does. -/
def splicing : List ConsoleStep :=
  filling.map .packet ++ .packet (ascii "0\rPWR=") :: List.replicate 4095 .turn ++
    .packet (ascii "1\r") :: List.replicate 2 .turn

theorem filling_flatten :
    filling.flatten = List.replicate 4092 '\n'.toUInt8 ++ ascii "CS=" := by
  have hsum : (4092 : Nat) = 63 * 64 + 60 := rfl
  rw [filling, List.flatten_append, List.flatten_replicate_replicate, List.flatten_singleton,
    ← List.append_assoc, ← List.replicate_add, hsum]

/-- The host sends `CS=0` and `PWR=1`, and the device parses `CS=1`. -/
theorem spliced_line_is_parsed :
    ∃ c, (machine.run Console.step (some (.start (fun _ => 0) (.replicate _ 0))) splicing).1 = some c ∧
      delivered c.host.bytes = [ascii "CS=0", ascii "PWR=1"] ∧ ascii "CS=1" ∈ c.parsed ∧
      ¬ ∀ text ∈ c.parsed, ∃ line, HostLine c.host line ∧ text = cmd._skip_spaces line := by
  have hstart := (Console.start_lined (fun _ => 0) (.replicate _ 0)).toSound
  have hlength : filling.flatten.length = 4095 := by
    rw [filling_flatten, List.length_append, List.length_replicate]
    rfl
  obtain ⟨c₁, hrun₁, h₁, hhost₁, hrx₁⟩ := hstart.run_packets filling (by
    have hqueue := UsbStream.queue_start (fun _ => 0)
    simp only [Console.start, hqueue, hlength]
    decide)
  have hqueue₁ : c₁.stream.queue = filling.flatten := by
    have hcontent := h₁.queue
    have hfed : (Console.start (fun _ => 0) (.replicate _ 0)).usb_rx.fed = [] := rfl
    have hnone : (Console.start (fun _ => 0) (.replicate _ 0)).host.accepted = [] := rfl
    rw [hrx₁, hhost₁, hfed, Sent.accepted_append, hnone, Sent.accepted_marked, if_pos rfl,
      List.nil_append, List.nil_append] at hcontent
    exact hcontent
  -- The packet that follows is dropped, and the stream is then read to its end.
  obtain ⟨h₂, hhost₂⟩ := h₁.packet (ascii "0\rPWR=")
  have hfull : ¬ c₁.stream.Fits (ascii "0\rPWR=") := by
    rw [UsbStream.Fits, hqueue₁, hlength]
    decide
  have hqueue₂ : (c₁.packet (ascii "0\rPWR=")).stream.queue = c₁.stream.queue := by
    obtain ⟨-, -, hqueue⟩ := usb_rx_command_spec h₁.valid (ascii "0\rPWR=")
    rw [if_neg hfull] at hqueue
    exact hqueue
  obtain ⟨c₃, hrun₃, h₃, hhost₃, hqueue₃⟩ := h₂.run_turns
  rw [hqueue₂, hqueue₁, hlength] at hrun₃
  -- The last packet finds room, and two turns end the line.
  obtain ⟨h₄, hhost₄⟩ := h₃.packet (ascii "1\r")
  have hroom : c₃.stream.Fits (ascii "1\r") := by
    rw [UsbStream.Fits, hqueue₃]
    decide
  have hqueue₄ : (c₃.packet (ascii "1\r")).stream.queue.length = 2 := by
    obtain ⟨-, -, hqueue⟩ := usb_rx_command_spec h₃.valid (ascii "1\r")
    rw [if_pos hroom, hqueue₃] at hqueue
    exact congrArg List.length hqueue
  obtain ⟨c₅, hrun₅, h₅, hhost₅, hqueue₅⟩ := h₄.run_turns
  rw [hqueue₄] at hrun₅
  have hhost : c₅.host = filling.flatten.map (fun byte => (byte, true)) ++
      (ascii "0\rPWR=").map (fun byte => (byte, false)) ++
      (ascii "1\r").map (fun byte => (byte, true)) := by
    rw [hhost₅, hhost₄, hhost₃, hhost₂, hhost₁, decide_eq_true hroom, decide_eq_false hfull]
    rfl
  have hbytes : delivered c₅.host.bytes = [ascii "CS=0", ascii "PWR=1"] := by
    have hsent : c₅.host.bytes = List.replicate 4092 '\n'.toUInt8 ++ ascii "CS=0\rPWR=1\r" := by
      simp only [hhost, Sent.bytes_append, Sent.bytes_marked, filling_flatten, List.append_assoc]
      exact congrArg _ (by decide)
    rw [hsent, delivered_newlines]
    decide
  have hparsed : c₅.parsed = [ascii "CS=1"] := by
    have hfed : c₅.usb_rx.fed = List.replicate 4092 '\n'.toUInt8 ++ ascii "CS=1\r" := by
      have hcontent := h₅.queue
      simp only [hqueue₅, hhost, Sent.accepted_append, Sent.accepted_marked, filling_flatten,
        List.append_nil, if_true, Bool.false_eq_true, if_false, List.append_assoc] at hcontent
      rw [hcontent]
      exact congrArg _ (by decide)
    rw [Console.parsed, h₅.agrees.lines_eq, hfed, delivered_newlines]
    decide
  refine ⟨c₅, ?_, hbytes, by simp [hparsed], fun hall => ?_⟩
  · simp only [splicing, machine.run_append, machine.run_cons, hrun₁, Console.step, Option.map_some,
      hrun₃, hrun₅]
  · obtain ⟨line, hline, htext⟩ := hall (ascii "CS=1") (by simp [hparsed])
    have hne : line ≠ [] := by
      rintro rfl
      exact absurd htext (by decide)
    have hmem := hline.mem_delivered hne
    rw [hbytes, List.mem_pair] at hmem
    obtain rfl | rfl := hmem
    · exact absurd htext (by decide)
    · exact absurd htext (by decide)

end keychain.main
