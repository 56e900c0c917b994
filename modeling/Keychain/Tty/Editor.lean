import Keychain.Library.Machine
import Keychain.Tty.Task

namespace keychain.tty

/-- The characters the reference editor keeps after a stream. -/
def kept_after (stream : List UInt8) : List UInt8 :=
  (machine.run edit [] stream).1

/-- The strings the reference editor delivers for a stream, in order. -/
def delivered (stream : List UInt8) : List (List UInt8) :=
  (machine.run edit [] stream).2.flatten

theorem kept_after_append (stream : List UInt8) (ch : UInt8) :
    kept_after (stream ++ [ch]) = (edit (kept_after stream) ch).1 := by
  simp [kept_after, machine.run_append]

theorem delivered_append (stream : List UInt8) (ch : UInt8) :
    delivered (stream ++ [ch]) = delivered stream ++ (edit (kept_after stream) ch).2 := by
  simp [delivered, kept_after, machine.run_append]

theorem edit_terminator {ch : UInt8} (h : ch = '\r'.toUInt8 ∨ ch = '\n'.toUInt8 ∨ ch = 0)
    (kept : List UInt8) : edit kept ch = ([], if kept = [] then [] else [kept]) :=
  if_pos h

theorem edit_other {ch : UInt8} (h : ¬ (ch = '\r'.toUInt8 ∨ ch = '\n'.toUInt8 ∨ ch = 0))
    (kept : List UInt8) : (edit kept ch).2 = [] := by
  rw [show edit kept ch = _ from if_neg h]
  split_ifs <;> rfl

theorem edit_no_nul {kept : List UInt8} (hkept : 0 ∉ kept) (ch : UInt8) :
    0 ∉ (edit kept ch).1 := by
  by_cases hend : ch = '\r'.toUInt8 ∨ ch = '\n'.toUInt8 ∨ ch = 0
  · rw [edit_terminator hend]
    exact List.not_mem_nil
  · have hch : (0 : UInt8) ≠ ch := fun hzero => hend (.inr (.inr hzero.symm))
    rw [edit, if_neg hend]
    split_ifs with hback hroom
    · exact fun hmem => hkept (List.dropLast_subset _ hmem)
    · simpa [hkept] using hch
    · exact hkept

/-- The strings that a character makes the editor put out are what it kept. -/
theorem mem_edit {kept line : List UInt8} {ch : UInt8} (h : line ∈ (edit kept ch).2) :
    line = kept ∧ line ≠ [] := by
  by_cases hend : ch = '\r'.toUInt8 ∨ ch = '\n'.toUInt8 ∨ ch = 0
  · rw [edit_terminator hend] at h
    by_cases hkept : kept = []
    · simp [hkept] at h
    · rw [if_neg hkept] at h
      obtain rfl := List.mem_singleton.mp h
      exact ⟨rfl, hkept⟩
  · rw [edit_other hend] at h
    exact absurd h List.not_mem_nil

theorem kept_after_no_nul (stream : List UInt8) : 0 ∉ kept_after stream := by
  induction stream using List.reverseRecOn with
  | nil => exact List.not_mem_nil
  | append_singleton stream ch ih =>
    rw [kept_after_append]
    exact edit_no_nul ih ch

/-- A delivered string has at least one character, and no NUL. -/
theorem mem_delivered {stream line : List UInt8} (h : line ∈ delivered stream) :
    line ≠ [] ∧ 0 ∉ line := by
  induction stream using List.reverseRecOn with
  | nil => exact absurd h List.not_mem_nil
  | append_singleton stream ch ih =>
    rw [delivered_append] at h
    obtain hold | hnew := List.mem_append.mp h
    · exact ih hold
    · obtain ⟨rfl, hnil⟩ := mem_edit hnew
      exact ⟨hnil, kept_after_no_nul stream⟩

/-- A channel agrees with the reference editor run over all it was fed. -/
structure Channel.Agrees (c : Channel) : Prop where
  holds : c.buf.Holds (kept_after c.fed)
  lines_eq : c.lines = delivered c.fed

theorem Channel.agrees_start (data : Vector UInt8 TTY_BUF_SIZE) :
    (⟨⟨data, 0⟩, [], []⟩ : Channel).Agrees :=
  ⟨tty_buf_t.holds_empty data, rfl⟩

theorem Channel.Agrees.feed {c : Channel} (h : c.Agrees) (ch : UInt8) :
    ∃ next lines, c.feed ch = some (next, lines) ∧ next.Agrees := by
  obtain ⟨buf, hfeed, hholds⟩ := _rx_feed_spec h.holds ch
  refine ⟨⟨buf, c.fed ++ [ch], c.lines ++ (edit (kept_after c.fed) ch).2⟩, _,
    by rw [Channel.feed, hfeed]; rfl, ?_, ?_⟩
  · rw [kept_after_append]
    exact hholds
  · rw [h.lines_eq, delivered_append]

theorem Channel.fed_of_feed {c next : Channel} {ch : UInt8} {lines : List (List UInt8)}
    (h : c.feed ch = some (next, lines)) : next.fed = c.fed ++ [ch] := by
  rw [Channel.feed, Option.bind_eq_bind, Option.bind_eq_some_iff] at h
  obtain ⟨⟨buf, completed⟩, -, hnext⟩ := h
  cases hnext
  rfl

/-- A source of characters: how one is fetched, what waits, and all that has been
    accepted so far. -/
structure Source where
  getchar : Inputs → Int × Inputs
  waiting : Inputs → List UInt8
  accepted : Inputs → List UInt8

def usb_source : Source :=
  ⟨usb_getchar, fun inputs => inputs.stream.queue, Inputs.usb_accepted⟩

def uart_source : Source :=
  ⟨uart_getchar, Inputs.uart, Inputs.uart_accepted⟩

/-- A source has accepted more bytes, and these wait behind the others. -/
def Source.Grows (s : Source) (before after : Inputs) : Prop :=
  ∃ more, s.waiting after = s.waiting before ++ more ∧ s.accepted after = s.accepted before ++ more

theorem Source.Grows.refl (s : Source) (inputs : Inputs) : s.Grows inputs inputs :=
  ⟨[], by simp, by simp⟩

theorem Source.Grows.trans {s : Source} {first second third : Inputs} (h : s.Grows first second)
    (hnext : s.Grows second third) : s.Grows first third := by
  obtain ⟨more, hwaiting, haccepted⟩ := h
  obtain ⟨later, hwaiting', haccepted'⟩ := hnext
  refine ⟨more ++ later, ?_, ?_⟩
  · rw [hwaiting', hwaiting, List.append_assoc]
  · rw [haccepted', haccepted, List.append_assoc]

/-- What arrives is put behind what waits at either source, if it is accepted. -/
structure Inputs.Grows (before after : Inputs) : Prop where
  valid : after.stream.Valid
  usb : usb_source.Grows before after
  uart : uart_source.Grows before after

theorem Inputs.arrive_grows {inputs : Inputs} (h : inputs.stream.Valid) (input : Arrival) :
    inputs.Grows (inputs.arrive input) := by
  cases input with
  | packet buf =>
    obtain ⟨hvalid, haccepted, hqueue⟩ := usb_rx_command_spec h buf
    refine ⟨hvalid, ⟨if (usb_rx_command inputs.stream buf).2 then buf else [], ?_, rfl⟩, .refl _ _⟩
    refine hqueue.trans ?_
    by_cases hfits : inputs.stream.Fits buf
    · rw [if_pos hfits, if_pos (haccepted.mpr hfits)]
      rfl
    · rw [if_neg hfits, if_neg fun hput => hfits (haccepted.mp hput)]
      exact (List.append_nil _).symm
  | uart bytes => exact ⟨h, .refl _ _, ⟨bytes, rfl, rfl⟩⟩

theorem Inputs.Grows.trans {first second third : Inputs} (h : first.Grows second)
    (hnext : second.Grows third) : first.Grows third :=
  ⟨hnext.valid, h.usb.trans hnext.usb, h.uart.trans hnext.uart⟩

theorem Inputs.foldl_grows {α : Type} (step : Inputs → α → Inputs)
    (hstep : ∀ (inputs : Inputs) a, inputs.stream.Valid → inputs.Grows (step inputs a)) (items : List α)
    {inputs : Inputs} (h : inputs.stream.Valid) : inputs.Grows (items.foldl step inputs) := by
  induction items generalizing inputs with
  | nil => exact ⟨h, .refl _ _, .refl _ _⟩
  | cons item items ih =>
    have hhere := hstep inputs item h
    exact hhere.trans (ih hhere.valid)

theorem Inputs.handle_lines_grows (callback : Inputs → List UInt8 → List Arrival)
    (lines : List (List UInt8)) {inputs : Inputs} (h : inputs.stream.Valid) :
    inputs.Grows (lines.foldl (Inputs.handle_line callback) inputs) :=
  foldl_grows _ (fun _ _ h => foldl_grows _ (fun _ input h => arrive_grows h input) _ h) lines h

/-- A character is fetched from the front of what waits at a source, and from it
    alone; there is none to fetch only where nothing waits. -/
structure Source.Fetches (s other : Source) : Prop where
  empty : ∀ inputs, inputs.stream.Valid → s.waiting inputs = [] → s.getchar inputs = (-1, inputs)
  fetch : ∀ inputs byte rest, inputs.stream.Valid → s.waiting inputs = byte :: rest →
    (s.getchar inputs).1 = byte.toNat ∧ s.waiting (s.getchar inputs).2 = rest ∧
      s.accepted (s.getchar inputs).2 = s.accepted inputs ∧
      (s.getchar inputs).2.stream.Valid ∧ other.Grows inputs (s.getchar inputs).2
  arrives : ∀ before after : Inputs, before.Grows after → s.Grows before after ∧ other.Grows before after

theorem usb_source_fetches : usb_source.Fetches uart_source where
  empty inputs h hempty := by
    have hspec := (_usb_getchar_spec h).2
    change inputs.stream.queue = [] at hempty
    rw [hempty] at hspec
    change usb_getchar inputs = _
    rw [usb_getchar, show _usb_getchar inputs.stream = (-1, inputs.stream) from hspec]
  fetch inputs byte rest h hwaiting := by
    obtain ⟨hvalid, hspec⟩ := _usb_getchar_spec h
    change inputs.stream.queue = byte :: rest at hwaiting
    rw [hwaiting] at hspec
    exact ⟨hspec.1, hspec.2, rfl, hvalid, .refl _ _⟩
  arrives _ _ h := ⟨h.usb, h.uart⟩

theorem uart_source_fetches : uart_source.Fetches usb_source where
  empty inputs _ hempty := by
    change inputs.uart = [] at hempty
    change uart_getchar inputs = _
    rw [uart_getchar, hempty]
  fetch inputs byte rest h hwaiting := by
    change inputs.uart = byte :: rest at hwaiting
    have hget : uart_source.getchar inputs = ((byte.toNat : Int), { inputs with uart := rest }) := by
      change uart_getchar inputs = _
      rw [uart_getchar, hwaiting]
    rw [hget]
    exact ⟨rfl, rfl, rfl, h, .refl _ _⟩
  arrives _ _ h := ⟨h.uart, h.usb⟩

/-- What a loop leaves: its channel agrees with the editor and has been fed, in
    order, bytes that waited at its source or were accepted meanwhile. Either the
    source ran out of them or the loop made all its turns. -/
structure Source.Drains (s other : Source) (turns : Nat) (inputs : Inputs) (c : Channel)
    (inputs' : Inputs) (c' : Channel) : Prop where
  agrees : c'.Agrees
  valid : inputs'.stream.Valid
  fed : ∃ fed more, c'.fed = c.fed ++ fed ∧ fed ++ s.waiting inputs' = s.waiting inputs ++ more ∧
    s.accepted inputs' = s.accepted inputs ++ more ∧
    (fed.length = turns ∨ s.waiting inputs' = [])
  other : other.Grows inputs inputs'

/-- However long a loop runs and whatever the lines it delivers set going, no
    store leaves the line buffer. -/
theorem Source.Fetches.rx_loop {s other : Source} (h : s.Fetches other)
    (callback : Inputs → List UInt8 → List Arrival) (turns : Nat) {inputs : Inputs} {c : Channel}
    (hvalid : inputs.stream.Valid) (hagrees : c.Agrees) :
    ∃ inputs' c', rx_loop s.getchar callback turns inputs c = some (inputs', c') ∧
      s.Drains other turns inputs c inputs' c' := by
  induction turns generalizing inputs c with
  | zero =>
    exact ⟨inputs, c, rfl, hagrees, hvalid, ⟨[], [], by simp, by simp, by simp, .inl rfl⟩, .refl _ _⟩
  | succ turns ih =>
    rw [tty.rx_loop]
    cases hwaiting : s.waiting inputs with
    | nil =>
      rw [h.empty inputs hvalid hwaiting, if_neg (show ¬ (-1 : Int) ≥ 0 by decide)]
      exact ⟨inputs, c, rfl, hagrees, hvalid,
        ⟨[], [], by simp, by simp [hwaiting], by simp, .inr hwaiting⟩, .refl _ _⟩
    | cons byte rest =>
      obtain ⟨hch, hrest, hsame, hvalid', hother⟩ := h.fetch inputs byte rest hvalid hwaiting
      have hbyte : (byte.toNat : Int).toNat.toUInt8 = byte := by simp
      obtain ⟨next, lines, hfeed, hnext⟩ := hagrees.feed byte
      have hlines := Inputs.handle_lines_grows callback lines hvalid'
      obtain ⟨⟨came, hwaiting', haccepted'⟩, hother'⟩ := h.arrives _ _ hlines
      obtain ⟨inputs', c', hloop, hdrains⟩ := ih hlines.valid hnext
      obtain ⟨fed, more, hfed, hall, haccepted, hend⟩ := hdrains.fed
      refine ⟨inputs', c', ?_, hdrains.agrees, hdrains.valid, ⟨byte :: fed, came ++ more, ?_, ?_, ?_, ?_⟩,
        (hother.trans hother').trans hdrains.other⟩
      · rw [hch, if_pos (Int.natCast_nonneg _), hbyte, hfeed]
        exact hloop
      · rw [hfed, Channel.fed_of_feed hfeed, List.append_assoc]
        rfl
      · rw [List.cons_append, hall, hwaiting', hrest, hwaiting, List.append_assoc]
        rfl
      · rw [haccepted, haccepted', hsame, List.append_assoc]
      · exact hend.imp_left (congrArg (· + 1))

/-- A loop with enough turns feeds what waited when it began. -/
theorem Source.Drains.covers {s other : Source} {turns : Nat} {inputs inputs' : Inputs}
    {c c' : Channel} (h : s.Drains other turns inputs c inputs' c') {early : List UInt8}
    (hearly : early <+: s.waiting inputs) (hturns : early.length ≤ turns) :
    c.fed ++ early <+: c'.fed := by
  obtain ⟨fed, more, hfed, hall, -, hend⟩ := h.fed
  have hbefore : early <+: fed ++ s.waiting inputs' := by
    rw [hall]
    exact hearly.trans (List.prefix_append _ _)
  rw [hfed]
  apply (List.prefix_append_right_inj _).mpr
  obtain hlength | hempty := hend
  · exact List.prefix_of_prefix_length_le hbefore (List.prefix_append _ _) (by omega)
  · rwa [hempty, List.append_nil] at hbefore

/-- What has been fed from a source and what still waits there is what waited at
    the start, followed by all that it has accepted since. -/
def Source.Accounts (s : Source) (start : List UInt8) (inputs : Inputs) (c : Channel) : Prop :=
  c.fed ++ s.waiting inputs = start ++ s.accepted inputs

theorem Source.Accounts.grows {s : Source} {start : List UInt8} {inputs inputs' : Inputs} {c : Channel}
    (h : s.Accounts start inputs c) (hgrows : s.Grows inputs inputs') : s.Accounts start inputs' c := by
  obtain ⟨more, hwaiting, haccepted⟩ := hgrows
  rw [Source.Accounts, hwaiting, haccepted, ← List.append_assoc, h, List.append_assoc]

theorem Source.Accounts.drains {s other : Source} {start : List UInt8} {turns : Nat}
    {inputs inputs' : Inputs} {c c' : Channel} (h : s.Accounts start inputs c)
    (hdrains : s.Drains other turns inputs c inputs' c') : s.Accounts start inputs' c' := by
  obtain ⟨fed, more, hfed, hall, haccepted, -⟩ := hdrains.fed
  rw [Source.Accounts, hfed, haccepted, List.append_assoc, hall, ← List.append_assoc, h,
    List.append_assoc]

/-- Both channels of the device agree with the editor, on bytes that are accounted for. -/
structure Tty.Keeps (usb uart : List UInt8) (t : Tty) : Prop where
  usb_rx : t.usb_rx.Agrees
  uart_rx : t.uart_rx.Agrees
  valid : t.inputs.stream.Valid
  usb : usb_source.Accounts usb t.inputs t.usb_rx
  uart : uart_source.Accounts uart t.inputs t.uart_rx

theorem Tty.Keeps.task {usb uart : List UInt8} {t : Tty} (h : t.Keeps usb uart)
    (callback : Inputs → List UInt8 → List Arrival) (turns uart_turns : Nat) :
    ∃ next, tty_rx_task callback turns uart_turns t = some next ∧ next.Keeps usb uart ∧
      (t.inputs.stream.queue.length ≤ turns → usb ++ t.inputs.usb_accepted <+: next.usb_rx.fed) ∧
      (t.inputs.uart.length ≤ uart_turns → uart ++ t.inputs.uart_accepted <+: next.uart_rx.fed) := by
  obtain ⟨inputs, usb_rx, husb, hdrains⟩ :=
    usb_source_fetches.rx_loop callback turns h.valid h.usb_rx
  obtain ⟨inputs', uart_rx, huart, hdrains'⟩ :=
    uart_source_fetches.rx_loop callback uart_turns hdrains.valid h.uart_rx
  have hgrown : t.inputs.uart <+: inputs.uart := by
    obtain ⟨more, hwaiting, -⟩ := hdrains.other
    exact ⟨more, hwaiting.symm⟩
  refine ⟨⟨inputs', usb_rx, uart_rx⟩, ?_, ⟨hdrains.agrees, hdrains'.agrees, hdrains'.valid,
    (h.usb.drains hdrains).grows hdrains'.other, (h.uart.grows hdrains.other).drains hdrains'⟩, ?_, ?_⟩
  · have husb' : tty.rx_loop usb_getchar callback turns t.inputs t.usb_rx = some (inputs, usb_rx) := husb
    have huart' : tty.rx_loop uart_getchar callback uart_turns inputs t.uart_rx =
        some (inputs', uart_rx) := huart
    simp [tty_rx_task, husb', huart']
  · intro hturns
    rw [← show _ = usb ++ t.inputs.usb_accepted from h.usb]
    exact hdrains.covers (List.prefix_refl _) hturns
  · intro hturns
    rw [← show _ = uart ++ t.inputs.uart_accepted from h.uart]
    exact hdrains'.covers hgrown hturns

theorem RxStep.run_keeps (callback : Inputs → List UInt8 → List Arrival) (step : RxStep)
    {usb uart : List UInt8} {t : Tty} (h : t.Keeps usb uart) :
    ∃ next, step.run callback t = some next ∧ next.Keeps usb uart := by
  cases step with
  | arrival input =>
    have hgrows := Inputs.arrive_grows h.valid input
    exact ⟨_, rfl, h.usb_rx, h.uart_rx, hgrows.valid, h.usb.grows hgrows.usb, h.uart.grows hgrows.uart⟩
  | task turns uart_turns =>
    obtain ⟨next, htask, hnext, -⟩ := h.task callback turns uart_turns
    exact ⟨next, htask, hnext⟩

theorem run_keeps (callback : Inputs → List UInt8 → List Arrival) (steps : List RxStep)
    {usb uart : List UInt8} {t : Tty} (h : t.Keeps usb uart) :
    ∃ last, steps.foldlM (RxStep.run callback) t = some last ∧ last.Keeps usb uart := by
  induction steps generalizing t with
  | nil => exact ⟨t, rfl, h⟩
  | cons step rest ih =>
    obtain ⟨next, hstep, hnext⟩ := step.run_keeps callback h
    rw [List.foldlM_cons, hstep]
    exact ih hnext

/-- In every state that the device reaches from empty line buffers, no store has
    left the buffers, the strings passed to the callback are those the reference
    editor delivers for the characters fed, and `len` is the number of the
    characters it keeps. A string is delivered only where a NUL ends it inside
    the buffer, so it has as many characters as were kept. The characters fed and
    those that still wait are, in order, the bytes of the packets that the stream
    has accepted and those of the UART; and the next `tty_rx_task` feeds all of
    these, if only its loops make turns enough. -/
theorem tty_rx_task_refines_editor (callback : Inputs → List UInt8 → List Arrival)
    {stream : UsbStream} (hvalid : stream.Valid) (uart : List UInt8)
    (usb_data uart_data : Vector UInt8 TTY_BUF_SIZE) (steps : List RxStep) :
    ∃ t, steps.foldlM (RxStep.run callback) (Tty.start stream uart usb_data uart_data) = some t ∧
      (∀ c ∈ [t.usb_rx, t.uart_rx], c.lines = delivered c.fed ∧
        c.buf.len = (kept_after c.fed).length ∧ c.buf.len ≤ 1023) ∧
      t.usb_rx.fed ++ t.inputs.stream.queue = stream.queue ++ t.inputs.usb_accepted ∧
      t.uart_rx.fed ++ t.inputs.uart = uart ++ t.inputs.uart_accepted ∧
      ∀ turns ≥ t.inputs.stream.queue.length, ∀ uart_turns ≥ t.inputs.uart.length,
        ∃ next, tty_rx_task callback turns uart_turns t = some next ∧
          stream.queue ++ t.inputs.usb_accepted <+: next.usb_rx.fed ∧
          uart ++ t.inputs.uart_accepted <+: next.uart_rx.fed := by
  have hstart : (Tty.start stream uart usb_data uart_data).Keeps stream.queue uart :=
    ⟨Channel.agrees_start _, Channel.agrees_start _, hvalid, (List.append_nil _).symm,
      (List.append_nil _).symm⟩
  obtain ⟨t, hrun, hkeeps⟩ := run_keeps callback steps hstart
  refine ⟨t, hrun, ?_, hkeeps.usb, hkeeps.uart, ?_⟩
  · have hagree : ∀ c : Channel, c.Agrees → c.lines = delivered c.fed ∧
        c.buf.len = (kept_after c.fed).length ∧ c.buf.len ≤ 1023 := by
      intro c hc
      refine ⟨hc.lines_eq, hc.holds.len_eq, ?_⟩
      rw [hc.holds.len_eq]
      exact hc.holds.len_le
    intro c hc
    simp only [List.mem_cons, List.not_mem_nil, or_false] at hc
    obtain rfl | rfl := hc
    · exact hagree _ hkeeps.usb_rx
    · exact hagree _ hkeeps.uart_rx
  · intro turns hturns uart_turns huart_turns
    obtain ⟨next, htask, -, husb, huart⟩ := hkeeps.task callback turns uart_turns
    exact ⟨next, htask, husb hturns, huart huart_turns⟩

/-- From power on, with a packet, a task for it and another packet. -/
theorem tty_rx_task_refines_editor_two_packets :
    let stream : UsbStream := ⟨fun _ => 0, 0, 0⟩
    ∃ t, [RxStep.arrival (.packet [0x49, 0x44, 0x0A]), .task 4 1, .arrival (.packet [0x0D])].foldlM
        (RxStep.run fun _ _ => []) (Tty.start stream [] (.replicate _ 0) (.replicate _ 0)) = some t ∧
      (∀ c ∈ [t.usb_rx, t.uart_rx], c.lines = delivered c.fed ∧
        c.buf.len = (kept_after c.fed).length ∧ c.buf.len ≤ 1023) ∧
      t.usb_rx.fed ++ t.inputs.stream.queue = stream.queue ++ t.inputs.usb_accepted ∧
      t.uart_rx.fed ++ t.inputs.uart = [] ++ t.inputs.uart_accepted ∧
      ∀ turns ≥ t.inputs.stream.queue.length, ∀ uart_turns ≥ t.inputs.uart.length,
        ∃ next, tty_rx_task (fun _ _ => []) turns uart_turns t = some next ∧
          stream.queue ++ t.inputs.usb_accepted <+: next.usb_rx.fed ∧
          [] ++ t.inputs.uart_accepted <+: next.uart_rx.fed :=
  tty_rx_task_refines_editor _ ⟨by decide, by decide⟩ [] _ _ _

end keychain.tty
