import Keychain.Cmd.Grammar
import Keychain.Cmd.Lookup
import Keychain.Cmd.Reply
import Keychain.Main.Task
import Keychain.Tty.Editor

namespace keychain.main

open cmd tty

/-- The word of a line is the name of the handshake, in any letter case. -/
def NamesTls (line : List UInt8) : Prop :=
  SameWord (command_word (_skip_spaces line)) (ascii "TLS")

/-- What stands behind the word of a line. -/
def behind_word (line : List UInt8) : List UInt8 :=
  (_skip_spaces line).dropWhile is_char

/-- The remainders that are to start a handshake: nothing, only spaces, `=` with
    any text, or a text behind spaces that does not start with `?`. -/
def Promised (rest : List UInt8) : Prop :=
  AllSpaces rest ∨ rest.headD 0 = '='.toUInt8 ∨
    rest.headD 0 = ' '.toUInt8 ∧ (_skip_spaces rest).headD 0 ≠ '?'.toUInt8

/-- A line handled in the state `m` starts one handshake if it is a TLS line of
    a promised form, and none if its word is another one. -/
def HandshakeAsPromised (m : Main) (line : List UInt8) : Prop :=
  (NamesTls line → Promised (behind_word line) → ∃ m', tty_rx_parser_line m line = some m' ∧
      m'.board.tls_sessions = m.board.tls_sessions + 1) ∧
    (¬ NamesTls line → ∀ m', tty_rx_parser_line m line = some m' →
      m'.board.tls_sessions = m.board.tls_sessions)

/-- The entry of the handshake in the table. -/
def tls_cmd : cmd_t :=
  ⟨ascii "TLS", some .tls, some .tls_set, ascii "TLS 1.3 handshake over USB (ML-KEM-768)"⟩

/-- Only the set function of the handshake starts one. -/
theorem FuncSet.call_sessions {f : FuncSet} (hf : f ≠ .tls_set) (text : List UInt8) (b : Board) :
    (f.call text b).2.tls_sessions = b.tls_sessions := by
  obtain herr | ⟨b', hok, -, hsessions, -⟩ := f.call_spec text b
  · rw [herr]
    rfl
  · rw [hok, hsessions, if_neg hf, Nat.add_zero]

theorem _process_cmd_sessions {cmd : cmd_t} (hcmd : cmd ∈ _CMD_TABLE)
    (hset : cmd.pfunc_set ≠ some .tls_set) {text : List UInt8} {b b' : Board} {ok : Bool}
    (h : _process_cmd cmd text b = some (ok, b')) : b'.tls_sessions = b.tls_sessions := by
  obtain ⟨reason, -, herr, -⟩ | ⟨f, hfunc, -, hcall⟩ | ⟨f, -, -, hcall⟩ :=
    _process_cmd_cases cmd text b
  · rw [herr] at h
    cases h
    rfl
  · have hf : f ≠ .tls_set := by
      rintro rfl
      exact hset hfunc
    have hsessions := FuncSet.call_sessions hf (set_text text) b
    rw [hcall] at h
    rw [Option.some.inj h] at hsessions
    exact hsessions
  · obtain ⟨out, rfl⟩ := Func.call_prints hcmd (hcall.symm.trans h)
    rfl

theorem find_tls : (_CMD_TABLE.find? fun cmd => SameWord (ascii "TLS") cmd.text) = some tls_cmd := by
  decide

/-- The lookup takes every spelling of the name, and no remark sign stands in it. -/
theorem _find_cmd_tls {text : List UInt8} (h : SameWord (command_word text) (ascii "TLS")) :
    text.headD 0 ≠ '#'.toUInt8 ∧
      _find_cmd _CMD_TABLE text = some (tls_cmd, text.dropWhile is_char) := by
  constructor
  · intro hremark
    cases text with
    | nil => exact absurd hremark (by decide)
    | cons ch text =>
      rw [List.headD_cons] at hremark
      subst hremark
      have hchar : is_char '#'.toUInt8 = true := by decide
      have hhead := congrArg List.head? h
      rw [command_word, List.takeWhile_cons_of_pos hchar, List.map_cons, List.head?_cons] at hhead
      exact absurd hhead (by decide)
  · have hsame : ∀ name, SameWord (command_word text) name ↔ SameWord (ascii "TLS") name := by
      intro name
      rw [SameWord, SameWord, h]
    rw [_find_cmd_eq table_wellNamed]
    simp only [hsame, find_tls, Option.map_some]

/-- A TLS line starts a handshake unless it reads like a query. -/
theorem cmd_parse_tls {text : List UInt8} (h : SameWord (command_word text) (ascii "TLS"))
    (b : Board) :
    cmd_parse b text =
      some (if IsQuery (text.dropWhile is_char) then b
        else { b with tls_sessions := b.tls_sessions + 1 }) := by
  obtain ⟨hremark, hfind⟩ := _find_cmd_tls h
  have hquiet : ¬ strnicmp tls_cmd.text (ascii "TLS") 3 ≠ 0 := by decide
  rw [cmd_parse, if_neg hremark, hfind]
  dsimp only
  obtain ⟨reason, -, -, hnone, hquery⟩ | ⟨f, hset, hform, hcall⟩ | ⟨f, hfunc, hform, hcall⟩ :=
    _process_cmd_cases tls_cmd (text.dropWhile is_char) b
  · by_cases hform : IsQuery (text.dropWhile is_char)
    · cases hquery hform
    · cases hnone hform
  · cases hset
    rw [hcall, if_neg hform]
    simp only [if_neg hquiet]
    rfl
  · cases hfunc
    rw [hcall, if_pos hform]
    simp only [Func.call, if_neg hquiet]

/-- No other command starts a handshake, whatever stands behind its name. -/
theorem cmd_parse_other {text : List UInt8} (h : ¬ SameWord (command_word text) (ascii "TLS"))
    {b b' : Board} (hparse : cmd_parse b text = some b') : b'.tls_sessions = b.tls_sessions := by
  obtain ⟨-, rfl⟩ | ⟨-, -, rfl⟩ | ⟨-, cmd, rest, ok, b₁, out, hfind, hprocess, rfl⟩ :=
    cmd_parse_cases hparse
  · rfl
  · rfl
  · have hcmd := _find_cmd_mem hfind
    have hset : cmd.pfunc_set ≠ some .tls_set := by
      intro hset
      rw [_find_cmd_eq table_wellNamed] at hfind
      obtain ⟨found, hfound, heq⟩ := Option.map_eq_some_iff.mp hfind
      cases heq
      have hword : SameWord (command_word text) cmd.text := by
        simpa using List.find?_some hfound
      rw [← table_names cmd hcmd .tls_set hset] at hword
      exact h hword
    have hsessions := _process_cmd_sessions hcmd hset hprocess
    exact hsessions

/-- The lines that start a handshake. -/
def StartsTls (line : List UInt8) : Prop :=
  NamesTls line ∧ ¬ IsQuery (behind_word line)

instance (line : List UInt8) : Decidable (StartsTls line) :=
  inferInstanceAs (Decidable (SameWord _ _ ∧ _))

theorem tty_rx_parser_line_sessions {m m' : Main} {line : List UInt8}
    (h : tty_rx_parser_line m line = some m') :
    m'.board.tls_sessions = m.board.tls_sessions + if StartsTls line then 1 else 0 := by
  unfold tty_rx_parser_line at h
  cases hparse : cmd_parse m.board (_skip_spaces line) with
  | none =>
    rw [hparse] at h
    cases h
  | some board =>
    rw [hparse] at h
    cases h
    by_cases hname : NamesTls line
    · have hboard := Option.some.inj (hparse.symm.trans (cmd_parse_tls hname m.board))
      by_cases hform : IsQuery (behind_word line)
      · have hstarts : ¬ StartsTls line := fun h => h.2 hform
        rw [if_neg hstarts, hboard.trans (if_pos hform)]
        rfl
      · have hstarts : StartsTls line := ⟨hname, hform⟩
        rw [if_pos hstarts, hboard.trans (if_neg hform)]
    · rw [if_neg (fun hstarts => hname hstarts.1)]
      exact cmd_parse_other hname hparse

/-- A run of lines starts as many handshakes as there are lines that start one. -/
theorem run_sessions {m last : Main} {lines : List (List UInt8)}
    (h : lines.foldlM tty_rx_parser_line m = some last) :
    last.board.tls_sessions = m.board.tls_sessions + lines.countP StartsTls := by
  induction lines generalizing m with
  | nil =>
    cases h
    rfl
  | cons line lines ih =>
    rw [List.foldlM_cons, Option.bind_eq_bind, Option.bind_eq_some_iff] at h
    obtain ⟨next, hline, hlines⟩ := h
    rw [ih hlines, tty_rx_parser_line_sessions hline, List.countP_cons]
    simp only [decide_eq_true_iff]
    omega

/-- Without a NUL only the end of the text ends it, so of the promised
    remainders only the blank ones read like a query. -/
theorem isQuery_iff_of_promised {rest : List UInt8} (hnul : 0 ∉ rest) (h : Promised rest) :
    IsQuery rest ↔ AllSpaces rest := by
  constructor
  · intro hquery
    by_contra hblank
    have hskip : _skip_spaces rest ≠ [] := fun hnil => hblank ((_skip_spaces_eq_nil_iff rest).mp hnil)
    have hzero : (_skip_spaces rest).headD 0 ≠ 0 := by
      intro hhead
      obtain ⟨ch, behind, hcons⟩ := List.exists_cons_of_ne_nil hskip
      rw [hcons, List.headD_cons] at hhead
      have hmem : ch ∈ _skip_spaces rest := hcons ▸ List.mem_cons_self
      exact hnul (hhead ▸ (List.dropWhile_sublist _).subset hmem)
    obtain hblank' | hassign | ⟨-, hfree⟩ := h
    · exact hblank hblank'
    · have hspace : rest.headD 0 ≠ ' '.toUInt8 := by
        rw [hassign]
        decide
      rw [IsQuery, _skip_spaces_of_head hspace, hassign] at hquery
      exact absurd hquery (by decide)
    · obtain hmark | hend := hquery
      · exact hfree hmark
      · exact hzero hend
  · intro hblank
    rw [IsQuery, (_skip_spaces_eq_nil_iff rest).mpr hblank]
    exact .inr rfl

/-- A completed line starts the handshakes that it should exactly if it is not
    the bare name. -/
theorem handshakeAsPromised_iff {stream line : List UInt8} (hline : line ∈ delivered stream)
    (m : Main) :
    HandshakeAsPromised m line ↔ ¬ (NamesTls line ∧ AllSpaces (behind_word line)) := by
  have hnul : 0 ∉ behind_word line := by
    intro hmem
    apply (mem_delivered hline).2
    exact (List.dropWhile_sublist _).subset ((List.dropWhile_sublist _).subset hmem)
  constructor
  · rintro ⟨htls, -⟩ ⟨hname, hblank⟩
    obtain ⟨m', hparse, hsessions⟩ := htls hname (.inl hblank)
    have hquery := (isQuery_iff_of_promised hnul (.inl hblank)).mpr hblank
    rw [tty_rx_parser_line_sessions hparse, if_neg (fun hstarts => hstarts.2 hquery)] at hsessions
    omega
  · intro hbare
    refine ⟨fun hname hpromised => ?_, fun hname m' hparse => ?_⟩
    · have hform : ¬ IsQuery (behind_word line) := by
        rw [isQuery_iff_of_promised hnul hpromised]
        exact fun hblank => hbare ⟨hname, hblank⟩
      have hparse := cmd_parse_tls hname m.board
      refine ⟨_, by rw [tty_rx_parser_line, hparse], ?_⟩
      exact congrArg Board.tls_sessions (if_neg hform)
    · rw [tty_rx_parser_line_sessions hparse, if_neg (fun hstarts => hname hstarts.1)]
      rfl

/-- The lines of a stream that are handled, each in the state it is handled in.
    A reset ends the run. -/
def Handled (m : Main) (stream line : List UInt8) (m' : Main) : Prop :=
  ∃ before after, delivered stream = before ++ line :: after ∧
    before.foldlM tty_rx_parser_line m = some m'

/-- Every line that a stream makes the device handle starts the handshakes that
    it should, exactly if none of them is the bare name of the command, with or
    without spaces behind it. -/
theorem tls_lines_start_handshakes_iff (m : Main) (stream : List UInt8) :
    (∀ line m', Handled m stream line m' → HandshakeAsPromised m' line) ↔
      ∀ line m', Handled m stream line m' → ¬ (NamesTls line ∧ AllSpaces (behind_word line)) := by
  have hiff : ∀ line m', Handled m stream line m' →
      (HandshakeAsPromised m' line ↔ ¬ (NamesTls line ∧ AllSpaces (behind_word line))) := by
    rintro line m' ⟨before, after, hlines, -⟩
    have hline : line ∈ delivered stream := by
      rw [hlines]
      exact List.mem_append_right before List.mem_cons_self
    exact handshakeAsPromised_iff hline m'
  constructor
  · exact fun h line m' hhandled => (hiff line m' hhandled).mp (h line m' hhandled)
  · exact fun h line m' hhandled => (hiff line m' hhandled).mpr (h line m' hhandled)

/-- Neither the bare name nor the name with a space behind it starts one. -/
theorem bare_name_starts_none :
    let m := Main.power_on 0x40000000#32 (1, 2, 3) false false
    ∀ line ∈ [ascii "TLS", ascii "TLS "],
      Handled m (line ++ ascii "\r") line m ∧ ¬ HandshakeAsPromised m line := by
  intro m line hline
  have hdelivered : ∀ line ∈ [ascii "TLS", ascii "TLS "],
      delivered (line ++ ascii "\r") = [line] := by decide
  have hbare : ∀ line ∈ [ascii "TLS", ascii "TLS "],
      SameWord (command_word (_skip_spaces line)) (ascii "TLS") ∧
        _skip_spaces (behind_word line) = [] := by decide
  obtain ⟨hname, hblank⟩ := hbare line hline
  rw [_skip_spaces_eq_nil_iff] at hblank
  have hlines := hdelivered line hline
  have hmem : line ∈ delivered (line ++ ascii "\r") := by
    rw [hlines]
    exact List.mem_singleton_self line
  exact ⟨⟨[], [], hlines, rfl⟩, fun h => (handshakeAsPromised_iff hmem m).mp h ⟨hname, hblank⟩⟩

end keychain.main
