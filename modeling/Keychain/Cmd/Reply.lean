import Keychain.Cmd.Process
import Mathlib.Data.List.GetD

namespace keychain.cmd

/-- Lines of text as they are printed. -/
def print_lines (lines : List (List UInt8)) : List UInt8 :=
  lines.flatMap (· ++ NL)

def IsStatus (line : List UInt8) : Prop :=
  line = ascii "OK" ∨ ascii "ERROR: " <+: line

/-- One line of output, with no line end inside. -/
def Plain (line : List UInt8) : Prop :=
  0x0D ∉ line ∧ 0x0A ∉ line

/-- Output that says something else than how a command went. -/
def IsBody (lines : List (List UInt8)) : Prop :=
  ∀ line ∈ lines, Plain line ∧ ¬ IsStatus line

instance (line : List UInt8) : Decidable (IsStatus line) :=
  inferInstanceAs (Decidable (_ ∨ _))

instance (line : List UInt8) : Decidable (Plain line) :=
  inferInstanceAs (Decidable (_ ∧ _))

instance (lines : List (List UInt8)) : Decidable (IsBody lines) :=
  inferInstanceAs (Decidable (∀ line ∈ lines, _))

/-- What a command may set: the variables of AUTO, the prescaler, the chip
    select and the power, the latter two with their pins. -/
structure Settings where
  auto : Bool × UInt8 × UInt8
  prescaler : BitVec 32
  chip_select : Bool × Bool
  power : Bool × Bool
  deriving DecidableEq

def Board.settings (b : Board) : Settings :=
  ⟨(b.main_spi_auto, b.main_spi_get_resp, b.main_spi_no_resp), b.CFG1, (b._spi1_cs_state, b.cs_low),
    (b._pwr_state, b.chip_pwr)⟩

/-- At most the settings of the command called `name` differ. -/
structure OnlyOwn (name : List UInt8) (before after : Settings) : Prop where
  auto : name ≠ ascii "AUTO" → after.auto = before.auto
  prescaler : name ≠ ascii "CLKDIV" → after.prescaler = before.prescaler
  chip_select : name ≠ ascii "CS" → after.chip_select = before.chip_select
  power : name ≠ ascii "PWR" → after.power = before.power

theorem OnlyOwn.refl (name : List UInt8) (s : Settings) : OnlyOwn name s s :=
  ⟨fun _ => rfl, fun _ => rfl, fun _ => rfl, fun _ => rfl⟩

theorem Plain.append {line more : List UInt8} (h : Plain line) (hmore : Plain more) :
    Plain (line ++ more) := by
  simpa [Plain, h.1, h.2] using hmore

/-- The names and the help texts of the commands are plain, and no name can be
    taken for the start of a status. -/
theorem table_plain : ∀ cmd ∈ _CMD_TABLE, Plain cmd.text ∧ Plain cmd.help ∧
    cmd.text.length ≠ 0 ∧ cmd.text.head? ≠ some 'E'.toUInt8 := by
  decide

/-- A line that starts with such a name is not a status. -/
theorem named_not_isStatus {name rest : List UInt8} (hlength : name.length ≠ 0)
    (hhead : name.head? ≠ some 'E'.toUInt8) (hrest : 2 ≤ rest.length) : ¬ IsStatus (name ++ rest) := by
  rintro (hok | ⟨more, hmore⟩)
  · have hsize := congrArg List.length hok
    have htwo : (ascii "OK").length = 2 := by decide
    rw [List.length_append, htwo] at hsize
    omega
  · have hstart := congrArg List.head? hmore
    cases name with
    | nil => exact hlength rfl
    | cons ch name =>
      have hfirst : (ascii "ERROR: " ++ more).head? = some 'E'.toUInt8 := rfl
      rw [hfirst] at hstart
      exact hhead hstart.symm

/-- A reply that names its command is not a status. -/
theorem reply_isBody {cmd : cmd_t} (hcmd : cmd ∈ _CMD_TABLE) {value : List UInt8} (h : Plain value) :
    IsBody [cmd.text ++ ascii ": " ++ value] := by
  obtain ⟨hplain, -, hlength, hhead⟩ := table_plain cmd hcmd
  have hcolon : Plain (ascii ": ") := by decide
  intro line hline
  rw [List.mem_singleton] at hline
  subst hline
  refine ⟨(hplain.append hcolon).append h, ?_⟩
  rw [List.append_assoc]
  exact named_not_isStatus hlength hhead (Nat.le_add_left 2 value.length)

theorem mem_help_lines {table : List cmd_t} {line : List UInt8} (h : line ∈ help_lines table) :
    ∃ cmd ∈ table, line = cmd.text ++ ascii " : " ++ cmd.help := by
  induction table with
  | nil => cases h
  | cons cmd table ih =>
    rw [help_lines] at h
    split_ifs at h with hhelp hname
    · obtain ⟨other, hother, hline⟩ := ih h
      exact ⟨other, List.mem_cons_of_mem _ hother, hline⟩
    · cases h
    · obtain rfl | hmore := List.mem_cons.mp h
      · exact ⟨cmd, List.mem_cons_self, rfl⟩
      · obtain ⟨other, hother, hline⟩ := ih hmore
        exact ⟨other, List.mem_cons_of_mem _ hother, hline⟩

theorem help_isBody : IsBody ([ascii "Tropicsquare USB/SPI interface",
    ascii "STM32 accepts named commands only; raw hex pass-through is disabled",
    ascii "Supported commands:"] ++ help_lines _CMD_TABLE) := by
  intro line hline
  obtain hintro | hhelp := List.mem_append.mp hline
  · have hbody : IsBody [ascii "Tropicsquare USB/SPI interface",
        ascii "STM32 accepts named commands only; raw hex pass-through is disabled",
        ascii "Supported commands:"] := by decide
    exact hbody line hintro
  · obtain ⟨cmd, hcmd, rfl⟩ := mem_help_lines hhelp
    obtain ⟨hplain, htext, hlength, hhead⟩ := table_plain cmd hcmd
    have hcolon : Plain (ascii " : ") := by decide
    refine ⟨(hplain.append hcolon).append htext, ?_⟩
    rw [List.append_assoc]
    exact named_not_isStatus hlength hhead (Nat.le_add_left 2 (cmd.help.length + 1))

theorem hex_digit_plain {letters : List UInt8} (hletters : Plain letters) (n : Nat) :
    Plain [hex_digit letters n] := by
  have hdigits : Plain (ascii "0123456789") := by decide
  have hall := hdigits.append hletters
  unfold hex_digit
  by_cases hn : n < (ascii "0123456789" ++ letters).length
  · rw [List.getD_eq_getElem _ _ hn]
    have hmem := List.getElem_mem hn
    constructor
    · intro heq
      rw [List.mem_singleton] at heq
      exact hall.1 (heq ▸ hmem)
    · intro heq
      rw [List.mem_singleton] at heq
      exact hall.2 (heq ▸ hmem)
  · rw [List.getD_eq_default _ _ (Nat.le_of_not_lt hn)]
    decide

theorem hex_digits_plain {letters : List UInt8} (hletters : Plain letters) (width n : Nat) :
    Plain (hex_digits letters width n) := by
  induction width generalizing n with
  | zero => exact ⟨by simp [hex_digits], by simp [hex_digits]⟩
  | succ width ih => exact (ih _).append (hex_digit_plain hletters _)

theorem spi1_get_prescaler_plain (b : Board) : Plain (ascii (toString (spi1_get_prescaler b))) := by
  unfold spi1_get_prescaler
  cases hfind : LL_SPI_BAUDRATEPRESCALER_DIV.find? fun p => p.2 = b.CFG1 &&& SPI_CFG1_MBR with
  | none => decide
  | some p =>
    have hplain : ∀ p ∈ LL_SPI_BAUDRATEPRESCALER_DIV, Plain (ascii (toString p.1)) := by decide
    exact hplain p (List.mem_of_find?_eq_some hfind)

theorem bit_text_plain (state : Bool) : Plain (bit_text state) := by
  cases state <;> decide

theorem foldl_printf (lines : List (List UInt8)) (b : Board) :
    lines.foldl (fun b line => b.printf (line ++ NL)) b = b.printf (print_lines lines) := by
  induction lines generalizing b with
  | nil => simp [Board.printf, print_lines]
  | cons line lines ih =>
    rw [List.foldl_cons, ih]
    simp [Board.printf, print_lines]

/-- A query prints what it has to say and changes nothing else. -/
theorem Func.call_spec (f : Func) {cmd : cmd_t} (hcmd : cmd ∈ _CMD_TABLE) (hreset : f ≠ .reset)
    (b : Board) :
    ∃ lines, f.call cmd b = some (true, b.printf (print_lines lines)) ∧ IsBody lines := by
  have hreply : ∀ value, Plain value → ∃ lines,
      some (true, (b.printf (cmd.text ++ ascii ": ")).printf (value ++ NL)) =
        some (true, b.printf (print_lines lines)) ∧ IsBody lines := by
    intro value hvalue
    refine ⟨[cmd.text ++ ascii ": " ++ value], ?_, reply_isBody hcmd hvalue⟩
    simp [Board.printf, print_lines]
  have hupper : Plain (ascii "ABCDEF") := by decide
  have hlower : Plain (ascii "abcdef") := by decide
  cases f with
  | auto =>
    cases hauto : b.main_spi_auto with
    | false =>
      obtain ⟨lines, hlines, hbody⟩ := hreply (ascii "0") (by decide)
      refine ⟨lines, ?_, hbody⟩
      rw [← hlines]
      simp [Func.call, _cmd_auto, _cmd_basic_reply, Board.printf, hauto]
    | true =>
      obtain ⟨lines, hlines, hbody⟩ := hreply
        (ascii "1, " ++ format_02X b.main_spi_get_resp ++ ascii ", " ++ format_02X b.main_spi_no_resp)
        (((Plain.append (by decide) (hex_digits_plain hupper _ _)).append (by decide)).append
          (hex_digits_plain hupper _ _))
      refine ⟨lines, ?_, hbody⟩
      rw [← hlines]
      simp [Func.call, _cmd_auto, _cmd_basic_reply, Board.printf, hauto]
  | button => exact hreply _ (bit_text_plain _)
  | cs => exact hreply _ (bit_text_plain _)
  | clkdiv => exact hreply _ (spi1_get_prescaler_plain _)
  | gpo => exact hreply _ (bit_text_plain _)
  | help =>
    refine ⟨_, ?_, help_isBody⟩
    simp only [Func.call, _cmd_help, foldl_printf]
    simp [Board.printf, print_lines]
  | id => exact hreply _ (by decide)
  | pwr => exact hreply _ (bit_text_plain _)
  | reset => exact absurd rfl hreset
  | tls => exact ⟨[], by simp [Func.call, Board.printf, print_lines], by simp [IsBody]⟩
  | sn =>
    obtain ⟨lines, hlines, hbody⟩ := hreply (ux_device_sn_text b)
      ((hex_digits_plain hlower _ _).append (hex_digits_plain hlower _ _))
    refine ⟨lines, ?_, hbody⟩
    rw [← hlines]
    simp [Func.call, _cmd_sn, _cmd_basic_reply, Board.printf, ux_device_sn_text]
  | ver => exact hreply _ (by decide)

/-- So a query that returns has only printed. -/
theorem Func.call_prints {f : Func} {cmd : cmd_t} (hcmd : cmd ∈ _CMD_TABLE) {b b' : Board} {ok : Bool}
    (h : f.call cmd b = some (ok, b')) : ∃ out, b' = b.printf out := by
  have hreset : f ≠ .reset := by
    rintro rfl
    cases h
  obtain ⟨lines, hlines, -⟩ := f.call_spec hcmd hreset b
  rw [hlines] at h
  cases h
  exact ⟨_, rfl⟩

theorem spi1_set_prescaler_cases (b : Board) (value : BitVec 32) :
    spi1_set_prescaler b value = (false, b) ∨
      ∃ cfg, spi1_set_prescaler b value = (true, { b with CFG1 := cfg }) := by
  unfold spi1_set_prescaler
  split
  · exact .inr ⟨_, rfl⟩
  · exact .inl rfl

/-- The setting that a set function is there for. -/
def FuncSet.name : FuncSet → List UInt8
  | .auto_set => ascii "AUTO"
  | .clkdiv_set => ascii "CLKDIV"
  | .cs_set => ascii "CS"
  | .pwr_set => ascii "PWR"
  | .tls_set => ascii "TLS"

/-- A set function that fails has printed why and committed nothing; one that
    succeeds has changed no settings but its own, and printed nothing. TLS, which
    has no settings, has run its session. -/
theorem FuncSet.call_spec (f : FuncSet) (text : List UInt8) (b : Board) :
    f.call text b = (false, _cmd_error b ERR_INVALID_PARAMETER) ∨
      ∃ b', f.call text b = (true, b') ∧ b'.console = b.console ∧
        b'.tls_sessions = b.tls_sessions + (if f = .tls_set then 1 else 0) ∧
        OnlyOwn f.name b.settings b'.settings := by
  cases f with
  | auto_set =>
    simp only [FuncSet.call, _cmd_auto_set]
    cases _cmd_fetch_bool text with
    | none => exact .inl rfl
    | some first =>
      dsimp only
      cases (if (_cmd_fetch_next first.2).1 then _cmd_fetch_hex (_cmd_fetch_next first.2).2
        else some (0xAA, (_cmd_fetch_next first.2).2)) with
      | none => exact .inl rfl
      | some second =>
        dsimp only
        cases (if (_cmd_fetch_next second.2).1 then _cmd_fetch_hex (_cmd_fetch_next second.2).2
          else some (0xFF, (_cmd_fetch_next second.2).2)) with
        | none => exact .inl rfl
        | some third =>
          exact .inr ⟨_, rfl, rfl, rfl, fun h => absurd rfl h, fun _ => rfl, fun _ => rfl, fun _ => rfl⟩
  | clkdiv_set =>
    simp only [FuncSet.call, _cmd_clkdiv_set]
    cases _cmd_fetch_num text with
    | none => exact .inl rfl
    | some num =>
      dsimp only
      obtain hset | ⟨cfg, hset⟩ := spi1_set_prescaler_cases b num.1
      · rw [hset]
        exact .inl rfl
      · rw [hset]
        exact .inr ⟨_, rfl, rfl, rfl, fun _ => rfl, fun h => absurd rfl h, fun _ => rfl, fun _ => rfl⟩
  | cs_set =>
    simp only [FuncSet.call, _cmd_cs_set]
    cases _cmd_fetch_bool text with
    | none => exact .inl rfl
    | some bit =>
      refine .inr ⟨_, rfl, ?_, ?_, ?_⟩
      · cases bit.1 <;> rfl
      · cases bit.1 <;> rfl
      · cases bit.1 <;> exact ⟨fun _ => rfl, fun _ => rfl, fun h => absurd rfl h, fun _ => rfl⟩
  | pwr_set =>
    simp only [FuncSet.call, _cmd_pwr_set]
    cases _cmd_fetch_bool text with
    | none => exact .inl rfl
    | some bit =>
      refine .inr ⟨_, rfl, ?_, ?_, ?_⟩
      · cases bit.1 <;> rfl
      · cases bit.1 <;> rfl
      · cases bit.1 <;> exact ⟨fun _ => rfl, fun _ => rfl, fun _ => rfl, fun h => absurd rfl h⟩
  | tls_set => exact .inr ⟨_, rfl, rfl, rfl, OnlyOwn.refl _ _⟩

/-- The names of the table are the ones their set functions are there for. -/
theorem table_names : ∀ cmd ∈ _CMD_TABLE, ∀ f, cmd.pfunc_set = some f → f.name = cmd.text := by
  decide

/-- Nothing is asked to be set: the text ends behind the name, or says `?`. -/
def IsQuery (text : List UInt8) : Prop :=
  (_skip_spaces text).headD 0 = '?'.toUInt8 ∨ (_skip_spaces text).headD 0 = 0

instance (text : List UInt8) : Decidable (IsQuery text) :=
  inferInstanceAs (Decidable (_ ∨ _))

theorem _find_cmd_mem {table : List cmd_t} {text : List UInt8} {cmd : cmd_t} {rest : List UInt8}
    (h : _find_cmd table text = some (cmd, rest)) : cmd ∈ table := by
  induction table with
  | nil => simp [_find_cmd] at h
  | cons entry table ih =>
    rw [_find_cmd] at h
    split_ifs at h
    · cases h
      exact List.mem_cons_self
    · exact List.mem_cons_of_mem entry (ih h)

def errors : List (List UInt8) :=
  [ERR_INVALID_PARAMETER, ERR_MISSING_PARAMETER, ERR_ILLEGAL_PARAMETER, ERR_UNKNOWN_COMMAND]

/-- The text that the dispatch hands to a set function. -/
def set_text (text : List UInt8) : List UInt8 :=
  let text := _skip_spaces text
  if text.headD 0 = '='.toUInt8 then _skip_spaces text.tail else text

/-- The dispatch fails with a reason, calls the set function or calls the other
    one. It fails only for want of the function that it looks for. -/
theorem _process_cmd_cases (cmd : cmd_t) (text : List UInt8) (b : Board) :
    (∃ reason ∈ errors, _process_cmd cmd text b = some (false, _cmd_error b reason) ∧
        (¬ IsQuery text → cmd.pfunc_set = none) ∧ (IsQuery text → cmd.pfunc = none)) ∨
      (∃ f, cmd.pfunc_set = some f ∧ ¬ IsQuery text ∧
        _process_cmd cmd text b = some (f.call (set_text text) b)) ∨
      ∃ f, cmd.pfunc = some f ∧ IsQuery text ∧ _process_cmd cmd text b = f.call cmd b := by
  unfold _process_cmd set_text
  dsimp only
  split_ifs with hassign hfree
  · have hform : ¬ IsQuery text := by
      rw [IsQuery, hassign]
      decide
    cases hset : cmd.pfunc_set with
    | none =>
      exact .inl ⟨ERR_INVALID_PARAMETER, by simp [errors], rfl, fun _ => rfl, fun h => absurd h hform⟩
    | some f => exact .inr (.inl ⟨f, rfl, hform, rfl⟩)
  · have hform : ¬ IsQuery text := by
      rw [IsQuery, not_or]
      exact hfree
    cases hset : cmd.pfunc_set with
    | none =>
      exact .inl ⟨ERR_ILLEGAL_PARAMETER, by simp [errors], rfl, fun _ => rfl, fun h => absurd h hform⟩
    | some f => exact .inr (.inl ⟨f, rfl, hform, rfl⟩)
  · have hform : IsQuery text := by
      rw [IsQuery]
      tauto
    cases hfunc : cmd.pfunc with
    | none =>
      exact .inl ⟨ERR_MISSING_PARAMETER, by simp [errors], rfl, fun h => absurd hform h, fun _ => rfl⟩
    | some f => exact .inr (.inr ⟨f, rfl, hform, rfl⟩)

/-- A line that does not reset the device is a remark, names no command, or acts
    as its command does and may print an OK behind that. -/
theorem cmd_parse_cases {b b' : Board} {line : List UInt8} (h : cmd_parse b line = some b') :
    line.headD 0 = '#'.toUInt8 ∧ b' = b ∨
      line.headD 0 ≠ '#'.toUInt8 ∧ _find_cmd _CMD_TABLE line = none ∧
        b' = _cmd_error b ERR_UNKNOWN_COMMAND ∨
      line.headD 0 ≠ '#'.toUInt8 ∧ ∃ cmd text ok b₁ out,
        _find_cmd _CMD_TABLE line = some (cmd, text) ∧ _process_cmd cmd text b = some (ok, b₁) ∧
          b' = b₁.printf out := by
  have hsilent : ∀ b : Board, b = b.printf [] := by
    intro b
    simp [Board.printf]
  unfold cmd_parse at h
  by_cases hremark : line.headD 0 = '#'.toUInt8
  · rw [if_pos hremark] at h
    exact .inl ⟨hremark, (Option.some.inj h).symm⟩
  · rw [if_neg hremark] at h
    cases hfind : _find_cmd _CMD_TABLE line with
    | none =>
      rw [hfind] at h
      exact .inr (.inl ⟨hremark, rfl, (Option.some.inj h).symm⟩)
    | some found =>
      obtain ⟨cmd, text⟩ := found
      rw [hfind] at h
      dsimp only at h
      refine .inr (.inr ⟨hremark, cmd, text, ?_⟩)
      cases hprocess : _process_cmd cmd text b with
      | none =>
        rw [hprocess] at h
        cases h
      | some result =>
        obtain ⟨ok, b₁⟩ := result
        rw [hprocess] at h
        cases ok with
        | false => exact ⟨false, b₁, [], rfl, rfl, (Option.some.inj h).symm.trans (hsilent b₁)⟩
        | true =>
          dsimp only at h
          split_ifs at h
          · exact ⟨true, b₁, _, rfl, rfl, (Option.some.inj h).symm⟩
          · exact ⟨true, b₁, [], rfl, rfl, (Option.some.inj h).symm.trans (hsilent b₁)⟩

/-- How a command can go: it fails with a reason and changes nothing, or it
    prints what it has to say and changes at most its own setting. -/
def Goes (cmd : cmd_t) (text : List UInt8) (b : Board) (result : Option (Bool × Board)) : Prop :=
  (∃ reason ∈ errors, result = some (false, _cmd_error b reason)) ∨
    ∃ b' lines, result = some (true, b') ∧ b'.console = b.console ++ print_lines lines ∧
      IsBody lines ∧ OnlyOwn cmd.text b.settings b'.settings ∧
      (IsQuery text → b'.settings = b.settings)

theorem table_reset : ∀ cmd ∈ _CMD_TABLE, cmd.pfunc = some .reset → cmd.text = ascii "RESET" := by
  decide

theorem goes_set {cmd : cmd_t} (hcmd : cmd ∈ _CMD_TABLE) {f : FuncSet} (hf : cmd.pfunc_set = some f)
    {text : List UInt8} (hform : ¬ IsQuery text) (rest : List UInt8) (b : Board) :
    Goes cmd text b (some (f.call rest b)) := by
  obtain herr | ⟨b', hok, hconsole, -, hown⟩ := f.call_spec rest b
  · exact .inl ⟨ERR_INVALID_PARAMETER, by simp [errors], by rw [herr]⟩
  · rw [table_names cmd hcmd f hf] at hown
    exact .inr ⟨b', [], by rw [hok], by simp [hconsole, print_lines], by simp [IsBody], hown,
      fun h => absurd h hform⟩

theorem goes_query {cmd : cmd_t} (hcmd : cmd ∈ _CMD_TABLE) {f : Func} (hf : f ≠ .reset)
    (text : List UInt8) (b : Board) : Goes cmd text b (f.call cmd b) := by
  obtain ⟨lines, hcall, hbody⟩ := f.call_spec hcmd hf b
  exact .inr ⟨_, lines, hcall, rfl, hbody, OnlyOwn.refl _ _, fun _ => rfl⟩

/-- Every branch of the dispatch goes one of the two ways. -/
theorem _process_cmd_goes {cmd : cmd_t} (hcmd : cmd ∈ _CMD_TABLE) (hreset : cmd.text ≠ ascii "RESET")
    (text : List UInt8) (b : Board) : Goes cmd text b (_process_cmd cmd text b) := by
  obtain ⟨reason, hreason, herr, -⟩ | ⟨f, hset, hform, hcall⟩ | ⟨f, hfunc, -, hcall⟩ :=
    _process_cmd_cases cmd text b
  · exact .inl ⟨reason, hreason, herr⟩
  · rw [hcall]
    exact goes_set hcmd hset hform _ b
  · have hf : f ≠ .reset := by
      rintro rfl
      exact hreset (table_reset cmd hcmd hfunc)
    rw [hcall]
    exact goes_query hcmd hf text b

theorem strnicmp_TLS : ∀ cmd ∈ _CMD_TABLE, cmd.text ≠ ascii "TLS" →
    strnicmp cmd.text (ascii "TLS") 3 ≠ 0 := by
  decide

theorem errors_plain : ∀ reason ∈ errors, Plain (ascii "ERROR: " ++ reason) := by
  decide

/-- The end of the output of a command line, with what the board then holds. -/
structure Replied (line : List UInt8) (b b' : Board) (status : List UInt8) : Prop where
  status_mem : status = ascii "OK" ∨ ∃ reason ∈ errors, status = ascii "ERROR: " ++ reason
  failed : status ≠ ascii "OK" → b'.settings = b.settings
  query : ∀ cmd text, _find_cmd _CMD_TABLE line = some (cmd, text) → IsQuery text →
    b'.settings = b.settings
  own : ∀ cmd text, _find_cmd _CMD_TABLE line = some (cmd, text) →
    OnlyOwn cmd.text b.settings b'.settings

/-- A line that is no remark and names neither `TLS` nor `RESET` is answered by
    some lines that are no status and then by one that is. If that is an error,
    nothing has been set; otherwise at most the setting of the command has. -/
theorem cmd_parse_replies (b : Board) (line : List UInt8) (hremark : line.headD 0 ≠ '#'.toUInt8)
    (hcommand : ∀ cmd text, _find_cmd _CMD_TABLE line = some (cmd, text) →
      cmd.text ≠ ascii "TLS" ∧ cmd.text ≠ ascii "RESET") :
    ∃ b' lines status, cmd_parse b line = some b' ∧
      b'.console = b.console ++ print_lines (lines ++ [status]) ∧ IsBody lines ∧ Plain status ∧
      Replied line b b' status := by
  rw [cmd_parse, if_neg hremark]
  cases hfind : _find_cmd _CMD_TABLE line with
  | none =>
    refine ⟨_, [], ascii "ERROR: " ++ ERR_UNKNOWN_COMMAND, rfl, ?_, by simp [IsBody],
      errors_plain _ (by simp [errors]), .inr ⟨_, by simp [errors], rfl⟩, fun _ => rfl, ?_, ?_⟩
    · simp [_cmd_error, Board.printf, print_lines]
    · simp [hfind]
    · simp [hfind]
  | some found =>
    obtain ⟨cmd, text⟩ := found
    obtain ⟨hTLS, hRESET⟩ := hcommand cmd text hfind
    have hcmd := _find_cmd_mem hfind
    dsimp only
    rcases _process_cmd_goes hcmd hRESET text b with ⟨reason, hreason, herr⟩ |
      ⟨b₁, lines, hok, hconsole, hbody, hown, hquery⟩
    · rw [herr]
      refine ⟨_, [], ascii "ERROR: " ++ reason, rfl, ?_, by simp [IsBody], errors_plain reason hreason,
        .inr ⟨reason, hreason, rfl⟩, fun _ => rfl, fun _ _ _ _ => rfl, fun _ _ _ => OnlyOwn.refl _ _⟩
      simp [_cmd_error, Board.printf, print_lines]
    · rw [hok]
      simp only [strnicmp_TLS cmd hcmd hTLS, ne_eq, not_false_eq_true, if_true]
      refine ⟨_, lines, ascii "OK", rfl, ?_, hbody, by decide, .inl rfl, fun h => absurd rfl h, ?_, ?_⟩
      · simp [Board.printf, print_lines, hconsole]
      · rintro _ _ heq hform
        rw [hfind] at heq
        cases heq
        exact hquery hform
      · rintro _ _ heq
        rw [hfind] at heq
        cases heq
        exact hown

/-- A board as it is after power on, with no device identifier. -/
def Board.sample : Board where
  main_spi_auto := false
  main_spi_get_resp := 0
  main_spi_no_resp := 0
  CFG1 := 0x40000000#32
  _spi1_cs_state := SPI_CS_IDLE
  cs_low := false
  _pwr_state := true
  chip_pwr := true
  button := false
  gpo_in := false
  uid := (0, 0, 0)
  tls_sessions := 0
  console := []

/-- The reply to a line that takes the chip select. -/
theorem cmd_parse_replies_take_cs :
    ∃ b' lines status, cmd_parse Board.sample (ascii "CS=1") = some b' ∧
      b'.console = Board.sample.console ++ print_lines (lines ++ [status]) ∧ IsBody lines ∧
      Plain status ∧ Replied (ascii "CS=1") Board.sample b' status := by
  refine cmd_parse_replies Board.sample (ascii "CS=1") (by decide) ?_
  have hfind : (_find_cmd _CMD_TABLE (ascii "CS=1")).map (·.1.text) = some (ascii "CS") := by decide
  intro cmd text h
  rw [h] at hfind
  have htext : cmd.text = ascii "CS" := Option.some.inj hfind
  rw [htext]
  decide

end keychain.cmd
