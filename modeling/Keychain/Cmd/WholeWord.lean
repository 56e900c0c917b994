import Keychain.Cmd.Lookup
import Mathlib.Algebra.Group.Nat.Defs
import Mathlib.Data.List.Nodup

namespace keychain.cmd

/-- `strnicmp` over the memory from the two pointers to the NULs. Nothing can be
    read behind these. -/
def strnicmp_in : List UInt8 → List UInt8 → Nat → Option UInt8
  | _, _, 0 => some 0
  | a :: str1, b :: str2, len + 1 =>
    if a = b then
      if a = 0 then some 0 else strnicmp_in str1 str2 len
    else if upper a ∧ a.toNat + 32 = b.toNat then
      strnicmp_in str1 str2 len
    else if upper b ∧ b.toNat + 32 = a.toNat then
      strnicmp_in str1 str2 len
    else
      some (a - b)
  | _, _, _ + 1 => none

/-- The loop of `_find_cmd` from the entry `i` on, over the memory from `*text` to
    its NUL, for as many rounds as there is fuel. The terminating entry stands
    behind the last one. -/
def _find_cmd_loop (table : List cmd_t) (mem : List UInt8) :
    Nat → UInt16 → Option (Option cmd_t × List UInt8)
  | 0, _ => none
  | fuel + 1, i =>
    match table[i.toNat]? with
    | none => if i.toNat = table.length then some (none, mem) else none
    | some cmd =>
      let l := cmd.text.length % 2 ^ 16
      if l = 0 then some (none, mem)
      else
        match strnicmp_in mem (cmd.text ++ [0]) (l % 2 ^ 8) with
        | none => none
        | some differ =>
          if differ = 0 then
            match mem[l]? with
            | none => none
            | some ch =>
              if !is_char ch then some (some cmd, mem.drop l) else _find_cmd_loop table mem fuel (i + 1)
          else
            _find_cmd_loop table mem fuel (i + 1)

/-- No two names of a table are the same word. -/
def DistinctNames (table : List cmd_t) : Prop :=
  (table.map fun cmd => cmd.text.map fold_case).Nodup

theorem strnicmp_in_cons (a b : UInt8) (str1 str2 : List UInt8) (len : Nat) :
    strnicmp_in (a :: str1) (b :: str2) (len + 1) =
      if a = b then if a = 0 then some 0 else strnicmp_in str1 str2 len
      else if upper a ∧ a.toNat + 32 = b.toNat then strnicmp_in str1 str2 len
      else if upper b ∧ b.toNat + 32 = a.toNat then strnicmp_in str1 str2 len
      else some (a - b) :=
  rfl

/-- Nothing behind two different characters is compared. -/
theorem strnicmp_in_of_differ {a b : UInt8} (hdiffer : fold_case a ≠ fold_case b)
    (str1 str2 str1' str2' : List UInt8) (len : Nat) :
    strnicmp_in (a :: str1) (b :: str2) (len + 1) = some (strnicmp (a :: str1') (b :: str2') (len + 1)) := by
  rw [Ne, fold_case_eq_iff, not_or, not_or] at hdiffer
  obtain ⟨hab, hlower, hraise⟩ := hdiffer
  rw [strnicmp_in_cons, strnicmp_cons, if_neg hab, if_neg hab, if_neg hlower, if_neg hlower,
    if_neg hraise, if_neg hraise]

theorem fold_case_zero_ne {ch : UInt8} (hch : 0 ≠ ch) : fold_case 0 ≠ fold_case ch := by
  rw [Ne, fold_case_eq_iff]
  rintro (hzero | ⟨hupper, -⟩ | ⟨-, hsum⟩)
  · exact hch hzero
  · cases hupper
  · cases hsum

/-- Both comparisons end at the end of the shorter text at the latest. -/
theorem strnicmp_in_eq {text name : List UInt8} (htext : 0 ∉ text) (hname : 0 ∉ name) (len : Nat) :
    strnicmp_in (text ++ [0]) (name ++ [0]) len = some (strnicmp text name len) := by
  induction len generalizing text name with
  | zero => cases text <;> cases name <;> rfl
  | succ len ih =>
    cases text with
    | nil =>
      cases name with
      | nil => rfl
      | cons b name =>
        rw [List.mem_cons, not_or] at hname
        exact strnicmp_in_of_differ (fold_case_zero_ne hname.1) _ _ _ _ len
    | cons a text =>
      rw [List.mem_cons, not_or] at htext
      cases name with
      | nil => exact strnicmp_in_of_differ (fold_case_zero_ne htext.1).symm _ _ _ _ len
      | cons b name =>
        rw [List.mem_cons, not_or] at hname
        have hrest := ih htext.2 hname.2
        rw [List.cons_append, List.cons_append, strnicmp_in_cons, strnicmp_cons, hrest]
        split_ifs <;> rfl

/-- What the loop returns with the entry that it found. -/
def found_in (text : List UInt8) : Option cmd_t → Option cmd_t × List UInt8
  | none => (none, text ++ [0])
  | some cmd => (some cmd, text.drop cmd.text.length ++ [0])

theorem getElem?_terminated {text : List UInt8} {l : Nat} (hfit : l ≤ text.length) :
    (text ++ [0])[l]? = some ((text.drop l).headD 0) := by
  rw [← List.head?_drop, List.drop_append_of_le_length hfit]
  cases text.drop l with
  | nil => rfl
  | cons ch rest => rfl

/-- One round of the loop looks at one entry. -/
theorem _find_cmd_loop_step {table : List cmd_t} (hnamed : WellNamed table) {text : List UInt8}
    (hnul : 0 ∉ text) (fuel : Nat) {i : UInt16} {cmd : cmd_t} (hentry : table[i.toNat]? = some cmd) :
    _find_cmd_loop table (text ++ [0]) (fuel + 1) i =
      if SameWord (command_word text) cmd.text then
        some (found_in text (some cmd))
      else _find_cmd_loop table (text ++ [0]) fuel (i + 1) := by
  obtain ⟨hnil, hlength, hchars⟩ := hnamed cmd (List.mem_of_getElem? hentry)
  have hpos : cmd.text.length ≠ 0 := fun hzero => hnil (List.length_eq_zero_iff.mp hzero)
  have hwide : cmd.text.length % 2 ^ 16 = cmd.text.length := Nat.mod_eq_of_lt (by omega)
  have hnarrow : cmd.text.length % 2 ^ 8 = cmd.text.length := Nat.mod_eq_of_lt (by omega)
  have hname : 0 ∉ cmd.text := by
    intro hmem
    exact absurd (hchars 0 hmem) (by decide)
  have hmatch := command_word_iff hchars text
  rw [← strnicmp_eq_zero_iff hname] at hmatch
  rw [_find_cmd_loop, hentry]
  simp only [hwide, hnarrow, if_neg hpos, strnicmp_in_eq hnul hname]
  by_cases hsame : strnicmp text cmd.text cmd.text.length = 0
  · -- the compared characters hold no NUL, so the one behind them can be read
    have htake := (strnicmp_eq_zero_iff hname text).mp hsame
    have hfit : cmd.text.length ≤ text.length := by
      have hlen := congrArg List.length htake
      simp only [List.length_map, List.length_take] at hlen
      omega
    have hread := getElem?_terminated hfit
    have hdrop : (text ++ [0]).drop cmd.text.length = text.drop cmd.text.length ++ [0] :=
      List.drop_append_of_le_length hfit
    rw [if_pos hsame, hread, hdrop]
    by_cases hword : SameWord (command_word text) cmd.text
    · rw [if_pos hword]
      simp only [(hmatch.mpr hword).2, Bool.not_false, if_true, found_in]
    · have hstop : is_char ((text.drop cmd.text.length).headD 0) = true := by
        by_contra hstop
        exact hword (hmatch.mp ⟨hsame, by simpa using hstop⟩)
      rw [if_neg hword]
      simp only [hstop, Bool.not_true, Bool.false_eq_true, if_false]
  · have hword : ¬ SameWord (command_word text) cmd.text := fun hword => hsame (hmatch.mpr hword).1
    rw [if_neg hsame, if_neg hword]

/-- With an index for every entry and for the end of the table, the loop finds the
    first entry that has the word of the text. -/
theorem _find_cmd_loop_eq {table : List cmd_t} (hnamed : WellNamed table)
    (hshort : table.length < 2 ^ 16) {text : List UInt8} (hnul : 0 ∉ text) {fuel : Nat} {i : UInt16}
    (hi : i.toNat ≤ table.length) (hfuel : table.length < i.toNat + fuel) :
    _find_cmd_loop table (text ++ [0]) fuel i =
      some (found_in text
        ((table.drop i.toNat).find? fun cmd => SameWord (command_word text) cmd.text)) := by
  induction fuel generalizing i with
  | zero => omega
  | succ fuel ih =>
    cases hentry : table[i.toNat]? with
    | none =>
      have hend : i.toNat = table.length := by
        have hle := List.getElem?_eq_none_iff.mp hentry
        omega
      rw [_find_cmd_loop, hentry, hend, List.drop_length]
      exact if_pos rfl
    | some cmd =>
      obtain ⟨hlt, hget⟩ := List.getElem?_eq_some_iff.mp hentry
      have hnext : (i + 1).toNat = i.toNat + 1 := by
        rw [UInt16.toNat_add]
        change (i.toNat + 1) % 2 ^ 16 = i.toNat + 1
        omega
      have hrest := ih (i := i + 1) (by omega) (by omega)
      rw [_find_cmd_loop_step hnamed hnul fuel hentry, hrest, hnext, List.drop_eq_getElem_cons hlt, hget,
        List.find?_cons]
      by_cases hword : SameWord (command_word text) cmd.text
      · rw [if_pos hword, decide_eq_true hword]
      · rw [if_neg hword, decide_eq_false hword]

/-- The loop does on memory what the lookup does on texts. -/
theorem _find_cmd_loop_eq_find_cmd {table : List cmd_t} (hnamed : WellNamed table)
    (hshort : table.length < 2 ^ 16) {text : List UInt8} (hnul : 0 ∉ text) {fuel : Nat}
    (hfuel : table.length < fuel) :
    _find_cmd_loop table (text ++ [0]) fuel 0 =
      some (match _find_cmd table text with
        | none => (none, text ++ [0])
        | some (cmd, behind) => (some cmd, behind ++ [0])) := by
  have hfuel' : table.length < (0 : UInt16).toNat + fuel := by
    change table.length < 0 + fuel
    omega
  rw [_find_cmd_loop_eq hnamed hshort hnul (Nat.zero_le _) hfuel', _find_cmd_eq hnamed]
  change some (found_in text (table.find? _)) = _
  cases hfind : table.find? fun cmd => SameWord (command_word text) cmd.text with
  | none => rfl
  | some cmd =>
    have hword : SameWord (command_word text) cmd.text := by
      simpa using List.find?_some hfind
    rw [found_in, drop_of_sameWord hword]
    rfl

/-- In a table of different words, at most one entry has the word. -/
theorem find?_sameWord_iff {table : List cmd_t} (hdistinct : DistinctNames table) (word : List UInt8)
    (cmd : cmd_t) :
    (table.find? fun cmd => SameWord word cmd.text) = some cmd ↔ cmd ∈ table ∧ SameWord word cmd.text := by
  constructor
  · intro hfind
    exact ⟨List.mem_of_find?_eq_some hfind, by simpa using List.find?_some hfind⟩
  · rintro ⟨hmem, hword⟩
    cases hfind : table.find? fun cmd => SameWord word cmd.text with
    | none =>
      have hnone := List.find?_eq_none.mp hfind cmd hmem
      exact absurd hword (by simpa using hnone)
    | some other =>
      have hother : SameWord word other.text := by simpa using List.find?_some hfind
      have hsame : other.text.map fold_case = cmd.text.map fold_case := hother.symm.trans hword
      rw [List.inj_on_of_nodup_map hdistinct (List.mem_of_find?_eq_some hfind) hmem hsame]

theorem find?_sameWord_perm {table other : List cmd_t} (hdistinct : DistinctNames table)
    (hperm : other.Perm table) (word : List UInt8) :
    (other.find? fun cmd => SameWord word cmd.text) = table.find? fun cmd => SameWord word cmd.text := by
  have hother : DistinctNames other := (hperm.map _).nodup_iff.mpr hdistinct
  apply Option.ext
  intro cmd
  rw [find?_sameWord_iff hother, find?_sameWord_iff hdistinct, hperm.mem_iff]

/-- The lookup in a table that the index can run through: it ends inside the text,
    with the one entry that has the word of the text, in whatever order the
    entries stand. -/
theorem find_cmd_whole_word {table : List cmd_t} (hnamed : WellNamed table)
    (hdistinct : DistinctNames table) (hshort : table.length < 2 ^ 16) {text : List UInt8}
    (hnul : 0 ∉ text) {fuel : Nat} (hfuel : table.length < fuel) :
    ∃ found behind, _find_cmd_loop table (text ++ [0]) fuel 0 = some (found, behind ++ [0]) ∧
      (∀ cmd, found = some cmd ↔ cmd ∈ table ∧ SameWord (command_word text) cmd.text) ∧
      (∀ cmd, found = some cmd → behind = text.drop cmd.text.length) ∧
      (found = none → behind = text) ∧
      ∀ other : List cmd_t, other.Perm table →
        _find_cmd_loop other (text ++ [0]) fuel 0 = some (found, behind ++ [0]) := by
  have hloop : ∀ other : List cmd_t, other.Perm table → _find_cmd_loop other (text ++ [0]) fuel 0 =
      some (found_in text (table.find? fun cmd => SameWord (command_word text) cmd.text)) := by
    intro other hperm
    have hother : WellNamed other := fun cmd hcmd => hnamed cmd (hperm.subset hcmd)
    have hlength := hperm.length_eq
    have hfuel' : other.length < (0 : UInt16).toNat + fuel := by
      change other.length < 0 + fuel
      omega
    rw [_find_cmd_loop_eq hother (by omega) hnul (Nat.zero_le _) hfuel',
      ← find?_sameWord_perm hdistinct hperm]
    rfl
  have hiff := find?_sameWord_iff hdistinct (command_word text)
  cases hfind : table.find? fun cmd => SameWord (command_word text) cmd.text with
  | none =>
    simp only [hfind] at hloop hiff
    exact ⟨none, text, hloop table (List.Perm.refl _), hiff, (fun _ h => nomatch h), (fun _ => rfl), hloop⟩
  | some cmd =>
    simp only [hfind] at hloop hiff
    refine ⟨some cmd, text.drop cmd.text.length, hloop table (List.Perm.refl _), hiff, ?_,
      (fun h => nomatch h), hloop⟩
    intro other hother
    cases hother
    rfl

/-- The table of the commands, with the word of a longer text in lower case. -/
theorem find_cmd_whole_word_table :
    ∃ found behind,
      _find_cmd_loop _CMD_TABLE (ascii "clkdiv=8" ++ [0]) 13 0 = some (found, behind ++ [0]) ∧
      (∀ cmd, found = some cmd ↔
        cmd ∈ _CMD_TABLE ∧ SameWord (command_word (ascii "clkdiv=8")) cmd.text) ∧
      (∀ cmd, found = some cmd → behind = (ascii "clkdiv=8").drop cmd.text.length) ∧
      (found = none → behind = ascii "clkdiv=8") ∧
      ∀ other : List cmd_t, other.Perm _CMD_TABLE →
        _find_cmd_loop other (ascii "clkdiv=8" ++ [0]) 13 0 = some (found, behind ++ [0]) := by
  have hdistinct : DistinctNames _CMD_TABLE := by
    unfold DistinctNames
    decide
  exact find_cmd_whole_word table_wellNamed hdistinct (by decide) (by decide) (by decide)

/-- A name of 16 characters, different for each number below 65536. -/
def numbered (number : Nat) : cmd_t where
  text := (List.range 16).map fun bit => if number.testBit bit then '1'.toUInt8 else '0'.toUInt8
  pfunc := none
  pfunc_set := none
  help := []

def numbered_table : List cmd_t :=
  (List.range (2 ^ 16)).map numbered

theorem numbered_table_wellNamed : WellNamed numbered_table := by
  intro cmd hcmd
  obtain ⟨number, -, rfl⟩ := List.mem_map.mp hcmd
  have hlength : (numbered number).text.length = 16 := by simp [numbered]
  refine ⟨?_, by omega, ?_⟩
  · intro hnil
    rw [hnil] at hlength
    cases hlength
  · intro ch hch
    obtain ⟨bit, -, rfl⟩ := List.mem_map.mp hch
    split_ifs <;> decide

theorem numbered_table_distinctNames : DistinctNames numbered_table := by
  unfold DistinctNames numbered_table
  rw [List.map_map, List.nodup_map_iff_inj_on List.nodup_range]
  intro first hfirst second hsecond hsame
  have hbound := List.mem_range.mp hfirst
  have hbound' := List.mem_range.mp hsecond
  apply Nat.eq_of_testBit_eq
  intro bit
  by_cases hbit : bit < 16
  · have hdigit : ∀ left right : Bool, fold_case (if left then '1'.toUInt8 else '0'.toUInt8) =
        fold_case (if right then '1'.toUInt8 else '0'.toUInt8) → left = right := by decide
    have hchars := congrArg (·[bit]?) hsame
    simp only [Function.comp, numbered, List.map_map, List.getElem?_map,
      List.getElem?_range hbit, Option.map_some, Option.some.injEq] at hchars
    exact hdigit _ _ hchars
  · have hpow : 2 ^ 16 ≤ 2 ^ bit := Nat.pow_le_pow_right (by decide) (by omega)
    rw [Nat.testBit_lt_two_pow (by omega), Nat.testBit_lt_two_pow (by omega)]

/-- The 16-bit index never gets behind 65536 entries, so a text whose word is not
    among them has the loop run on for ever. -/
theorem find_cmd_runs_on :
    WellNamed numbered_table ∧ DistinctNames numbered_table ∧ 0 ∉ ascii "?" ∧
      (∀ cmd ∈ numbered_table, ¬ SameWord (command_word (ascii "?")) cmd.text) ∧
      ∀ fuel, _find_cmd_loop numbered_table (ascii "?" ++ [0]) fuel 0 = none := by
  have hlength : numbered_table.length = 2 ^ 16 := by simp [numbered_table]
  have hword : ∀ cmd ∈ numbered_table, ¬ SameWord (command_word (ascii "?")) cmd.text := by
    intro cmd hcmd hword
    have hempty := congrArg List.length hword
    rw [List.length_map, List.length_map] at hempty
    exact (numbered_table_wellNamed cmd hcmd).1 (List.length_eq_zero_iff.mp hempty.symm)
  have hnul : 0 ∉ ascii "?" := by decide
  refine ⟨numbered_table_wellNamed, numbered_table_distinctNames, hnul, hword, ?_⟩
  intro fuel
  generalize (0 : UInt16) = i
  induction fuel generalizing i with
  | zero => rfl
  | succ fuel ih =>
    have hi : i.toNat < numbered_table.length := by
      rw [hlength]
      exact i.toNat_lt
    have hentry := List.getElem?_eq_getElem hi
    rw [_find_cmd_loop_step numbered_table_wellNamed hnul fuel hentry,
      if_neg (hword _ (List.getElem_mem hi))]
    exact ih (i + 1)

end keychain.cmd
