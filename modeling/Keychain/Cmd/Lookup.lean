import Keychain.Cmd.Process
import Mathlib.Data.List.TakeWhile

namespace keychain.cmd

/-- The lower-case form of an upper-case letter; other characters stay. -/
def fold_case (ch : UInt8) : UInt8 :=
  if upper ch then ch + 32 else ch

/-- Two texts are equal but for the case of ASCII letters. -/
def SameWord (first second : List UInt8) : Prop :=
  first.map fold_case = second.map fold_case

instance (first second : List UInt8) : Decidable (SameWord first second) :=
  inferInstanceAs (Decidable (_ = _))

/-- The word that a text starts with. -/
def command_word (text : List UInt8) : List UInt8 :=
  text.takeWhile is_char

theorem upper_iff (ch : UInt8) : upper ch = true ↔ 65 ≤ ch.toNat ∧ ch.toNat ≤ 90 := by
  rw [upper, Bool.and_eq_true, decide_eq_true_iff, decide_eq_true_iff, UInt8.le_iff_toNat_le,
    UInt8.le_iff_toNat_le]
  exact Iff.rfl

theorem fold_case_toNat (ch : UInt8) :
    (fold_case ch).toNat = if 65 ≤ ch.toNat ∧ ch.toNat ≤ 90 then ch.toNat + 32 else ch.toNat := by
  unfold fold_case
  by_cases hupper : upper ch = true
  · have hrange := (upper_iff ch).mp hupper
    rw [if_pos hupper, if_pos hrange, UInt8.toNat_add]
    change (ch.toNat + 32) % 256 = ch.toNat + 32
    omega
  · rw [if_neg hupper, if_neg (fun hrange => hupper ((upper_iff ch).mpr hrange))]

/-- The three ways in which `strnicmp` takes two characters for equal. -/
theorem fold_case_eq_iff (a b : UInt8) :
    fold_case a = fold_case b ↔
      a = b ∨ (upper a = true ∧ a.toNat + 32 = b.toNat) ∨ (upper b = true ∧ b.toNat + 32 = a.toNat) := by
  rw [← UInt8.toNat_inj, ← UInt8.toNat_inj, fold_case_toNat, fold_case_toNat, upper_iff, upper_iff]
  split_ifs <;> omega

theorem is_char_iff (ch : UInt8) :
    is_char ch = true ↔ (97 ≤ ch.toNat ∧ ch.toNat ≤ 122) ∨ (65 ≤ ch.toNat ∧ ch.toNat ≤ 90) ∨
      (48 ≤ ch.toNat ∧ ch.toNat ≤ 57) ∨ ch.toNat = 42 ∨ ch.toNat = 35 := by
  simp only [is_char, Bool.or_eq_true, Bool.and_eq_true, decide_eq_true_iff, upper_iff,
    UInt8.le_iff_toNat_le, ← UInt8.toNat_inj, or_assoc]
  exact Iff.rfl

theorem is_char_fold_case (ch : UInt8) : is_char (fold_case ch) = is_char ch := by
  rw [Bool.eq_iff_iff, is_char_iff, is_char_iff, fold_case_toNat]
  split_ifs <;> omega

theorem strnicmp_cons (a b : UInt8) (str1 str2 : List UInt8) (len : Nat) :
    strnicmp (a :: str1) (b :: str2) (len + 1) =
      if a = b then if a = 0 then 0 else strnicmp str1 str2 len
      else if upper a ∧ a.toNat + 32 = b.toNat then strnicmp str1 str2 len
      else if upper b ∧ b.toNat + 32 = a.toNat then strnicmp str1 str2 len
      else a - b :=
  rfl

theorem sub_ne_zero_of_ne {a b : UInt8} (h : a ≠ b) : a - b ≠ 0 := by
  intro hzero
  rw [UInt8.sub_eq_iff_eq_add, UInt8.zero_add] at hzero
  exact h hzero

/-- A text that ends is shorter than any name. -/
theorem strnicmp_nil_ne_zero {b : UInt8} (hb : b ≠ 0) (name : List UInt8) (len : Nat) :
    strnicmp [] (b :: name) (len + 1) ≠ 0 := by
  have hcons : strnicmp [] (b :: name) (len + 1) = strnicmp [0] (b :: name) (len + 1) := rfl
  have hlow : b.toNat + 32 ≠ (0 : UInt8).toNat := by
    change b.toNat + 32 ≠ 0
    omega
  have hupper : ¬ (upper 0 = true ∧ (0 : UInt8).toNat + 32 = b.toNat) := by
    rintro ⟨hzero, -⟩
    exact absurd hzero (by decide)
  rw [hcons, strnicmp_cons, if_neg hb.symm, if_neg hupper, if_neg (fun h => hlow h.2)]
  exact sub_ne_zero_of_ne hb.symm

/-- A NUL ends no name, so the comparison runs over the whole name. -/
theorem strnicmp_eq_zero_iff {name : List UInt8} (hnul : 0 ∉ name) (text : List UInt8) :
    strnicmp text name name.length = 0 ↔ SameWord (text.take name.length) name := by
  induction name generalizing text with
  | nil => exact iff_of_true rfl rfl
  | cons b name ih =>
    rw [List.mem_cons, not_or] at hnul
    obtain ⟨hb, hname⟩ := hnul
    cases text with
    | nil => exact iff_of_false (strnicmp_nil_ne_zero (Ne.symm hb) name _) (by simp [SameWord])
    | cons a text =>
      have hhead := fold_case_eq_iff a b
      have htail := ih hname text
      have hword : SameWord ((a :: text).take (b :: name).length) (b :: name) ↔
          fold_case a = fold_case b ∧ SameWord (text.take name.length) name := by
        simp [SameWord]
      rw [hword, List.length_cons, strnicmp_cons, ← htail]
      by_cases heq : a = b
      · have ha : a ≠ 0 := fun hzero => hb (by rw [← heq, hzero])
        rw [if_pos heq, if_neg ha]
        exact (and_iff_right (hhead.mpr (.inl heq))).symm
      · rw [if_neg heq]
        by_cases hfirst : upper a = true ∧ a.toNat + 32 = b.toNat
        · rw [if_pos hfirst]
          exact (and_iff_right (hhead.mpr (.inr (.inl hfirst)))).symm
        · rw [if_neg hfirst]
          by_cases hsecond : upper b = true ∧ b.toNat + 32 = a.toNat
          · rw [if_pos hsecond]
            exact (and_iff_right (hhead.mpr (.inr (.inr hsecond)))).symm
          · rw [if_neg hsecond]
            refine iff_of_false (sub_ne_zero_of_ne heq) ?_
            rintro ⟨hfold, -⟩
            obtain hsame | hlower | hraise := hhead.mp hfold
            · exact heq hsame
            · exact hfirst hlower
            · exact hsecond hraise

/-- A table as the lookup needs it: names of command characters whose lengths the
    narrow types of the comparison can hold. -/
def WellNamed (table : List cmd_t) : Prop :=
  ∀ cmd ∈ table, cmd.text ≠ [] ∧ cmd.text.length ≤ 255 ∧ ∀ ch ∈ cmd.text, is_char ch = true

theorem table_wellNamed : WellNamed _CMD_TABLE := by
  have htable : ∀ cmd ∈ _CMD_TABLE, cmd.text ≠ [] ∧ cmd.text.length ≤ 255 ∧
      cmd.text.all is_char = true := by decide
  intro cmd hcmd
  obtain ⟨hnil, hlength, hchars⟩ := htable cmd hcmd
  exact ⟨hnil, hlength, List.all_eq_true.mp hchars⟩

theorem take_of_sameWord {text name : List UInt8} (h : SameWord (command_word text) name) :
    text.take name.length = command_word text := by
  have hlength : (command_word text).length = name.length := by
    simpa using congrArg List.length h
  rw [← hlength]
  exact (List.prefix_iff_eq_take.mp (List.takeWhile_prefix _)).symm

/-- What is left behind a name is what is left behind the word. -/
theorem drop_of_sameWord {text name : List UInt8} (h : SameWord (command_word text) name) :
    text.drop name.length = text.dropWhile is_char := by
  have hsplit := List.take_append_drop name.length text
  rw [take_of_sameWord h] at hsplit
  exact List.append_cancel_left (hsplit.trans List.takeWhile_append_dropWhile.symm)

/-- A text starts with a name of command characters, and with no more of them,
    if its word is that name. -/
theorem command_word_iff {name : List UInt8} (hname : ∀ ch ∈ name, is_char ch = true)
    (text : List UInt8) :
    SameWord (text.take name.length) name ∧ is_char ((text.drop name.length).headD 0) = false ↔
      SameWord (command_word text) name := by
  have hchars : ∀ word, SameWord word name → ∀ ch ∈ word, is_char ch = true := by
    intro word hword ch hch
    have hfold : fold_case ch ∈ name.map fold_case := hword ▸ List.mem_map_of_mem hch
    obtain ⟨other, hother, heq⟩ := List.mem_map.mp hfold
    rw [← is_char_fold_case, ← heq, is_char_fold_case]
    exact hname other hother
  constructor
  · rintro ⟨hword, hstop⟩
    have hrest : (text.drop name.length).takeWhile is_char = [] := by
      cases hdrop : text.drop name.length with
      | nil => rfl
      | cons ch rest =>
        rw [hdrop, List.headD_cons] at hstop
        exact List.takeWhile_cons_of_neg (by simp [hstop])
    have hsplit : command_word text = text.take name.length := by
      conv_lhs => rw [command_word, ← List.take_append_drop name.length text]
      rw [List.takeWhile_append_of_pos (hchars _ hword), hrest, List.append_nil]
    rw [hsplit]
    exact hword
  · intro hword
    refine ⟨take_of_sameWord hword ▸ hword, ?_⟩
    rw [drop_of_sameWord hword]
    cases hrest : text.dropWhile is_char with
    | nil => decide
    | cons ch rest =>
      have hhead := List.head?_dropWhile_not is_char text
      rw [hrest] at hhead
      simpa using hhead

/-- The lookup finds the first entry whose name is the word of the text, and
    moves the text behind it. -/
theorem _find_cmd_eq {table : List cmd_t} (hnamed : WellNamed table) (text : List UInt8) :
    _find_cmd table text =
      (table.find? fun cmd => SameWord (command_word text) cmd.text).map
        fun cmd => (cmd, text.dropWhile is_char) := by
  induction table with
  | nil => rfl
  | cons cmd table ih =>
    obtain ⟨hnil, hlength, hchars⟩ := hnamed cmd List.mem_cons_self
    have hrest := ih fun other hother => hnamed other (List.mem_cons_of_mem _ hother)
    have hpos : cmd.text.length ≠ 0 := fun hzero => hnil (List.length_eq_zero_iff.mp hzero)
    have hwide : cmd.text.length % 2 ^ 16 = cmd.text.length := Nat.mod_eq_of_lt (by omega)
    have hnarrow : cmd.text.length % 2 ^ 8 = cmd.text.length := Nat.mod_eq_of_lt (by omega)
    have hnul : 0 ∉ cmd.text := by
      intro hmem
      exact absurd (hchars 0 hmem) (by decide)
    have hmatch := command_word_iff hchars text
    rw [← strnicmp_eq_zero_iff hnul] at hmatch
    rw [_find_cmd, hwide, if_neg hpos, hnarrow, hrest, List.find?_cons]
    by_cases hword : SameWord (command_word text) cmd.text
    · obtain ⟨hsame, hstop⟩ := hmatch.mpr hword
      rw [if_pos ⟨hsame, by rw [hstop]; rfl⟩, decide_eq_true hword, drop_of_sameWord hword]
      rfl
    · rw [if_neg, decide_eq_false hword]
      rintro ⟨hsame, hstop⟩
      exact hword (hmatch.mp ⟨hsame, by simpa using hstop⟩)

end keychain.cmd
