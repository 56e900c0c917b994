import Mathlib.Data.List.TakeWhile
import Mathlib.Data.Vector.Basic

namespace keychain.tty

def TTY_BUF_SIZE : Nat := 1024

structure tty_buf_t where
  data : Vector UInt8 TTY_BUF_SIZE
  len : Nat

/-- `buf->data[index] = ch`. There is no result for a store outside the array. -/
def tty_buf_t.store (buf : tty_buf_t) (index : Nat) (ch : UInt8) : Option tty_buf_t :=
  if h : index < TTY_BUF_SIZE then some { buf with data := buf.data.set index ch } else none

/-- The string that starts at `data`. There is none if no NUL ends it inside
    the array. -/
def tty_buf_t.text (buf : tty_buf_t) : Option (List UInt8) :=
  if 0 ∈ buf.data.toList then some (buf.data.toList.takeWhile (· != 0)) else none

/-- One character for the line buffer, and the strings it makes the function
    pass to `_rx_callback`. There is no result if the call leaves `data`. -/
def _rx_feed (buf : tty_buf_t) (ch : UInt8) : Option (tty_buf_t × List (List UInt8)) := do
  let ch := if ch = '\r'.toUInt8 ∨ ch = '\n'.toUInt8 then 0 else ch
  let buf ← buf.store buf.len ch
  if ch = 0x08 then
    some (if buf.len > 0 then { buf with len := buf.len - 1 } else buf, [])
  else if ch = 0 then
    if buf.len > 0 then
      let text ← buf.text
      some ({ buf with len := 0 }, [text])
    else
      some (buf, [])
  else if buf.len < TTY_BUF_SIZE - 1 then
    some ({ buf with len := buf.len + 1 }, [])
  else
    some (buf, [])

/-- The reference editor keeps a list of at most `TTY_BUF_SIZE - 1` characters.
    It puts out the lines that one character completes. -/
def edit (kept : List UInt8) (ch : UInt8) : List UInt8 × List (List UInt8) :=
  if ch = '\r'.toUInt8 ∨ ch = '\n'.toUInt8 ∨ ch = 0 then
    ([], if kept = [] then [] else [kept])
  else if ch = 0x08 then
    (kept.dropLast, [])
  else if kept.length < TTY_BUF_SIZE - 1 then
    (kept ++ [ch], [])
  else
    (kept, [])

/-- The line buffer stores the kept characters at its front, none of them NUL. -/
structure tty_buf_t.Holds (buf : tty_buf_t) (kept : List UInt8) : Prop where
  len_eq : buf.len = kept.length
  len_le : kept.length ≤ TTY_BUF_SIZE - 1
  front : buf.data.toList.take kept.length = kept
  no_nul : (0 : UInt8) ∉ kept

theorem tty_buf_t.holds_empty (data : Vector UInt8 TTY_BUF_SIZE) :
    (⟨data, 0⟩ : tty_buf_t).Holds [] :=
  ⟨rfl, by simp, by simp, by simp⟩

/-- The store that opens every call lands right behind the kept characters, so
    it stays inside the array and changes none of them. -/
theorem tty_buf_t.Holds.store_spec {buf : tty_buf_t} {kept : List UInt8} (h : buf.Holds kept)
    (ch : UInt8) :
    ∃ stored, buf.store buf.len ch = some stored ∧ stored.Holds kept ∧
      stored.data.toList.take (kept.length + 1) = kept ++ [ch] := by
  have hlt : buf.len < TTY_BUF_SIZE := by
    have hle := h.len_le
    rw [h.len_eq]
    simp only [TTY_BUF_SIZE] at hle ⊢
    omega
  have hsize : kept.length < buf.data.toList.length := by
    rw [Vector.length_toList, ← h.len_eq]
    exact hlt
  refine ⟨{ buf with data := buf.data.set buf.len ch }, by simp [tty_buf_t.store, hlt], ?_, ?_⟩
  · refine ⟨h.len_eq, h.len_le, ?_, h.no_nul⟩
    rw [Vector.toList_set, h.len_eq, List.take_set_of_le (Nat.le_refl _), h.front]
  · rw [Vector.toList_set, h.len_eq, List.take_add_one, List.take_set_of_le (Nat.le_refl _), h.front,
      List.getElem?_set_self hsize]
    rfl

/-- Once a NUL stands behind the kept characters, they are the string that the
    callback is given. -/
theorem tty_buf_t.text_eq {buf : tty_buf_t} {kept : List UInt8} (hnul : (0 : UInt8) ∉ kept)
    (h : buf.data.toList.take (kept.length + 1) = kept ++ [0]) : buf.text = some kept := by
  have hsplit : buf.data.toList = kept ++ 0 :: buf.data.toList.drop (kept.length + 1) := by
    conv_lhs => rw [← List.take_append_drop (kept.length + 1) buf.data.toList, h]
    simp
  have hall : ∀ c ∈ kept, (c != 0) = true := by
    intro c hc
    have : c ≠ 0 := fun heq => hnul (heq ▸ hc)
    simpa using this
  rw [tty_buf_t.text, hsplit, if_pos (by simp), List.takeWhile_append_of_pos hall]
  simp

/-- Dropping the last kept character is what moving `len` back does. -/
theorem tty_buf_t.Holds.backspace {buf : tty_buf_t} {kept : List UInt8} (h : buf.Holds kept) :
    (if buf.len > 0 then { buf with len := buf.len - 1 } else buf : tty_buf_t).Holds
      kept.dropLast := by
  have hlen := h.len_eq
  split_ifs with hpos
  · refine ⟨by simp [hlen], by have := h.len_le; simp only [List.length_dropLast]; omega, ?_, ?_⟩
    · have hfront := congrArg (List.take (kept.length - 1)) h.front
      rw [List.take_take, Nat.min_eq_left (Nat.sub_le _ _)] at hfront
      rw [List.length_dropLast, hfront, List.dropLast_eq_take]
    · exact fun hmem => h.no_nul (List.dropLast_subset kept hmem)
  · have hnil : kept = [] := by
      rw [← List.length_eq_zero_iff]
      omega
    subst hnil
    exact h

/-- One character acts on the line buffer as on the reference editor: no store
    leaves the array and the delivered strings are the same. -/
theorem _rx_feed_spec {buf : tty_buf_t} {kept : List UInt8} (h : buf.Holds kept) (ch : UInt8) :
    ∃ next, _rx_feed buf ch = some (next, (edit kept ch).2) ∧ next.Holds (edit kept ch).1 := by
  by_cases hend : ch = '\r'.toUInt8 ∨ ch = '\n'.toUInt8 ∨ ch = 0
  · -- A terminator is stored as NUL; it delivers the line unless that is empty.
    have hch : (if ch = '\r'.toUInt8 ∨ ch = '\n'.toUInt8 then 0 else ch) = 0 := by
      split_ifs with hnl
      · rfl
      · tauto
    obtain ⟨stored, hstore, hstored, hfront⟩ := h.store_spec 0
    have htext := tty_buf_t.text_eq hstored.no_nul hfront
    have hlen := hstored.len_eq
    simp only [_rx_feed, hch, hstore, Option.bind_eq_bind, Option.bind_some, edit, if_pos hend]
    by_cases hkept : kept = []
    · subst hkept
      simp only [List.length_nil] at hlen
      exact ⟨stored, by simp [hlen], hstored⟩
    · have hpos : stored.len > 0 := by
        rw [hlen]
        exact List.length_pos_iff.mpr hkept
      exact ⟨{ stored with len := 0 }, by simp [hpos, htext, hkept], tty_buf_t.holds_empty _⟩
  · have hch : (if ch = '\r'.toUInt8 ∨ ch = '\n'.toUInt8 then 0 else ch) = ch := by
      rw [if_neg]
      tauto
    have hne : ch ≠ 0 := by tauto
    obtain ⟨stored, hstore, hstored, hfront⟩ := h.store_spec ch
    have hlen := hstored.len_eq
    simp only [_rx_feed, hch, hstore, Option.bind_eq_bind, Option.bind_some, edit, if_neg hend]
    by_cases hback : ch = 0x08
    · rw [if_pos hback, if_pos hback]
      exact ⟨_, rfl, hstored.backspace⟩
    · rw [if_neg hback, if_neg hback, if_neg hne]
      by_cases hroom : kept.length < TTY_BUF_SIZE - 1
      · rw [if_pos hroom, if_pos (by rw [hlen]; exact hroom)]
        refine ⟨_, rfl, by simp [hlen], by simp only [List.length_append, List.length_singleton]; omega,
          by simpa using hfront, ?_⟩
        simpa using ⟨h.no_nul, hne.symm⟩
      · rw [if_neg hroom, if_neg (by rw [hlen]; exact hroom)]
        exact ⟨stored, rfl, hstored⟩

end keychain.tty
