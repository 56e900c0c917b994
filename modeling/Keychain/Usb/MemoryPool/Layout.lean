import Keychain.Usb.MemoryPool

namespace keychain.usb

open freelist

theorem add32_eq {a b : Nat} (h : a + b < 2 ^ 32) : add32 a b = a + b := by
  rw [add32, Nat.mod_eq_of_lt h]

theorem sub32_eq {a b : Nat} (hle : b ≤ a) (h : a < 2 ^ 32) : sub32 a b = a - b := by
  unfold sub32
  omega

/-- Clearing the low bits rounds down. -/
theorem clear32_eq {a : Nat} (k : Nat) (h : a < 2 ^ 32) (hk : k ≤ 32) :
    clear32 a (2 ^ k - 1) = a / 2 ^ k * 2 ^ k := by
  apply Nat.eq_of_testBit_eq
  intro i
  rw [clear32, Nat.testBit_and, Nat.testBit_xor, Nat.testBit_two_pow_sub_one,
    Nat.testBit_two_pow_sub_one, Nat.testBit_mul_two_pow, Nat.testBit_div_two_pow]
  by_cases hlow : i < k
  · have hi : i < 32 := by omega
    simp [hlow, hi]
  · by_cases hi : i < 32
    · have hback : i - k + k = i := by omega
      simp [hlow, hi, hback, Nat.not_lt.mp hlow]
    · have hback : i - k + k = i := by omega
      have hbit : a.testBit i = false := by
        refine Nat.testBit_lt_two_pow (Nat.lt_of_lt_of_le h ?_)
        exact Nat.pow_le_pow_right (by omega) (Nat.not_lt.mp hi)
      simp [hbit, hback]

/-- The first word of a block is the address of the next block, the second one says whether the
    block is free. -/
structure Header (memory : Nat → Nat) (pool_ptr a : Nat) (b : Block) : Prop where
  aligned : 8 ∣ a
  len : UX_MEMORY_BLOCK_HEADER_SIZE ≤ b.len
  link : memory a = a + b.len
  status : memory (a + 4) = if b.free then UX_BYTE_BLOCK_FREE else pool_ptr

def Laid (memory : Nat → Nat) (pool_ptr : Nat) : Nat → List Block → Prop
  | _, [] => True
  | a, b :: rest => Header memory pool_ptr a b ∧ Laid memory pool_ptr (a + b.len) rest

section

variable {memory after : Nat → Nat} {pool_ptr a : Nat} {blocks first second : List Block}

theorem laid_append :
    Laid memory pool_ptr a (first ++ second) ↔
      Laid memory pool_ptr a first ∧ Laid memory pool_ptr (a + total first) second := by
  induction first generalizing a with
  | nil => exact (true_and _).symm.to_iff
  | cons b first ih => rw [List.cons_append, Laid, Laid, ih, total_cons, Nat.add_assoc, and_assoc]

/-- Only the words within the blocks matter. -/
theorem Laid.congr (h : Laid memory pool_ptr a blocks)
    (hsame : ∀ x, a ≤ x → x < a + total blocks → after x = memory x) :
    Laid after pool_ptr a blocks := by
  induction blocks generalizing a with
  | nil => trivial
  | cons b rest ih =>
    obtain ⟨⟨haligned, hlen, hlink, hstatus⟩, hrest⟩ := h
    rw [total_cons] at hsame
    have hheader : 8 ≤ b.len := hlen
    refine ⟨⟨haligned, hlen, ?_, ?_⟩, ih hrest fun x hlow hhigh => hsame x (by omega) (by omega)⟩
    · rw [hsame a (by omega) (by omega), hlink]
    · rw [hsame (a + 4) (by omega) (by omega), hstatus]

/-- A block is as long as its header at least. -/
theorem Laid.length_le (h : Laid memory pool_ptr a blocks) : 8 * blocks.length ≤ total blocks := by
  induction blocks generalizing a with
  | nil => exact Nat.le_refl 0
  | cons b rest ih =>
    have hheader : 8 ≤ b.len := h.1.len
    have hrest := ih h.2
    rw [List.length_cons, total_cons]
    omega

end

/-- The memory of the pool is cut into these blocks. A block without memory, always in use,
    ends the pool, and leads back to the start. -/
structure Heap.Holds (heap : Heap) (blocks : List Block) : Prop where
  laid : Laid heap.memory heap.pool_ptr heap.pool.start blocks
  last_link : heap.memory (heap.pool.start + total blocks) = heap.pool.start
  last_status : heap.memory (heap.pool.start + total blocks + 4) = heap.pool_ptr
  size : heap.pool.size = total blocks + UX_MEMORY_BLOCK_HEADER_SIZE
  available : heap.pool.available = available blocks
  fragments : heap.pool.fragments = blocks.length + 1
  search : ∃ before after, blocks = before ++ after ∧ (∀ b ∈ before, b.free = false) ∧
    heap.pool.search = heap.pool.start + total before
  nonempty : blocks ≠ []
  pool_ptr_pos : 0 < heap.pool_ptr
  pool_ptr_lt : heap.pool_ptr < UX_BYTE_BLOCK_FREE
  below : heap.pool.start + heap.pool.size ≤ UX_BYTE_BLOCK_FREE
  short : heap.pool.size ≤ 2 ^ 31

/-- Neither where the pool is nor what is in these blocks has changed. -/
structure Heap.Keeps (heap later : Heap) (entries : List (Nat × Nat)) : Prop where
  start : later.pool.start = heap.pool.start
  size : later.pool.size = heap.pool.size
  pool_ptr : later.pool_ptr = heap.pool_ptr
  words : ∀ entry ∈ entries, ∀ x, entry.1 ≤ x → x < entry.1 + entry.2 → later.memory x = heap.memory x

namespace Heap

variable {heap middle later : Heap} {entries : List (Nat × Nat)}

theorem Keeps.refl (heap : Heap) (entries : List (Nat × Nat)) : heap.Keeps heap entries :=
  ⟨rfl, rfl, rfl, fun _ _ _ _ _ => rfl⟩

theorem Keeps.trans (h : heap.Keeps middle entries) (h' : middle.Keeps later entries) :
    heap.Keeps later entries where
  start := h'.start.trans h.start
  size := h'.size.trans h.size
  pool_ptr := h'.pool_ptr.trans h.pool_ptr
  words := fun entry hentry x hlow hhigh =>
    (h'.words entry hentry x hlow hhigh).trans (h.words entry hentry x hlow hhigh)

/-- Blocks that are not in use are apart from those that are. -/
theorem apart_of_free {before free after : List Block} {a : Nat}
    (hfree : used (a + total before) free = []) {entry : Nat × Nat}
    (hentry : entry ∈ used a (before ++ (free ++ after))) :
    entry.1 + entry.2 ≤ a + total before ∨ a + total before + total free ≤ entry.1 := by
  rw [used_append, used_append, hfree, List.nil_append, List.mem_append] at hentry
  obtain hbefore | hafter := hentry
  · exact .inl (mem_used hbefore).2
  · exact .inr (mem_used hafter).1

/-- What is written into free blocks changes no block in use. -/
theorem keeps_of_outside {before free after : List Block}
    (hfree : used (heap.pool.start + total before) free = [])
    (houtside : ∀ x, x < heap.pool.start + total before ∨
      heap.pool.start + total before + total free ≤ x → later.memory x = heap.memory x)
    (hstart : later.pool.start = heap.pool.start) (hsize : later.pool.size = heap.pool.size)
    (hself : later.pool_ptr = heap.pool_ptr) :
    heap.Keeps later (used heap.pool.start (before ++ (free ++ after))) := by
  refine ⟨hstart, hsize, hself, fun entry hentry x hlow hhigh => houtside x ?_⟩
  have hapart := apart_of_free hfree hentry
  omega

end Heap

namespace Heap.Holds

variable {heap later : Heap} {before after : List Block}

/-- Every address of a block, and that of the end, is far from where addresses wrap. -/
theorem address (h : heap.Holds (before ++ after)) :
    heap.pool.start + total before + 8 ≤ UX_BYTE_BLOCK_FREE := by
  have hbelow := h.below
  rw [h.size, total_append] at hbelow
  exact Nat.le_trans (by rw [UX_MEMORY_BLOCK_HEADER_SIZE]; omega) hbelow

theorem status_address (h : heap.Holds (before ++ after)) :
    add32 (heap.pool.start + total before) 4 = heap.pool.start + total before + 4 :=
  add32_eq (Nat.lt_of_lt_of_le (Nat.add_lt_add_left (by decide) _)
    (Nat.le_trans h.address (by decide)))

/-- A block leads to the next one. -/
theorem link {b : Block} (h : heap.Holds (before ++ b :: after)) :
    heap.memory (heap.pool.start + total before) = heap.pool.start + total (before ++ [b]) :=
  (laid_append.mp h.laid).2.1.link.trans (add_total_snoc _ _ _).symm

/-- The end leads to the start. -/
theorem link_nil (h : heap.Holds (before ++ [])) :
    heap.memory (heap.pool.start + total before) = heap.pool.start := by
  have hlast := h.last_link
  rwa [List.append_nil] at hlast

theorem status (h : heap.Holds (before ++ after)) :
    heap.memory (add32 (heap.pool.start + total before) 4) = UX_BYTE_BLOCK_FREE ↔
      after.head?.any Block.free = true := by
  have hself := h.pool_ptr_lt
  rw [h.status_address]
  cases after with
  | nil =>
    have hlast := h.last_status
    rw [total_append, total_nil] at hlast
    refine (congrArg (· = UX_BYTE_BLOCK_FREE) hlast).to_iff.trans ?_
    exact iff_of_false (Nat.ne_of_lt hself) Bool.false_ne_true
  | cons b rest =>
    rw [(laid_append.mp h.laid).2.1.status, List.head?_cons, Option.any_some]
    cases b.free with
    | true => exact iff_of_true rfl rfl
    | false => exact iff_of_false (Nat.ne_of_lt hself) Bool.false_ne_true

theorem block_end {b : Block} (h : heap.Holds (before ++ b :: after)) :
    heap.pool.start + total before + b.len + 8 < 2 ^ 32 := by
  rw [← add_total_snoc]
  exact Nat.lt_of_le_of_lt (address (List.append_cons _ _ _ ▸ h)) (by decide)

/-- What the code takes for the length of a block without its header. -/
theorem bytes {b : Block} (h : heap.Holds (before ++ b :: after)) :
    sub32 (sub32 (heap.memory (heap.pool.start + total before)) (heap.pool.start + total before))
      UX_MEMORY_BLOCK_HEADER_SIZE = b.len - 8 := by
  have hlen : 8 ≤ b.len := (laid_append.mp h.laid).2.1.len
  have hend := h.block_end
  rw [h.link, add_total_snoc, sub32_eq (Nat.le_add_right _ _) (by omega), Nat.add_sub_cancel_left,
    UX_MEMORY_BLOCK_HEADER_SIZE, sub32_eq hlen (by omega)]

theorem fragments_range {blocks : List Block} (h : heap.Holds blocks) :
    1 < heap.pool.fragments ∧ heap.pool.fragments < 2 ^ 32 := by
  have hbound := h.laid.length_le
  have hshort := h.short
  have hpositive := List.length_pos_iff.mpr h.nonempty
  rw [h.size] at hshort
  rw [h.fragments]
  omega

/-- Some blocks are laid out anew in their place. -/
theorem edit (old new : List Block) (h : heap.Holds (before ++ (old ++ after))) {entries : List (Nat × Nat)}
    (hkeeps : heap.Keeps later entries)
    (houtside : ∀ x, x < heap.pool.start + total before ∨ heap.pool.start + total before + total old ≤ x →
      later.memory x = heap.memory x)
    (hlaid : Laid later.memory heap.pool_ptr (heap.pool.start + total before) new)
    (htotal : total new = total old) (hnonempty : new ≠ [])
    (havailable : later.pool.available + freelist.available old =
      heap.pool.available + freelist.available new)
    (hfragments : later.pool.fragments + old.length = heap.pool.fragments + new.length)
    (hsearch : ∃ first second, before ++ (new ++ after) = first ++ second ∧
      (∀ b ∈ first, b.free = false) ∧ later.pool.search = heap.pool.start + total first) :
    later.Holds (before ++ (new ++ after)) := by
  obtain ⟨hbefore, holdAfter⟩ := laid_append.mp h.laid
  have hafter := (laid_append.mp holdAfter).2
  have hend : total (before ++ (new ++ after)) = total (before ++ (old ++ after)) := by
    simp only [total_append, htotal]
  have hlast : ∀ x, heap.pool.start + total (before ++ (old ++ after)) ≤ x →
      later.memory x = heap.memory x := by
    intro x hx
    rw [total_append, total_append] at hx
    exact houtside x (.inr (by omega))
  constructor
  · rw [hkeeps.start, hkeeps.pool_ptr]
    refine laid_append.mpr ⟨?_, laid_append.mpr ⟨hlaid, ?_⟩⟩
    · exact hbefore.congr fun x _ hhigh => houtside x (.inl hhigh)
    · rw [htotal]
      exact hafter.congr fun x hlow _ => houtside x (.inr hlow)
  · rw [hkeeps.start, hend, hlast _ (Nat.le_refl _), h.last_link]
  · rw [hkeeps.start, hend, hkeeps.pool_ptr, hlast _ (Nat.le_add_right _ 4), h.last_status]
  · rw [hkeeps.size, hend, h.size]
  · have hsum := h.available
    rw [available_append, available_append] at hsum ⊢
    omega
  · have hcount := h.fragments
    simp only [List.length_append] at hcount ⊢
    omega
  · rw [hkeeps.start]
    exact hsearch
  · simp [hnonempty]
  · exact hkeeps.pool_ptr ▸ h.pool_ptr_pos
  · exact hkeeps.pool_ptr ▸ h.pool_ptr_lt
  · rw [hkeeps.start, hkeeps.size]
    exact h.below
  · exact hkeeps.size ▸ h.short

end Heap.Holds

end keychain.usb
