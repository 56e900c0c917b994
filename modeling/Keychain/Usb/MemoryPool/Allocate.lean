import Keychain.Usb.MemoryPool.Search

namespace keychain.usb

open freelist

/-- Rounding the address of the memory up, with room for another header in front of it. -/
theorem round_up {unit a : Nat} (hpositive : 0 < unit) (hunit : 8 ∣ unit)
    (ha : 8 ∣ a) : (a + 8 + (unit - 1)) / unit * unit = a + (unit - a % unit) := by
  have hdiv := Nat.div_add_mod a unit
  have hlt := Nat.mod_lt a hpositive
  have hrest : (a % unit + 7) / unit = 0 := by
    apply Nat.div_eq_of_lt
    obtain ⟨i, hi⟩ := (Nat.dvd_mod_iff hunit).mpr ha
    obtain ⟨j, hj⟩ := hunit
    omega
  have hsum : a + 8 + (unit - 1) = unit * (a / unit + 1) + (a % unit + 7) := by
    rw [Nat.mul_add]
    omega
  rw [hsum, Nat.mul_add_div hpositive, hrest, Nat.add_zero, Nat.mul_comm, Nat.mul_add]
  omega

namespace Heap

variable {heap : Heap} {before after rest : List Block} {b : Block}

/-- The heap with the block at `a` in use, and its memory cleared. -/
def occupied (heap : Heap) (a len : Nat) : Heap :=
  { heap with
    memory := fun x =>
      if a + 8 ≤ x ∧ x < a + len then 0 else Function.update heap.memory (a + 4) heap.pool_ptr x
    pool :=
      { heap.pool with
        available := heap.pool.available - len
        search := if a = heap.pool.search then a + len else heap.pool.search } }

namespace Holds

theorem split_block (h : heap.Holds (before ++ b :: rest)) (hb : b.free = true) {gap : Nat}
    (hunit : 8 ∣ gap) (hgap : 8 ≤ gap) (hrest : gap + 8 ≤ b.len) :
    (heap.split_block (heap.pool.start + total before) (heap.pool.start + total before + gap)).Holds
        (before ++ ⟨gap, true⟩ :: ⟨b.len - gap, true⟩ :: rest) ∧
      heap.Keeps (heap.split_block (heap.pool.start + total before) (heap.pool.start + total before + gap))
        (used heap.pool.start (before ++ b :: rest)) := by
  obtain ⟨first, between, hbefore, hused, hsearch⟩ := h.search_le hb
  have hheader := (laid_append.mp h.laid).2.1
  have hend := h.block_end
  have hstatus : add32 (heap.pool.start + total before + gap) 4 =
      heap.pool.start + total before + gap + 4 := add32_eq (by omega)
  have hmemory : (heap.split_block (heap.pool.start + total before)
      (heap.pool.start + total before + gap)).memory =
      Function.update
        (Function.update
          (Function.update heap.memory (heap.pool.start + total before + gap)
            (heap.pool.start + total before + b.len))
          (heap.pool.start + total before + gap + 4) UX_BYTE_BLOCK_FREE)
        (heap.pool.start + total before) (heap.pool.start + total before + gap) := by
    rw [← hstatus, ← hheader.link]
    rfl
  have houtside : ∀ x, x < heap.pool.start + total before ∨ heap.pool.start + total before + total [b] ≤ x →
      (heap.split_block (heap.pool.start + total before)
        (heap.pool.start + total before + gap)).memory x = heap.memory x := by
    intro x hx
    rw [total_cons, total_nil] at hx
    rw [hmemory, Function.update_of_ne (by omega), Function.update_of_ne (by omega),
      Function.update_of_ne (by omega)]
  have hkeeps : heap.Keeps (heap.split_block (heap.pool.start + total before)
      (heap.pool.start + total before + gap)) (used heap.pool.start (before ++ b :: rest)) := by
    have hfree : used (heap.pool.start + total before) [b] = [] := used_of_free hb
    exact keeps_of_outside hfree houtside rfl rfl rfl
  have hfragments : (heap.split_block (heap.pool.start + total before)
      (heap.pool.start + total before + gap)).pool.fragments = heap.pool.fragments + 1 := by
    have hbound := h.laid.length_le
    have hshort := h.short
    rw [h.size] at hshort
    have hcount := h.fragments
    change add32 heap.pool.fragments 1 = heap.pool.fragments + 1
    exact add32_eq (by omega)
  refine ⟨edit [b] [⟨gap, true⟩, ⟨b.len - gap, true⟩] h hkeeps houtside ⟨?_, ?_, trivial⟩ ?_
    (List.cons_ne_nil _ _) ?_ ?_ ?_, hkeeps⟩
  · refine ⟨hheader.aligned, hgap, ?_, ?_⟩
    · rw [hmemory, Function.update_self]
    · rw [hmemory, Function.update_of_ne (by omega), Function.update_of_ne (by omega),
        Function.update_of_ne (by omega), hheader.status, hb]
  · have hlink : heap.pool.start + total before + gap ≠ heap.pool.start + total before := by omega
    have hnext : heap.pool.start + total before + gap ≠ heap.pool.start + total before + gap + 4 := by omega
    have hthis : heap.pool.start + total before + gap + 4 ≠ heap.pool.start + total before := by omega
    refine ⟨Nat.dvd_add hheader.aligned hunit, Nat.le_sub_of_add_le (by rwa [Nat.add_comm]), ?_, ?_⟩
    · rw [hmemory, Function.update_of_ne hlink, Function.update_of_ne hnext, Function.update_self]
      change heap.pool.start + total before + b.len = heap.pool.start + total before + gap + (b.len - gap)
      omega
    · rw [hmemory, Function.update_of_ne hthis, Function.update_self]
      rfl
  · simp only [total_cons, total_nil]
    omega
  · change heap.pool.available + _ = heap.pool.available + _
    simp only [freelist.available, hb, if_true]
    omega
  · rw [hfragments, List.length_singleton]
    rfl
  · refine ⟨first, between ++ ([⟨gap, true⟩, ⟨b.len - gap, true⟩] ++ rest), ?_, hused, hsearch⟩
    rw [hbefore, List.append_assoc]

theorem use_block_eq (h : heap.Holds (before ++ b :: rest)) (hb : b.free = true) :
    heap.use_block (heap.pool.start + total before) (b.len - 8) =
      (heap.pool.start + total before + 8, heap.occupied (heap.pool.start + total before) b.len) := by
  have hheader := (laid_append.mp h.laid).2.1
  have hlen : 8 ≤ b.len := hheader.len
  have hend := h.block_end
  have hstatus : add32 (heap.pool.start + total before) 4 = heap.pool.start + total before + 4 :=
    add32_eq (by omega)
  have hwork : add32 (heap.pool.start + total before) UX_MEMORY_BLOCK_HEADER_SIZE =
      heap.pool.start + total before + 8 := add32_eq (by rw [UX_MEMORY_BLOCK_HEADER_SIZE]; omega)
  have hbytes : add32 (b.len - 8) UX_MEMORY_BLOCK_HEADER_SIZE = b.len := by
    rw [UX_MEMORY_BLOCK_HEADER_SIZE, add32_eq (by omega)]
    omega
  have havailable : sub32 heap.pool.available b.len = heap.pool.available - b.len := by
    have hsum := h.available
    have hshort := h.short
    have hle : freelist.available (before ++ b :: rest) ≤ total (before ++ b :: rest) :=
      available_le_total
    rw [h.size] at hshort
    rw [available_append, freelist.available, if_pos hb] at hsum
    rw [available_append, freelist.available, if_pos hb] at hle
    exact sub32_eq (by omega) (by omega)
  have hlink : Function.update heap.memory (heap.pool.start + total before + 4) heap.pool_ptr
      (heap.pool.start + total before) = heap.pool.start + total before + b.len := by
    rw [Function.update_of_ne (by omega), hheader.link]
  have hend : heap.pool.start + total before + 8 + (b.len - 8) = heap.pool.start + total before + b.len := by
    omega
  simp only [Heap.use_block, Heap.write, Heap.clear, hstatus, hwork, hbytes, havailable, hlink, hend]
  rfl

theorem occupied (h : heap.Holds (before ++ b :: rest)) (hb : b.free = true) :
    (heap.occupied (heap.pool.start + total before) b.len).Holds (before ++ ⟨b.len, false⟩ :: rest) ∧
      heap.Keeps (heap.occupied (heap.pool.start + total before) b.len)
        (used heap.pool.start (before ++ b :: rest)) ∧
      ∀ x, heap.pool.start + total before + 8 ≤ x → x < heap.pool.start + total before + b.len →
        (heap.occupied (heap.pool.start + total before) b.len).memory x = 0 := by
  obtain ⟨first, between, hbefore, hused, hsearch⟩ := h.search_le hb
  obtain ⟨hlaid, hheader, -⟩ := laid_append.mp h.laid
  have hlen : 8 ≤ b.len := hheader.len
  have houtside : ∀ x, x < heap.pool.start + total before ∨ heap.pool.start + total before + total [b] ≤ x →
      (heap.occupied (heap.pool.start + total before) b.len).memory x = heap.memory x := by
    intro x hx
    rw [total_cons, total_nil] at hx
    refine (if_neg (by omega)).trans (Function.update_of_ne (by omega) _ _)
  have hkeeps : heap.Keeps (heap.occupied (heap.pool.start + total before) b.len)
      (used heap.pool.start (before ++ b :: rest)) := by
    have hfree : used (heap.pool.start + total before) [b] = [] := used_of_free hb
    exact keeps_of_outside hfree houtside rfl rfl rfl
  have hsum := h.available
  rw [available_append, freelist.available, if_pos hb] at hsum
  refine ⟨edit [b] [⟨b.len, false⟩] h hkeeps houtside ⟨?_, trivial⟩ rfl (List.cons_ne_nil _ _) ?_ rfl ?_,
    hkeeps, fun x hlow hhigh => if_pos ⟨hlow, hhigh⟩⟩
  · refine ⟨hheader.aligned, hlen, ?_, ?_⟩
    · exact (if_neg (by omega)).trans ((Function.update_of_ne (by omega) _ _).trans hheader.link)
    · exact (if_neg (by omega)).trans (Function.update_self _ _ _)
  · change heap.pool.available - b.len + _ = heap.pool.available + _
    simp only [freelist.available, hb, if_true, Bool.false_eq_true, if_false]
    omega
  · by_cases hhere : heap.pool.start + total before = heap.pool.search
    · refine ⟨before ++ [⟨b.len, false⟩], rest, List.append_cons _ _ _, ?_, ?_⟩
      · -- nothing lies between where the search begins and the block
        have hnone : between = [] := by
          rw [hbefore, laid_append] at hlaid
          have hlength := hlaid.2.length_le
          rw [hbefore, total_append] at hhere
          exact List.eq_nil_of_length_eq_zero (by omega)
        rw [hbefore, hnone, List.append_nil]
        exact List.forall_mem_append.mpr ⟨hused, List.forall_mem_singleton.mpr rfl⟩
      · rw [add_total_snoc]
        exact if_pos hhere
    · refine ⟨first, between ++ ([⟨b.len, false⟩] ++ rest), ?_, hused, (if_neg hhere).trans hsearch⟩
      rw [hbefore, List.append_assoc]

/-- The memory of a block that is long enough is made to begin at the alignment. -/
theorem align_block (h : heap.Holds (before ++ b :: rest)) (hb : b.free = true) {k size : Nat}
    (hk : 3 ≤ k) (hsize : 8 ≤ size) (hlen : size + (if k = 3 then 0 else 2 ^ k - 1) + 8 ≤ b.len) :
    ∃ before' b', b'.free = true ∧ size + 8 ≤ b'.len ∧
      used heap.pool.start (before' ++ b' :: rest) = used heap.pool.start (before ++ b :: rest) ∧
      2 ^ k ∣ heap.pool.start + total before' + 8 ∧
      ∃ later, heap.align_block (heap.pool.start + total before) (b.len - 8) (2 ^ k - 1) =
          (later, heap.pool.start + total before', b'.len - 8) ∧
        later.Holds (before' ++ b' :: rest) ∧
        heap.Keeps later (used heap.pool.start (before ++ b :: rest)) := by
  have hheader := (laid_append.mp h.laid).2.1
  have hend := h.block_end
  have hunit : 8 ∣ 2 ^ k := Nat.pow_dvd_pow 2 hk
  have hbuffer : add32 (heap.pool.start + total before) UX_MEMORY_BLOCK_HEADER_SIZE =
      heap.pool.start + total before + 8 := add32_eq (by rw [UX_MEMORY_BLOCK_HEADER_SIZE]; omega)
  by_cases hmod : (heap.pool.start + total before + 8) % 2 ^ k = 0
  · refine ⟨before, b, hb, by omega, rfl, Nat.dvd_of_mod_eq_zero hmod, heap, ?_, h, .refl heap _⟩
    simp only [Heap.align_block, hbuffer, Nat.and_two_pow_sub_one_eq_mod, hmod, ne_eq, not_true_eq_false,
      if_false]
  · have hmod_lt := Nat.mod_lt (heap.pool.start + total before + 8) (Nat.two_pow_pos k)
    have hmod_dvd : 8 ∣ (heap.pool.start + total before + 8) % 2 ^ k :=
      (Nat.dvd_mod_iff hunit).mpr (Nat.dvd_add hheader.aligned (Nat.dvd_refl 8))
    have hround := round_up (Nat.two_pow_pos k) hunit (Nat.dvd_add hheader.aligned (Nat.dvd_refl 8))
    have hlarge : k ≠ 3 := by
      rintro rfl
      exact hmod (Nat.mod_eq_zero_of_dvd (Nat.dvd_add hheader.aligned (Nat.dvd_refl 8)))
    rw [if_neg hlarge] at hlen
    have hk32 : k ≤ 32 := by
      refine Nat.le_of_lt ((Nat.pow_lt_pow_iff_right (by decide : 1 < 2)).mp ?_)
      omega
    obtain ⟨gap, hgap⟩ : ∃ gap, gap = 2 ^ k - (heap.pool.start + total before + 8) % 2 ^ k := ⟨_, rfl⟩
    have hgap_dvd : 8 ∣ gap := hgap ▸ Nat.dvd_sub hunit hmod_dvd
    rw [← hgap] at hround
    have hnext : sub32 (clear32 (add32 (add32 (heap.pool.start + total before + 8)
        UX_MEMORY_BLOCK_HEADER_SIZE) (2 ^ k - 1)) (2 ^ k - 1)) UX_MEMORY_BLOCK_HEADER_SIZE =
        heap.pool.start + total before + gap := by
      have hheader_end : add32 (heap.pool.start + total before + 8) 8 =
          heap.pool.start + total before + 8 + 8 := add32_eq (by omega)
      rw [UX_MEMORY_BLOCK_HEADER_SIZE, hheader_end, add32_eq (by omega), clear32_eq k (by omega) hk32,
        hround, sub32_eq (by omega) (by omega)]
      omega
    have hbytes : sub32 (b.len - 8) (sub32 (heap.pool.start + total before + gap)
        (heap.pool.start + total before)) = b.len - gap - 8 := by
      have hfront : sub32 (heap.pool.start + total before + gap) (heap.pool.start + total before) = gap := by
        rw [sub32_eq (by omega) (by omega), Nat.add_sub_cancel_left]
      rw [hfront, sub32_eq (by omega) (by omega), Nat.sub_right_comm]
    obtain ⟨hholds, hkeeps⟩ := h.split_block hb hgap_dvd (by omega) (by omega)
    refine ⟨before ++ [⟨gap, true⟩], ⟨b.len - gap, true⟩, rfl, ?_, ?_, ?_, _, ?_, ?_, hkeeps⟩
    · change size + 8 ≤ b.len - gap
      omega
    · rw [← List.append_cons]
      exact used_split hb (by omega) before
    · rw [add_total_snoc]
      change 2 ^ k ∣ heap.pool.start + total before + gap + 8
      rw [Nat.add_right_comm, ← hround]
      exact Nat.dvd_mul_left _ _
    · rw [add_total_snoc]
      simp only [Heap.align_block, hbuffer, Nat.and_two_pow_sub_one_eq_mod, ne_eq, hmod, not_false_eq_true,
        if_true, hnext, hbytes]
    · rwa [← List.append_cons]

theorem trim_block (h : heap.Holds (before ++ b :: rest)) (hb : b.free = true) {size : Nat}
    (hunit : 8 ∣ size) (hlen : size + 8 ≤ b.len) :
    ∃ b' rest', b'.free = true ∧ size + 8 ≤ b'.len ∧
      used heap.pool.start (before ++ b' :: rest') = used heap.pool.start (before ++ b :: rest) ∧
      ∃ later, heap.trim_block (heap.pool.start + total before) (b.len - 8) size = (later, b'.len - 8) ∧
        later.Holds (before ++ b' :: rest') ∧
        heap.Keeps later (used heap.pool.start (before ++ b :: rest)) := by
  have hend := h.block_end
  have hleft : sub32 (b.len - 8) size = b.len - 8 - size := sub32_eq (by omega) (by omega)
  by_cases henough : b.len - 8 - size ≥ UX_BYTE_BLOCK_MIN
  · have hmin : b.len - 8 - size ≥ 20 := henough
    obtain ⟨hholds, hkeeps⟩ := h.split_block hb (Nat.dvd_add hunit (Nat.dvd_refl 8)) (by omega)
      (by omega)
    refine ⟨⟨size + 8, true⟩, ⟨b.len - (size + 8), true⟩ :: rest, rfl, Nat.le_refl _,
      used_split hb hlen before, _, ?_, hholds, hkeeps⟩
    have hheader_end : add32 size UX_MEMORY_BLOCK_HEADER_SIZE = size + 8 :=
      add32_eq (by rw [UX_MEMORY_BLOCK_HEADER_SIZE]; omega)
    have hnext : add32 (heap.pool.start + total before) (size + 8) =
        heap.pool.start + total before + (size + 8) := add32_eq (by omega)
    simp only [Heap.trim_block, hleft, henough, if_true, hheader_end, hnext, Nat.add_sub_cancel]
  · refine ⟨b, rest, hb, hlen, rfl, heap, ?_, h, .refl heap _⟩
    simp only [Heap.trim_block, hleft, henough, if_false]

theorem take_block (h : heap.Holds (before ++ b :: rest)) (hb : b.free = true) {k size : Nat}
    (hk : 3 ≤ k) (hunit : 8 ∣ size) (hsize : 0 < size)
    (hlen : size + (if k = 3 then 0 else 2 ^ k - 1) + 8 ≤ b.len) :
    ∃ block len later blocks,
      heap.take_block (heap.pool.start + total before) (2 ^ k - 1) size = (block + 8, later) ∧
      later.Holds blocks ∧ heap.Keeps later (used heap.pool.start (before ++ b :: rest)) ∧
      (∀ entry, entry ∈ used heap.pool.start blocks ↔
        entry = (block, len) ∨ entry ∈ used heap.pool.start (before ++ b :: rest)) ∧
      size + 8 ≤ len ∧ 2 ^ k ∣ block + 8 ∧
      ∀ x, block + 8 ≤ x → x < block + len → later.memory x = 0 := by
  have hmin := Nat.le_of_dvd hsize hunit
  obtain ⟨before', b₁, hb₁, hlen₁, hused₁, haligned, heap₁, halign, hholds₁, hkeeps₁⟩ :=
    h.align_block hb hk hmin hlen
  have hstart₁ := hkeeps₁.start
  obtain ⟨b₂, rest', hb₂, hlen₂, hused₂, heap₂, htrim, hholds₂, hkeeps₂⟩ :=
    hholds₁.trim_block hb₁ hunit hlen₁
  have hstart₂ := hkeeps₂.start.trans hstart₁
  rw [hstart₁, hused₁] at hused₂ hkeeps₂
  rw [hstart₁] at htrim
  obtain ⟨hholds₃, hkeeps₃, hclear⟩ := hholds₂.occupied hb₂
  have huse := hholds₂.use_block_eq hb₂
  rw [hstart₂] at hholds₃ hkeeps₃ hclear huse
  rw [hused₂] at hkeeps₃
  refine ⟨heap.pool.start + total before', b₂.len, _, before' ++ ⟨b₂.len, false⟩ :: rest', ?_, hholds₃,
    (hkeeps₁.trans hkeeps₂).trans hkeeps₃, fun entry => ?_, hlen₂, haligned, hclear⟩
  · simp only [Heap.take_block, h.bytes, halign, htrim, huse]
  · rw [← hused₂, used_append, used_append, used_of_free hb₂, used_of_used rfl]
    simp only [List.mem_append, List.mem_cons]
    exact or_left_comm

end Holds

end Heap

/-- The requests that the stack may make: their size does not wrap when it is rounded, and their
    alignment is a mask of low bits, as each of the `UX_ALIGN` constants is. -/
structure Sound (memory_alignment memory_cache_flag memory_size_requested : Nat) : Prop where
  flag : memory_cache_flag = UX_REGULAR_MEMORY ∨ memory_cache_flag = UX_CACHE_SAFE_MEMORY
  positive : 0 < memory_size_requested
  mask : ∃ k ≤ 32, memory_alignment + 1 = 2 ^ k
  small : memory_size_requested + UX_ALIGN_MIN + least_alignment memory_alignment < 2 ^ 32

/-- The length of the block that is searched for, with its header. -/
def needed (memory_alignment memory_size_requested : Nat) : Nat :=
  rounded_size memory_size_requested +
    (if least_alignment memory_alignment ≤ UX_ALIGN_MIN then 0 else least_alignment memory_alignment) +
    UX_MEMORY_BLOCK_HEADER_SIZE

theorem rounded_size_eq {requested : Nat} (h : requested + 7 < 2 ^ 32) :
    rounded_size requested = (requested + 7) / 8 * 8 := by
  have hheader : sub32 (clear32 (add32 UX_MEMORY_BLOCK_HEADER_SIZE UX_ALIGN_MIN) UX_ALIGN_MIN)
      UX_MEMORY_BLOCK_HEADER_SIZE = 0 := by decide
  have hmask : UX_ALIGN_MIN = 2 ^ 3 - 1 := rfl
  have hsum : add32 requested (2 ^ 3 - 1) = requested + 7 := add32_eq h
  unfold rounded_size
  simp only [hheader]
  rw [hmask, hsum, clear32_eq 3 h (by decide), add32_eq (by omega)]
  rfl

/-- Whatever mask is asked for, it is one of 3 bits at least that is used. -/
theorem least_alignment_eq {memory_alignment k : Nat} (hk : k ≤ 32) (hmask : memory_alignment + 1 = 2 ^ k) :
    ∃ j, 3 ≤ j ∧ (k < 32 → k ≤ j) ∧ least_alignment memory_alignment = 2 ^ j - 1 := by
  unfold least_alignment
  obtain hlast | hless := Nat.eq_or_lt_of_le hk
  · subst hlast
    have hsafe : memory_alignment = UX_SAFE_ALIGN := by
      rw [UX_SAFE_ALIGN]
      omega
    refine ⟨3, Nat.le_refl 3, fun hless => absurd hless (Nat.lt_irrefl _), ?_⟩
    simp only [if_pos hsafe]
    rfl
  · have hpow : 2 ^ k < 2 ^ 32 := Nat.pow_lt_pow_right (by decide) hless
    have hsafe : memory_alignment ≠ UX_SAFE_ALIGN := by
      rw [UX_SAFE_ALIGN]
      omega
    simp only [if_neg hsafe]
    by_cases hfew : k < 3
    · have hsmall : 2 ^ k < 2 ^ 3 := Nat.pow_lt_pow_right (by decide) hfew
      have hless_min : memory_alignment < UX_ALIGN_MIN := by
        rw [UX_ALIGN_MIN]
        omega
      exact ⟨3, Nat.le_refl 3, fun _ => Nat.le_of_lt hfew, if_pos hless_min⟩
    · have hlarge : 2 ^ 3 ≤ 2 ^ k := Nat.pow_le_pow_right (by decide) (by omega)
      have hmin : ¬ memory_alignment < UX_ALIGN_MIN := by
        rw [UX_ALIGN_MIN]
        omega
      refine ⟨k, by omega, fun _ => Nat.le_refl k, ?_⟩
      rw [if_neg hmin]
      omega

namespace Heap.Holds

variable {heap : Heap} {blocks : List Block}

/-- An allocation fails only if there is no room for it. Otherwise the pool has one more block
    in use, and the memory in it is zero. -/
theorem allocate_spec {memory_alignment memory_cache_flag memory_size_requested : Nat}
    (h : heap.Holds blocks)
    (hsound : Sound memory_alignment memory_cache_flag memory_size_requested) :
    ∃ later blocks', later.Holds blocks' ∧ heap.Keeps later (used heap.pool.start blocks) ∧
      ((¬ Fits (needed memory_alignment memory_size_requested) blocks ∧
          heap._ux_utility_memory_allocate memory_alignment memory_cache_flag memory_size_requested =
            (none, later) ∧
          used heap.pool.start blocks' = used heap.pool.start blocks) ∨
        Fits (needed memory_alignment memory_size_requested) blocks ∧ ∃ block len,
          heap._ux_utility_memory_allocate memory_alignment memory_cache_flag memory_size_requested =
            (some (block + 8), later) ∧
          (∀ entry, entry ∈ used heap.pool.start blocks' ↔
            entry = (block, len) ∨ entry ∈ used heap.pool.start blocks) ∧
          memory_size_requested + 8 ≤ len ∧ least_alignment memory_alignment + 1 ∣ block + 8 ∧
          ∀ x, block + 8 ≤ x → x < block + len → later.memory x = 0) := by
  obtain ⟨hflag, hpositive, ⟨k, hk, hmask⟩, hsmall⟩ := hsound
  obtain ⟨j, hj, -, hleast⟩ := least_alignment_eq hk hmask
  have hmin : memory_size_requested + 7 + least_alignment memory_alignment < 2 ^ 32 := hsmall
  have hrounded : rounded_size memory_size_requested = (memory_size_requested + 7) / 8 * 8 :=
    rounded_size_eq (by omega)
  have hextra : (if least_alignment memory_alignment ≤ UX_ALIGN_MIN then 0
      else least_alignment memory_alignment) = if j = 3 then 0 else 2 ^ j - 1 := by
    rw [hleast, UX_ALIGN_MIN]
    by_cases hthree : j = 3
    · subst hthree
      rfl
    · have hlarge : 2 ^ 4 ≤ 2 ^ j := Nat.pow_le_pow_right (by decide) (by omega)
      rw [if_neg (by omega), if_neg hthree]
  have hneeded : needed memory_alignment memory_size_requested =
      rounded_size memory_size_requested + (if j = 3 then 0 else 2 ^ j - 1) + 8 := by
    rw [needed, hextra, UX_MEMORY_BLOCK_HEADER_SIZE]
  have hsearch : (if least_alignment memory_alignment ≤ UX_ALIGN_MIN then
        rounded_size memory_size_requested
      else add32 (rounded_size memory_size_requested) (least_alignment memory_alignment)) =
      rounded_size memory_size_requested + (if j = 3 then 0 else 2 ^ j - 1) := by
    rw [← hextra]
    split_ifs
    · rfl
    · exact add32_eq (by omega)
  have hflags : ¬ (memory_cache_flag ≠ UX_REGULAR_MEMORY ∧ memory_cache_flag ≠ UX_CACHE_SAFE_MEMORY) := by
    obtain hregular | hsafe := hflag
    · exact fun hneither => hneither.1 hregular
    · exact fun hneither => hneither.2 hsafe
  have hpool : heap.pool_ptr ≠ 0 := Nat.ne_of_gt h.pool_ptr_pos
  have hsize : 0 < rounded_size memory_size_requested + (if j = 3 then 0 else 2 ^ j - 1) := by omega
  obtain ⟨found, joined, hjoined, hkeeps, hholds, hresult⟩ := h.search_spec hsize
  unfold Heap._ux_utility_memory_allocate
  simp only [if_neg hflags, if_neg hpool, if_neg (Nat.ne_of_gt hpositive), hsearch]
  rw [hneeded]
  obtain ⟨hnone, hsearched⟩ | ⟨hfits, before, b, rest, rfl, hfree, hlen, hsearched⟩ := hresult
  · refine ⟨found, joined, hholds, hkeeps, .inl ⟨hnone, ?_, hjoined.used_eq _⟩⟩
    rw [hsearched]
  · obtain ⟨block, len, later, blocks', htake, hlater, hkeeps', hused, hroom, haligned, hclear⟩ :=
      hholds.take_block hfree hj (hrounded ▸ Nat.dvd_mul_left 8 _) (by omega) hlen
    rw [hkeeps.start] at htake hused
    rw [hkeeps.start, hjoined.used_eq] at hkeeps'
    refine ⟨later, blocks', hlater, hkeeps.trans hkeeps', .inr ⟨hfits, block, len, ?_, ?_, ?_, ?_, hclear⟩⟩
    · rw [hsearched, hleast]
      simp only [htake]
    · intro entry
      rw [hused, hjoined.used_eq]
    · omega
    · rw [hleast]
      have hpow := Nat.two_pow_pos j
      rwa [Nat.sub_add_cancel hpow]

end Heap.Holds

end keychain.usb
