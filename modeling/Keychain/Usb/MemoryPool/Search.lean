import Keychain.Usb.MemoryPool.Layout

namespace keychain.usb

open freelist

namespace Heap

variable {heap : Heap} {entries : List (Nat × Nat)} {before after rest : List Block} {b c : Block}
  {memory_size : Nat} {found : Bool}

@[simp] theorem reach_memory (current_ptr : Nat) : (heap.reach found current_ptr).memory = heap.memory := by
  unfold reach
  split_ifs <;> rfl

@[simp] theorem reach_start (current_ptr : Nat) :
    (heap.reach found current_ptr).pool.start = heap.pool.start := by
  unfold reach
  split_ifs <;> rfl

theorem reach_true (current_ptr : Nat) : heap.reach true current_ptr = heap := rfl

theorem reach_keeps (current_ptr : Nat) : heap.Keeps (heap.reach found current_ptr) entries := by
  unfold reach
  split_ifs
  · exact .refl heap entries
  · exact ⟨rfl, rfl, rfl, fun _ _ _ _ _ => rfl⟩

namespace Holds

theorem reach (h : heap.Holds (before ++ after)) (hfound : found = false → ∀ b ∈ before, b.free = false) :
    (heap.reach found (heap.pool.start + total before)).Holds (before ++ after) := by
  unfold Heap.reach
  split_ifs with hfirst
  · exact h
  · exact { h with search := ⟨before, after, rfl, hfound (eq_false_of_ne_true hfirst), rfl⟩ }

/-- The search does not begin behind a free block. -/
theorem search_le (h : heap.Holds (before ++ b :: rest)) (hb : b.free = true) :
    ∃ first between, before = first ++ between ∧ (∀ c ∈ first, c.free = false) ∧
      heap.pool.search = heap.pool.start + total first := by
  obtain ⟨first, later, hsplit, hused, hsearch⟩ := h.search
  obtain ⟨between, hbetween⟩ := exists_of_used_prefix hsplit.symm hused hb
  exact ⟨first, between, hbetween, hused, hsearch⟩

theorem join (h : heap.Holds (before ++ b :: c :: rest)) (hb : b.free = true) (hc : c.free = true) :
    (heap.join (heap.pool.start + total before)).Holds (before ++ ⟨b.len + c.len, true⟩ :: rest) ∧
      heap.Keeps (heap.join (heap.pool.start + total before))
        (used heap.pool.start (before ++ b :: c :: rest)) := by
  obtain ⟨first, between, hbefore, hused, hsearch⟩ := h.search_le hb
  obtain ⟨hheader, hnext, -⟩ := (laid_append.mp h.laid).2
  have hlen : 8 ≤ b.len := hheader.len
  have houtside : ∀ x, x < heap.pool.start + total before ∨
      heap.pool.start + total before + total [b, c] ≤ x →
      (heap.join (heap.pool.start + total before)).memory x = heap.memory x := by
    intro x hx
    refine Function.update_of_ne ?_ _ _
    rw [total_cons, total_cons, total_nil] at hx
    omega
  have hlink : (heap.join (heap.pool.start + total before)).memory (heap.pool.start + total before) =
      heap.pool.start + total before + (b.len + c.len) := by
    refine (Function.update_self _ _ _).trans ?_
    rw [hheader.link, hnext.link, Nat.add_assoc]
  have hstatus : (heap.join (heap.pool.start + total before)).memory
      (heap.pool.start + total before + 4) = UX_BYTE_BLOCK_FREE := by
    refine (Function.update_of_ne (by omega) _ _).trans ?_
    rw [hheader.status, if_pos hb]
  have hfragments : (heap.join (heap.pool.start + total before)).pool.fragments =
      heap.pool.fragments - 1 := by
    obtain ⟨hpositive, hsmall⟩ := h.fragments_range
    change sub32 heap.pool.fragments 1 = heap.pool.fragments - 1
    exact sub32_eq (Nat.le_of_lt hpositive) hsmall
  have hkept : (heap.join (heap.pool.start + total before)).pool.search = heap.pool.search := by
    refine if_neg fun hnext => ?_
    change heap.pool.search = heap.memory (heap.pool.start + total before) at hnext
    rw [hheader.link, hsearch, hbefore, total_append] at hnext
    omega
  have hkeeps : heap.Keeps (heap.join (heap.pool.start + total before))
      (used heap.pool.start (before ++ b :: c :: rest)) := by
    have hfree : used (heap.pool.start + total before) [b, c] = [] := by
      rw [used_of_free hb, used_of_free hc, used]
    exact keeps_of_outside hfree houtside rfl rfl rfl
  constructor
  · refine edit [b, c] [⟨b.len + c.len, true⟩] h hkeeps houtside ⟨?_, trivial⟩ ?_ (List.cons_ne_nil _ _) ?_ ?_ ?_
    · exact ⟨hheader.aligned, Nat.le_add_right_of_le hheader.len, hlink, hstatus⟩
    · rw [total_cons, total_cons, total_cons, Nat.add_assoc]
    · have hsame : freelist.available [b, c] = freelist.available [⟨b.len + c.len, true⟩] := by
        simp only [freelist.available, hb, hc, if_true, Nat.add_zero]
      have hkeep : (heap.join (heap.pool.start + total before)).pool.available = heap.pool.available := rfl
      rw [hsame, hkeep]
    · have hpositive := h.fragments_range.1
      rw [hfragments]
      simp only [List.length_cons, List.length_nil]
      omega
    · refine ⟨first, between ++ (⟨b.len + c.len, true⟩ :: rest), ?_, hused, hkept.trans hsearch⟩
      rw [hbefore, List.append_assoc]
      rfl
  · exact hkeeps

theorem examine_of_not_free (h : heap.Holds (before ++ after)) (hafter : after.head?.any Block.free = false) :
    heap.examine memory_size found (heap.pool.start + total before) =
      .one heap found (heap.memory (heap.pool.start + total before)) := by
  refine if_neg ?_
  rw [h.status, hafter]
  exact Bool.false_ne_true

theorem examine_of_free (h : heap.Holds (before ++ b :: rest)) (hb : b.free = true) :
    heap.examine memory_size found (heap.pool.start + total before) =
      let later := heap.reach found (heap.pool.start + total before)
      if memory_size + 8 ≤ b.len then .enough later (b.len - 8)
      else if rest.head?.any Block.free then
        .one (later.join (heap.pool.start + total before)) true (heap.pool.start + total before)
      else .two later true (heap.memory (heap.pool.start + total (before ++ [b]))) := by
  have hnext : heap.Holds ((before ++ [b]) ++ rest) := by rwa [List.append_assoc]
  have hlen : 8 ≤ b.len := (laid_append.mp h.laid).2.1.len
  have hstatus := hnext.status
  have hthis := h.status
  unfold Heap.examine
  rw [if_pos (hthis.mpr hb)]
  simp only [reach_memory, h.bytes]
  simp only [h.link, hstatus]
  have henough : b.len - 8 ≥ memory_size ↔ memory_size + 8 ≤ b.len := by omega
  simp only [henough]

theorem search_loop_of_not_free (n : Nat) (h : heap.Holds (before ++ after))
    (hafter : after.head?.any Block.free = false) :
    heap.search_loop memory_size (n + 1) found (heap.pool.start + total before) =
      heap.search_loop memory_size n found (heap.memory (heap.pool.start + total before)) := by
  rw [Heap.search_loop, h.examine_of_not_free hafter]

theorem search_loop_enough (n : Nat) (h : heap.Holds (before ++ b :: rest)) (hb : b.free = true)
    (hsize : 0 < memory_size) (henough : memory_size + 8 ≤ b.len) :
    heap.search_loop memory_size (n + 1) found (heap.pool.start + total before) =
      (some (heap.pool.start + total before), heap.reach found (heap.pool.start + total before)) := by
  have hpositive : b.len - 8 ≠ 0 := by omega
  rw [Heap.search_loop, h.examine_of_free hb]
  simp only [if_pos henough, if_neg hpositive]

theorem search_loop_join (n : Nat) (h : heap.Holds (before ++ b :: rest)) (hb : b.free = true)
    (hshort : ¬ memory_size + 8 ≤ b.len) (hrest : rest.head?.any Block.free = true) :
    heap.search_loop memory_size (n + 1) found (heap.pool.start + total before) =
      ((heap.reach found (heap.pool.start + total before)).join (heap.pool.start + total before)).search_loop
        memory_size n true (heap.pool.start + total before) := by
  rw [Heap.search_loop, h.examine_of_free hb]
  simp only [if_neg hshort, if_pos hrest]

/-- The block behind one that is too short is passed together with it. -/
theorem search_loop_skip (n : Nat) (h : heap.Holds (before ++ b :: rest)) (hb : b.free = true)
    (hshort : ¬ memory_size + 8 ≤ b.len) (hrest : rest.head?.any Block.free = false) :
    heap.search_loop memory_size (n + 2) found (heap.pool.start + total before) =
      (heap.reach found (heap.pool.start + total before)).search_loop memory_size n true
        (heap.memory (heap.pool.start + total (before ++ [b]))) := by
  rw [Heap.search_loop, h.examine_of_free hb]
  simp only [if_neg hshort, hrest, Bool.false_eq_true, if_false]

/-- Where no block is long enough and none can be joined, the loop only goes round. -/
theorem search_loop_settled (examine_blocks : Nat) (h : heap.Holds (before ++ after))
    (hsettled : Settled (memory_size + 8) (before ++ after))
    (hfound : found = true ∨ ∀ b ∈ before ++ after, b.free = false) :
    heap.search_loop memory_size examine_blocks found (heap.pool.start + total before) = (none, heap) := by
  induction examine_blocks using Nat.strong_induction_on generalizing before after with
  | _ examine_blocks ih =>
  have hround : ∀ k < examine_blocks, ∀ next rest, before ++ after = next ++ rest →
      heap.search_loop memory_size k found (heap.memory (heap.pool.start + total next)) = (none, heap) := by
    intro k hk next rest hsplit
    rw [hsplit] at h hsettled hfound
    cases rest with
    | nil =>
      rw [h.link_nil]
      rw [List.append_nil, ← List.nil_append next] at h hsettled hfound
      exact ih k hk h hsettled hfound
    | cons b rest =>
      rw [h.link]
      rw [List.append_cons] at h hsettled hfound
      exact ih k hk h hsettled hfound
  obtain - | n := examine_blocks
  · rfl
  by_cases hafter : after.head?.any Block.free = false
  · rw [h.search_loop_of_not_free n hafter]
    exact hround n n.lt_succ_self before after rfl
  · obtain - | ⟨b, rest⟩ := after
    · exact absurd rfl hafter
    have hb : b.free = true := by simpa using hafter
    obtain ⟨hshort, hrest⟩ := hsettled before b rest rfl hb
    obtain rfl | hused := hfound
    · obtain - | n := n
      · rw [Heap.search_loop, h.examine_of_free hb]
        simp only [if_neg (Nat.not_le.mpr hshort), hrest, Bool.false_eq_true, if_false, reach_true]
      · rw [h.search_loop_skip n hb (Nat.not_le.mpr hshort) hrest]
        exact hround n (by omega) (before ++ [b]) rest (List.append_cons _ _ _)
    · have hbusy := hused b (by simp)
      rw [hb] at hbusy
      cases hbusy

/-- The loop does what the sweep does, from where the search begins. -/
theorem search_loop_sweep (hsize : 0 < memory_size) {todo : List Block} {examine_blocks : Nat}
    (h : heap.Holds (before ++ todo)) (hfound : found = false → ∀ b ∈ before, b.free = false)
    (hcount : todo.length < examine_blocks)
    (hpast : (sweep (memory_size + 8) todo).2 = [] →
      Settled (memory_size + 8) (before ++ (sweep (memory_size + 8) todo).1)) :
    ∃ later, heap.Keeps later (used heap.pool.start (before ++ todo)) ∧
      later.Holds (before ++ ((sweep (memory_size + 8) todo).1 ++ (sweep (memory_size + 8) todo).2)) ∧
      heap.search_loop memory_size examine_blocks found (heap.pool.start + total before) =
        (if (sweep (memory_size + 8) todo).2 = [] then none
          else some (heap.pool.start + total (before ++ (sweep (memory_size + 8) todo).1)), later) := by
  obtain ⟨n, rfl⟩ : ∃ n, examine_blocks = n + 1 := ⟨examine_blocks - 1, by omega⟩
  fun_induction sweep (memory_size + 8) todo generalizing before heap found n with
  | case1 =>
    refine ⟨heap, .refl heap _, h, h.search_loop_settled (n + 1) (hpast rfl) ?_⟩
    cases found with
    | true => exact .inl rfl
    | false => exact .inr (by simpa using hfound rfl)
  | case2 b henough =>
    refine ⟨_, reach_keeps _, h.reach hfound, ?_⟩
    rw [h.search_loop_enough n henough.1 hsize henough.2, List.append_nil]
    rfl
  | case3 b hshort =>
    by_cases hb : b.free = true
    · obtain ⟨m, rfl⟩ : ∃ m, n = m + 1 := ⟨n - 1, by rw [List.length_singleton] at hcount; omega⟩
      have hreach : (heap.reach found (heap.pool.start + total before)).Holds ([] ++ (before ++ [b])) :=
        h.reach hfound
      refine ⟨_, reach_keeps _, hreach, ?_⟩
      have hlink : heap.memory (heap.pool.start + total (before ++ [b])) = heap.pool.start := by
        apply link_nil
        rwa [List.append_nil]
      rw [h.search_loop_skip m hb (fun hlen => hshort ⟨hb, hlen⟩) rfl, hlink, if_pos rfl]
      have hround := hreach.search_loop_settled m (hpast rfl) (.inl rfl)
      rwa [reach_start] at hround
    · refine ⟨heap, .refl heap _, h, h.search_loop_settled (n + 1) (hpast rfl) ?_⟩
      cases found with
      | true => exact .inl rfl
      | false =>
        have hlast : ∀ d ∈ [b], d.free = false := List.forall_mem_singleton.mpr (eq_false_of_ne_true hb)
        exact .inr (List.forall_mem_append.mpr ⟨hfound rfl, hlast⟩)
  | case4 b c rest hb hlen =>
    refine ⟨_, reach_keeps _, h.reach hfound, ?_⟩
    rw [h.search_loop_enough n hb hsize hlen, List.append_nil]
    rfl
  | case5 b c rest hb hlen hc ih =>
    obtain ⟨m, rfl⟩ : ∃ m, n = m + 1 :=
      ⟨n - 1, by simp only [List.length_cons] at hcount; omega⟩
    have hjoined : used heap.pool.start (before ++ ⟨b.len + c.len, true⟩ :: rest) =
        used heap.pool.start (before ++ b :: c :: rest) :=
      ((Joined.join hb hc (.refl _)).append_left before).used_eq _
    obtain ⟨hjoin, hkeeps⟩ := (h.reach hfound).join hb hc
    rw [reach_start] at hjoin hkeeps
    have hstart := hkeeps.start
    rw [reach_start] at hstart
    have hfirst : true = false → ∀ d ∈ before, d.free = false := fun hfalse => Bool.noConfusion hfalse
    obtain ⟨later, hlater, hholds, hloop⟩ := ih hjoin hfirst hpast m
      (by simp only [List.length_cons] at hcount ⊢; omega)
    rw [hstart, hjoined] at hlater
    rw [hstart] at hloop
    refine ⟨later, ((reach_keeps _).trans hkeeps).trans hlater, hholds, ?_⟩
    rw [h.search_loop_join (m + 1) hb hlen hc, hloop]
  | case6 b c rest hb hlen hc ih =>
    obtain ⟨m, rfl⟩ : ∃ m, n = m + 2 :=
      ⟨n - 2, by simp only [List.length_cons] at hcount; omega⟩
    have hnext : before ++ b :: c :: rest = before ++ [b] ++ [c] ++ rest := by simp
    have hreach := h.reach hfound
    have hfirst : true = false → ∀ d ∈ before ++ [b] ++ [c], d.free = false :=
      fun hfalse => Bool.noConfusion hfalse
    have hlink : heap.memory (heap.pool.start + total (before ++ [b])) =
        heap.pool.start + total (before ++ [b] ++ [c]) := by
      apply link
      rwa [List.append_assoc]
    rw [hnext] at hreach
    obtain ⟨later, hlater, hholds, hloop⟩ := ih hreach hfirst (by simpa using hpast) m
      (by simp only [List.length_cons] at hcount ⊢; omega)
    rw [reach_start] at hlater hloop
    refine ⟨later, ?_, by simpa using hholds, ?_⟩
    · rw [hnext]
      exact (reach_keeps _).trans hlater
    · rw [h.search_loop_skip (m + 1) hb hlen (eq_false_of_ne_true hc), hlink, hloop]
      simp
  | case7 b c rest hb ih =>
    obtain ⟨m, rfl⟩ : ∃ m, n = m + 1 :=
      ⟨n - 1, by simp only [List.length_cons] at hcount; omega⟩
    have hbusy : b.free = false := eq_false_of_ne_true hb
    have hnext : before ++ b :: c :: rest = before ++ [b] ++ c :: rest := List.append_cons _ _ _
    have hfirst : found = false → ∀ d ∈ before ++ [b], d.free = false := by
      intro hnone
      exact List.forall_mem_append.mpr ⟨hfound hnone, List.forall_mem_singleton.mpr hbusy⟩
    obtain ⟨later, hlater, hholds, hloop⟩ := ih (hnext ▸ h) hfirst (by simpa using hpast) m
      (by simp only [List.length_cons] at hcount ⊢; omega)
    refine ⟨later, ?_, by simpa using hholds, ?_⟩
    · rwa [hnext]
    · rw [h.search_loop_of_not_free (m + 1) hbusy, h.link, hloop]
      simp

/-- The search finds a block that is long enough if one can be had at all, and joins only free
    blocks on its way. -/
theorem search_spec {blocks : List Block} (h : heap.Holds blocks) (hsize : 0 < memory_size) :
    ∃ later joined, Joined blocks joined ∧ heap.Keeps later (used heap.pool.start blocks) ∧
      later.Holds joined ∧
      ((¬ Fits (memory_size + 8) blocks ∧
          heap._ux_utility_memory_byte_pool_search memory_size = (none, later)) ∨
        Fits (memory_size + 8) blocks ∧ ∃ before b after, joined = before ++ b :: after ∧
          b.free = true ∧ memory_size + 8 ≤ b.len ∧
          heap._ux_utility_memory_byte_pool_search memory_size =
            (some (heap.pool.start + total before), later)) := by
  obtain ⟨first, todo, hsplit, hused, hsearch⟩ := h.search
  have hlength := h.laid.length_le
  have hshort := h.short
  have havailable : freelist.available blocks ≤ total blocks := available_le_total
  have hcount := h.fragments
  obtain ⟨hpositive, hsmall⟩ := h.fragments_range
  rw [h.size, UX_MEMORY_BLOCK_HEADER_SIZE] at hshort
  have htheory : add32 heap.pool.available
      (sub32 heap.pool.fragments 2 * UX_MEMORY_BLOCK_HEADER_SIZE) =
      freelist.available blocks + (blocks.length - 1) * 8 := by
    rw [sub32_eq hpositive hsmall, UX_MEMORY_BLOCK_HEADER_SIZE, h.available, hcount,
      add32_eq (by omega)]
    omega
  unfold Heap._ux_utility_memory_byte_pool_search
  simp only [htheory]
  by_cases hpoor : memory_size ≥ freelist.available blocks + (blocks.length - 1) * 8
  · refine ⟨heap, blocks, .refl _, .refl heap _, h, .inl ⟨fun hfits => ?_, by rw [if_pos hpoor]⟩⟩
    have hle := hfits.le_available
    omega
  · have hinside : ¬ (heap.pool.search < heap.pool.start ∨
        heap.pool.search > add32 heap.pool.start heap.pool.size) := by
      have hbelow := h.below
      have hmark : UX_BYTE_BLOCK_FREE < 2 ^ 32 := by decide
      rw [add32_eq (by omega), hsearch, h.size, hsplit, total_append]
      omega
    have hblocks : add32 heap.pool.fragments 1 = blocks.length + 2 := by
      rw [hcount, add32_eq (by omega)]
    subst hsplit
    have hroom : (sweep (memory_size + 8) todo).2 = [] ↔ ¬ Fits (memory_size + 8) (first ++ todo) := by
      rw [fits_append_of_used (by omega) hused, sweep_eq_nil_iff (by omega)]
    have hall : todo.length < max 1 ((first ++ todo).length + 2) := by
      rw [List.length_append]
      omega
    obtain ⟨later, hkeeps, hholds, hloop⟩ := h.search_loop_sweep hsize (fun _ => hused) hall
      (fun hnone => settled_append_of_used hused (sweep_settled hnone))
    rw [if_neg hpoor, if_neg hinside, hblocks, hsearch, hloop]
    refine ⟨later, _, (sweep_joined (memory_size + 8) todo).append_left first, hkeeps, hholds, ?_⟩
    cases hfound : (sweep (memory_size + 8) todo).2 with
    | nil => exact .inl ⟨hroom.mp hfound, by rw [if_pos rfl]⟩
    | cons b rest =>
      obtain ⟨hfree, hlen⟩ := sweep_found hfound
      have hfits : Fits (memory_size + 8) (first ++ todo) := by
        by_contra hnone
        rw [hroom.mpr hnone] at hfound
        cases hfound
      refine .inr ⟨hfits, first ++ (sweep (memory_size + 8) todo).1, b, rest, ?_, hfree, hlen, ?_⟩
      · rw [List.append_assoc]
      · rw [if_neg (List.cons_ne_nil _ _)]

end Holds

end Heap

end keychain.usb
