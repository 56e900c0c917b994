import Keychain.Usb.MemoryPool.Search

namespace keychain.usb

open freelist

namespace Heap

variable {heap : Heap} {before rest : List Block} {len : Nat}

/-- The heap with the block at `a` free. -/
def released (heap : Heap) (a len : Nat) : Heap :=
  { heap with
    memory := Function.update heap.memory (a + 4) UX_BYTE_BLOCK_FREE
    pool :=
      { heap.pool with
        available := heap.pool.available + len
        search := if a < heap.pool.search then a else heap.pool.search } }

namespace Holds

theorem free_eq (h : heap.Holds (before ++ ⟨len, false⟩ :: rest)) :
    heap._ux_utility_memory_free (heap.pool.start + total before + 8) =
      heap.released (heap.pool.start + total before) len := by
  have hheader := (laid_append.mp h.laid).2.1
  have hend := h.block_end
  dsimp only at hend
  have hwork : sub32 (heap.pool.start + total before + 8) UX_MEMORY_BLOCK_HEADER_SIZE =
      heap.pool.start + total before := by
    rw [UX_MEMORY_BLOCK_HEADER_SIZE, sub32_eq (by omega) (by omega), Nat.add_sub_cancel]
  have hstatus : heap.memory (heap.pool.start + total before + 4) = heap.pool_ptr := by
    rw [hheader.status]
    rfl
  have hself := Nat.ne_of_lt h.pool_ptr_lt
  have hpool : ¬ (heap.pool_ptr = 0 ∨ heap.pool_ptr ≠ heap.pool_ptr) :=
    fun hbad => hbad.elim (Nat.ne_of_gt h.pool_ptr_pos) fun hne => hne rfl
  have hlink : Function.update heap.memory (heap.pool.start + total before + 4) UX_BYTE_BLOCK_FREE
      (heap.pool.start + total before) = heap.pool.start + total before + len := by
    rw [Function.update_of_ne (by omega), hheader.link]
  have hbytes : sub32 (heap.pool.start + total before + len) (heap.pool.start + total before) = len := by
    rw [sub32_eq (by omega) (by omega), Nat.add_sub_cancel_left]
  have havailable : add32 heap.pool.available len = heap.pool.available + len := by
    have hsum := h.available
    have hshort := h.short
    have hbefore : freelist.available before ≤ total before := available_le_total
    have hrest : freelist.available rest ≤ total rest := available_le_total
    rw [h.size, total_append, total_cons] at hshort
    dsimp only at hshort
    rw [available_append, freelist.available, if_neg Bool.false_ne_true] at hsum
    exact add32_eq (by omega)
  unfold Heap._ux_utility_memory_free
  rw [if_neg (Nat.succ_ne_zero _)]
  simp only [hwork, h.status_address, hstatus, if_neg hself, if_neg hpool, Heap.write, hlink, hbytes,
    havailable]
  rfl

theorem released (h : heap.Holds (before ++ ⟨len, false⟩ :: rest)) :
    (heap.released (heap.pool.start + total before) len).Holds (before ++ ⟨len, true⟩ :: rest) ∧
      heap.Keeps (heap.released (heap.pool.start + total before) len)
        (used heap.pool.start (before ++ ⟨len, true⟩ :: rest)) := by
  have hheader := (laid_append.mp h.laid).2.1
  have hlen : 8 ≤ len := hheader.len
  have houtside : ∀ x, x < heap.pool.start + total before ∨
      heap.pool.start + total before + total [⟨len, false⟩] ≤ x →
      (heap.released (heap.pool.start + total before) len).memory x = heap.memory x := by
    intro x hx
    rw [total_cons, total_nil] at hx
    change _ ∨ heap.pool.start + total before + (len + 0) ≤ x at hx
    exact Function.update_of_ne (by omega) _ _
  have hkeeps : heap.Keeps (heap.released (heap.pool.start + total before) len)
      (used heap.pool.start (before ++ ⟨len, true⟩ :: rest)) := by
    have hfree : used (heap.pool.start + total before) [⟨len, true⟩] = [] := used_of_free rfl
    exact keeps_of_outside hfree houtside rfl rfl rfl
  refine ⟨edit [⟨len, false⟩] [⟨len, true⟩] h hkeeps houtside ⟨?_, trivial⟩ rfl (List.cons_ne_nil _ _)
    ?_ rfl ?_, hkeeps⟩
  · refine ⟨hheader.aligned, hlen, ?_, ?_⟩
    · exact (Function.update_of_ne (by omega) _ _).trans hheader.link
    · exact Function.update_self _ _ _
  · exact Nat.add_assoc _ _ _
  · obtain ⟨first, second, hsplit, hused, hsearch⟩ := h.search
    obtain ⟨between, hfirst, -⟩ | ⟨between, hbefore, -⟩ := List.append_eq_append_iff.mp hsplit
    · refine ⟨before, ⟨len, true⟩ :: rest, rfl, fun c hc => hused c ?_, ?_⟩
      · rw [hfirst]
        exact List.mem_append_left _ hc
      · have hlower : (heap.released (heap.pool.start + total before) len).pool.search =
            if heap.pool.start + total before < heap.pool.search then heap.pool.start + total before
            else heap.pool.search := rfl
        rw [hlower]
        rw [hfirst, total_append] at hsearch
        split_ifs <;> omega
    · refine ⟨first, between ++ (⟨len, true⟩ :: rest), ?_, hused, ?_⟩
      · rw [hbefore, List.append_assoc]
        rfl
      · refine (if_neg ?_).trans hsearch
        rw [hsearch, hbefore, total_append]
        omega

/-- A block in use has its header at least. -/
theorem used_len {blocks : List Block} (h : heap.Holds blocks) {entry : Nat × Nat}
    (hentry : entry ∈ used heap.pool.start blocks) : 8 ≤ entry.2 := by
  obtain ⟨before, rest, rfl, -⟩ := exists_of_mem_used hentry
  exact (laid_append.mp h.laid).2.1.len

/-- Its first word says where it ends. -/
theorem used_link {blocks : List Block} (h : heap.Holds blocks) {entry : Nat × Nat}
    (hentry : entry ∈ used heap.pool.start blocks) : heap.memory entry.1 = entry.1 + entry.2 := by
  obtain ⟨before, rest, rfl, hblock⟩ := exists_of_mem_used hentry
  rw [hblock]
  exact (laid_append.mp h.laid).2.1.link

/-- What is written into the memory of a block leaves the headers as they are. -/
theorem write {blocks : List Block} {block x : Nat} (h : heap.Holds blocks)
    (hused : (block, len) ∈ used heap.pool.start blocks) (hlow : block + 8 ≤ x) (hhigh : x < block + len)
    (value : Nat) : (heap.write x value).Holds blocks := by
  obtain ⟨before, rest, rfl, hblock⟩ := exists_of_mem_used hused
  dsimp only at h hblock ⊢
  subst hblock
  have hheader := (laid_append.mp h.laid).2.1
  have houtside : ∀ y, y ≠ x → (heap.write x value).memory y = heap.memory y :=
    fun y hy => Function.update_of_ne hy _ _
  have hkeeps : heap.Keeps (heap.write x value) [] :=
    ⟨rfl, rfl, rfl, fun _ hnone => absurd hnone List.not_mem_nil⟩
  refine edit [⟨len, false⟩] [⟨len, false⟩] h hkeeps (fun y hy => houtside y ?_) ⟨?_, trivial⟩ rfl
    (List.cons_ne_nil _ _) rfl rfl h.search
  · rw [total_cons, total_nil] at hy
    dsimp only at hy
    omega
  · refine ⟨hheader.aligned, hheader.len, ?_, ?_⟩
    · rw [houtside _ (by omega), hheader.link]
    · rw [houtside _ (by omega), hheader.status]

/-- A block that is freed is not in use any more, and all others are as before. -/
theorem free_spec {blocks : List Block} {block : Nat} (h : heap.Holds blocks)
    (hused : (block, len) ∈ used heap.pool.start blocks) :
    ∃ blocks', (heap._ux_utility_memory_free (block + 8)).Holds blocks' ∧
      heap.Keeps (heap._ux_utility_memory_free (block + 8)) (used heap.pool.start blocks') ∧
      ∀ entry, entry ∈ used heap.pool.start blocks' ↔
        entry ∈ used heap.pool.start blocks ∧ entry.1 ≠ block := by
  obtain ⟨before, rest, rfl, hblock⟩ := exists_of_mem_used hused
  have hlen : 8 ≤ len := (laid_append.mp h.laid).2.1.len
  dsimp only at h hblock
  subst hblock
  obtain ⟨hholds, hkeeps⟩ := h.released
  rw [h.free_eq]
  refine ⟨_, hholds, hkeeps, fun entry => ?_⟩
  rw [used_append, used_append, used_of_free rfl, used_of_used rfl, List.mem_append, List.mem_append,
    List.mem_cons]
  dsimp only
  constructor
  · rintro (hbefore | hafter)
    · have hrange := mem_used hbefore
      have hentry : entry ∈ used heap.pool.start (before ++ ⟨len, false⟩ :: rest) := by
        rw [used_append]
        exact List.mem_append_left _ hbefore
      have hpositive := h.used_len hentry
      exact ⟨.inl hbefore, by omega⟩
    · have hrange := mem_used hafter
      exact ⟨.inr (.inr hafter), by omega⟩
  · rintro ⟨hbefore | rfl | hafter, hother⟩
    · exact .inl hbefore
    · exact absurd rfl hother
    · exact .inr hafter

end Holds

end Heap

end keychain.usb
