import Keychain.Library.Machine
import Keychain.Usb.MemoryPool.Allocate
import Keychain.Usb.MemoryPool.Free

namespace keychain.usb

open freelist

namespace Heap

variable {start size : Nat}

/-- A new pool is one free block. -/
theorem create_holds (heap : Heap) (hstart : 8 ∣ start) (hsize : 16 ≤ size) (hpositive : 0 < heap.pool_ptr)
    (hself : heap.pool_ptr < UX_BYTE_BLOCK_FREE) (hbelow : start + size ≤ UX_BYTE_BLOCK_FREE)
    (hshort : size ≤ 2 ^ 31) :
    (heap._ux_utility_memory_byte_pool_create start size).Holds [⟨size / 4 * 4 - 8, true⟩] ∧
      (heap._ux_utility_memory_byte_pool_create start size).pool.start = start ∧
      (heap._ux_utility_memory_byte_pool_create start size).pool.size = size / 4 * 4 := by
  obtain ⟨n, hn⟩ : ∃ n, n = size / 4 * 4 := ⟨_, rfl⟩
  have hmark : UX_BYTE_BLOCK_FREE < 2 ^ 32 := by decide
  have havailable : sub32 n 8 = n - 8 := sub32_eq (by omega) (by omega)
  have hend : add32 start n = start + n := add32_eq (by omega)
  have hlast : sub32 (start + n) 4 = start + (n - 8) + 4 := by
    rw [sub32_eq (by omega) (by omega)]
    omega
  have hback : sub32 (start + (n - 8) + 4) 4 = start + (n - 8) := by
    rw [sub32_eq (by omega) (by omega), Nat.add_sub_cancel]
  have hfirst : add32 start 4 = start + 4 := add32_eq (by omega)
  have hcreate : heap._ux_utility_memory_byte_pool_create start size =
      { memory :=
          Function.update
            (Function.update
              (Function.update
                (Function.update heap.memory (start + (n - 8) + 4) heap.pool_ptr)
                (start + (n - 8)) start)
              start (start + (n - 8)))
            (start + 4) UX_BYTE_BLOCK_FREE
        pool_ptr := heap.pool_ptr
        pool := ⟨n - 8, 2, start, start, n⟩ } := by
    unfold Heap._ux_utility_memory_byte_pool_create
    simp only [← hn, havailable, hend, hlast, hback, hfirst, Heap.write]
  rw [hcreate, ← hn]
  refine ⟨?_, rfl, rfl⟩
  constructor
  · refine ⟨⟨hstart, ?_, ?_, ?_⟩, trivial⟩
    · rw [UX_MEMORY_BLOCK_HEADER_SIZE]
      dsimp only
      omega
    · dsimp only
      rw [Function.update_of_ne (by omega), Function.update_self]
    · exact Function.update_self _ _ _
  · simp only [total_cons, total_nil, Nat.add_zero]
    rw [Function.update_of_ne (by omega), Function.update_of_ne (by omega),
      Function.update_self]
  · simp only [total_cons, total_nil, Nat.add_zero]
    rw [Function.update_of_ne (by omega), Function.update_of_ne (by omega),
      Function.update_of_ne (by omega), Function.update_self]
  · dsimp only [total]
    rw [UX_MEMORY_BLOCK_HEADER_SIZE]
    omega
  · rfl
  · rfl
  · exact ⟨[], _, rfl, fun _ hnone => absurd hnone List.not_mem_nil, rfl⟩
  · exact List.cons_ne_nil _ _
  · exact hpositive
  · exact hself
  · dsimp only
    omega
  · dsimp only
    omega

/-- The pool lies in the memory that the firmware has given to the stack. -/
theorem initialize_holds (memory : Nat → Nat) {records : Nat} (hstart : 0 < start)
    (hbelow : start + size ≤ UX_BYTE_BLOCK_FREE) (hshort : size ≤ 2 ^ 31) (hroom : records + 43 ≤ size) :
    ∃ heap, Heap._ux_system_initialize memory start size records = some heap ∧
      (∃ blocks, heap.Holds blocks ∧ used heap.pool.start blocks = []) ∧
      start ≤ heap.pool.start ∧ heap.pool.start + heap.pool.size ≤ start + size := by
  have hmark : UX_BYTE_BLOCK_FREE < 2 ^ 32 := by decide
  have hself : add32 start records = start + records := add32_eq (by omega)
  have hoffset : add32 records UX_MEMORY_BYTE_POOL_SIZE = records + 20 :=
    add32_eq (by rw [UX_MEMORY_BYTE_POOL_SIZE]; omega)
  have hbehind : add32 start (records + 20) = start + (records + 20) := add32_eq (by omega)
  have hround : add32 (start + (records + 20)) UX_ALIGN_MIN = start + (records + 20) + 7 :=
    add32_eq (by rw [UX_ALIGN_MIN]; omega)
  have hend : add32 start size = start + size := add32_eq (by omega)
  obtain ⟨begin, hbegin⟩ : ∃ begin, begin = (start + (records + 20) + 7) / 2 ^ 3 * 2 ^ 3 := ⟨_, rfl⟩
  have hclear : clear32 (start + (records + 20) + 7) UX_ALIGN_MIN = begin := by
    rw [hbegin]
    exact clear32_eq 3 (by omega) (by decide)
  have hlen : sub32 (start + size) begin = start + size - begin := sub32_eq (by omega) (by omega)
  have hinside : ¬ begin ≥ start + size := by omega
  have hpool_ptr : start + records < UX_BYTE_BLOCK_FREE := by omega
  obtain ⟨cleared, hcleared⟩ : ∃ cleared : Heap,
      cleared = (Heap.mk memory (start + records) ⟨0, 0, 0, 0, 0⟩).clear start size := ⟨_, rfl⟩
  have hcleared_self : cleared.pool_ptr = start + records := by rw [hcleared, Heap.clear]
  have haligned : 8 ∣ begin := hbegin ▸ Nat.dvd_mul_left 8 _
  have hleft : 16 ≤ start + size - begin := by omega
  obtain ⟨hholds, hpool_start, hpool_size⟩ :=
    create_holds cleared haligned hleft (by omega) (by omega) (by omega) (by omega)
  refine ⟨cleared._ux_utility_memory_byte_pool_create begin (start + size - begin), ?_,
    ⟨_, hholds, ?_⟩, ?_, ?_⟩
  · unfold Heap._ux_system_initialize
    simp only [hself, hoffset, hbehind, hround, hclear, hend, hlen, if_neg hinside, ← hcleared]
    exact if_neg (by omega)
  · exact used_of_free rfl
  · rw [hpool_start]
    omega
  · rw [hpool_start, hpool_size]
    omega

end Heap

/-- What the owner of a buffer has asked for, and what it has stored there, word by word. -/
structure Buffer where
  size : Nat
  alignment : Nat
  contents : Nat → Nat

/-- The heap, and the buffers that have been handed out and not been given back. -/
structure Client where
  heap : Heap
  live : Nat → Option Buffer

inductive Request where
  | allocate (memory_alignment memory_cache_flag memory_size_requested : Nat)
  | free (memory : Nat)
  /-- The owner of a buffer writes one of its words. -/
  | store (memory offset value : Nat)

/-- The answer is the address of a new buffer. -/
def Client.step (c : Client) : Request → Client × Option Nat
  | .allocate memory_alignment memory_cache_flag memory_size_requested =>
    match c.heap._ux_utility_memory_allocate memory_alignment memory_cache_flag memory_size_requested with
    | (none, heap) => ({ c with heap }, none)
    | (some memory, heap) =>
      ({ heap
         live := Function.update c.live memory
          (some ⟨memory_size_requested, memory_alignment, fun _ => 0⟩) }, some memory)
  | .free memory =>
    ({ heap := c.heap._ux_utility_memory_free memory, live := Function.update c.live memory none }, none)
  | .store memory offset value =>
    ({ heap := c.heap.write (memory + offset) value
       live := Function.update c.live memory ((c.live memory).map fun b =>
        { b with contents := Function.update b.contents offset value }) }, none)

/-- Only buffers that are live are written to, and given back. -/
def Client.Obeys (c : Client) : Request → Prop
  | .allocate memory_alignment memory_cache_flag memory_size_requested =>
    Sound memory_alignment memory_cache_flag memory_size_requested
  | .free memory => c.live memory ≠ none
  | .store memory offset _ => 4 ∣ offset ∧ ∃ b ∈ c.live memory, offset < b.size

def Client.start (heap : Heap) : Client := ⟨heap, fun _ => none⟩

/-- A buffer is what its owner takes it for. -/
structure Buffer.Intact (b : Buffer) (heap : Heap) (block len : Nat) : Prop where
  room : b.size + 8 ≤ len
  aligned : least_alignment b.alignment + 1 ∣ block + 8
  mask : ∃ k ≤ 32, b.alignment + 1 = 2 ^ k
  contents : ∀ i < b.size, heap.memory (block + 8 + i) = b.contents i

/-- The blocks in use are those of the live buffers. -/
structure Client.Valid (c : Client) (start size : Nat) (blocks : List Block) : Prop where
  holds : c.heap.Holds blocks
  start_eq : c.heap.pool.start = start
  size_eq : c.heap.pool.size = size
  backed : ∀ memory, ∀ b ∈ c.live memory, ∃ block len, memory = block + 8 ∧
    (block, len) ∈ used start blocks ∧ b.Intact c.heap block len
  owned : ∀ entry ∈ used start blocks, c.live (entry.1 + 8) ≠ none

section

variable {c : Client} {start size : Nat} {blocks : List Block}

theorem Buffer.Intact.keeps {b : Buffer} {heap later : Heap} {block len : Nat} (h : b.Intact heap block len)
    {entries : List (Nat × Nat)} (hentry : (block, len) ∈ entries) (hkeeps : heap.Keeps later entries) :
    b.Intact later block len := by
  refine { h with contents := fun i hi => ?_ }
  have hroom := h.room
  rw [hkeeps.words _ hentry (block + 8 + i) (by dsimp only; omega) (by dsimp only; omega)]
  exact h.contents i hi

theorem Client.Valid.free (h : c.Valid start size blocks) {memory : Nat} (hlive : c.live memory ≠ none) :
    ∃ blocks', (c.step (.free memory)).1.Valid start size blocks' := by
  obtain ⟨b, hb⟩ := Option.ne_none_iff_exists'.mp hlive
  obtain ⟨block, len, rfl, hentry, -⟩ := h.backed memory b hb
  obtain ⟨blocks', hholds, hkeeps, hused⟩ := h.holds.free_spec (h.start_eq ▸ hentry)
  rw [h.start_eq] at hkeeps hused
  refine ⟨blocks', hholds, hkeeps.start.trans h.start_eq, hkeeps.size.trans h.size_eq, ?_, ?_⟩
  · intro other b' hb'
    change Function.update c.live (block + 8) none other = some b' at hb'
    by_cases hsame : other = block + 8
    · rw [hsame, Function.update_self] at hb'
      cases hb'
    · rw [Function.update_of_ne hsame] at hb'
      obtain ⟨block', len', rfl, hentry', hintact⟩ := h.backed other b' hb'
      have hmem := (hused (block', len')).mpr ⟨hentry', fun heq => hsame (congrArg (· + 8) heq)⟩
      exact ⟨block', len', rfl, hmem, hintact.keeps hmem hkeeps⟩
  · intro entry hmem
    obtain ⟨hold, hother⟩ := (hused entry).mp hmem
    change Function.update c.live (block + 8) none (entry.1 + 8) ≠ none
    rw [Function.update_of_ne fun heq => hother (Nat.add_right_cancel heq)]
    exact h.owned entry hold

/-- A word in the memory of a block belongs to no other block, and to no header. -/
theorem Client.Valid.store (h : c.Valid start size blocks) {memory offset value : Nat} {b : Buffer}
    (hb : b ∈ c.live memory) (hoffset : offset < b.size) :
    (c.step (.store memory offset value)).1.Valid start size blocks := by
  obtain ⟨block, len, rfl, hentry, hintact⟩ := h.backed memory b hb
  have hroom := hintact.room
  have hwrite : ∀ x, x ≠ block + 8 + offset →
      (c.heap.write (block + 8 + offset) value).memory x = c.heap.memory x :=
    fun x hx => Function.update_of_ne hx _ _
  have hlive : c.live (block + 8) = some b := hb
  simp only [Client.step, hlive, Option.map_some]
  refine ⟨?_, h.start_eq, h.size_eq, ?_, ?_⟩
  · exact h.holds.write (h.start_eq ▸ hentry) (Nat.le_add_right _ _) (by omega) value
  · intro other b' hb'
    change Function.update c.live (block + 8) _ other = some b' at hb'
    by_cases hsame : other = block + 8
    · subst hsame
      rw [Function.update_self] at hb'
      cases hb'
      refine ⟨block, len, rfl, hentry, hroom, hintact.aligned, hintact.mask, fun i hi => ?_⟩
      by_cases hi' : i = offset
      · subst hi'
        exact (Function.update_self _ _ _).trans (Function.update_self i value b.contents).symm
      · rw [hwrite _ (by omega), hintact.contents i hi]
        exact (Function.update_of_ne hi' _ _).symm
    · rw [Function.update_of_ne hsame] at hb'
      obtain ⟨block', len', rfl, hentry', hintact'⟩ := h.backed other b' hb'
      refine ⟨block', len', rfl, hentry', { hintact' with contents := fun i hi => ?_ }⟩
      have hroom' := hintact'.room
      rw [hwrite, hintact'.contents i hi]
      obtain hlt | hlt := Nat.lt_or_gt_of_ne fun heq : block = block' => hsame (by rw [heq])
      · have hapart := used_apart hentry hentry' hlt
        omega
      · have hapart := used_apart hentry' hentry hlt
        omega
  · intro entry hmem
    change Function.update c.live (block + 8) _ (entry.1 + 8) ≠ none
    by_cases hsame : entry.1 + 8 = block + 8
    · rw [hsame, Function.update_self]
      exact Option.some_ne_none _
    · rw [Function.update_of_ne hsame]
      exact h.owned entry hmem

theorem Client.Valid.allocate (h : c.Valid start size blocks)
    {memory_alignment memory_cache_flag memory_size_requested : Nat}
    (hsound : Sound memory_alignment memory_cache_flag memory_size_requested) :
    ∃ blocks', (c.step (.allocate memory_alignment memory_cache_flag memory_size_requested)).1.Valid
      start size blocks' := by
  obtain ⟨later, blocks', hholds, hkeeps, ⟨-, hnone, hused⟩ |
    ⟨-, block, len, hsome, hused, hroom, haligned, hclear⟩⟩ := h.holds.allocate_spec hsound
  · rw [h.start_eq] at hkeeps hused
    refine ⟨blocks', ?_⟩
    simp only [Client.step, hnone]
    refine ⟨hholds, hkeeps.start.trans h.start_eq, hkeeps.size.trans h.size_eq, ?_, ?_⟩
    · intro memory b hb
      obtain ⟨block, len, rfl, hentry, hintact⟩ := h.backed memory b hb
      exact ⟨block, len, rfl, hused ▸ hentry, hintact.keeps hentry hkeeps⟩
    · intro entry hmem
      exact h.owned entry (hused ▸ hmem)
  · rw [h.start_eq] at hkeeps hused
    refine ⟨blocks', ?_⟩
    simp only [Client.step, hsome]
    refine ⟨hholds, hkeeps.start.trans h.start_eq, hkeeps.size.trans h.size_eq, ?_, ?_⟩
    · intro other b hb
      change Function.update c.live (block + 8) _ other = some b at hb
      by_cases hsame : other = block + 8
      · subst hsame
        rw [Function.update_self] at hb
        cases hb
        refine ⟨block, len, rfl, (hused _).mpr (.inl rfl), hroom, haligned, hsound.mask, fun i hi => ?_⟩
        exact hclear _ (Nat.le_add_right _ _) (by dsimp only at hi; omega)
      · rw [Function.update_of_ne hsame] at hb
        obtain ⟨block', len', rfl, hentry, hintact⟩ := h.backed other b hb
        exact ⟨block', len', rfl, (hused _).mpr (.inr hentry), hintact.keeps hentry hkeeps⟩
    · intro entry hmem
      change Function.update c.live (block + 8) _ (entry.1 + 8) ≠ none
      by_cases hsame : entry.1 + 8 = block + 8
      · rw [hsame, Function.update_self]
        exact Option.some_ne_none _
      · rw [Function.update_of_ne hsame]
        obtain rfl | hold := (hused entry).mp hmem
        · exact absurd rfl hsame
        · exact h.owned entry hold

theorem Client.Valid.step (h : c.Valid start size blocks) {request : Request} (hobeys : c.Obeys request) :
    ∃ blocks', (c.step request).1.Valid start size blocks' := by
  cases request with
  | allocate memory_alignment memory_cache_flag memory_size_requested => exact h.allocate hobeys
  | free memory => exact h.free hobeys
  | store memory offset value =>
    obtain ⟨-, b, hb, hoffset⟩ := hobeys
    exact ⟨blocks, h.store hb hoffset⟩

/-- Where the memory of the stack may lie, and how much of it has to be left for the pool. -/
structure Placed (start size records : Nat) : Prop where
  positive : 0 < start
  below : start + size ≤ UX_BYTE_BLOCK_FREE
  short : size ≤ 2 ^ 31
  room : records + 43 ≤ size

section

variable {memory : Nat → Nat} {records : Nat} {heap : Heap} {requests : List Request}

theorem reached_valid (hplaced : Placed start size records)
    (hinit : Heap._ux_system_initialize memory start size records = some heap)
    (hobeys : machine.Admits Client.step Client.Obeys (Client.start heap) requests)
    (hreached : machine.Reached Client.step (Client.start heap) requests c) :
    start ≤ heap.pool.start ∧ heap.pool.start + heap.pool.size ≤ start + size ∧
      ∃ blocks, c.Valid heap.pool.start heap.pool.size blocks := by
  obtain ⟨first, hfirst, ⟨blocks, hholds, hempty⟩, hlow, hhigh⟩ :=
    Heap.initialize_holds memory hplaced.positive hplaced.below hplaced.short hplaced.room
  obtain rfl : first = heap := Option.some.inj (hfirst.symm.trans hinit)
  have hstart : (Client.start first).Valid first.pool.start first.pool.size blocks := by
    refine ⟨hholds, rfl, rfl, fun a b hb => ?_, fun entry hentry => ?_⟩
    · cases hb
    · rw [hempty] at hentry
      cases hentry
  refine ⟨hlow, hhigh, ?_⟩
  exact machine.reached_invariant Client.step
    (fun c => ∃ blocks, c.Valid first.pool.start first.pool.size blocks) Client.Obeys
    (fun c request ⟨blocks, hvalid⟩ hallowed => hvalid.step hallowed) ⟨blocks, hstart⟩ hobeys hreached

/-- In every run, each live buffer lies in the memory of the pool as it was asked for and holds
    what its owner has stored there, and no two of them overlap. -/
theorem live_buffers_intact (hplaced : Placed start size records)
    (hinit : Heap._ux_system_initialize memory start size records = some heap)
    (hobeys : machine.Admits Client.step Client.Obeys (Client.start heap) requests)
    (hreached : machine.Reached Client.step (Client.start heap) requests c) :
    (∀ a, ∀ b ∈ c.live a, start ≤ a ∧ a + b.size ≤ start + size ∧ 8 ∣ a ∧
      (∀ k < 32, b.alignment + 1 = 2 ^ k → 2 ^ k ∣ a) ∧
      ∀ i < b.size, 4 ∣ i → c.heap.memory (a + i) = b.contents i) ∧
    ∀ a, ∀ b ∈ c.live a, ∀ a', ∀ b' ∈ c.live a', a < a' → a + b.size ≤ a' := by
  obtain ⟨hlow, hhigh, blocks, hvalid⟩ := reached_valid hplaced hinit hobeys hreached
  constructor
  · intro a b hb
    obtain ⟨block, len, rfl, hentry, hintact⟩ := hvalid.backed a b hb
    have hrange := mem_used hentry
    have hsize := hvalid.holds.size
    have hroom := hintact.room
    obtain ⟨k, hk, hmask⟩ := hintact.mask
    obtain ⟨j, hj, hkj, hleast⟩ := least_alignment_eq hk hmask
    have haligned := hintact.aligned
    rw [hleast, Nat.sub_add_cancel (Nat.two_pow_pos j)] at haligned
    rw [hvalid.size_eq] at hsize
    dsimp only at hrange
    refine ⟨by omega, by omega, (Nat.pow_dvd_pow 2 hj).trans haligned, fun k' hk' hmask' => ?_, ?_⟩
    · have hsame : k' = k := Nat.pow_right_injective (Nat.le_refl 2) (hmask'.symm.trans hmask)
      exact (Nat.pow_dvd_pow 2 (hsame ▸ hkj (hsame ▸ hk'))).trans haligned
    · exact fun i hi _ => hintact.contents i hi
  · intro a b hb a' b' hb' hlt
    obtain ⟨block, len, rfl, hentry, hintact⟩ := hvalid.backed a b hb
    obtain ⟨block', len', rfl, hentry', -⟩ := hvalid.backed a' b' hb'
    have hapart := used_apart hentry hentry' (Nat.lt_of_add_lt_add_right hlt)
    have hroom := hintact.room
    dsimp only at hapart
    omega

/-- The heap of the firmware, if the buffer for it is at the start of the memory. -/
def firmware_heap : Heap :=
  (Heap._ux_system_initialize (fun _ => 0) 0x20000000 8192 600).getD ⟨fun _ => 0, 0, ⟨0, 0, 0, 0, 0⟩⟩

/-- Two buffers, the second one at a multiple of 64, and the first one is given back. -/
def firmware_requests : List Request :=
  [.allocate UX_NO_ALIGN UX_REGULAR_MEMORY 100, .allocate 0x3F UX_CACHE_SAFE_MEMORY 20, .free 536871544]

def firmware_client : Client :=
  (machine.run Client.step (Client.start firmware_heap) firmware_requests).1

theorem firmware_placed : Placed 0x20000000 8192 600 :=
  ⟨by decide, by decide, by decide, by decide⟩

theorem firmware_init :
    Heap._ux_system_initialize (fun _ => 0) 0x20000000 8192 600 = some firmware_heap := rfl

theorem firmware_obeys :
    machine.Admits Client.step Client.Obeys (Client.start firmware_heap) firmware_requests := by
  refine ⟨⟨.inl rfl, by decide, ⟨0, by decide⟩, by decide⟩, ⟨.inr rfl, by decide, ⟨6, by decide⟩, by decide⟩,
    ?_, trivial⟩
  change Client.live _ _ ≠ none
  decide +kernel

theorem firmware_reached :
    machine.Reached Client.step (Client.start firmware_heap) firmware_requests firmware_client :=
  ⟨firmware_requests, [], by simp, rfl⟩

theorem live_buffers_intact_firmware :
    firmware_client.live 536871680 ≠ none ∧
      ∀ a, ∀ b ∈ firmware_client.live a, 0x20000000 ≤ a ∧ a + b.size ≤ 0x20000000 + 8192 := by
  refine ⟨by decide +kernel, fun a b hb => ?_⟩
  obtain ⟨hlow, hhigh, -⟩ :=
    (live_buffers_intact firmware_placed firmware_init firmware_obeys firmware_reached).1 a b hb
  exact ⟨hlow, hhigh⟩

/-- An allocation fails only if nowhere in the pool there is a gap for it between the blocks of
    the live buffers. Each of these begins 8 bytes below its buffer, with the address of its end. -/
theorem allocation_fails_iff (hplaced : Placed start size records)
    (hinit : Heap._ux_system_initialize memory start size records = some heap)
    (hobeys : machine.Admits Client.step Client.Obeys (Client.start heap) requests)
    (hreached : machine.Reached Client.step (Client.start heap) requests c)
    {memory_alignment memory_cache_flag memory_size_requested : Nat}
    (hsound : Sound memory_alignment memory_cache_flag memory_size_requested) :
    (c.step (.allocate memory_alignment memory_cache_flag memory_size_requested)).2 = none ↔
      ¬ ∃ gap, heap.pool.start ≤ gap ∧
        gap + needed memory_alignment memory_size_requested + 8 ≤ heap.pool.start + heap.pool.size ∧
        ∀ a, c.live a ≠ none → c.heap.memory (a - 8) ≤ gap ∨
          gap + needed memory_alignment memory_size_requested ≤ a - 8 := by
  obtain ⟨-, -, blocks, hvalid⟩ := reached_valid hplaced hinit hobeys hreached
  have hholds := hvalid.holds
  have hsize := hholds.size
  have hpositive : 0 < needed memory_alignment memory_size_requested := by
    rw [needed, UX_MEMORY_BLOCK_HEADER_SIZE]
    omega
  have hfails : (c.step (.allocate memory_alignment memory_cache_flag memory_size_requested)).2 = none ↔
      ¬ Fits (needed memory_alignment memory_size_requested) blocks := by
    obtain ⟨later, blocks', -, -, ⟨hnone, hallocate, -⟩ | ⟨hfits, block, len, hallocate, -⟩⟩ :=
      hholds.allocate_spec hsound
    · simp only [Client.step, hallocate]
      exact iff_of_true trivial hnone
    · simp only [Client.step, hallocate]
      exact iff_of_false (Option.some_ne_none _) (not_not.mpr hfits)
  rw [hvalid.size_eq, UX_MEMORY_BLOCK_HEADER_SIZE] at hsize
  rw [hfails, fits_iff_gap hpositive heap.pool.start blocks]
  refine not_congr (exists_congr fun gap => and_congr_right fun _ => and_congr ?_ ⟨?_, ?_⟩)
  · omega
  · -- each live buffer has its block
    intro hclear a hlive
    obtain ⟨b, hb⟩ := Option.ne_none_iff_exists'.mp hlive
    obtain ⟨block, len, rfl, hentry, -⟩ := hvalid.backed a b hb
    have hlink := hholds.used_link (hvalid.start_eq.symm ▸ hentry)
    rw [Nat.add_sub_cancel, hlink]
    exact hclear _ hentry
  · -- and each block in use its buffer
    intro hclear entry hentry
    have hgap := hclear (entry.1 + 8) (hvalid.owned entry hentry)
    have hlink := hholds.used_link (hvalid.start_eq.symm ▸ hentry)
    rwa [Nat.add_sub_cancel, hlink] at hgap

theorem allocation_fails_iff_firmware :
    ¬ ∃ gap, firmware_heap.pool.start ≤ gap ∧
      gap + needed UX_NO_ALIGN 7400 + 8 ≤ firmware_heap.pool.start + firmware_heap.pool.size ∧
      ∀ a, firmware_client.live a ≠ none → firmware_client.heap.memory (a - 8) ≤ gap ∨
        gap + needed UX_NO_ALIGN 7400 ≤ a - 8 := by
  have hsound : Sound UX_NO_ALIGN UX_REGULAR_MEMORY 7400 :=
    ⟨.inl rfl, by decide, ⟨0, by decide⟩, by decide⟩
  apply (allocation_fails_iff firmware_placed firmware_init firmware_obeys firmware_reached hsound).mp
  decide +kernel

end

end

end keychain.usb
