import Keychain.Library.FreeList
import Mathlib.Data.Nat.Bitwise
import Mathlib.Logic.Function.Basic

namespace keychain.usb

def UX_BYTE_BLOCK_FREE : Nat := 0xFFFFEEEE

def UX_BYTE_BLOCK_MIN : Nat := 20

def UX_MEMORY_BLOCK_HEADER_SIZE : Nat := 8

/-- `sizeof(UX_MEMORY_BYTE_POOL)` -/
def UX_MEMORY_BYTE_POOL_SIZE : Nat := 20

def UX_REGULAR_MEMORY : Nat := 0

def UX_CACHE_SAFE_MEMORY : Nat := 1

def UX_NO_ALIGN : Nat := 0

def UX_ALIGN_MIN : Nat := 7

def UX_SAFE_ALIGN : Nat := 0xFFFFFFFF

/-- Addresses and lengths are `ULONG`s, of 32 bits. -/
def add32 (a b : Nat) : Nat := (a + b) % 2 ^ 32

def sub32 (a b : Nat) : Nat := (2 ^ 32 + a - b) % 2 ^ 32

/-- `a & ~mask` -/
def clear32 (a mask : Nat) : Nat := a &&& (mask ^^^ (2 ^ 32 - 1))

/-- `UX_MEMORY_BYTE_POOL`. -/
structure MemoryBytePool where
  available : Nat
  fragments : Nat
  search : Nat
  start : Nat
  size : Nat

/-- The words of the memory by their addresses, the pool that is kept in it, and the address of
    that pool's `UX_MEMORY_BYTE_POOL`, to which both entries of `ux_system_memory_byte_pool`
    point: the firmware gives the stack no cache safe memory of its own. -/
structure Heap where
  memory : Nat → Nat
  pool_ptr : Nat
  pool : MemoryBytePool

def Heap.write (heap : Heap) (address value : Nat) : Heap :=
  { heap with memory := Function.update heap.memory address value }

/-- `_ux_utility_memory_set` of whole words to 0. -/
def Heap.clear (heap : Heap) (destination length : Nat) : Heap :=
  { heap with
    memory := fun x => if destination ≤ x ∧ x < destination + length then 0 else heap.memory x }

def Heap._ux_utility_memory_byte_pool_create (heap : Heap) (pool_start pool_size : Nat) : Heap :=
  let pool_size := pool_size / 4 * 4
  let pool :=
    { available := sub32 pool_size 8, fragments := 2, search := pool_start, start := pool_start
      size := pool_size }
  let block_ptr := sub32 (add32 pool_start pool_size) 4
  let heap := { heap with pool }.write block_ptr heap.pool_ptr
  let block_ptr := sub32 block_ptr 4
  let heap := heap.write block_ptr pool_start
  let heap := heap.write pool_start block_ptr
  heap.write (add32 pool_start 4) UX_BYTE_BLOCK_FREE

/-- What `_ux_system_initialize` does with the memory that the firmware gives to the stack:
    `UX_SYSTEM` and `UX_SYSTEM_SLAVE`, which are `records` long together, come first, then the
    `UX_MEMORY_BYTE_POOL`, and the pool takes what is left. There is no result if nothing is. -/
def Heap._ux_system_initialize (memory : Nat → Nat)
    (regular_memory_pool_start regular_memory_size records : Nat) : Option Heap :=
  if regular_memory_pool_start = 0 ∨ regular_memory_size = 0 then none
  else
    let heap : Heap :=
      { memory, pool_ptr := add32 regular_memory_pool_start records, pool := ⟨0, 0, 0, 0, 0⟩ }
    let heap := heap.clear regular_memory_pool_start regular_memory_size
    let memory_pool_offset := add32 records UX_MEMORY_BYTE_POOL_SIZE
    let int_memory_pool_start := add32 regular_memory_pool_start memory_pool_offset
    let int_memory_pool_start := clear32 (add32 int_memory_pool_start UX_ALIGN_MIN) UX_ALIGN_MIN
    let regular_memory_pool_end := add32 regular_memory_pool_start regular_memory_size
    if int_memory_pool_start ≥ regular_memory_pool_end then none
    else
      some (heap._ux_utility_memory_byte_pool_create int_memory_pool_start
        (sub32 regular_memory_pool_end int_memory_pool_start))

/-- What comes of examining a block: it is long enough, with `available_bytes` in it, or the
    search goes on with `first_free_block_found` and `current_ptr`, and counts one block as
    examined, or two. -/
inductive Examined where
  | enough (heap : Heap) (available_bytes : Nat)
  | one (heap : Heap) (first_free_block_found : Bool) (current_ptr : Nat)
  | two (heap : Heap) (first_free_block_found : Bool) (current_ptr : Nat)

/-- The pool remembers where the search has found its first free block. -/
def Heap.reach (heap : Heap) (first_free_block_found : Bool) (current_ptr : Nat) : Heap :=
  if first_free_block_found then heap
  else { heap with pool := { heap.pool with search := current_ptr } }

/-- The block at `current_ptr` and the one behind it become one. -/
def Heap.join (heap : Heap) (current_ptr : Nat) : Heap :=
  let next_ptr := heap.memory current_ptr
  let heap := heap.write current_ptr (heap.memory next_ptr)
  let fragments := sub32 heap.pool.fragments 1
  let search := if heap.pool.search = next_ptr then current_ptr else heap.pool.search
  { heap with pool := { heap.pool with fragments, search } }

/-- The body of the loop of `_ux_utility_memory_byte_pool_search`. -/
def Heap.examine (heap : Heap) (memory_size : Nat) (first_free_block_found : Bool)
    (current_ptr : Nat) : Examined :=
  if heap.memory (add32 current_ptr 4) = UX_BYTE_BLOCK_FREE then
    let heap := heap.reach first_free_block_found current_ptr
    let next_ptr := heap.memory current_ptr
    let available_bytes := sub32 (sub32 next_ptr current_ptr) UX_MEMORY_BLOCK_HEADER_SIZE
    if available_bytes ≥ memory_size then .enough heap available_bytes
    else if heap.memory (add32 next_ptr 4) = UX_BYTE_BLOCK_FREE then
      .one (heap.join current_ptr) true current_ptr
    else .two heap true (heap.memory next_ptr)
  else .one heap first_free_block_found (heap.memory current_ptr)

/-- The loop itself, with `examine_blocks` more to examine. -/
def Heap.search_loop (memory_size : Nat) : Nat → Heap → Bool → Nat → Option Nat × Heap
  | 0, heap, _, _ => (none, heap)
  | examine_blocks + 1, heap, first_free_block_found, current_ptr =>
    match heap.examine memory_size first_free_block_found current_ptr with
    | .enough heap available_bytes => (if available_bytes = 0 then none else some current_ptr, heap)
    | .one heap found current_ptr => Heap.search_loop memory_size examine_blocks heap found current_ptr
    | .two heap found current_ptr =>
      match examine_blocks with
      | 0 => (none, heap)
      | examine_blocks + 1 => Heap.search_loop memory_size examine_blocks heap found current_ptr

/-- The loop examines one block at least, also if the count of the fragments is about to wrap. -/
def Heap._ux_utility_memory_byte_pool_search (heap : Heap) (memory_size : Nat) : Option Nat × Heap :=
  let total_theoretical_available :=
    add32 heap.pool.available (sub32 heap.pool.fragments 2 * UX_MEMORY_BLOCK_HEADER_SIZE)
  if memory_size ≥ total_theoretical_available then (none, heap)
  else if heap.pool.search < heap.pool.start ∨
      heap.pool.search > add32 heap.pool.start heap.pool.size then (none, heap)
  else
    Heap.search_loop memory_size (max 1 (add32 heap.pool.fragments 1)) heap false heap.pool.search

/-- The part of the block at `this` from `next` on becomes a free block of its own. -/
def Heap.split_block (heap : Heap) (this next : Nat) : Heap :=
  let heap := heap.write next (heap.memory this)
  let heap := heap.write (add32 next 4) UX_BYTE_BLOCK_FREE
  let heap :=
    { heap with pool := { heap.pool with fragments := add32 heap.pool.fragments 1 } }
  heap.write this next

/-- If the memory of the block does not begin at the alignment, its front stays behind as a free
    block. -/
def Heap.align_block (heap : Heap) (current_ptr available_bytes memory_alignment : Nat) :
    Heap × Nat × Nat :=
  let int_memory_buffer := add32 current_ptr UX_MEMORY_BLOCK_HEADER_SIZE
  if int_memory_buffer &&& memory_alignment ≠ 0 then
    let int_memory_buffer := add32 int_memory_buffer UX_MEMORY_BLOCK_HEADER_SIZE
    let int_memory_buffer := add32 int_memory_buffer memory_alignment
    let int_memory_buffer := clear32 int_memory_buffer memory_alignment
    let next_ptr := sub32 int_memory_buffer UX_MEMORY_BLOCK_HEADER_SIZE
    (heap.split_block current_ptr next_ptr, next_ptr,
      sub32 available_bytes (sub32 next_ptr current_ptr))
  else (heap, current_ptr, available_bytes)

/-- If enough of the block remains, what has not been requested becomes a free block. -/
def Heap.trim_block (heap : Heap) (current_ptr available_bytes memory_size_requested : Nat) :
    Heap × Nat :=
  if sub32 available_bytes memory_size_requested ≥ UX_BYTE_BLOCK_MIN then
    let next_ptr := add32 current_ptr (add32 memory_size_requested UX_MEMORY_BLOCK_HEADER_SIZE)
    (heap.split_block current_ptr next_ptr, memory_size_requested)
  else (heap, available_bytes)

/-- The block is in use from now on, with its memory cleared. -/
def Heap.use_block (heap : Heap) (current_ptr available_bytes : Nat) : Nat × Heap :=
  let heap := heap.write (add32 current_ptr 4) heap.pool_ptr
  let available :=
    sub32 heap.pool.available (add32 available_bytes UX_MEMORY_BLOCK_HEADER_SIZE)
  let search :=
    if current_ptr = heap.pool.search then heap.memory current_ptr else heap.pool.search
  let heap := { heap with pool := { heap.pool with available, search } }
  let work_ptr := add32 current_ptr UX_MEMORY_BLOCK_HEADER_SIZE
  (work_ptr, heap.clear work_ptr available_bytes)

/-- What becomes of the block that the search has found. -/
def Heap.take_block (heap : Heap) (current_ptr memory_alignment memory_size_requested : Nat) :
    Nat × Heap :=
  let available_bytes :=
    sub32 (sub32 (heap.memory current_ptr) current_ptr) UX_MEMORY_BLOCK_HEADER_SIZE
  let (heap, current_ptr, available_bytes) :=
    heap.align_block current_ptr available_bytes memory_alignment
  let (heap, available_bytes) := heap.trim_block current_ptr available_bytes memory_size_requested
  heap.use_block current_ptr available_bytes

/-- The alignment is given as a mask, without `UX_ENFORCE_SAFE_ALIGNMENT`. -/
def least_alignment (memory_alignment : Nat) : Nat :=
  let memory_alignment := if memory_alignment = UX_SAFE_ALIGN then UX_NO_ALIGN else memory_alignment
  if memory_alignment < UX_ALIGN_MIN then UX_ALIGN_MIN else memory_alignment

/-- The size is made a multiple of 8, and so is that of the header. -/
def rounded_size (memory_size_requested : Nat) : Nat :=
  let memory_size_requested := clear32 (add32 memory_size_requested UX_ALIGN_MIN) UX_ALIGN_MIN
  add32 memory_size_requested
    (sub32 (clear32 (add32 UX_MEMORY_BLOCK_HEADER_SIZE UX_ALIGN_MIN) UX_ALIGN_MIN)
      UX_MEMORY_BLOCK_HEADER_SIZE)

def Heap._ux_utility_memory_allocate (heap : Heap) (memory_alignment memory_cache_flag
    memory_size_requested : Nat) : Option Nat × Heap :=
  if memory_cache_flag ≠ UX_REGULAR_MEMORY ∧ memory_cache_flag ≠ UX_CACHE_SAFE_MEMORY then (none, heap)
  else if heap.pool_ptr = 0 then (none, heap)
  else if memory_size_requested = 0 then (none, heap)
  else
    let memory_alignment := least_alignment memory_alignment
    let memory_size_requested := rounded_size memory_size_requested
    let memory_size :=
      if memory_alignment ≤ UX_ALIGN_MIN then memory_size_requested
      else add32 memory_size_requested memory_alignment
    match heap._ux_utility_memory_byte_pool_search memory_size with
    | (none, heap) => (none, heap)
    | (some current_ptr, heap) =>
      let (work_ptr, heap) := heap.take_block current_ptr memory_alignment memory_size_requested
      (some work_ptr, heap)

/-- A pointer that is not to a block in use of the pool is reported and not freed. -/
def Heap._ux_utility_memory_free (heap : Heap) (memory : Nat) : Heap :=
  if memory = 0 then heap
  else
    let work_ptr := sub32 memory UX_MEMORY_BLOCK_HEADER_SIZE
    if heap.memory (add32 work_ptr 4) = UX_BYTE_BLOCK_FREE then heap
    else if heap.memory (add32 work_ptr 4) = 0 ∨ heap.memory (add32 work_ptr 4) ≠ heap.pool_ptr then heap
    else
      let heap := heap.write (add32 work_ptr 4) UX_BYTE_BLOCK_FREE
      let available := add32 heap.pool.available (sub32 (heap.memory work_ptr) work_ptr)
      let search := if work_ptr < heap.pool.search then work_ptr else heap.pool.search
      { heap with pool := { heap.pool with available, search } }

end keychain.usb
