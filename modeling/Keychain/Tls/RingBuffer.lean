import Keychain.Library.Circular

namespace keychain.tls

def RING_BUF_SIZE : Nat := 32768

/-- The receive ring of the TLS session. Both indices and the counter are 32-bit
    in the source; the indices are reduced modulo `RING_BUF_SIZE` at every step. -/
structure RingBuffer where
  buffer : Nat → UInt8
  head : Nat
  tail : Nat
  overflow_count : Nat

/-- The initializer of `rxRing`, which both resets of a session restore. The
    bytes that `buffer` holds at that moment are kept. -/
def RingBuffer.reset (rb : RingBuffer) : RingBuffer :=
  { rb with head := 0, tail := 0, overflow_count := 0 }

/-- One turn of the loop of `RB_Write`. The second component is its local
    variable `bytes_written`. -/
def RB_Write_byte (rb : RingBuffer) (bytes_written : Nat) (byte : UInt8) : RingBuffer × Nat :=
  let next_head := (rb.head + 1) % RING_BUF_SIZE
  if next_head ≠ rb.tail then
    ({ rb with buffer := Function.update rb.buffer rb.head byte, head := next_head },
      bytes_written + 1)
  else
    ({ rb with overflow_count := (rb.overflow_count + 1) % 2 ^ 32 }, bytes_written)

def RB_Write_loop : RingBuffer → Nat → List UInt8 → RingBuffer × Nat
  | rb, bytes_written, [] => (rb, bytes_written)
  | rb, bytes_written, byte :: data =>
    RB_Write_loop (RB_Write_byte rb bytes_written byte).1 (RB_Write_byte rb bytes_written byte).2 data

def RB_Write (rb : RingBuffer) (data : List UInt8) : RingBuffer :=
  (RB_Write_loop rb 0 data).1

/-- The loop of `RB_Read` with `room` turns left before `bytes_read` reaches
    `len`. The bytes it stores into `data` come first in the result. -/
def RB_Read_loop : Nat → RingBuffer → List UInt8 × RingBuffer
  | 0, rb => ([], rb)
  | room + 1, rb =>
    if rb.tail ≠ rb.head then
      let rest := RB_Read_loop room { rb with tail := (rb.tail + 1) % RING_BUF_SIZE }
      (rb.buffer rb.tail :: rest.1, rest.2)
    else
      ([], rb)

/-- `RB_Read` returns the number of the bytes listed first. A negative `len`
    never enters the loop. -/
def RB_Read (rb : RingBuffer) (len : Int) : List UInt8 × RingBuffer :=
  RB_Read_loop len.toNat rb

def RB_IsEmpty (rb : RingBuffer) : Bool :=
  rb.head == rb.tail

def RB_Available (rb : RingBuffer) : Int :=
  if rb.head ≥ rb.tail then (rb.head : Int) - rb.tail
  else RING_BUF_SIZE - ((rb.tail : Int) - rb.head)

/-- Both indices name cells of `buffer` and the counter fits its 32 bits. -/
structure RingBuffer.Valid (rb : RingBuffer) : Prop where
  head_lt : rb.head < RING_BUF_SIZE
  tail_lt : rb.tail < RING_BUF_SIZE
  overflow_lt : rb.overflow_count < 2 ^ 32

/-- The bytes waiting in the ring, oldest first. -/
def RingBuffer.queue (rb : RingBuffer) : List UInt8 :=
  circular.window RING_BUF_SIZE rb.buffer rb.tail (circular.distance RING_BUF_SIZE rb.head rb.tail)

theorem RingBuffer.length_queue (rb : RingBuffer) :
    rb.queue.length = circular.distance RING_BUF_SIZE rb.head rb.tail := by
  simp [RingBuffer.queue]

theorem RingBuffer.Valid.queue_eq_nil_iff {rb : RingBuffer} (h : rb.Valid) :
    rb.queue = [] ↔ rb.head = rb.tail := by
  rw [← List.length_eq_zero_iff, RingBuffer.length_queue, circular.distance_eq_zero_iff h.tail_lt]

@[simp] theorem RingBuffer.queue_reset (rb : RingBuffer) : rb.reset.queue = [] := by
  simp [RingBuffer.queue, RingBuffer.reset, circular.distance_self]

theorem RingBuffer.valid_reset (rb : RingBuffer) : rb.reset.Valid :=
  ⟨by simp [RingBuffer.reset, RING_BUF_SIZE], by simp [RingBuffer.reset, RING_BUF_SIZE],
    by simp [RingBuffer.reset]⟩

theorem RB_IsEmpty_iff {rb : RingBuffer} (h : rb.Valid) :
    RB_IsEmpty rb = true ↔ rb.queue = [] := by
  rw [h.queue_eq_nil_iff, RB_IsEmpty, beq_iff_eq]

/-- Both branches of `RB_Available` count the waiting bytes. -/
theorem RB_Available_eq {rb : RingBuffer} (h : rb.Valid) : RB_Available rb = rb.queue.length := by
  have htail := h.tail_lt
  rw [RingBuffer.length_queue, RB_Available, circular.distance]
  split_ifs <;> omega

end keychain.tls
