import Keychain.Library.Machine
import Keychain.Tls.RingBuffer.Write
import Keychain.Tls.RingBuffer.Read

namespace keychain.tls

/-- What the ring is for: a queue of bytes with a bound on its length, and the
    number of the bytes that found it full. -/
structure Queue where
  items : List UInt8
  lost : Nat

def Queue.capacity : Nat := RING_BUF_SIZE - 1

def Queue.room (q : Queue) : Nat := Queue.capacity - q.items.length

/-- The calls that the rest of the firmware makes on the ring. -/
inductive RbCall where
  | write (data : List UInt8)
  | read (len : Int)
  | isEmpty
  | available

/-- What such a call gives back. A read returns its count and fills `data`. -/
inductive RbAnswer where
  | done
  | bytes (bytes_read : Int) (data : List UInt8)
  | empty (flag : Bool)
  | available (count : Int)
  deriving DecidableEq

def RbCall.step (rb : RingBuffer) : RbCall → RingBuffer × RbAnswer
  | .write data => (RB_Write rb data, .done)
  | .read len => ((RB_Read rb len).2, .bytes (RB_Read rb len).1.length (RB_Read rb len).1)
  | .isEmpty => (rb, .empty (RB_IsEmpty rb))
  | .available => (rb, .available (RB_Available rb))

/-- The same call on the queue. A read of `len` bytes takes
    `min (max len 0) size` of them. -/
def RbCall.spec (q : Queue) : RbCall → Queue × RbAnswer
  | .write data =>
    (⟨q.items ++ data.take q.room, (q.lost + (data.length - q.room)) % 2 ^ 32⟩, .done)
  | .read len =>
    (⟨q.items.drop (min (max len 0) q.items.length).toNat, q.lost⟩,
      .bytes (min (max len 0) q.items.length)
        (q.items.take (min (max len 0) q.items.length).toNat))
  | .isEmpty => (q, .empty (q.items.length == 0))
  | .available => (q, .available q.items.length)

/-- The indices stand for the queue: they are in range, the window between them
    is the queue's content and the counter is its number of lost bytes. -/
structure Refines (rb : RingBuffer) (q : Queue) : Prop where
  valid : rb.Valid
  items : rb.queue = q.items
  lost : rb.overflow_count = q.lost

theorem RbCall.step_refines (rb : RingBuffer) (q : Queue) (call : RbCall) (h : Refines rb q) :
    (call.step rb).2 = (call.spec q).2 ∧ Refines (call.step rb).1 (call.spec q).1 := by
  obtain ⟨hvalid, hitems, hlost⟩ := h
  cases call with
  | write data =>
    refine ⟨rfl, RB_Write_valid hvalid data, ?_, ?_⟩
    · simp only [RbCall.step, RbCall.spec, RB_Write_queue hvalid, hitems, Queue.room, Queue.capacity]
    · simp only [RbCall.step, RbCall.spec, RB_Write_overflow hvalid, hitems, hlost, Queue.room,
        Queue.capacity]
  | read len =>
    have hcount : (min (max len 0) (q.items.length : Int)).toNat = min len.toNat q.items.length := by
      omega
    have hback : (min (max len 0) (q.items.length : Int)) = (min len.toNat q.items.length : Nat) := by
      omega
    refine ⟨?_, RB_Read_valid hvalid len, ?_, ?_⟩
    · simp only [RbCall.step, RbCall.spec, RB_Read_bytes hvalid, hitems, List.length_take, hback,
        Int.toNat_natCast]
      congr 1
      rw [← List.take_eq_take_min]
    · simp only [RbCall.step, RbCall.spec, RB_Read_queue hvalid, hitems, hcount]
      rw [← List.drop_eq_drop_min]
    · simp only [RbCall.step, RbCall.spec, RB_Read_overflow hvalid, hlost]
  | isEmpty =>
    refine ⟨?_, hvalid, hitems, hlost⟩
    have hiff := RB_IsEmpty_iff hvalid
    rw [hitems, ← List.length_eq_zero_iff] at hiff
    simp only [RbCall.step, RbCall.spec, RbAnswer.empty.injEq]
    rw [Bool.eq_iff_iff, hiff, beq_iff_eq]
  | available =>
    refine ⟨?_, hvalid, hitems, hlost⟩
    simp only [RbCall.step, RbCall.spec, RB_Available_eq hvalid, hitems]

/-- Every sequence of calls on a ring whose indices start at zero, whatever its
    memory holds, answers as the bounded queue does and ends in a ring that
    represents the queue's final content. -/
theorem ring_buffer_refines_queue (buffer : Nat → UInt8) (calls : List RbCall) :
    (machine.run RbCall.step ⟨buffer, 0, 0, 0⟩ calls).2 =
        (machine.run RbCall.spec ⟨[], 0⟩ calls).2 ∧
      (machine.run RbCall.step ⟨buffer, 0, 0, 0⟩ calls).1.head < RING_BUF_SIZE ∧
      (machine.run RbCall.step ⟨buffer, 0, 0, 0⟩ calls).1.tail < RING_BUF_SIZE ∧
      (machine.run RbCall.step ⟨buffer, 0, 0, 0⟩ calls).1.queue =
        (machine.run RbCall.spec ⟨[], 0⟩ calls).1.items ∧
      (machine.run RbCall.step ⟨buffer, 0, 0, 0⟩ calls).1.overflow_count =
        (machine.run RbCall.spec ⟨[], 0⟩ calls).1.lost := by
  have hstart : Refines ⟨buffer, 0, 0, 0⟩ ⟨[], 0⟩ :=
    ⟨RingBuffer.valid_reset ⟨buffer, 0, 0, 0⟩, RingBuffer.queue_reset ⟨buffer, 0, 0, 0⟩, rfl⟩
  obtain ⟨hanswers, hvalid, hitems, hlost⟩ :=
    machine.run_refines RbCall.step RbCall.spec Refines RbCall.step_refines _ _ calls hstart
  exact ⟨hanswers, hvalid.head_lt, hvalid.tail_lt, hitems, hlost⟩

end keychain.tls
