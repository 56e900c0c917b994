import Keychain.Tls.RingBuffer

namespace keychain.tls

/-- One turn of the read loop takes the oldest waiting byte. -/
theorem RingBuffer.Valid.queue_cons {rb : RingBuffer} (h : rb.Valid) (hne : rb.tail ≠ rb.head) :
    rb.queue = rb.buffer rb.tail ::
      { rb with tail := (rb.tail + 1) % RING_BUF_SIZE : RingBuffer }.queue := by
  have hdist := circular.distance_succ_tail h.head_lt h.tail_lt hne
  simp only [RingBuffer.queue, ← hdist, circular.window_cons, Nat.mod_eq_of_lt h.tail_lt]

theorem RingBuffer.Valid.advance {rb : RingBuffer} (h : rb.Valid) :
    { rb with tail := (rb.tail + 1) % RING_BUF_SIZE : RingBuffer }.Valid :=
  ⟨h.head_lt, Nat.mod_lt _ (by decide), h.overflow_lt⟩

/-- With room for some bytes the read loop takes that many from the front of
    the queue, or all there are. -/
theorem RB_Read_loop_spec (room : Nat) {rb : RingBuffer} (h : rb.Valid) :
    (RB_Read_loop room rb).2.Valid ∧
      (RB_Read_loop room rb).1 = rb.queue.take room ∧
      (RB_Read_loop room rb).2.queue = rb.queue.drop room ∧
      (RB_Read_loop room rb).2.overflow_count = rb.overflow_count := by
  induction room generalizing rb with
  | zero => exact ⟨h, by simp [RB_Read_loop], by simp [RB_Read_loop], rfl⟩
  | succ room ih =>
    by_cases hne : rb.tail = rb.head
    · have hempty := h.queue_eq_nil_iff.mpr hne.symm
      simp [RB_Read_loop, hne, h, hempty]
    · obtain ⟨hvalid, hbytes, hqueue, hlost⟩ := ih h.advance
      simp only [RB_Read_loop, ne_eq, hne, not_false_eq_true, if_true]
      refine ⟨hvalid, ?_, ?_, hlost⟩
      · rw [hbytes, h.queue_cons hne, List.take_succ_cons]
      · rw [hqueue, h.queue_cons hne, List.drop_succ_cons]

theorem RB_Read_valid {rb : RingBuffer} (h : rb.Valid) (len : Int) : (RB_Read rb len).2.Valid :=
  (RB_Read_loop_spec len.toNat h).1

theorem RB_Read_bytes {rb : RingBuffer} (h : rb.Valid) (len : Int) :
    (RB_Read rb len).1 = rb.queue.take len.toNat :=
  (RB_Read_loop_spec len.toNat h).2.1

theorem RB_Read_queue {rb : RingBuffer} (h : rb.Valid) (len : Int) :
    (RB_Read rb len).2.queue = rb.queue.drop len.toNat :=
  (RB_Read_loop_spec len.toNat h).2.2.1

theorem RB_Read_overflow {rb : RingBuffer} (h : rb.Valid) (len : Int) :
    (RB_Read rb len).2.overflow_count = rb.overflow_count :=
  (RB_Read_loop_spec len.toNat h).2.2.2

/-- What is read and what stays make up what was waiting. -/
theorem RB_Read_append_queue {rb : RingBuffer} (h : rb.Valid) (len : Int) :
    (RB_Read rb len).1 ++ (RB_Read rb len).2.queue = rb.queue := by
  rw [RB_Read_bytes h, RB_Read_queue h, List.take_append_drop]

end keychain.tls
