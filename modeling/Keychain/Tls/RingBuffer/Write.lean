import Keychain.Tls.RingBuffer

namespace keychain.tls

/-- What one turn of the write loop does to the waiting bytes: it appends its
    byte if one more fits, and otherwise only counts it as lost. -/
theorem RB_Write_byte_spec {rb : RingBuffer} (h : rb.Valid) (written : Nat) (byte : UInt8) :
    (RB_Write_byte rb written byte).1.Valid ∧
      (RB_Write_byte rb written byte).1.tail = rb.tail ∧
      if rb.queue.length + 1 < RING_BUF_SIZE then
        (RB_Write_byte rb written byte).1.queue = rb.queue ++ [byte] ∧
          (RB_Write_byte rb written byte).1.overflow_count = rb.overflow_count ∧
          (RB_Write_byte rb written byte).2 = written + 1
      else
        (RB_Write_byte rb written byte).1.queue = rb.queue ∧
          (RB_Write_byte rb written byte).1.overflow_count = (rb.overflow_count + 1) % 2 ^ 32 ∧
          (RB_Write_byte rb written byte).2 = written := by
  have hlen := rb.length_queue
  have hfull := circular.succ_head_eq_tail_iff h.head_lt h.tail_lt
  have hdist : circular.distance RING_BUF_SIZE rb.head rb.tail < RING_BUF_SIZE :=
    circular.distance_lt h.head_lt
  by_cases hroom : (rb.head + 1) % RING_BUF_SIZE = rb.tail
  · have hno : ¬ rb.queue.length + 1 < RING_BUF_SIZE := by
      have := hfull.mp hroom
      omega
    rw [if_neg hno]
    simp only [RB_Write_byte, hroom, ne_eq, not_true_eq_false, if_false]
    exact ⟨⟨h.head_lt, h.tail_lt, Nat.mod_lt _ (by decide)⟩, trivial, rfl, trivial, trivial⟩
  · have hyes : rb.queue.length + 1 < RING_BUF_SIZE := by
      have : ¬ circular.distance RING_BUF_SIZE rb.head rb.tail + 1 = RING_BUF_SIZE :=
        fun heq => hroom (hfull.mpr heq)
      omega
    rw [if_pos hyes]
    simp only [RB_Write_byte, ne_eq, hroom, not_false_eq_true, if_true]
    refine ⟨⟨Nat.mod_lt _ (by decide), h.tail_lt, h.overflow_lt⟩, trivial, ?_, trivial, trivial⟩
    -- The stored cell is the first free one: `distance` steps behind the tail.
    have hcell := circular.add_distance_mod h.head_lt h.tail_lt
    simp only [RingBuffer.queue, circular.distance_succ_head h.head_lt h.tail_lt hroom]
    have hend := circular.window_update_end rb.buffer byte rb.tail hdist
    rwa [hcell] at hend

/-- The whole write, from any state of the ring: the bytes that fit are
    appended in order, the others are counted, nothing that waits is touched. -/
theorem RB_Write_loop_spec (data : List UInt8) {rb : RingBuffer} (h : rb.Valid) (written : Nat) :
    (RB_Write_loop rb written data).1.Valid ∧
      (RB_Write_loop rb written data).1.queue =
        rb.queue ++ data.take (RING_BUF_SIZE - 1 - rb.queue.length) ∧
      (RB_Write_loop rb written data).1.overflow_count =
        (rb.overflow_count + (data.length - (RING_BUF_SIZE - 1 - rb.queue.length))) % 2 ^ 32 ∧
      (RB_Write_loop rb written data).2 =
        written + min data.length (RING_BUF_SIZE - 1 - rb.queue.length) := by
  induction data generalizing rb written with
  | nil =>
    refine ⟨h, by simp [RB_Write_loop], ?_, by simp [RB_Write_loop]⟩
    rw [List.length_nil, Nat.zero_sub, Nat.add_zero, Nat.mod_eq_of_lt h.overflow_lt, RB_Write_loop]
  | cons byte data ih =>
    obtain ⟨hvalid, -, hbyte⟩ := RB_Write_byte_spec h written byte
    obtain ⟨hend, hqueue, hlost, hwritten⟩ := ih hvalid (RB_Write_byte rb written byte).2
    rw [RB_Write_loop]
    refine ⟨hend, ?_⟩
    rw [hqueue, hlost, hwritten]
    split_ifs at hbyte with hroom
    · obtain ⟨hq, ho, hw⟩ := hbyte
      have hfree : RING_BUF_SIZE - 1 - rb.queue.length =
          (RING_BUF_SIZE - 1 - (rb.queue.length + 1)) + 1 := by omega
      rw [hq, ho, hw, List.length_append, List.length_singleton, hfree]
      refine ⟨by simp, ?_, by simp only [List.length_cons]; omega⟩
      congr 2
      simp only [List.length_cons]
      omega
    · obtain ⟨hq, ho, hw⟩ := hbyte
      have hfree : RING_BUF_SIZE - 1 - rb.queue.length = 0 := by omega
      rw [hq, ho, hw, hfree]
      refine ⟨by simp, ?_, by simp⟩
      simp only [List.length_cons, Nat.sub_zero, Nat.mod_add_mod]
      congr 1
      omega

theorem RB_Write_valid {rb : RingBuffer} (h : rb.Valid) (data : List UInt8) :
    (RB_Write rb data).Valid :=
  (RB_Write_loop_spec data h 0).1

theorem RB_Write_queue {rb : RingBuffer} (h : rb.Valid) (data : List UInt8) :
    (RB_Write rb data).queue = rb.queue ++ data.take (RING_BUF_SIZE - 1 - rb.queue.length) :=
  (RB_Write_loop_spec data h 0).2.1

theorem RB_Write_overflow {rb : RingBuffer} (h : rb.Valid) (data : List UInt8) :
    (RB_Write rb data).overflow_count =
      (rb.overflow_count + (data.length - (RING_BUF_SIZE - 1 - rb.queue.length))) % 2 ^ 32 :=
  (RB_Write_loop_spec data h 0).2.2.1

/-- The local variable `bytes_written` ends as the number of appended bytes. -/
theorem RB_Write_written {rb : RingBuffer} (h : rb.Valid) (data : List UInt8) :
    (RB_Write_loop rb 0 data).2 = min data.length (RING_BUF_SIZE - 1 - rb.queue.length) := by
  have hwritten := (RB_Write_loop_spec data h 0).2.2.2
  rwa [Nat.zero_add] at hwritten

end keychain.tls
