import Keychain.Library.Circular

namespace keychain.tty

def USB_TTY_BUFFER_SIZE : Nat := 4 * 1024

/-- The command stream: `_usb_stream_buffer` with its two pointers. A pointer
    is advanced before the cell it names is stored or fetched. -/
structure UsbStream where
  buffer : Nat → UInt8
  wr_ptr : Nat
  rd_ptr : Nat

/-- `if (++ptr >= USB_TTY_BUFFER_SIZE) ptr = 0`. -/
def next_ptr (ptr : Nat) : Nat :=
  if ptr + 1 ≥ USB_TTY_BUFFER_SIZE then 0 else ptr + 1

/-- The copying loop of `_usb_rx_handler`, on its private copy of the write
    pointer. The flag is false if the loop ran into the read pointer. -/
def usb_rx_loop : UsbStream → List UInt8 → UsbStream × Bool
  | s, [] => (s, true)
  | s, byte :: buf =>
    if next_ptr s.wr_ptr = s.rd_ptr then
      (s, false)
    else
      usb_rx_loop { s with
        buffer := Function.update s.buffer (next_ptr s.wr_ptr) byte
        wr_ptr := next_ptr s.wr_ptr } buf

/-- The command-mode part of `_usb_rx_handler`. The private pointer is committed
    only when the whole packet was copied; otherwise `ERROR: USB RX overflow !`
    is printed and the flag is false. The bytes copied by then stay in `buffer`. -/
def usb_rx_command (s : UsbStream) (buf : List UInt8) : UsbStream × Bool :=
  let copied := usb_rx_loop s buf
  if copied.2 then (copied.1, true) else ({ copied.1 with wr_ptr := s.wr_ptr }, false)

/-- The character is an unsigned byte, and `-1` stands for an empty stream. -/
def _usb_getchar (s : UsbStream) : Int × UsbStream :=
  if s.rd_ptr = s.wr_ptr then
    (-1, s)
  else
    ((s.buffer (next_ptr s.rd_ptr)).toNat, { s with rd_ptr := next_ptr s.rd_ptr })

structure UsbStream.Valid (s : UsbStream) : Prop where
  wr_lt : s.wr_ptr < USB_TTY_BUFFER_SIZE
  rd_lt : s.rd_ptr < USB_TTY_BUFFER_SIZE

/-- The bytes that `_usb_getchar` has yet to return, oldest first. -/
def UsbStream.queue (s : UsbStream) : List UInt8 :=
  circular.window USB_TTY_BUFFER_SIZE s.buffer (s.rd_ptr + 1)
    (circular.distance USB_TTY_BUFFER_SIZE s.wr_ptr s.rd_ptr)

/-- A packet fits if one cell stays free after it. -/
def UsbStream.Fits (s : UsbStream) (buf : List UInt8) : Prop :=
  s.queue.length + buf.length ≤ USB_TTY_BUFFER_SIZE - 1

instance (s : UsbStream) (buf : List UInt8) : Decidable (s.Fits buf) :=
  inferInstanceAs (Decidable (_ ≤ _))

theorem next_ptr_eq_mod {ptr : Nat} (h : ptr < USB_TTY_BUFFER_SIZE) :
    next_ptr ptr = (ptr + 1) % USB_TTY_BUFFER_SIZE := by
  rw [circular.succ_mod_eq h, next_ptr]
  split_ifs <;> omega

theorem next_ptr_lt (ptr : Nat) : next_ptr ptr < USB_TTY_BUFFER_SIZE := by
  unfold next_ptr
  split_ifs
  · decide
  · omega

theorem UsbStream.length_queue (s : UsbStream) :
    s.queue.length = circular.distance USB_TTY_BUFFER_SIZE s.wr_ptr s.rd_ptr := by
  simp [UsbStream.queue]

/-- The cell behind the write pointer is the first one after the queue. -/
theorem UsbStream.Valid.next_cell {s : UsbStream} (h : s.Valid) :
    next_ptr s.wr_ptr = (s.rd_ptr + 1 + s.queue.length) % USB_TTY_BUFFER_SIZE := by
  have hcell := circular.add_distance_mod h.wr_lt h.rd_lt
  rw [next_ptr_eq_mod h.wr_lt, s.length_queue, Nat.add_right_comm, Nat.add_mod (_ + _), hcell,
    ← Nat.add_mod_mod]

/-- One turn of the copying loop that finds a free cell appends its byte. -/
theorem UsbStream.Valid.push {s : UsbStream} (h : s.Valid) (byte : UInt8)
    (hroom : next_ptr s.wr_ptr ≠ s.rd_ptr) :
    { s with
      buffer := Function.update s.buffer (next_ptr s.wr_ptr) byte
      wr_ptr := next_ptr s.wr_ptr : UsbStream }.Valid ∧
    { s with
      buffer := Function.update s.buffer (next_ptr s.wr_ptr) byte
      wr_ptr := next_ptr s.wr_ptr : UsbStream }.queue = s.queue ++ [byte] := by
  have hlen := s.length_queue
  have hdist : circular.distance USB_TTY_BUFFER_SIZE s.wr_ptr s.rd_ptr < USB_TTY_BUFFER_SIZE :=
    circular.distance_lt h.wr_lt
  have hgrow : circular.distance USB_TTY_BUFFER_SIZE (next_ptr s.wr_ptr) s.rd_ptr =
      circular.distance USB_TTY_BUFFER_SIZE s.wr_ptr s.rd_ptr + 1 := by
    rw [next_ptr_eq_mod h.wr_lt] at hroom ⊢
    exact circular.distance_succ_head h.wr_lt h.rd_lt hroom
  refine ⟨⟨next_ptr_lt _, h.rd_lt⟩, ?_⟩
  simp only [UsbStream.queue, hgrow]
  rw [h.next_cell, hlen]
  exact circular.window_update_end s.buffer byte (s.rd_ptr + 1) hdist

/-- The loop stops early exactly when the write pointer is one step behind the
    read pointer, that is when all cells but one are queued. -/
theorem UsbStream.Valid.full_iff {s : UsbStream} (h : s.Valid) :
    next_ptr s.wr_ptr = s.rd_ptr ↔ s.queue.length + 1 = USB_TTY_BUFFER_SIZE := by
  rw [next_ptr_eq_mod h.wr_lt, circular.succ_head_eq_tail_iff h.wr_lt h.rd_lt, s.length_queue]

/-- The copying loop never touches a queued byte. It succeeds exactly when the
    packet fits, and then the queue is followed by the packet. -/
theorem usb_rx_loop_spec (buf : List UInt8) {s : UsbStream} (h : s.Valid) :
    (usb_rx_loop s buf).1.Valid ∧ (usb_rx_loop s buf).1.rd_ptr = s.rd_ptr ∧
      (∀ count ≤ s.queue.length,
        circular.window USB_TTY_BUFFER_SIZE (usb_rx_loop s buf).1.buffer (s.rd_ptr + 1) count =
          circular.window USB_TTY_BUFFER_SIZE s.buffer (s.rd_ptr + 1) count) ∧
      if s.Fits buf then
        (usb_rx_loop s buf).2 = true ∧ (usb_rx_loop s buf).1.queue = s.queue ++ buf
      else (usb_rx_loop s buf).2 = false := by
  induction buf generalizing s with
  | nil =>
    have hfits : s.Fits [] := by
      have hlen := s.length_queue
      have : circular.distance USB_TTY_BUFFER_SIZE s.wr_ptr s.rd_ptr < USB_TTY_BUFFER_SIZE :=
        circular.distance_lt h.wr_lt
      simp only [UsbStream.Fits, List.length_nil]
      omega
    rw [if_pos hfits]
    exact ⟨h, rfl, fun _ _ => rfl, rfl, by simp [usb_rx_loop]⟩
  | cons byte buf ih =>
    by_cases hroom : next_ptr s.wr_ptr = s.rd_ptr
    · have hno : ¬ s.Fits (byte :: buf) := by
        have := h.full_iff.mp hroom
        simp only [UsbStream.Fits, List.length_cons]
        omega
      rw [if_neg hno, usb_rx_loop, if_pos hroom]
      exact ⟨h, rfl, fun _ _ => rfl, rfl⟩
    · obtain ⟨hvalid, hqueue⟩ := h.push byte hroom
      obtain ⟨hend, hrd, hkeep, hfits⟩ := ih hvalid
      rw [usb_rx_loop, if_neg hroom]
      refine ⟨hend, hrd, ?_, ?_⟩
      · intro count hcount
        have hlen := s.length_queue
        have hdist : circular.distance USB_TTY_BUFFER_SIZE s.wr_ptr s.rd_ptr < USB_TTY_BUFFER_SIZE :=
          circular.distance_lt h.wr_lt
        rw [hkeep count (by rw [hqueue, List.length_append]; omega), h.next_cell]
        exact circular.window_update_beyond s.buffer byte (s.rd_ptr + 1) hcount (by omega)
      · simp only [UsbStream.Fits, hqueue, List.length_append, List.length_cons, List.length_nil,
          Nat.add_assoc, Nat.add_comm 1, List.append_assoc, List.cons_append, List.nil_append]
          at hfits ⊢
        exact hfits

/-- A packet is taken as a whole if it fits and leaves the queue as it was if
    not; the stream stays valid either way. -/
theorem usb_rx_command_spec {s : UsbStream} (h : s.Valid) (buf : List UInt8) :
    (usb_rx_command s buf).1.Valid ∧ ((usb_rx_command s buf).2 = true ↔ s.Fits buf) ∧
      (usb_rx_command s buf).1.queue = if s.Fits buf then s.queue ++ buf else s.queue := by
  obtain ⟨hend, hrd, hkeep, hfits⟩ := usb_rx_loop_spec buf h
  by_cases hfit : s.Fits buf
  · rw [if_pos hfit] at hfits ⊢
    simp only [usb_rx_command, hfits.1, if_true, hfit]
    exact ⟨hend, trivial, hfits.2⟩
  · rw [if_neg hfit] at hfits ⊢
    simp only [usb_rx_command, hfits, Bool.false_eq_true, if_false, hfit]
    refine ⟨⟨h.wr_lt, hend.rd_lt⟩, trivial, ?_⟩
    simp only [UsbStream.queue, hrd]
    exact hkeep _ (Nat.le_of_eq s.length_queue.symm)

/-- A character is taken from the front of the queue as its unsigned value, and
    the answer is `-1` exactly when there is none. -/
theorem _usb_getchar_spec {s : UsbStream} (h : s.Valid) :
    (_usb_getchar s).2.Valid ∧
      match s.queue with
      | [] => _usb_getchar s = (-1, s)
      | byte :: rest => (_usb_getchar s).1 = (byte.toNat : Int) ∧ (_usb_getchar s).2.queue = rest := by
  by_cases hempty : s.rd_ptr = s.wr_ptr
  · have hnil : s.queue = [] := by
      rw [← List.length_eq_zero_iff, s.length_queue, circular.distance_eq_zero_iff h.rd_lt, hempty]
    rw [hnil]
    simp only [_usb_getchar, hempty, if_true, and_true]
    exact h
  · have hdist := circular.distance_succ_tail h.wr_lt h.rd_lt hempty
    have hqueue : s.queue = s.buffer (next_ptr s.rd_ptr) ::
        { s with rd_ptr := next_ptr s.rd_ptr : UsbStream }.queue := by
      simp only [UsbStream.queue, next_ptr_eq_mod h.rd_lt]
      rw [← hdist, circular.window_cons]
      congr 1
      simp only [circular.window, Nat.mod_add_mod, Nat.add_assoc]
    rw [hqueue]
    simp only [_usb_getchar, if_neg hempty, and_self, and_true]
    exact ⟨h.wr_lt, next_ptr_lt _⟩

end keychain.tty
