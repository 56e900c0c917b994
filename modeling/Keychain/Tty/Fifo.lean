import Keychain.Library.Fifo
import Keychain.Tty.UsbStream

namespace keychain.tty

/-- What `_usb_getchar` returns for an item: its value as an unsigned `char`, or
    `-1` for none. -/
def char_value : Option UInt8 → Int
  | none => -1
  | some byte => byte.toNat

/-- What a call on the stream tells its caller. -/
inductive StreamAnswer where
  | packet (accepted : Bool)
  | char (ch : Int)

/-- `_usb_rx_handler` with no TLS session, or `_usb_getchar`. -/
def UsbStream.call (s : UsbStream) : fifo.Call UInt8 → UsbStream × StreamAnswer
  | .offer buf => ((usb_rx_command s buf).1, .packet (usb_rx_command s buf).2)
  | .take => ((_usb_getchar s).2, .char (_usb_getchar s).1)

/-- The stream before its first call, whatever the array holds. -/
def UsbStream.start (buffer : Nat → UInt8) : UsbStream :=
  ⟨buffer, 0, 0⟩

def StreamAnswer.of : fifo.Answer UInt8 → StreamAnswer
  | .offered accepted => .packet accepted
  | .taken item => .char (char_value item)

theorem UsbStream.start_valid (buffer : Nat → UInt8) : (UsbStream.start buffer).Valid :=
  have hpos : 0 < USB_TTY_BUFFER_SIZE := by decide
  ⟨hpos, hpos⟩

theorem UsbStream.queue_start (buffer : Nat → UInt8) : (UsbStream.start buffer).queue = [] := by
  rw [← List.length_eq_zero_iff, UsbStream.length_queue]
  exact (circular.distance_eq_zero_iff (UsbStream.start_valid buffer).rd_lt).mpr rfl

/-- One call on a valid stream is one call on the bounded queue of its bytes. -/
theorem UsbStream.Valid.call_spec {s : UsbStream} (h : s.Valid) (call : fifo.Call UInt8) :
    (s.call call).1.Valid ∧
      (s.call call).1.queue = (fifo.step (USB_TTY_BUFFER_SIZE - 1) s.queue call).1 ∧
      (s.call call).2 = .of (fifo.step (USB_TTY_BUFFER_SIZE - 1) s.queue call).2 := by
  cases call with
  | offer buf =>
    obtain ⟨hvalid, haccepted, hqueue⟩ := usb_rx_command_spec h buf
    refine ⟨hvalid, ?_⟩
    change (usb_rx_command s buf).1.queue = (if s.Fits buf then _ else _ : _ × _).1 ∧
      StreamAnswer.packet (usb_rx_command s buf).2 = .of (if s.Fits buf then _ else _ : _ × _).2
    by_cases hfits : s.Fits buf
    · rw [if_pos hfits] at hqueue ⊢
      rw [hqueue, haccepted.mpr hfits]
      exact ⟨rfl, rfl⟩
    · have hdropped : (usb_rx_command s buf).2 = false := by
        simpa [hfits] using haccepted
      rw [if_neg hfits] at hqueue ⊢
      rw [hqueue, hdropped]
      exact ⟨rfl, rfl⟩
  | take =>
    obtain ⟨hvalid, hmatch⟩ := _usb_getchar_spec h
    refine ⟨hvalid, ?_⟩
    simp only [UsbStream.call]
    cases hqueue : s.queue with
    | nil =>
      rw [hqueue] at hmatch
      rw [hmatch]
      exact ⟨hqueue, rfl⟩
    | cons byte rest =>
      rw [hqueue] at hmatch
      rw [hmatch.1]
      exact ⟨hmatch.2, rfl⟩

/-- The characters that the calls returned, without the `-1` of an empty stream. -/
def chars_returned : List StreamAnswer → List Int
  | [] => []
  | .char ch :: answers => if ch = -1 then chars_returned answers else ch :: chars_returned answers
  | .packet _ :: answers => chars_returned answers

/-- The bytes of the packets that were accepted. -/
def bytes_accepted : List (fifo.Call UInt8) → List StreamAnswer → List UInt8
  | .offer buf :: calls, .packet true :: answers => buf ++ bytes_accepted calls answers
  | _ :: calls, _ :: answers => bytes_accepted calls answers
  | _, _ => []

theorem chars_returned_map (answers : List (fifo.Answer UInt8)) :
    chars_returned (answers.map .of) = (fifo.returned answers).map fun byte => (byte.toNat : Int) := by
  induction answers with
  | nil => rfl
  | cons answer answers ih =>
    cases answer with
    | offered accepted => exact ih
    | taken item =>
      cases item with
      | none => exact ih
      | some byte =>
        have hne : (byte.toNat : Int) ≠ -1 := by omega
        simp [StreamAnswer.of, char_value, chars_returned, fifo.returned, hne, ih]

theorem bytes_accepted_map (calls : List (fifo.Call UInt8)) (answers : List (fifo.Answer UInt8)) :
    bytes_accepted calls (answers.map .of) = fifo.accepted calls answers := by
  induction calls generalizing answers with
  | nil => cases answers <;> rfl
  | cons call calls ih =>
    cases answers with
    | nil => cases call <;> rfl
    | cons answer answers =>
      have hrest := ih answers
      cases call with
      | take => exact hrest
      | offer buf =>
        cases answer with
        | taken item => exact hrest
        | offered accepted =>
          cases accepted with
          | false => exact hrest
          | true => exact congrArg (buf ++ ·) hrest

/-- Whatever packets arrive and however the reading falls between them, both
    pointers stay inside the array, and the stream answers as a queue of
    `USB_TTY_BUFFER_SIZE - 1` bytes that takes a packet as a whole or leaves it.
    The characters returned and those still queued are the bytes of the accepted
    packets, each once and in order. -/
theorem usb_stream_refines_fifo (buffer : Nat → UInt8) (calls : List (fifo.Call UInt8)) :
    let final := machine.run UsbStream.call (.start buffer) calls
    let queued := machine.run (fifo.step (USB_TTY_BUFFER_SIZE - 1)) [] calls
    (∀ s, machine.Reached UsbStream.call (.start buffer) calls s →
      s.wr_ptr < USB_TTY_BUFFER_SIZE ∧ s.rd_ptr < USB_TTY_BUFFER_SIZE) ∧
      final.2 = queued.2.map .of ∧ final.1.queue = queued.1 ∧
      chars_returned final.2 ++ final.1.queue.map (fun byte => (byte.toNat : Int)) =
        (bytes_accepted calls final.2).map fun byte => (byte.toNat : Int) := by
  intro final queued
  obtain ⟨hanswers, -, hqueue⟩ := machine.run_refines UsbStream.call
    (fun queue call => ((fifo.step (USB_TTY_BUFFER_SIZE - 1) queue call).1,
      StreamAnswer.of (fifo.step (USB_TTY_BUFFER_SIZE - 1) queue call).2))
    (fun s queue => s.Valid ∧ s.queue = queue)
    (by
      rintro s queue call ⟨hvalid, rfl⟩
      obtain ⟨hnext, hqueue, hanswer⟩ := hvalid.call_spec call
      exact ⟨hanswer, hnext, hqueue⟩)
    (.start buffer) [] calls ⟨UsbStream.start_valid buffer, UsbStream.queue_start buffer⟩
  rw [machine.run_map_output] at hanswers hqueue
  have hconserves := fifo.run_conserves (USB_TTY_BUFFER_SIZE - 1) [] calls
  refine ⟨?_, hanswers, hqueue, ?_⟩
  · rintro s ⟨before, after, -, rfl⟩
    have hvalid := machine.run_invariant UsbStream.call UsbStream.Valid (fun _ => True)
      (fun s call h _ => (h.call_spec call).1) (.start buffer) before
      (UsbStream.start_valid buffer) (fun _ _ => trivial)
    exact ⟨hvalid.wr_lt, hvalid.rd_lt⟩
  · rw [hanswers, hqueue, chars_returned_map, bytes_accepted_map, ← List.map_append]
    exact congrArg _ hconserves.symm

end keychain.tty
