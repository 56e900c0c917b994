import Keychain.Usb.Traffic
import Mathlib.Data.BitVec

namespace keychain.tty

open usb

/-- A call of `ux_device_cdc_acm_tx`, and whether it repeats an earlier one. -/
structure TxCall where
  data : Nat
  len : Nat
  retry : Bool
  deriving DecidableEq

/-- The traffic on the IN endpoint together with the calls that led to it. -/
structure Recorded where
  traffic : Traffic
  calls : List TxCall

def Recorded.tx (r : Recorded) (retry : Bool) (i data len : Nat) : usb_result_e × Recorded :=
  let sent := r.traffic.tx i data len
  (sent.1, { traffic := sent.2, calls := r.calls ++ [⟨data, len, retry⟩] })

def Recorded.data_in_stages (count : Nat) (r : Recorded) : Recorded :=
  { r with traffic := r.traffic.data_in_stages count }

def Recorded.EmbedSend (r : Recorded) (i buf sz : Nat) : tls.Cbio × Recorded :=
  if usb_device_connected r.traffic.device = false then
    (.conn_rst, r)
  else
    let sent := r.tx false i buf (sz % 2 ^ 16)
    if sent.1 = .BUSY then (.want_write, sent.2) else (.count sz, sent.2)

/-- Only the first call of the loop is no retry. -/
def Recorded.send_loop (delay : Nat → Nat) (i data len : Nat) : Nat → Recorded → Bool × Recorded
  | 0, r => (false, r)
  | limit + 1, r =>
    let sent := r.tx (decide (limit + 1 < USB_RETRY_NUM)) i data len
    if sent.1 = .BUSY then
      if limit = 0 then (false, sent.2)
      else send_loop delay i data len limit (sent.2.data_in_stages (delay limit))
    else (true, sent.2)

def Recorded._usb_send_data (delay : Nat → Nat) (r : Recorded) (i data len : Nat) : Bool × Recorded :=
  if usb_device_connected r.traffic.device = false then (false, r)
  else r.send_loop delay i data (len % 2 ^ 16) USB_RETRY_NUM

/-- The loop of `_write` from the character `k` on, with its counter and the
    characters that `TTY_UART_PUTCHAR` accepts. It is told by `accepts` for which
    characters that returns true. -/
def write_loop (accepts : Nat → Bool) (ptr : Nat → UInt8) :
    Nat → BitVec 32 → Nat → Option (BitVec 32 × List UInt8)
  | 0, _, _ => none
  | fuel + 1, n, k =>
    if n = 0 then
      some (n - 1, [])
    else if accepts k then
      (write_loop accepts ptr fuel (n - 1) (k + 1)).map fun rest => (rest.1, ptr k :: rest.2)
    else
      some (n - 1, [])

/-- The result is what the function returns, with the characters accepted. -/
def _write (delay : Nat → Nat) (accepts : Nat → Bool) (r : Recorded) (i buf : Nat) (count : BitVec 32) :
    Option ((Int × List UInt8) × Recorded) :=
  let sent := (r._usb_send_data delay i buf count.toNat).2
  (write_loop accepts (fun k => sent.traffic.memory (buf + k)) (count.toNat + 1) count 0).map
    fun rest => (((count - rest.1).toInt, rest.2), sent)

def tty_put_binary (delay : Nat → Nat) (r : Recorded) (i data len : Nat) : Recorded :=
  (r._usb_send_data delay i data len).2

/-- The length of the string at an address, if its NUL is reached. -/
def strlen (memory : Nat → UInt8) : Nat → Nat → Option Nat
  | 0, _ => none
  | fuel + 1, s => if memory s = 0 then some 0 else (strlen memory fuel (s + 1)).map (· + 1)

/-- The loop of `tty_put_text` from the character `k` on. -/
def put_loop (accepts : Nat → Bool) (memory : Nat → UInt8) : Nat → Nat → Nat → Option (List UInt8)
  | 0, _, _ => none
  | fuel + 1, text, k =>
    if memory text = 0 then some []
    else
      (put_loop accepts memory fuel (text + 1) (k + 1)).map fun rest =>
        if accepts k then memory text :: rest else rest

def tty_put_text (delay : Nat → Nat) (accepts : Nat → Bool) (r : Recorded) (fuel i text : Nat) :
    Option (List UInt8 × Recorded) :=
  match strlen r.traffic.memory fuel text with
  | none => none
  | some len =>
    let sent := (r._usb_send_data delay i text len).2
    (put_loop accepts sent.traffic.memory fuel text 0).map fun out => (out, sent)

/-- The record does not change what happens. -/
theorem Recorded.EmbedSend_erase (r : Recorded) (i buf sz : Nat) :
    (r.EmbedSend i buf sz).1 = (usb.EmbedSend r.traffic i buf sz).1 ∧
      (r.EmbedSend i buf sz).2.traffic = (usb.EmbedSend r.traffic i buf sz).2 := by
  unfold Recorded.EmbedSend usb.EmbedSend
  split_ifs with hconnected
  · exact ⟨rfl, rfl⟩
  · dsimp only [Recorded.tx]
    split_ifs <;> exact ⟨rfl, rfl⟩

theorem Recorded.send_loop_erase (delay : Nat → Nat) (i data len limit : Nat) (r : Recorded) :
    (r.send_loop delay i data len limit).1 = (usb.send_loop delay i data len limit r.traffic).1 ∧
      (r.send_loop delay i data len limit).2.traffic =
        (usb.send_loop delay i data len limit r.traffic).2 := by
  induction limit generalizing r with
  | zero => exact ⟨rfl, rfl⟩
  | succ limit ih =>
    have hsame : (r.tx (decide (limit + 1 < USB_RETRY_NUM)) i data len).1 = (r.traffic.tx i data len).1 := rfl
    rw [Recorded.send_loop, usb.send_loop]
    by_cases hbusy : (r.traffic.tx i data len).1 = .BUSY
    · simp only [if_pos hbusy, if_pos (hsame.trans hbusy)]
      by_cases hlast : limit = 0
      · rw [if_pos hlast, if_pos hlast]
        exact ⟨rfl, rfl⟩
      · rw [if_neg hlast, if_neg hlast]
        exact ih _
    · simp only [if_neg hbusy, if_neg fun h => hbusy (hsame.symm.trans h)]
      exact ⟨trivial, rfl⟩

theorem Recorded._usb_send_data_erase (delay : Nat → Nat) (r : Recorded) (i data len : Nat) :
    (r._usb_send_data delay i data len).1 = (usb._usb_send_data delay r.traffic i data len).1 ∧
      (r._usb_send_data delay i data len).2.traffic =
        (usb._usb_send_data delay r.traffic i data len).2 := by
  unfold Recorded._usb_send_data usb._usb_send_data
  split_ifs
  · exact ⟨rfl, rfl⟩
  · exact r.send_loop_erase delay i data (len % 2 ^ 16) USB_RETRY_NUM

/-- How much of a buffer the calls of a function hand to the CDC class, not
    counting the retries. -/
def handed_over (before after : Recorded) (data : Nat) : Nat :=
  (((after.calls.drop before.calls.length).filter fun c => c.data = data && !c.retry).map (·.len)).sum

/-- Beyond its first call, the loop only retries that. -/
theorem Recorded.send_loop_retries (delay : Nat → Nat) (i data len : Nat) {limit : Nat}
    (hlimit : limit < USB_RETRY_NUM) (r : Recorded) :
    ∃ count, (r.send_loop delay i data len limit).2.calls =
      r.calls ++ List.replicate count ⟨data, len, true⟩ := by
  induction limit generalizing r with
  | zero => exact ⟨0, (List.append_nil _).symm⟩
  | succ limit ih =>
    have hretry : decide (limit + 1 < USB_RETRY_NUM) = true := decide_eq_true hlimit
    rw [Recorded.send_loop, hretry]
    split_ifs
    · exact ⟨1, rfl⟩
    · obtain ⟨count, hcount⟩ := ih (by omega) ((r.tx true i data len).2.data_in_stages (delay limit))
      refine ⟨count + 1, ?_⟩
      rw [hcount, List.replicate_succ, List.append_cons]
      rfl
    · exact ⟨1, rfl⟩

theorem Recorded._usb_send_data_calls {r : Recorded}
    (hconnected : usb_device_connected r.traffic.device = true) (delay : Nat → Nat) (i data len : Nat) :
    ∃ count, (r._usb_send_data delay i data len).2.calls =
      r.calls ++ ⟨data, len % 2 ^ 16, false⟩ :: List.replicate count ⟨data, len % 2 ^ 16, true⟩ := by
  have hfirst : decide (99 + 1 < USB_RETRY_NUM) = false := by decide
  have hlater : 99 < USB_RETRY_NUM := by decide
  rw [Recorded._usb_send_data, hconnected]
  simp only [Bool.true_eq_false, if_false]
  rw [show USB_RETRY_NUM = 99 + 1 from rfl, Recorded.send_loop, hfirst]
  split_ifs
  · exact ⟨0, rfl⟩
  · obtain ⟨count, hcount⟩ := Recorded.send_loop_retries delay i data (len % 2 ^ 16)
      hlater ((r.tx false i data (len % 2 ^ 16)).2.data_in_stages (delay 99))
    refine ⟨count, ?_⟩
    rw [hcount, List.append_cons]
    rfl
  · exact ⟨0, rfl⟩

/-- What a first call and its retries hand over is the length of the first call. -/
theorem handed_over_of_calls {before after : Recorded} {data len count : Nat}
    (h : after.calls =
      before.calls ++ ⟨data, len, false⟩ :: List.replicate count ⟨data, len, true⟩) :
    handed_over before after data = len := by
  have hretries : (List.replicate count (⟨data, len, true⟩ : TxCall)).filter
      (fun c => c.data = data && !c.retry) = [] := by
    rw [List.filter_eq_nil_iff]
    intro c hc
    rw [List.eq_of_mem_replicate hc]
    simp
  rw [handed_over, h, List.drop_left, List.filter_cons_of_pos (by simp), hretries]
  simp

theorem Recorded.EmbedSend_calls {r : Recorded}
    (hconnected : usb_device_connected r.traffic.device = true) (i buf sz : Nat) :
    (r.EmbedSend i buf sz).2.calls = r.calls ++ [⟨buf, sz % 2 ^ 16, false⟩] := by
  rw [Recorded.EmbedSend, hconnected]
  simp only [Bool.true_eq_false, if_false]
  split_ifs <;> rfl

/-- The characters in front of the first one that is refused. -/
def accepted (accepts : Nat → Bool) (ptr : Nat → UInt8) (k count : Nat) : List UInt8 :=
  ((List.range' k count).takeWhile accepts).map ptr

theorem accepted_succ (accepts : Nat → Bool) (ptr : Nat → UInt8) (k count : Nat) :
    accepted accepts ptr k (count + 1) =
      if accepts k then ptr k :: accepted accepts ptr (k + 1) count else [] := by
  rw [accepted, List.range'_succ, List.takeWhile_cons]
  split_ifs <;> rfl

/-- When the loop of `_write` ends, its counter has gone down by one more than the
    number of characters accepted. -/
theorem write_loop_eq (accepts : Nat → Bool) (ptr : Nat → UInt8) {fuel : Nat} {n : BitVec 32}
    (hfuel : n.toNat < fuel) (k : Nat) :
    write_loop accepts ptr fuel n k =
      some (n - BitVec.ofNat 32 ((accepted accepts ptr k n.toNat).length + 1),
        accepted accepts ptr k n.toNat) := by
  induction fuel generalizing n k with
  | zero => omega
  | succ fuel ih =>
    rw [write_loop]
    by_cases hzero : n = 0
    · rw [if_pos hzero, hzero]
      rfl
    · have hpos : n.toNat ≠ 0 := fun h => hzero (BitVec.eq_of_toNat_eq h)
      have hpred : n.toNat = (n - 1).toNat + 1 := by
        rw [BitVec.toNat_sub]
        change n.toNat = (2 ^ 32 - 1 + n.toNat) % 2 ^ 32 + 1
        omega
      rw [if_neg hzero, hpred, accepted_succ]
      cases haccepts : accepts k with
      | false => rfl
      | true =>
        have hsum : ∀ length : Nat,
            n - 1 - BitVec.ofNat 32 (length + 1) = n - BitVec.ofNat 32 (length + 1 + 1) := by
          intro length
          rw [BitVec.ofNat_add (length + 1) 1]
          change n - 1#32 - _ = n - (_ + 1#32)
          rw [sub_sub, add_comm]
        rw [if_pos rfl, if_pos rfl, ih (by omega), List.length_cons, ← hsum]
        rfl

/-- A count of characters and its successor differ as the C library reads them. -/
theorem toInt_succ_ne (length : Nat) :
    (BitVec.ofNat 32 (length + 1)).toInt ≠ length := by
  rw [BitVec.toInt_eq_toNat_cond, BitVec.toNat_ofNat]
  split_ifs <;> omega

theorem _write_eq (delay : Nat → Nat) (accepts : Nat → Bool) (r : Recorded) (i buf : Nat)
    (count : BitVec 32) :
    let sent := (r._usb_send_data delay i buf count.toNat).2
    let out := accepted accepts (fun k => sent.traffic.memory (buf + k)) 0 count.toNat
    _write delay accepts r i buf count =
      some (((BitVec.ofNat 32 (out.length + 1)).toInt, out), sent) := by
  intro sent out
  have hloop := write_loop_eq accepts (fun k => sent.traffic.memory (buf + k))
    (Nat.lt_succ_self count.toNat) 0
  rw [← sub_sub_cancel count (BitVec.ofNat 32 (out.length + 1))]
  exact congrArg (Option.map _) hloop

/-- `_write` returns one more than the number of characters accepted, for every
    buffer, every count and every pattern of acceptance. -/
theorem _write_never_reports_accepted (delay : Nat → Nat) (accepts : Nat → Bool) (r : Recorded)
    (i buf : Nat) (count : BitVec 32) :
    ∃ returned out sent, _write delay accepts r i buf count = some ((returned, out), sent) ∧
      out = accepted accepts (fun k => sent.traffic.memory (buf + k)) 0 count.toNat ∧
      returned = (BitVec.ofNat 32 (out.length + 1)).toInt ∧ returned ≠ out.length :=
  ⟨_, _, _, _write_eq delay accepts r i buf count, rfl, rfl, toInt_succ_ne _⟩

/-- One character is taken and 2 are reported; the first is refused and 1 is. -/
theorem _write_reports_one_more :
    let r : Recorded := ⟨Traffic.start fun a => UInt8.ofNat a, []⟩
    (_write (fun _ => 1) (fun _ => true) r 0 65 1).map (·.1) = some (2, [65]) ∧
      (_write (fun _ => 1) (fun _ => false) r 0 65 1).map (·.1) = some (1, []) := by
  decide

/-- A string of a length lies at an address. -/
def TextAt (memory : Nat → UInt8) (text n : Nat) : Prop :=
  (∀ k < n, memory (text + k) ≠ 0) ∧ memory (text + n) = 0

theorem TextAt.tail {memory : Nat → UInt8} {text n : Nat} (h : TextAt memory text (n + 1)) :
    memory text ≠ 0 ∧ TextAt memory (text + 1) n := by
  refine ⟨h.1 0 (Nat.succ_pos n), ?_, ?_⟩
  · intro k hk
    rw [Nat.add_assoc, Nat.add_comm 1 k]
    exact h.1 (k + 1) (Nat.succ_lt_succ hk)
  · rw [Nat.add_assoc, Nat.add_comm 1 n]
    exact h.2

theorem strlen_eq {memory : Nat → UInt8} {fuel text n : Nat} (h : TextAt memory text n)
    (hfuel : n < fuel) : strlen memory fuel text = some n := by
  induction fuel generalizing text n with
  | zero => omega
  | succ fuel ih =>
    cases n with
    | zero => exact if_pos h.2
    | succ n =>
      obtain ⟨hchar, htail⟩ := h.tail
      rw [strlen, if_neg hchar, ih htail (by omega)]
      rfl

theorem put_loop_isSome (accepts : Nat → Bool) {memory : Nat → UInt8} {fuel text n : Nat}
    (h : TextAt memory text n) (hfuel : n < fuel) (k : Nat) :
    ∃ out, put_loop accepts memory fuel text k = some out := by
  induction fuel generalizing text n k with
  | zero => omega
  | succ fuel ih =>
    cases n with
    | zero => exact ⟨[], if_pos h.2⟩
    | succ n =>
      obtain ⟨hchar, htail⟩ := h.tail
      obtain ⟨rest, hrest⟩ := ih htail (by omega) (k + 1)
      rw [put_loop, if_neg hchar, hrest]
      exact ⟨_, rfl⟩

theorem data_in_stages_memory (count : Nat) (t : Traffic) : (t.data_in_stages count).memory = t.memory := by
  induction count generalizing t with
  | zero => rfl
  | succ count ih => exact ih _

/-- Sending reads the memory only. -/
theorem Recorded.send_loop_memory (delay : Nat → Nat) (i data len limit : Nat) (r : Recorded) :
    (r.send_loop delay i data len limit).2.traffic.memory = r.traffic.memory := by
  induction limit generalizing r with
  | zero => rfl
  | succ limit ih =>
    rw [Recorded.send_loop]
    split_ifs
    · rfl
    · rw [ih]
      exact data_in_stages_memory _ _
    · rfl

theorem Recorded._usb_send_data_memory (delay : Nat → Nat) (r : Recorded) (i data len : Nat) :
    (r._usb_send_data delay i data len).2.traffic.memory = r.traffic.memory := by
  unfold Recorded._usb_send_data
  split_ifs
  · rfl
  · exact r.send_loop_memory delay i data _ _

theorem Recorded._usb_send_data_handed_over {r : Recorded}
    (hconnected : usb_device_connected r.traffic.device = true) (delay : Nat → Nat) (i data n : Nat) :
    handed_over r (r._usb_send_data delay i data n).2 data = n ↔ n < 2 ^ 16 := by
  obtain ⟨count, hcalls⟩ := r._usb_send_data_calls hconnected delay i data n
  rw [handed_over_of_calls hcalls]
  omega

/-- What the CDC class does with a buffer that it gets now. -/
def Recorded.write_run (r : Recorded) (data len : Nat) : (UX_STATE × Option Nat) × CdcAcm :=
  _ux_device_class_cdc_acm_write_run r.traffic.memory r.traffic.device.configured
    r.traffic.device.cdc_acm data len

/-- `EmbedSend` reports what the CDC class has said of the one write it makes. -/
theorem Recorded.EmbedSend_count {r : Recorded}
    (hconnected : usb_device_connected r.traffic.device = true) {i buf sz : Nat}
    (hcount : (r.EmbedSend i buf sz).1 = .count sz) :
    (r.write_run buf (sz % 2 ^ 16)).1 = (.NEXT, some (sz % 2 ^ 16)) ∧
      (r.EmbedSend i buf sz).2.traffic.device.cdc_acm = (r.write_run buf (sz % 2 ^ 16)).2 := by
  obtain ⟨hactivated, hconfigured⟩ := Bool.and_eq_true_iff.mp hconnected
  have htx := usb_cdc_tx_eq r.traffic.memory hactivated hconfigured buf (sz % 2 ^ 16)
  unfold Recorded.EmbedSend at hcount ⊢
  rw [Recorded.write_run, hconfigured]
  simp only [hconnected, Bool.true_eq_false, if_false, Recorded.tx, Traffic.tx, htx] at hcount ⊢
  generalize _ux_device_class_cdc_acm_write_run r.traffic.memory true r.traffic.device.cdc_acm buf
    (sz % 2 ^ 16) = ran at hcount ⊢
  by_cases hdone : ran.1 = (.NEXT, some (sz % 2 ^ 16))
  · simp [hdone]
  · rw [if_neg hdone, if_pos rfl] at hcount
    cases hcount

/-- While the device is connected, a buffer of `n` bytes reaches the CDC class as
    such from each of the four functions exactly if `n` fits 16 bits; and what
    `EmbedSend` reports as sent is then one write of all of it, which the class has
    ended with `n` as its `actual_length`. -/
theorem handed_over_iff {r : Recorded} (hconnected : usb_device_connected r.traffic.device = true)
    (delay : Nat → Nat) (accepts : Nat → Bool) (i data n : Nat) :
    ((handed_over r (r.EmbedSend i data n).2 data = n ∧
        ((r.EmbedSend i data n).1 = .count n →
          (r.EmbedSend i data n).2.calls = r.calls ++ [⟨data, n, false⟩] ∧
            (r.write_run data n).1 = (.NEXT, some n) ∧
            (r.EmbedSend i data n).2.traffic.device.cdc_acm = (r.write_run data n).2)) ↔ n < 2 ^ 16) ∧
      (∀ count : BitVec 32, count.toNat = n → ∃ returned sent,
        _write delay accepts r i data count = some (returned, sent) ∧
          (handed_over r sent data = n ↔ n < 2 ^ 16)) ∧
      (TextAt r.traffic.memory data n → ∀ fuel > n, ∃ out sent,
        tty_put_text delay accepts r fuel i data = some (out, sent) ∧
          (handed_over r sent data = n ↔ n < 2 ^ 16)) ∧
      (handed_over r (tty_put_binary delay r i data n) data = n ↔ n < 2 ^ 16) := by
  have hsent := Recorded._usb_send_data_handed_over hconnected delay i data n
  have hembed := r.EmbedSend_calls hconnected i data n
  refine ⟨?_, ?_, ?_, hsent⟩
  · have hcalls : (r.EmbedSend i data n).2.calls = r.calls ++
        ⟨data, n % 2 ^ 16, false⟩ :: List.replicate 0 ⟨data, n % 2 ^ 16, true⟩ := hembed
    rw [handed_over_of_calls hcalls]
    constructor
    · rintro ⟨hall, -⟩
      omega
    · intro hshort
      have hmod := Nat.mod_eq_of_lt hshort
      refine ⟨hmod, fun hcount => ?_⟩
      have hwrite := Recorded.EmbedSend_count hconnected hcount
      rw [hmod] at hwrite
      rw [hembed, hmod]
      exact ⟨rfl, hwrite⟩
  · intro count hcount
    subst hcount
    exact ⟨_, _, _write_eq delay accepts r i data count, hsent⟩
  · intro htext fuel hfuel
    obtain ⟨out, hout⟩ := put_loop_isSome accepts htext hfuel 0
    refine ⟨out, (r._usb_send_data delay i data n).2, ?_, hsent⟩
    unfold tty_put_text
    rw [strlen_eq htext hfuel]
    dsimp only
    rw [Recorded._usb_send_data_memory, hout]
    rfl

theorem handed_over_iff_short :
    let r : Recorded := ⟨Traffic.start fun a => if a < 3 then 65 else 0, []⟩
    ((handed_over r (r.EmbedSend 0 0 3).2 0 = 3 ∧
        ((r.EmbedSend 0 0 3).1 = .count 3 →
          (r.EmbedSend 0 0 3).2.calls = [] ++ [⟨0, 3, false⟩] ∧
            (r.write_run 0 3).1 = (.NEXT, some 3) ∧
            (r.EmbedSend 0 0 3).2.traffic.device.cdc_acm = (r.write_run 0 3).2)) ↔ 3 < 2 ^ 16) ∧
      (∀ count : BitVec 32, count.toNat = 3 → ∃ returned sent,
        _write (fun _ => 1) (fun _ => true) r 0 0 count = some (returned, sent) ∧
          (handed_over r sent 0 = 3 ↔ 3 < 2 ^ 16)) ∧
      (TextAt r.traffic.memory 0 3 → ∀ fuel > 3, ∃ out sent,
        tty_put_text (fun _ => 1) (fun _ => true) r fuel 0 0 = some (out, sent) ∧
          (handed_over r sent 0 = 3 ↔ 3 < 2 ^ 16)) ∧
      (handed_over r (tty_put_binary (fun _ => 1) r 0 0 3) 0 = 3 ↔ 3 < 2 ^ 16) :=
  handed_over_iff rfl (fun _ => 1) (fun _ => true) 0 0 3

/-- Of 65536 bytes none is handed over. The packet without bytes is taken by the
    host, and then `EmbedSend` reports all of them as sent. -/
theorem EmbedSend_reports_unsent :
    let r : Recorded := ⟨Traffic.start fun a => UInt8.ofNat a, []⟩
    let taken := (r.EmbedSend 0 0 65536).2.data_in_stages 1
    usb_device_connected taken.traffic.device = true ∧
      (taken.EmbedSend 0 0 65536).1 = .count 65536 ∧
      (taken.EmbedSend 0 0 65536).2.calls = [⟨0, 0, false⟩, ⟨0, 0, false⟩] ∧
      handed_over taken (taken.EmbedSend 0 0 65536).2 0 ≠ 65536 ∧
      (taken.EmbedSend 0 0 65536).2.traffic.wire = [] ∧
      handed_over r (tty_put_binary (fun _ => 1) r 0 0 65536) 0 ≠ 65536 := by
  decide

end keychain.tty
