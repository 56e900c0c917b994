import Keychain.Library.Fifo
import Keychain.Uart.Lpuart

namespace keychain.uart

/-- A byte is received, one of the two functions is called, or the transmitter
    asks for a character. -/
inductive Call where
  | received (c : UInt8)
  | getchar
  | putchar (c : UInt8)
  | transmit

/-- What can be seen of a call. The first tells whether a byte that was received
    has been counted in, the last what has been written to `TDR`. -/
inductive Answer where
  | received (counted : Bool)
  | char (ch : Int)
  | accepted (ok : Bool)
  | sent (chars : List UInt8)

def uart_t.call (u1 : uart_t) : Call → uart_t × Answer
  | .received c => (_u1_rx u1 c, .received (decide ((_u1_rx u1 c).rx.wr_cnt ≠ u1.rx.wr_cnt)))
  | .getchar => ((uart1_getchar u1).2, .char (uart1_getchar u1).1)
  | .putchar c => ((uart1_putchar u1 c).2, .accepted (uart1_putchar u1 c).1)
  | .transmit => (transmit u1, .sent ((transmit u1).TDR.drop u1.TDR.length))

/-- The calls that concern the receive ring, as calls of a queue. -/
def Call.on_rx : Call → Option (fifo.Call UInt8)
  | .received c => some (.offer [c])
  | .getchar => some .take
  | _ => none

def Call.on_tx : Call → Option (fifo.Call UInt8)
  | .putchar c => some (.offer [c])
  | .transmit => some .take
  | _ => none

/-- The character that a result of `uart1_getchar` stands for. -/
def char_item (ch : Int) : Option UInt8 :=
  if ch = -1 then none else some (UInt8.ofNat ch.toNat)

def Answer.on_rx : Answer → Option (fifo.Answer UInt8)
  | .received counted => some (.offered counted)
  | .char ch => some (.taken (char_item ch))
  | _ => none

def Answer.on_tx : Answer → Option (fifo.Answer UInt8)
  | .accepted ok => some (.offered ok)
  | .sent chars => some (.taken chars.head?)
  | _ => none

/-- A ring of the state has the size that its counters say, which is at most its
    depth, and indices in range that go with the counters. -/
structure Ring.Sound (depth : Nat) (r : Ring) : Prop where
  size_eq : (r.wr_cnt - r.rd_cnt).toNat = (r.queue depth).length
  size_le : (r.queue depth).length ≤ depth
  wr_lt : r.wr_index < depth
  rd_lt : r.rd_index < depth
  wr_index : r.wr_index = r.wr_cnt.toNat % depth
  rd_index : r.rd_index = r.rd_cnt.toNat % depth

/-- Both rings are sound, and a byte is dropped or refused exactly if its ring
    is full. -/
structure uart_t.Sound (u1 : uart_t) : Prop where
  rx : u1.rx.Sound UART1_RX_BUF_DEPTH
  tx : u1.tx.Sound UART1_TX_BUF_DEPTH
  drops : ∀ c, (u1.call (.received c)).2 = .received false ↔
    (u1.rx.queue UART1_RX_BUF_DEPTH).length = UART1_RX_BUF_DEPTH
  refuses : ∀ c, (u1.call (.putchar c)).2 = .accepted false ↔
    (u1.tx.queue UART1_TX_BUF_DEPTH).length = UART1_TX_BUF_DEPTH

/-- The invariant of the two rings. -/
structure uart_t.Valid (u1 : uart_t) : Prop where
  rx : u1.rx.Valid UART1_RX_BUF_DEPTH
  tx : u1.tx.Valid UART1_TX_BUF_DEPTH

theorem rx_depth : UART1_RX_BUF_DEPTH ∣ 2 ^ 32 ∧ UART1_RX_BUF_DEPTH < 2 ^ 32 := by decide

theorem tx_depth : UART1_TX_BUF_DEPTH ∣ 2 ^ 32 ∧ UART1_TX_BUF_DEPTH < 2 ^ 32 := by decide

theorem Ring.Valid.sound {depth : Nat} (hpos : 0 < depth) {r : Ring} (h : r.Valid depth) : r.Sound depth where
  size_eq := (r.length_queue depth).symm
  size_le := by
    rw [r.length_queue]
    exact h.size_le
  wr_lt := h.wr_index ▸ Nat.mod_lt _ hpos
  rd_lt := h.rd_index ▸ Nat.mod_lt _ hpos
  wr_index := h.wr_index
  rd_index := h.rd_index

theorem fifo_step_offer (depth : Nat) (r : Ring) (c : UInt8) :
    fifo.step depth (r.queue depth) (.offer [c]) =
      if r.size < depth then (r.queue depth ++ [c], .offered true) else (r.queue depth, .offered false) := by
  rw [fifo.step, r.length_queue]
  exact if_congr Nat.lt_iff_add_one_le.symm rfl rfl

theorem fifo_step_take (depth : Nat) {r : Ring} (hempty : r.rd_cnt = r.wr_cnt) :
    fifo.step depth (r.queue depth) .take = (r.queue depth, .taken none) := by
  rw [Ring.queue_eq_nil hempty]
  rfl

theorem char_item_toNat (c : UInt8) : char_item c.toNat = some c := by
  rw [char_item, if_neg (by omega), Int.toNat_natCast, UInt8.ofNat_toNat]

theorem succ_cnt_ne (cnt : BitVec 32) : cnt + 1 ≠ cnt := by
  intro hsame
  have hzero : (1 : BitVec 32) = 0 := by
    rw [← add_sub_cancel_left cnt 1, hsame, sub_self]
  exact absurd hzero (by decide)

/-- A byte that is received is offered to the queue of the receive ring. -/
theorem _u1_rx_spec {u1 : uart_t} (h : u1.rx.Valid UART1_RX_BUF_DEPTH) (c : UInt8) :
    (_u1_rx u1 c).rx.Valid UART1_RX_BUF_DEPTH ∧ (_u1_rx u1 c).tx = u1.tx ∧
      ((_u1_rx u1 c).rx.queue UART1_RX_BUF_DEPTH,
          .offered (decide ((_u1_rx u1 c).rx.wr_cnt ≠ u1.rx.wr_cnt))) =
        fifo.step UART1_RX_BUF_DEPTH (u1.rx.queue UART1_RX_BUF_DEPTH) (.offer [c]) := by
  rw [fifo_step_offer]
  by_cases hroom : u1.rx.size < UART1_RX_BUF_DEPTH
  · have hput : _u1_rx u1 c = { u1 with rx := u1.rx.put UART1_RX_BUF_DEPTH c } :=
      if_neg (Nat.not_le.mpr hroom)
    obtain ⟨hvalid, hqueue⟩ := h.put rx_depth.1 rx_depth.2 hroom c
    have hcounted : (u1.rx.put UART1_RX_BUF_DEPTH c).wr_cnt ≠ u1.rx.wr_cnt := succ_cnt_ne u1.rx.wr_cnt
    rw [hput, if_pos hroom, hqueue, decide_eq_true hcounted]
    exact ⟨hvalid, rfl, rfl⟩
  · have hdrop : _u1_rx u1 c = u1 := if_pos (Nat.not_lt.mp hroom)
    rw [hdrop, if_neg hroom, decide_eq_false (not_not.mpr rfl)]
    exact ⟨h, rfl, rfl⟩

/-- What `uart1_getchar` returns is taken from the queue of the receive ring. -/
theorem uart1_getchar_spec {u1 : uart_t} (h : u1.rx.Valid UART1_RX_BUF_DEPTH) :
    (uart1_getchar u1).2.rx.Valid UART1_RX_BUF_DEPTH ∧ (uart1_getchar u1).2.tx = u1.tx ∧
      ((uart1_getchar u1).2.rx.queue UART1_RX_BUF_DEPTH, .taken (char_item (uart1_getchar u1).1)) =
        fifo.step UART1_RX_BUF_DEPTH (u1.rx.queue UART1_RX_BUF_DEPTH) .take := by
  by_cases hempty : u1.rx.rd_cnt = u1.rx.wr_cnt
  · have hnone : uart1_getchar u1 = (-1, u1) := if_pos hempty
    rw [hnone, fifo_step_take _ hempty]
    exact ⟨h, rfl, rfl⟩
  · have htake : uart1_getchar u1 = (((u1.rx.buf u1.rx.rd_index).toNat : Int),
        { u1 with rx := u1.rx.take UART1_RX_BUF_DEPTH }) := if_neg hempty
    obtain ⟨hvalid, hqueue⟩ := h.take rx_depth.1 hempty
    rw [htake, hqueue, char_item_toNat]
    exact ⟨hvalid, rfl, rfl⟩

/-- What `uart1_putchar` is given is offered to the queue of the transmit ring. -/
theorem uart1_putchar_spec {u1 : uart_t} (h : u1.tx.Valid UART1_TX_BUF_DEPTH) (c : UInt8) :
    (uart1_putchar u1 c).2.tx.Valid UART1_TX_BUF_DEPTH ∧ (uart1_putchar u1 c).2.rx = u1.rx ∧
      ((uart1_putchar u1 c).2.tx.queue UART1_TX_BUF_DEPTH, .offered (uart1_putchar u1 c).1) =
        fifo.step UART1_TX_BUF_DEPTH (u1.tx.queue UART1_TX_BUF_DEPTH) (.offer [c]) := by
  rw [fifo_step_offer]
  by_cases hroom : u1.tx.size < UART1_TX_BUF_DEPTH
  · have hput : (uart1_putchar u1 c).1 = true ∧ (uart1_putchar u1 c).2.rx = u1.rx ∧
        (uart1_putchar u1 c).2.tx = u1.tx.put UART1_TX_BUF_DEPTH c := by
      unfold uart1_putchar
      rw [if_neg (Nat.not_le.mpr hroom)]
      dsimp only
      split_ifs <;> exact ⟨rfl, rfl, rfl⟩
    obtain ⟨haccepted, hrx, htx⟩ := hput
    obtain ⟨hvalid, hqueue⟩ := h.put tx_depth.1 tx_depth.2 hroom c
    rw [if_pos hroom, haccepted, htx, hqueue]
    exact ⟨hvalid, hrx, rfl⟩
  · have hfull : uart1_putchar u1 c = (false, u1) := if_pos (Nat.not_lt.mp hroom)
    rw [hfull, if_neg hroom]
    exact ⟨h, rfl, rfl⟩

/-- What the transmitter is given is taken from the queue of the transmit ring. -/
theorem transmit_spec {u1 : uart_t} (h : u1.tx.Valid UART1_TX_BUF_DEPTH) :
    (transmit u1).tx.Valid UART1_TX_BUF_DEPTH ∧ (transmit u1).rx = u1.rx ∧
      ((transmit u1).tx.queue UART1_TX_BUF_DEPTH, .taken ((transmit u1).TDR.drop u1.TDR.length).head?) =
        fifo.step UART1_TX_BUF_DEPTH (u1.tx.queue UART1_TX_BUF_DEPTH) .take := by
  by_cases hempty : u1.tx.wr_cnt = u1.tx.rd_cnt
  · have hstop : transmit u1 = { u1 with TXEIE := false, tx_run := false } := if_pos hempty
    rw [hstop, fifo_step_take _ hempty.symm, List.drop_length]
    exact ⟨h, rfl, rfl⟩
  · have hsend : transmit u1 = _u1_tx u1 := if_neg hempty
    obtain ⟨hvalid, hqueue⟩ := h.take tx_depth.1 (Ne.symm hempty)
    rw [hsend, hqueue, _u1_tx, List.drop_left]
    exact ⟨hvalid, rfl, rfl⟩

theorem uart_t.Valid.call {u1 : uart_t} (h : u1.Valid) (call : Call) : (u1.call call).1.Valid := by
  cases call with
  | received c =>
    obtain ⟨hvalid, hsame, -⟩ := _u1_rx_spec h.rx c
    exact ⟨hvalid, hsame ▸ h.tx⟩
  | getchar =>
    obtain ⟨hvalid, hsame, -⟩ := uart1_getchar_spec h.rx
    exact ⟨hvalid, hsame ▸ h.tx⟩
  | putchar c =>
    obtain ⟨hvalid, hsame, -⟩ := uart1_putchar_spec h.tx c
    exact ⟨hsame ▸ h.rx, hvalid⟩
  | transmit =>
    obtain ⟨hvalid, hsame, -⟩ := transmit_spec h.tx
    exact ⟨hsame ▸ h.rx, hvalid⟩

/-- A call that concerns the receive ring is a call on the queue of its bytes. -/
theorem uart_t.Valid.call_rx {u1 : uart_t} (h : u1.Valid) (call : Call) :
    machine.Follows (fifo.step UART1_RX_BUF_DEPTH) (u1.rx.queue UART1_RX_BUF_DEPTH) call.on_rx
      ((u1.call call).1.rx.queue UART1_RX_BUF_DEPTH) (u1.call call).2.on_rx := by
  cases call with
  | received c =>
    obtain ⟨-, -, hstep⟩ := _u1_rx_spec h.rx c
    exact ⟨congrArg Prod.fst hstep, congrArg (fun step => some (Prod.snd step)) hstep⟩
  | getchar =>
    obtain ⟨-, -, hstep⟩ := uart1_getchar_spec h.rx
    exact ⟨congrArg Prod.fst hstep, congrArg (fun step => some (Prod.snd step)) hstep⟩
  | putchar c =>
    obtain ⟨-, hsame, -⟩ := uart1_putchar_spec h.tx c
    exact ⟨congrArg (Ring.queue _) hsame, rfl⟩
  | transmit =>
    obtain ⟨-, hsame, -⟩ := transmit_spec h.tx
    exact ⟨congrArg (Ring.queue _) hsame, rfl⟩

theorem uart_t.Valid.call_tx {u1 : uart_t} (h : u1.Valid) (call : Call) :
    machine.Follows (fifo.step UART1_TX_BUF_DEPTH) (u1.tx.queue UART1_TX_BUF_DEPTH) call.on_tx
      ((u1.call call).1.tx.queue UART1_TX_BUF_DEPTH) (u1.call call).2.on_tx := by
  cases call with
  | received c =>
    obtain ⟨-, hsame, -⟩ := _u1_rx_spec h.rx c
    exact ⟨congrArg (Ring.queue _) hsame, rfl⟩
  | getchar =>
    obtain ⟨-, hsame, -⟩ := uart1_getchar_spec h.rx
    exact ⟨congrArg (Ring.queue _) hsame, rfl⟩
  | putchar c =>
    obtain ⟨-, -, hstep⟩ := uart1_putchar_spec h.tx c
    exact ⟨congrArg Prod.fst hstep, congrArg (fun step => some (Prod.snd step)) hstep⟩
  | transmit =>
    obtain ⟨-, -, hstep⟩ := transmit_spec h.tx
    exact ⟨congrArg Prod.fst hstep, congrArg (fun step => some (Prod.snd step)) hstep⟩

/-- A queue takes a character exactly if it is not full. -/
theorem offered_iff {depth : Nat} {r : Ring} (h : r.Valid depth) {queue : List UInt8} {c : UInt8} {ok : Bool}
    (hstep : (queue, fifo.Answer.offered ok) = fifo.step depth (r.queue depth) (.offer [c])) :
    ok = false ↔ (r.queue depth).length = depth := by
  have hle := h.size_le
  rw [fifo_step_offer] at hstep
  rw [r.length_queue]
  by_cases hroom : r.size < depth
  · rw [if_pos hroom] at hstep
    cases hstep
    exact iff_of_false Bool.noConfusion (by omega)
  · rw [if_neg hroom] at hstep
    cases hstep
    exact iff_of_true rfl (by omega)

theorem uart_t.Valid.sound {u1 : uart_t} (h : u1.Valid) : u1.Sound where
  rx := h.rx.sound (by decide)
  tx := h.tx.sound (by decide)
  drops c := by
    obtain ⟨-, -, hstep⟩ := _u1_rx_spec h.rx c
    rw [← offered_iff h.rx hstep]
    exact ⟨Answer.received.inj, congrArg _⟩
  refuses c := by
    obtain ⟨-, -, hstep⟩ := uart1_putchar_spec h.tx c
    rw [← offered_iff h.tx hstep]
    exact ⟨Answer.accepted.inj, congrArg _⟩

/-- A ring that follows its calls as a queue does so over a run, and conserves the
    characters. -/
theorem ring_refines {depth : Nat} {queue : uart_t → List UInt8}
    {on_ring : Call → Option (fifo.Call UInt8)} {answer_on_ring : Answer → Option (fifo.Answer UInt8)}
    (hfollows : ∀ u1 : uart_t, u1.Valid → ∀ call, machine.Follows (fifo.step depth) (queue u1)
      (on_ring call) (queue (u1.call call).1) (answer_on_ring (u1.call call).2))
    {start : uart_t} (hstart : start.Valid) (hempty : queue start = []) (calls : List Call) :
    let final := machine.run uart_t.call start calls
    let model := machine.run (fifo.step depth) [] (calls.filterMap on_ring)
    queue final.1 = model.1 ∧ final.2.filterMap answer_on_ring = model.2 ∧
      fifo.accepted (calls.filterMap on_ring) (final.2.filterMap answer_on_ring) =
        fifo.returned (final.2.filterMap answer_on_ring) ++ queue final.1 := by
  intro final model
  obtain ⟨hqueue, hanswers⟩ := machine.run_project uart_t.call (fifo.step depth) uart_t.Valid queue
    on_ring answer_on_ring (fun u1 call h => ⟨h.call call, hfollows u1 h call⟩) hstart calls
  rw [hempty] at hqueue hanswers
  have hconserves := fifo.run_conserves depth [] (calls.filterMap on_ring)
  refine ⟨hqueue, hanswers, ?_⟩
  rw [hanswers]
  exact hconserves.trans (congrArg _ hqueue.symm)

/-- Whatever is received, called and transmitted, and however long, both rings are
    sound all along; each answers its own calls as a queue of just its depth; and
    what it has taken in is what it has given out and what is left in it. -/
theorem uart_rings_refine_fifos (rx_buf tx_buf : Nat → UInt8) (calls : List Call) :
    let final := machine.run uart_t.call (uart1_init rx_buf tx_buf) calls
    let rx := machine.run (fifo.step UART1_RX_BUF_DEPTH) [] (calls.filterMap Call.on_rx)
    let tx := machine.run (fifo.step UART1_TX_BUF_DEPTH) [] (calls.filterMap Call.on_tx)
    (∀ u1, machine.Reached uart_t.call (uart1_init rx_buf tx_buf) calls u1 → u1.Sound) ∧
      (final.1.rx.queue UART1_RX_BUF_DEPTH = rx.1 ∧ final.2.filterMap Answer.on_rx = rx.2 ∧
        fifo.accepted (calls.filterMap Call.on_rx) (final.2.filterMap Answer.on_rx) =
          fifo.returned (final.2.filterMap Answer.on_rx) ++ final.1.rx.queue UART1_RX_BUF_DEPTH) ∧
      (final.1.tx.queue UART1_TX_BUF_DEPTH = tx.1 ∧ final.2.filterMap Answer.on_tx = tx.2 ∧
        fifo.accepted (calls.filterMap Call.on_tx) (final.2.filterMap Answer.on_tx) =
          fifo.returned (final.2.filterMap Answer.on_tx) ++ final.1.tx.queue UART1_TX_BUF_DEPTH) := by
  intro final rx tx
  have hstart : (uart1_init rx_buf tx_buf).Valid := ⟨.empty rx_buf, .empty tx_buf⟩
  refine ⟨?_, ?_, ?_⟩
  · rintro u1 ⟨before, after, -, rfl⟩
    have hvalid := machine.run_invariant uart_t.call uart_t.Valid (fun _ => True)
      (fun _ call h _ => h.call call) _ before hstart (fun _ _ => trivial)
    exact hvalid.sound
  · exact ring_refines (fun _ h call => h.call_rx call) hstart (Ring.queue_eq_nil rfl) calls
  · exact ring_refines (fun _ h call => h.call_tx call) hstart (Ring.queue_eq_nil rfl) calls

end keychain.uart
