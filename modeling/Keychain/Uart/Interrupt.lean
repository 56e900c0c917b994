import Keychain.Library.Machine
import Keychain.Uart.Lpuart

namespace keychain.uart

/-- Where the main code stands: outside `uart1_putchar`, or in it, in front of the
    access that comes next. -/
inductive Place where
  | out
  | test (c : UInt8)
  | store (c : UInt8)
  | index
  | count
  | read_run
  | write_run
  | enable

/-- The main code and the interrupt share `u1`. -/
structure Shared where
  u1 : uart_t
  place : Place

/-- The next access of `uart1_putchar`. -/
def Shared.access (s : Shared) : Shared :=
  match s.place with
  | .out => s
  | .test c => { s with place := if s.u1.tx.size ≥ UART1_TX_BUF_DEPTH then .out else .store c }
  | .store c => { u1 := { s.u1 with tx := s.u1.tx.write c }, place := .index }
  | .index => { u1 := { s.u1 with tx := s.u1.tx.advance UART1_TX_BUF_DEPTH }, place := .count }
  | .count => { u1 := { s.u1 with tx := s.u1.tx.count }, place := .read_run }
  | .read_run => { s with place := if s.u1.tx_run = false then .write_run else .out }
  | .write_run => { u1 := { s.u1 with tx_run := true }, place := .enable }
  | .enable => { u1 := { s.u1 with TXEIE := true }, place := .out }

inductive Event where
  /-- The main code calls `uart1_putchar`. -/
  | putchar (c : UInt8)
  | access
  /-- The interrupt runs from its start to its end. -/
  | irq (TXE RXNE : Bool) (RDR : UInt8)
  /-- The main code calls `uart1_getchar`. -/
  | getchar

/-- Outside `uart1_putchar` there is no access, and within it no other call. -/
def Shared.step (s : Shared) : Event → Shared × Unit
  | .putchar c =>
    match s.place with
    | .out => ({ s with place := .test c }, ())
    | _ => (s, ())
  | .access => (s.access, ())
  | .irq TXE RXNE RDR => ({ s with u1 := LPUART1_IRQHandler s.u1 TXE RXNE RDR }, ())
  | .getchar =>
    match s.place with
    | .out => ({ s with u1 := (uart1_getchar s.u1).2 }, ())
    | _ => (s, ())

/-- Where no interrupt comes between them, the accesses make up the function. -/
theorem accesses_eq_uart1_putchar (u1 : uart_t) (c : UInt8) :
    (machine.run Shared.step ⟨u1, .out⟩ (.putchar c :: List.replicate 7 .access)).1 =
      ⟨(uart1_putchar u1 c).2, .out⟩ := by
  by_cases hfull : u1.tx.size ≥ UART1_TX_BUF_DEPTH
  · simp [List.replicate, Shared.step, Shared.access, uart1_putchar, hfull]
  · cases hrun : u1.tx_run with
    | true => simp [List.replicate, Shared.step, Shared.access, uart1_putchar, hfull, hrun, Ring.put]
    | false => simp [List.replicate, Shared.step, Shared.access, uart1_putchar, hfull, hrun, Ring.put]

/-- The flag and the bit of the interrupt agree. -/
def uart_t.Paired (u1 : uart_t) : Prop :=
  u1.tx_run = u1.TXEIE

/-- The interrupt is enabled if there is something to transmit. -/
def uart_t.Awake (u1 : uart_t) : Prop :=
  u1.tx.rd_cnt ≠ u1.tx.wr_cnt → u1.TXEIE = true

/-- From the update of the counter to the end of the function, a byte may wait in
    the ring with the interrupt disabled. Then the flag is still clear when it is
    read, and the disabled interrupt leaves it so. -/
def Shared.Inv (s : Shared) : Prop :=
  match s.place with
  | .read_run => s.u1.Paired
  | .write_run => s.u1.tx_run = false ∧ s.u1.TXEIE = false
  | .enable => s.u1.tx_run = true ∧ s.u1.TXEIE = false
  | _ => s.u1.Paired ∧ s.u1.Awake

/-- What the interrupt does to the transmitting side. -/
theorem irq_cases (u1 : uart_t) (TXE RXNE : Bool) (RDR : UInt8) :
    let after := LPUART1_IRQHandler u1 TXE RXNE RDR
    (after.tx = u1.tx ∧ after.tx_run = u1.tx_run ∧ after.TXEIE = u1.TXEIE) ∨
      (u1.TXEIE = true ∧ u1.tx.wr_cnt = u1.tx.rd_cnt ∧ after.tx = u1.tx ∧ after.tx_run = false ∧
        after.TXEIE = false) ∨
      (u1.TXEIE = true ∧ after.tx_run = u1.tx_run ∧ after.TXEIE = true) := by
  have hrx : ∀ u : uart_t, (if RXNE then _u1_rx u RDR else u).tx = u.tx ∧
      (if RXNE then _u1_rx u RDR else u).tx_run = u.tx_run ∧
      (if RXNE then _u1_rx u RDR else u).TXEIE = u.TXEIE := by
    intro u
    unfold _u1_rx
    split_ifs <;> exact ⟨rfl, rfl, rfl⟩
  intro after
  obtain ⟨htx, hrun, henabled⟩ := hrx (if TXE && u1.TXEIE then transmit u1 else u1)
  change after.tx = _ at htx
  change after.tx_run = _ at hrun
  change after.TXEIE = _ at henabled
  rw [htx, hrun, henabled]
  by_cases hasked : (TXE && u1.TXEIE) = true
  · have hbit : u1.TXEIE = true := (Bool.and_eq_true_iff.mp hasked).2
    rw [if_pos hasked]
    by_cases hempty : u1.tx.wr_cnt = u1.tx.rd_cnt
    · rw [transmit, if_pos hempty]
      exact .inr (.inl ⟨hbit, hempty, rfl, rfl, rfl⟩)
    · rw [transmit, if_neg hempty]
      exact .inr (.inr ⟨hbit, rfl, hbit⟩)
  · rw [if_neg hasked]
    exact .inl ⟨rfl, rfl, rfl⟩

theorem uart_t.Paired.irq {u1 : uart_t} (h : u1.Paired) (TXE RXNE : Bool) (RDR : UInt8) :
    (LPUART1_IRQHandler u1 TXE RXNE RDR).Paired := by
  unfold uart_t.Paired at h ⊢
  obtain ⟨-, hrun, hbit⟩ | ⟨-, -, -, hrun, hbit⟩ | ⟨hon, hrun, hbit⟩ := irq_cases u1 TXE RXNE RDR
  · rw [hrun, hbit, h]
  · rw [hrun, hbit]
  · rw [hrun, hbit, h, hon]

theorem uart_t.Awake.irq {u1 : uart_t} (h : u1.Awake) (TXE RXNE : Bool) (RDR : UInt8) :
    (LPUART1_IRQHandler u1 TXE RXNE RDR).Awake := by
  unfold uart_t.Awake at h ⊢
  obtain ⟨htx, -, hbit⟩ | ⟨-, hempty, htx, -⟩ | ⟨-, -, hbit⟩ := irq_cases u1 TXE RXNE RDR
  · rw [htx, hbit]
    exact h
  · rw [htx]
    exact fun hne => absurd hempty.symm hne
  · exact fun _ => hbit

/-- A disabled interrupt leaves the flag and the bit alone. -/
theorem irq_disabled {u1 : uart_t} (h : u1.TXEIE = false) (TXE RXNE : Bool) (RDR : UInt8) :
    (LPUART1_IRQHandler u1 TXE RXNE RDR).tx_run = u1.tx_run ∧
      (LPUART1_IRQHandler u1 TXE RXNE RDR).TXEIE = false := by
  obtain ⟨-, hrun, hbit⟩ | ⟨hon, -⟩ | ⟨hon, -⟩ := irq_cases u1 TXE RXNE RDR
  · exact ⟨hrun, hbit.trans h⟩
  · rw [h] at hon
    cases hon
  · rw [h] at hon
    cases hon

theorem Shared.Inv.irq {s : Shared} (h : s.Inv) (TXE RXNE : Bool) (RDR : UInt8) :
    ({ s with u1 := LPUART1_IRQHandler s.u1 TXE RXNE RDR } : Shared).Inv := by
  unfold Shared.Inv at h ⊢
  cases hplace : s.place with
  | read_run =>
    rw [hplace] at h
    exact uart_t.Paired.irq h TXE RXNE RDR
  | write_run =>
    rw [hplace] at h
    obtain ⟨hrun, hbit⟩ := irq_disabled h.2 TXE RXNE RDR
    exact ⟨hrun.trans h.1, hbit⟩
  | enable =>
    rw [hplace] at h
    obtain ⟨hrun, hbit⟩ := irq_disabled h.2 TXE RXNE RDR
    exact ⟨hrun.trans h.1, hbit⟩
  | out | test _ | store _ | index | count =>
    rw [hplace] at h
    exact ⟨h.1.irq TXE RXNE RDR, h.2.irq TXE RXNE RDR⟩

/-- Each access leads from what holds in front of it to what holds behind it. -/
theorem Shared.Inv.access {s : Shared} (h : s.Inv) : s.access.Inv := by
  have hsame := h
  unfold Shared.Inv at h
  unfold Shared.access
  cases hplace : s.place with
  | out => exact hsame
  | test c =>
    rw [hplace] at h
    dsimp only
    split_ifs <;> exact h
  | store c =>
    rw [hplace] at h
    exact h
  | index =>
    rw [hplace] at h
    exact h
  | count =>
    rw [hplace] at h
    exact h.1
  | read_run =>
    rw [hplace] at h
    dsimp only at h ⊢
    unfold uart_t.Paired at h
    split_ifs with hrun
    · exact ⟨hrun, h.symm.trans hrun⟩
    · -- the flag was set, so the bit is, and what waits will be transmitted
      have hbit : s.u1.TXEIE = true := by
        rw [← h]
        exact eq_true_of_ne_false hrun
      exact ⟨h, fun _ => hbit⟩
  | write_run =>
    rw [hplace] at h
    exact ⟨rfl, h.2⟩
  | enable =>
    rw [hplace] at h
    exact ⟨h.1, fun _ => rfl⟩

theorem Shared.Inv.step {s : Shared} (h : s.Inv) (event : Event) : (s.step event).1.Inv := by
  have hsame := h
  unfold Shared.Inv at h
  cases event with
  | putchar c =>
    unfold Shared.step
    cases hplace : s.place with
    | out =>
      rw [hplace] at h
      exact h
    | _ => exact hsame
  | access => exact hsame.access
  | irq TXE RXNE RDR => exact hsame.irq TXE RXNE RDR
  | getchar =>
    have hgetchar : (uart1_getchar s.u1).2.tx = s.u1.tx ∧
        (uart1_getchar s.u1).2.tx_run = s.u1.tx_run ∧ (uart1_getchar s.u1).2.TXEIE = s.u1.TXEIE := by
      unfold uart1_getchar
      split_ifs <;> exact ⟨rfl, rfl, rfl⟩
    unfold Shared.step
    cases hplace : s.place with
    | out =>
      obtain ⟨htx, hrun, hbit⟩ := hgetchar
      rw [hplace] at h
      exact ⟨hrun.trans (h.1.trans hbit.symm), fun hne => hbit.trans (h.2 (htx ▸ hne))⟩
    | _ => exact hsame

/-- Whatever is put and however often the interrupt comes in between, a byte in the
    transmit ring has the interrupt enabled once the main code is out of
    `uart1_putchar`, and the flag tells whether the interrupt is enabled. -/
theorem no_byte_is_stranded (rx_buf tx_buf : Nat → UInt8) (events : List Event) {s : Shared}
    (hreached : machine.Reached Shared.step ⟨uart1_init rx_buf tx_buf, .out⟩ events s)
    (hout : s.place = .out) :
    (s.u1.tx.queue UART1_TX_BUF_DEPTH ≠ [] → s.u1.TXEIE = true) ∧
      (s.u1.tx_run = true ↔ s.u1.TXEIE = true) := by
  obtain ⟨before, after, -, rfl⟩ := hreached
  have hstart : (⟨uart1_init rx_buf tx_buf, .out⟩ : Shared).Inv := ⟨rfl, fun hne => absurd rfl hne⟩
  have hinv := machine.run_invariant Shared.step Shared.Inv (fun _ => True)
    (fun _ event h _ => h.step event) _ before hstart (fun _ _ => trivial)
  unfold Shared.Inv at hinv
  rw [hout] at hinv
  obtain ⟨hpaired, hawake⟩ := hinv
  refine ⟨fun hqueue => hawake fun hempty => hqueue (Ring.queue_eq_nil hempty), ?_⟩
  rw [hpaired]

/-- The interrupt comes between the reading of the flag and its update, while the
    byte is already counted. -/
theorem no_byte_is_stranded_between :
    let events : List Event :=
      [.putchar 65, .access, .access, .access, .access, .access, .irq true false 0, .access, .access]
    let s := (machine.run Shared.step ⟨uart1_init (fun _ => 0) fun _ => 0, .out⟩ events).1
    (s.u1.tx.queue UART1_TX_BUF_DEPTH ≠ [] → s.u1.TXEIE = true) ∧
      (s.u1.tx_run = true ↔ s.u1.TXEIE = true) :=
  no_byte_is_stranded _ _ _ ⟨_, [], (List.append_nil _).symm, rfl⟩ rfl

end keychain.uart
