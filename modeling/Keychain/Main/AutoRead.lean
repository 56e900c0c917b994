import Keychain.Cmd.Grammar
import Keychain.Cmd.Hex
import Keychain.Main.Task
import Mathlib.Data.Vector.Basic

namespace keychain.main

open cmd

def _SPI_BUF_SIZE : Nat := 512

/-- `spi_buf[i] = ch`. There is no result for a store outside the array. -/
def spi_store (spi_buf : Vector UInt8 _SPI_BUF_SIZE) (i : Nat) (ch : UInt8) :
    Option (Vector UInt8 _SPI_BUF_SIZE) :=
  if h : i < _SPI_BUF_SIZE then some (spi_buf.set i ch) else none

/-- The loop that fills the buffer from the index `i` to a bound. -/
def read_loop (chip : Nat → UInt8 → UInt8) (bound : Nat) :
    Nat → Nat → Vector UInt8 _SPI_BUF_SIZE → Main → Option (Vector UInt8 _SPI_BUF_SIZE × Main)
  | 0, i, spi_buf, m => if i < bound then none else some (spi_buf, m)
  | fuel + 1, i, spi_buf, m =>
    if i < bound then do
      let answer := spi1_transfer chip m 0
      let spi_buf ← spi_store spi_buf i answer.1
      read_loop chip bound fuel (i + 1) spi_buf answer.2
    else some (spi_buf, m)

/-- The loop that prints the buffer from the index `i` to a bound. -/
def print_loop (bound : Nat) : Nat → Nat → Vector UInt8 _SPI_BUF_SIZE → Board → Option Board
  | 0, i, _, b => if i < bound then none else some b
  | fuel + 1, i, spi_buf, b =>
    if i < bound then do
      let ch ← spi_buf[i]?
      print_loop bound fuel (i + 1) spi_buf (b.printf (format_02X ch))
    else some b

/-- `_spi_auto_task` on its array, whatever that holds at first. There is no result
    if an index leaves it. -/
def _spi_auto_task_in (chip : Nat → UInt8 → UInt8) (spi_buf : Vector UInt8 _SPI_BUF_SIZE) (m : Main) :
    Option Main := do
  let m := _spi_cs_enable m
  let answer := spi1_transfer chip m m.board.main_spi_get_resp
  let spi_buf ← spi_store spi_buf 0 answer.1
  let header := spi1_transfer chip answer.2 0
  let spi_buf ← spi_store spi_buf 0 header.1
  let m := header.2
  let ch ← spi_buf[0]?
  if ch = m.board.main_spi_no_resp then
    some (_spi_cs_disable m)
  else
    let l := spi1_transfer chip m 0
    let spi_buf ← spi_store spi_buf 1 l.1
    let bound := 2 + l.1.toNat + 2
    let (spi_buf, m) ← read_loop chip bound bound 2 spi_buf l.2
    let m := _spi_cs_disable m
    let board ← print_loop bound bound 0 spi_buf m.board
    some { m with board := board.printf NL }

/-- The buffer starts with some bytes. -/
def Front (spi_buf : Vector UInt8 _SPI_BUF_SIZE) (bytes : List UInt8) : Prop :=
  spi_buf.toList.take bytes.length = bytes

/-- A store right behind the front makes it longer. -/
theorem Front.store {spi_buf : Vector UInt8 _SPI_BUF_SIZE} {bytes : List UInt8} (h : Front spi_buf bytes)
    (hroom : bytes.length < _SPI_BUF_SIZE) (ch : UInt8) :
    ∃ stored, spi_store spi_buf bytes.length ch = some stored ∧ Front stored (bytes ++ [ch]) := by
  have hsize : bytes.length < spi_buf.toList.length := by
    rw [Vector.length_toList]
    exact hroom
  refine ⟨spi_buf.set bytes.length ch, dif_pos hroom, ?_⟩
  rw [Front, Vector.toList_set, List.length_append, List.length_singleton, List.take_add_one,
    List.take_set_of_le (Nat.le_refl _), h, List.getElem?_set_self hsize]
  rfl

theorem Front.get {spi_buf : Vector UInt8 _SPI_BUF_SIZE} {bytes : List UInt8} (h : Front spi_buf bytes)
    {i : Nat} (hi : i < bytes.length) : spi_buf[i]? = some bytes[i] := by
  have htake := List.getElem?_take_of_lt (l := spi_buf.toList) hi
  rw [h, List.getElem?_eq_getElem hi] at htake
  rw [htake]
  simp

/-- The loop appends the response that is read meanwhile to the front. -/
theorem read_loop_eq (chip : Nat → UInt8 → UInt8) {fuel : Nat} (count : Nat) (hfuel : count ≤ fuel)
    {spi_buf : Vector UInt8 _SPI_BUF_SIZE} {bytes : List UInt8} (h : Front spi_buf bytes)
    (hroom : bytes.length + count ≤ _SPI_BUF_SIZE) (m : Main) :
    ∃ filled, read_loop chip (bytes.length + count) fuel bytes.length spi_buf m =
        some (filled, (read_response chip count m).2) ∧
      Front filled (bytes ++ (read_response chip count m).1) := by
  induction fuel generalizing count spi_buf bytes m with
  | zero =>
    have hnone : count = 0 := by omega
    subst hnone
    exact ⟨spi_buf, if_neg (Nat.lt_irrefl _), (List.append_nil bytes).symm ▸ h⟩
  | succ fuel ih =>
    cases count with
    | zero => exact ⟨spi_buf, if_neg (Nat.lt_irrefl _), (List.append_nil bytes).symm ▸ h⟩
    | succ count =>
      let answer := spi1_transfer chip m 0
      obtain ⟨stored, hstore, hfront⟩ := h.store (by omega) answer.1
      have hlength : (bytes ++ [answer.1]).length = bytes.length + 1 := by simp
      obtain ⟨filled, hloop, hfilled⟩ := ih count (by omega) hfront (by omega) answer.2
      refine ⟨filled, ?_, ?_⟩
      · rw [read_loop, if_pos (by omega)]
        change (spi_store spi_buf bytes.length answer.1).bind _ = _
        rw [hlength, Nat.add_assoc, Nat.add_comm 1 count] at hloop
        rw [hstore]
        exact hloop
      · rw [List.append_assoc] at hfilled
        exact hfilled

theorem printf_printf (b : Board) (first second : List UInt8) :
    (b.printf first).printf second = b.printf (first ++ second) := by
  rw [Board.printf, Board.printf, Board.printf, List.append_assoc]

theorem length_read_response (chip : Nat → UInt8 → UInt8) (count : Nat) (m : Main) :
    (read_response chip count m).1.length = count := by
  induction count generalizing m with
  | zero => rfl
  | succ count ih => exact congrArg (· + 1) (ih _)

/-- The loop prints the front from an index on. -/
theorem print_loop_eq {spi_buf : Vector UInt8 _SPI_BUF_SIZE} {bytes : List UInt8} (h : Front spi_buf bytes)
    {fuel i : Nat} (hi : i ≤ bytes.length) (hfuel : bytes.length ≤ i + fuel) (b : Board) :
    print_loop bytes.length fuel i spi_buf b = some (b.printf ((bytes.drop i).flatMap format_02X)) := by
  induction fuel generalizing i b with
  | zero =>
    have hend : i = bytes.length := by omega
    rw [print_loop, if_neg (by omega), hend, List.drop_length, Board.printf, List.flatMap_nil,
      List.append_nil]
  | succ fuel ih =>
    rw [print_loop]
    by_cases hlast : i < bytes.length
    · have hrest := ih (i := i + 1) hlast (by omega) (b.printf (format_02X bytes[i]))
      rw [if_pos hlast, h.get hlast, List.drop_eq_getElem_cons hlast, List.flatMap_cons]
      refine Eq.trans hrest ?_
      rw [printf_printf]
    · rw [if_neg hlast, List.drop_eq_nil_of_le (by omega), Board.printf, List.flatMap_nil, List.append_nil]

/-- No index leaves the array, as the length byte cannot say more than 255. -/
theorem _spi_auto_task_in_eq (chip : Nat → UInt8 → UInt8) (spi_buf : Vector UInt8 _SPI_BUF_SIZE)
    (m : Main) : _spi_auto_task_in chip spi_buf m = some (_spi_auto_task chip m) := by
  have hnone : ∀ buf : Vector UInt8 _SPI_BUF_SIZE, Front buf [] := fun _ => rfl
  let answer := spi1_transfer chip (_spi_cs_enable m) m.board.main_spi_get_resp
  let header := spi1_transfer chip answer.2 0
  obtain ⟨first, hfirst, -⟩ := (hnone spi_buf).store (by decide) answer.1
  obtain ⟨second, hsecond, hfront⟩ := (hnone first).store (by decide) header.1
  have hget : second[0]? = some header.1 := hfront.get Nat.zero_lt_one
  unfold _spi_auto_task_in
  refine Option.bind_eq_some_iff.mpr ⟨first, hfirst, ?_⟩
  refine Option.bind_eq_some_iff.mpr ⟨second, hsecond, ?_⟩
  refine Option.bind_eq_some_iff.mpr ⟨header.1, hget, ?_⟩
  by_cases hskip : header.1 = header.2.board.main_spi_no_resp
  · exact (if_pos hskip).trans (congrArg some (if_pos hskip).symm)
  · let l := spi1_transfer chip header.2 0
    let data := read_response chip (l.1.toNat + 2) l.2
    have hl : l.1.toNat < 256 := l.1.toNat_lt
    obtain ⟨third, hthird, hpair⟩ := hfront.store (show 1 < 512 by decide) l.1
    have hfuel : l.1.toNat + 2 ≤ 2 + l.1.toNat + 2 := by omega
    have hroom : 2 + (l.1.toNat + 2) ≤ 512 := by omega
    obtain ⟨filled, hread, hfilled⟩ := read_loop_eq chip (l.1.toNat + 2) hfuel hpair hroom l.2
    have hread' : read_loop chip (2 + l.1.toNat + 2) (2 + l.1.toNat + 2) 2 third l.2 =
        some (filled, data.2) := hread
    have hlength : (header.1 :: l.1 :: data.1).length = 2 + l.1.toNat + 2 := by
      have hdata := length_read_response chip (l.1.toNat + 2) l.2
      rw [List.length_cons, List.length_cons, hdata]
      omega
    have hprint := print_loop_eq hfilled (i := 0) (Nat.zero_le _) (Nat.le_of_eq (Nat.zero_add _).symm)
      (_spi_cs_disable data.2).board
    change print_loop (header.1 :: l.1 :: data.1).length (header.1 :: l.1 :: data.1).length 0 filled
      (_spi_cs_disable data.2).board = _ at hprint
    rw [hlength] at hprint
    refine (if_neg hskip).trans ?_
    refine Option.bind_eq_some_iff.mpr ⟨third, hthird, ?_⟩
    refine Option.bind_eq_some_iff.mpr ⟨(filled, data.2), hread', ?_⟩
    refine Option.bind_eq_some_iff.mpr ⟨_, hprint, ?_⟩
    rw [printf_printf]
    exact congrArg some (if_neg hskip).symm

theorem read_response_eq (chip : Nat → UInt8 → UInt8) (count : Nat) (m : Main) :
    read_response chip count m =
      ((List.range' m.transfers count).map (chip · 0), { m with transfers := m.transfers + count }) := by
  induction count generalizing m with
  | zero => rfl
  | succ count ih =>
    have hrest := ih (spi1_transfer chip m 0).2
    rw [read_response, hrest, List.range'_succ, List.map_cons, Nat.add_comm count, ← Nat.add_assoc]
    rfl

/-- The automatic read with every answer of the chip: either it ends after two
    transfers, or it prints what it has read behind the first answer. -/
theorem spi_auto_task_captures (chip : Nat → UInt8 → UInt8) (spi_buf : Vector UInt8 _SPI_BUF_SIZE)
    (m : Main) :
    let header := chip (m.transfers + 1) 0
    let l := chip (m.transfers + 2) 0
    let rest := (List.range' (m.transfers + 3) (l.toNat + 2)).map (chip · 0)
    ∃ m', _spi_auto_task_in chip spi_buf m = some m' ∧ m'._spi_cs_active = false ∧
      m'.board._spi1_cs_state = SPI_CS_IDLE ∧ m'.board.cs_low = false ∧
      (header = m.board.main_spi_no_resp →
        m'.transfers = m.transfers + 2 ∧ m'.board.console = m.board.console) ∧
      (header ≠ m.board.main_spi_no_resp → m'.transfers = m.transfers + (l.toNat + 5) ∧
        ∃ line, m'.board.console = m.board.console ++ (line ++ NL) ∧
          line.length = 2 * (l.toNat + 4) ∧ (∀ ch ∈ line, IsHex ch) ∧
          ∀ limit ≥ l.toNat + 4, hex_to_bin (line ++ NL) limit = header :: l :: rest) := by
  intro header l rest
  refine ⟨_, _spi_auto_task_in_eq chip spi_buf m, ?_⟩
  by_cases hskip : header = m.board.main_spi_no_resp
  · have htask : _spi_auto_task chip m =
        _spi_cs_disable { _spi_cs_enable m with transfers := m.transfers + 2 } := if_pos hskip
    rw [htask]
    exact ⟨rfl, rfl, rfl, fun _ => ⟨rfl, rfl⟩, fun hne => absurd hskip hne⟩
  · have htask : _spi_auto_task chip m =
        let data := read_response chip (l.toNat + 2) { _spi_cs_enable m with transfers := m.transfers + 3 }
        let m' := _spi_cs_disable data.2
        { m' with board := m'.board.printf ((header :: l :: data.1).flatMap format_02X ++ NL) } :=
      if_neg hskip
    rw [read_response_eq] at htask
    rw [htask]
    have hwrites := writesBytes_format_02X (header :: l :: rest)
    have hlength : (header :: l :: rest).length = l.toNat + 4 := by simp [rest]
    obtain ⟨hdigits, hhex⟩ := digits_of_writesBytes hwrites
    refine ⟨rfl, rfl, rfl, fun heq => absurd heq hskip, fun _ => ⟨?_, _, rfl, ?_, hhex, ?_⟩⟩
    · change m.transfers + 3 + (l.toNat + 2) = m.transfers + (l.toNat + 5)
      omega
    · rw [hdigits, hlength]
    · intro limit hlimit
      obtain ⟨more, rfl⟩ := Nat.exists_eq_add_of_le hlimit
      have hdecode := hex_to_bin_of_writesBytes hwrites NL more
      have hstop : hex_to_bin NL more = [] := by cases more <;> rfl
      rw [hlength, hstop, List.append_nil] at hdecode
      exact hdecode

end keychain.main
