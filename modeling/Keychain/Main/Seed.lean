import Mathlib.Data.BitVec
import Mathlib.Data.List.Range

namespace keychain.main

/-- One store into the output, with the index at which it was made. -/
structure Store where
  index : BitVec 32
  addr : BitVec 32
  bytes : List UInt8

/-- The calls of `HAL_RNG_GenerateRandomNumber` so far, and the stores. -/
structure Seed where
  calls : Nat
  stores : List Store

/-- The bytes of a word as they lie in memory, and the one a cast keeps. -/
def word_bytes (word : BitVec 32) : List UInt8 :=
  [0, 8, 16, 24].map fun shift => UInt8.ofNat (word >>> shift).toNat

def low_byte (word : BitVec 32) : UInt8 :=
  UInt8.ofNat word.toNat

/-- The loop of `custom_wc_GenerateSeed`. The outcome of each call of the random
    number generator is given by its number: the word it writes if it succeeds.
    A word store goes straight from the generator to the output. -/
def seed_loop (rng : Nat → Option (BitVec 32)) (output sz : BitVec 32) :
    Nat → BitVec 32 → Seed → Option (Int × Seed)
  | 0, _, _ => none
  | fuel + 1, i, s =>
    if i < sz then
      if i + 4#32 > sz ∨ (output + i) % 4#32 ≠ 0#32 then
        match rng s.calls with
        | none => some (-105, { s with calls := s.calls + 1 })
        | some word => seed_loop rng output sz fuel (i + 1#32)
            ⟨s.calls + 1, s.stores ++ [⟨i, output + i, [low_byte word]⟩]⟩
      else
        match rng s.calls with
        | none => some (-105, { s with calls := s.calls + 1 })
        | some word => seed_loop rng output sz fuel (i + 4#32)
            ⟨s.calls + 1, s.stores ++ [⟨i, output + i, word_bytes word⟩]⟩
    else
      some (0, s)

def custom_wc_GenerateSeed (rng : Nat → Option (BitVec 32)) (fuel : Nat) (output sz : BitVec 32) :
    Option (Int × Seed) :=
  if output = 0#32 ∨ sz = 0#32 then some (-1, ⟨0, []⟩)
  else seed_loop rng output sz fuel 0#32 ⟨0, []⟩

/-- The addresses of the stored bytes, in the order of the stores. -/
def Seed.written (s : Seed) : List Nat :=
  s.stores.flatMap fun store => List.range' store.addr.toNat store.bytes.length

/-- A store takes the word of one call: its low byte, or all four bytes at an
    aligned address. -/
def Store.Takes (store : Store) (word : BitVec 32) : Prop :=
  store.bytes = [low_byte word] ∨ 4 ∣ store.addr.toNat ∧ store.bytes = word_bytes word

/-- The index and the address of a store do not wrap, nor does the index behind
    it. The sum that the loop tests may, but only for a single byte. -/
structure Store.Inside (output sz : BitVec 32) (store : Store) : Prop where
  addr_eq : store.addr.toNat = output.toNat + store.index.toNat
  end_le : store.index.toNat + store.bytes.length ≤ sz.toNat
  sum_lt : store.index.toNat + 4 < 2 ^ 32 ∨ store.bytes.length = 1

/-- What holds at each turn of the loop: the bytes before the index are written,
    each call so far has succeeded and fed one store. -/
structure Seed.Filled (rng : Nat → Option (BitVec 32)) (output sz : BitVec 32) (i : Nat) (s : Seed) :
    Prop where
  written_eq : s.written = List.range' output.toNat i
  calls_eq : s.calls = s.stores.length
  takes : ∀ (call : Nat) store, s.stores[call]? = some store →
    ∃ word, rng call = some word ∧ store.Takes word
  inside : ∀ store ∈ s.stores, store.Inside output sz

theorem length_word_bytes (word : BitVec 32) : (word_bytes word).length = 4 := rfl

/-- The stores begin where the output does. -/
theorem Seed.filled_start (rng : Nat → Option (BitVec 32)) (output sz : BitVec 32) :
    (⟨0, []⟩ : Seed).Filled rng output sz 0 :=
  ⟨rfl, rfl, by simp, by simp⟩

/-- A store at the index moves the index behind it. -/
theorem Seed.Filled.store {rng : Nat → Option (BitVec 32)} {output sz : BitVec 32} {s : Seed}
    {word : BitVec 32} (store : Store) (h : s.Filled rng output sz store.index.toNat)
    (hrng : rng s.calls = some word) (htakes : store.Takes word) (hinside : store.Inside output sz) :
    (⟨s.calls + 1, s.stores ++ [store]⟩ : Seed).Filled rng output sz
      (store.index.toNat + store.bytes.length) where
  written_eq := by
    have hbefore := h.written_eq
    simp only [Seed.written] at hbefore
    simp only [Seed.written, List.flatMap_append, hbefore, List.flatMap_singleton]
    rw [hinside.addr_eq]
    exact List.range'_append_1
  calls_eq := by simp [h.calls_eq]
  takes := by
    intro call other hother
    rw [List.getElem?_append] at hother
    split_ifs at hother with hold
    · exact h.takes call other hother
    · obtain ⟨hzero, hsame⟩ : call - s.stores.length = 0 ∧ store = other := by
        rw [List.getElem?_singleton] at hother
        split_ifs at hother with hzero
        exact ⟨hzero, Option.some.inj hother⟩
      have hcall : call = s.calls := by
        rw [h.calls_eq]
        omega
      exact ⟨word, by rw [hcall, hrng], hsame ▸ htakes⟩
  inside := by
    intro other hother
    obtain hold | hnew := List.mem_append.mp hother
    · exact h.inside other hold
    · rw [List.mem_singleton] at hnew
      exact hnew ▸ hinside

/-- How the loop ends: with all bytes written, or at an index whose call fails. -/
def Seed.Outcome (rng : Nat → Option (BitVec 32)) (output sz : BitVec 32) (ret : Int) (s : Seed) :
    Prop :=
  ret = 0 ∧ s.Filled rng output sz sz.toNat ∨
    ret = -105 ∧ ∃ index < sz.toNat, ∃ before : Seed, before.Filled rng output sz index ∧
      rng before.calls = none ∧ s = { before with calls := before.calls + 1 }

section

variable {rng : Nat → Option (BitVec 32)} {output sz : BitVec 32} (hnull : output ≠ 0#32)
  (hbound : output.toNat + sz.toNat ≤ 2 ^ 32)

include hbound in
theorem toNat_addr {i : BitVec 32} (hi : i.toNat < sz.toNat) :
    (output + i).toNat = output.toNat + i.toNat := by
  rw [BitVec.toNat_add, Nat.mod_eq_of_lt]
  omega

include hnull hbound in
/-- An index whose sum with 4 wraps does not have an aligned address, because
    the output ends with the address space at the latest. -/
theorem sum_lt_of_aligned {i : BitVec 32} (hi : i.toNat < sz.toNat)
    (haligned : (output + i) % 4#32 = 0#32) : i.toNat + 4 < 2 ^ 32 := by
  have haddr := congrArg BitVec.toNat haligned
  rw [BitVec.toNat_umod, toNat_addr hbound hi] at haddr
  change (output.toNat + i.toNat) % 4 = 0 at haddr
  have hpos : output.toNat ≠ 0 := by
    intro hzero
    exact hnull (BitVec.eq_of_toNat_eq hzero)
  omega

include hnull hbound in
theorem seed_loop_spec {fuel : Nat} {i : BitVec 32} {s : Seed} (h : s.Filled rng output sz i.toNat)
    (hi : i.toNat ≤ sz.toNat) (hfuel : sz.toNat < fuel + i.toNat) :
    ∃ ret last, seed_loop rng output sz fuel i s = some (ret, last) ∧
      last.Outcome rng output sz ret := by
  have hsize := sz.isLt
  induction fuel generalizing i s with
  | zero => omega
  | succ fuel ih =>
    rw [seed_loop]
    by_cases hmore : i < sz
    · have hlt : i.toNat < sz.toNat := hmore
      have haddr := toNat_addr hbound hlt
      rw [if_pos hmore]
      by_cases hbyte : i + 4#32 > sz ∨ (output + i) % 4#32 ≠ 0#32
      · rw [if_pos hbyte]
        cases hrng : rng s.calls with
        | none => exact ⟨_, _, rfl, .inr ⟨rfl, i.toNat, hlt, s, h, hrng, rfl⟩⟩
        | some word =>
          have hnext : (i + 1#32).toNat = i.toNat + 1 := by
            rw [BitVec.toNat_add, BitVec.toNat_ofNat]
            omega
          have hstore := Seed.Filled.store ⟨i, output + i, [low_byte word]⟩ h hrng (.inl rfl)
            ⟨haddr, hlt, .inr rfl⟩
          apply ih
          · rw [hnext]
            exact hstore
          · omega
          · omega
      · rw [if_neg hbyte]
        rw [not_or, not_not] at hbyte
        obtain ⟨hroom, haligned⟩ := hbyte
        cases hrng : rng s.calls with
        | none => exact ⟨_, _, rfl, .inr ⟨rfl, i.toNat, hlt, s, h, hrng, rfl⟩⟩
        | some word =>
          have hsum := sum_lt_of_aligned hnull hbound hlt haligned
          have hnext : (i + 4#32).toNat = i.toNat + 4 := by
            rw [BitVec.toNat_add, BitVec.toNat_ofNat]
            omega
          have hle : i.toNat + 4 ≤ sz.toNat := by
            rw [← hnext]
            exact Nat.le_of_not_lt hroom
          have hfour : 4 ∣ (output + i).toNat := by
            have hzero := congrArg BitVec.toNat haligned
            rw [BitVec.toNat_umod] at hzero
            exact Nat.dvd_of_mod_eq_zero hzero
          have hstore := Seed.Filled.store ⟨i, output + i, word_bytes word⟩ h hrng
            (.inr ⟨hfour, rfl⟩) ⟨haddr, hle, .inl hsum⟩
          apply ih
          · rw [hnext]
            exact hstore
          · omega
          · omega
    · rw [if_neg hmore]
      have hend : i.toNat = sz.toNat := by
        have hge : sz.toNat ≤ i.toNat := Nat.le_of_not_lt hmore
        omega
      exact ⟨0, s, rfl, .inl ⟨rfl, hend ▸ h⟩⟩

end

theorem Seed.Filled.calls_succeed {rng : Nat → Option (BitVec 32)} {output sz : BitVec 32} {i : Nat}
    {s : Seed} (h : s.Filled rng output sz i) : ∀ call < s.calls, (rng call).isSome := by
  intro call hcall
  rw [h.calls_eq] at hcall
  obtain ⟨word, hword, -⟩ := h.takes call _ (List.getElem?_eq_getElem hcall)
  rw [hword]
  rfl

/-- The loop ends, with 0 exactly if all its calls succeeded. The stores then tile
    the output in order, each fed by its own call; a failing call ends the loop
    at its index. Neither the index nor the address wraps, and the sum that is
    tested wraps only where a single byte is stored. -/
theorem custom_wc_GenerateSeed_fills (rng : Nat → Option (BitVec 32)) (output sz : BitVec 32)
    (hnull : output ≠ 0#32) (hsz : sz ≠ 0#32) (hbound : output.toNat + sz.toNat ≤ 2 ^ 32) (fuel : Nat)
    (hfuel : sz.toNat < fuel) :
    ∃ ret s, custom_wc_GenerateSeed rng fuel output sz = some (ret, s) ∧
      (ret = 0 ↔ ∀ call < s.calls, (rng call).isSome) ∧
      (ret = 0 → s.written = List.range' output.toNat sz.toNat ∧ s.calls = s.stores.length) ∧
      (ret ≠ 0 → ret = -105 ∧ s.calls = s.stores.length + 1 ∧
        ∃ index < sz.toNat, s.written = List.range' output.toNat index) ∧
      (∀ (call : Nat) store, s.stores[call]? = some store →
        ∃ word, rng call = some word ∧ store.Takes word) ∧
      ∀ store ∈ s.stores, store.Inside output sz := by
  obtain ⟨ret, s, hrun, houtcome⟩ := seed_loop_spec (i := 0#32) hnull hbound
    (Seed.filled_start rng output sz) (Nat.zero_le sz.toNat) hfuel
  refine ⟨ret, s, ?_, ?_⟩
  · rw [custom_wc_GenerateSeed, if_neg (by simp [hnull, hsz])]
    exact hrun
  · obtain ⟨rfl, hfilled⟩ | ⟨rfl, index, hindex, before, hfilled, hfail, rfl⟩ := houtcome
    · exact ⟨iff_of_true rfl hfilled.calls_succeed, fun _ => ⟨hfilled.written_eq, hfilled.calls_eq⟩,
        fun hne => absurd rfl hne, hfilled.takes, hfilled.inside⟩
    · have hfailed : ¬ ∀ call < before.calls + 1, (rng call).isSome := by
        intro hall
        have hsome := hall before.calls (Nat.lt_succ_self _)
        rw [hfail] at hsome
        cases hsome
      exact ⟨iff_of_false (by decide) hfailed, fun hzero => absurd hzero (by decide),
        fun _ => ⟨rfl, congrArg (· + 1) hfilled.calls_eq, index, hindex, hfilled.written_eq⟩,
        hfilled.takes, hfilled.inside⟩

/-- Six bytes from an address behind a word boundary: three bytes and a word
    would fit, but the generator fails at its third call. -/
theorem custom_wc_GenerateSeed_fills_partly :
    ∃ ret s, custom_wc_GenerateSeed (fun call => if call = 2 then none else some 0x01020304#32) 7
        0x20000001#32 6#32 = some (ret, s) ∧
      (ret = 0 ↔ ∀ call < s.calls, (if call = 2 then none else some 0x01020304#32).isSome) ∧
      (ret = 0 → s.written = List.range' 0x20000001 6 ∧ s.calls = s.stores.length) ∧
      (ret ≠ 0 → ret = -105 ∧ s.calls = s.stores.length + 1 ∧
        ∃ index < 6, s.written = List.range' 0x20000001 index) ∧
      (∀ (call : Nat) store, s.stores[call]? = some store →
        ∃ word, (if call = 2 then none else some 0x01020304#32) = some word ∧ store.Takes word) ∧
      ∀ store ∈ s.stores, store.Inside 0x20000001#32 6#32 :=
  custom_wc_GenerateSeed_fills (fun call => if call = 2 then none else some 0x01020304#32)
    0x20000001#32 6#32 (by decide) (by decide) (by decide) 7 (by decide)

/-- Two bytes below the end of the address space the tested sum wraps. -/
theorem tested_sum_wraps :
    ∃ s, custom_wc_GenerateSeed (fun _ => some 0#32) (2 ^ 32) 1#32 0xFFFFFFFE#32 = some (0, s) ∧
      ∃ store ∈ s.stores, 2 ^ 32 ≤ store.index.toNat + 4 := by
  obtain ⟨ret, s, hrun, hret, hzero, -, htakes, hinside⟩ := custom_wc_GenerateSeed_fills
    (fun _ => some 0#32) 1#32 0xFFFFFFFE#32 (by decide) (by decide) (by decide) (2 ^ 32) (by decide)
  have hok : ret = 0 := hret.mpr fun _ _ => rfl
  obtain ⟨hwritten, -⟩ := hzero hok
  have hlast : 0xFFFFFFFE ∈ s.written := by
    rw [hwritten]
    exact List.mem_range'_1.mpr (by decide)
  obtain ⟨store, hstore, hmem⟩ := List.mem_flatMap.mp hlast
  obtain ⟨haddr, hend, hsum⟩ := hinside store hstore
  obtain ⟨call, hcall⟩ := List.getElem?_of_mem hstore
  obtain ⟨word, -, hbytes⟩ := htakes call store hcall
  refine ⟨s, by rw [hrun, hok], store, hstore, ?_⟩
  rw [List.mem_range'_1] at hmem
  change store.addr.toNat = 1 + store.index.toNat at haddr
  change store.index.toNat + store.bytes.length ≤ 0xFFFFFFFE at hend
  obtain hbyte | ⟨haligned, hword⟩ := hbytes
  · rw [hbyte, List.length_singleton] at hmem
    omega
  · -- The word that ends with the address space would lie beyond the output.
    rw [hword, length_word_bytes] at hmem hend
    omega

end keychain.main
