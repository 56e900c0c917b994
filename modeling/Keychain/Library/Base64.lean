import Mathlib.Data.List.Basic

namespace base64

/-- The character that stands for a number below 64. -/
def digit (n : Nat) : UInt8 :=
  if n < 26 then UInt8.ofNat (65 + n)
  else if n < 52 then UInt8.ofNat (71 + n)
  else if n < 62 then UInt8.ofNat (n - 4)
  else if n = 62 then 43
  else 47

def value (ch : UInt8) : Option Nat :=
  if 65 ≤ ch ∧ ch ≤ 90 then some (ch.toNat - 65)
  else if 97 ≤ ch ∧ ch ≤ 122 then some (ch.toNat - 71)
  else if 48 ≤ ch ∧ ch ≤ 57 then some (ch.toNat + 4)
  else if ch = 43 then some 62
  else if ch = 47 then some 63
  else none

/-- The character that fills up the last group. -/
def pad : UInt8 := 61

/-- Three bytes make four characters. -/
def encode : List UInt8 → List UInt8
  | [] => []
  | [a] => [digit (a.toNat / 4), digit (a.toNat % 4 * 16), pad, pad]
  | [a, b] =>
    [digit (a.toNat / 4), digit (a.toNat % 4 * 16 + b.toNat / 16), digit (b.toNat % 16 * 4), pad]
  | a :: b :: c :: rest =>
    digit (a.toNat / 4) :: digit (a.toNat % 4 * 16 + b.toNat / 16) ::
      digit (b.toNat % 16 * 4 + c.toNat / 64) :: digit (c.toNat % 64) :: encode rest

def first (w x : Nat) : UInt8 := UInt8.ofNat (w * 4 + x / 16)

def second (x y : Nat) : UInt8 := UInt8.ofNat (x % 16 * 16 + y / 4)

def third (y z : Nat) : UInt8 := UInt8.ofNat (y % 4 * 64 + z)

/-- A group is filled up only at the end. -/
def decode : List UInt8 → Option (List UInt8)
  | [] => some []
  | w :: x :: y :: z :: rest =>
    match value w, value x, value y, value z with
    | some w, some x, some y, some z =>
      (decode rest).map fun bytes => first w x :: second x y :: third y z :: bytes
    | some w, some x, some y, none =>
      if z = pad ∧ rest = [] then some [first w x, second x y] else none
    | some w, some x, none, none =>
      if y = pad ∧ z = pad ∧ rest = [] then some [first w x] else none
    | _, _, _, _ => none
  | _ => none

theorem value_digit {n : Nat} (h : n < 64) : value (digit n) = some n := by
  have hall : ∀ n < 64, value (digit n) = some n := by decide
  exact hall n h

theorem value_pad : value pad = none := rfl

theorem first_eq (byte : UInt8) {x : Nat} (hx : x / 16 = byte.toNat % 4) :
    first (byte.toNat / 4) x = byte := by
  rw [first, hx, Nat.mul_comm, Nat.div_add_mod, UInt8.ofNat_toNat]

theorem second_eq (byte : UInt8) {x y : Nat} (hx : x % 16 = byte.toNat / 16)
    (hy : y / 4 = byte.toNat % 16) : second x y = byte := by
  rw [second, hx, hy, Nat.mul_comm, Nat.div_add_mod, UInt8.ofNat_toNat]

theorem third_eq (byte : UInt8) {y : Nat} (hy : y % 4 = byte.toNat / 64) :
    third y (byte.toNat % 64) = byte := by
  rw [third, hy, Nat.mul_comm, Nat.div_add_mod, UInt8.ofNat_toNat]

/-- What is encoded is decoded again. -/
theorem decode_encode (bytes : List UInt8) : decode (encode bytes) = some bytes := by
  induction bytes using encode.induct with
  | case1 => rfl
  | case2 a =>
    have ha := a.toNat_lt
    have hfirst : first (a.toNat / 4) (a.toNat % 4 * 16) = a := first_eq a (by omega)
    rw [encode, decode, value_digit (by omega), value_digit (by omega), value_pad]
    dsimp only
    rw [if_pos ⟨rfl, rfl, rfl⟩, hfirst]
  | case3 a b =>
    have ha := a.toNat_lt
    have hb := b.toNat_lt
    have hfirst : first (a.toNat / 4) (a.toNat % 4 * 16 + b.toNat / 16) = a := first_eq a (by omega)
    have hsecond : second (a.toNat % 4 * 16 + b.toNat / 16) (b.toNat % 16 * 4) = b :=
      second_eq b (by omega) (by omega)
    rw [encode, decode, value_digit (by omega), value_digit (by omega), value_digit (by omega),
      value_pad]
    dsimp only
    rw [if_pos ⟨rfl, rfl⟩, hfirst, hsecond]
  | case4 a b c rest ih =>
    have ha := a.toNat_lt
    have hb := b.toNat_lt
    have hc := c.toNat_lt
    have hfirst : first (a.toNat / 4) (a.toNat % 4 * 16 + b.toNat / 16) = a := first_eq a (by omega)
    have hsecond : second (a.toNat % 4 * 16 + b.toNat / 16) (b.toNat % 16 * 4 + c.toNat / 64) = b :=
      second_eq b (by omega) (by omega)
    have hthird : third (b.toNat % 16 * 4 + c.toNat / 64) (c.toNat % 64) = c := third_eq c (by omega)
    rw [encode, decode, value_digit (by omega), value_digit (by omega), value_digit (by omega),
      value_digit (by omega), ih]
    dsimp only [Option.map_some]
    rw [hfirst, hsecond, hthird]

/-- The characters that a decoder accepts. -/
def IsDigit (ch : UInt8) : Prop :=
  value ch ≠ none ∨ ch = pad

theorem isDigit_of_value {ch : UInt8} {n : Nat} (h : value ch = some n) : IsDigit ch :=
  .inl (by rw [h]; exact Option.some_ne_none n)

theorem isDigit_group {w x y z : UInt8} {rest : List UInt8} (hw : IsDigit w) (hx : IsDigit x)
    (hy : IsDigit y) (hz : IsDigit z) (hrest : ∀ ch ∈ rest, IsDigit ch) :
    ∀ ch ∈ w :: x :: y :: z :: rest, IsDigit ch := by
  rintro ch (_ | ⟨_, _ | ⟨_, _ | ⟨_, _ | ⟨_, hch⟩⟩⟩⟩)
  · exact hw
  · exact hx
  · exact hy
  · exact hz
  · exact hrest ch hch

theorem isDigit_of_decode {text bytes : List UInt8} (h : decode text = some bytes) :
    ∀ ch ∈ text, IsDigit ch := by
  fun_induction decode text generalizing bytes with
  | case1 => exact fun _ hch => absurd hch List.not_mem_nil
  | case2 w x y z rest _ _ _ _ hz hy hx hw ih =>
    obtain ⟨bytes', hrest, -⟩ := Option.map_eq_some_iff.mp h
    exact isDigit_group (isDigit_of_value hw) (isDigit_of_value hx) (isDigit_of_value hy)
      (isDigit_of_value hz) (ih hrest)
  | case3 w x y z rest _ _ _ _ hy hx hw hend =>
    obtain ⟨hz, rfl⟩ := hend
    exact isDigit_group (isDigit_of_value hw) (isDigit_of_value hx) (isDigit_of_value hy) (.inr hz)
      fun _ hch => absurd hch List.not_mem_nil
  | case5 w x y z rest _ _ _ _ hx hw hend =>
    obtain ⟨hy, hz, rfl⟩ := hend
    exact isDigit_group (isDigit_of_value hw) (isDigit_of_value hx) (.inr hy) (.inr hz)
      fun _ hch => absurd hch List.not_mem_nil
  | case4 => cases h
  | case6 => cases h
  | case7 => cases h
  | case8 => cases h

end base64
