import Mathlib.Data.List.Basic

namespace keychain

/-- A C string is the list of its characters, here those of a literal. Past
    them stands the NUL, so `*p` is `p.headD 0` and `p + 1` is `p.tail`. -/
def ascii (s : String) : List UInt8 :=
  s.toList.map Char.toUInt8

def upper (ch : UInt8) : Bool :=
  decide ('A'.toUInt8 ≤ ch) && decide (ch ≤ 'Z'.toUInt8)

/-- The result is `a - b` for the first two characters that differ, as a `char`. -/
def strnicmp : List UInt8 → List UInt8 → Nat → UInt8
  | _, _, 0 => 0
  | str1, str2, len + 1 =>
    let a := str1.headD 0
    let b := str2.headD 0
    if a = b then
      if a = 0 then 0 else strnicmp str1.tail str2.tail len
    else if upper a ∧ a.toNat + 32 = b.toNat then
      strnicmp str1.tail str2.tail len
    else if upper b ∧ b.toNat + 32 = a.toNat then
      strnicmp str1.tail str2.tail len
    else
      a - b

def is_char (ch : UInt8) : Bool :=
  (decide ('a'.toUInt8 ≤ ch) && decide (ch ≤ 'z'.toUInt8)) || upper ch ||
    (decide ('0'.toUInt8 ≤ ch) && decide (ch ≤ '9'.toUInt8)) || ch = '*'.toUInt8 || ch = '#'.toUInt8

def _hex_to_bin (ch : UInt8) : Int :=
  if '0'.toUInt8 ≤ ch ∧ ch ≤ '9'.toUInt8 then (ch.toNat : Int) - 48
  else if 'a'.toUInt8 ≤ ch ∧ ch ≤ 'f'.toUInt8 then 10 + (ch.toNat : Int) - 97
  else if 'A'.toUInt8 ≤ ch ∧ ch ≤ 'F'.toUInt8 then 10 + (ch.toNat : Int) - 65
  else -1

/-- The byte that two hexadecimal digits stand for. -/
def _get_hex (src : List UInt8) : Option UInt8 :=
  let high := _hex_to_bin (src.headD 0)
  if high < 0 then none
  else
    let low := _hex_to_bin (src.tail.headD 0)
    if low < 0 then none
    else some (UInt8.ofNat (high.toNat * 16) ||| UInt8.ofNat low.toNat)

/-- The bytes stored into `dest`. Their number is what the function returns. -/
def hex_to_bin : List UInt8 → Nat → List UInt8
  | _, 0 => []
  | src, limit + 1 =>
    match _get_hex src with
    | none => []
    | some byte => byte :: hex_to_bin (src.drop 2) limit

end keychain
