import Keychain.Common.Util
import Keychain.Library.Base64
import Keychain.Library.Substring
import Mathlib.Algebra.Group.Nat.Defs

namespace keychain.keys

def INT_MAX : Nat :=
  2 ^ 31 - 1

def newline : UInt8 :=
  '\n'.toUInt8

/-- The labels that `main` asks for. -/
inductive Label where
  | ec_private_key
  | private_key
  | public_key
  | certificate
  deriving DecidableEq

def Label.header : Label → List UInt8
  | .ec_private_key => ascii "EC PRIVATE KEY"
  | .private_key => ascii "PRIVATE KEY"
  | .public_key => ascii "PUBLIC KEY"
  | .certificate => ascii "CERTIFICATE"

inductive PemType where
  | ECC_PRIVATEKEY_TYPE
  | CERT_TYPE

def PemType.label : PemType → Label
  | .ECC_PRIVATEKEY_TYPE => .ec_private_key
  | .CERT_TYPE => .certificate

def begin_line (label : Label) : List UInt8 :=
  ascii "-----BEGIN " ++ label.header ++ ascii "-----"

def end_line (label : Label) : List UInt8 :=
  ascii "-----END " ++ label.header ++ ascii "-----"

def body_text (lines : List (List UInt8)) : List UInt8 :=
  lines.flatMap (· ++ [newline])

def pem_text (label : Label) (lines : List (List UInt8)) : List UInt8 :=
  (begin_line label ++ [newline]) ++ (body_text lines ++ (end_line label ++ [newline]))

/-- What a call of `wc_DerToPem` returns, with the buffer as it leaves it. -/
structure Pem where
  ret : Int
  pemBuf : List UInt8

/-- The arguments are the blob, the size of the buffer and the type. -/
abbrev DerToPem :=
  List UInt8 → Nat → PemType → Pem

/-- The text stands at the front of the buffer and `rest` behind it. -/
def Pem.Encodes (pem : Pem) (type : PemType) (der rest : List UInt8) : Prop :=
  ∃ lines : List (List UInt8), lines.flatten = base64.encode der ∧
    pem = ⟨(pem_text type.label lines).length, pem_text type.label lines ++ rest⟩

/-- A string ends before the first NUL. There is none in a memory without NUL. -/
def c_string (mem : List UInt8) : Option (List UInt8) :=
  if 0 ∈ mem then some (mem.takeWhile (· ≠ 0)) else none

def strstr (str needle : List UInt8) : Option Nat :=
  substring.find needle str

def memmove (mem : List UInt8) (dest src n : Nat) : List UInt8 :=
  mem.take dest ++ (mem.drop src).take n ++ mem.drop (dest + n)

/-- The `while (start)` loop, for as many rounds as there is fuel. -/
def rewrite_loop : Nat → Pem → Option Pem
  | 0, _ => none
  | fuel + 1, pem => do
    let str ← c_string pem.pemBuf
    match strstr str (ascii "EC PRIVATE KEY") with
    | none => some pem
    | some start =>
      let rest ← c_string (pem.pemBuf.drop (start + 3))
      rewrite_loop fuel ⟨pem.ret - 3, memmove pem.pemBuf start (start + 3) (rest.length + 1)⟩

/-- The bytes that are written, all inside the buffer. -/
def fwrite (pemBuf : List UInt8) (n : Int) : Option (List UInt8) :=
  if 0 ≤ n ∧ n ≤ pemBuf.length then some (pemBuf.take n.toNat) else none

def pem_size (der : List UInt8) : Nat :=
  der.length * 2 + 2048

/-- The contents of the file and the returned value. A size above `INT_MAX`
    overflows. -/
def WritePEM (wc_DerToPem : DerToPem) (header der : List UInt8) : Option (List UInt8 × Int) :=
  if INT_MAX < pem_size der then none
  else
    let pem := wc_DerToPem der (pem_size der) .ECC_PRIVATEKEY_TYPE
    if pem.ret > 0 then do
      let pem ←
        if (strstr header (ascii "PRIVATE KEY")).isSome && (strstr header (ascii "EC ")).isNone then
          rewrite_loop (pem.pemBuf.length + 1) pem
        else some pem
      let pem :=
        if (strstr header (ascii "CERTIFICATE")).isSome then
          wc_DerToPem der (pem_size der) .CERT_TYPE
        else pem
      let file ← fwrite pem.pemBuf pem.ret
      some (file, 0)
    else some ([], pem.ret)

theorem c_string_append {str tail : List UInt8} (h : 0 ∉ str) :
    c_string (str ++ 0 :: tail) = some str := by
  have hall : ∀ ch ∈ str, decide (ch ≠ 0) = true := by
    intro ch hch
    apply decide_eq_true
    rintro rfl
    exact h hch
  rw [c_string, if_pos (List.mem_append_right str List.mem_cons_self),
    List.takeWhile_append_of_pos hall]
  simp

theorem eq_append_of_c_string {mem str : List UInt8} (h : c_string mem = some str) :
    ∃ tail, 0 ∉ str ∧ mem = str ++ 0 :: tail := by
  obtain ⟨hzero, -⟩ := Option.ite_none_right_eq_some.mp h
  obtain ⟨before, tail, rfl, hbefore⟩ := List.eq_append_cons_of_mem hzero
  rw [c_string_append hbefore] at h
  cases h
  exact ⟨tail, hbefore, rfl⟩

theorem memmove_append (before cut after tail : List UInt8) : ∃ junk,
    memmove (before ++ cut ++ after ++ tail) before.length (before.length + cut.length) after.length =
      before ++ after ++ junk := by
  refine ⟨(before ++ cut ++ after ++ tail).drop (before.length + after.length), ?_⟩
  have hfront : (before ++ cut ++ after ++ tail).take before.length = before := by
    rw [List.append_assoc, List.append_assoc, List.take_left]
  have hmoved :
      ((before ++ cut ++ after ++ tail).drop (before.length + cut.length)).take after.length = after := by
    rw [List.append_assoc, ← List.length_append, List.drop_left, List.take_left]
  rw [memmove, hfront, hmoved]

theorem fwrite_append (text rest : List UInt8) : fwrite (text ++ rest) text.length = some text := by
  have hbound : (0 : Int) ≤ text.length ∧ (text.length : Int) ≤ (text ++ rest).length := by
    rw [List.length_append]
    omega
  rw [fwrite, if_pos hbound, Int.toNat_natCast, List.take_left]

theorem fwrite_spec {pemBuf file : List UInt8} {n : Int} (h : fwrite pemBuf n = some file) :
    file <+: pemBuf ∧ (file.length : Int) = n := by
  obtain ⟨hbound, heq⟩ := Option.ite_none_right_eq_some.mp h
  cases heq
  refine ⟨List.take_prefix _ _, ?_⟩
  rw [List.length_take]
  omega

theorem rewrite_loop_found {pem : Pem} {str rest : List UInt8} {start : Nat}
    (hstr : c_string pem.pemBuf = some str)
    (hfind : strstr str (ascii "EC PRIVATE KEY") = some start)
    (hrest : c_string (pem.pemBuf.drop (start + 3)) = some rest) (fuel : Nat) :
    rewrite_loop (fuel + 1) pem =
      rewrite_loop fuel ⟨pem.ret - 3, memmove pem.pemBuf start (start + 3) (rest.length + 1)⟩ := by
  rw [rewrite_loop, hstr, Option.bind_eq_bind, Option.bind_some, hfind]
  dsimp only
  rw [hrest, Option.bind_some]

theorem rewrite_loop_done {pem : Pem} {str : List UInt8} (hstr : c_string pem.pemBuf = some str)
    (hfind : strstr str (ascii "EC PRIVATE KEY") = none) (fuel : Nat) :
    rewrite_loop (fuel + 1) pem = some pem := by
  rw [rewrite_loop, hstr, Option.bind_eq_bind, Option.bind_some, hfind]

section Round

variable {before after : List UInt8}

theorem zero_not_mem_taken (h : 0 ∉ before ++ ascii "EC PRIVATE KEY" ++ after) :
    0 ∉ before ++ ascii "PRIVATE KEY" ++ after := by
  rw [List.mem_append, List.mem_append, not_or, not_or] at h ⊢
  obtain ⟨⟨hbefore, -⟩, hafter⟩ := h
  exact ⟨⟨hbefore, by decide⟩, hafter⟩

/-- One round takes "EC " out of the string. -/
theorem rewrite_loop_round (hzero : 0 ∉ before ++ ascii "EC PRIVATE KEY" ++ after)
    (hfind : strstr (before ++ ascii "EC PRIVATE KEY" ++ after) (ascii "EC PRIVATE KEY") =
      some before.length) (fuel : Nat) (ret : Int) (tail : List UInt8) : ∃ junk,
    rewrite_loop (fuel + 1) ⟨ret, before ++ ascii "EC PRIVATE KEY" ++ after ++ 0 :: tail⟩ =
      rewrite_loop fuel ⟨ret - 3, before ++ ascii "PRIVATE KEY" ++ after ++ 0 :: junk⟩ := by
  have hsplit : before ++ ascii "EC PRIVATE KEY" ++ after ++ 0 :: tail =
      before ++ ascii "EC " ++ (ascii "PRIVATE KEY" ++ after ++ [0]) ++ tail := by
    have hword : ascii "EC PRIVATE KEY" = ascii "EC " ++ ascii "PRIVATE KEY" := rfl
    simp [hword]
  have hrest : 0 ∉ ascii "PRIVATE KEY" ++ after := by
    intro hmem
    apply zero_not_mem_taken hzero
    rw [List.append_assoc]
    exact List.mem_append_right before hmem
  have hdrop : (before ++ ascii "EC PRIVATE KEY" ++ after ++ 0 :: tail).drop (before.length + 3) =
      ascii "PRIVATE KEY" ++ after ++ 0 :: tail := by
    have hlength : before.length + 3 = (before ++ ascii "EC ").length := by
      rw [List.length_append]
      rfl
    rw [hsplit, List.append_assoc (before ++ ascii "EC "), hlength, List.drop_left,
      List.append_assoc _ [0]]
    rfl
  obtain ⟨junk, hjunk⟩ :=
    memmove_append before (ascii "EC ") (ascii "PRIVATE KEY" ++ after ++ [0]) tail
  rw [← hsplit] at hjunk
  -- the NUL is moved with the rest of the string
  have hlength : (ascii "PRIVATE KEY" ++ after ++ [0]).length =
      (ascii "PRIVATE KEY" ++ after).length + 1 := List.length_append
  rw [hlength] at hjunk
  refine ⟨junk, ?_⟩
  rw [rewrite_loop_found (c_string_append hzero) hfind
    ((congrArg c_string hdrop).trans (c_string_append hrest))]
  dsimp only
  refine congrArg (fun pemBuf => rewrite_loop fuel ⟨ret - 3, pemBuf⟩) (hjunk.trans ?_)
  simp

end Round

/-- A word that stands in the string is taken out of it, so the loop ends. -/
theorem rewrite_loop_ends {fuel : Nat} {str : List UInt8} (hzero : 0 ∉ str)
    (hfuel : str.length < fuel) (ret : Int) (tail : List UInt8) :
    ∃ pem, rewrite_loop fuel ⟨ret, str ++ 0 :: tail⟩ = some pem := by
  induction fuel generalizing str ret tail with
  | zero => exact absurd hfuel (Nat.not_lt_zero _)
  | succ fuel ih =>
    cases hfind : strstr str (ascii "EC PRIVATE KEY") with
    | none => exact ⟨_, rewrite_loop_done (c_string_append hzero) hfind fuel⟩
    | some start =>
      obtain ⟨before, after, rfl, rfl⟩ := substring.eq_append_of_find hfind
      obtain ⟨junk, hround⟩ := rewrite_loop_round hzero hfind fuel ret tail
      have hfuel' : (before ++ ascii "PRIVATE KEY" ++ after).length < fuel := by
        simp only [List.length_append] at hfuel ⊢
        have hword : (ascii "EC PRIVATE KEY").length = (ascii "PRIVATE KEY").length + 3 := rfl
        omega
      obtain ⟨pem, hpem⟩ := ih (zero_not_mem_taken hzero) hfuel' (ret - 3) junk
      exact ⟨pem, hround.trans hpem⟩

/-- What the search passes over stays in the buffer, and each further word
    shortens what is written. -/
theorem rewrite_loop_front {front run : List UInt8}
    (hpasses : substring.Passes (ascii "EC PRIVATE KEY") front) (hzero : 0 ∉ front ++ run)
    {fuel : Nat} {ret : Int} {tail : List UInt8} {pem : Pem}
    (h : rewrite_loop fuel ⟨ret, front ++ run ++ 0 :: tail⟩ = some pem) :
    (∃ back, pem.pemBuf = front ++ back) ∧ pem.ret ≤ ret ∧
      (ascii "EC PRIVATE KEY" <:+: run → pem.ret ≤ ret - 3) := by
  induction fuel generalizing run ret tail with
  | zero => cases h
  | succ fuel ih =>
    have hsearch := hpasses run
    cases hfind : substring.find (ascii "EC PRIVATE KEY") run with
    | none =>
      rw [hfind, Option.map_none] at hsearch
      rw [rewrite_loop_done (c_string_append hzero) hsearch] at h
      cases h
      refine ⟨⟨run ++ 0 :: tail, List.append_assoc _ _ _⟩, Int.le_refl ret, fun hword => ?_⟩
      exact absurd hword (substring.find_eq_none_iff.mp hfind)
    | some i =>
      rw [hfind, Option.map_some] at hsearch
      obtain ⟨before, after, rfl, rfl⟩ := substring.eq_append_of_find hfind
      have hregroup : ∀ word, front ++ (before ++ word ++ after) =
          front ++ before ++ word ++ after := by simp
      rw [hregroup, ← List.length_append] at hsearch
      rw [hregroup] at hzero h
      obtain ⟨junk, hround⟩ := rewrite_loop_round hzero hsearch fuel ret tail
      have hzero' := zero_not_mem_taken hzero
      rw [hround, ← hregroup] at h
      rw [← hregroup] at hzero'
      obtain ⟨hback, hret, -⟩ := ih hzero' h
      exact ⟨hback, by omega, fun _ => hret⟩

end keychain.keys
