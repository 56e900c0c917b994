import Keychain.Library.Winternitz
import Keychain.Sphincs.Address

namespace keychain.sphincs

def SPX_WOTS_W : Nat := 16
def SPX_WOTS_LOGW : Nat := 4
def SPX_WOTS_LEN1 : Nat := 32
def SPX_WOTS_LEN2 : Nat := 3
def SPX_WOTS_LEN : Nat := SPX_WOTS_LEN1 + SPX_WOTS_LEN2
def SPX_WOTS_BYTES : Nat := SPX_WOTS_LEN * SPX_N

/-- The loop of `base_w`, with `bits` bits of `total` not used yet. -/
def base_w_loop : (out_len bits total : Nat) → List UInt8 → List Nat
  | 0, _, _, _ => []
  | out_len + 1, bits, total, input =>
    let refill := bits = 0
    let total := if refill then (input.headD 0).toNat else total
    let rest := if refill then input.tail else input
    let bits := (if refill then bits + 8 else bits) - SPX_WOTS_LOGW
    (total >>> bits &&& (SPX_WOTS_W - 1)) :: base_w_loop out_len bits total rest

def base_w (out_len : Nat) (input : List UInt8) : List Nat :=
  base_w_loop out_len 0 0 input

def wots_checksum (msg_base_w : List Nat) : List Nat :=
  let csum := msg_base_w.foldl (fun csum digit => csum + (SPX_WOTS_W - 1 - digit)) 0
  base_w SPX_WOTS_LEN2 (ull_to_bytes 2 (csum <<< 4))

/-- How far each chain is walked for a message. -/
def chain_lengths (msg : Node) : List Nat :=
  let lengths := base_w SPX_WOTS_LEN1 msg.toList
  lengths ++ wots_checksum lengths

structure leaf_info_x1 where
  wots_sig : List Node
  wots_sign_leaf : Nat
  wots_steps : List Nat
  leaf_addr : Addr
  pk_addr : Addr

section

variable (sha256 : Sha256) (ctx : spx_ctx)

/-- The inner loop of `wots_gen_leafx1` in chain `i` from position `k`, with `left` positions
    to the end of the chain. -/
def wots_gen_leaf_chain (i wots_k : Nat) :
    (left k : Nat) → Node → List Node → Addr → Node × List Node × Addr
  | 0, k, buffer, wots_sig, leaf_addr =>
    (buffer, if k = wots_k then wots_sig.set i buffer else wots_sig, leaf_addr)
  | left + 1, k, buffer, wots_sig, leaf_addr =>
    let wots_sig := if k = wots_k then wots_sig.set i buffer else wots_sig
    let leaf_addr := set_hash_addr leaf_addr k
    let buffer := thash sha256 ctx [buffer] leaf_addr
    wots_gen_leaf_chain i wots_k left (k + 1) buffer wots_sig leaf_addr

/-- The outer loop of `wots_gen_leafx1` from chain `i` on. -/
def wots_gen_leaf_loop (wots_k_mask : Nat) :
    (left i : Nat) → leaf_info_x1 → List Node × leaf_info_x1
  | 0, _, info => ([], info)
  | left + 1, i, info =>
    let wots_k := info.wots_steps.getD i 0 ||| wots_k_mask
    let leaf_addr := set_hash_addr (set_chain_addr info.leaf_addr i) 0
    let leaf_addr := set_type leaf_addr SPX_ADDR_TYPE_WOTSPRF
    let buffer := prf_addr sha256 ctx leaf_addr
    let leaf_addr := set_type leaf_addr SPX_ADDR_TYPE_WOTS
    let chain := wots_gen_leaf_chain sha256 ctx i wots_k (SPX_WOTS_W - 1) 0 buffer info.wots_sig
      leaf_addr
    let rest := wots_gen_leaf_loop wots_k_mask left (i + 1)
      { info with wots_sig := chain.2.1, leaf_addr := chain.2.2 }
    (chain.1 :: rest.1, rest.2)

def wots_gen_leafx1 (leaf_idx : Nat) (info : leaf_info_x1) : Node × leaf_info_x1 :=
  -- only the leaf that signs has a position in a chain to stop at
  let wots_k_mask := if leaf_idx = info.wots_sign_leaf then 0 else 2 ^ 32 - 1
  let leaf_addr := set_keypair_addr info.leaf_addr leaf_idx
  let pk_addr := set_keypair_addr info.pk_addr leaf_idx
  let pk := wots_gen_leaf_loop sha256 ctx wots_k_mask SPX_WOTS_LEN 0
    { info with leaf_addr, pk_addr }
  (thash sha256 ctx pk.1 pk.2.pk_addr, pk.2)

def gen_chain : (left k : Nat) → Node → Addr → Node × Addr
  | 0, _, out, addr => (out, addr)
  | left + 1, k, out, addr =>
    let addr := set_hash_addr addr k
    gen_chain left (k + 1) (thash sha256 ctx [out] addr) addr

/-- The loop of `wots_pk_from_sig` from chain `i` on. -/
def wots_pk_from_sig_loop : (lengths : List Nat) → (i : Nat) → List UInt8 → Addr → List Node × Addr
  | [], _, _, addr => ([], addr)
  | start :: lengths, i, sig, addr =>
    let addr := set_chain_addr addr i
    let out := gen_chain sha256 ctx (SPX_WOTS_W - 1 - start) start (node_at sig) addr
    let rest := wots_pk_from_sig_loop lengths (i + 1) (sig.drop SPX_N) out.2
    (out.1 :: rest.1, rest.2)

def wots_pk_from_sig (sig : List UInt8) (msg : Node) (addr : Addr) : List Node × Addr :=
  wots_pk_from_sig_loop sha256 ctx (chain_lengths msg) 0 sig addr

end

theorem base_w_loop_pair (n total : Nat) (byte : UInt8) (rest : List UInt8) :
    base_w_loop (n + 2) 0 total (byte :: rest) =
      byte.toNat / 16 :: byte.toNat % 16 :: base_w_loop n 0 byte.toNat rest := by
  have hhigh : byte.toNat >>> 4 &&& 15 = byte.toNat / 16 := by
    rw [Nat.shiftRight_eq_div_pow, Nat.and_two_pow_sub_one_eq_mod _ 4]
    exact Nat.mod_eq_of_lt (by have := byte.toNat_lt; omega)
  have hlow : byte.toNat >>> 0 &&& 15 = byte.toNat % 16 := by
    rw [Nat.shiftRight_zero, Nat.and_two_pow_sub_one_eq_mod _ 4]
  rw [← hhigh, ← hlow]
  rfl

@[simp] theorem length_base_w_loop (out_len bits total : Nat) (input : List UInt8) :
    (base_w_loop out_len bits total input).length = out_len := by
  induction out_len generalizing bits total input with
  | zero => rfl
  | succ out_len ih => rw [base_w_loop, List.length_cons, ih]

theorem base_w_loop_le {out_len bits total : Nat} {input : List UInt8} {digit : Nat}
    (h : digit ∈ base_w_loop out_len bits total input) : digit ≤ SPX_WOTS_W - 1 := by
  induction out_len generalizing bits total input with
  | zero => cases h
  | succ out_len ih =>
    rw [base_w_loop] at h
    rcases List.mem_cons.mp h with rfl | hrest
    · exact Nat.and_le_right
    · exact ih hrest

theorem length_chain_lengths (msg : Node) : (chain_lengths msg).length = SPX_WOTS_LEN := by
  rw [chain_lengths, List.length_append, wots_checksum, base_w, base_w, length_base_w_loop,
    length_base_w_loop]
  rfl

theorem chain_lengths_le {msg : Node} {digit : Nat} (h : digit ∈ chain_lengths msg) :
    digit ≤ SPX_WOTS_W - 1 := by
  rcases List.mem_append.mp h with hmem | hmem
  · exact base_w_loop_le hmem
  · exact base_w_loop_le hmem

theorem base_w_injective {first second : List UInt8} (hlength : first.length = second.length)
    {t u : Nat} (h : base_w_loop (2 * first.length) 0 t first =
      base_w_loop (2 * second.length) 0 u second) : first = second := by
  induction first generalizing second t u with
  | nil => exact (List.eq_nil_of_length_eq_zero hlength.symm).symm
  | cons b first ih =>
    obtain ⟨c, second, rfl⟩ : ∃ c rest, second = c :: rest :=
      List.exists_cons_of_length_eq_add_one hlength.symm
    rw [List.length_cons, List.length_cons, Nat.mul_succ, Nat.mul_succ, base_w_loop_pair,
      base_w_loop_pair, List.cons.injEq, List.cons.injEq] at h
    obtain ⟨hhigh, hlow, hrest⟩ := h
    have hbyte : b = c := by
      apply UInt8.toNat_inj.mp
      omega
    rw [hbyte, ih (Nat.succ.inj hlength) hrest]

theorem foldl_checksum (digits : List Nat) (csum : Nat) :
    digits.foldl (fun csum digit => csum + (SPX_WOTS_W - 1 - digit)) csum =
      csum + winternitz.checksum (SPX_WOTS_W - 1) digits := by
  induction digits generalizing csum with
  | nil => rfl
  | cons digit digits ih =>
    rw [List.foldl_cons, ih, winternitz.checksum_cons, Nat.add_assoc]

/-- The last three digits are those of the checksum of the others. -/
theorem value_wots_checksum {digits : List Nat} (hlength : digits.length ≤ SPX_WOTS_LEN1) :
    winternitz.value SPX_WOTS_W (wots_checksum digits) =
      winternitz.checksum (SPX_WOTS_W - 1) digits := by
  have hsmall : winternitz.checksum (SPX_WOTS_W - 1) digits ≤ 15 * digits.length := by
    apply winternitz.checksum_le_length
  have hbound : winternitz.checksum (SPX_WOTS_W - 1) digits < 4096 := by
    unfold SPX_WOTS_LEN1 at hlength
    omega
  rw [wots_checksum, foldl_checksum, Nat.zero_add, Nat.shiftLeft_eq]
  generalize winternitz.checksum (SPX_WOTS_W - 1) digits = csum at hbound
  have hbytes : ull_to_bytes 2 (csum * 2 ^ 4) =
      [UInt8.ofNat (csum * 2 ^ 4 / 256), UInt8.ofNat (csum * 2 ^ 4)] := rfl
  have hlast (high low : UInt8) : base_w_loop 1 0 high.toNat [low] = [low.toNat >>> 4 &&& 15] := rfl
  rw [hbytes, base_w, SPX_WOTS_LEN2, base_w_loop_pair, hlast, Nat.shiftRight_eq_div_pow,
    Nat.and_two_pow_sub_one_eq_mod _ 4, UInt8.toNat_ofNat', UInt8.toNat_ofNat']
  simp only [winternitz.value, List.foldl_cons, List.foldl_nil, SPX_WOTS_W]
  omega

/-- No message's chains can all be walked on from those of another message. -/
theorem exists_chain_lengths_lt {msg other : Node} (hne : msg ≠ other) :
    ∃ i : Fin SPX_WOTS_LEN,
      (chain_lengths other).getD i 0 < (chain_lengths msg).getD i 0 := by
  by_contra hnone
  have hle : List.Forall₂ (· ≤ ·) (chain_lengths msg) (chain_lengths other) := by
    rw [List.forall₂_iff_get]
    refine ⟨by rw [length_chain_lengths, length_chain_lengths], fun i hi hi' => ?_⟩
    have hlen : i < SPX_WOTS_LEN := by rwa [length_chain_lengths] at hi
    by_contra hlt
    refine hnone ⟨⟨i, hlen⟩, ?_⟩
    rw [List.getD_eq_getElem _ _ hi', List.getD_eq_getElem _ _ hi]
    exact Nat.lt_of_not_le hlt
  have hdigits : ∀ node : Node, (base_w SPX_WOTS_LEN1 node.toList).length ≤ SPX_WOTS_LEN1 :=
    fun node => Nat.le_of_eq (length_base_w_loop ..)
  have hsame : base_w SPX_WOTS_LEN1 msg.toList = base_w SPX_WOTS_LEN1 other.toList := by
    refine winternitz.eq_of_le (value_wots_checksum (hdigits msg))
      (value_wots_checksum (hdigits other)) (fun d hd => base_w_loop_le hd) ?_ hle
    rw [base_w, base_w, length_base_w_loop, length_base_w_loop]
  have hlength (node : Node) : SPX_WOTS_LEN1 = 2 * node.toList.length := by
    rw [Vector.length_toList]
    rfl
  refine hne (Vector.toList_inj.mp (base_w_injective ?_ (t := 0) (u := 0) ?_))
  · rw [Vector.length_toList, Vector.length_toList]
  · rwa [← hlength, ← hlength]

theorem exists_chain_lengths_lt_zero_one : ∃ i : Fin SPX_WOTS_LEN,
    (chain_lengths (Vector.replicate SPX_N 1)).getD i 0 <
      (chain_lengths (Vector.replicate SPX_N 0)).getD i 0 :=
  exists_chain_lengths_lt (by decide)

end keychain.sphincs
