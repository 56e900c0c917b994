import Keychain.Sphincs.Wots

namespace keychain.sphincs

section

variable (sha256 : Sha256) (ctx : spx_ctx)

/-- The address of a chain of the key pair at `base`, but for the position in it. -/
def chain_addr (base : Addr) (i : Nat) : Addr :=
  set_type (set_chain_addr base i) SPX_ADDR_TYPE_WOTS

def chain_step (base : Addr) (i k : Nat) (node : Node) : Node :=
  thash sha256 ctx [node] (set_hash_addr (chain_addr base i) k)

/-- The secret start of a chain. -/
def chain_start (base : Addr) (i : Nat) : Node :=
  prf_addr sha256 ctx (set_type (set_hash_addr (set_chain_addr base i) 0) SPX_ADDR_TYPE_WOTSPRF)

def chain_node (base : Addr) (k i : Nat) : Node :=
  winternitz.walk (chain_step sha256 ctx base i) k 0 (chain_start sha256 ctx base i)

/-- The ends of all chains of the key pair at `base`. -/
def wots_pk (base : Addr) : List Node :=
  (List.range' 0 SPX_WOTS_LEN).map (chain_node sha256 ctx base (SPX_WOTS_W - 1))

def wots_signature (base : Addr) (msg : Node) : List Node :=
  (List.range' 0 SPX_WOTS_LEN).map fun i =>
    chain_node sha256 ctx base ((chain_lengths msg).getD i 0) i

/-- The bytes that generating a leaf writes to its address. -/
def leaf_bytes : List Nat :=
  [17, 21, 9]

theorem wots_gen_leaf_chain_spec (base : Addr) (i wots_k left k : Nat) (buffer : Node)
    (wots_sig : List Node) {leaf_addr : Addr} (haddr : Addr.Agree [21] leaf_addr (chain_addr base i)) :
    ∃ leaf_addr', wots_gen_leaf_chain sha256 ctx i wots_k left k buffer wots_sig leaf_addr =
        (winternitz.walk (chain_step sha256 ctx base i) left k buffer,
          if k ≤ wots_k ∧ wots_k ≤ k + left then
            wots_sig.set i (winternitz.walk (chain_step sha256 ctx base i) (wots_k - k) k buffer)
          else wots_sig, leaf_addr') ∧
      Addr.Agree [21] leaf_addr' (chain_addr base i) := by
  induction left generalizing k buffer wots_sig leaf_addr with
  | zero =>
    refine ⟨leaf_addr, ?_, haddr⟩
    rw [wots_gen_leaf_chain]
    by_cases hk : k = wots_k
    · rw [if_pos hk, if_pos (by omega), hk, Nat.sub_self]
      rfl
    · rw [if_neg hk, if_neg (by omega)]
      rfl
  | succ left ih =>
    have hstep : thash sha256 ctx [buffer] (set_hash_addr leaf_addr k) =
        chain_step sha256 ctx base i k buffer := by
      unfold chain_step
      rw [Addr.Agree.eq (haddr.store_byte (UInt8.ofNat k)) (a := set_hash_addr leaf_addr k)]
      rfl
    obtain ⟨leaf_addr', hrun, haddr'⟩ := ih (k + 1) (chain_step sha256 ctx base i k buffer)
      (if k = wots_k then wots_sig.set i buffer else wots_sig)
      (haddr.store_byte_left _ List.mem_cons_self (UInt8.ofNat k))
    refine ⟨leaf_addr', ?_, haddr'⟩
    rw [wots_gen_leaf_chain, hstep]
    refine hrun.trans ?_
    by_cases hk : k = wots_k
    · rw [if_pos hk, if_neg (by omega), if_pos (by omega), hk, Nat.sub_self]
      rfl
    · rw [if_neg hk]
      by_cases hin : k + 1 ≤ wots_k ∧ wots_k ≤ k + 1 + left
      · have hcount : wots_k - k = wots_k - (k + 1) + 1 := by omega
        rw [if_pos hin, if_pos (by omega), hcount]
        rfl
      · rw [if_neg hin, if_neg (by omega)]
        rfl

/-- All bits set keep a position out of the chain, no bits leave it as it is. -/
theorem or_mask {signs : Prop} [Decidable signs] {k : Nat} (hk : k ≤ SPX_WOTS_W - 1) :
    (0 ≤ (k ||| if signs then 0 else 2 ^ 32 - 1) ∧
      (k ||| if signs then 0 else 2 ^ 32 - 1) ≤ 0 + (SPX_WOTS_W - 1)) ↔ signs := by
  by_cases hsigns : signs
  · rw [if_pos hsigns, Nat.or_zero]
    exact ⟨fun _ => hsigns, fun _ => ⟨Nat.zero_le k, by omega⟩⟩
  · rw [if_neg hsigns]
    have hlarge : 2 ^ 32 - 1 ≤ k ||| 2 ^ 32 - 1 := Nat.right_le_or
    constructor
    · intro hsmall
      unfold SPX_WOTS_W at hsmall
      omega
    · exact fun h => absurd h hsigns

/-- What the address had before in the bytes of a chain does not matter. -/
theorem chain_start_addr_congr {base leaf_addr : Addr}
    (haddr : Addr.Agree leaf_bytes leaf_addr base) (i : Nat) :
    set_type (set_hash_addr (set_chain_addr leaf_addr i) 0) SPX_ADDR_TYPE_WOTSPRF =
      set_type (set_hash_addr (set_chain_addr base i) 0) SPX_ADDR_TYPE_WOTSPRF := by
  have hchain : Addr.Agree [21, 9] (set_chain_addr leaf_addr i) (set_chain_addr base i) :=
    haddr.store_byte _
  have hhash : Addr.Agree [9] (set_hash_addr (set_chain_addr leaf_addr i) 0)
      (set_hash_addr (set_chain_addr base i) 0) := hchain.store_byte _
  exact Addr.Agree.eq (hhash.store_byte _)

/-- The secret of a chain has left its position and its type in the address. -/
theorem chain_addr_agree (base : Addr) (i : Nat) :
    Addr.Agree [21] (set_type (set_type (set_hash_addr (set_chain_addr base i) 0)
      SPX_ADDR_TYPE_WOTSPRF) SPX_ADDR_TYPE_WOTS) (chain_addr base i) := by
  have hhash := (Addr.Agree.refl [9, 21] (set_chain_addr base i)).store_byte_left 21
    (by decide) (UInt8.ofNat 0)
  exact (hhash.store_byte_left 9 (by decide) SPX_ADDR_TYPE_WOTSPRF).store_byte _

theorem chain_addr_leaf_bytes (base : Addr) (i : Nat) :
    Addr.Agree leaf_bytes (chain_addr base i) base := by
  have hchain := (Addr.Agree.refl leaf_bytes base).store_byte_left 17 (by decide)
    (UInt8.ofNat i)
  exact hchain.store_byte_left _ (by decide) _

theorem take_set_succ {α : Type} {xs : List α} {i : Nat} (hi : i < xs.length) (x : α) :
    (xs.set i x).take (i + 1) = xs.take i ++ [x] := by
  rw [List.take_succ_eq_append_getElem (by rwa [List.length_set]), List.getElem_set_self,
    List.take_set_of_le (Nat.le_refl i)]

theorem wots_gen_leaf_loop_spec (base : Addr) (signs : Prop) [Decidable signs] {left i : Nat}
    (info : leaf_info_x1) (haddr : Addr.Agree leaf_bytes info.leaf_addr base)
    (hsteps : ∀ j, info.wots_steps.getD j 0 ≤ SPX_WOTS_W - 1)
    (hsig : info.wots_sig.length = i + left) :
    ∃ leaf_addr', wots_gen_leaf_loop sha256 ctx (if signs then 0 else 2 ^ 32 - 1) left i info =
        ((List.range' i left).map (chain_node sha256 ctx base (SPX_WOTS_W - 1)),
          { info with
            wots_sig := if signs then
              info.wots_sig.take i ++ (List.range' i left).map fun j =>
                chain_node sha256 ctx base (info.wots_steps.getD j 0) j
              else info.wots_sig
            leaf_addr := leaf_addr' }) ∧
      Addr.Agree leaf_bytes leaf_addr' base := by
  induction left generalizing i info with
  | zero =>
    refine ⟨info.leaf_addr, ?_, haddr⟩
    rw [wots_gen_leaf_loop, List.range'_zero, List.map_nil, List.map_nil, List.append_nil,
      List.take_of_length_le (i := i) (Nat.le_of_eq hsig), ite_self]
  | succ left ih =>
    obtain ⟨leaf_addr, hchain, hagree⟩ := wots_gen_leaf_chain_spec sha256 ctx base i
      (info.wots_steps.getD i 0 ||| if signs then 0 else 2 ^ 32 - 1) (SPX_WOTS_W - 1) 0
      (chain_start sha256 ctx base i) info.wots_sig (chain_addr_agree base i)
    have hsig_i : (if signs then info.wots_sig.set i
        (winternitz.walk (chain_step sha256 ctx base i)
          ((info.wots_steps.getD i 0 ||| if signs then 0 else 2 ^ 32 - 1) - 0) 0
          (chain_start sha256 ctx base i))
        else info.wots_sig) =
        if signs then
          info.wots_sig.set i (chain_node sha256 ctx base (info.wots_steps.getD i 0) i)
        else info.wots_sig := by
      by_cases hsigns : signs
      · rw [if_pos hsigns, if_pos hsigns, if_pos hsigns, Nat.or_zero, Nat.sub_zero, chain_node]
      · rw [if_neg hsigns, if_neg hsigns]
    rw [if_congr (or_mask (hsteps i)) rfl rfl, hsig_i] at hchain
    have hleaf : Addr.Agree leaf_bytes leaf_addr base :=
      (hagree.mono (by decide)).trans (chain_addr_leaf_bytes base i)
    obtain ⟨leaf_addr', hrest, hagree'⟩ := ih (i := i + 1)
      { info with
        wots_sig := if signs then
            info.wots_sig.set i (chain_node sha256 ctx base (info.wots_steps.getD i 0) i)
          else info.wots_sig
        leaf_addr } hleaf hsteps (by split <;> simp <;> omega)
    refine ⟨leaf_addr', ?_, hagree'⟩
    rw [wots_gen_leaf_loop, chain_start_addr_congr haddr]
    rw [← chain_start, hchain, hrest, List.range'_succ, List.map_cons, List.map_cons]
    by_cases hsigns : signs
    · simp only [if_pos hsigns]
      rw [take_set_succ (by omega), List.append_assoc, List.singleton_append]
      rfl
    · simp only [if_neg hsigns]
      rfl

/-- The leaf of key pair `j`: its compressed public key. -/
def wots_leaf (base pk_base : Addr) (j : Nat) : Node :=
  thash sha256 ctx (wots_pk sha256 ctx (set_keypair_addr base j)) (set_keypair_addr pk_base j)

/-- What `info` holds before leaf `j`: from the leaf that signs on, the signature. -/
structure leaf_info_x1.Ready (base pk_base : Addr) (msg : Node) (idx_leaf : Nat)
    (stale : List Node) (j : Nat) (info : leaf_info_x1) : Prop where
  leaf_addr : Addr.Agree (13 :: leaf_bytes) info.leaf_addr base
  pk_addr : Addr.Agree [13] info.pk_addr pk_base
  wots_steps : info.wots_steps = chain_lengths msg
  wots_sign_leaf : info.wots_sign_leaf = idx_leaf
  wots_sig : info.wots_sig =
    if idx_leaf < j then wots_signature sha256 ctx (set_keypair_addr base idx_leaf) msg else stale

theorem chain_lengths_getD_le (msg : Node) (i : Nat) :
    (chain_lengths msg).getD i 0 ≤ SPX_WOTS_W - 1 := by
  by_cases hi : i < (chain_lengths msg).length
  · rw [List.getD_eq_getElem _ _ hi]
    exact chain_lengths_le (List.getElem_mem hi)
  · rw [List.getD_eq_default _ _ (Nat.le_of_not_lt hi)]
    exact Nat.zero_le _

@[simp] theorem length_wots_signature (base : Addr) (msg : Node) :
    (wots_signature sha256 ctx base msg).length = SPX_WOTS_LEN := by
  rw [wots_signature, List.length_map, List.length_range']

theorem wots_gen_leafx1_spec {base pk_base : Addr} {msg : Node} {idx_leaf : Nat}
    {stale : List Node} (hstale : stale.length = SPX_WOTS_LEN) {j : Nat} {info : leaf_info_x1}
    (hinfo : info.Ready sha256 ctx base pk_base msg idx_leaf stale j) :
    (wots_gen_leafx1 sha256 ctx j info).1 = wots_leaf sha256 ctx base pk_base j ∧
      (wots_gen_leafx1 sha256 ctx j info).2.Ready sha256 ctx base pk_base msg idx_leaf stale
        (j + 1) := by
  have hkeypair : Addr.Agree leaf_bytes (set_keypair_addr info.leaf_addr j)
      (set_keypair_addr base j) := hinfo.leaf_addr.store_byte _
  have hpk : set_keypair_addr info.pk_addr j = set_keypair_addr pk_base j :=
    Addr.Agree.eq (hinfo.pk_addr.store_byte _)
  have hlength : info.wots_sig.length = 0 + SPX_WOTS_LEN := by
    rw [hinfo.wots_sig, Nat.zero_add]
    split
    · exact length_wots_signature ..
    · exact hstale
  obtain ⟨leaf_addr', hloop, hagree⟩ := wots_gen_leaf_loop_spec sha256 ctx (set_keypair_addr base j)
    (j = info.wots_sign_leaf)
    { info with
      leaf_addr := set_keypair_addr info.leaf_addr j
      pk_addr := set_keypair_addr info.pk_addr j } hkeypair
    (by rw [hinfo.wots_steps]; exact chain_lengths_getD_le msg) hlength
  rw [wots_gen_leafx1, hloop]
  refine ⟨by rw [wots_leaf, wots_pk, hpk], ?_, ?_, hinfo.wots_steps, hinfo.wots_sign_leaf, ?_⟩
  · exact (hagree.mono (List.subset_cons_self 13 _)).trans
      ((Addr.Agree.refl _ base).store_byte_left _ List.mem_cons_self _)
  · rw [hpk]
    exact (Addr.Agree.refl _ pk_base).store_byte_left _ List.mem_cons_self _
  · dsimp only
    rw [hinfo.wots_sign_leaf, hinfo.wots_steps]
    by_cases hsigns : j = idx_leaf
    · rw [if_pos hsigns, if_pos (by omega), hsigns, List.take_zero, List.nil_append]
      rfl
    · rw [if_neg hsigns, hinfo.wots_sig]
      by_cases hlt : idx_leaf < j
      · rw [if_pos hlt, if_pos (by omega)]
      · rw [if_neg hlt, if_neg (by omega)]

theorem gen_chain_spec (base : Addr) (i left k : Nat) (out : Node) {addr : Addr}
    (haddr : Addr.Agree [21] addr (chain_addr base i)) :
    ∃ addr', gen_chain sha256 ctx left k out addr =
        (winternitz.walk (chain_step sha256 ctx base i) left k out, addr') ∧
      Addr.Agree [21] addr' (chain_addr base i) := by
  induction left generalizing k out addr with
  | zero => exact ⟨addr, rfl, haddr⟩
  | succ left ih =>
    have hstep : thash sha256 ctx [out] (set_hash_addr addr k) =
        chain_step sha256 ctx base i k out := by
      unfold chain_step
      rw [Addr.Agree.eq (haddr.store_byte (UInt8.ofNat k)) (a := set_hash_addr addr k)]
      rfl
    rw [gen_chain, hstep]
    exact ih _ _ (haddr.store_byte_left _ List.mem_cons_self (UInt8.ofNat k))

theorem chain_addr_eq {base : Addr} (htype : base[9] = SPX_ADDR_TYPE_WOTS) (i : Nat) :
    chain_addr base i = set_chain_addr base i := by
  have hchain : (set_chain_addr base i)[9] = SPX_ADDR_TYPE_WOTS := by
    rw [set_chain_addr, Addr.getElem_store]
    exact htype
  exact Addr.store_byte_self (by decide) hchain

theorem chain_lengths_eq_map (msg : Node) :
    chain_lengths msg =
      (List.range' 0 SPX_WOTS_LEN).map fun i => (chain_lengths msg).getD i 0 := by
  apply List.ext_getElem
  · rw [length_chain_lengths, List.length_map, List.length_range']
  · intro i hi hi'
    rw [List.getElem_map, List.getElem_range', Nat.zero_add, Nat.one_mul,
      List.getD_eq_getElem _ _ hi]

theorem wots_pk_from_sig_loop_spec (base : Addr) (htype : base[9] = SPX_ADDR_TYPE_WOTS)
    {len : Nat → Nat} (hlen : ∀ i, len i ≤ SPX_WOTS_W - 1) (left i : Nat) (rest : List UInt8)
    {addr : Addr} (haddr : Addr.Agree [17, 21] addr base) :
    ∃ addr', wots_pk_from_sig_loop sha256 ctx ((List.range' i left).map len) i
        (bytes_of ((List.range' i left).map fun j => chain_node sha256 ctx base (len j) j) ++ rest)
        addr =
        ((List.range' i left).map (chain_node sha256 ctx base (SPX_WOTS_W - 1)), addr') ∧
      Addr.Agree [17, 21] addr' base := by
  induction left generalizing i addr with
  | zero => exact ⟨addr, rfl, haddr⟩
  | succ left ih =>
    have hstart : Addr.Agree [21] (set_chain_addr addr i) (chain_addr base i) := by
      rw [chain_addr_eq htype]
      exact haddr.store_byte _
    obtain ⟨chain_end, hchain, hagree⟩ := gen_chain_spec sha256 ctx base i
      (SPX_WOTS_W - 1 - len i) (len i) (chain_node sha256 ctx base (len i) i) hstart
    have hnext : Addr.Agree [17, 21] chain_end base := by
      rw [chain_addr_eq htype] at hagree
      exact (hagree.mono (List.subset_cons_self 17 _)).trans
        ((Addr.Agree.refl _ base).store_byte_left _ List.mem_cons_self _)
    obtain ⟨addr', hrest, hagree'⟩ := ih (i + 1) hnext
    refine ⟨addr', ?_, hagree'⟩
    rw [List.range'_succ, List.map_cons, List.map_cons, List.map_cons, wots_pk_from_sig_loop,
      bytes_of_cons, List.append_assoc, node_at_append, hchain, drop_append_node, hrest, chain_node,
      winternitz.walk_rest _ (hlen i)]
    rfl

/-- The signature of a message gives the ends of the chains that its key pair has. -/
theorem wots_pk_from_sig_spec (base : Addr) (htype : base[9] = SPX_ADDR_TYPE_WOTS) (msg : Node)
    (rest : List UInt8) {addr : Addr} (haddr : Addr.Agree [17, 21] addr base) :
    ∃ addr', wots_pk_from_sig sha256 ctx
        (bytes_of (wots_signature sha256 ctx base msg) ++ rest) msg addr =
        (wots_pk sha256 ctx base, addr') ∧
      Addr.Agree [17, 21] addr' base := by
  have hloop := wots_pk_from_sig_loop_spec sha256 ctx base htype (chain_lengths_getD_le msg)
    SPX_WOTS_LEN 0 rest haddr
  rw [← chain_lengths_eq_map] at hloop
  exact hloop

end

end keychain.sphincs
