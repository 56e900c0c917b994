import Keychain.Sphincs.Sign

namespace keychain.sphincs

section

variable (sha256 : Sha256) (ctx : spx_ctx)

/-- The address of a leaf's public key. -/
theorem wots_pk_addr_eq {wots_pk_addr wots_addr : Addr} {layer tree idx_leaf : Nat}
    (hpk : Addr.Agree (13 :: subtree_bytes) wots_pk_addr
      (set_type Addr.zero SPX_ADDR_TYPE_WOTSPK))
    (hwots : Addr.Agree [17, 21] wots_addr (set_keypair_addr (wots_base layer tree) idx_leaf)) :
    copy_keypair_addr wots_pk_addr wots_addr =
      set_keypair_addr (set_type (subtree_addr layer tree) SPX_ADDR_TYPE_WOTSPK) idx_leaf := by
  apply Vector.ext
  intro i hi
  rw [getElem_copy_keypair_addr, set_keypair_addr, Addr.getElem_store_byte]
  by_cases hkeypair : i = 13
  · have hidx := hwots i hi (by subst hkeypair; decide)
    rw [set_keypair_addr, Addr.getElem_store_byte, if_pos hkeypair] at hidx
    rw [if_pos (Or.inr hkeypair), if_pos hkeypair, hidx]
  · rw [if_neg hkeypair]
    by_cases hlt : i < 9
    · have hsubtree := hwots i hi (by simp only [List.mem_cons, List.not_mem_nil, or_false]; omega)
      rw [set_keypair_addr, Addr.getElem_store_byte, if_neg hkeypair, wots_base, set_type,
        Addr.getElem_store_byte, if_neg (by omega)] at hsubtree
      rw [if_pos (Or.inl hlt), hsubtree, set_type, Addr.getElem_store_byte, if_neg (by omega)]
    · have hbehind := (set_type_subtree_agree layer tree SPX_ADDR_TYPE_WOTSPK) i hi
        (mt mem_subtree_bytes.mp hlt)
      rw [if_neg (by omega), hbehind]
      refine hpk i hi fun hmem => ?_
      rcases List.mem_cons.mp hmem with heq | hsubtree
      · exact hkeypair heq
      · exact hlt (mem_subtree_bytes.mp hsubtree)

/-- What one layer leaves in the addresses is no more than the next one sets. -/
theorem subtree_wots_agree {addr : Addr} {layer tree idx_leaf : Nat}
    (h : Addr.Agree [17, 21] addr (set_keypair_addr (wots_base layer tree) idx_leaf)) :
    Addr.Agree (subtree_bytes ++ [13, 17, 21]) addr (set_type Addr.zero SPX_ADDR_TYPE_WOTS) := by
  have hkeypair := (Addr.Agree.refl [13, 17, 21] (wots_base layer tree)).store_byte_left 13
    (by decide) (UInt8.ofNat idx_leaf)
  have hbase := (h.mono (List.subset_cons_self 13 _)).trans hkeypair
  exact (hbase.mono (List.subset_append_right _ _)).trans
    ((set_type_subtree_agree layer tree _).mono (List.subset_append_left _ _))

theorem subtree_tree_agree {addr : Addr} {layer tree : Nat} {type : UInt8}
    (h : Addr.Agree tree_bytes addr (set_type (subtree_addr layer tree) type)) :
    Addr.Agree (subtree_bytes ++ tree_bytes) addr (set_type Addr.zero type) :=
  (h.mono (List.subset_append_right _ _)).trans
    ((set_type_subtree_agree layer tree _).mono (List.subset_append_left _ _))

theorem subtree_pk_agree (layer tree idx_leaf : Nat) {type : UInt8} :
    Addr.Agree (13 :: subtree_bytes)
      (set_keypair_addr (set_type (subtree_addr layer tree) type) idx_leaf)
      (set_type Addr.zero type) :=
  ((set_type_subtree_agree layer tree type).mono (List.subset_cons_self 13 _)).store_byte_left _
    List.mem_cons_self _

/-- The addresses of a verification between two layers. -/
structure VerifyAddrs (wots_addr tree_addr wots_pk_addr : Addr) : Prop where
  wots_addr : Addr.Agree (subtree_bytes ++ [13, 17, 21]) wots_addr
    (set_type Addr.zero SPX_ADDR_TYPE_WOTS)
  tree_addr : Addr.Agree (subtree_bytes ++ tree_bytes) tree_addr
    (set_type Addr.zero SPX_ADDR_TYPE_HASHTREE)
  wots_pk_addr : Addr.Agree (13 :: subtree_bytes) wots_pk_addr
    (set_type Addr.zero SPX_ADDR_TYPE_WOTSPK)

/-- A layer's signature of the root below leads to the root of its tree. -/
theorem crypto_sign_verify_layer {left i tree idx_leaf : Nat}
    (hidx : idx_leaf < 2 ^ SPX_TREE_HEIGHT) (root : Node) (rest : List UInt8)
    {wots_addr tree_addr wots_pk_addr : Addr}
    (haddrs : VerifyAddrs wots_addr tree_addr wots_pk_addr) :
    ∃ wots_addr' tree_addr' wots_pk_addr', crypto_sign_verify_loop sha256 ctx (left + 1) i tree
        idx_leaf (bytes_of (subtree_signature sha256 ctx i tree idx_leaf root) ++ rest) root wots_addr
        tree_addr wots_pk_addr =
        crypto_sign_verify_loop sha256 ctx left (i + 1) (tree >>> SPX_TREE_HEIGHT)
          (tree &&& (1 <<< SPX_TREE_HEIGHT) - 1) rest (subtree_root sha256 ctx i tree) wots_addr'
          tree_addr' wots_pk_addr' ∧
      VerifyAddrs wots_addr' tree_addr' wots_pk_addr' := by
  have htree_addr := set_subtree_agree haddrs.tree_addr i tree
  have hfrom : Addr.Agree (List.range' 9 23) (set_tree_addr (set_layer_addr tree_addr i) tree)
      (subtree_addr i tree) :=
    (htree_addr.mono (by decide)).trans ((Addr.Agree.refl _ _).store_byte_left _ (by decide) _)
  have hkeypair : Addr.Agree [17, 21]
      (set_keypair_addr (copy_subtree_addr wots_addr
        (set_tree_addr (set_layer_addr tree_addr i) tree)) idx_leaf)
      (set_keypair_addr (wots_base i tree) idx_leaf) :=
    (copy_subtree_addr_agree haddrs.wots_addr hfrom).store_byte _
  have htype : (set_keypair_addr (wots_base i tree) idx_leaf)[9] = SPX_ADDR_TYPE_WOTS := by
    rw [set_keypair_addr, Addr.getElem_store_byte, wots_base, set_type, Addr.getElem_store_byte]
    rfl
  obtain ⟨wots_addr', hwots_pk, hwots'⟩ := wots_pk_from_sig_spec sha256 ctx _ htype root
    (bytes_of (subtree_path sha256 ctx i tree idx_leaf) ++ rest) hkeypair
  obtain ⟨tree_addr', hroot, htree'⟩ := compute_root_path sha256 ctx
    (subtree_leaf sha256 ctx i tree) hidx (by decide) (Nat.dvd_zero _) rest htree_addr
  rw [Nat.add_zero, Nat.zero_div] at hroot
  have hwots_bytes (rest : List UInt8) :
      (bytes_of (wots_signature sha256 ctx (set_keypair_addr (wots_base i tree) idx_leaf) root) ++
        rest).drop SPX_WOTS_BYTES = rest := drop_bytes_of (length_wots_signature ..) rest
  have hpath_bytes (rest : List UInt8) :
      (bytes_of (subtree_path sha256 ctx i tree idx_leaf) ++ rest).drop
        (SPX_TREE_HEIGHT * SPX_N) = rest := by
    rw [Nat.mul_comm]
    exact drop_bytes_of (length_subtree_path ..) rest
  refine ⟨wots_addr', tree_addr',
    set_keypair_addr (set_type (subtree_addr i tree) SPX_ADDR_TYPE_WOTSPK) idx_leaf, ?_,
    subtree_wots_agree hwots', subtree_tree_agree htree', subtree_pk_agree i tree idx_leaf⟩
  have hleaf : thash sha256 ctx
      (wots_pk sha256 ctx (set_keypair_addr (wots_base i tree) idx_leaf))
      (set_keypair_addr (set_type (subtree_addr i tree) SPX_ADDR_TYPE_WOTSPK) idx_leaf) =
      subtree_leaf sha256 ctx i tree idx_leaf := rfl
  rw [subtree_signature, bytes_of_append, List.append_assoc, crypto_sign_verify_loop,
    wots_pk_addr_eq haddrs.wots_pk_addr hkeypair, hwots_pk, hwots_bytes,
    hleaf, hpath_bytes, subtree_path, subtree_combine, hroot]
  rfl

theorem crypto_sign_verify_loop_spec {left i tree idx_leaf : Nat}
    (hidx : idx_leaf < 2 ^ SPX_TREE_HEIGHT) (root : Node) (rest : List UInt8)
    {wots_addr tree_addr wots_pk_addr : Addr}
    (haddrs : VerifyAddrs wots_addr tree_addr wots_pk_addr) :
    crypto_sign_verify_loop sha256 ctx left i tree idx_leaf
        (bytes_of (hypertree_signature sha256 ctx left i tree idx_leaf root) ++ rest) root wots_addr
        tree_addr wots_pk_addr =
      hypertree_root sha256 ctx left i tree root := by
  induction left generalizing i tree idx_leaf root wots_addr tree_addr wots_pk_addr with
  | zero => rfl
  | succ left ih =>
    rw [hypertree_signature, bytes_of_append, List.append_assoc]
    obtain ⟨_, _, _, hlayer, haddrs'⟩ := crypto_sign_verify_layer sha256 ctx hidx root _ haddrs
    rw [hlayer, ih (next_leaf_lt tree) _ haddrs', hypertree_root]

section

variable {ctx other : spx_ctx} (hseed : other.pub_seed = ctx.pub_seed)
include hseed

theorem gen_chain_congr : gen_chain sha256 other = gen_chain sha256 ctx := by
  funext left
  induction left with
  | zero => rfl
  | succ left ih =>
    funext k out addr
    rw [gen_chain, gen_chain, thash_congr sha256 hseed, ih]

theorem wots_pk_from_sig_congr : wots_pk_from_sig sha256 other = wots_pk_from_sig sha256 ctx := by
  have hloop : wots_pk_from_sig_loop sha256 other = wots_pk_from_sig_loop sha256 ctx := by
    funext lengths
    induction lengths with
    | nil => rfl
    | cons start lengths ih =>
      funext i sig addr
      rw [wots_pk_from_sig_loop, wots_pk_from_sig_loop, gen_chain_congr sha256 hseed, ih]
  funext sig msg addr
  rw [wots_pk_from_sig, wots_pk_from_sig, hloop]

theorem compute_root_congr : compute_root sha256 other = compute_root sha256 ctx := by
  have hloop (tree_height : Nat) :
      compute_root_loop sha256 other tree_height = compute_root_loop sha256 ctx tree_height := by
    funext left
    induction left with
    | zero =>
      funext i leaf_idx idx_offset buffer auth_path addr
      rw [compute_root_loop, compute_root_loop, thash_congr sha256 hseed]
    | succ left ih =>
      funext i leaf_idx idx_offset buffer auth_path addr
      rw [compute_root_loop, compute_root_loop, thash_congr sha256 hseed, ih]
  funext leaf leaf_idx idx_offset auth_path tree_height addr
  rw [compute_root, compute_root, hloop]

theorem fors_pk_from_sig_congr : fors_pk_from_sig sha256 other = fors_pk_from_sig sha256 ctx := by
  have hloop : fors_pk_from_sig_loop sha256 other = fors_pk_from_sig_loop sha256 ctx := by
    funext indices
    induction indices with
    | nil => rfl
    | cons index indices ih =>
      funext i sig addr
      rw [fors_pk_from_sig_loop, fors_pk_from_sig_loop, thash_congr sha256 hseed,
        compute_root_congr sha256 hseed, ih]
  funext sig m fors_addr
  rw [fors_pk_from_sig, fors_pk_from_sig, hloop, thash_congr sha256 hseed]

theorem crypto_sign_verify_loop_congr :
    crypto_sign_verify_loop sha256 other = crypto_sign_verify_loop sha256 ctx := by
  funext left
  induction left with
  | zero => rfl
  | succ left ih =>
    funext i tree idx_leaf sig root wots_addr tree_addr wots_pk_addr
    rw [crypto_sign_verify_loop, crypto_sign_verify_loop, wots_pk_from_sig_congr sha256 hseed,
      thash_congr sha256 hseed, compute_root_congr sha256 hseed, ih]

end

/-- The secret seed that nothing sets does not get into the result. -/
theorem crypto_sign_verify_seed (x y : Node) (sig : List UInt8) (siglen : Nat) (m pk : List UInt8) :
    crypto_sign_verify sha256 x sig siglen m pk = crypto_sign_verify sha256 y sig siglen m pk := by
  have hseed : spx_ctx.pub_seed { pub_seed := node_at pk, sk_seed := x } =
      spx_ctx.pub_seed { pub_seed := node_at pk, sk_seed := y } := rfl
  unfold crypto_sign_verify
  dsimp only
  rw [fors_pk_from_sig_congr sha256 hseed, crypto_sign_verify_loop_congr sha256 hseed]

/-- A signature under the key pair's own root is accepted, with anything behind it. -/
theorem crypto_sign_verify_signature (sk_seed pub_seed R : Node) (m : List UInt8) (stale : Node)
    (rest : List UInt8) {pk : List UInt8}
    (hpk : pk = bytes_of [pub_seed, subtree_root sha256 { pub_seed, sk_seed } (SPX_D - 1) 0]) :
    crypto_sign_verify sha256 stale (signature sha256 { pub_seed, sk_seed } R pk m ++ rest) SPX_BYTES
      m pk = 0 := by
  have hpub_seed : node_at pk = pub_seed := by
    rw [hpk]
    exact node_at_append ..
  have hroot : node_at (pk.drop SPX_N) =
      subtree_root sha256 { pub_seed, sk_seed } (SPX_D - 1) 0 := by
    rw [hpk, bytes_of_cons, drop_append_node, bytes_of_cons, node_at_append]
  have hfors (digest : Digest) (rest : List UInt8) :
      (bytes_of (fors_parts sha256 { pub_seed, sk_seed } (fors_base (digest_addr digest))
        (message_to_indices digest.mhash) 0) ++ rest).drop SPX_FORS_BYTES = rest :=
    List.drop_left' (length_fors_bytes ..)
  have haddrs (digest : Digest) : VerifyAddrs (digest_addr digest)
      (set_type Addr.zero SPX_ADDR_TYPE_HASHTREE) (set_type Addr.zero SPX_ADDR_TYPE_WOTSPK) := by
    have htree : Addr.Agree (subtree_bytes ++ [13, 17, 21])
        (set_tree_addr (set_type Addr.zero SPX_ADDR_TYPE_WOTS) digest.tree)
        (set_type Addr.zero SPX_ADDR_TYPE_WOTS) :=
      Addr.Agree.changed _ (by rw [length_ull_to_bytes]; decide)
    exact ⟨htree.store_byte_left _ (by decide) _, Addr.Agree.refl _ _, Addr.Agree.refl _ _⟩
  generalize hdigest : hash_message sha256 R pk m = digest
  have hleaf : digest.leaf_idx < 2 ^ SPX_TREE_HEIGHT := hdigest ▸ hash_message_leaf_lt ..
  have htree : digest.tree < 2 ^ SPX_TREE_BITS := hdigest ▸ hash_message_tree_lt ..
  rw [crypto_sign_verify_seed sha256 stale sk_seed, crypto_sign_verify, if_neg (not_not_intro rfl), hpub_seed, hroot, signature, hdigest,
    List.append_assoc, List.append_assoc, node_at_append, hdigest]
  dsimp only
  rw [← List.drop_drop, drop_append_node, hfors, ← digest_addr,
    fors_pk_from_sig_spec,
    crypto_sign_verify_loop_spec sha256 _ hleaf _ _ (haddrs digest),
    hypertree_root_top sha256 _ htree, if_neg (not_not_intro rfl)]

/-- What the memory for a signature held, and a seed that nothing sets, change neither the
    signature nor the answer to one. -/
theorem crypto_sign_ignores_stale (sk : Vector UInt8 (4 * SPX_N)) (optrand : Node)
    (m stale_sig other_sig sig pk : List UInt8) (siglen : Nat) (x y : Node) :
    crypto_sign_signature sha256 stale_sig m sk.toList optrand =
        crypto_sign_signature sha256 other_sig m sk.toList optrand ∧
      crypto_sign_verify sha256 x sig siglen m pk = crypto_sign_verify sha256 y sig siglen m pk := by
  have hsk := bytes_of_nodes_at 4 sk.toList Vector.length_toList
  refine ⟨?_, crypto_sign_verify_seed ..⟩
  rw [← hsk]
  exact (crypto_sign_signature_eq ..).trans (crypto_sign_signature_eq ..).symm

/-- Who holds a key pair can sign every message, and everyone with the public key accepts
    the signature. -/
theorem crypto_sign_signature_verified (auth_path stale_sk stale_sig m : List UInt8)
    (seed : Vector UInt8 CRYPTO_SEEDBYTES) (optrand stale : Node) :
    ∃ pk sk sig, crypto_sign_seed_keypair sha256 auth_path stale_sk seed = some (pk, sk) ∧
      crypto_sign_signature sha256 stale_sig m sk optrand = some (sig, SPX_BYTES) ∧
      sig.length = SPX_BYTES ∧ crypto_sign_verify sha256 stale sig SPX_BYTES m pk = 0 := by
  obtain ⟨sk_seed, sk_prf, pub_seed, root, hroot, hkeys⟩ :=
    crypto_sign_seed_keypair_spec sha256 auth_path stale_sk seed
  refine ⟨_, _, _, hkeys, crypto_sign_signature_eq .., length_signature .., ?_⟩
  have hverify := crypto_sign_verify_signature sha256 sk_seed pub_seed
    (gen_message_random sha256 sk_prf optrand m) m stale [] (congrArg (bytes_of [pub_seed, ·]) hroot)
  rwa [List.append_nil] at hverify

/-- A signed message opens to the message. -/
theorem crypto_sign_open_crypto_sign (auth_path stale_sk stale_sm out m : List UInt8)
    (seed : Vector UInt8 CRYPTO_SEEDBYTES) (optrand stale : Node) :
    ∃ pk sk sm, crypto_sign_seed_keypair sha256 auth_path stale_sk seed = some (pk, sk) ∧
      crypto_sign sha256 stale_sm m sk optrand = some (sm, SPX_BYTES + m.length) ∧
      crypto_sign_open sha256 stale out sm (SPX_BYTES + m.length) pk =
        (m ++ out.drop m.length, m.length, 0) := by
  obtain ⟨sk_seed, sk_prf, pub_seed, root, hroot, hkeys⟩ :=
    crypto_sign_seed_keypair_spec sha256 auth_path stale_sk seed
  have hsign : crypto_sign sha256 stale_sm m (bytes_of [sk_seed, sk_prf, pub_seed, root]) optrand =
      some (signature sha256 { pub_seed, sk_seed } (gen_message_random sha256 sk_prf optrand m)
        (bytes_of [pub_seed, root]) m ++ m ++ stale_sm.drop (SPX_BYTES + m.length),
        SPX_BYTES + m.length) := by
    rw [crypto_sign, crypto_sign_signature_eq]
    rfl
  refine ⟨_, _, _, hkeys, hsign, ?_⟩
  have hverify := crypto_sign_verify_signature sha256 sk_seed pub_seed
    (gen_message_random sha256 sk_prf optrand m) m stale
    (m ++ stale_sm.drop (SPX_BYTES + m.length)) (congrArg (bytes_of [pub_seed, ·]) hroot)
  have hmessage : ((signature sha256 { pub_seed, sk_seed } (gen_message_random sha256 sk_prf optrand m)
      (bytes_of [pub_seed, root]) m ++ (m ++ stale_sm.drop (SPX_BYTES + m.length))).drop
        SPX_BYTES).take m.length = m := by
    rw [List.drop_left' (length_signature ..), List.take_left]
  rw [crypto_sign_open, if_neg (by omega), Nat.add_sub_cancel_left, List.append_assoc]
  dsimp only
  rw [hmessage, hverify, if_neg (not_not_intro rfl)]

end

end keychain.sphincs
