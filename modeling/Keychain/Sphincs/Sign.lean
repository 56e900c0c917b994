import Keychain.Sphincs.Fors
import Keychain.Sphincs.Subtree

namespace keychain.sphincs

def SPX_FORS_BYTES : Nat := (SPX_FORS_HEIGHT + 1) * SPX_FORS_TREES * SPX_N
def SPX_BYTES : Nat :=
  SPX_N + SPX_FORS_BYTES + SPX_D * SPX_WOTS_BYTES + SPX_D * SPX_TREE_HEIGHT * SPX_N
def CRYPTO_SEEDBYTES : Nat := 3 * SPX_N

section

variable (sha256 : Sha256)

/-- The key pair in `pk` and `sk`. The memory at `sk` is there before, and so is
    that of the path that `merkle_gen_root` has no use for. -/
def crypto_sign_seed_keypair (auth_path sk : List UInt8) (seed : Vector UInt8 CRYPTO_SEEDBYTES) :
    Option (List UInt8 × List UInt8) := do
  let sk := seed.toList ++ sk.drop CRYPTO_SEEDBYTES
  let pk := (sk.drop (2 * SPX_N)).take SPX_N
  let ctx := { pub_seed := node_at pk, sk_seed := node_at sk }
  let root ← merkle_gen_root sha256 ctx auth_path (node_at (sk.drop (3 * SPX_N)))
  let sk := sk.take (3 * SPX_N) ++ root.toList
  some (pk ++ (sk.drop (3 * SPX_N)).take SPX_N, sk)

/-- The loop of `crypto_sign_signature` from layer `i` on. -/
def crypto_sign_loop (ctx : spx_ctx) : (left i tree idx_leaf : Nat) → (sig : List UInt8) → Node →
    (wots_addr tree_addr : Addr) → Option (List UInt8)
  | 0, _, _, _, _, _, _, _ => some []
  | left + 1, i, tree, idx_leaf, sig, root, wots_addr, tree_addr => do
    let tree_addr := set_tree_addr (set_layer_addr tree_addr i) tree
    let wots_addr := set_keypair_addr (copy_subtree_addr wots_addr tree_addr) idx_leaf
    let (out, root, tree_addr) ← merkle_sign sha256 ctx sig root wots_addr tree_addr idx_leaf
    let rest ← crypto_sign_loop ctx left (i + 1) (tree >>> SPX_TREE_HEIGHT)
      (tree &&& (1 <<< SPX_TREE_HEIGHT) - 1) (sig.drop (SPX_WOTS_BYTES + SPX_TREE_HEIGHT * SPX_N))
      root wots_addr tree_addr
    some (out ++ rest)

/-- The signature that takes the place of what `sig` held, and its length. -/
def crypto_sign_signature (sig m sk : List UInt8) (optrand : Node) :
    Option (List UInt8 × Nat) := do
  let sk_prf := node_at (sk.drop SPX_N)
  let pk := sk.drop (2 * SPX_N)
  let ctx := { pub_seed := node_at pk, sk_seed := node_at sk }
  let wots_addr := set_type Addr.zero SPX_ADDR_TYPE_WOTS
  let tree_addr := set_type Addr.zero SPX_ADDR_TYPE_HASHTREE
  let R := gen_message_random sha256 sk_prf optrand m
  let digest := hash_message sha256 R pk m
  let wots_addr := set_keypair_addr (set_tree_addr wots_addr digest.tree) digest.leaf_idx
  let (fors, root) ← fors_sign sha256 ctx (sig.drop SPX_N) digest.mhash wots_addr
  let layers ← crypto_sign_loop sha256 ctx SPX_D 0 digest.tree digest.leaf_idx
    (sig.drop (SPX_N + SPX_FORS_BYTES)) root wots_addr tree_addr
  some (R.toList ++ fors ++ layers, SPX_BYTES)

/-- The loop of `crypto_sign_verify` from layer `i` on. -/
def crypto_sign_verify_loop (ctx : spx_ctx) : (left i tree idx_leaf : Nat) →
    (sig : List UInt8) → Node → (wots_addr tree_addr wots_pk_addr : Addr) → Node
  | 0, _, _, _, _, root, _, _, _ => root
  | left + 1, i, tree, idx_leaf, sig, root, wots_addr, tree_addr, wots_pk_addr =>
    let tree_addr := set_tree_addr (set_layer_addr tree_addr i) tree
    let wots_addr := set_keypair_addr (copy_subtree_addr wots_addr tree_addr) idx_leaf
    let wots_pk_addr := copy_keypair_addr wots_pk_addr wots_addr
    let wots_pk := wots_pk_from_sig sha256 ctx sig root wots_addr
    let sig := sig.drop SPX_WOTS_BYTES
    let leaf := thash sha256 ctx wots_pk.1 wots_pk_addr
    let root := compute_root sha256 ctx leaf idx_leaf 0 sig SPX_TREE_HEIGHT tree_addr
    crypto_sign_verify_loop ctx left (i + 1) (tree >>> SPX_TREE_HEIGHT)
      (tree &&& (1 <<< SPX_TREE_HEIGHT) - 1) (sig.drop (SPX_TREE_HEIGHT * SPX_N)) root.1 wots_pk.2
      root.2 wots_pk_addr

/-- The result of a verification. Nothing sets the secret seed of its context. -/
def crypto_sign_verify (sk_seed : Node) (sig : List UInt8) (siglen : Nat) (m pk : List UInt8) : Int :=
  if siglen ≠ SPX_BYTES then
    -1
  else
    let ctx := { pub_seed := node_at pk, sk_seed }
    let wots_addr := set_type Addr.zero SPX_ADDR_TYPE_WOTS
    let tree_addr := set_type Addr.zero SPX_ADDR_TYPE_HASHTREE
    let wots_pk_addr := set_type Addr.zero SPX_ADDR_TYPE_WOTSPK
    let digest := hash_message sha256 (node_at sig) pk m
    let wots_addr := set_keypair_addr (set_tree_addr wots_addr digest.tree) digest.leaf_idx
    let root := fors_pk_from_sig sha256 ctx (sig.drop SPX_N) digest.mhash wots_addr
    let root := crypto_sign_verify_loop sha256 ctx SPX_D 0 digest.tree digest.leaf_idx
      (sig.drop (SPX_N + SPX_FORS_BYTES)) root wots_addr tree_addr wots_pk_addr
    if root ≠ node_at (pk.drop SPX_N) then -1 else 0

/-- The signed message, with what is behind it in its memory, and its length. -/
def crypto_sign (sm m sk : List UInt8) (optrand : Node) : Option (List UInt8 × Nat) := do
  let (sig, siglen) ← crypto_sign_signature sha256 sm m sk optrand
  some (sig ++ m ++ sm.drop (SPX_BYTES + m.length), siglen + m.length)

/-- What `crypto_sign_open` leaves at `m`, in `mlen` and returns. -/
def crypto_sign_open (sk_seed : Node) (m sm : List UInt8) (smlen : Nat) (pk : List UInt8) :
    List UInt8 × Nat × Int :=
  let cleared := List.replicate smlen 0 ++ m.drop smlen
  if smlen < SPX_BYTES then
    (cleared, 0, -1)
  else
    let mlen := smlen - SPX_BYTES
    let message := (sm.drop SPX_BYTES).take mlen
    if crypto_sign_verify sha256 sk_seed sm SPX_BYTES message pk ≠ 0 then
      (cleared, 0, -1)
    else
      (message ++ m.drop mlen, mlen, 0)

end

section

variable (sha256 : Sha256) (ctx : spx_ctx)

/-- The signatures of the layers from `i` on. Each layer signs the root below it. -/
def hypertree_signature : (left i tree idx_leaf : Nat) → Node → List Node
  | 0, _, _, _, _ => []
  | left + 1, i, tree, idx_leaf, root =>
    subtree_signature sha256 ctx i tree idx_leaf root ++
      hypertree_signature left (i + 1) (tree >>> SPX_TREE_HEIGHT)
        (tree &&& (1 <<< SPX_TREE_HEIGHT) - 1) (subtree_root sha256 ctx i tree)

/-- The root after those layers. -/
def hypertree_root : (left i tree : Nat) → Node → Node
  | 0, _, _, root => root
  | left + 1, i, tree, _ =>
    hypertree_root left (i + 1) (tree >>> SPX_TREE_HEIGHT) (subtree_root sha256 ctx i tree)

theorem hypertree_root_succ (left i tree : Nat) (root : Node) :
    hypertree_root sha256 ctx (left + 1) i tree root =
      subtree_root sha256 ctx (i + left) (tree >>> (SPX_TREE_HEIGHT * left)) := by
  induction left generalizing i tree root with
  | zero => rfl
  | succ left ih =>
    rw [hypertree_root, ih, ← Nat.shiftRight_add, Nat.add_right_comm, Nat.add_assoc,
      Nat.mul_succ, Nat.add_comm SPX_TREE_HEIGHT]

/-- Above a tree that the digest can name there is one top tree. -/
theorem hypertree_root_top {tree : Nat} (htree : tree < 2 ^ SPX_TREE_BITS) (root : Node) :
    hypertree_root sha256 ctx SPX_D 0 tree root = subtree_root sha256 ctx (SPX_D - 1) 0 := by
  have htop : tree >>> (SPX_TREE_HEIGHT * 21) = 0 := by
    rw [Nat.shiftRight_eq_div_pow]
    exact Nat.div_eq_of_lt htree
  exact (hypertree_root_succ sha256 ctx 21 0 tree root).trans (by rw [htop]; rfl)

theorem length_hypertree_signature (left i tree idx_leaf : Nat) (root : Node) :
    (hypertree_signature sha256 ctx left i tree idx_leaf root).length =
      left * (SPX_WOTS_LEN + SPX_TREE_HEIGHT) := by
  induction left generalizing i tree idx_leaf root with
  | zero => rw [hypertree_signature, List.length_nil, Nat.zero_mul]
  | succ left ih =>
    rw [hypertree_signature, List.length_append, ih, subtree_signature, List.length_append,
      length_wots_signature, length_subtree_path, Nat.succ_mul, Nat.add_comm]

theorem next_leaf_lt (tree : Nat) :
    tree &&& (1 <<< SPX_TREE_HEIGHT) - 1 < 2 ^ SPX_TREE_HEIGHT :=
  Nat.lt_of_le_of_lt Nat.and_le_right (by decide)

theorem subtree_agree_zero {free : List Nat} {addr : Addr} {layer tree : Nat}
    (h : Addr.Agree free addr (subtree_addr layer tree)) :
    Addr.Agree (subtree_bytes ++ free) addr Addr.zero :=
  (h.mono (List.subset_append_right _ _)).trans
    ((subtree_addr_agree layer tree).mono (List.subset_append_left _ _))

theorem crypto_sign_loop_spec {left i tree idx_leaf : Nat}
    (hidx : idx_leaf < 2 ^ SPX_TREE_HEIGHT) (sig : List UInt8) (root : Node) (wots_addr : Addr)
    {tree_addr : Addr}
    (htree : Addr.Agree (subtree_bytes ++ 9 :: tree_bytes) tree_addr Addr.zero) :
    crypto_sign_loop sha256 ctx left i tree idx_leaf sig root wots_addr tree_addr =
      some (bytes_of (hypertree_signature sha256 ctx left i tree idx_leaf root)) := by
  induction left generalizing i tree idx_leaf sig root wots_addr tree_addr with
  | zero => rfl
  | succ left ih =>
    have htree_addr : Addr.Agree (9 :: tree_bytes)
        (set_tree_addr (set_layer_addr tree_addr i) tree) (subtree_addr i tree) :=
      htree.set_subtree i tree
    have hwots_addr : Addr.Agree (List.range' 9 23)
        (set_keypair_addr (copy_subtree_addr wots_addr
          (set_tree_addr (set_layer_addr tree_addr i) tree)) idx_leaf) (subtree_addr i tree) :=
      ((copy_subtree_addr_from wots_addr _).store_byte_left _ (by decide) _).trans
        (htree_addr.mono (by decide))
    obtain ⟨out, tree_addr', hsign, hout, hagree⟩ := merkle_sign_spec sha256 ctx sig root hwots_addr
      htree_addr idx_leaf
    rw [crypto_sign_loop, hsign]
    dsimp only [Option.bind_eq_bind, Option.bind_some]
    rw [ih (next_leaf_lt tree) _ _ _ (subtree_agree_zero hagree), hout hidx, hypertree_signature,
      bytes_of_append]
    rfl

theorem drop_two_nodes (bytes : List UInt8) :
    bytes.drop (2 * SPX_N) = (bytes.drop SPX_N).drop SPX_N := by
  rw [List.drop_drop]
  rfl

theorem drop_three_nodes (bytes : List UInt8) :
    bytes.drop (3 * SPX_N) = ((bytes.drop SPX_N).drop SPX_N).drop SPX_N := by
  rw [List.drop_drop, List.drop_drop]
  rfl

/-- The secret key: its three seeds and the root. -/
theorem crypto_sign_seed_keypair_spec (auth_path sk : List UInt8)
    (seed : Vector UInt8 CRYPTO_SEEDBYTES) :
    ∃ sk_seed sk_prf pub_seed root,
      root = subtree_root sha256 { pub_seed, sk_seed } (SPX_D - 1) 0 ∧
      crypto_sign_seed_keypair sha256 auth_path sk seed =
        some (bytes_of [pub_seed, root], bytes_of [sk_seed, sk_prf, pub_seed, root]) := by
  obtain ⟨sk_seed, sk_prf, pub_seed, hseed⟩ :
      ∃ sk_seed sk_prf pub_seed, seed.toList = bytes_of [sk_seed, sk_prf, pub_seed] :=
    ⟨_, _, _, (bytes_of_nodes_at 3 seed.toList Vector.length_toList).symm⟩
  refine ⟨sk_seed, sk_prf, pub_seed, _, rfl, ?_⟩
  have hseeds (rest : List UInt8) : (bytes_of [sk_seed, sk_prf, pub_seed] ++ rest).take (3 * SPX_N) =
      bytes_of [sk_seed, sk_prf, pub_seed] := List.take_left' (length_bytes_of _)
  have hkey (rest : List UInt8) : bytes_of [sk_seed, sk_prf, pub_seed] ++ rest =
      sk_seed.toList ++ (sk_prf.toList ++ (pub_seed.toList ++ rest)) := by
    simp only [bytes_of, List.flatMap_cons, List.flatMap_nil, List.append_assoc, List.nil_append]
  rw [crypto_sign_seed_keypair, hseed, drop_two_nodes]
  simp only [hkey, drop_three_nodes, drop_append_node, take_append_node, node_at_append,
    merkle_gen_root_spec, Option.bind_eq_bind, Option.bind_some]
  rw [← hkey, hseeds, hkey, node_at_toList, drop_append_node, drop_append_node, drop_append_node,
    take_toList]
  simp only [bytes_of, List.flatMap_cons, List.flatMap_nil, List.append_nil]

/-- The address of the leaf that a digest names. -/
def digest_addr (digest : Digest) : Addr :=
  set_keypair_addr (set_tree_addr (set_type Addr.zero SPX_ADDR_TYPE_WOTS) digest.tree)
    digest.leaf_idx

/-- What a signature consists of. -/
def signature (R : Node) (pk m : List UInt8) : List UInt8 :=
  let digest := hash_message sha256 R pk m
  let base := fors_base (digest_addr digest)
  R.toList ++ (bytes_of (fors_parts sha256 ctx base (message_to_indices digest.mhash) 0) ++
    bytes_of (hypertree_signature sha256 ctx SPX_D 0 digest.tree digest.leaf_idx
      (fors_pk sha256 ctx base)))

theorem length_fors_bytes (base : Addr) (m : List UInt8) :
    (bytes_of (fors_parts sha256 ctx base (message_to_indices m) 0)).length = SPX_FORS_BYTES := by
  rw [length_bytes_of, length_fors_parts, length_message_to_indices]
  rfl

theorem length_signature (R : Node) (pk m : List UInt8) :
    (signature sha256 ctx R pk m).length = SPX_BYTES := by
  rw [signature, List.length_append, List.length_append, Vector.length_toList, length_fors_bytes,
    length_bytes_of, length_hypertree_signature]
  rfl

theorem crypto_sign_signature_eq (sig m : List UInt8) (sk_seed sk_prf pub_seed root optrand : Node) :
    crypto_sign_signature sha256 sig m (bytes_of [sk_seed, sk_prf, pub_seed, root]) optrand =
      some (signature sha256 { pub_seed, sk_seed } (gen_message_random sha256 sk_prf optrand m)
        (bytes_of [pub_seed, root]) m, SPX_BYTES) := by
  have hpk : (bytes_of [sk_seed, sk_prf, pub_seed, root]).drop (2 * SPX_N) =
      bytes_of [pub_seed, root] := by
    rw [drop_two_nodes, bytes_of_cons, drop_append_node, bytes_of_cons, drop_append_node]
  have hsk_prf : node_at ((bytes_of [sk_seed, sk_prf, pub_seed, root]).drop SPX_N) = sk_prf := by
    rw [bytes_of_cons, drop_append_node, bytes_of_cons, node_at_append]
  have hpub_seed : node_at (bytes_of [pub_seed, root]) = pub_seed := node_at_append ..
  have hsk_seed : node_at (bytes_of [sk_seed, sk_prf, pub_seed, root]) = sk_seed :=
    node_at_append ..
  have htree_addr : Addr.Agree (subtree_bytes ++ 9 :: tree_bytes)
      (set_type Addr.zero SPX_ADDR_TYPE_HASHTREE) Addr.zero :=
    (Addr.Agree.refl _ _).store_byte_left _ (by decide) _
  rw [crypto_sign_signature, hpk, hsk_prf, hpub_seed, hsk_seed, signature]
  simp only [fors_sign_spec, Option.bind_eq_bind, Option.bind_some,
    crypto_sign_loop_spec sha256 _ (hash_message_leaf_lt ..) _ _ _ htree_addr, List.append_assoc]
  rfl

end

end keychain.sphincs
