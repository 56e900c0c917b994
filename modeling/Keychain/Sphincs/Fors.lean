import Keychain.Sphincs.Treehash

namespace keychain.sphincs

/-- The bits of the message hash, the lowest first, in groups of `SPX_FORS_HEIGHT`. -/
def message_to_indices (m : List UInt8) : List Nat :=
  (List.range SPX_FORS_TREES).map fun i =>
    (List.range SPX_FORS_HEIGHT).foldl (fun index j =>
      let offset := i * SPX_FORS_HEIGHT + j
      index ^^^ (((m.getD (offset >>> 3) 0).toNat >>> (offset &&& 7) &&& 1) <<< j)) 0

section

variable (sha256 : Sha256) (ctx : spx_ctx)

def fors_gen_leafx1 (addr_idx : Nat) (fors_leaf_addr : Addr) : Node × Addr :=
  let fors_leaf_addr := set_tree_index fors_leaf_addr addr_idx
  let fors_leaf_addr := set_type fors_leaf_addr SPX_ADDR_TYPE_FORSPRF
  let leaf := prf_addr sha256 ctx fors_leaf_addr
  let fors_leaf_addr := set_type fors_leaf_addr SPX_ADDR_TYPE_FORSTREE
  (thash sha256 ctx [leaf] fors_leaf_addr, fors_leaf_addr)

/-- The loop of `fors_sign` from tree `i` on. -/
def fors_sign_loop : (indices : List Nat) → (i : Nat) → (sig : List UInt8) →
    (fors_tree_addr fors_leaf_addr : Addr) → Option (List UInt8 × List Node)
  | [], _, _, _, _ => some ([], [])
  | index :: indices, i, sig, fors_tree_addr, fors_leaf_addr => do
    let idx_offset := i * 2 ^ SPX_FORS_HEIGHT
    let fors_tree_addr := tree_node_addr fors_tree_addr 0 (index + idx_offset)
    let fors_tree_addr := set_type fors_tree_addr SPX_ADDR_TYPE_FORSPRF
    let sk := prf_addr sha256 ctx fors_tree_addr
    let fors_tree_addr := set_type fors_tree_addr SPX_ADDR_TYPE_FORSTREE
    let (root, auth_path, fors_leaf_addr, fors_tree_addr) ←
      treehashx1 sha256 ctx (fors_gen_leafx1 sha256 ctx)
        (nodes_at SPX_FORS_HEIGHT (sig.drop SPX_N)) index idx_offset SPX_FORS_HEIGHT fors_tree_addr
        fors_leaf_addr
    let (out, roots) ← fors_sign_loop indices (i + 1) (sig.drop (SPX_N * (1 + SPX_FORS_HEIGHT)))
      fors_tree_addr fors_leaf_addr
    some (bytes_of (sk :: auth_path) ++ out, root :: roots)

/-- The signature that takes the place of what `sig` held, and the public key. -/
def fors_sign (sig m : List UInt8) (fors_addr : Addr) : Option (List UInt8 × Node) := do
  let fors_tree_addr := copy_keypair_addr Addr.zero fors_addr
  let fors_leaf_addr := copy_keypair_addr Addr.zero fors_addr
  let fors_pk_addr := set_type (copy_keypair_addr Addr.zero fors_addr) SPX_ADDR_TYPE_FORSPK
  let (out, roots) ← fors_sign_loop sha256 ctx (message_to_indices m) 0 sig fors_tree_addr
    fors_leaf_addr
  some (out, thash sha256 ctx roots fors_pk_addr)

/-- The loop of `fors_pk_from_sig` from tree `i` on. -/
def fors_pk_from_sig_loop : (indices : List Nat) → (i : Nat) → (sig : List UInt8) → Addr →
    List Node
  | [], _, _, _ => []
  | index :: indices, i, sig, fors_tree_addr =>
    let idx_offset := i * 2 ^ SPX_FORS_HEIGHT
    let fors_tree_addr := tree_node_addr fors_tree_addr 0 (index + idx_offset)
    let leaf := thash sha256 ctx [node_at sig] fors_tree_addr
    let root := compute_root sha256 ctx leaf index idx_offset (sig.drop SPX_N) SPX_FORS_HEIGHT
      fors_tree_addr
    root.1 :: fors_pk_from_sig_loop indices (i + 1) (sig.drop (SPX_N * (1 + SPX_FORS_HEIGHT))) root.2

def fors_pk_from_sig (sig m : List UInt8) (fors_addr : Addr) : Node :=
  let fors_tree_addr := set_type (copy_keypair_addr Addr.zero fors_addr) SPX_ADDR_TYPE_FORSTREE
  let fors_pk_addr := set_type (copy_keypair_addr Addr.zero fors_addr) SPX_ADDR_TYPE_FORSPK
  thash sha256 ctx (fors_pk_from_sig_loop sha256 ctx (message_to_indices m) 0 sig fors_tree_addr)
    fors_pk_addr

theorem foldl_xor_bits_lt (bit : Nat → Nat) (hbit : ∀ j, bit j ≤ 1) (n : Nat) :
    (List.range n).foldl (fun index j => index ^^^ (bit j <<< j)) 0 < 2 ^ n := by
  induction n with
  | zero => exact Nat.one_pos
  | succ n ih =>
    rw [List.range_succ, List.foldl_append, List.foldl_cons, List.foldl_nil]
    apply Nat.xor_lt_two_pow
    · exact ih.trans (Nat.pow_lt_pow_succ (by decide))
    · rw [Nat.shiftLeft_eq, Nat.pow_succ']
      exact Nat.mul_lt_mul_of_pos_right (by have := hbit n; omega) (Nat.two_pow_pos n)

theorem message_to_indices_lt {m : List UInt8} {index : Nat} (h : index ∈ message_to_indices m) :
    index < 2 ^ SPX_FORS_HEIGHT := by
  obtain ⟨i, -, rfl⟩ := List.mem_map.mp h
  exact foldl_xor_bits_lt _ (fun j => Nat.and_le_right) SPX_FORS_HEIGHT

/-- The secret behind leaf `j` of the forest at `base`. -/
def fors_sk (base : Addr) (j : Nat) : Node :=
  prf_addr sha256 ctx (set_type (set_tree_index base j) SPX_ADDR_TYPE_FORSPRF)

def fors_leaf (base : Addr) (j : Nat) : Node :=
  thash sha256 ctx [fors_sk sha256 ctx base j]
    (set_type (set_tree_index base j) SPX_ADDR_TYPE_FORSTREE)

/-- How two nodes of the forest are combined. -/
def fors_combine (base : Addr) : Nat → Nat → Node → Node → Node :=
  tree_combine sha256 ctx (set_type base SPX_ADDR_TYPE_FORSTREE)

def fors_root (base : Addr) (i : Nat) : Node :=
  merkle.node (fors_combine sha256 ctx base) (fors_leaf sha256 ctx base) SPX_FORS_HEIGHT i

/-- What the signature has of tree `i`: a secret and its authentication path. -/
def fors_part (base : Addr) (i index : Nat) : List Node :=
  fors_sk sha256 ctx base (index + i * 2 ^ SPX_FORS_HEIGHT) ::
    merkle.path (fors_combine sha256 ctx base) (fors_leaf sha256 ctx base) SPX_FORS_HEIGHT 0
      (index + i * 2 ^ SPX_FORS_HEIGHT)

def fors_parts (base : Addr) : List Nat → Nat → List Node
  | [], _ => []
  | index :: indices, i => fors_part sha256 ctx base i index ++ fors_parts base indices (i + 1)

theorem length_fors_part (base : Addr) (i index : Nat) :
    (fors_part sha256 ctx base i index).length = 1 + SPX_FORS_HEIGHT := by
  rw [fors_part, List.length_cons, merkle.length_path, Nat.add_comm]

theorem length_fors_parts (base : Addr) (indices : List Nat) (i : Nat) :
    (fors_parts sha256 ctx base indices i).length = (1 + SPX_FORS_HEIGHT) * indices.length := by
  induction indices generalizing i with
  | nil => rfl
  | cons index indices ih =>
    rw [fors_parts, List.length_append, length_fors_part, ih, List.length_cons, Nat.mul_succ,
      Nat.add_comm]

/-- The bytes that generating a leaf of the forest writes to its address. -/
def fors_leaf_bytes : List Nat :=
  [18, 19, 20, 21, 9]

theorem fors_gen_leafx1_spec {base fors_leaf_addr : Addr}
    (haddr : Addr.Agree fors_leaf_bytes fors_leaf_addr base) (j : Nat) :
    (fors_gen_leafx1 sha256 ctx j fors_leaf_addr).1 = fors_leaf sha256 ctx base j ∧
      Addr.Agree fors_leaf_bytes (fors_gen_leafx1 sha256 ctx j fors_leaf_addr).2 base := by
  have hindex : Addr.Agree [9] (set_tree_index fors_leaf_addr j) (set_tree_index base j) :=
    haddr.set_tree_index j
  have hprf : set_type (set_tree_index fors_leaf_addr j) SPX_ADDR_TYPE_FORSPRF =
      set_type (set_tree_index base j) SPX_ADDR_TYPE_FORSPRF := Addr.Agree.eq (hindex.store_byte _)
  have htree : set_type (set_type (set_tree_index base j) SPX_ADDR_TYPE_FORSPRF)
      SPX_ADDR_TYPE_FORSTREE = set_type (set_tree_index base j) SPX_ADDR_TYPE_FORSTREE :=
    Addr.Agree.eq (((Addr.Agree.refl [9] _).store_byte_left _ List.mem_cons_self _).store_byte _)
  constructor
  · rw [fors_gen_leafx1, hprf, htree]
    rfl
  · rw [fors_gen_leafx1, hprf, htree]
    have hchanged : Addr.Agree fors_leaf_bytes (set_tree_index base j) base :=
      Addr.Agree.changed base (by rw [length_u32_to_bytes]; decide)
    exact hchanged.store_byte_left _ (by decide) _

/-- The address of leaf `j` as a node at height 0. -/
theorem tree_node_addr_zero {base : Addr} (hheight : base[17] = 0) (type : UInt8) (j : Nat) :
    tree_node_addr (set_type base type) 0 j = set_type (set_tree_index base j) type := by
  have htyped : (set_type base type)[17] = UInt8.ofNat 0 := by
    rw [set_type, Addr.getElem_store]
    exact hheight
  rw [tree_node_addr, set_tree_height, Addr.store_byte_self (by decide) htyped]
  exact Addr.store_comm base (by simp)

theorem fors_sign_loop_spec {base : Addr} (hheight : base[17] = 0) {indices : List Nat}
    (hindices : ∀ index ∈ indices, index < 2 ^ SPX_FORS_HEIGHT) {i : Nat} (sig : List UInt8)
    {fors_tree_addr fors_leaf_addr : Addr}
    (htree : Addr.Agree (9 :: tree_bytes) fors_tree_addr base)
    (hleaf : Addr.Agree fors_leaf_bytes fors_leaf_addr base) :
    fors_sign_loop sha256 ctx indices i sig fors_tree_addr fors_leaf_addr =
      some (bytes_of (fors_parts sha256 ctx base indices i),
        (List.range' i indices.length).map (fors_root sha256 ctx base)) := by
  induction indices generalizing i sig fors_tree_addr fors_leaf_addr with
  | nil => rfl
  | cons index indices ih =>
    have hindex : index < 2 ^ SPX_FORS_HEIGHT := hindices index List.mem_cons_self
    have hnode : Addr.Agree [9] (tree_node_addr fors_tree_addr 0 (index + i * 2 ^ SPX_FORS_HEIGHT))
        (set_tree_index base (index + i * 2 ^ SPX_FORS_HEIGHT)) := by
      have hzero : base[17] = UInt8.ofNat 0 := hheight
      have hreordered : Addr.Agree (17 :: fors_leaf_bytes) fors_tree_addr base :=
        htree.mono (by decide)
      have hstored := hreordered.store_byte (UInt8.ofNat 0)
      rw [Addr.store_byte_self (a := base) (by decide) hzero] at hstored
      exact Addr.Agree.set_tree_index hstored _
    have hprf : set_type (tree_node_addr fors_tree_addr 0 (index + i * 2 ^ SPX_FORS_HEIGHT))
        SPX_ADDR_TYPE_FORSPRF =
        set_type (set_tree_index base (index + i * 2 ^ SPX_FORS_HEIGHT)) SPX_ADDR_TYPE_FORSPRF :=
      Addr.Agree.eq (hnode.store_byte _)
    have hstart : Addr.Agree tree_bytes
        (set_type (set_type (set_tree_index base (index + i * 2 ^ SPX_FORS_HEIGHT))
          SPX_ADDR_TYPE_FORSPRF) SPX_ADDR_TYPE_FORSTREE) (set_type base SPX_ADDR_TYPE_FORSTREE) := by
      have hchanged : Addr.Agree (9 :: tree_bytes)
          (set_tree_index base (index + i * 2 ^ SPX_FORS_HEIGHT)) base :=
        Addr.Agree.changed base (by rw [length_u32_to_bytes]; decide)
      exact (hchanged.store_byte_left _ List.mem_cons_self _).store_byte _
    obtain ⟨leaf_addr', tree_addr', hrun, hleaf', htree'⟩ := treehashx1_spec sha256 ctx index
      (set_type (set_type (set_tree_index base (index + i * 2 ^ SPX_FORS_HEIGHT))
        SPX_ADDR_TYPE_FORSPRF) SPX_ADDR_TYPE_FORSTREE)
      (fun j _ addr haddr => fors_gen_leafx1_spec sha256 ctx haddr (j + i * 2 ^ SPX_FORS_HEIGHT))
      (Nat.dvd_mul_left _ _) (length_nodes_at SPX_FORS_HEIGHT (sig.drop SPX_N)) hleaf
    have hnext : Addr.Agree (9 :: tree_bytes) tree_addr' base :=
      ((htree'.trans hstart).mono (List.subset_cons_self 9 _)).trans
        ((Addr.Agree.refl _ base).store_byte_left _ List.mem_cons_self _)
    rw [fors_sign_loop, hprf, hrun]
    dsimp only [Option.bind_eq_bind, Option.bind_some]
    rw [ih (fun index hmem => hindices index (List.mem_cons_of_mem _ hmem)) _ hnext hleaf',
      if_pos hindex, tree_combine_congr sha256 ctx hstart,
      Nat.mul_div_cancel _ (Nat.two_pow_pos SPX_FORS_HEIGHT), fors_parts, bytes_of_append,
      List.length_cons, List.range'_succ, List.map_cons]
    rfl

theorem fors_pk_from_sig_loop_spec {base : Addr} (hheight : base[17] = 0) {indices : List Nat}
    (hindices : ∀ index ∈ indices, index < 2 ^ SPX_FORS_HEIGHT) {i : Nat} (rest : List UInt8)
    {fors_tree_addr : Addr}
    (htree : Addr.Agree tree_bytes fors_tree_addr (set_type base SPX_ADDR_TYPE_FORSTREE)) :
    fors_pk_from_sig_loop sha256 ctx indices i
        (bytes_of (fors_parts sha256 ctx base indices i) ++ rest) fors_tree_addr =
      (List.range' i indices.length).map (fors_root sha256 ctx base) := by
  induction indices generalizing i rest fors_tree_addr with
  | nil => rfl
  | cons index indices ih =>
    have hindex : index < 2 ^ SPX_FORS_HEIGHT := hindices index List.mem_cons_self
    have hleaf : tree_node_addr fors_tree_addr 0 (index + i * 2 ^ SPX_FORS_HEIGHT) =
        set_type (set_tree_index base (index + i * 2 ^ SPX_FORS_HEIGHT)) SPX_ADDR_TYPE_FORSTREE := by
      rw [tree_node_addr_congr htree, tree_node_addr_zero hheight]
    have hagree : Addr.Agree tree_bytes
        (tree_node_addr fors_tree_addr 0 (index + i * 2 ^ SPX_FORS_HEIGHT))
        (set_type base SPX_ADDR_TYPE_FORSTREE) := (tree_node_addr_agree _ _ _).trans htree
    obtain ⟨addr', hroot, haddr'⟩ := compute_root_path sha256 ctx (fors_leaf sha256 ctx base) hindex
      (by decide) (Nat.dvd_mul_left _ i)
      (bytes_of (fors_parts sha256 ctx base indices (i + 1)) ++ rest) hagree
    rw [Nat.mul_div_cancel _ (Nat.two_pow_pos SPX_FORS_HEIGHT)] at hroot
    have hdrop : (bytes_of (fors_part sha256 ctx base i index) ++
        (bytes_of (fors_parts sha256 ctx base indices (i + 1)) ++ rest)).drop
          (SPX_N * (1 + SPX_FORS_HEIGHT)) =
        bytes_of (fors_parts sha256 ctx base indices (i + 1)) ++ rest :=
      drop_bytes_of (length_fors_part ..) _
    rw [fors_parts, bytes_of_append, List.append_assoc, fors_pk_from_sig_loop, hdrop, fors_part,
      bytes_of_cons, List.append_assoc, node_at_append, drop_append_node, hleaf, ← fors_leaf,
      ← hleaf, fors_combine, hroot,
      ih (fun index hmem => hindices index (List.mem_cons_of_mem _ hmem)) rest haddr',
      List.length_cons, List.range'_succ, List.map_cons]
    rfl

/-- The forest of a key pair. -/
def fors_base (fors_addr : Addr) : Addr :=
  copy_keypair_addr Addr.zero fors_addr

theorem fors_base_height (fors_addr : Addr) : (fors_base fors_addr)[17] = 0 := by
  have hsubtree : ((fors_addr.toList.take 9).getD 17 (0 : UInt8)) = 0 :=
    List.getD_eq_default _ _ (by rw [List.length_take]; omega)
  rw [fors_base, copy_keypair_addr, Addr.getElem_store, Addr.getElem_store]
  exact hsubtree

def fors_pk (base : Addr) : Node :=
  thash sha256 ctx ((List.range' 0 SPX_FORS_TREES).map (fors_root sha256 ctx base))
    (set_type base SPX_ADDR_TYPE_FORSPK)

theorem length_message_to_indices (m : List UInt8) :
    (message_to_indices m).length = SPX_FORS_TREES := by
  rw [message_to_indices, List.length_map, List.length_range]

theorem fors_sign_spec (sig m : List UInt8) (fors_addr : Addr) :
    fors_sign sha256 ctx sig m fors_addr =
      some (bytes_of (fors_parts sha256 ctx (fors_base fors_addr) (message_to_indices m) 0),
        fors_pk sha256 ctx (fors_base fors_addr)) := by
  have hloop := fors_sign_loop_spec sha256 ctx (fors_base_height fors_addr)
    (fun _ => message_to_indices_lt (m := m)) (i := 0) sig (Addr.Agree.refl _ _)
    (Addr.Agree.refl _ _)
  rw [length_message_to_indices] at hloop
  rw [fors_sign, ← fors_base, hloop]
  rfl

/-- From its signature the public key of the forest is got back. -/
theorem fors_pk_from_sig_spec (m : List UInt8) (fors_addr : Addr) (rest : List UInt8) :
    fors_pk_from_sig sha256 ctx
        (bytes_of (fors_parts sha256 ctx (fors_base fors_addr) (message_to_indices m) 0) ++ rest) m
        fors_addr =
      fors_pk sha256 ctx (fors_base fors_addr) := by
  have hloop := fors_pk_from_sig_loop_spec sha256 ctx (fors_base_height fors_addr)
    (fun _ => message_to_indices_lt (m := m)) (i := 0) rest (Addr.Agree.refl _ _)
  rw [length_message_to_indices] at hloop
  rw [fors_pk_from_sig, ← fors_base, hloop]
  rfl

end

end keychain.sphincs
