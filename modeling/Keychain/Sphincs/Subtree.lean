import Keychain.Sphincs.OneTime
import Keychain.Sphincs.Treehash

namespace keychain.sphincs

section

variable (sha256 : Sha256) (ctx : spx_ctx)

/-- What is left in `sig`, in `root` and in the address of the tree. -/
def merkle_sign (sig : List UInt8) (root : Node) (wots_addr tree_addr : Addr) (idx_leaf : Nat) :
    Option (List UInt8 × Node × Addr) := do
  let auth_path := nodes_at SPX_TREE_HEIGHT (sig.drop SPX_WOTS_BYTES)
  let tree_addr := set_type tree_addr SPX_ADDR_TYPE_HASHTREE
  let pk_addr := set_type Addr.zero SPX_ADDR_TYPE_WOTSPK
  let info :=
    { wots_sig := nodes_at SPX_WOTS_LEN sig
      wots_sign_leaf := idx_leaf
      wots_steps := chain_lengths root
      leaf_addr := copy_subtree_addr Addr.zero wots_addr
      pk_addr := copy_subtree_addr pk_addr wots_addr }
  let (root, auth_path, info, tree_addr) ←
    treehashx1 sha256 ctx (wots_gen_leafx1 sha256 ctx) auth_path idx_leaf 0 SPX_TREE_HEIGHT
      tree_addr info
  some (bytes_of (info.wots_sig ++ auth_path), root, tree_addr)

/-- The root of the top tree, from what the memory for it and for a path held before. -/
def merkle_gen_root (auth_path : List UInt8) (root : Node) : Option Node := do
  let top_tree_addr := set_layer_addr Addr.zero (SPX_D - 1)
  let wots_addr := set_layer_addr Addr.zero (SPX_D - 1)
  let (_, root, _) ← merkle_sign sha256 ctx auth_path root wots_addr top_tree_addr (2 ^ 32 - 1)
  some root

/-- The address of a tree in the hypertree. -/
def subtree_addr (layer tree : Nat) : Addr :=
  set_tree_addr (set_layer_addr Addr.zero layer) tree

def subtree_combine (layer tree : Nat) : Nat → Nat → Node → Node → Node :=
  tree_combine sha256 ctx (set_type (subtree_addr layer tree) SPX_ADDR_TYPE_HASHTREE)

/-- The address of the one-time key pairs below a tree, but for the key pair. -/
def wots_base (layer tree : Nat) : Addr :=
  set_type (subtree_addr layer tree) SPX_ADDR_TYPE_WOTS

def subtree_leaf (layer tree : Nat) : Nat → Node :=
  wots_leaf sha256 ctx (wots_base layer tree)
    (set_type (subtree_addr layer tree) SPX_ADDR_TYPE_WOTSPK)

def subtree_root (layer tree : Nat) : Node :=
  merkle.node (subtree_combine sha256 ctx layer tree) (subtree_leaf sha256 ctx layer tree)
    SPX_TREE_HEIGHT 0

def subtree_path (layer tree idx_leaf : Nat) : List Node :=
  merkle.path (subtree_combine sha256 ctx layer tree) (subtree_leaf sha256 ctx layer tree)
    SPX_TREE_HEIGHT 0 idx_leaf

/-- How a leaf of the tree signs: a one-time signature and its authentication path. -/
def subtree_signature (layer tree idx_leaf : Nat) (msg : Node) : List Node :=
  wots_signature sha256 ctx (set_keypair_addr (wots_base layer tree) idx_leaf) msg ++
    subtree_path sha256 ctx layer tree idx_leaf

/-- The bytes of an address that name a tree. -/
def subtree_bytes : List Nat :=
  [0, 1, 2, 3, 4, 5, 6, 7, 8]

theorem getElem_copy_subtree_addr (out from_addr : Addr) (i : Nat) (hi : i < 32) :
    (copy_subtree_addr out from_addr)[i] = if i < 9 then from_addr[i] else out[i] := by
  have hlength : (from_addr.toList.take 9).length = 9 := by
    rw [List.length_take, Vector.length_toList]
    rfl
  rw [copy_subtree_addr, Addr.getElem_store, if_pos (Nat.zero_le i), Nat.sub_zero]
  by_cases hlt : i < 9
  · rw [if_pos hlt, List.getD_eq_getElem _ _ (by rwa [hlength]), List.getElem_take,
      Vector.getElem_toList]
  · rw [if_neg hlt, List.getD_eq_default _ _ (by rw [hlength]; omega)]

theorem mem_subtree_bytes {i : Nat} : i ∈ subtree_bytes ↔ i < 9 := by
  simp only [subtree_bytes, List.mem_cons, List.not_mem_nil, or_false]
  omega

/-- The tree that an address names is taken over, whatever was there. -/
theorem Addr.Agree.copy_subtree_addr {free : List Nat} {a b s t : Addr}
    (h : Addr.Agree (subtree_bytes ++ free) a b) (hfrom : Addr.Agree (List.range' 9 23) s t) :
    Addr.Agree free (copy_subtree_addr a s) (copy_subtree_addr b t) := by
  intro i hi hfree
  rw [getElem_copy_subtree_addr, getElem_copy_subtree_addr]
  by_cases hlt : i < 9
  · rw [if_pos hlt, if_pos hlt]
    exact hfrom i hi (by rw [List.mem_range'_1]; omega)
  · rw [if_neg hlt, if_neg hlt]
    refine h i hi fun hmem => ?_
    rcases List.mem_append.mp hmem with hsubtree | hmore
    · exact hlt (mem_subtree_bytes.mp hsubtree)
    · exact hfree hmore

theorem copy_subtree_addr_from (out from_addr : Addr) :
    Addr.Agree (List.range' 9 23) (copy_subtree_addr out from_addr) from_addr := by
  intro i hi hfree
  rw [getElem_copy_subtree_addr, if_pos]
  rw [List.mem_range'_1] at hfree
  omega

theorem getElem_copy_keypair_addr (out from_addr : Addr) (i : Nat) (hi : i < 32) :
    (copy_keypair_addr out from_addr)[i] = if i < 9 ∨ i = 13 then from_addr[i] else out[i] := by
  have hsubtree := getElem_copy_subtree_addr out from_addr i hi
  rw [copy_subtree_addr] at hsubtree
  rw [copy_keypair_addr, Addr.getElem_store_byte, hsubtree]
  by_cases hkeypair : i = 13
  · rw [if_pos hkeypair, if_pos (Or.inr hkeypair)]
    subst hkeypair
    rfl
  · rw [if_neg hkeypair]
    by_cases hlt : i < 9
    · rw [if_pos hlt, if_pos (Or.inl hlt)]
    · rw [if_neg hlt, if_neg (by omega)]

theorem Addr.Agree.set_subtree {free : List Nat} {a b : Addr}
    (h : Addr.Agree (subtree_bytes ++ free) a b) (layer tree : Nat) :
    Addr.Agree free (set_tree_addr (set_layer_addr a layer) tree)
      (set_tree_addr (set_layer_addr b layer) tree) := by
  have hlayer : Addr.Agree ([1, 2, 3, 4, 5, 6, 7, 8] ++ free) (set_layer_addr a layer)
      (set_layer_addr b layer) := h.store_byte _
  refine (hlayer.store 1 (ull_to_bytes 8 tree)).mono fun i hi => ?_
  obtain ⟨hmem, houtside⟩ := List.mem_filter.mp hi
  rw [length_ull_to_bytes, decide_eq_true_eq] at houtside
  rcases List.mem_append.mp hmem with hsubtree | hfree
  · simp only [List.mem_cons, List.not_mem_nil, or_false] at hsubtree
    omega
  · exact hfree

/-- Behind the tree an address is empty. -/
theorem subtree_addr_agree (layer tree : Nat) :
    Addr.Agree subtree_bytes (subtree_addr layer tree) Addr.zero := by
  have htree : Addr.Agree subtree_bytes (subtree_addr layer tree) (set_layer_addr Addr.zero layer) :=
    Addr.Agree.changed _ (by rw [length_ull_to_bytes]; decide)
  exact htree.trans ((Addr.Agree.refl _ _).store_byte_left _ (by decide) _)

theorem set_type_subtree_agree (layer tree : Nat) (type : UInt8) :
    Addr.Agree subtree_bytes (set_type (subtree_addr layer tree) type) (set_type Addr.zero type) :=
  ((subtree_addr_agree layer tree).mono (List.subset_cons_self 9 _)).store_byte _

theorem set_subtree_agree {free : List Nat} {addr : Addr} {type : UInt8}
    (haddr : Addr.Agree (subtree_bytes ++ free) addr (set_type Addr.zero type)) (layer tree : Nat) :
    Addr.Agree free (set_tree_addr (set_layer_addr addr layer) tree)
      (set_type (subtree_addr layer tree) type) := by
  have hset := haddr.set_subtree layer tree
  have hcomm : set_tree_addr (set_layer_addr (set_type Addr.zero type) layer) tree =
      set_type (subtree_addr layer tree) type := by
    have hlayer : set_layer_addr (set_type Addr.zero type) layer =
        set_type (set_layer_addr Addr.zero layer) type := (Addr.store_comm _ (by simp)).symm
    rw [hlayer]
    exact (Addr.store_comm _ (by rw [length_ull_to_bytes])).symm
  rwa [hcomm] at hset

/-- An empty address with the tree of another. -/
theorem copy_subtree_addr_agree {free : List Nat} {addr from_addr : Addr} {type : UInt8}
    {layer tree : Nat}
    (haddr : Addr.Agree (subtree_bytes ++ free) addr (set_type Addr.zero type))
    (hfrom : Addr.Agree (List.range' 9 23) from_addr (subtree_addr layer tree)) :
    Addr.Agree free (copy_subtree_addr addr from_addr) (set_type (subtree_addr layer tree) type) := by
  refine (haddr.copy_subtree_addr hfrom).trans fun i hi _ => ?_
  rw [getElem_copy_subtree_addr, set_type, set_type, Addr.getElem_store, Addr.getElem_store]
  by_cases hlt : i < 9
  · rw [if_pos hlt, if_neg (by omega)]
  · have hbehind := subtree_addr_agree layer tree i hi (mt mem_subtree_bytes.mp hlt)
    rw [if_neg hlt, if_pos (by omega), if_pos (by omega), hbehind]

@[simp] theorem length_subtree_path (layer tree idx_leaf : Nat) :
    (subtree_path sha256 ctx layer tree idx_leaf).length = SPX_TREE_HEIGHT := by
  rw [subtree_path, merkle.length_path]

theorem merkle_sign_spec (sig : List UInt8) (root : Node) {wots_addr tree_addr : Addr}
    {layer tree : Nat} (hwots : Addr.Agree (List.range' 9 23) wots_addr (subtree_addr layer tree))
    (htree : Addr.Agree (9 :: tree_bytes) tree_addr (subtree_addr layer tree)) (idx_leaf : Nat) :
    ∃ sig' tree_addr', merkle_sign sha256 ctx sig root wots_addr tree_addr idx_leaf =
        some (sig', subtree_root sha256 ctx layer tree, tree_addr') ∧
      (idx_leaf < 2 ^ SPX_TREE_HEIGHT →
        sig' = bytes_of (subtree_signature sha256 ctx layer tree idx_leaf root)) ∧
      Addr.Agree (9 :: tree_bytes) tree_addr' (subtree_addr layer tree) := by
  have hleaf_addr : Addr.Agree [] (copy_subtree_addr Addr.zero wots_addr) (wots_base layer tree) :=
    copy_subtree_addr_agree (Addr.Agree.refl _ _) hwots
  have hpk_addr : Addr.Agree []
      (copy_subtree_addr (set_type Addr.zero SPX_ADDR_TYPE_WOTSPK) wots_addr)
      (set_type (subtree_addr layer tree) SPX_ADDR_TYPE_WOTSPK) :=
    copy_subtree_addr_agree (Addr.Agree.refl _ _) hwots
  have htyped : Addr.Agree tree_bytes (set_type tree_addr SPX_ADDR_TYPE_HASHTREE)
      (set_type (subtree_addr layer tree) SPX_ADDR_TYPE_HASHTREE) := htree.store_byte _
  have hready : leaf_info_x1.Ready sha256 ctx (wots_base layer tree)
      (set_type (subtree_addr layer tree) SPX_ADDR_TYPE_WOTSPK) root idx_leaf
      (nodes_at SPX_WOTS_LEN sig) 0
      { wots_sig := nodes_at SPX_WOTS_LEN sig
        wots_sign_leaf := idx_leaf
        wots_steps := chain_lengths root
        leaf_addr := copy_subtree_addr Addr.zero wots_addr
        pk_addr := copy_subtree_addr (set_type Addr.zero SPX_ADDR_TYPE_WOTSPK) wots_addr } :=
    ⟨hleaf_addr.mono (List.nil_subset _), hpk_addr.mono (List.nil_subset _), rfl, rfl,
      (if_neg (Nat.not_lt_zero idx_leaf)).symm⟩
  have hgen : ∀ j < 2 ^ SPX_TREE_HEIGHT, ∀ info, leaf_info_x1.Ready sha256 ctx (wots_base layer tree)
      (set_type (subtree_addr layer tree) SPX_ADDR_TYPE_WOTSPK) root idx_leaf
      (nodes_at SPX_WOTS_LEN sig) j info →
      (wots_gen_leafx1 sha256 ctx (j + 0) info).1 = subtree_leaf sha256 ctx layer tree (j + 0) ∧
        leaf_info_x1.Ready sha256 ctx (wots_base layer tree)
          (set_type (subtree_addr layer tree) SPX_ADDR_TYPE_WOTSPK) root idx_leaf
          (nodes_at SPX_WOTS_LEN sig) (j + 1) (wots_gen_leafx1 sha256 ctx (j + 0) info).2 :=
    fun j _ info hinfo => wots_gen_leafx1_spec sha256 ctx (length_nodes_at ..) hinfo
  obtain ⟨info', tree_addr', hrun, hinfo', htree'⟩ := treehashx1_spec sha256 ctx idx_leaf
    (set_type tree_addr SPX_ADDR_TYPE_HASHTREE) hgen (Nat.dvd_zero _) (length_nodes_at SPX_TREE_HEIGHT (sig.drop SPX_WOTS_BYTES)) hready
  rw [tree_combine_congr sha256 ctx htyped, Nat.zero_div, Nat.add_zero] at hrun
  rw [merkle_sign, hrun]
  refine ⟨_, tree_addr', rfl, fun hidx => ?_, ?_⟩
  · rw [if_pos hidx, hinfo'.wots_sig, if_pos hidx]
    rfl
  · exact ((htree'.trans htyped).mono (List.subset_cons_self 9 _)).trans
      ((Addr.Agree.refl _ _).store_byte_left _ List.mem_cons_self _)

/-- The public root is that of the tree in the top layer. -/
theorem merkle_gen_root_spec (auth_path : List UInt8) (root : Node) :
    merkle_gen_root sha256 ctx auth_path root = some (subtree_root sha256 ctx (SPX_D - 1) 0) := by
  have htop : set_layer_addr Addr.zero (SPX_D - 1) = subtree_addr (SPX_D - 1) 0 := by decide
  obtain ⟨sig', tree_addr', hsign, -⟩ := merkle_sign_spec sha256 ctx auth_path root
    (Addr.Agree.refl _ (subtree_addr (SPX_D - 1) 0)) (Addr.Agree.refl _ _) (2 ^ 32 - 1)
  rw [merkle_gen_root, htop, hsign]
  rfl

end

end keychain.sphincs
