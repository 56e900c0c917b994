import Mathlib.Algebra.Group.Nat.Defs
import Mathlib.Data.List.OfFn
import Mathlib.Data.List.TakeDrop

namespace keychain.sphincs

def SPX_N : Nat := 16

def SPX_SHA256_BLOCK_BYTES : Nat := 64

def SPX_SHA256_ADDR_BYTES : Nat := 22

/-- `SPX_N` bytes: a hash, a seed or a node of a tree. -/
abbrev Node := Vector UInt8 SPX_N

/-- What takes the place of SHA-256. -/
abbrev Sha256 := List UInt8 → Vector UInt8 32

structure spx_ctx where
  pub_seed : Node
  sk_seed : Node

/-- The bytes at a pointer. -/
def node_at (bytes : List UInt8) : Node :=
  Vector.ofFn fun i => bytes.getD i 0

def nodes_at : Nat → List UInt8 → List Node
  | 0, _ => []
  | n + 1, bytes => node_at bytes :: nodes_at n (bytes.drop SPX_N)

/-- Nodes one behind the other. -/
def bytes_of (nodes : List Node) : List UInt8 :=
  nodes.flatMap Vector.toList

def ull_to_bytes : Nat → Nat → List UInt8
  | 0, _ => []
  | outlen + 1, value => ull_to_bytes outlen (value / 256) ++ [UInt8.ofNat value]

def u32_to_bytes (value : Nat) : List UInt8 :=
  ull_to_bytes 4 value

def bytes_to_ull (bytes : List UInt8) : Nat :=
  bytes.foldl (fun value byte => value * 256 + byte.toNat) 0

/-- `uint32_t addr[8]`, which is only used by its bytes. -/
abbrev Addr := Vector UInt8 32

def Addr.zero : Addr :=
  Vector.replicate 32 0

def Addr.store (addr : Addr) (offset : Nat) (bytes : List UInt8) : Addr :=
  Vector.ofFn fun i => if offset ≤ i then bytes.getD (i - offset) addr[i] else addr[i]

def SPX_ADDR_TYPE_WOTS : UInt8 := 0
def SPX_ADDR_TYPE_WOTSPK : UInt8 := 1
def SPX_ADDR_TYPE_HASHTREE : UInt8 := 2
def SPX_ADDR_TYPE_FORSTREE : UInt8 := 3
def SPX_ADDR_TYPE_FORSPK : UInt8 := 4
def SPX_ADDR_TYPE_WOTSPRF : UInt8 := 5
def SPX_ADDR_TYPE_FORSPRF : UInt8 := 6

def set_layer_addr (addr : Addr) (layer : Nat) : Addr :=
  addr.store 0 [UInt8.ofNat layer]

def set_tree_addr (addr : Addr) (tree : Nat) : Addr :=
  addr.store 1 (ull_to_bytes 8 tree)

def set_type (addr : Addr) (type : UInt8) : Addr :=
  addr.store 9 [type]

def copy_subtree_addr (out from_addr : Addr) : Addr :=
  out.store 0 (from_addr.toList.take 9)

def set_keypair_addr (addr : Addr) (keypair : Nat) : Addr :=
  addr.store 13 [UInt8.ofNat keypair]

def copy_keypair_addr (out from_addr : Addr) : Addr :=
  (out.store 0 (from_addr.toList.take 9)).store 13 [from_addr[13]]

def set_chain_addr (addr : Addr) (chain : Nat) : Addr :=
  addr.store 17 [UInt8.ofNat chain]

def set_hash_addr (addr : Addr) (hash : Nat) : Addr :=
  addr.store 21 [UInt8.ofNat hash]

def set_tree_height (addr : Addr) (tree_height : Nat) : Addr :=
  addr.store 17 [UInt8.ofNat tree_height]

def set_tree_index (addr : Addr) (tree_index : Nat) : Addr :=
  addr.store 18 (u32_to_bytes tree_index)

section

variable (sha256 : Sha256)

/-- The front of a hash. -/
def first_n (hash : Vector UInt8 32) : Node :=
  node_at hash.toList

/-- The block that `initialize_hash_function` has absorbed into the state. -/
def seeded_block (ctx : spx_ctx) : List UInt8 :=
  ctx.pub_seed.toList ++ List.replicate (SPX_SHA256_BLOCK_BYTES - SPX_N) 0

def thash (ctx : spx_ctx) (input : List Node) (addr : Addr) : Node :=
  first_n (sha256 (seeded_block ctx ++ addr.toList.take SPX_SHA256_ADDR_BYTES ++ bytes_of input))

/-- Only the public seed goes into it. -/
theorem thash_congr {ctx other : spx_ctx} (hseed : other.pub_seed = ctx.pub_seed) :
    thash sha256 other = thash sha256 ctx := by
  funext input addr
  unfold thash seeded_block
  rw [hseed]

def prf_addr (ctx : spx_ctx) (addr : Addr) : Node :=
  first_n (sha256
    (seeded_block ctx ++ addr.toList.take SPX_SHA256_ADDR_BYTES ++ ctx.sk_seed.toList))

/-- A key for HMAC, filled up to a block. -/
def hmac_block (sk_prf : Node) (pad : UInt8) : List UInt8 :=
  sk_prf.toList.map (pad ^^^ ·) ++ List.replicate (SPX_SHA256_BLOCK_BYTES - SPX_N) pad

def gen_message_random (sk_prf optrand : Node) (m : List UInt8) : Node :=
  first_n (sha256
    (hmac_block sk_prf 0x5c ++ (sha256 (hmac_block sk_prf 0x36 ++ optrand.toList ++ m)).toList))

def mgf1_256 (outlen : Nat) (input : List UInt8) : List UInt8 :=
  ((List.range ((outlen + 31) / 32)).flatMap fun i =>
    (sha256 (input ++ u32_to_bytes i)).toList).take outlen

end

def SPX_FORS_HEIGHT : Nat := 6
def SPX_FORS_TREES : Nat := 33
def SPX_FORS_MSG_BYTES : Nat := 25
def SPX_D : Nat := 22
def SPX_TREE_HEIGHT : Nat := 3
def SPX_TREE_BITS : Nat := 63
def SPX_LEAF_BITS : Nat := 3
def SPX_TREE_BYTES : Nat := 8
def SPX_LEAF_BYTES : Nat := 1

def SPX_DGST_BYTES : Nat := SPX_FORS_MSG_BYTES + SPX_TREE_BYTES + SPX_LEAF_BYTES

/-- What FORS signs, with the tree and the leaf that sign its public key. -/
structure Digest where
  mhash : List UInt8
  tree : Nat
  leaf_idx : Nat

def hash_message (sha256 : Sha256) (R : Node) (pk m : List UInt8) : Digest :=
  let hash := sha256 (R.toList ++ pk.take (2 * SPX_N) ++ m)
  let buf := mgf1_256 sha256 SPX_DGST_BYTES (R.toList ++ pk.take SPX_N ++ hash.toList)
  { mhash := buf.take SPX_FORS_MSG_BYTES
    tree := bytes_to_ull ((buf.drop SPX_FORS_MSG_BYTES).take SPX_TREE_BYTES) % 2 ^ SPX_TREE_BITS
    leaf_idx := bytes_to_ull ((buf.drop (SPX_FORS_MSG_BYTES + SPX_TREE_BYTES)).take SPX_LEAF_BYTES) %
      2 ^ SPX_LEAF_BITS }

theorem hash_message_tree_lt (sha256 : Sha256) (R : Node) (pk m : List UInt8) :
    (hash_message sha256 R pk m).tree < 2 ^ SPX_TREE_BITS :=
  Nat.mod_lt _ (Nat.two_pow_pos _)

theorem hash_message_leaf_lt (sha256 : Sha256) (R : Node) (pk m : List UInt8) :
    (hash_message sha256 R pk m).leaf_idx < 2 ^ SPX_TREE_HEIGHT :=
  Nat.mod_lt _ (Nat.two_pow_pos _)

@[simp] theorem node_at_append (node : Node) (rest : List UInt8) :
    node_at (node.toList ++ rest) = node := by
  apply Vector.ext
  intro i hi
  have hlength : i < node.toList.length := by simpa using hi
  simp [node_at, List.getD_eq_getElem?_getD, List.getElem?_append_left hlength, hi]

@[simp] theorem node_at_toList (node : Node) : node_at node.toList = node := by
  simpa using node_at_append node []

@[simp] theorem drop_append_node (node : Node) (rest : List UInt8) :
    (node.toList ++ rest).drop SPX_N = rest := by
  have hlength : node.toList.length = SPX_N := Vector.length_toList
  exact List.drop_left' hlength

@[simp] theorem length_nodes_at (n : Nat) (bytes : List UInt8) : (nodes_at n bytes).length = n := by
  induction n generalizing bytes with
  | zero => rfl
  | succ n ih => rw [nodes_at, List.length_cons, ih]

@[simp] theorem take_append_node (node : Node) (rest : List UInt8) :
    (node.toList ++ rest).take SPX_N = node.toList := by
  have hlength : node.toList.length = SPX_N := Vector.length_toList
  exact List.take_left' hlength

@[simp] theorem take_toList (node : Node) : node.toList.take SPX_N = node.toList :=
  List.take_of_length_le (Nat.le_of_eq Vector.length_toList)

theorem bytes_of_cons (node : Node) (nodes : List Node) :
    bytes_of (node :: nodes) = node.toList ++ bytes_of nodes := rfl

theorem bytes_of_append (first second : List Node) :
    bytes_of (first ++ second) = bytes_of first ++ bytes_of second :=
  List.flatMap_append

@[simp] theorem length_bytes_of (nodes : List Node) :
    (bytes_of nodes).length = SPX_N * nodes.length := by
  induction nodes with
  | nil => rfl
  | cons node nodes ih =>
    rw [bytes_of_cons, List.length_append, Vector.length_toList, ih, List.length_cons, Nat.mul_succ,
      Nat.add_comm]

theorem nodes_at_bytes_of (nodes : List Node) (rest : List UInt8) :
    nodes_at nodes.length (bytes_of nodes ++ rest) = nodes := by
  induction nodes with
  | nil => rfl
  | cons node nodes ih =>
    rw [List.length_cons, nodes_at, bytes_of_cons, List.append_assoc, node_at_append,
      drop_append_node, ih]

/-- Whole nodes are all that the bytes hold. -/
theorem bytes_of_nodes_at (n : Nat) (bytes : List UInt8) (h : bytes.length = SPX_N * n) :
    bytes_of (nodes_at n bytes) = bytes := by
  induction n generalizing bytes with
  | zero => exact (List.eq_nil_of_length_eq_zero h).symm
  | succ n ih =>
    rw [Nat.mul_succ] at h
    have hfront : (node_at bytes).toList = bytes.take SPX_N := by
      apply List.ext_getElem
      · rw [Vector.length_toList, List.length_take]
        omega
      · intro i hi hi'
        rw [Vector.length_toList] at hi
        have hin : i < bytes.length := by omega
        simp [node_at, hin]
    rw [nodes_at, bytes_of_cons, hfront, ih _ (by rw [List.length_drop, h, Nat.add_sub_cancel]),
      List.take_append_drop]

theorem drop_bytes_of {nodes : List Node} {n : Nat} (h : nodes.length = n) (rest : List UInt8) :
    (bytes_of nodes ++ rest).drop (SPX_N * n) = rest :=
  List.drop_left' (by rw [length_bytes_of, h])

end keychain.sphincs
