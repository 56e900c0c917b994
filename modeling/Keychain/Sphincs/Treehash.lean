import Keychain.Library.Merkle
import Keychain.Sphincs.Address
import Mathlib.Data.Nat.ModEq

namespace keychain.sphincs

section

variable (sha256 : Sha256) (ctx : spx_ctx)

/-- What the loops of `treehashx1` change. -/
structure Treehash where
  tree_addr : Addr
  auth_path : List Node
  stack : List Node

/-- A node goes to the authentication path if it is the sibling of the leaf's ancestor. -/
def Treehash.save (s : Treehash) (h internal_idx internal_leaf : Nat) (current : Node) : Treehash :=
  if internal_idx ^^^ internal_leaf = 1 then { s with auth_path := s.auth_path.set h current }
  else s

/-- The inner loop of `treehashx1` from height `h` on, with `left` heights to the
    top. It ends with the root, or at a left child, which it saves. -/
def treehash_climb (idx max_idx : Nat) :
    (left h internal_idx internal_leaf internal_idx_offset : Nat) → Node → Treehash →
      Option Node × Treehash
  | 0, _, _, _, _, current, s => (some current, s)
  | left + 1, h, internal_idx, internal_leaf, internal_idx_offset, current, s =>
    let s := s.save h internal_idx internal_leaf current
    if internal_idx % 2 = 0 ∧ idx < max_idx then
      (none, { s with stack := s.stack.set h current })
    else
      let internal_idx_offset := internal_idx_offset / 2
      let tree_addr := tree_node_addr s.tree_addr (h + 1) (internal_idx / 2 + internal_idx_offset)
      let current := thash sha256 ctx [s.stack.getD h current, current] tree_addr
      treehash_climb idx max_idx left (h + 1) (internal_idx / 2) (internal_leaf / 2)
        internal_idx_offset current { s with tree_addr }

variable {ι : Type} (gen_leaf : Nat → ι → Node × ι)

/-- The outer loop of `treehashx1`, for as many leaves as there is fuel. -/
def treehash_loop (leaf_idx idx_offset tree_height : Nat) :
    (fuel idx : Nat) → ι → Treehash → Option (Node × ι × Treehash)
  | 0, _, _, _ => none
  | fuel + 1, idx, info, s =>
    let leaf := gen_leaf (idx + idx_offset) info
    match treehash_climb sha256 ctx idx (2 ^ tree_height - 1) tree_height 0 idx leaf_idx idx_offset
      leaf.1 s with
    | (some root, s) => some (root, leaf.2, s)
    | (none, s) => treehash_loop leaf_idx idx_offset tree_height fuel (idx + 1) leaf.2 s

/-- The root, the authentication path and what is left in `info` and the address. -/
def treehashx1 (auth_path : List Node) (leaf_idx idx_offset tree_height : Nat) (tree_addr : Addr)
    (info : ι) : Option (Node × List Node × ι × Addr) := do
  let stack := List.replicate tree_height (Vector.replicate SPX_N 0)
  let (root, info, s) ← treehash_loop sha256 ctx gen_leaf leaf_idx idx_offset tree_height
    (2 ^ tree_height) 0 info { tree_addr, auth_path, stack }
  some (root, s.auth_path, info, s.tree_addr)

/-- A node and its sibling, each on its own side of the buffer. -/
def buffer_of (leaf_idx : Nat) (node sibling : Node) : Node × Node :=
  if leaf_idx % 2 = 1 then (sibling, node) else (node, sibling)

/-- The loop of `compute_root`, with the last hash after it. -/
def compute_root_loop (tree_height : Nat) :
    (left i leaf_idx idx_offset : Nat) → Node × Node → List UInt8 → Addr → Node × Addr
  | 0, _, leaf_idx, idx_offset, buffer, _, addr =>
    let addr := tree_node_addr addr tree_height (leaf_idx / 2 + idx_offset / 2)
    (thash sha256 ctx [buffer.1, buffer.2] addr, addr)
  | left + 1, i, leaf_idx, idx_offset, buffer, auth_path, addr =>
    let leaf_idx := leaf_idx / 2
    let idx_offset := idx_offset / 2
    let addr := tree_node_addr addr (i + 1) (leaf_idx + idx_offset)
    let node := thash sha256 ctx [buffer.1, buffer.2] addr
    compute_root_loop tree_height left (i + 1) leaf_idx idx_offset
      (buffer_of leaf_idx node (node_at auth_path)) (auth_path.drop SPX_N) addr

def compute_root (leaf : Node) (leaf_idx idx_offset : Nat) (auth_path : List UInt8)
    (tree_height : Nat) (addr : Addr) : Node × Addr :=
  compute_root_loop sha256 ctx tree_height (tree_height - 1) 0 leaf_idx idx_offset
    (buffer_of leaf_idx leaf (node_at auth_path)) (auth_path.drop SPX_N) addr

/-- How two nodes are combined below an address. -/
def tree_combine (tree_addr : Addr) (height index : Nat) (left right : Node) : Node :=
  thash sha256 ctx [left, right] (tree_node_addr tree_addr height index)

/-- The tree over the leaves from `idx_offset` on, with indices counted from there. -/
def local_node (tree_addr : Addr) (idx_offset : Nat) (leaf : Nat → Node) (h i : Nat) : Node :=
  merkle.node (fun h i => tree_combine sha256 ctx tree_addr h (i + idx_offset / 2 ^ h))
    (fun i => leaf (i + idx_offset)) h i

/-- `count l` nodes at each height `l` are finished, from the left. An odd count has
    left its last node on the stack, to wait for its sibling. -/
structure Treehash.Filled (node : Nat → Nat → Node) (tree_addr : Addr) (leaf_idx tree_height : Nat)
    (stale : List Node) (count : Nat → Nat) (s : Treehash) : Prop where
  tree_addr : Addr.Agree tree_bytes s.tree_addr tree_addr
  length_stack : s.stack.length = tree_height
  length_auth_path : s.auth_path.length = tree_height
  stack : ∀ l < tree_height, count l % 2 = 1 → s.stack[l]? = some (node l (count l - 1))
  auth_path : ∀ l < tree_height, s.auth_path[l]? =
    if merkle.sibling (leaf_idx / 2 ^ l) < count l then
      some (node l (merkle.sibling (leaf_idx / 2 ^ l)))
    else stale[l]?

/-- The counts while leaf `idx` is put in and the heights below `h` are done with it. -/
def climb_count (idx h l : Nat) : Nat :=
  if l < h then (idx + 1) / 2 ^ l else idx / 2 ^ l

theorem climb_count_zero (idx : Nat) : climb_count idx 0 = fun l => idx / 2 ^ l := by
  funext l
  rw [climb_count, if_neg (Nat.not_lt_zero l)]

/-- A height that leaf `idx` completes a node of has one node more. -/
theorem climb_count_succ {idx h : Nat} (hdvd : 2 ^ h ∣ idx + 1) (l : Nat) :
    climb_count idx (h + 1) l = if l = h then idx / 2 ^ h + 1 else climb_count idx h l := by
  unfold climb_count
  by_cases hl : l = h
  · rw [if_pos (by omega), if_pos hl, hl, Nat.succ_div_of_dvd hdvd]
  · rw [if_neg hl]
    by_cases hlt : l < h
    · rw [if_pos (by omega), if_pos hlt]
    · rw [if_neg (by omega), if_neg hlt]

/-- The heights above the first that leaf `idx` completes no node of keep their counts. -/
theorem climb_count_of_even {idx h : Nat} (heven : idx / 2 ^ h % 2 = 0) (hdvd : 2 ^ h ∣ idx + 1) :
    climb_count idx (h + 1) = fun l => (idx + 1) / 2 ^ l := by
  funext l
  by_cases hl : l < h + 1
  · rw [climb_count, if_pos hl]
  · rw [climb_count, if_neg hl, Nat.succ_div_of_not_dvd]
    intro hdvdl
    have hnext : 2 ^ (h + 1) ∣ idx + 1 := (Nat.pow_dvd_pow 2 (by omega)).trans hdvdl
    have hodd : 2 ∣ (idx + 1) / 2 ^ h :=
      (Nat.dvd_div_iff_mul_dvd hdvd).mpr (by rwa [← Nat.pow_succ])
    rw [Nat.succ_div_of_dvd hdvd] at hodd
    omega

section

variable {sha256 ctx}
variable {node : Nat → Nat → Node} {tree_addr : Addr} {leaf_idx tree_height : Nat}
  {stale : List Node} {count : Nat → Nat} {s : Treehash}

@[simp] theorem Treehash.save_stack (s : Treehash) (h internal_idx internal_leaf : Nat)
    (current : Node) : (s.save h internal_idx internal_leaf current).stack = s.stack := by
  unfold Treehash.save
  split <;> rfl

@[simp] theorem Treehash.save_tree_addr (s : Treehash) (h internal_idx internal_leaf : Nat)
    (current : Node) : (s.save h internal_idx internal_leaf current).tree_addr = s.tree_addr := by
  unfold Treehash.save
  split <;> rfl

theorem Treehash.filled_start (node : Nat → Nat → Node) (tree_addr : Addr) (leaf_idx : Nat)
    {auth_path : List Node} (hauth : auth_path.length = tree_height) :
    Treehash.Filled node tree_addr leaf_idx tree_height auth_path (fun l => 0 / 2 ^ l)
      { tree_addr, auth_path, stack := List.replicate tree_height (Vector.replicate SPX_N 0) } where
  tree_addr := Addr.Agree.refl _ _
  length_stack := List.length_replicate
  length_auth_path := hauth
  stack l _ hodd := by simp at hodd
  auth_path l _ := by simp

theorem Treehash.Filled.congr {more : Nat → Nat}
    (hs : s.Filled node tree_addr leaf_idx tree_height stale count)
    (hcount : ∀ l < tree_height, count l = more l) :
    s.Filled node tree_addr leaf_idx tree_height stale more where
  tree_addr := hs.tree_addr
  length_stack := hs.length_stack
  length_auth_path := hs.length_auth_path
  stack l hl := hcount l hl ▸ hs.stack l hl
  auth_path l hl := hcount l hl ▸ hs.auth_path l hl

theorem Treehash.Filled.length_save (hs : s.Filled node tree_addr leaf_idx tree_height stale count)
    (h internal_idx internal_leaf : Nat) (current : Node) :
    (s.save h internal_idx internal_leaf current).auth_path.length = tree_height := by
  unfold Treehash.save
  split
  · rw [List.length_set, hs.length_auth_path]
  · exact hs.length_auth_path

/-- One more node at height `h`, as far as the authentication path goes. -/
theorem Treehash.Filled.save (hs : s.Filled node tree_addr leaf_idx tree_height stale count)
    {h : Nat} (hh : h < tree_height) (l : Nat) (hl : l < tree_height) :
    (s.save h (count h) (leaf_idx / 2 ^ h) (node h (count h))).auth_path[l]? =
      if merkle.sibling (leaf_idx / 2 ^ l) < (if l = h then count h + 1 else count l) then
        some (node l (merkle.sibling (leaf_idx / 2 ^ l)))
      else stale[l]? := by
  have hbefore := hs.auth_path l hl
  unfold Treehash.save
  by_cases hlh : l = h
  · subst hlh
    rw [if_pos rfl]
    by_cases hsibling : count l ^^^ (leaf_idx / 2 ^ l) = 1
    · rw [if_pos hsibling, ← merkle.xor_eq_one_iff.mp hsibling, if_pos (Nat.lt_succ_self _)]
      exact List.getElem?_set_self (by rwa [hs.length_auth_path])
    · have hne : merkle.sibling (leaf_idx / 2 ^ l) ≠ count l := by
        intro heq
        exact hsibling (merkle.xor_eq_one_iff.mpr heq.symm)
      rw [if_neg hsibling, hbefore]
      by_cases hlt : merkle.sibling (leaf_idx / 2 ^ l) < count l
      · rw [if_pos hlt, if_pos (by omega)]
      · rw [if_neg hlt, if_neg (by omega)]
  · rw [if_neg hlh, ← hbefore]
    split
    · exact List.getElem?_set_ne (Ne.symm hlh)
    · rfl

/-- A left node waits on the stack. -/
theorem Treehash.Filled.push (hs : s.Filled node tree_addr leaf_idx tree_height stale count)
    {h : Nat} (hh : h < tree_height) (heven : count h % 2 = 0) {saved : Treehash}
    (hsaved : saved = s.save h (count h) (leaf_idx / 2 ^ h) (node h (count h))) :
    Treehash.Filled node tree_addr leaf_idx tree_height stale
      (fun l => if l = h then count h + 1 else count l)
      { saved with stack := saved.stack.set h (node h (count h)) } := by
  subst hsaved
  refine ⟨?_, ?_, hs.length_save .., ?_, fun l hl => hs.save hh l hl⟩
  · rw [Treehash.save_tree_addr]
    exact hs.tree_addr
  · rw [List.length_set, Treehash.save_stack, hs.length_stack]
  · intro l hl hodd
    rw [Treehash.save_stack]
    by_cases hlh : l = h
    · subst hlh
      rw [if_pos rfl, Nat.add_sub_cancel]
      exact List.getElem?_set_self (by rwa [hs.length_stack])
    · rw [if_neg hlh] at hodd ⊢
      rw [List.getElem?_set_ne (Ne.symm hlh)]
      exact hs.stack l hl hodd

/-- A right node takes its sibling from the stack. -/
theorem Treehash.Filled.combine (hs : s.Filled node tree_addr leaf_idx tree_height stale count)
    {h : Nat} (hh : h < tree_height) (hodd : count h % 2 = 1) {saved : Treehash}
    (hsaved : saved = s.save h (count h) (leaf_idx / 2 ^ h) (node h (count h))) {addr : Addr}
    (haddr : Addr.Agree tree_bytes addr tree_addr) :
    Treehash.Filled node tree_addr leaf_idx tree_height stale
      (fun l => if l = h then count h + 1 else count l) { saved with tree_addr := addr } := by
  subst hsaved
  refine ⟨haddr, ?_, hs.length_save .., ?_, fun l hl => hs.save hh l hl⟩
  · rw [Treehash.save_stack, hs.length_stack]
  · intro l hl hcount
    rw [Treehash.save_stack]
    by_cases hlh : l = h
    · subst hlh
      rw [if_pos rfl] at hcount
      omega
    · rw [if_neg hlh] at hcount ⊢
      exact hs.stack l hl hcount

end

theorem local_node_succ (tree_addr : Addr) (idx_offset : Nat) (leaf : Nat → Node) (h i : Nat) :
    local_node sha256 ctx tree_addr idx_offset leaf (h + 1) i =
      tree_combine sha256 ctx tree_addr (h + 1) (i + idx_offset / 2 ^ (h + 1))
        (local_node sha256 ctx tree_addr idx_offset leaf h (2 * i))
        (local_node sha256 ctx tree_addr idx_offset leaf h (2 * i + 1)) := rfl

theorem tree_combine_congr {a b : Addr} (h : Addr.Agree tree_bytes a b) :
    tree_combine sha256 ctx a = tree_combine sha256 ctx b := by
  funext height index left right
  unfold tree_combine
  rw [tree_node_addr_congr h]

/-- Putting in leaf `idx` finishes one node at each height it completes. Only the
    last leaf reaches the top. -/
theorem treehash_climb_spec {tree_addr : Addr} {idx leaf_idx idx_offset tree_height : Nat}
    {leaf : Nat → Node} {stale : List Node} (hidx : idx < 2 ^ tree_height) {left h : Nat}
    (hleft : h + left = tree_height) (hdvd : 2 ^ h ∣ idx + 1) {s : Treehash}
    (hs : s.Filled (local_node sha256 ctx tree_addr idx_offset leaf) tree_addr leaf_idx tree_height
      stale (climb_count idx h)) :
    ∃ s', treehash_climb sha256 ctx idx (2 ^ tree_height - 1) left h (idx / 2 ^ h)
        (leaf_idx / 2 ^ h) (idx_offset / 2 ^ h)
        (local_node sha256 ctx tree_addr idx_offset leaf h (idx / 2 ^ h)) s =
        (if idx + 1 = 2 ^ tree_height then
          some (local_node sha256 ctx tree_addr idx_offset leaf tree_height 0) else none, s') ∧
      s'.Filled (local_node sha256 ctx tree_addr idx_offset leaf) tree_addr leaf_idx tree_height
        stale (fun l => (idx + 1) / 2 ^ l) := by
  induction left generalizing h s with
  | zero =>
    obtain rfl : h = tree_height := hleft
    have htop : idx + 1 = 2 ^ h := Nat.le_antisymm hidx (Nat.le_of_dvd (Nat.succ_pos idx) hdvd)
    refine ⟨s, ?_, hs.congr fun l hl => if_pos hl⟩
    rw [treehash_climb, if_pos htop, Nat.div_eq_of_lt hidx]
  | succ left ih =>
    have hh : h < tree_height := by omega
    have hcount : climb_count idx h h = idx / 2 ^ h := if_neg (Nat.lt_irrefl h)
    by_cases hstop : idx / 2 ^ h % 2 = 0 ∧ idx < 2 ^ tree_height - 1
    · have hpush := hs.push hh (by rw [hcount]; exact hstop.1) rfl
      rw [hcount] at hpush
      refine ⟨_, ?_, hpush.congr fun l _ => ?_⟩
      · rw [treehash_climb, if_pos hstop, if_neg (by omega)]
      · rw [← climb_count_succ hdvd, climb_count_of_even hstop.1 hdvd]
    · have hodd : idx / 2 ^ h % 2 = 1 := by
        by_contra heven
        have htop : idx + 1 = 2 ^ tree_height := by omega
        have hnext : 2 ∣ (idx + 1) / 2 ^ h := by
          rw [htop, Nat.pow_div (Nat.le_of_lt hh) (by decide)]
          exact dvd_pow_self 2 (by omega)
        rw [Nat.succ_div_of_dvd hdvd] at hnext
        omega
      have hdvd' : 2 ^ (h + 1) ∣ idx + 1 := by
        rw [Nat.pow_succ, ← Nat.dvd_div_iff_mul_dvd hdvd, Nat.succ_div_of_dvd hdvd]
        omega
      have hstack := hs.stack h hh (by rwa [hcount])
      rw [hcount] at hstack
      have hpair : 2 * (idx / 2 ^ (h + 1)) = idx / 2 ^ h - 1 ∧
          2 * (idx / 2 ^ (h + 1)) + 1 = idx / 2 ^ h := by
        rw [Nat.pow_succ, ← Nat.div_div_eq_div_mul]
        omega
      have haddr := (tree_node_addr_agree s.tree_addr (h + 1)
        (idx / 2 ^ h / 2 + idx_offset / 2 ^ h / 2)).trans hs.tree_addr
      have hcombine := hs.combine hh (by rwa [hcount]) rfl haddr
      rw [hcount] at hcombine
      obtain ⟨s', hrun, hfilled⟩ := ih (h := h + 1) (by omega) hdvd'
        (hcombine.congr fun l _ => (climb_count_succ hdvd l).symm)
      refine ⟨s', ?_, hfilled⟩
      rw [treehash_climb, if_neg hstop, ← hrun]
      have hcurrent : thash sha256 ctx
          [s.stack.getD h (local_node sha256 ctx tree_addr idx_offset leaf h (idx / 2 ^ h)),
            local_node sha256 ctx tree_addr idx_offset leaf h (idx / 2 ^ h)]
          (tree_node_addr s.tree_addr (h + 1) (idx / 2 ^ h / 2 + idx_offset / 2 ^ h / 2)) =
          local_node sha256 ctx tree_addr idx_offset leaf (h + 1) (idx / 2 ^ (h + 1)) := by
        rw [List.getD_eq_getElem?_getD, hstack, Option.getD_some, local_node_succ, hpair.2, hpair.1,
          ← tree_combine_congr sha256 ctx hs.tree_addr, tree_combine, Nat.div_div_eq_div_mul,
          Nat.div_div_eq_div_mul, ← Nat.pow_succ]
      dsimp only
      rw [Treehash.save_stack, Treehash.save_tree_addr, hcurrent, Nat.div_div_eq_div_mul,
        Nat.div_div_eq_div_mul, Nat.div_div_eq_div_mul, ← Nat.pow_succ]

section

variable {ι : Type} {gen_leaf : Nat → ι → Node × ι} {leaf : Nat → Node} {I : Nat → ι → Prop}
  {leaf_idx idx_offset tree_height : Nat} {tree_addr : Addr} {stale : List Node}

theorem treehash_loop_spec
    (hgen : ∀ j < 2 ^ tree_height, ∀ info, I j info →
      (gen_leaf (j + idx_offset) info).1 = leaf (j + idx_offset) ∧
        I (j + 1) (gen_leaf (j + idx_offset) info).2)
    {fuel idx : Nat} (hfuel : idx + fuel = 2 ^ tree_height) (hidx : idx < 2 ^ tree_height)
    {info : ι} (hinfo : I idx info) {s : Treehash}
    (hs : s.Filled (local_node sha256 ctx tree_addr idx_offset leaf) tree_addr leaf_idx tree_height
      stale (fun l => idx / 2 ^ l)) :
    ∃ info' s', treehash_loop sha256 ctx gen_leaf leaf_idx idx_offset tree_height fuel idx info s =
        some (local_node sha256 ctx tree_addr idx_offset leaf tree_height 0, info', s') ∧
      I (2 ^ tree_height) info' ∧
      s'.Filled (local_node sha256 ctx tree_addr idx_offset leaf) tree_addr leaf_idx tree_height
        stale (fun l => 2 ^ tree_height / 2 ^ l) := by
  induction fuel generalizing idx info s with
  | zero => omega
  | succ fuel ih =>
    obtain ⟨hleaf, hnext⟩ := hgen idx hidx info hinfo
    rw [← climb_count_zero] at hs
    obtain ⟨s', hclimb, hfilled⟩ := treehash_climb_spec sha256 ctx hidx (Nat.zero_add tree_height)
      (Nat.one_dvd _) hs
    have hcurrent : local_node sha256 ctx tree_addr idx_offset leaf 0 (idx / 2 ^ 0) =
        (gen_leaf (idx + idx_offset) info).1 := by
      rw [hleaf, Nat.pow_zero, Nat.div_one]
      rfl
    rw [hcurrent, Nat.pow_zero, Nat.div_one, Nat.div_one, Nat.div_one] at hclimb
    rw [treehash_loop, hclimb]
    by_cases hlast : idx + 1 = 2 ^ tree_height
    · rw [if_pos hlast]
      rw [hlast] at hnext hfilled
      exact ⟨_, s', rfl, hnext, hfilled⟩
    · rw [if_neg hlast]
      exact ih (by omega) (by omega) hnext hfilled

/-- With all leaves in, the path of a leaf among them is complete, and that of any
    other index is as it was. -/
theorem Treehash.Filled.auth_path_full {s : Treehash}
    (hs : s.Filled (local_node sha256 ctx tree_addr idx_offset leaf) tree_addr leaf_idx tree_height
      stale (fun l => 2 ^ tree_height / 2 ^ l))
    (hoffset : 2 ^ tree_height ∣ idx_offset) (hstale : stale.length = tree_height) :
    s.auth_path = if leaf_idx < 2 ^ tree_height then
      merkle.path (tree_combine sha256 ctx tree_addr) leaf tree_height 0 (leaf_idx + idx_offset)
    else stale := by
  have hshift : merkle.path (tree_combine sha256 ctx tree_addr) leaf tree_height 0
      (leaf_idx + idx_offset / 2 ^ 0) = _ :=
    merkle.path_shift _ _ (by rwa [Nat.zero_add]) leaf_idx
  rw [Nat.pow_zero, Nat.div_one] at hshift
  apply List.ext_getElem?
  intro l
  by_cases hl : l < tree_height
  · have heven : 2 ^ tree_height / 2 ^ l % 2 = 0 := by
      rw [Nat.pow_div (Nat.le_of_lt hl) (by decide)]
      exact Nat.mod_eq_zero_of_dvd (dvd_pow_self 2 (by omega))
    have hinside : merkle.sibling (leaf_idx / 2 ^ l) < 2 ^ tree_height / 2 ^ l ↔
        leaf_idx < 2 ^ tree_height := by
      rw [merkle.sibling_lt_iff heven, Nat.pow_div (Nat.le_of_lt hl) (by decide),
        Nat.div_lt_iff_lt_mul (Nat.two_pow_pos l), ← Nat.pow_add, Nat.sub_add_cancel (by omega)]
    rw [hs.auth_path l hl]
    by_cases hleaf : leaf_idx < 2 ^ tree_height
    · rw [if_pos (hinside.mpr hleaf), if_pos hleaf, hshift, merkle.getElem?_path _ _ _ _ _ l hl,
        Nat.zero_add]
      rfl
    · rw [if_neg (mt hinside.mp hleaf), if_neg hleaf]
  · have hlength : (if leaf_idx < 2 ^ tree_height then
        merkle.path (tree_combine sha256 ctx tree_addr) leaf tree_height 0 (leaf_idx + idx_offset)
        else stale).length = tree_height := by
      split
      · exact merkle.length_path ..
      · exact hstale
    rw [List.getElem?_eq_none (by rw [hs.length_auth_path]; omega),
      List.getElem?_eq_none (by rw [hlength]; omega)]

/-- What `treehashx1` computes: the root of the tree over its leaves, and the
    authentication path of the leaf if that is one of them. -/
theorem treehashx1_spec (leaf_idx : Nat) (tree_addr : Addr)
    (hgen : ∀ j < 2 ^ tree_height, ∀ info, I j info →
      (gen_leaf (j + idx_offset) info).1 = leaf (j + idx_offset) ∧
        I (j + 1) (gen_leaf (j + idx_offset) info).2)
    (hoffset : 2 ^ tree_height ∣ idx_offset) {auth_path : List Node}
    (hauth : auth_path.length = tree_height) {info : ι} (hinfo : I 0 info) :
    ∃ info' tree_addr', treehashx1 sha256 ctx gen_leaf auth_path leaf_idx idx_offset tree_height
        tree_addr info =
        some (merkle.node (tree_combine sha256 ctx tree_addr) leaf tree_height
            (idx_offset / 2 ^ tree_height),
          if leaf_idx < 2 ^ tree_height then
            merkle.path (tree_combine sha256 ctx tree_addr) leaf tree_height 0
              (leaf_idx + idx_offset)
          else auth_path, info', tree_addr') ∧
      I (2 ^ tree_height) info' ∧ Addr.Agree tree_bytes tree_addr' tree_addr := by
  have hstart := Treehash.filled_start (local_node sha256 ctx tree_addr idx_offset leaf) tree_addr
    leaf_idx hauth
  obtain ⟨info', s', hloop, hinfo', hs'⟩ := treehash_loop_spec sha256 ctx hgen (Nat.zero_add _)
    (Nat.two_pow_pos tree_height) hinfo hstart
  refine ⟨info', s'.tree_addr, ?_, hinfo', hs'.tree_addr⟩
  have hroot : local_node sha256 ctx tree_addr idx_offset leaf tree_height 0 =
      merkle.node (tree_combine sha256 ctx tree_addr) leaf tree_height
        (idx_offset / 2 ^ tree_height) := by
    rw [local_node, ← merkle.node_shift _ _ hoffset, Nat.zero_add]
  have hpath := Treehash.Filled.auth_path_full sha256 ctx hs' hoffset hauth
  rw [treehashx1, hloop, ← hroot, ← hpath]
  rfl

end

/-- One level of `compute_root`. -/
theorem tree_combine_buffer_of (tree_addr : Addr) {i j offset : Nat} (heven : offset % 2 = 0)
    {addr : Addr} (haddr : Addr.Agree tree_bytes addr tree_addr) (node sibling : Node) :
    thash sha256 ctx [(buffer_of j node sibling).1, (buffer_of j node sibling).2]
        (tree_node_addr addr (i + 1) (j / 2 + offset / 2)) =
      if (j + offset) % 2 = 0 then
        tree_combine sha256 ctx tree_addr (i + 1) ((j + offset) / 2) node sibling
      else tree_combine sha256 ctx tree_addr (i + 1) ((j + offset) / 2) sibling node := by
  have hindex : j / 2 + offset / 2 = (j + offset) / 2 := by omega
  rw [hindex, tree_node_addr_congr haddr, buffer_of]
  by_cases hodd : j % 2 = 1
  · rw [if_pos hodd, if_neg (by omega)]
    rfl
  · rw [if_neg hodd, if_pos (by omega)]
    rfl

theorem compute_root_loop_spec (tree_addr : Addr) {tree_height left i j offset : Nat}
    (hheight : i + 1 + left = tree_height) (hoffset : 2 ^ (left + 1) ∣ offset) {addr : Addr}
    (haddr : Addr.Agree tree_bytes addr tree_addr) (node sibling : Node) (auth_path : List UInt8) :
    ∃ addr', compute_root_loop sha256 ctx tree_height left i j offset (buffer_of j node sibling)
        auth_path addr =
        (merkle.climb (tree_combine sha256 ctx tree_addr) i (j + offset) node
          (sibling :: nodes_at left auth_path), addr') ∧
      Addr.Agree tree_bytes addr' tree_addr := by
  have heven : offset % 2 = 0 :=
    Nat.mod_eq_zero_of_dvd ((dvd_pow_self 2 (Nat.succ_ne_zero left)).trans hoffset)
  induction left generalizing i j offset addr node sibling auth_path with
  | zero =>
    refine ⟨tree_node_addr addr (i + 1) (j / 2 + offset / 2), ?_,
      (tree_node_addr_agree _ _ _).trans haddr⟩
    rw [compute_root_loop, ← hheight, tree_combine_buffer_of sha256 ctx tree_addr heven haddr]
    rfl
  | succ left ih =>
    have hhalf : 2 ^ (left + 1) ∣ offset / 2 := by
      rw [Nat.dvd_div_iff_mul_dvd (Nat.dvd_of_mod_eq_zero heven), ← Nat.pow_succ']
      exact hoffset
    obtain ⟨addr', hrun, hagree⟩ := ih (i := i + 1) (j := j / 2) (by omega) hhalf
      ((tree_node_addr_agree addr (i + 1) (j / 2 + offset / 2)).trans haddr)
      (thash sha256 ctx [(buffer_of j node sibling).1, (buffer_of j node sibling).2]
        (tree_node_addr addr (i + 1) (j / 2 + offset / 2)))
      (node_at auth_path) (auth_path.drop SPX_N)
      (Nat.mod_eq_zero_of_dvd ((dvd_pow_self 2 (Nat.succ_ne_zero left)).trans hhalf))
    refine ⟨addr', ?_, hagree⟩
    have hindex : j / 2 + offset / 2 = (j + offset) / 2 := by omega
    rw [compute_root_loop, hrun, tree_combine_buffer_of sha256 ctx tree_addr heven haddr, hindex]
    rfl

/-- `compute_root` climbs from a leaf through the nodes of its authentication path. -/
theorem compute_root_spec (leaf : Node) (leaf_idx : Nat) {idx_offset tree_height : Nat}
    (hheight : 0 < tree_height) (hoffset : 2 ^ tree_height ∣ idx_offset) (auth_path : List UInt8)
    (addr : Addr) :
    ∃ addr', compute_root sha256 ctx leaf leaf_idx idx_offset auth_path tree_height addr =
        (merkle.climb (tree_combine sha256 ctx addr) 0 (leaf_idx + idx_offset) leaf
          (nodes_at tree_height auth_path), addr') ∧
      Addr.Agree tree_bytes addr' addr := by
  obtain ⟨left, rfl⟩ := Nat.exists_eq_succ_of_ne_zero (Nat.ne_of_gt hheight)
  exact compute_root_loop_spec sha256 ctx addr (by omega) hoffset (Addr.Agree.refl _ _) leaf
    (node_at auth_path) (auth_path.drop SPX_N)

/-- With the authentication path that is stored for a leaf, `compute_root` gets to the root. -/
theorem compute_root_path (leaf : Nat → Node) {leaf_idx idx_offset tree_height : Nat}
    (hleaf : leaf_idx < 2 ^ tree_height) (hheight : 0 < tree_height)
    (hoffset : 2 ^ tree_height ∣ idx_offset) (rest : List UInt8) {addr tree_addr : Addr}
    (haddr : Addr.Agree tree_bytes addr tree_addr) :
    ∃ addr', compute_root sha256 ctx (leaf (leaf_idx + idx_offset)) leaf_idx idx_offset
        (bytes_of (merkle.path (tree_combine sha256 ctx tree_addr) leaf tree_height 0
          (leaf_idx + idx_offset)) ++ rest) tree_height addr =
        (merkle.node (tree_combine sha256 ctx tree_addr) leaf tree_height
          (idx_offset / 2 ^ tree_height), addr') ∧
      Addr.Agree tree_bytes addr' tree_addr := by
  obtain ⟨addr', hroot, haddr'⟩ := compute_root_spec sha256 ctx (leaf (leaf_idx + idx_offset))
    leaf_idx hheight hoffset (bytes_of (merkle.path (tree_combine sha256 ctx tree_addr) leaf
      tree_height 0 (leaf_idx + idx_offset)) ++ rest) addr
  refine ⟨addr', ?_, haddr'.trans haddr⟩
  have hnodes := nodes_at_bytes_of (merkle.path (tree_combine sha256 ctx tree_addr) leaf tree_height
    0 (leaf_idx + idx_offset)) rest
  rw [merkle.length_path] at hnodes
  have hclimb := merkle.climb_path (tree_combine sha256 ctx tree_addr) leaf tree_height 0
    (leaf_idx + idx_offset)
  rw [Nat.add_div_of_dvd_left hoffset, Nat.div_eq_of_lt hleaf, Nat.zero_add, Nat.zero_add] at hclimb
  rw [hroot, hnodes, tree_combine_congr sha256 ctx haddr]
  exact congrArg (·, addr') hclimb

end

end keychain.sphincs
