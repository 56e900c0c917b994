import Keychain.Sphincs.Hash
import Mathlib.Data.List.GetD

namespace keychain.sphincs

/-- The two addresses differ at most in the bytes listed. -/
def Addr.Agree (free : List Nat) (a b : Addr) : Prop :=
  ∀ i, (hi : i < 32) → i ∉ free → a[i] = b[i]

theorem Addr.Agree.refl (free : List Nat) (a : Addr) : Addr.Agree free a a :=
  fun _ _ _ => rfl

theorem Addr.Agree.symm {free : List Nat} {a b : Addr} (h : Addr.Agree free a b) :
    Addr.Agree free b a :=
  fun i hi hfree => (h i hi hfree).symm

theorem Addr.Agree.trans {free : List Nat} {a b c : Addr} (hab : Addr.Agree free a b)
    (hbc : Addr.Agree free b c) : Addr.Agree free a c :=
  fun i hi hfree => (hab i hi hfree).trans (hbc i hi hfree)

theorem Addr.Agree.mono {free more : List Nat} {a b : Addr} (h : Addr.Agree free a b)
    (hsub : free ⊆ more) : Addr.Agree more a b :=
  fun i hi hmore => h i hi fun hfree => hmore (hsub hfree)

theorem Addr.Agree.eq {a b : Addr} (h : Addr.Agree [] a b) : a = b :=
  Vector.ext fun i hi => h i hi (List.not_mem_nil)

theorem Addr.getElem_store (a : Addr) (offset : Nat) (bytes : List UInt8) (i : Nat) (hi : i < 32) :
    (a.store offset bytes)[i] = if offset ≤ i then bytes.getD (i - offset) a[i] else a[i] := by
  simp [Addr.store]

/-- A store makes its own bytes agree. -/
theorem Addr.Agree.store {free : List Nat} {a b : Addr} (h : Addr.Agree free a b) (offset : Nat)
    (bytes : List UInt8) :
    Addr.Agree (free.filter fun i => i < offset ∨ offset + bytes.length ≤ i)
      (a.store offset bytes) (b.store offset bytes) := by
  intro i hi hfree
  rw [Addr.getElem_store, Addr.getElem_store]
  by_cases hin : offset ≤ i ∧ i < offset + bytes.length
  · have hlt : i - offset < bytes.length := by omega
    rw [if_pos hin.1, if_pos hin.1, List.getD_eq_getElem _ _ hlt, List.getD_eq_getElem _ _ hlt]
  · have hab : a[i] = b[i] := by
      refine h i hi fun hmem => hfree (List.mem_filter.mpr ⟨hmem, ?_⟩)
      simpa using (show i < offset ∨ offset + bytes.length ≤ i by omega)
    rw [hab]

/-- A store changes its own bytes only. -/
theorem Addr.Agree.changed {free : List Nat} (a : Addr) {offset : Nat} {bytes : List UInt8}
    (h : ∀ i < bytes.length, offset + i ∈ free) : Addr.Agree free (a.store offset bytes) a := by
  intro i hi hfree
  rw [Addr.getElem_store]
  split
  · rename_i hle
    have hbeyond : bytes.length ≤ i - offset := by
      by_contra hlt
      have hmem := h (i - offset) (by omega)
      rw [Nat.add_sub_cancel' hle] at hmem
      exact hfree hmem
    rw [List.getD_eq_default _ _ hbeyond]
  · rfl

theorem Addr.Agree.store_byte {free : List Nat} {a b : Addr} {offset : Nat}
    (h : Addr.Agree (offset :: free) a b) (value : UInt8) :
    Addr.Agree free (a.store offset [value]) (b.store offset [value]) := by
  refine (h.store offset [value]).mono fun i hi => ?_
  obtain ⟨hmem, houtside⟩ := List.mem_filter.mp hi
  rw [List.length_singleton, decide_eq_true_eq] at houtside
  exact (List.mem_cons.mp hmem).resolve_left (by omega)

/-- A byte that may differ is stored on one side. -/
theorem Addr.Agree.store_byte_left {free : List Nat} {a b : Addr} (h : Addr.Agree free a b)
    (offset : Nat) (hmem : offset ∈ free) (value : UInt8) :
    Addr.Agree free (a.store offset [value]) b := by
  refine Addr.Agree.trans (Addr.Agree.changed a fun i hi => ?_) h
  rw [List.length_singleton] at hi
  rwa [Nat.lt_one_iff.mp hi, Nat.add_zero]

theorem Addr.getElem_store_byte (a : Addr) (offset : Nat) (value : UInt8) (i : Nat) (hi : i < 32) :
    (a.store offset [value])[i] = if i = offset then value else a[i] := by
  rw [Addr.getElem_store]
  by_cases hio : i = offset
  · subst hio
    rw [if_pos (Nat.le_refl i), if_pos rfl, Nat.sub_self]
    rfl
  · rw [if_neg hio]
    split
    · exact List.getD_eq_default _ _ (by rw [List.length_singleton]; omega)
    · rfl

theorem Addr.store_byte_self {a : Addr} {offset : Nat} {value : UInt8} (hoffset : offset < 32)
    (h : a[offset] = value) : a.store offset [value] = a := by
  apply Vector.ext
  intro i hi
  rw [Addr.getElem_store_byte]
  split
  · subst i
    exact h.symm
  · rfl

/-- Stores to different bytes commute. -/
theorem Addr.store_comm (a : Addr) {offset more : Nat} {bytes others : List UInt8}
    (h : offset + bytes.length ≤ more) :
    (a.store offset bytes).store more others = (a.store more others).store offset bytes := by
  apply Vector.ext
  intro i hi
  rw [Addr.getElem_store, Addr.getElem_store, Addr.getElem_store, Addr.getElem_store]
  by_cases hmore : more ≤ i
  · rw [if_pos hmore, if_pos hmore]
    split
    · have hbeyond : bytes.length ≤ i - offset := by omega
      rw [List.getD_eq_default bytes _ hbeyond, List.getD_eq_default bytes _ hbeyond]
    · rfl
  · rw [if_neg hmore, if_neg hmore]

/-- The bytes of an address that hold the height and the index of a tree node. -/
def tree_bytes : List Nat :=
  [17, 18, 19, 20, 21]

/-- The address of a node that is being hashed. -/
def tree_node_addr (tree_addr : Addr) (height index : Nat) : Addr :=
  set_tree_index (set_tree_height tree_addr height) index

@[simp] theorem length_ull_to_bytes (outlen value : Nat) :
    (ull_to_bytes outlen value).length = outlen := by
  induction outlen generalizing value with
  | zero => rfl
  | succ outlen ih => rw [ull_to_bytes, List.length_append, ih, List.length_singleton]

@[simp] theorem length_u32_to_bytes (value : Nat) : (u32_to_bytes value).length = 4 :=
  length_ull_to_bytes 4 value

theorem Addr.Agree.set_tree_index {free : List Nat} {a b : Addr}
    (h : Addr.Agree (18 :: 19 :: 20 :: 21 :: free) a b) (tree_index : Nat) :
    Addr.Agree free (set_tree_index a tree_index) (set_tree_index b tree_index) := by
  refine (h.store 18 (u32_to_bytes tree_index)).mono fun i hi => ?_
  obtain ⟨hmem, houtside⟩ := List.mem_filter.mp hi
  rw [length_u32_to_bytes, decide_eq_true_eq] at houtside
  simp only [List.mem_cons] at hmem
  rcases hmem with rfl | rfl | rfl | rfl | hfree
  · omega
  · omega
  · omega
  · omega
  · exact hfree

theorem tree_node_addr_agree (tree_addr : Addr) (height index : Nat) :
    Addr.Agree tree_bytes (tree_node_addr tree_addr height index) tree_addr := by
  have hindex : Addr.Agree tree_bytes (tree_node_addr tree_addr height index)
      (set_tree_height tree_addr height) := by
    apply Addr.Agree.changed
    rw [length_u32_to_bytes]
    decide
  refine hindex.trans (Addr.Agree.changed _ ?_)
  rw [List.length_singleton]
  decide

/-- What a node's address had in these bytes before does not matter. -/
theorem tree_node_addr_congr {a b : Addr} (h : Addr.Agree tree_bytes a b) (height index : Nat) :
    tree_node_addr a height index = tree_node_addr b height index := by
  have hstored := (h.store 17 [UInt8.ofNat height]).store 18 (u32_to_bytes index)
  rw [length_u32_to_bytes, List.length_singleton] at hstored
  exact Addr.Agree.eq hstored

end keychain.sphincs
