import Mathlib.Data.List.Basic
import Mathlib.Tactic.SplitIfs

namespace freelist

/-- A block of an arena that is cut into blocks without gaps. -/
structure Block where
  len : Nat
  free : Bool
  deriving DecidableEq

def total : List Block → Nat
  | [] => 0
  | b :: rest => b.len + total rest

/-- What the free blocks add up to. -/
def available : List Block → Nat
  | [] => 0
  | b :: rest => (if b.free then b.len else 0) + available rest

/-- The blocks in use, by their address, if the first block is at `a`. -/
def used (a : Nat) : List Block → List (Nat × Nat)
  | [] => []
  | b :: rest => if b.free then used (a + b.len) rest else (a, b.len) :: used (a + b.len) rest

/-- How far the free blocks at the front reach. -/
def front : List Block → Nat
  | [] => 0
  | b :: rest => if b.free then b.len + front rest else 0

/-- Somewhere, free blocks next to each other add up to `need`. -/
def Fits (need : Nat) : List Block → Prop
  | [] => False
  | b :: rest => need ≤ front (b :: rest) ∨ Fits need rest

/-- Going from block to block for a free one of length `need`, a free block that is too short
    is joined with a free one behind it. What has been passed comes first, and the block that
    has been found, if there is one, next. -/
def sweep (need : Nat) : List Block → List Block × List Block
  | [] => ([], [])
  | [b] => if b.free ∧ need ≤ b.len then ([], [b]) else ([b], [])
  | b :: c :: rest =>
    if b.free then
      if need ≤ b.len then ([], b :: c :: rest)
      else if c.free then sweep need (⟨b.len + c.len, true⟩ :: rest)
      else (b :: c :: (sweep need rest).1, (sweep need rest).2)
    else (b :: (sweep need (c :: rest)).1, (sweep need (c :: rest)).2)
termination_by blocks => blocks.length
decreasing_by
  · exact Nat.lt_succ_self _
  · exact Nat.lt_succ_of_lt (Nat.lt_succ_self _)
  · exact Nat.lt_succ_self _

/-- The same blocks, with some free ones joined with free ones behind them. -/
inductive Joined : List Block → List Block → Prop
  | nil : Joined [] []
  | cons (b : Block) {blocks joined : List Block} (h : Joined blocks joined) :
      Joined (b :: blocks) (b :: joined)
  | join {b c : Block} {rest joined : List Block} (hb : b.free = true) (hc : c.free = true)
      (h : Joined (⟨b.len + c.len, true⟩ :: rest) joined) : Joined (b :: c :: rest) joined

section

variable {need a : Nat} {b c : Block} {blocks first second rest : List Block}

@[simp] theorem total_nil : total [] = 0 := rfl

@[simp] theorem total_cons : total (b :: rest) = b.len + total rest := rfl

@[simp] theorem total_append : total (first ++ second) = total first + total second := by
  induction first with
  | nil => exact (Nat.zero_add _).symm
  | cons b first ih => rw [List.cons_append, total_cons, total_cons, ih, Nat.add_assoc]

theorem add_total_snoc (a : Nat) (b : Block) (blocks : List Block) :
    a + total (blocks ++ [b]) = a + total blocks + b.len := by
  rw [total_append, total_cons, total_nil, Nat.add_zero, Nat.add_assoc]

theorem available_append : available (first ++ second) = available first + available second := by
  induction first with
  | nil => exact (Nat.zero_add _).symm
  | cons b first ih => rw [List.cons_append, available, available, ih, Nat.add_assoc]

theorem available_le_total : available blocks ≤ total blocks := by
  induction blocks with
  | nil => exact Nat.le_refl 0
  | cons b rest ih =>
    rw [available, total_cons]
    split_ifs <;> omega

theorem used_append : used a (first ++ second) = used a first ++ used (a + total first) second := by
  induction first generalizing a with
  | nil => rfl
  | cons b first ih =>
    rw [List.cons_append, used, used, ih, total_cons, Nat.add_assoc]
    split_ifs <;> rfl

theorem used_of_free (h : b.free = true) : used a (b :: rest) = used (a + b.len) rest := by
  rw [used, if_pos h]

theorem used_of_used (h : b.free = false) : used a (b :: rest) = (a, b.len) :: used (a + b.len) rest := by
  rw [used, if_neg (by rw [h]; exact Bool.false_ne_true)]

theorem used_split {gap : Nat} (hb : b.free = true) (hgap : gap ≤ b.len) (before : List Block) :
    used a (before ++ ⟨gap, true⟩ :: ⟨b.len - gap, true⟩ :: rest) = used a (before ++ b :: rest) := by
  rw [used_append, used_append, used_of_free hb, used_of_free rfl, used_of_free rfl, Nat.add_assoc,
    Nat.add_sub_cancel' hgap]

/-- The blocks in use lie within the arena. -/
theorem mem_used {entry : Nat × Nat} (h : entry ∈ used a blocks) :
    a ≤ entry.1 ∧ entry.1 + entry.2 ≤ a + total blocks := by
  induction blocks generalizing a with
  | nil => cases h
  | cons b rest ih =>
    rw [used] at h
    rw [total_cons]
    split_ifs at h
    · have hrest := ih h
      omega
    · obtain rfl | hmem := List.mem_cons.mp h
      · exact ⟨Nat.le_refl a, by omega⟩
      · have hrest := ih hmem
        omega

/-- A block in use is one of the blocks. -/
theorem exists_of_mem_used {entry : Nat × Nat} (h : entry ∈ used a blocks) :
    ∃ before after, blocks = before ++ ⟨entry.2, false⟩ :: after ∧ entry.1 = a + total before := by
  induction blocks generalizing a with
  | nil => cases h
  | cons b rest ih =>
    rw [used] at h
    split_ifs at h with hfree
    · obtain ⟨before, after, rfl, haddress⟩ := ih h
      exact ⟨b :: before, after, rfl, by rw [haddress, total_cons, Nat.add_assoc]⟩
    · obtain rfl | hmem := List.mem_cons.mp h
      · refine ⟨[], rest, ?_, rfl⟩
        rw [List.nil_append, ← eq_false_of_ne_true hfree]
      · obtain ⟨before, after, rfl, haddress⟩ := ih hmem
        exact ⟨b :: before, after, rfl, by rw [haddress, total_cons, Nat.add_assoc]⟩

/-- Blocks in use do not overlap. -/
theorem used_apart {entry other : Nat × Nat} (hentry : entry ∈ used a blocks)
    (hother : other ∈ used a blocks) (hlt : entry.1 < other.1) : entry.1 + entry.2 ≤ other.1 := by
  obtain ⟨before, after, rfl, haddress⟩ := exists_of_mem_used hother
  rw [used_append, used_of_used rfl, List.mem_append, List.mem_cons] at hentry
  obtain hbefore | rfl | hafter := hentry
  · have hrange := mem_used hbefore
    omega
  · omega
  · have hrange := mem_used hafter
    omega

variable {joined : List Block}

theorem Joined.refl (blocks : List Block) : Joined blocks blocks := by
  induction blocks with
  | nil => exact .nil
  | cons b rest ih => exact .cons b ih

theorem Joined.used_eq (h : Joined blocks joined) (a : Nat) : used a joined = used a blocks := by
  induction h generalizing a with
  | nil => rfl
  | cons b h ih => rw [used, used, ih]
  | join hb hc h ih =>
    rw [ih, used_of_free hb, used_of_free hc, Nat.add_assoc]
    exact used_of_free rfl

theorem Joined.append_left (h : Joined blocks joined) (before : List Block) :
    Joined (before ++ blocks) (before ++ joined) := by
  induction before with
  | nil => exact h
  | cons b before ih => exact .cons b ih

/-- Before a free block, the blocks in use at the front end. -/
theorem exists_of_used_prefix {before after pre post : List Block}
    (hsplit : before ++ after = pre ++ b :: post) (hused : ∀ c ∈ before, c.free = false)
    (hfree : b.free = true) : ∃ between, pre = before ++ between := by
  obtain ⟨between, hpre, -⟩ | ⟨between, hbefore, hb⟩ := List.append_eq_append_iff.mp hsplit
  · exact ⟨between, hpre⟩
  · cases between with
    | nil => exact ⟨[], by rw [hbefore, List.append_nil, List.append_nil]⟩
    | cons c between =>
      obtain ⟨rfl, -⟩ := List.cons.inj hb
      have hbusy := hused b (by rw [hbefore]; exact List.mem_append_right _ List.mem_cons_self)
      rw [hfree] at hbusy
      cases hbusy

theorem sweep_joined (need : Nat) (blocks : List Block) :
    Joined blocks ((sweep need blocks).1 ++ (sweep need blocks).2) := by
  fun_induction sweep need blocks with
  | case1 => exact .nil
  | case2 b h => exact .refl _
  | case3 b h => exact .refl _
  | case4 b c rest hb hlen => exact .refl _
  | case5 b c rest hb hlen hc ih => exact .join hb hc ih
  | case6 b c rest hb hlen hc ih => exact .cons b (.cons c ih)
  | case7 b c rest hb ih => exact .cons b ih

/-- The block that has been found is free and long enough. -/
theorem sweep_found {b : Block} (h : (sweep need blocks).2 = b :: rest) :
    b.free = true ∧ need ≤ b.len := by
  fun_induction sweep need blocks with
  | case1 => cases h
  | case2 c hfits =>
    cases h
    exact hfits
  | case3 => cases h
  | case4 c d rest hc hlen =>
    cases h
    exact ⟨hc, hlen⟩
  | case5 c d rest hc hlen hd ih => exact ih h
  | case6 c d rest hc hlen hd ih => exact ih h
  | case7 c d rest hc ih => exact ih h

theorem front_of_free (h : b.free = true) : front (b :: rest) = b.len + front rest := by
  rw [front, if_pos h]

theorem front_of_used (h : b.free ≠ true) : front (b :: rest) = 0 := by
  rw [front, if_neg h]

/-- One is found if and only if there is one after all that can be joined has been joined. -/
theorem sweep_eq_nil_iff (hneed : 0 < need) (blocks : List Block) :
    (sweep need blocks).2 = [] ↔ ¬ Fits need blocks := by
  fun_induction sweep need blocks with
  | case1 => exact iff_of_true rfl id
  | case2 b h =>
    refine iff_of_false (List.cons_ne_nil _ _) (not_not.mpr (.inl ?_))
    rw [front_of_free h.1]
    exact Nat.le_add_right_of_le h.2
  | case3 b h =>
    refine iff_of_true rfl ?_
    rintro (hfront | hnone)
    · by_cases hfree : b.free = true
      · rw [front_of_free hfree] at hfront
        exact h ⟨hfree, hfront⟩
      · rw [front_of_used hfree] at hfront
        omega
    · exact hnone
  | case4 b c rest hb hlen =>
    refine iff_of_false (List.cons_ne_nil _ _) (not_not.mpr (.inl ?_))
    rw [front_of_free hb]
    exact Nat.le_add_right_of_le hlen
  | case5 b c rest hb hlen hc ih =>
    rw [ih, Fits, Fits, Fits, front_of_free hb, front_of_free hc, front_of_free rfl]
    refine not_congr ⟨?_, ?_⟩
    · rintro (hfront | hrest)
      · exact .inl (by dsimp only at hfront; omega)
      · exact .inr (.inr hrest)
    · rintro (hfront | hfront | hrest)
      · exact .inl (by dsimp only; omega)
      · exact .inl (by dsimp only; omega)
      · exact .inr hrest
  | case6 b c rest hb hlen hc ih =>
    rw [ih, Fits, Fits, front_of_free hb, front_of_used hc]
    refine not_congr ⟨fun hrest => .inr (.inr hrest), ?_⟩
    rintro (hfront | hfront | hrest)
    · omega
    · omega
    · exact hrest
  | case7 b c rest hb ih =>
    rw [ih]
    refine not_congr ⟨.inr, ?_⟩
    rintro (hfront | hrest)
    · rw [front_of_used hb] at hfront
      omega
    · exact hrest

theorem front_le_available : front blocks ≤ available blocks := by
  induction blocks with
  | nil => exact Nat.le_refl 0
  | cons b rest ih =>
    rw [front, available]
    split_ifs <;> omega

theorem Fits.le_available (h : Fits need blocks) : need ≤ available blocks := by
  induction blocks with
  | nil => cases h
  | cons b rest ih =>
    obtain hfront | hrest := h
    · exact Nat.le_trans hfront front_le_available
    · exact Nat.le_add_left_of_le (ih hrest)

/-- A used block in front makes no room. -/
theorem fits_append_of_used (hneed : 0 < need) (h : ∀ b ∈ first, b.free = false) :
    Fits need (first ++ second) ↔ Fits need second := by
  induction first with
  | nil => exact Iff.rfl
  | cons b first ih =>
    rw [List.forall_mem_cons] at h
    rw [List.cons_append, Fits, front_of_used (by rw [h.1]; exact Bool.false_ne_true), ih h.2]
    exact or_iff_right (Nat.not_le.mpr hneed)

/-- Up to there, nothing is in use. -/
theorem front_le {entry : Nat × Nat} (h : entry ∈ used a blocks) : a + front blocks ≤ entry.1 := by
  induction blocks generalizing a with
  | nil => cases h
  | cons b rest ih =>
    by_cases hfree : b.free = true
    · rw [used_of_free hfree] at h
      rw [front_of_free hfree, ← Nat.add_assoc]
      exact ih h
    · rw [front_of_used hfree]
      exact (mem_used h).1

theorem le_front {y : Nat} (hclear : ∀ entry ∈ used a blocks, y ≤ entry.1) (hend : y ≤ a + total blocks) :
    y ≤ a + front blocks := by
  induction blocks generalizing a with
  | nil => exact hend
  | cons b rest ih =>
    by_cases hfree : b.free = true
    · rw [used_of_free hfree] at hclear
      rw [front_of_free hfree, ← Nat.add_assoc]
      refine ih hclear ?_
      rwa [Nat.add_assoc]
    · rw [used_of_used (eq_false_of_ne_true hfree)] at hclear
      exact Nat.le_add_right_of_le (hclear _ List.mem_cons_self)

theorem front_le_total : front blocks ≤ total blocks := by
  induction blocks with
  | nil => exact Nat.le_refl 0
  | cons b rest ih =>
    rw [front, total_cons]
    split_ifs <;> omega

/-- There is room exactly if somewhere in the arena, that much of it is not in use. -/
theorem fits_iff_gap (hneed : 0 < need) (a : Nat) (blocks : List Block) :
    Fits need blocks ↔
      ∃ x, a ≤ x ∧ x + need ≤ a + total blocks ∧
        ∀ entry ∈ used a blocks, entry.1 + entry.2 ≤ x ∨ x + need ≤ entry.1 := by
  induction blocks generalizing a with
  | nil =>
    refine iff_of_false id ?_
    rintro ⟨x, hlow, hhigh, -⟩
    rw [total_nil] at hhigh
    omega
  | cons b rest ih =>
    constructor
    · rintro (hfront | hrest)
      · refine ⟨a, Nat.le_refl a, ?_, fun entry hentry => .inr ?_⟩
        · exact Nat.add_le_add_left (Nat.le_trans hfront front_le_total) a
        · exact Nat.le_trans (Nat.add_le_add_left hfront a) (front_le hentry)
      · obtain ⟨x, hlow, hhigh, hclear⟩ := (ih (a + b.len)).mp hrest
        refine ⟨x, by omega, by rw [total_cons]; omega, fun entry hentry => ?_⟩
        rw [used] at hentry
        split_ifs at hentry
        · exact hclear entry hentry
        · obtain rfl | hmem := List.mem_cons.mp hentry
          · exact .inl hlow
          · exact hclear entry hmem
    · rintro ⟨x, hlow, hhigh, hclear⟩
      have hrest : ∀ entry ∈ used (a + b.len) rest, entry ∈ used a (b :: rest) := by
        intro entry hentry
        rw [used]
        split_ifs
        · exact hentry
        · exact List.mem_cons_of_mem _ hentry
      by_cases hpast : a + b.len ≤ x
      · refine .inr ((ih (a + b.len)).mpr ⟨x, hpast, ?_, fun entry hentry => ?_⟩)
        · rw [total_cons] at hhigh
          omega
        · exact hclear entry (hrest entry hentry)
      · -- the gap begins in the first block, and so it is free as far as the gap reaches
        have hfirst : ∀ entry ∈ used a (b :: rest), x + need ≤ entry.1 := by
          intro entry hentry
          obtain hbefore | hafter := hclear entry hentry
          · rw [used] at hentry
            split_ifs at hentry
            · have hbegin := (mem_used hentry).1
              omega
            · obtain rfl | hmem := List.mem_cons.mp hentry
              · exact absurd hbefore hpast
              · have hbegin := (mem_used hmem).1
                omega
          · exact hafter
        have hfront := le_front hfirst hhigh
        exact .inl (by omega)

/-- No free block is long enough, and none has a free one behind it. -/
def Settled (need : Nat) (blocks : List Block) : Prop :=
  ∀ before b after, blocks = before ++ b :: after → b.free = true →
    b.len < need ∧ after.head?.any Block.free = false

theorem settled_cons :
    Settled need (b :: rest) ↔
      (b.free = true → b.len < need ∧ rest.head?.any Block.free = false) ∧ Settled need rest := by
  constructor
  · intro h
    exact ⟨h [] b rest rfl, fun before c after hsplit => h (b :: before) c after (by rw [hsplit]; rfl)⟩
  · rintro ⟨hb, hrest⟩ before c after hsplit
    cases before with
    | nil =>
      obtain ⟨rfl, rfl⟩ := List.cons.inj hsplit
      exact hb
    | cons d before =>
      obtain ⟨rfl, htail⟩ := List.cons.inj hsplit
      exact hrest before c after htail

theorem settled_append_of_used (h : ∀ b ∈ first, b.free = false) (hsecond : Settled need second) :
    Settled need (first ++ second) := by
  induction first with
  | nil => exact hsecond
  | cons b first ih =>
    rw [List.forall_mem_cons] at h
    refine settled_cons.mpr ⟨fun hfree => ?_, ih h.2⟩
    rw [h.1] at hfree
    cases hfree

/-- What has been passed without finding a block will not give one the next time either. -/
theorem sweep_settled (h : (sweep need blocks).2 = []) : Settled need (sweep need blocks).1 := by
  fun_induction sweep need blocks with
  | case1 =>
    intro before b after hsplit
    simp at hsplit
  | case2 => cases h
  | case3 b hshort =>
    refine settled_cons.mpr ⟨fun hfree => ⟨?_, rfl⟩, fun before b after hsplit => by simp at hsplit⟩
    exact Nat.not_le.mp fun hlen => hshort ⟨hfree, hlen⟩
  | case4 => cases h
  | case5 b c rest hb hlen hc ih => exact ih h
  | case6 b c rest hb hlen hc ih =>
    have hused : c.free = false := eq_false_of_ne_true hc
    refine settled_cons.mpr ⟨fun _ => ⟨Nat.not_le.mp hlen, hused⟩, settled_cons.mpr ⟨fun hfree => ?_, ih h⟩⟩
    exact absurd hfree hc
  | case7 b c rest hb ih => exact settled_cons.mpr ⟨fun hfree => absurd hfree hb, ih h⟩

end

end freelist
