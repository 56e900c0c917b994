import Mathlib.Data.List.Basic
import Mathlib.Data.List.Flatten

namespace packet

variable {α : Type} (size : Nat)

/-- The packet of a transfer that starts `i` full packets into its data. -/
def nth (data : List α) (i : Nat) : List α :=
  (data.drop (size * i)).take size

/-- The number of the last packet that carries data. -/
def last (data : List α) : Nat :=
  (data.length - 1) / size

/-- The data end with a full packet, and the receiver waits for more. -/
def Open (data : List α) (wanted : Nat) : Prop :=
  data ≠ [] ∧ wanted ≠ data.length ∧ data.length % size = 0

instance (data : List α) (wanted : Nat) : Decidable (Open size data wanted) :=
  match data with
  | [] => isFalse fun h => h.1 rfl
  | _ :: _ => decidable_of_iff (_ ∧ _) ⟨fun h => ⟨List.cons_ne_nil _ _, h⟩, fun h => h.2⟩

/-- All packets of a transfer, with an empty one that says that there is no more. -/
def all (data : List α) (wanted : Nat) : List (List α) :=
  (List.range (last size data + 1)).map (nth size data) ++ if Open size data wanted then [[]] else []

/-- A receiver of `wanted` items knows that it has got the whole transfer. -/
def Complete (wanted : Nat) (received : List (List α)) : Prop :=
  wanted ≤ received.flatten.length ∨ ∃ packet, received.getLast? = some packet ∧ packet.length < size

variable {size} {data : List α} {wanted : Nat}

theorem length_all :
    (all size data wanted).length = last size data + 1 + if Open size data wanted then 1 else 0 := by
  rw [all, List.length_append, List.length_map, List.length_range]
  split_ifs <;> rfl

theorem flatten_nth (k : Nat) : ((List.range k).map (nth size data)).flatten = data.take (size * k) := by
  induction k with
  | zero => rfl
  | succ k ih =>
    rw [List.range_succ, List.map_append, List.flatten_append, ih, Nat.mul_succ, List.take_add]
    exact congrArg _ (List.append_nil _)

/-- A packet before the last one is full. -/
theorem length_nth_of_lt {i : Nat} (hi : i < last size data) : (nth size data i).length = size := by
  have hdiv : i + 1 ≤ (data.length - 1) / size := hi
  have hsize : 0 < size := by
    by_contra hzero
    rw [Nat.eq_zero_of_not_pos hzero, Nat.div_zero] at hdiv
    exact absurd hdiv (Nat.not_succ_le_zero i)
  have hmul := (Nat.le_div_iff_mul_le hsize).mp hdiv
  rw [Nat.succ_mul, Nat.mul_comm] at hmul
  rw [nth, List.length_take, List.length_drop]
  omega

theorem length_le (hsize : 0 < size) : data.length ≤ size * (last size data + 1) := by
  have hlt := Nat.lt_mul_div_succ (data.length - 1) hsize
  rw [last]
  omega

theorem flatten_all (hsize : 0 < size) : (all size data wanted).flatten = data := by
  rw [all, List.flatten_append, flatten_nth, List.take_of_length_le (length_le hsize)]
  split_ifs
  · exact List.append_nil data
  · exact List.append_nil data

theorem getElem?_all (i : Nat) :
    (all size data wanted)[i]? =
      if i ≤ last size data then some (nth size data i)
      else if i = last size data + 1 ∧ Open size data wanted then some [] else none := by
  have hlength : ((List.range (last size data + 1)).map (nth size data)).length = last size data + 1 := by
    rw [List.length_map, List.length_range]
  rw [all]
  by_cases hi : i ≤ last size data
  · rw [if_pos hi, List.getElem?_append_left (by omega), List.getElem?_map,
      List.getElem?_range (by omega), Option.map_some]
  · rw [if_neg hi, List.getElem?_append_right (by omega), hlength]
    by_cases hopen : Open size data wanted
    · by_cases hend : i = last size data + 1
      · rw [if_pos hopen, if_pos ⟨hend, hopen⟩, hend, Nat.sub_self]
        rfl
      · rw [if_pos hopen, if_neg fun h => hend h.1]
        exact List.getElem?_eq_none (by simp; omega)
    · rw [if_neg hopen, if_neg fun h => hopen h.2]
      rfl

theorem length_nth (i : Nat) : (nth size data i).length = min size (data.length - size * i) := by
  rw [nth, List.length_take, List.length_drop]

/-- The last packet with data is full if and only if the data end with a full packet. -/
theorem length_nth_last (hsize : 0 < size) (hne : data ≠ []) :
    (nth size data (last size data)).length = size ↔ data.length % size = 0 := by
  have hpos := List.length_pos_iff.mpr hne
  have hle : data.length ≤ size * (last size data + 1) := length_le hsize
  have hmul : size * last size data ≤ data.length - 1 := Nat.mul_div_le _ _
  rw [length_nth, Nat.mul_succ] at *
  constructor
  · intro hfull
    have heq : data.length = size * (last size data + 1) := by
      rw [Nat.mul_succ]
      omega
    rw [heq, Nat.mul_mod_right]
  · intro hmod
    obtain ⟨q, hq⟩ := Nat.dvd_of_mod_eq_zero hmod
    have hlt : last size data < q := by
      refine Nat.lt_of_mul_lt_mul_left (a := size) ?_
      omega
    have hnext : size * (last size data + 1) ≤ size * q := Nat.mul_le_mul_left size hlt
    rw [Nat.mul_succ] at hnext
    omega

theorem complete_all (hsize : 0 < size) : Complete size wanted (all size data wanted) := by
  by_cases hopen : Open size data wanted
  · refine .inr ⟨[], ?_, hsize⟩
    rw [all, if_pos hopen, List.getLast?_concat]
  · have hlast : (all size data wanted).getLast? = some (nth size data (last size data)) := by
      rw [all, if_neg hopen, List.append_nil, List.range_succ, List.map_append, List.map_singleton,
        List.getLast?_concat]
    by_cases hne : data = []
    · refine .inr ⟨_, hlast, ?_⟩
      rw [length_nth, hne]
      exact Nat.lt_of_le_of_lt (Nat.min_le_right _ _) (by simpa using hsize)
    · by_cases hwanted : wanted = data.length
      · refine .inl ?_
        rw [flatten_all hsize]
        exact Nat.le_of_eq hwanted
      · refine .inr ⟨_, hlast, Nat.lt_of_le_of_ne ?_ ?_⟩
        · rw [length_nth]
          exact Nat.min_le_left _ _
        · exact fun hfull => hopen ⟨hne, hwanted, (length_nth_last hsize hne).mp hfull⟩

/-- Before its last packet, a transfer looks as if it went on. -/
theorem not_complete_take (hsize : 0 < size) (hpos : 0 < wanted) (hle : data.length ≤ wanted) {n : Nat}
    (hn : n < (all size data wanted).length) : ¬ Complete size wanted ((all size data wanted).take n) := by
  rw [length_all] at hn
  obtain rfl | ⟨i, rfl⟩ : n = 0 ∨ ∃ i, n = i + 1 := by
    cases n with
    | zero => exact .inl rfl
    | succ i => exact .inr ⟨i, rfl⟩
  · rintro (htotal | ⟨packet, hpacket, -⟩)
    · exact absurd htotal (Nat.not_le.mpr hpos)
    · cases hpacket
  · have hi : i ≤ last size data := by
      split_ifs at hn <;> omega
    have htake : (all size data wanted).take (i + 1) = (List.range (i + 1)).map (nth size data) := by
      rw [all, List.take_append_of_le_length (by simp; omega), ← List.map_take, List.take_range,
        Nat.min_eq_left (by omega)]
    have hlast : ((List.range (i + 1)).map (nth size data)).getLast? = some (nth size data i) := by
      rw [List.range_succ, List.map_append, List.map_singleton, List.getLast?_concat]
    rw [htake]
    by_cases hend : i = last size data
    · have hopen : Open size data wanted := by
        by_contra hnot
        rw [if_neg hnot] at hn
        omega
      obtain ⟨hne, hwanted, hmod⟩ := hopen
      rintro (htotal | ⟨packet, hpacket, hshort⟩)
      · rw [flatten_nth, hend, List.take_of_length_le (length_le hsize)] at htotal
        exact hwanted (Nat.le_antisymm htotal hle)
      · rw [hlast, hend] at hpacket
        cases hpacket
        exact absurd ((length_nth_last hsize hne).mpr hmod) (Nat.ne_of_lt hshort)
    · have hlt : i < last size data := Nat.lt_of_le_of_ne hi hend
      have hmul : size * (i + 1) ≤ data.length - 1 :=
        Nat.le_trans (Nat.mul_le_mul_left size hlt) (Nat.mul_div_le _ _)
      rintro (htotal | ⟨packet, hpacket, hshort⟩)
      · rw [flatten_nth, List.length_take, Nat.mul_succ] at htotal
        rw [Nat.mul_succ] at hmul
        omega
      · rw [hlast] at hpacket
        cases hpacket
        exact absurd (length_nth_of_lt hlt) (Nat.ne_of_lt hshort)

end packet
