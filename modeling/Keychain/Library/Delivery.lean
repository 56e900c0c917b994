import Mathlib.Data.List.Nodup
import Mathlib.Data.List.Basic

namespace delivery

variable {α : Type}

/-- The `count` cells of a memory from an address on. -/
def read (memory : Nat → α) (address : Nat) : Nat → List α
  | 0 => []
  | count + 1 => memory address :: read memory (address + 1) count

@[simp] theorem length_read (memory : Nat → α) (address count : Nat) :
    (read memory address count).length = count := by
  induction count generalizing address with
  | zero => rfl
  | succ count ih => simp [read, ih]

theorem read_add (memory : Nat → α) (address first second : Nat) :
    read memory address (first + second) =
      read memory address first ++ read memory (address + first) second := by
  induction first generalizing address with
  | zero => simp [read]
  | succ first ih =>
    have hshift : address + 1 + first = address + (first + 1) := by omega
    rw [Nat.add_right_comm, read, read, ih, hshift, List.cons_append]

theorem take_read (memory : Nat → α) (address : Nat) {first count : Nat} (h : first ≤ count) :
    (read memory address count).take first = read memory address first := by
  obtain ⟨rest, rfl⟩ := Nat.exists_eq_add_of_le h
  rw [read_add, List.take_left' (length_read ..)]

theorem read_congr {memory other : Nat → α} {address count : Nat}
    (h : ∀ a, address ≤ a → a < address + count → memory a = other a) :
    read memory address count = read other address count := by
  induction count generalizing address with
  | zero => rfl
  | succ count ih =>
    rw [read, read, h address (Nat.le_refl _) (by omega), ih fun a ha hlt => h a (by omega) (by omega)]

/-- A part of a buffer that still holds its bytes. -/
theorem read_slice {memory : Nat → α} {address : Nat} {bytes : List α}
    (h : read memory address bytes.length = bytes) {start count : Nat}
    (hle : start + count ≤ bytes.length) :
    read memory (address + start) count = (bytes.drop start).take count := by
  obtain ⟨rest, hrest⟩ := Nat.exists_eq_add_of_le hle
  rw [hrest, read_add, read_add] at h
  rw [← h]
  simp [List.append_assoc]

theorem getElem_read (memory : Nat → α) (address count i : Nat)
    (hi : i < (read memory address count).length) :
    (read memory address count)[i] = memory (address + i) := by
  induction count generalizing address i with
  | zero => exact absurd hi (Nat.not_lt_zero _)
  | succ count ih =>
    cases i with
    | zero => rfl
    | succ i =>
      have hnext := ih (address + 1) i (by simpa [read] using hi)
      rw [Nat.add_right_comm, Nat.add_assoc] at hnext
      exact hnext

/-- A memory after bytes have been stored from an address on. -/
def write (memory : Nat → α) (address : Nat) (bytes : List α) : Nat → α := fun a =>
  if address ≤ a then (bytes[a - address]?).getD (memory a) else memory a

theorem read_write (memory : Nat → α) (address : Nat) (bytes : List α) {count : Nat}
    (hcount : count ≤ bytes.length) :
    read (write memory address bytes) address count = bytes.take count := by
  apply List.ext_getElem
  · rw [length_read, List.length_take, Nat.min_eq_left hcount]
  · intro i hi hi'
    rw [length_read] at hi
    rw [getElem_read, List.getElem_take, write, if_pos (Nat.le_add_right _ _), Nat.add_sub_cancel_left,
      List.getElem?_eq_getElem (by omega), Option.getD_some]

theorem write_beyond (memory : Nat → α) {address a : Nat} {bytes : List α}
    (h : address + bytes.length ≤ a) : write memory address bytes a = memory a := by
  rw [write, if_pos (by omega), List.getElem?_eq_none (by omega), Option.getD_none]

inductive Outcome where
  | pending
  | sent
  | abandoned
  deriving DecidableEq

/-- A buffer offered for sending, and what has become of it. -/
structure Offer (α : Type) where
  address : Nat
  bytes : List α
  outcome : Outcome
  deriving DecidableEq

/-- What is on the wire comes in contiguous pieces, at most one for each offer
    and made of its bytes from the first on. The piece of an offer that is
    reported as sent is the whole of it. -/
structure Attributed (offers : List (Offer α)) (pieces : List (Nat × List α)) : Prop where
  once : (pieces.map Prod.fst).Nodup
  own_bytes : ∀ piece ∈ pieces, ∃ o, offers[piece.1]? = some o ∧ piece.2 <+: o.bytes
  sent_whole : ∀ i o, offers[i]? = some o → o.outcome = .sent → (i, o.bytes) ∈ pieces

def ExactlyOnce (offers : List (Offer α)) (wire : List α) : Prop :=
  ∃ pieces, wire = pieces.flatMap Prod.snd ∧ Attributed offers pieces

/-- What is reported as sent is on the wire, at least. -/
theorem ExactlyOnce.mem_wire {offers : List (Offer α)} {wire : List α} (h : ExactlyOnce offers wire)
    {i : Nat} {o : Offer α} (ho : offers[i]? = some o) (hsent : o.outcome = .sent) :
    ∀ byte ∈ o.bytes, byte ∈ wire := by
  obtain ⟨pieces, rfl, hattributed⟩ := h
  intro byte hbyte
  exact List.mem_flatMap.mpr ⟨_, hattributed.sent_whole i o ho hsent, hbyte⟩

def settle (offers : List (Offer α)) (i : Nat) (outcome : Outcome) : List (Offer α) :=
  offers.modify i fun o => { o with outcome }

theorem getElem?_settle (offers : List (Offer α)) (i j : Nat) (outcome : Outcome) :
    (settle offers i outcome)[j]? =
      if i = j then offers[j]?.map fun o => { o with outcome } else offers[j]? := by
  rw [settle, List.getElem?_modify]
  split <;> simp

theorem offered_cases {offers : List (Offer α)} {new o : Offer α} {j : Nat}
    (ho : (offers ++ [new])[j]? = some o) :
    offers[j]? = some o ∨ (j = offers.length ∧ o = new) := by
  rw [List.getElem?_append] at ho
  split at ho
  · exact .inl ho
  · rw [List.getElem?_singleton] at ho
    split at ho
    · exact .inr ⟨by omega, (Option.some.inj ho).symm⟩
    · cases ho

/-- Settling an offer changes no buffer. -/
theorem settled_offer {offers : List (Offer α)} {j : Nat} {o : Offer α} (ho : offers[j]? = some o)
    (i : Nat) (outcome : Outcome) :
    ∃ o', (settle offers i outcome)[j]? = some o' ∧ o'.address = o.address ∧ o'.bytes = o.bytes := by
  rw [getElem?_settle, ho]
  split
  · exact ⟨_, rfl, rfl, rfl⟩
  · exact ⟨o, rfl, rfl, rfl⟩

/-- The state of a sender that has one offer in flight at a time, together with
    the piece of it that is on the wire: all other pieces belong to offers that
    nobody tries to send any more. -/
structure Booked (offers : List (Offer α)) (wire : List α) (done : List (Nat × List α))
    (flight : Option (Nat × List α)) : Prop where
  wire_eq : wire = (done ++ flight.toList).flatMap Prod.snd
  attributed : Attributed offers (done ++ flight.toList)
  pending_not_done : ∀ i o, offers[i]? = some o → o.outcome = .pending → i ∉ done.map Prod.fst
  flight_unsent : ∀ piece ∈ flight, ∀ o, offers[piece.1]? = some o → o.outcome ≠ .sent

section

variable {offers : List (Offer α)} {wire : List α} {done : List (Nat × List α)} {i : Nat}
  {o : Offer α}

theorem booked_nil : Booked ([] : List (Offer α)) [] [] none where
  wire_eq := rfl
  attributed := ⟨List.nodup_nil, by simp, by simp⟩
  pending_not_done := by simp
  flight_unsent := by simp

theorem Booked.exactly_once {flight : Option (Nat × List α)} (h : Booked offers wire done flight) :
    ExactlyOnce offers wire :=
  ⟨_, h.wire_eq, h.attributed⟩

/-- A new offer has nothing on the wire yet. -/
theorem Booked.offer {flight : Option (Nat × List α)} (h : Booked offers wire done flight)
    (address : Nat) (bytes : List α) :
    Booked (offers ++ [⟨address, bytes, .pending⟩]) wire done flight := by
  have hold : ∀ piece ∈ done ++ flight.toList, piece.1 < offers.length := by
    intro piece hpiece
    obtain ⟨o, ho, -⟩ := h.attributed.own_bytes piece hpiece
    exact (List.getElem?_eq_some_iff.mp ho).1
  refine ⟨h.wire_eq, ⟨h.attributed.once, ?_, ?_⟩, ?_, ?_⟩
  · intro piece hpiece
    obtain ⟨o, ho, hprefix⟩ := h.attributed.own_bytes piece hpiece
    exact ⟨o, by rw [List.getElem?_append_left (hold piece hpiece), ho], hprefix⟩
  · intro j o ho hsent
    obtain hj | ⟨-, rfl⟩ := offered_cases ho
    · exact h.attributed.sent_whole j o hj hsent
    · cases hsent
  · intro j o ho hpending hdone
    obtain hj | ⟨rfl, -⟩ := offered_cases ho
    · exact h.pending_not_done j o hj hpending hdone
    · obtain ⟨piece, hpiece, heq⟩ := List.mem_map.mp hdone
      have hlt := hold piece (List.mem_append_left _ hpiece)
      omega
  · intro piece hpiece o ho hsent
    obtain hj | ⟨-, rfl⟩ := offered_cases ho
    · exact h.flight_unsent piece hpiece o hj hsent
    · cases hsent

/-- A pending offer takes off with the first bytes it puts on the wire. -/
theorem Booked.begin (h : Booked offers wire done none) (ho : offers[i]? = some o)
    (hpending : o.outcome = .pending) {front : List α} (hfront : front <+: o.bytes) :
    Booked offers (wire ++ front) done (some (i, front)) := by
  have hnew := h.pending_not_done i o ho hpending
  have hpieces : done ++ (none : Option (Nat × List α)).toList = done := List.append_nil done
  have hattributed := h.attributed
  rw [hpieces] at hattributed
  refine ⟨?_, ⟨?_, ?_, ?_⟩, h.pending_not_done, ?_⟩
  · rw [h.wire_eq, hpieces]
    simp
  · rw [List.map_append]
    refine List.nodup_append.mpr ⟨hattributed.once, by simp, ?_⟩
    intro j hj k hk hjk
    rw [Option.toList_some, List.map_cons, List.map_nil, List.mem_singleton] at hk
    rw [hjk, hk] at hj
    exact hnew hj
  · intro piece hpiece
    obtain hmem | hmem := List.mem_append.mp hpiece
    · exact hattributed.own_bytes piece hmem
    · rw [Option.toList_some, List.mem_singleton] at hmem
      subst hmem
      exact ⟨o, ho, hfront⟩
  · intro j o' ho' hsent
    exact List.mem_append_left _ (hattributed.sent_whole j o' ho' hsent)
  · intro piece hpiece o' ho' hsent
    cases hpiece
    rw [ho] at ho'
    cases ho'
    rw [hpending] at hsent
    cases hsent

/-- The offer in flight puts more of its bytes on the wire. -/
theorem Booked.extend {front more : List α} (h : Booked offers wire done (some (i, front)))
    (ho : offers[i]? = some o) (hmore : front ++ more <+: o.bytes) :
    Booked offers (wire ++ more) done (some (i, front ++ more)) := by
  have hunsent := h.flight_unsent (i, front) rfl o ho
  refine ⟨?_, ⟨?_, ?_, ?_⟩, h.pending_not_done, ?_⟩
  · rw [h.wire_eq]
    simp
  · simpa using h.attributed.once
  · intro piece hpiece
    obtain hmem | hmem := List.mem_append.mp hpiece
    · exact h.attributed.own_bytes piece (List.mem_append_left _ hmem)
    · rw [Option.toList_some, List.mem_singleton] at hmem
      subst hmem
      exact ⟨o, ho, hmore⟩
  · intro j o' ho' hsent
    have hmem := h.attributed.sent_whole j o' ho' hsent
    obtain hdone | hflight := List.mem_append.mp hmem
    · exact List.mem_append_left _ hdone
    · rw [Option.toList_some, List.mem_singleton] at hflight
      cases hflight
      rw [ho] at ho'
      cases ho'
      exact absurd hsent hunsent
  · intro piece hpiece o' ho' hsent
    cases hpiece
    rw [ho] at ho'
    cases ho'
    exact hunsent hsent

/-- The offer in flight is all on the wire, and is reported as sent. -/
theorem Booked.sent (h : Booked offers wire done (some (i, o.bytes))) (ho : offers[i]? = some o) :
    Booked (settle offers i .sent) wire (done ++ [(i, o.bytes)]) none := by
  refine ⟨?_, ⟨?_, ?_, ?_⟩, ?_, by simp⟩
  · simpa using h.wire_eq
  · simpa using h.attributed.once
  · intro piece hpiece
    obtain ⟨o₁, ho₁, hprefix⟩ := h.attributed.own_bytes piece (by simpa using hpiece)
    obtain ⟨o₂, ho₂, -, hbytes⟩ := settled_offer ho₁ i .sent
    exact ⟨o₂, ho₂, hbytes ▸ hprefix⟩
  · intro j o' ho' hsent
    rw [getElem?_settle] at ho'
    split at ho'
    · rename_i heq
      subst heq
      rw [ho] at ho'
      cases ho'
      simp
    · simpa using h.attributed.sent_whole j o' ho' hsent
  · intro j o' ho' hpending hmem
    rw [getElem?_settle] at ho'
    split at ho'
    · rename_i heq
      subst heq
      rw [ho] at ho'
      cases ho'
      cases hpending
    · rename_i hne
      have hdone := h.pending_not_done j o' ho' hpending
      simp only [List.map_append, List.mem_append, List.map_cons, List.map_nil, List.mem_singleton] at hmem
      obtain hmem | hmem := hmem
      · exact hdone hmem
      · exact hne hmem.symm

/-- Nobody waits for an abandoned offer, so its piece can be left as it is. -/
theorem Booked.leave {front : List α} (h : Booked offers wire done (some (i, front)))
    (ho : offers[i]? = some o) (habandoned : o.outcome = .abandoned) :
    Booked offers wire (done ++ [(i, front)]) none := by
  refine ⟨?_, ?_, ?_, by simp⟩
  · simpa using h.wire_eq
  · simpa using h.attributed
  · intro j o' ho' hpending hmem
    simp only [List.map_append, List.mem_append, List.map_cons, List.map_nil, List.mem_singleton] at hmem
    obtain hmem | rfl := hmem
    · exact h.pending_not_done j o' ho' hpending hmem
    · rw [ho] at ho'
      cases ho'
      rw [habandoned] at hpending
      cases hpending

/-- Giving up on a pending offer changes nothing on the wire. -/
theorem Booked.abandon {flight : Option (Nat × List α)} (h : Booked offers wire done flight)
    (i : Nat) : Booked (settle offers i .abandoned) wire done flight := by
  have hsame : ∀ (j : Nat) (o' : Offer α), (settle offers i .abandoned)[j]? = some o' →
      o'.outcome = .abandoned ∨ offers[j]? = some o' := by
    intro j o' ho'
    rw [getElem?_settle] at ho'
    split at ho'
    · obtain ⟨o, -, rfl⟩ := Option.map_eq_some_iff.mp ho'
      exact .inl rfl
    · exact .inr ho'
  refine ⟨h.wire_eq, ⟨h.attributed.once, ?_, ?_⟩, ?_, ?_⟩
  · intro piece hpiece
    obtain ⟨o₁, ho₁, hprefix⟩ := h.attributed.own_bytes piece hpiece
    obtain ⟨o₂, ho₂, -, hbytes⟩ := settled_offer ho₁ i .abandoned
    exact ⟨o₂, ho₂, hbytes ▸ hprefix⟩
  · intro j o' ho' hsent
    obtain habandoned | hold := hsame j o' ho'
    · rw [habandoned] at hsent
      cases hsent
    · exact h.attributed.sent_whole j o' hold hsent
  · intro j o' ho' hpending
    obtain habandoned | hold := hsame j o' ho'
    · rw [habandoned] at hpending
      cases hpending
    · exact h.pending_not_done j o' hold hpending
  · intro piece hpiece o' ho' hsent
    obtain habandoned | hold := hsame piece.1 o' ho'
    · rw [habandoned] at hsent
      cases hsent
    · exact h.flight_unsent piece hpiece o' hold hsent

end

end delivery
