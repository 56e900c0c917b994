import Keychain.Library.Machine

namespace fifo

variable {α : Type}

/-- What a bounded queue is asked: to take a packet, or to give an item. -/
inductive Call (α : Type) where
  | offer (packet : List α)
  | take

/-- How it answers: whether the packet was accepted, or the item if there is one. -/
inductive Answer (α : Type) where
  | offered (accepted : Bool)
  | taken (item : Option α)

/-- A queue of at most `capacity` items. It takes a packet as a whole or not at
    all, and gives its items oldest first. -/
def step (capacity : Nat) (queue : List α) : Call α → List α × Answer α
  | .offer packet =>
    if queue.length + packet.length ≤ capacity then (queue ++ packet, .offered true)
    else (queue, .offered false)
  | .take =>
    match queue with
    | [] => ([], .taken none)
    | item :: rest => (rest, .taken (some item))

/-- The items of the packets that were accepted, in order. -/
def accepted : List (Call α) → List (Answer α) → List α
  | .offer packet :: calls, .offered true :: answers => packet ++ accepted calls answers
  | _ :: calls, _ :: answers => accepted calls answers
  | _, _ => []

/-- The items that were given out, in order. -/
def returned : List (Answer α) → List α
  | [] => []
  | .taken (some item) :: answers => item :: returned answers
  | _ :: answers => returned answers

/-- What is in the queue at first and what it accepts is what it gives out and
    what stays in it, each item once and in order. -/
theorem run_conserves (capacity : Nat) (queue : List α) (calls : List (Call α)) :
    queue ++ accepted calls (machine.run (step capacity) queue calls).2 =
      returned (machine.run (step capacity) queue calls).2 ++
        (machine.run (step capacity) queue calls).1 := by
  induction calls generalizing queue with
  | nil => simp [accepted, returned]
  | cons call calls ih =>
    rw [machine.run_cons]
    cases call with
    | offer packet =>
      by_cases hroom : queue.length + packet.length ≤ capacity
      · simp only [step, if_pos hroom, accepted, returned]
        rw [← ih, List.append_assoc]
      · simp only [step, if_neg hroom, accepted, returned]
        exact ih queue
    | take =>
      cases queue with
      | nil => exact ih []
      | cons item rest =>
        simp only [step, accepted, returned, List.cons_append]
        rw [← ih rest]

end fifo
