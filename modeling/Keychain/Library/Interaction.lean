import Mathlib.Logic.Basic

namespace interaction

variable {Call Reply State Result : Type}

/-- A computation of code that cannot be read: it makes finitely many calls,
    each depending on the replies before it, and ends with a result. -/
inductive Tree (Call Reply Result : Type) where
  | done (result : Result)
  | call (c : Call) (rest : Reply → Tree Call Reply Result)

/-- Run a computation against a handler that answers its calls from a state. -/
def Tree.run (handle : Call → State → Reply × State) : Tree Call Reply Result → State → Result × State
  | .done result, s => (result, s)
  | .call c rest, s => (rest (handle c s).1).run handle (handle c s).2

@[simp] theorem Tree.run_done (handle : Call → State → Reply × State) (result : Result) (s : State) :
    (Tree.done result : Tree Call Reply Result).run handle s = (result, s) := rfl

@[simp] theorem Tree.run_call (handle : Call → State → Reply × State) (c : Call)
    (rest : Reply → Tree Call Reply Result) (s : State) :
    (Tree.call c rest).run handle s = (rest (handle c s).1).run handle (handle c s).2 := rfl

/-- What every answered call preserves, a whole computation preserves. -/
theorem Tree.run_invariant (handle : Call → State → Reply × State) (Inv : State → Prop)
    (hcall : ∀ c s, Inv s → Inv (handle c s).2) (t : Tree Call Reply Result) {s : State}
    (hinv : Inv s) : Inv (t.run handle s).2 := by
  induction t generalizing s with
  | done result => exact hinv
  | call c rest ih => exact ih _ (hcall c s hinv)

/-- A reflexive and transitive relation between the states before and after
    each call relates the states before and after the computation. -/
theorem Tree.run_related (handle : Call → State → Reply × State) (Rel : State → State → Prop)
    (hrefl : ∀ s, Rel s s) (htrans : ∀ s t u, Rel s t → Rel t u → Rel s u)
    (hcall : ∀ c s, Rel s (handle c s).2) (t : Tree Call Reply Result) (s : State) :
    Rel s (t.run handle s).2 :=
  t.run_invariant handle (Rel s) (fun c next h => htrans s next _ h (hcall c next)) (hrefl s)

/-- `Path t calls result` holds if the computation makes `calls`, given with
    their replies, and then ends with `result`. -/
inductive Path : Tree Call Reply Result → List (Call × Reply) → Result → Prop where
  | done (result : Result) : Path (.done result) [] result
  | call {c : Call} {reply : Reply} {rest : Reply → Tree Call Reply Result}
      {calls : List (Call × Reply)} {result : Result} (tail : Path (rest reply) calls result) :
      Path (.call c rest) ((c, reply) :: calls) result

/-- The calls that a computation makes of a handler, with the replies it gets. -/
def Tree.calls (handle : Call → State → Reply × State) :
    Tree Call Reply Result → State → List (Call × Reply)
  | .done _, _ => []
  | .call c rest, s => (c, (handle c s).1) :: (rest (handle c s).1).calls handle (handle c s).2

theorem Tree.path_calls (handle : Call → State → Reply × State) (t : Tree Call Reply Result) (s : State) :
    Path t (t.calls handle s) (t.run handle s).1 := by
  induction t generalizing s with
  | done result => exact .done result
  | call c rest ih => exact .call (ih _ _)

end interaction
