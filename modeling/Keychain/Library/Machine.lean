import Mathlib.Data.List.Basic
import Mathlib.Order.Basic

namespace machine

variable {State Abstract Input Output : Type}

/-- Run a deterministic machine over a sequence of inputs, collecting what each
    step puts out. -/
def run (step : State → Input → State × Output) : State → List Input → State × List Output
  | state, [] => (state, [])
  | state, input :: rest =>
    let here := step state input
    let later := run step here.1 rest
    (later.1, here.2 :: later.2)

@[simp] theorem run_nil (step : State → Input → State × Output) (state : State) :
    run step state [] = (state, []) := rfl

@[simp] theorem run_cons (step : State → Input → State × Output) (state : State)
    (input : Input) (rest : List Input) :
    run step state (input :: rest) =
      ((run step (step state input).1 rest).1,
        (step state input).2 :: (run step (step state input).1 rest).2) := rfl

/-- Running two input sequences one after the other. -/
theorem run_append (step : State → Input → State × Output) (state : State)
    (first second : List Input) :
    run step state (first ++ second) =
      ((run step (run step state first).1 second).1,
        (run step state first).2 ++ (run step (run step state first).1 second).2) := by
  induction first generalizing state with
  | nil => simp
  | cons input rest ih => simp [ih]

/-- Each input puts out something. -/
theorem run_length (step : State → Input → State × Output) (state : State) (inputs : List Input) :
    (run step state inputs).2.length = inputs.length := by
  induction inputs generalizing state with
  | nil => rfl
  | cons input rest ih => rw [run_cons, List.length_cons, List.length_cons, ih]

/-- A state is reached by a run if some initial part of the inputs ends in it. -/
def Reached (step : State → Input → State × Output) (start : State) (inputs : List Input)
    (state : State) : Prop :=
  ∃ before after, inputs = before ++ after ∧ (run step start before).1 = state

/-- What every step preserves holds at the end of every run. The steps may rely
    on a condition `Allowed` that each input meets in the state it is given in. -/
theorem run_invariant (step : State → Input → State × Output) (Inv : State → Prop)
    (Allowed : Input → Prop)
    (hstep : ∀ state input, Inv state → Allowed input → Inv (step state input).1)
    (start : State) (inputs : List Input) (hinv : Inv start)
    (hallowed : ∀ input ∈ inputs, Allowed input) :
    Inv (run step start inputs).1 := by
  induction inputs generalizing start with
  | nil => exact hinv
  | cons input rest ih =>
    have hnext := hstep start input hinv (hallowed input (by simp))
    exact ih _ hnext fun other hother => hallowed other (by simp [hother])

/-- A run in which each input is allowed in the state that it is given in. -/
def Admits (step : State → Input → State × Output) (Allowed : State → Input → Prop) :
    State → List Input → Prop
  | _, [] => True
  | state, input :: rest => Allowed state input ∧ Admits step Allowed (step state input).1 rest

instance admitsDecidable (step : State → Input → State × Output) (Allowed : State → Input → Prop)
    [∀ state input, Decidable (Allowed state input)] :
    ∀ state inputs, Decidable (Admits step Allowed state inputs)
  | _, [] => .isTrue trivial
  | state, input :: rest =>
    have := admitsDecidable step Allowed (step state input).1 rest
    inferInstanceAs (Decidable (Allowed state input ∧ Admits step Allowed (step state input).1 rest))

theorem admits_append (step : State → Input → State × Output) (Allowed : State → Input → Prop)
    (start : State) (first second : List Input) :
    Admits step Allowed start (first ++ second) ↔
      Admits step Allowed start first ∧ Admits step Allowed (run step start first).1 second := by
  induction first generalizing start with
  | nil => simp [Admits]
  | cons input rest ih => simp [Admits, ih, and_assoc]

theorem admits_mono (step : State → Input → State × Output) {First Second : State → Input → Prop}
    (hweaker : ∀ state input, First state input → Second state input) {start : State}
    {inputs : List Input} (h : Admits step First start inputs) :
    Admits step Second start inputs := by
  induction inputs generalizing start with
  | nil => trivial
  | cons input rest ih => exact ⟨hweaker _ _ h.1, ih h.2⟩

theorem admits_and (step : State → Input → State × Output) {First Second : State → Input → Prop}
    {start : State} {inputs : List Input} (hfirst : Admits step First start inputs)
    (hsecond : Admits step Second start inputs) :
    Admits step (fun state input => First state input ∧ Second state input) start inputs := by
  induction inputs generalizing start with
  | nil => trivial
  | cons input rest ih =>
    exact ⟨⟨hfirst.1, hsecond.1⟩, ih hfirst.2 hsecond.2⟩

/-- An invariant whose step relies on the state and the input together holds in
    every state that such a run reaches. -/
theorem reached_invariant (step : State → Input → State × Output) (Inv : State → Prop)
    (Allowed : State → Input → Prop)
    (hstep : ∀ state input, Inv state → Allowed state input → Inv (step state input).1)
    {start state : State} {inputs : List Input} (hinv : Inv start)
    (hadmits : Admits step Allowed start inputs) (hreached : Reached step start inputs state) :
    Inv state := by
  obtain ⟨before, after, rfl, rfl⟩ := hreached
  induction before generalizing start with
  | nil => exact hinv
  | cons input rest ih => exact ih (hstep start input hinv hadmits.1) hadmits.2

/-- What every step puts out is good if it is so in each state that keeps an
    invariant. -/
theorem run_outputs (step : State → Input → State × Output) (Inv : State → Prop)
    (Allowed : State → Input → Prop) (Good : Output → Prop)
    (hstep : ∀ state input, Inv state → Allowed state input →
      Inv (step state input).1 ∧ Good (step state input).2)
    {start : State} {inputs : List Input} (hinv : Inv start)
    (hadmits : Admits step Allowed start inputs) : ∀ output ∈ (run step start inputs).2, Good output := by
  induction inputs generalizing start with
  | nil => simp
  | cons input rest ih =>
    obtain ⟨hnext, hgood⟩ := hstep start input hinv hadmits.1
    intro output houtput
    obtain rfl | hrest := List.mem_cons.mp houtput
    · exact hgood
    · exact ih hnext hadmits.2 output hrest

/-- Values that a run puts out never decrease if each lies between the floors
    of the states before and after its step, and the floor never falls. -/
theorem run_pairwise_le {Value : Type} [Preorder Value] (step : State → Input → State × Output)
    (Inv : State → Prop) (Allowed : State → Input → Prop) (floor : State → Value)
    (value : Output → Option Value)
    (hstep : ∀ state input, Inv state → Allowed state input →
      Inv (step state input).1 ∧ floor state ≤ floor (step state input).1 ∧
        ∀ v ∈ value (step state input).2, floor state ≤ v ∧ v ≤ floor (step state input).1)
    {start : State} {inputs : List Input} (hinv : Inv start)
    (hadmits : Admits step Allowed start inputs) :
    ((run step start inputs).2.filterMap value).Pairwise (· ≤ ·) ∧
      ∀ v ∈ (run step start inputs).2.filterMap value, floor start ≤ v := by
  induction inputs generalizing start with
  | nil => simp
  | cons input rest ih =>
    obtain ⟨hnext, hfloor, hvalue⟩ := hstep start input hinv hadmits.1
    obtain ⟨hsorted, habove⟩ := ih hnext hadmits.2
    rw [run_cons, List.filterMap_cons]
    cases hv : value (step start input).2 with
    | none => exact ⟨hsorted, fun v hmem => le_trans hfloor (habove v hmem)⟩
    | some v =>
      obtain ⟨hlow, hhigh⟩ := hvalue v hv
      refine ⟨List.pairwise_cons.mpr ⟨fun w hw => le_trans hhigh (habove w hw), hsorted⟩, ?_⟩
      intro w hw
      obtain rfl | hrest := List.mem_cons.mp hw
      · exact hlow
      · exact le_trans hfloor (habove w hrest)

/-- A simulation step lifts to runs: related machines put out the same
    sequence and end in related states, if only allowed inputs are given. -/
theorem run_refines_where (step : State → Input → State × Output)
    (spec : Abstract → Input → Abstract × Output) (Rel : State → Abstract → Prop)
    (Allowed : Input → Prop)
    (hstep : ∀ state abstract input, Rel state abstract → Allowed input →
      (step state input).2 = (spec abstract input).2 ∧
        Rel (step state input).1 (spec abstract input).1)
    (start : State) (abstract : Abstract) (inputs : List Input) (hrel : Rel start abstract)
    (hallowed : ∀ input ∈ inputs, Allowed input) :
    (run step start inputs).2 = (run spec abstract inputs).2 ∧
      Rel (run step start inputs).1 (run spec abstract inputs).1 := by
  induction inputs generalizing start abstract with
  | nil => exact ⟨rfl, hrel⟩
  | cons input rest ih =>
    obtain ⟨hout, hnext⟩ := hstep start abstract input hrel (hallowed input (by simp))
    obtain ⟨houts, hend⟩ := ih _ _ hnext fun other hother => hallowed other (by simp [hother])
    exact ⟨by simp [hout, houts], by simpa using hend⟩

theorem run_refines (step : State → Input → State × Output)
    (spec : Abstract → Input → Abstract × Output) (Rel : State → Abstract → Prop)
    (hstep : ∀ state abstract input, Rel state abstract →
      (step state input).2 = (spec abstract input).2 ∧
        Rel (step state input).1 (spec abstract input).1)
    (start : State) (abstract : Abstract) (inputs : List Input) (hrel : Rel start abstract) :
    (run step start inputs).2 = (run spec abstract inputs).2 ∧
      Rel (run step start inputs).1 (run spec abstract inputs).1 :=
  run_refines_where step spec Rel (fun _ => True) (fun state abstract input h _ => hstep state abstract input h)
    start abstract inputs hrel fun _ _ => trivial

/-- Recoding what each step puts out recodes what a run puts out. -/
theorem run_map_output {Recoded : Type} (step : State → Input → State × Output)
    (recode : Output → Recoded) (start : State) (inputs : List Input) :
    run (fun state input => ((step state input).1, recode (step state input).2)) start inputs =
      ((run step start inputs).1, (run step start inputs).2.map recode) := by
  induction inputs generalizing start with
  | nil => rfl
  | cons input rest ih => simp [ih]

/-- From `before` to `after`, a machine makes the step for a call and shows its
    answer, or nothing happens where there is no call. -/
def Follows {Call Answer : Type} (spec : Abstract → Call → Abstract × Answer) (before : Abstract) :
    Option Call → Abstract → Option Answer → Prop
  | none, after, shown => after = before ∧ shown = none
  | some call, after, shown => after = (spec before call).1 ∧ shown = some (spec before call).2

/-- One part of a machine, seen through the inputs that concern it and what is put
    out for these, is a machine of its own. -/
theorem run_project {Call Answer : Type} (step : State → Input → State × Output)
    (spec : Abstract → Call → Abstract × Answer) (Inv : State → Prop) (part : State → Abstract)
    (concerns : Input → Option Call) (shown : Output → Option Answer)
    (hstep : ∀ state input, Inv state → Inv (step state input).1 ∧
      Follows spec (part state) (concerns input) (part (step state input).1) (shown (step state input).2))
    {start : State} (hinv : Inv start) (inputs : List Input) :
    part (run step start inputs).1 = (run spec (part start) (inputs.filterMap concerns)).1 ∧
      (run step start inputs).2.filterMap shown =
        (run spec (part start) (inputs.filterMap concerns)).2 := by
  induction inputs generalizing start with
  | nil => exact ⟨rfl, rfl⟩
  | cons input rest ih =>
    obtain ⟨hnext, hpart⟩ := hstep start input hinv
    obtain ⟨hend, hanswers⟩ := ih hnext
    rw [run_cons, List.filterMap_cons, List.filterMap_cons]
    cases hconcerns : concerns input with
    | none =>
      rw [hconcerns] at hpart
      obtain ⟨hsame, hsilent⟩ := hpart
      rw [hsame] at hend hanswers
      rw [hsilent]
      exact ⟨hend, hanswers⟩
    | some call =>
      rw [hconcerns] at hpart
      obtain ⟨hmoved, hanswer⟩ := hpart
      rw [hmoved] at hend hanswers
      rw [hanswer, run_cons]
      exact ⟨hend, congrArg _ hanswers⟩

end machine
