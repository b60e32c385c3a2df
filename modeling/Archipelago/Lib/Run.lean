import Mathlib.Logic.Basic

/-! Deterministic labelled transition systems. A step function takes a state and an
input and returns the next state and an output; `run` executes a list of inputs and
collects the outputs. Nondeterminism of the environment (an allocation that may
fail, a page the allocator picks) is carried by the inputs, so one function covers
every behaviour. The induction rules turn a one-step fact into a fact about
every run: `run_invariant` for properties of the state (`run_invariant_guarded` when the
inputs a state allows depend on it, as a `free` must name a frame handed out), `run_history` for
properties of the state together with everything the run has output so far, and
`run_trace` for the inputs and outputs together. `run_simulation` relates a run to a
run of an abstract step function through an abstraction of states and outputs.

A step that can fail (a `panic` that ends the system) is an `Except`; `Reaches` gives the states
such steps reach without failing, from inputs a guard allows, and `Reaches.invariant` is its
induction rule. -/

namespace Archipelago.Lib

variable {σ ι ο : Type*} (step : σ → ι → σ × ο)

/-- Execute the inputs in order, returning the final state and the outputs. -/
def run : σ → List ι → σ × List ο
  | s, [] => (s, [])
  | s, i :: is =>
      let r := run (step s i).1 is
      (r.1, (step s i).2 :: r.2)

/-- Inputs each allowed in the state the run has reached when it comes. -/
def Guarded (ok : σ → ι → Prop) : σ → List ι → Prop
  | _, [] => True
  | s, i :: is => ok s i ∧ Guarded ok (step s i).1 is

variable {step}

/-- Whether a list of inputs is guarded is decided input by input. -/
instance Guarded.decidable (ok : σ → ι → Prop) [∀ s i, Decidable (ok s i)] :
    ∀ (s : σ) (is : List ι), Decidable (Guarded step ok s is)
  | _, [] => isTrue trivial
  | s, i :: is =>
    haveI := Guarded.decidable ok (step s i).1 is
    inferInstanceAs (Decidable (ok s i ∧ Guarded step ok (step s i).1 is))

@[simp] theorem run_nil (s : σ) : run step s [] = (s, []) := rfl

@[simp] theorem run_cons (s : σ) (i : ι) (is : List ι) :
    run step s (i :: is) =
      ((run step (step s i).1 is).1, (step s i).2 :: (run step (step s i).1 is).2) := rfl

theorem run_append (s : σ) (is js : List ι) :
    run step s (is ++ js) =
      ((run step (run step s is).1 js).1,
        (run step s is).2 ++ (run step (run step s is).1 js).2) := by
  induction is generalizing s with
  | nil => rfl
  | cons i is ih => simp [ih]

/-- A property of states that every step keeps holds after every run. -/
theorem run_invariant (P : σ → Prop) (hstep : ∀ s i, P s → P (step s i).1) {s : σ}
    (hs : P s) (is : List ι) : P (run step s is).1 := by
  induction is generalizing s with
  | nil => exact hs
  | cons i is ih => exact ih (hstep s i hs)

/-- The same for runs whose inputs all satisfy `ok`: each step keeps the property
for the inputs it may receive. -/
theorem run_invariant_of (ok : ι → Prop) (P : σ → Prop) (hstep : ∀ s i, ok i → P s → P (step s i).1)
    {s : σ} (hs : P s) : ∀ is : List ι, (∀ i ∈ is, ok i) → P (run step s is).1
  | [], _ => hs
  | i :: is, his =>
    run_invariant_of ok P hstep (hstep s i (his i (List.mem_cons_self ..)) hs) is
      (fun j hj => his j (List.mem_cons_of_mem i hj))

/-- The same for guarded runs: each step keeps the property for the inputs the state it
is taken from allows. -/
theorem run_invariant_guarded (ok : σ → ι → Prop) (P : σ → Prop)
    (hstep : ∀ s i, ok s i → P s → P (step s i).1) {s : σ} (hs : P s) :
    ∀ is : List ι, Guarded step ok s is → P (run step s is).1
  | [], _ => hs
  | i :: is, ⟨hi, his⟩ => run_invariant_guarded ok P hstep (hstep s i hi hs) is his

/-- Every output of a run satisfies `Q` when each step from a state with the invariant `P`
outputs one that does. -/
theorem run_outputs (P : σ → Prop) (Q : ο → Prop) (hstep : ∀ s i, P s → P (step s i).1)
    (hout : ∀ s i, P s → Q (step s i).2) {s : σ} (hs : P s) (is : List ι) :
    ∀ o ∈ (run step s is).2, Q o := by
  induction is generalizing s with
  | nil => simp
  | cons i is ih =>
    intro o ho
    rw [run_cons, List.mem_cons] at ho
    rcases ho with rfl | ho
    · exact hout s i hs
    · exact ih (hstep s i hs) o ho

/-- Every output of a guarded run satisfies `Q` when each allowed step from a state with the
invariant `P` outputs one that does. -/
theorem run_outputs_guarded (ok : σ → ι → Prop) (P : σ → Prop) (Q : ο → Prop)
    (hstep : ∀ s i, ok s i → P s → P (step s i).1) (hout : ∀ s i, ok s i → P s → Q (step s i).2)
    {s : σ} (hs : P s) : ∀ is : List ι, Guarded step ok s is → ∀ o ∈ (run step s is).2, Q o
  | [], _, o, ho => by simp at ho
  | i :: is, ⟨hi, his⟩, o, ho => by
    rw [run_cons, List.mem_cons] at ho
    rcases ho with rfl | ho
    · exact hout s i hi hs
    · exact run_outputs_guarded ok P Q hstep hout (hstep s i hi hs) is his o ho

/-- A property of a state and the outputs that led to it, kept by every step, holds
after every run, with the run's outputs appended to the history. -/
theorem run_history (P : σ → List ο → Prop)
    (hstep : ∀ s os i, P s os → P (step s i).1 (os ++ [(step s i).2]))
    {s : σ} {os : List ο} (hs : P s os) (is : List ι) :
    P (run step s is).1 (os ++ (run step s is).2) := by
  induction is generalizing s os with
  | nil => simpa using hs
  | cons i is ih => simpa using ih (hstep s os i hs)

/-- The same for runs whose every input the state allows when it comes. -/
theorem run_history_guarded (ok : σ → ι → Prop) (P : σ → List ο → Prop)
    (hstep : ∀ s os i, ok s i → P s os → P (step s i).1 (os ++ [(step s i).2])) :
    ∀ {s : σ} {os : List ο} (is : List ι), Guarded step ok s is → P s os →
      P (run step s is).1 (os ++ (run step s is).2)
  | _, _, [], _, hs => by simpa using hs
  | s, os, i :: is, ⟨hi, his⟩, hs => by
    simpa using run_history_guarded ok P hstep is his (hstep s os i hi hs)

/-- The same with the inputs in the history too: each step appends its input paired with
its output. -/
theorem run_trace (P : σ → List (ι × ο) → Prop)
    (hstep : ∀ s tr i, P s tr → P (step s i).1 (tr ++ [(i, (step s i).2)]))
    {s : σ} {tr : List (ι × ο)} (hs : P s tr) (is : List ι) :
    P (run step s is).1 (tr ++ is.zip (run step s is).2) := by
  induction is generalizing s tr with
  | nil => simpa using hs
  | cons i is ih => simpa using ih (hstep s tr i hs)

/-- A run simulates a run of `step'` from the abstract state when every step does, on the
states where an invariant `P` holds: the abstraction of the final state is the abstract
final state, and the outputs map to the abstract outputs. -/
theorem run_simulation {τ ο' : Type*} {step' : τ → ι → τ × ο'} (P : σ → Prop) (abs : σ → τ)
    (obs : ο → ο') (hP : ∀ s i, P s → P (step s i).1)
    (hsim : ∀ s i, P s → abs (step s i).1 = (step' (abs s) i).1 ∧ obs (step s i).2 = (step' (abs s) i).2)
    {s : σ} (hs : P s) (is : List ι) :
    abs (run step s is).1 = (run step' (abs s) is).1 ∧
      (run step s is).2.map obs = (run step' (abs s) is).2 := by
  induction is generalizing s with
  | nil => exact ⟨rfl, rfl⟩
  | cons i is ih =>
    obtain ⟨hs₁, ho⟩ := hsim s i hs
    obtain ⟨ih₁, ih₂⟩ := ih (hP s i hs)
    rw [run_cons, run_cons, List.map_cons, ih₁, ih₂, hs₁, ho]
    exact ⟨rfl, rfl⟩

/-! ### Steps that may fail -/

/-- The states that a step function which may fail reaches from `s₀` by steps that succeed, each
on an input that `ok` allows in the state it is taken from. -/
inductive Reaches {ε : Type*} (step : σ → ι → Except ε (σ × ο)) (ok : σ → ι → Prop) (s₀ : σ) :
    σ → Prop
  | start : Reaches step ok s₀ s₀
  | step {s s' : σ} {i : ι} {o : ο} :
      Reaches step ok s₀ s → ok s i → step s i = .ok (s', o) → Reaches step ok s₀ s'

/-- A computation that may fail and then goes on succeeds only if its first part did. -/
theorem bind_eq_ok {ε α β : Type*} {e : Except ε α} {f : α → Except ε β} {b : β}
    (h : e.bind f = .ok b) : ∃ a, e = .ok a ∧ f a = .ok b := by
  cases e with
  | error x => cases h
  | ok a => exact ⟨a, rfl, h⟩

/-- The inputs in order, stopping at the first failure. -/
def runOk {ε : Type*} (step : σ → ι → Except ε (σ × ο)) : σ → List ι → Except ε σ
  | s, [] => .ok s
  | s, i :: is => (step s i).bind fun r => runOk step r.1 is

/-- A run of inputs without a failure reaches its last state. -/
theorem reaches_of_runOk {ε : Type*} {step : σ → ι → Except ε (σ × ο)} {s₀ : σ} :
    ∀ (is : List ι) {s₁ s : σ}, Reaches step (fun _ _ => True) s₀ s₁ → runOk step s₁ is = .ok s →
      Reaches step (fun _ _ => True) s₀ s := by
  intro is
  induction is with
  | nil =>
    intro s₁ s h₁ h
    cases h
    exact h₁
  | cons i is ih =>
    intro s₁ s h₁ h
    obtain ⟨r, hr, h'⟩ := bind_eq_ok h
    exact ih (Reaches.step h₁ trivial hr) h'

/-- A property of the start that every allowed and successful step keeps holds in every state
reached. -/
theorem Reaches.invariant {ε : Type*} {step : σ → ι → Except ε (σ × ο)} {ok : σ → ι → Prop}
    {s₀ : σ} (P : σ → Prop) (h₀ : P s₀)
    (hstep : ∀ s i s' o, P s → ok s i → step s i = .ok (s', o) → P s') :
    ∀ {s : σ}, Reaches step ok s₀ s → P s := by
  intro s hs
  induction hs with
  | start => exact h₀
  | step _ hok hst ih => exact hstep _ _ _ _ ih hok hst

end Archipelago.Lib
