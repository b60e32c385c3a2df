import Mathlib.Logic.Basic

/-! Structured control flow with early returns and scope-bound cleanup, as C++ function bodies
have it. A block runs on a state and ends by falling through to the next statement (`next`),
by a `return` (`ret`), which leaves every enclosing scope through its cleanup, or not at all
(`halt`: a panic, a spin that never ends, a call that does not come back). `withCleanup body
cleanup` is an object with a destructor: `cleanup` runs on both ways out of `body`. `call` is a
function boundary: a `return` inside goes on in the caller.

`wp b Q R H s` says what the end of `b` from `s` satisfies: `Q` on falling through, `R` on a
return, and `H` (a proposition) if it halts; `H = True` reads it as partial correctness,
`H = False` as "and it does come back". There is one rewrite per combinator, so a body is
executed symbolically by `simp only` with them, and `wp_mono` carries a contract of a callee
into the caller. -/

namespace Archipelago.Lib

/-- How a block ends. -/
inductive Exit (σ : Type*)
  | next (s : σ)
  | ret (s : σ)
  | halt

/-- A block of statements over states `σ`. -/
abbrev Block (σ : Type*) := σ → Exit σ

namespace Exit

variable {σ : Type*}

/-- Go on with `k` after falling through. -/
def andThen : Exit σ → Block σ → Exit σ
  | next s, k => k s
  | ret s, _ => ret s
  | halt, _ => halt

/-- The end of a function body as its caller sees it: a return goes on. -/
def finish : Exit σ → Exit σ
  | ret s => next s
  | e => e

/-- A cleanup run on the way out of a return: the return goes on. -/
def asRet : Exit σ → Exit σ
  | next s => ret s
  | e => e

/-- The postconditions an end meets. -/
def Sat (Q R : σ → Prop) (H : Prop) : Exit σ → Prop
  | next s => Q s
  | ret s => R s
  | halt => H

@[simp] theorem sat_finish {Q R : σ → Prop} {H : Prop} (e : Exit σ) : e.finish.Sat Q R H = e.Sat Q Q H := by
  cases e <;> rfl

@[simp] theorem sat_finish_asRet {Q R : σ → Prop} {H : Prop} (e : Exit σ) :
    e.finish.asRet.Sat Q R H = e.Sat R R H := by
  cases e <;> rfl

theorem Sat.mono {Q R Q' R' : σ → Prop} {H H' : Prop} {e : Exit σ} (h : e.Sat Q R H)
    (hQ : ∀ s, Q s → Q' s) (hR : ∀ s, R s → R' s) (hH : H → H') : e.Sat Q' R' H' := by
  cases e with
  | next s => exact hQ s h
  | ret s => exact hR s h
  | halt => exact hH h

theorem Sat.and {Q R Q' R' : σ → Prop} {H H' : Prop} {e : Exit σ} (h : e.Sat Q R H)
    (h' : e.Sat Q' R' H') : e.Sat (fun s => Q s ∧ Q' s) (fun s => R s ∧ R' s) (H ∧ H') := by
  cases e with
  | next s => exact ⟨h, h'⟩
  | ret s => exact ⟨h, h'⟩
  | halt => exact ⟨h, h'⟩

end Exit

namespace Block

variable {σ α : Type*}

def skip : Block σ := Exit.next

def act (f : σ → σ) : Block σ := fun s => Exit.next (f s)

def ret : Block σ := Exit.ret

def halt : Block σ := fun _ => Exit.halt

def seq (a b : Block σ) : Block σ := fun s => (a s).andThen b

def cond (c : σ → Bool) (a b : Block σ) : Block σ := fun s => if c s = true then a s else b s

/-- An assertion: a failed check panics. -/
def check (c : σ → Bool) : Block σ := cond c skip halt

/-- A local initialised by `f`, in scope for the rest `k`. -/
def bind (f : σ → σ × α) (k : α → Block σ) : Block σ := fun s => k (f s).2 (f s).1

/-- A call of a function whose body is `b`. -/
def call (b : Block σ) : Block σ := fun s => (b s).finish

/-- An object whose destructor `cleanup` runs on every way out of `body`. -/
def withCleanup (body cleanup : Block σ) : Block σ := fun s =>
  match body s with
  | .next s => (cleanup s).finish
  | .ret s => (cleanup s).finish.asRet
  | .halt => .halt

theorem seq_assoc (a b c : Block σ) : seq (seq a b) c = seq a (seq b c) := by
  funext s
  unfold seq
  cases a s <;> rfl

/-- A statement after a local's scope may move into it. -/
theorem bind_seq (f : σ → σ × α) (k : α → Block σ) (c : Block σ) :
    bind f (fun x => seq (k x) c) = seq (bind f k) c := rfl

/-- What the end of `b` from `s` satisfies. -/
def wp (b : Block σ) (Q R : σ → Prop) (H : Prop) (s : σ) : Prop := (b s).Sat Q R H

section Rules

variable {Q R : σ → Prop} {H : Prop} {s : σ}

@[simp] theorem wp_skip : wp skip Q R H s = Q s := rfl

@[simp] theorem wp_act (f : σ → σ) : wp (act f) Q R H s = Q (f s) := rfl

@[simp] theorem wp_ret : wp ret Q R H s = R s := rfl

@[simp] theorem wp_halt : wp halt Q R H s = H := rfl

@[simp] theorem wp_seq (a b : Block σ) : wp (seq a b) Q R H s = wp a (wp b Q R H) R H s := by
  unfold wp seq
  cases a s <;> rfl

@[simp] theorem wp_cond (c : σ → Bool) (a b : Block σ) :
    wp (cond c a b) Q R H s = if c s = true then wp a Q R H s else wp b Q R H s := by
  unfold wp cond
  split <;> rfl

@[simp] theorem wp_check (c : σ → Bool) : wp (check c) Q R H s = if c s = true then Q s else H := by
  rw [check, wp_cond, wp_skip, wp_halt]

@[simp] theorem wp_bind (f : σ → σ × α) (k : α → Block σ) :
    wp (bind f k) Q R H s = wp (k (f s).2) Q R H (f s).1 := rfl

@[simp] theorem wp_call (b : Block σ) : wp (call b) Q R H s = wp b Q Q H s := by
  unfold wp call
  exact Exit.sat_finish _

@[simp] theorem wp_withCleanup (body cleanup : Block σ) :
    wp (withCleanup body cleanup) Q R H s = wp body (wp cleanup Q Q H) (wp cleanup R R H) H s := by
  unfold wp withCleanup
  cases body s with
  | next s' => exact Exit.sat_finish _
  | ret s' => exact Exit.sat_finish_asRet _
  | halt => rfl

/-- The consequence rule. -/
theorem wp_mono {b : Block σ} {Q' R' : σ → Prop} {H' : Prop} (h : wp b Q R H s)
    (hQ : ∀ s, Q s → Q' s) (hR : ∀ s, R s → R' s) (hH : H → H') : wp b Q' R' H' s :=
  Exit.Sat.mono h hQ hR hH

end Rules

end Block

end Archipelago.Lib
