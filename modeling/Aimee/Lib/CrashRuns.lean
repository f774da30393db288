-- SUMMARY: Programs of calls that are answered by an environment and may be cut off before any of them, with a weakest precondition.
import Mathlib.Data.Nat.Notation

/-!
# Interrupted programs

A program makes calls on a state. An answer list says how each call goes, so nothing is left to chance
in a definition; a program that finds the list empty is cut off there, which is how a crash looks from
outside. `wp` has a postcondition for a program that returns, and one for the state it is cut off in.
-/

universe u

/-- A program over answers `φ` and states `σ`. Cut off, it returns nothing. -/
def Prog (φ σ α : Type u) : Type u := List φ → σ → Option (α × List φ) × σ

namespace Prog

variable {φ σ α β γ ε : Type u}

instance : Monad (Prog φ σ) where
  pure a := fun answers s => (some (a, answers), s)
  bind m f := fun answers s =>
    match m answers s with
    | (none, s') => (none, s')
    | (some (a, rest), s') => f a rest s'

/-- One call. -/
def call (f : φ → σ → α × σ) : Prog φ σ α := fun answers s =>
  match answers with
  | [] => (none, s)
  | answer :: rest => (some ((f answer s).1, rest), (f answer s).2)

def iterateFrom (body : β → Prog φ σ (β ⊕ α)) : ℕ → β → Prog φ σ α
  | 0, _ => fun _ s => (none, s)
  | fuel + 1, b => do
      match ← body b with
      | .inl b' => iterateFrom body fuel b'
      | .inr a => pure a

/-- A loop until its body returns a result. A body that makes a call each time is never short of fuel. -/
def iterate (body : β → Prog φ σ (β ⊕ α)) (b : β) : Prog φ σ α := fun answers s =>
  iterateFrom body (answers.length + 1) b answers s

/-- The same, of a body that may throw. -/
def iterateExcept (body : β → ExceptT ε (Prog φ σ) (β ⊕ α)) (b : β) : ExceptT ε (Prog φ σ) α :=
  iterate (fun b => do
    match ← (body b).run with
    | .error e => pure (.inr (.error e))
    | .ok (.inl b') => pure (.inl b')
    | .ok (.inr a) => pure (.inr (.ok a))) b

/-- The state a program ends in, returned or cut off. -/
def final (m : Prog φ σ α) (answers : List φ) (s : σ) : σ := (m answers s).2

/-! ## Weakest precondition -/

/-- However the calls are answered, the program returns in `Q`, or it is cut off in `I`. -/
def wp (I : σ → Prop) (m : Prog φ σ α) (Q : α → σ → Prop) (s : σ) : Prop :=
  ∀ answers, match m answers s with
    | (none, s') => I s'
    | (some (a, _), s') => Q a s'

variable {I : σ → Prop} {s : σ}

variable {Q : α → σ → Prop} {a : α} {m : Prog φ σ α} {f : α → Prog φ σ β} {b : β}
     {body : β → Prog φ σ (β ⊕ α)}

theorem wp.pure (h : Q a s) : wp I (pure a : Prog φ σ α) Q s := fun _ => h

theorem wp.bind {Q : β → σ → Prop} (h : wp I m (fun a s' => wp I (f a) Q s') s) :
    wp I (m >>= f) Q s := by
  intro answers
  have hm := h answers
  change match (match m answers s with | (none, s') => (none, s') | (some (a, rest), s') => f a rest s') with
    | (none, s') => I s'
    | (some (b, _), s') => Q b s'
  rcases hrun : m answers s with ⟨_ | ⟨a, rest⟩, s'⟩
  · rw [hrun] at hm
    exact hm
  · rw [hrun] at hm
    exact hm rest

theorem wp.mono {Q Q' : α → σ → Prop} (hQ : ∀ a s', Q a s' → Q' a s') (h : wp I m Q s) : wp I m Q' s := by
  intro answers
  have hm := h answers
  rcases hrun : m answers s with ⟨_ | ⟨a, rest⟩, s'⟩
  · rw [hrun] at hm
    exact hm
  · rw [hrun] at hm
    exact hQ a s' hm

/-- One program after another, by what the first leaves. -/
theorem wp.seq {P : α → σ → Prop} {Q : β → σ → Prop} (h : wp I m P s)
    (hf : ∀ a s', P a s' → wp I (f a) Q s') : wp I (m >>= f) Q s :=
  wp.bind (wp.mono hf h)

theorem wp.call {f : φ → σ → α × σ} (hI : I s) (hQ : ∀ answer, Q (f answer s).1 (f answer s).2) :
    wp I (Prog.call f) Q s := by
  intro answers
  cases answers with
  | nil => exact hI
  | cons answer rest => exact hQ answer

theorem wp.iterateFrom {L : β → σ → Prop} (hcut : ∀ b s, L b s → I s)
    (hbody : ∀ b s, L b s → wp I (body b) (fun r s' => Sum.elim (fun b' => L b' s') (fun a => Q a s') r) s) (fuel : ℕ)
    (h : L b s) : wp I (Prog.iterateFrom body fuel b) Q s := by
  induction fuel generalizing b s with
  | zero => exact fun _ => hcut b s h
  | succ fuel ih =>
    refine wp.bind (wp.mono ?_ (hbody b s h))
    intro r s' hr
    cases r with
    | inl b' => exact ih hr
    | inr a => exact wp.pure hr

/-- A loop invariant. -/
theorem wp.iterate (L : β → σ → Prop) (h : L b s) (hcut : ∀ b s, L b s → I s)
    (hbody : ∀ b s, L b s → wp I (body b) (fun r s' => Sum.elim (fun b' => L b' s') (fun a => Q a s') r) s) :
    wp I (Prog.iterate body b) Q s :=
  fun answers => wp.iterateFrom hcut hbody (answers.length + 1) h answers

/-! ## Throwing -/

theorem wp.throw {e : ε} {Q : Except ε α → σ → Prop} (h : Q (.error e) s) :
    wp I (throw e : ExceptT ε (Prog φ σ) α).run Q s := fun _ => h

theorem wp.ok {Q : Except ε α → σ → Prop} (h : Q (.ok a) s) :
    wp I (Pure.pure a : ExceptT ε (Prog φ σ) α).run Q s := fun _ => h

theorem wp.exceptBind {m : ExceptT ε (Prog φ σ) α} {f : α → ExceptT ε (Prog φ σ) β} {Q : Except ε β → σ → Prop}
    (h : wp I m.run (fun r s' => match r with | .error e => Q (.error e) s' | .ok a => wp I (f a).run Q s') s) :
    wp I (m >>= f).run Q s := by
  refine wp.bind (wp.mono ?_ h)
  intro r s' hr
  cases r with
  | error e => exact fun _ => hr
  | ok a => exact hr

theorem wp.lift {Q : Except ε α → σ → Prop} (h : wp I m (fun a s' => Q (.ok a) s') s) :
    wp I (ExceptT.lift m : ExceptT ε (Prog φ σ) α).run Q s := by
  exact wp.bind (wp.mono (fun _ _ hQ => wp.pure hQ) h)

theorem wp.iterateExcept {body : β → ExceptT ε (Prog φ σ) (β ⊕ α)} {Q : Except ε α → σ → Prop} (L : β → σ →
    Prop) (h : L b s)
    (hcut : ∀ b s, L b s → I s)
    (hbody : ∀ b s, L b s → wp I (body b).run (fun r s' => match r with
      | .error e => Q (.error e) s'
      | .ok (.inl b') => L b' s'
      | .ok (.inr a) => Q (.ok a) s') s) : wp I (Prog.iterateExcept body b).run Q s := by
  refine wp.iterate L h hcut fun b s hL => wp.bind (wp.mono ?_ (hbody b s hL))
  intro r s' hr
  match r, hr with
  | .error e, hr => exact wp.pure hr
  | .ok (.inl b'), hr => exact wp.pure hr
  | .ok (.inr a), hr => exact wp.pure hr

/-- What holds of every end of a program: the state it returns in, or is cut off in. -/
theorem wp.final (h : wp I m (fun _ s' => I s') s) (answers : List φ) : I (m.final answers s) := by
  have hm := h answers
  rw [Prog.final]
  rcases hrun : m answers s with ⟨_ | ⟨a, rest⟩, s'⟩
  · rw [hrun] at hm
    exact hm
  · rw [hrun] at hm
    exact hm

end Prog
