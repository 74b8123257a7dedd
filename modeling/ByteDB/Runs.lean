import Mathlib

/-!
# Runs of a step function

A step may be refused. `Reaches` follows the runs in which every step meets a
condition on the state before it.
-/

set_option autoImplicit false

namespace ByteDB.Runs

/-- The threads of an example are numbered by `Fin 2`. -/
instance neZeroTwo : NeZero 2 := ⟨two_ne_zero⟩

variable {σ α : Type*}

def run (step : σ → α → Option σ) : σ → List α → Option σ
  | s, [] => some s
  | s, a::as => do
    let s ← step s a
    run step s as

inductive Reaches (step : σ → α → Option σ) (P : σ → α → Prop) (init : σ) : σ → Prop where
  | init : Reaches step P init init
  | step {s s' : σ} (a : α) : Reaches step P init s → P s a → step s a = some s' →
      Reaches step P init s'

variable {step : σ → α → Option σ} {P : σ → α → Prop} {init : σ}

lemma Reaches.invariant {I : σ → Prop} (h0 : I init)
    (hstep : ∀ s a s', I s → P s a → step s a = some s' → I s') {s : σ}
    (h : Reaches step P init s) : I s := by
  induction h with
  | init => exact h0
  | step a _ hP hs ih => exact hstep _ a _ ih hP hs

lemma Reaches.of_run {p : σ → α → Bool} (hp : ∀ s a, p s a = true → P s a) {as : List α} {s s' : σ}
    (h : Reaches step P init s)
    (hrun : run (fun s a => if p s a then step s a else none) s as = some s') :
    Reaches step P init s' := by
  induction as generalizing s with
  | nil =>
    cases hrun
    exact h
  | cons a as ih =>
    obtain ⟨next,hnext,hrest⟩ := Option.bind_eq_some_iff.mp hrun
    dsimp only at hnext
    by_cases ha : p s a = true
    · rw [if_pos ha] at hnext
      exact ih (.step a h (hp s a ha) hnext) hrest
    · rw [if_neg ha] at hnext
      cases hnext

lemma run_getD {s : σ} (as : List α) (h : (run step s as).isSome = true) :
    run step s as = some ((run step s as).getD s) := by
  obtain ⟨s',hs'⟩ := Option.isSome_iff_exists.mp h
  rw [hs', Option.getD_some]

lemma run_of_guarded {p : σ → α → Bool} {as : List α} {s s' : σ}
    (hrun : run (fun s a => if p s a then step s a else none) s as = some s') :
    run step s as = some s' := by
  induction as generalizing s with
  | nil => exact hrun
  | cons a as ih =>
    obtain ⟨next,hnext,hrest⟩ := Option.bind_eq_some_iff.mp hrun
    dsimp only at hnext
    split at hnext
    · rw [run, hnext]
      exact ih hrest
    · cases hnext

/-- What a run comes to is reached if each of its steps passes a test of the condition. -/
lemma Reaches.of_isSome {p : σ → α → Bool} (hp : ∀ s a, p s a = true → P s a) (as : List α)
    (h : (run (fun s a => if p s a then step s a else none) init as).isSome = true) :
    Reaches step P init ((run step init as).getD init) := by
  obtain ⟨s,hs⟩ := Option.isSome_iff_exists.mp h
  rw [run_of_guarded hs, Option.getD_some]
  exact .of_run hp .init hs

end ByteDB.Runs
