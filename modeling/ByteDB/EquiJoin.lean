import Mathlib

/-!
# Joining two lists by a key

One list is entered into a table under its keys and the other is looked up in
it. Whichever list is in the table, the result has each pair of one key once,
and what stands for the elements that found no partner.
-/

set_option autoImplicit false

namespace ByteDB.EquiJoin
open List
variable {α β γ K : Type} [DecidableEq K]

def table (key : β → Option K) (ys : List β) : K → Option (List β) :=
  ys.foldl (fun m y =>
    (key y).elim m (fun k => Function.update m k (some ((m k).getD []++[y])))) (fun _ => none)

/-- What an element gives: its pairs, or `lone` if its key is not in the table, or
`keyless` if it has none. -/
def probe (lone keyless : α → List γ) (f : α → β → γ) (key : α → Option K)
    (m : K → Option (List β)) (x : α) : List γ :=
  match key x with
  | none => keyless x
  | some k => (m k).elim (lone x) (List.map (f x))

def agree (key : α → Option K) (key' : β → Option K) (x : α) (y : β) : Bool :=
  key x ≠ none ∧ key x = key' y

variable (p : α → β → Bool)

def pairs (f : α → β → γ) (xs : List α) (ys : List β) : List γ :=
  xs.flatMap (fun x => (ys.filter (p x)).map (f x))

def alone (xs : List α) (ys : List β) : List α :=
  xs.filter (fun x => ys.filter (p x) = [])

lemma agree_comm (key : α → Option K) (key' : β → Option K) (x : α) (y : β) :
    agree key' key y x = agree key key' x y := by
  refine decide_eq_decide.mpr ⟨?_,?_⟩
  · rintro ⟨hne,heq⟩
    exact ⟨heq ▸ hne,heq.symm⟩
  · rintro ⟨hne,heq⟩
    exact ⟨heq ▸ hne,heq.symm⟩

lemma table_eq (key : β → Option K) (ys : List β) (k : K) : table key ys k =
    if ys.filter (fun y => key y = some k) = [] then none
    else some (ys.filter (fun y => key y = some k)) := by
  induction ys using reverseRecOn with
  | nil => rfl
  | append_singleton ys y ih =>
    rw [table, foldl_append, ← table]
    cases hy : key y with
    | none => simpa [hy] using ih
    | some l =>
      by_cases hk : k = l
      · subst hk
        by_cases hnil : ys.filter (fun y => key y = some k) = []
        · simp [hy, ih, hnil]
        · simp [hy, ih, hnil]
      · simp [hy, ih, hk, Ne.symm hk]

lemma probe_table {lone keyless : α → List γ} (f : α → β → γ) {key : α → Option K}
    (key' : β → Option K) {x : α} (hnone : key x = none → keyless x = lone x) (ys : List β) :
    probe lone keyless f key (table key' ys) x =
      if ys.filter (agree key key' x) = [] then lone x
      else (ys.filter (agree key key' x)).map (f x) := by
  rw [probe]
  cases hx : key x with
  | none => simp [agree, hx, hnone hx]
  | some k =>
    have hagree : agree key key' x = fun y => decide (key' y = some k) := by
      funext y
      simp [agree, hx, eq_comm]
    rw [hagree]
    dsimp only
    rw [table_eq]
    split <;> rfl

lemma flatMap_chosen (q : α → Bool) (g : α → List γ) (xs : List α) :
    (xs.filter q).flatMap g = xs.flatMap (fun x => if q x then g x else []) := by
  induction xs with
  | nil => rfl
  | cons x xs ih => by_cases h : q x <;> simp [h, ih]

lemma pairs_swap (f : α → β → γ) (xs : List α) (ys : List β) :
    (pairs p f xs ys).Perm (pairs (fun y x => p x y) (fun y x => f x y) ys xs) := by
  induction xs with
  | nil => simp [pairs]
  | cons x xs ih =>
    have hsplit : pairs (fun y x => p x y) (fun y x => f x y) ys (x::xs) =
        ys.flatMap (fun y => (if p x y then [f x y] else [])++
          (xs.filter (fun x => p x y)).map (fun x => f x y)) := by
      rw [pairs]
      refine flatMap_congr (fun y _ => ?_)
      by_cases h : p x y <;> simp [h]
    rw [pairs, flatMap_cons, map_eq_flatMap, flatMap_chosen, hsplit]
    exact (List.Perm.append_left _ ih).trans (flatMap_append_perm ys _ _)

lemma probes_perm {lone keyless : α → List γ} (f : α → β → γ) {key : α → Option K}
    {key' : β → Option K} {p : α → β → Bool} {xs : List α} {ys : List β}
    (hnone : ∀ x ∈ xs, key x = none → keyless x = lone x)
    (hagree : ∀ x ∈ xs, ∀ y ∈ ys, agree key key' x y = p x y) :
    (xs.flatMap (probe lone keyless f key (table key' ys))).Perm
      (pairs p f xs ys++(alone p xs ys).flatMap lone) := by
  have hprobe : xs.flatMap (probe lone keyless f key (table key' ys)) = xs.flatMap (fun x =>
      (ys.filter (p x)).map (f x)++if ys.filter (p x) = [] then lone x else []) := by
    refine flatMap_congr (fun x hx => ?_)
    rw [probe_table f key' (hnone x hx), filter_congr (hagree x hx)]
    split <;> simp_all
  have halone : (alone p xs ys).flatMap lone =
      xs.flatMap (fun x => if ys.filter (p x) = [] then lone x else []) := by
    simp only [alone, flatMap_chosen, decide_eq_true_eq]
  rw [hprobe, halone, pairs]
  exact (flatMap_append_perm xs _ _).symm

end ByteDB.EquiJoin
