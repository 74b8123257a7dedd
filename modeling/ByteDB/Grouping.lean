import Mathlib

/-!
# Groups of a list by a key

A table of groups is built in one pass: each element is noted in the group of
its key, which its first element opens. The groups are those of the distinct
keys, and two groupings agree exactly if they have the same keys. The best
element of a group is found by a pass as well.
-/

set_option autoImplicit false

namespace ByteDB.Grouping
open List Function
variable {α K S : Type} [DecidableEq K]

section
variable (key : α → K) (init : α → S) (step : S → α → S)

def note (groups : List (K × S)) (x : α) : List (K × S) :=
  if key x ∈ groups.map Prod.fst then
    groups.map (fun g => if g.1 = key x then (g.1,step g.2 x) else g)
  else groups++[(key x,step (init x) x)]

variable (xs : List α)

def accumulate : List (K × S) := xs.foldl (note key init step) []

def noteKey (ks : List K) (x : α) : List K := if key x ∈ ks then ks else ks++[key x]

def firstKeys : List K := xs.foldl (noteKey key) []

def group (k : K) : List α := xs.filter (fun x => key x = k)

def stateOf : List α → Option S
  | [] => none
  | x::xs => some ((x::xs).foldl step (init x))

end

section
variable (key : α → K) (xs : List α)

lemma firstKeys_snoc (x : α) : firstKeys key (xs++[x]) = noteKey key (firstKeys key xs) x := by
  rw [firstKeys, foldl_append]
  rfl

lemma mem_firstKeys (k : K) : k ∈ firstKeys key xs ↔ ∃ x ∈ xs, key x = k := by
  induction xs using reverseRecOn with
  | nil => simp [firstKeys]
  | append_singleton xs x ih =>
    rw [firstKeys_snoc, noteKey]
    split
    · rename_i hx
      rw [ih]
      constructor
      · rintro ⟨y,hy,rfl⟩
        exact ⟨y,by simp [hy],rfl⟩
      rintro ⟨y,hy,rfl⟩
      rcases mem_append.mp hy with hy | hy
      · exact ⟨y,hy,rfl⟩
      · cases mem_singleton.mp hy
        exact ih.mp hx
    · rw [mem_append, ih, mem_singleton]
      constructor
      · rintro (⟨y,hy,rfl⟩ | rfl)
        · exact ⟨y,by simp [hy],rfl⟩
        · exact ⟨x,by simp,rfl⟩
      · rintro ⟨y,hy,rfl⟩
        rcases mem_append.mp hy with hy | hy
        · exact .inl ⟨y,hy,rfl⟩
        · exact .inr (by rw [mem_singleton.mp hy])

lemma firstKeys_nodup : (firstKeys key xs).Nodup := by
  induction xs using reverseRecOn with
  | nil => exact nodup_nil
  | append_singleton xs x ih =>
    rw [firstKeys_snoc, noteKey]
    split
    · exact ih
    · rw [← concat_eq_append]
      exact ih.concat ‹_›

lemma group_snoc (x : α) (k : K) :
    group key (xs++[x]) k = group key xs k++(if key x = k then [x] else []) := by
  rw [group, filter_append]
  by_cases h : key x = k
  · simp [group, h]
  · simp [group, h]

lemma group_eq_nil {k : K} (h : k ∉ firstKeys key xs) : group key xs k = [] := by
  rw [group, filter_eq_nil_iff]
  intro x hx hk
  exact h ((mem_firstKeys key xs k).mpr ⟨x,hx,of_decide_eq_true hk⟩)

lemma group_ne_nil {k : K} (h : k ∈ firstKeys key xs) : group key xs k ≠ [] := by
  obtain ⟨x,hx,hk⟩ := (mem_firstKeys key xs k).mp h
  exact ne_nil_of_mem (mem_filter.mpr ⟨hx,decide_eq_true hk⟩)

end

section
variable (key : α → K) (init : α → S) (step : S → α → S)

lemma stateOf_snoc {g : List α} (hg : g ≠ []) (x : α) :
    stateOf init step (g++[x]) = (stateOf init step g).map (fun s => step s x) := by
  cases g with
  | nil => exact absurd rfl hg
  | cons y ys =>
    rw [cons_append, stateOf, stateOf, Option.map_some, ← cons_append, foldl_append]
    rfl

lemma accumulate_eq (xs : List α) : (accumulate key init step xs).map (fun g => (g.1,some g.2)) =
      (firstKeys key xs).map (fun k => (k,stateOf init step (group key xs k))) := by
  induction xs using reverseRecOn with
  | nil => rfl
  | append_singleton xs x ih =>
    have hkeys : (accumulate key init step xs).map Prod.fst = firstKeys key xs := by
      have hfst := congrArg (map Prod.fst) ih
      simpa [comp_def] using hfst
    have hnote : accumulate key init step (xs++[x]) =
        note key init step (accumulate key init step xs) x := by
      rw [accumulate, foldl_append]
      rfl
    rw [hnote, firstKeys_snoc, note, noteKey, hkeys]
    split
    · rename_i hx
      have hmap : (accumulate key init step xs).map
          (fun g => if g.1 = key x then (g.1,some (step g.2 x)) else (g.1,some g.2)) =
          ((accumulate key init step xs).map (fun g => (g.1,some g.2))).map
            (fun g => if g.1 = key x then (g.1,g.2.map (fun s => step s x)) else g) := by
        rw [map_map]
        refine map_congr_left (fun g _ => ?_)
        by_cases hg : g.1 = key x
        · simp [hg]
        · simp [hg]
      rw [map_map]
      refine Eq.trans (map_congr_left (fun g _ => ?_)) (hmap.trans ?_)
      · simp only [comp_apply]
        split <;> rfl
      rw [ih, map_map]
      refine map_congr_left (fun k hk => ?_)
      rw [comp_apply, group_snoc]
      by_cases hkx : k = key x
      · rw [if_pos hkx, if_pos hkx.symm, stateOf_snoc init step (group_ne_nil key xs hk)]
      · rw [if_neg hkx, if_neg (Ne.symm hkx), append_nil]
    · rename_i hx
      rw [map_append, map_append, ih]
      congr 1
      · refine map_congr_left (fun k hk => ?_)
        have hne : key x ≠ k := fun h => hx (h ▸ hk)
        rw [group_snoc, if_neg hne, append_nil]
      · rw [map_singleton, map_singleton, group_snoc, group_eq_nil key xs hx, if_pos rfl]
        rfl

lemma accumulate_congr {init' : α → S} {step' : S → α → S} (xs : List α)
    (hinit : ∀ x ∈ xs, init x = init' x) (hstep : ∀ x ∈ xs, ∀ s, step s x = step' s x) :
    accumulate key init step xs = accumulate key init' step' xs := by
  refine foldl_ext _ _ _ (fun groups x hx => ?_)
  rw [note, note, hinit x hx]
  simp only [hstep x hx]

lemma accumulate_of_map {β : Type} (f : β → α) (ys : List β) : accumulate key init step (ys.map f) =
      accumulate (fun y => key (f y)) (fun y => init (f y)) (fun s y => step s (f y)) ys :=
  foldl_map ..

lemma accumulate_map {R : Type} (f : S → R) (out : List α → R)
    (hout : ∀ x xs, f ((x::xs).foldl step (init x)) = out (x::xs)) (xs : List α) :
    (accumulate key init step xs).map (fun g => f g.2) =
      (firstKeys key xs).map (fun k => out (group key xs k)) := by
  have heq := congrArg (map (fun g : K × Option S => g.2.map f)) (accumulate_eq key init step xs)
  rw [map_map, map_map] at heq
  have hsome : ((firstKeys key xs).map (fun k => out (group key xs k))).map some =
      (firstKeys key xs).map
        ((fun g : K × Option S => g.2.map f) ∘ fun k => (k,stateOf init step (group key xs k))) := by
    rw [map_map]
    refine map_congr_left (fun k hk => ?_)
    rw [comp_apply, comp_apply]
    cases hg : group key xs k with
    | nil => exact absurd hg (group_ne_nil key xs hk)
    | cons y ys => rw [stateOf, Option.map_some, hout]
  rw [← hsome] at heq
  refine map_injective_iff.mpr (Option.some_injective R) (Eq.trans ?_ heq)
  rw [map_map]
  rfl

end

section
variable {K' : Type} [DecidableEq K'] (key : α → K) (h : K → K') (xs : List α)

lemma group_map (hinj : ∀ k ∈ firstKeys key xs, ∀ l ∈ firstKeys key xs, h k = h l → k = l)
    {k : K} (hk : k ∈ firstKeys key xs) : group (fun x => h (key x)) xs (h k) = group key xs k := by
  refine filter_congr (fun x hx => decide_eq_decide.mpr ⟨?_,congrArg h⟩)
  exact hinj _ ((mem_firstKeys key xs _).mpr ⟨x,hx,rfl⟩) k hk

lemma firstKeys_map (hinj : ∀ k ∈ firstKeys key xs, ∀ l ∈ firstKeys key xs, h k = h l → k = l) :
    firstKeys (fun x => h (key x)) xs = (firstKeys key xs).map h := by
  induction xs using reverseRecOn with
  | nil => rfl
  | append_singleton xs x ih =>
    have hsub : ∀ k ∈ firstKeys key xs, k ∈ firstKeys key (xs++[x]) := by
      intro k hk
      obtain ⟨y,hy,rfl⟩ := (mem_firstKeys key xs k).mp hk
      exact (mem_firstKeys key _ _).mpr ⟨y,by simp [hy],rfl⟩
    have hlast : key x ∈ firstKeys key (xs++[x]) := (mem_firstKeys key _ _).mpr ⟨x,by simp,rfl⟩
    have ih := ih (fun k hk l hl => hinj k (hsub k hk) l (hsub l hl))
    rw [firstKeys_snoc, firstKeys_snoc, noteKey, noteKey, ih]
    by_cases hx : key x ∈ firstKeys key xs
    · rw [if_pos (mem_map_of_mem hx), if_pos hx]
    have hnot : h (key x) ∉ (firstKeys key xs).map h := by
      intro hmem
      obtain ⟨k,hk,heq⟩ := mem_map.mp hmem
      exact hx (hinj k (hsub k hk) _ hlast heq ▸ hk)
    rw [if_neg hnot, if_neg hx, map_append]
    rfl

lemma injective_of_length (hlen : (firstKeys (fun x => h (key x)) xs).length = (firstKeys key xs).length) :
    ∀ k ∈ firstKeys key xs, ∀ l ∈ firstKeys key xs, h k = h l → k = l := by
  have himage : (firstKeys (fun x => h (key x)) xs).toFinset =
      (firstKeys key xs).toFinset.image h := by
    ext k
    rw [mem_toFinset, mem_firstKeys, Finset.mem_image]
    constructor
    · rintro ⟨x,hx,rfl⟩
      exact ⟨key x,mem_toFinset.mpr ((mem_firstKeys key xs _).mpr ⟨x,hx,rfl⟩),rfl⟩
    · rintro ⟨l,hl,rfl⟩
      obtain ⟨x,hx,rfl⟩ := (mem_firstKeys key xs l).mp (mem_toFinset.mp hl)
      exact ⟨x,hx,rfl⟩
  have hcard : ((firstKeys key xs).toFinset.image h).card = (firstKeys key xs).toFinset.card := by
    rw [← himage, toFinset_card_of_nodup (firstKeys_nodup _ xs),
      toFinset_card_of_nodup (firstKeys_nodup _ xs), hlen]
  intro k hk l hl heq
  exact Finset.card_image_iff.mp hcard (Finset.mem_coe.mpr (mem_toFinset.mpr hk))
    (Finset.mem_coe.mpr (mem_toFinset.mpr hl)) heq

/-- Two groupings, of which the second has coarser keys, give the same rows
exactly if their groups are the same and so are the rows of each group. -/
lemma rows_perm_iff {R : Type} (xs : List α) (out : K → R) (out' : K' → R) (tag : R → K)
    (htag : ∀ k ∈ firstKeys key xs, tag (out k) = k)
    (htag' : (∀ k ∈ firstKeys key xs, ∀ l ∈ firstKeys key xs, h k = h l → k = l) →
      ∀ k ∈ firstKeys key xs, tag (out' (h k)) = k) :
    ((firstKeys key xs).map out).Perm ((firstKeys (fun x => h (key x)) xs).map out') ↔
      (∀ k ∈ firstKeys key xs, ∀ l ∈ firstKeys key xs, h k = h l → k = l) ∧
        ∀ k ∈ firstKeys key xs, out k = out' (h k) := by
  constructor
  · intro hperm
    have hlen := hperm.length_eq
    rw [length_map, length_map] at hlen
    have hinj := injective_of_length key h xs hlen.symm
    refine ⟨hinj,fun k hk => ?_⟩
    rw [firstKeys_map key h xs hinj, map_map] at hperm
    obtain ⟨l,hl,heq⟩ := mem_map.mp (hperm.subset (mem_map_of_mem hk))
    rw [comp_apply] at heq
    have hkl : k = l := by rw [← htag k hk, ← heq, htag' hinj l hl]
    rw [← heq, hkl]
  · rintro ⟨hinj,hout⟩
    rw [firstKeys_map key h xs hinj, map_map]
    exact List.Perm.of_eq (map_congr_left hout)

end

section
variable {β : Type} (better : β → β → Bool)

def prefer (cur v : β) : β := if better v cur then v else cur

lemma prefer_mem (b : β) (vs : List β) : vs.foldl (prefer better) b ∈ b::vs := by
  induction vs generalizing b with
  | nil => exact mem_singleton.mpr rfl
  | cons v vs ih =>
    rw [foldl_cons]
    have hmem := ih (prefer better b v)
    rcases mem_cons.mp hmem with heq | hin
    · rw [heq, prefer]
      split
      · exact mem_cons_of_mem _ (mem_cons_self ..)
      · exact mem_cons_self ..
    · exact mem_cons_of_mem _ (mem_cons_of_mem _ hin)

variable (order : β → ℤ) (hbetter : ∀ a b, better a b = true ↔ order a < order b)
include hbetter

lemma prefer_le (b : β) (vs : List β) : ∀ v ∈ b::vs, order (vs.foldl (prefer better) b) ≤ order v := by
  induction vs generalizing b with
  | nil =>
    intro v hv
    rw [mem_singleton.mp hv]
    exact le_refl _
  | cons w vs ih =>
    intro v hv
    rw [foldl_cons]
    have hstep : order (prefer better b w) ≤ order b ∧ order (prefer better b w) ≤ order w := by
      rw [prefer]
      split
      · exact ⟨((hbetter w b).mp ‹_›).le,le_refl _⟩
      · exact ⟨le_refl _,not_lt.mp (fun hlt => ‹¬ _› ((hbetter w b).mpr hlt))⟩
    have hbest := ih (prefer better b w)
    rcases mem_cons.mp hv with rfl | hv
    · exact (hbest _ (mem_cons_self ..)).trans hstep.1
    · rcases mem_cons.mp hv with rfl | hv
      · exact (hbest _ (mem_cons_self ..)).trans hstep.2
      · exact hbest v (mem_cons_of_mem _ hv)

variable (horder : Function.Injective order) {last : β} (hlast : ∀ v, order v ≤ order last)
include horder hlast

lemma prefer_last (v : β) (vs : List β) :
    (v::vs).foldl (prefer better) last = vs.foldl (prefer better) v := by
  have hfirst : prefer better last v = v := by
    rw [prefer]
    split
    · rfl
    · exact horder (le_antisymm (not_lt.mp (fun hlt => ‹¬ _› ((hbetter v last).mpr hlt))) (hlast v))
  rw [foldl_cons, hfirst]

lemma prefer_eq_last (v : β) (vs : List β) :
    vs.foldl (prefer better) v = last ↔ ∀ w ∈ v::vs, w = last := by
  constructor
  · intro heq w hw
    have hle := prefer_le better order hbetter v vs w hw
    rw [heq] at hle
    exact horder (le_antisymm (hlast w) hle)
  · intro hall
    exact hall _ (prefer_mem better v vs)

end

section
variable (key : α → K)

def tally (xs : List α) : K → Option ℕ := xs.foldl (fun counts x =>
    Function.update counts (key x) (some ((counts (key x)).getD 0+1))) (fun _ => none)

def unseen (seen : List K) : List α → List α
  | [] => []
  | x::xs => if key x ∈ seen then unseen seen xs else x::unseen (key x::seen) xs

/-- The elements whose key is counted (or is not), where each counted one is paid
for by what `spend` leaves of the count. -/
def paid (counted : Bool) (spend : ℕ → Option ℕ) : (K → Option ℕ) → List α → List α
  | _, [] => []
  | counts, x::xs =>
    match counts (key x) with
    | some (n+1) =>
      let rest := paid counted spend (Function.update counts (key x) (spend n)) xs
      if counted then x::rest else rest
    | _ => if counted then paid counted spend counts xs else x::paid counted spend counts xs

lemma tally_snoc (xs : List α) (x : α) : tally key (xs++[x]) =
    update (tally key xs) (key x) (some ((tally key xs (key x)).getD 0+1)) := by
  rw [tally, foldl_append]
  rfl

lemma unseen_sublist (seen : List K) (xs : List α) : (unseen key seen xs).Sublist xs := by
  induction xs generalizing seen with
  | nil => exact .slnil
  | cons x xs ih =>
    rw [unseen]
    split
    · exact (ih seen).cons x
    · exact (ih _).cons_cons x

lemma paid_sublist (counted : Bool) (spend : ℕ → Option ℕ) (counts : K → Option ℕ)
    (xs : List α) : (paid key counted spend counts xs).Sublist xs := by
  induction xs generalizing counts with
  | nil => exact .slnil
  | cons x xs ih =>
    rw [paid]
    split <;> cases counted
    · exact (ih _).cons x
    · exact (ih _).cons_cons x
    · exact (ih _).cons_cons x
    · exact (ih _).cons x

variable [BEq α] [LawfulBEq α] {key} {r : α}

lemma tally_count {xs : List α} (h : ∀ x ∈ xs, key x = key r → x = r) :
    (tally key xs (key r)).getD 0 = xs.count r := by
  induction xs using reverseRecOn with
  | nil => rfl
  | append_singleton xs x ih =>
    have hcount := ih (fun y hy => h y (by simp [hy]))
    rw [tally_snoc, count_append, count_singleton, update_apply]
    by_cases hx : x = r
    · simp [hx, hcount]
    · have hkey : key r ≠ key x := fun heq => hx (h x (by simp) heq.symm)
      simp [hx, hkey, hcount]

lemma unseen_count {xs : List α} (h : ∀ x ∈ xs, key x = key r → x = r) (seen : List K) :
    (unseen key seen xs).count r = if key r ∈ seen then 0 else min 1 (xs.count r) := by
  induction xs generalizing seen with
  | nil => simp [unseen]
  | cons x xs ih =>
    rw [forall_mem_cons] at h
    rw [unseen]
    by_cases hx : x = r
    · subst hx
      by_cases hseen : key x ∈ seen <;> simp [hseen, ih h.2]
    · have hkey : key r ≠ key x := fun heq => hx (h.1 heq.symm)
      by_cases hseen : key x ∈ seen <;> simp [hseen, ih h.2, hx, hkey]

lemma paid_count (spend : ℕ → Option ℕ) (budget : ℕ → ℕ) (hzero : budget 0 = 0)
    (hspend : ∀ n, budget (n+1) = budget ((spend n).getD 0)+1) (counted : Bool) {xs : List α}
    (h : ∀ x ∈ xs, key x = key r → x = r) (counts : K → Option ℕ) :
    (paid key counted spend counts xs).count r =
      if counted then min (xs.count r) (budget ((counts (key r)).getD 0))
      else xs.count r-budget ((counts (key r)).getD 0) := by
  induction xs generalizing counts with
  | nil => simp [paid]
  | cons x xs ih =>
    rw [forall_mem_cons] at h
    rw [paid]
    by_cases hx : x = r
    · -- the element itself uses one unit of what is left
      subst hx
      rcases hn : counts (key x) with _|_|n <;> cases counted <;>
        simp [ih h.2, hn, hzero, hspend]
    · have hkey : key r ≠ key x := fun heq => hx (h.1 heq.symm)
      rcases hn : counts (key x) with _|_|n <;> cases counted <;>
        simp [ih h.2, hx, hkey]

end

end ByteDB.Grouping
