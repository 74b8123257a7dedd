import Mathlib

/-!
# Finite maps in key order

The entries of a map, their keys strictly increasing. This is what a search
tree stands for to its users.
-/

set_option autoImplicit false

namespace ByteDB
open List

structure OrderedMap (K V : Type) [LinearOrder K] where
  entries : List (K × V)
  sorted : entries.Pairwise (fun a b => a.1 < b.1)

namespace OrderedMap
variable {K V : Type} [LinearOrder K]

instance [DecidableEq V] : DecidableEq (OrderedMap K V) := fun a b =>
  decidable_of_iff (a.entries = b.entries) (by cases a; cases b; simp)

def empty : OrderedMap K V := ⟨[],List.Pairwise.nil⟩

def find (k : K) : List (K × V) → Option V
  | [] => none
  | (l,v)::es => if k = l then some v else find k es

variable (m : OrderedMap K V)

def lookup (k : K) : Option V := find k m.entries

def put (k : K) (v : V) : List (K × V) → List (K × V)
  | [] => [(k,v)]
  | (l,w)::es =>
    if k < l then (k,v)::(l,w)::es else if k = l then (k,v)::es else (l,w)::put k v es

variable {k : K} {v : V} {es : List (K × V)}

lemma mem_put {e : K × V} (h : e ∈ put k v es) : e = (k,v) ∨ e ∈ es := by
  induction es with
  | nil => simpa [put] using h
  | cons x es ih =>
    obtain ⟨l,w⟩ := x
    rw [put] at h
    split at h
    · simpa using h
    split at h
    · rcases mem_cons.mp h with rfl | h
      · exact .inl rfl
      · exact .inr (mem_cons_of_mem _ h)
    · rcases mem_cons.mp h with rfl | h
      · exact .inr (by simp)
      · exact (ih h).imp_right (mem_cons_of_mem _)

lemma put_sorted (k : K) (v : V) (h : es.Pairwise (fun a b => a.1 < b.1)) :
    (put k v es).Pairwise (fun a b => a.1 < b.1) := by
  induction es with
  | nil => simp [put]
  | cons x es ih =>
    obtain ⟨l,w⟩ := x
    obtain ⟨hl,hes⟩ := pairwise_cons.mp h
    rw [put]
    split
    · rename_i hlt
      refine pairwise_cons.mpr ⟨fun e he => ?_,h⟩
      rcases mem_cons.mp he with rfl | he
      · exact hlt
      · exact hlt.trans (hl e he)
    rename_i hlt
    split
    · rename_i heq
      subst heq
      exact pairwise_cons.mpr ⟨hl,hes⟩
    · rename_i hne
      refine pairwise_cons.mpr ⟨fun e he => ?_,ih hes⟩
      rcases mem_put he with rfl | he
      · exact lt_of_le_of_ne (not_lt.mp hlt) (Ne.symm hne)
      · exact hl e he

def insert (k : K) (v : V) : OrderedMap K V := ⟨put k v m.entries,put_sorted k v m.sorted⟩

def erase (k : K) : OrderedMap K V := ⟨m.entries.filter (fun e => e.1 ≠ k),m.sorted.filter _⟩

lemma find_put (k l : K) (v : V) (es : List (K × V)) :
    find l (put k v es) = if l = k then some v else find l es := by
  induction es with
  | nil => rfl
  | cons x es ih =>
    obtain ⟨j,w⟩ := x
    rw [put]
    split
    · rfl
    split
    · rename_i hkj
      subst hkj
      by_cases hl : l = k
      · simp [find, hl]
      · simp [find, hl]
    · rename_i hkj
      by_cases hl : l = j
      · subst hl
        simp [find, Ne.symm hkj]
      · simp [find, hl, ih]

lemma find_filter (k l : K) (es : List (K × V)) :
    find l (es.filter (fun e => e.1 ≠ k)) = if l = k then none else find l es := by
  induction es with
  | nil => simp [find]
  | cons x es ih =>
    obtain ⟨j,w⟩ := x
    by_cases hj : j = k
    · subst hj
      by_cases hl : l = j
      · simpa [hl] using ih
      · simpa [find, hl] using ih
    · by_cases hl : l = j
      · subst hl
        simp [find, hj]
      · by_cases hlk : l = k
        · subst hlk
          simpa [find, hj, hl] using ih
        · simpa [find, hj, hl, hlk] using ih

lemma lookup_insert (k l : K) (v : V) :
    (m.insert k v).lookup l = if l = k then some v else m.lookup l :=
  find_put ..

lemma lookup_erase (k l : K) : (m.erase k).lookup l = if l = k then none else m.lookup l :=
  find_filter ..

@[simp] lemma lookup_insert_self (k : K) (v : V) : (m.insert k v).lookup k = some v := by
  rw [lookup_insert, if_pos rfl]

@[simp] lemma lookup_erase_self (k : K) : (m.erase k).lookup k = none := by
  rw [lookup_erase, if_pos rfl]

lemma find_of_lt (h : ∀ e ∈ es, k < e.1) : find k es = none := by
  induction es with
  | nil => rfl
  | cons x es ih =>
    rw [find, if_neg (h x (by simp)).ne, ih (fun e he => h e (by simp [he]))]

lemma insert_of_lookup (m : OrderedMap K V) (h : m.lookup k = some v) : m.insert k v = m := by
  obtain ⟨es,hs⟩ := m
  suffices hput : put k v es = es by simp only [insert, hput]
  replace h : find k es = some v := h
  induction es with
  | nil => simp [find] at h
  | cons x es ih =>
    obtain ⟨l,w⟩ := x
    obtain ⟨hl,hes⟩ := pairwise_cons.mp hs
    rw [find] at h
    by_cases hk : k = l
    · subst hk
      rw [if_pos rfl] at h
      cases h
      simp [put]
    · rw [if_neg hk] at h
      have hlt : ¬ k < l := by
        intro hlt
        rw [find_of_lt (fun e he => hlt.trans (hl e he))] at h
        cases h
      rw [put, if_neg hlt, if_neg hk, ih hes h]

lemma entries_mem_iff (k : K) (v : V) : (k,v) ∈ m.entries ↔ m.lookup k = some v := by
  obtain ⟨es,hs⟩ := m
  show (k,v) ∈ es ↔ find k es = some v
  induction es with
  | nil => simp [find]
  | cons x es ih =>
    obtain ⟨l,w⟩ := x
    obtain ⟨hl,hes⟩ := pairwise_cons.mp hs
    rw [find]
    by_cases hk : k = l
    · subst hk
      have hnot : (k,v) ∉ es := fun hm => lt_irrefl k (hl (k,v) hm)
      simp [hnot, eq_comm]
    · simp [hk, ih hes]

end OrderedMap

end ByteDB
