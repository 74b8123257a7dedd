import Mathlib

/-!
# Finite maps with an iteration order

A hash map is an association list without repeated keys; the order of its
entries is the order in which a loop over the map meets them.
-/

set_option autoImplicit false

namespace ByteDB.Assoc

abbrev Map (K V : Type) := AList (fun _ : K => V)

variable {K V : Type} [DecidableEq K]

def keep (f : K → V → Option V) (e : (_ : K) × V) : Option ((_ : K) × V) :=
  (f e.1 e.2).map (Sigma.mk e.1)

/-- Visit every entry, which may change its value or drop it. -/
def retain (m : Map K V) (f : K → V → Option V) : Map K V where
  entries := m.entries.filterMap (keep f)
  nodupKeys := by
    have hsub : ∀ es : List ((_ : K) × V), (es.filterMap (keep f)).keys.Sublist es.keys := by
      intro es
      induction es with
      | nil => exact List.Sublist.slnil
      | cons e es ih =>
        cases h : f e.1 e.2 with
        | none => simpa [keep, h] using ih.cons e.1
        | some v => simpa [keep, h] using ih.cons_cons e.1
    exact (hsub m.entries).nodup m.nodupKeys

lemma lookup_insert_eq (m : Map K V) (k l : K) (v : V) :
    (m.insert k v).lookup l = if l = k then some v else m.lookup l := by
  by_cases h : l = k
  · subst h
    simp
  · rw [AList.lookup_insert_ne h, if_neg h]

lemma lookup_erase_eq (m : Map K V) (k l : K) :
    (m.erase k).lookup l = if l = k then none else m.lookup l := by
  by_cases h : l = k
  · subst h
    simp
  · rw [AList.lookup_erase_ne h, if_neg h]

lemma lookup_insert_cases {m : Map K V} {k l : K} {v w : V}
    (h : (m.insert k v).lookup l = some w) : (l = k ∧ w = v) ∨ (l ≠ k ∧ m.lookup l = some w) := by
  rw [lookup_insert_eq] at h
  grind

lemma lookup_erase_cases {m : Map K V} {k l : K} {v : V} (h : (m.erase k).lookup l = some v) :
    l ≠ k ∧ m.lookup l = some v := by
  rw [lookup_erase_eq] at h
  grind

lemma mem_keys_iff (m : Map K V) (k : K) : k ∈ m.keys ↔ ∃ v, m.lookup k = some v := by
  rw [← AList.mem_keys, ← AList.lookup_isSome, Option.isSome_iff_exists]

lemma dlookup_keep (es : List ((_ : K) × V)) (h : es.NodupKeys) (f : K → V → Option V) (k : K) :
    (es.filterMap (keep f)).dlookup k = (es.dlookup k).bind (f k) := by
  induction es with
  | nil => rfl
  | cons e es ih =>
    obtain ⟨l,v⟩ := e
    obtain ⟨hl,hes⟩ := List.nodupKeys_cons.mp h
    have ih := ih hes
    by_cases hk : k = l
    · subst hk
      have hnone : es.dlookup k = none := List.dlookup_eq_none.mpr hl
      cases hf : f k v with
      | none => simp [keep, hf, ih, hnone]
      | some w => simp [keep, hf]
    · have hskip : ∀ (w : V) (es : List ((_ : K) × V)),
          (⟨l,w⟩::es).dlookup k = es.dlookup k := fun w es => List.dlookup_cons_ne es ⟨l,w⟩ hk
      cases hf : f l v with
      | none | some => simp [keep, hf, ih, hskip]

variable (m : Map K V)

@[simp] lemma lookup_retain (f : K → V → Option V) (k : K) :
    (retain m f).lookup k = (m.lookup k).bind (f k) :=
  dlookup_keep m.entries m.nodupKeys f k

def adjust (k : K) (f : V → V) : Map K V :=
  retain m (fun l v => some (if l = k then f v else v))

lemma lookup_adjust (k l : K) (f : V → V) :
    (adjust m k f).lookup l = if l = k then (m.lookup l).map f else m.lookup l := by
  rw [adjust, lookup_retain]
  by_cases h : l = k
  · simp [h, Option.map_eq_bind]
  · simp [h]

variable {m} in
lemma lookup_adjust_cases {k l : K} {f : V → V} {w : V} (h : (adjust m k f).lookup l = some w) :
    (l = k ∧ ∃ v, m.lookup l = some v ∧ w = f v) ∨ (l ≠ k ∧ m.lookup l = some w) := by
  rw [lookup_adjust] at h
  split at h
  · obtain ⟨v,hv,rfl⟩ := Option.map_eq_some_iff.mp h
    exact .inl ⟨‹_›,v,hv,rfl⟩
  · exact .inr ⟨‹_›,h⟩

@[simp] lemma lookup_adjust_self (k : K) (f : V → V) :
    (adjust m k f).lookup k = (m.lookup k).map f := by
  rw [lookup_adjust, if_pos rfl]

lemma lookup_adjust_ne {k l : K} (f : V → V) (h : l ≠ k) :
    (adjust m k f).lookup l = m.lookup l := by
  rw [lookup_adjust, if_neg h]

lemma adjust_self (k : K) (f : V → V) (h : ∀ v, m.lookup k = some v → f v = v) :
    adjust m k f = m := by
  refine AList.ext ?_
  have hkeep : ∀ e ∈ m.entries, keep (fun l v => some (if l = k then f v else v)) e = some e := by
    rintro ⟨l,v⟩ he
    by_cases hk : l = k
    · subst hk
      simp [keep, h v (AList.mem_lookup_iff.mpr he)]
    · simp [keep, hk]
  show m.entries.filterMap (keep _) = m.entries
  rw [List.filterMap_congr hkeep, List.filterMap_some]

end ByteDB.Assoc
