import ByteDB.Dml

/-!
# Referential integrity

The rows of all tables as a function of the table and the key. Integrity is
kept by a row that is put if its own references are met and it agrees with the
row that it replaces wherever others refer to it, and by removing rows that no
remaining row refers to.
-/

set_option autoImplicit false

namespace ByteDB.References
open ByteDB.Engine Codec List

variable {V : Type} [Codec V]

abbrev Schemas (V : Type) := String → Option (Schema V)

abbrev Rows (V : Type) := String → Bytes → Option (List V)

def childColumns (schema : Schema V) (fk : ForeignKey) : List ℕ :=
  fk.columns.filterMap schema.columnIndex

def parentColumns (parent : Schema V) (fk : ForeignKey) : List ℕ :=
  fk.refColumns.filterMap parent.columnIndex

def Equal (v w : V) : Prop := v = w ∨ same v w = true

def HasValues (row : List V) (columns : List ℕ) (vals : List V) : Prop :=
  ∀ j i : ℕ, columns[j]? = some i → ∃ v w, row[i]? = some v ∧ vals[j]? = some w ∧ Equal v w

section
variable (S : Schemas V)

def Backed (r : Rows V) (fk : ForeignKey) (vals : List V) : Prop :=
  ∃ parent, S fk.refTable = some parent ∧
    ∃ k row, r fk.refTable k = some row ∧ HasValues row (parentColumns parent fk) vals

def RowBacked (r : Rows V) (schema : Schema V) (row : List V) : Prop :=
  ∀ fk ∈ schema.foreignKeys, ∀ vals, childValues schema fk row = some vals → Backed S r fk vals

def Linked (r : Rows V) : Prop :=
  ∀ t schema, S t = some schema → ∀ k row, r t k = some row → RowBacked S r schema row

def Referenced (t : String) : Prop :=
  ∃ child schema, S child = some schema ∧ ∃ fk ∈ schema.foreignKeys, fk.refTable = t

def RefersTo (t : String) (i : ℕ) : Prop :=
  ∃ child schema, S child = some schema ∧ ∃ fk ∈ schema.foreignKeys, fk.refTable = t ∧
    ∃ parent, S t = some parent ∧ i ∈ parentColumns parent fk

/-- The foreign keys name columns that there are, as many here as there. -/
def WellDeclared : Prop :=
  ∀ t schema, S t = some schema → ∀ fk ∈ schema.foreignKeys, fk.columns ≠ [] ∧
    (childColumns schema fk).length = fk.columns.length ∧
    ∀ parent, S fk.refTable = some parent →
      (parentColumns parent fk).length = fk.refColumns.length ∧
        fk.refColumns.length = fk.columns.length

def Cut (r : Rows V) (t : String) (row : List V) : Prop :=
  ∀ child schema, S child = some schema → ∀ fk ∈ schema.foreignKeys, fk.refTable = t →
    ∀ parent, S t = some parent → ∀ k row' vals, r child k = some row' →
      childValues schema fk row' = some vals → ¬ HasValues row (parentColumns parent fk) vals

end

def put (r : Rows V) (t : String) (k : Bytes) (row : List V) : Rows V :=
  fun t' k' => if t' = t ∧ k' = k then some row else r t' k'

variable {old new vals : List V} {schema : Schema V} {fk : ForeignKey}

section
variable {S : Schemas V} {r : Rows V} {t : String} {k : Bytes} {row : List V}

lemma HasValues.of_same {columns : List ℕ}
    (h : HasValues old columns vals) (hsame : ∀ i ∈ columns, new[i]? = old[i]?) :
    HasValues new columns vals := by
  intro j i hj
  obtain ⟨v,w,hv,hw,heq⟩ := h j i hj
  exact ⟨v,w,(hsame i (mem_of_getElem? hj)).trans hv,hw,heq⟩

lemma Backed.put (hsame : ∀ old, r t k = some old → ∀ i, RefersTo S t i → row[i]? = old[i]?)
    {child : String} (hS : S child = some schema)
    (hfk : fk ∈ schema.foreignKeys) (h : Backed S r fk vals) :
    Backed S (put r t k row) fk vals := by
  obtain ⟨parent,hparent,k',row',hrow',hvals⟩ := h
  refine ⟨parent,hparent,k',?_⟩
  by_cases hhere : fk.refTable = t ∧ k' = k
  · refine ⟨row,if_pos hhere,hvals.of_same (fun i hi => ?_)⟩
    refine hsame row' (by rw [← hhere.1, ← hhere.2]; exact hrow') i ?_
    exact ⟨child,schema,hS,fk,hfk,hhere.1,parent,hhere.1 ▸ hparent,hi⟩
  · exact ⟨row',(if_neg hhere).trans hrow',hvals⟩

lemma linked_put (h : Linked S r) (hrow : ∀ schema, S t = some schema → RowBacked S r schema row)
    (hsame : ∀ old, r t k = some old → ∀ i, RefersTo S t i → row[i]? = old[i]?) :
    Linked S (put r t k row) := by
  intro t' schema hS k' row' hrow' fk hfk vals hvals
  refine Backed.put hsame hS hfk ?_
  rw [References.put] at hrow'
  split at hrow'
  · rename_i hhere
    cases hrow'
    exact hrow schema (hhere.1 ▸ hS) fk hfk vals hvals
  · exact h t' schema hS k' row' hrow' fk hfk vals hvals

lemma linked_sub {r' : Rows V} (h : Linked S r)
    (hsub : ∀ t k row, r' t k = some row → r t k = some row)
    (hcut : ∀ t k row, r t k = some row → r' t k = some row ∨ Cut S r' t row) :
    Linked S r' := by
  intro t schema hS k row hrow fk hfk vals hvals
  obtain ⟨parent,hparent,k',row',hrow',hhas⟩ :=
    h t schema hS k row (hsub t k row hrow) fk hfk vals hvals
  rcases hcut fk.refTable k' row' hrow' with hstays | hcut
  · exact ⟨parent,hparent,k',row',hstays,hhas⟩
  · exact absurd hhas (hcut t schema hS fk hfk rfl parent hparent k row vals hrow hvals)

lemma cut_of_unreferenced (h : ¬ Referenced S t) (row : List V) : Cut S r t row :=
  fun child schema hS fk hfk href => absurd ⟨child,schema,hS,fk,hfk,href⟩ h

end

section
variable {S : Schemas V} {r r' : Rows V}

def Nulls (old new : List V) : Prop :=
  ∀ (i : ℕ) v, new[i]? = some v → isNull v = false → old[i]? = some v

def Derived (r r' : Rows V) : Prop :=
  ∀ t k row, r' t k = some row → ∃ old, r t k = some old ∧ Nulls old row

lemma Nulls.refl (row : List V) : Nulls row row := fun _ _ h _ => h

lemma Nulls.trans {a b c : List V} (h : Nulls a b) (h' : Nulls b c) : Nulls a c :=
  fun i v hv hnull => h i v (h' i v hv hnull) hnull

lemma Derived.refl (r : Rows V) : Derived r r := fun _ _ row h => ⟨row,h,.refl row⟩

lemma Derived.trans {r0 : Rows V} (h : Derived r0 r) (h' : Derived r r') : Derived r0 r' := by
  intro t k row hrow
  obtain ⟨mid,hmid,hn⟩ := h' t k row hrow
  obtain ⟨old,hold,ho⟩ := h t k mid hmid
  exact ⟨old,hold,ho.trans hn⟩

variable {row : List V}

lemma childValues_eq : childValues schema fk row = some vals ↔
      vals = (childColumns schema fk).map (fun i => (row[i]?).getD null) ∧
        ∀ v ∈ vals, isNull v = false := by
  rw [childValues]
  constructor
  · intro h
    split at h
    · cases h
    rename_i hnull
    cases h
    refine ⟨rfl,fun v hv => ?_⟩
    by_contra hv'
    exact hnull (any_eq_true.mpr ⟨v,hv,by simpa using hv'⟩)
  · rintro ⟨rfl,hnull⟩
    rw [if_neg]
    · rfl
    · intro hany
      obtain ⟨v,hv,hv'⟩ := any_eq_true.mp hany
      rw [hnull v hv] at hv'
      cases hv'

lemma childValues_get (hnull : isNull (null : V) = true) (h : childValues schema fk row = some vals) {j i : ℕ}
    (hj : (childColumns schema fk)[j]? = some i) :
    ∃ v, vals[j]? = some v ∧ row[i]? = some v ∧ isNull v = false := by
  obtain ⟨hvals,hnot⟩ := childValues_eq.mp h
  have hv : vals[j]? = some ((row[i]?).getD null) := by
    rw [hvals, getElem?_map, hj]
    rfl
  have hne := hnot _ (mem_of_getElem? hv)
  cases hi : row[i]? with
  | none =>
    rw [hi, Option.getD_none, hnull] at hne
    cases hne
  | some v =>
    rw [hi] at hv hne
    exact ⟨v,hv,rfl,hne⟩

lemma childValues_congr (h : ∀ i ∈ childColumns schema fk, new[i]? = old[i]?) :
    childValues schema fk new = childValues schema fk old := by
  have hvals : (fk.columns.filterMap schema.columnIndex).map (fun i => (new[i]?).getD null) =
      (fk.columns.filterMap schema.columnIndex).map (fun i => (old[i]?).getD null) :=
    map_congr_left (fun i hi => by rw [h i hi])
  rw [childValues, childValues, hvals]

lemma childValues_of_nulls (hnull : isNull (null : V) = true) (hn : Nulls old new)
    (h : childValues schema fk new = some vals) : childValues schema fk old = some vals := by
  obtain ⟨hvals,hnot⟩ := childValues_eq.mp h
  refine childValues_eq.mpr ⟨?_,hnot⟩
  rw [hvals]
  refine map_congr_left (fun i hi => ?_)
  obtain ⟨j,hj⟩ := mem_iff_getElem?.mp hi
  obtain ⟨v,-,hv,hne⟩ := childValues_get hnull h hj
  rw [hv, hn i v hv hne]

lemma RowBacked.of_nulls (hnull : isNull (null : V) = true) (hn : Nulls old new) (h : RowBacked S r schema old) :
    RowBacked S r schema new :=
  fun fk hfk vals hvals => h fk hfk vals (childValues_of_nulls hnull hn hvals)

lemma Cut.derived (hnull : isNull (null : V) = true) {t : String}
    (h : Cut S r t row) (hd : Derived r r') : Cut S r' t row := by
  intro child schema hS fk hfk href parent hparent k row' vals hrow' hvals
  obtain ⟨old,hold,hn⟩ := hd child k row' hrow'
  exact h child schema hS fk hfk href parent hparent k old vals hold
    (childValues_of_nulls hnull hn hvals)

end

end ByteDB.References
