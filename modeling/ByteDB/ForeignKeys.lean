import ByteDB.PrimaryKeys
import ByteDB.References
import ByteDB.UniqueRows

/-!
# Foreign keys

INSERT and UPDATE look for the parents of the rows that they write, and DELETE
looks for the children of the rows that it deletes, in other tables and one
level deep. Nothing looks for the children of a row whose referenced columns
are changed, nor for those of the rows that TRUNCATE or a cascade takes away.
-/

set_option autoImplicit false

namespace ByteDB.Engine
open ByteDB.Assoc Command Codec References List Option

variable {V E Q : Type} [Codec V] {ev : Evaluator V E Q} {crc : Bytes → UInt32}
  {names : String → Prop} {b e : Engine V E}

structure Coded (ev : Evaluator V E Q) : Prop extends Lawful ev where
  decoded : ∀ (row : List V) e td, row.length < 256 →
    decodeRow (ev.spill e td (serialize row)) = some row
  encode_inj : ∀ vs ws : List V, vs.flatMap encode = ws.flatMap encode → vs = ws
  columns : ∀ data (values : List V) cols, decodeRow data = some values →
    ∃ values' : List V, decodeColumns data (needed cols) = some values' ∧
      ∀ i ∈ cols, values'[i]? = values[i]?
  same_null : ∀ v w : V, isNull v = true → isNull w = false → same v w = false

lemma Coded.faithful (hc : Coded ev) : Faithful ev where
  serialized row values hlen hdec := by rw [hc.serialized row values hlen hdec]
  spilled row values e td hlen hdec := by rw [hc.spilled row values e td hlen hdec]

def schemas (e : Engine V E) : Schemas V := fun t => (e.tables.lookup t).map (·.schema)

def view (e : Engine V E) : Rows V := fun t k => (e.content t k).bind decodeRow

/-- Tables without secondary indexes whose rows can be read and have their
parents. -/
structure Knit (b e : Engine V E) : Prop where
  bare : ∀ t td, e.tables.lookup t = some td → td.secondaryIndexes = []
  legible : ∀ t k data, e.content t k = some data → ∃ row : List V, decodeRow data = some row
  linked : Linked (schemas b) (view e)

variable {t : String} {td : TableData V E} {k : Bytes} {row : List V}

lemma schemas_held {G : Rule V E} (h : Held names G b e) : schemas e = schemas b := by
  funext t
  have hd := congrArg (Option.map Prod.fst) (h.defined t)
  rw [defs, defs, Option.map_map, Option.map_map] at hd
  exact hd

lemma schemas_some (h : e.tables.lookup t = some td) : schemas e t = some td.schema := by
  rw [schemas, h]
  rfl

lemma view_still {e' : Engine V E} (h : Still e e') : view e' = view e := by
  funext t k
  rw [view, view, h.content t k]

lemma settled_knit {G : Rule V E} : Settled names (fun e => Held names G b e ∧ Knit b e) where
  names _ h := h.1.sound.within
  still e e' h hs := by
    refine ⟨settled_held.still _ _ h.1 hs,fun t td' htd' => ?_,fun t k data hc => ?_,?_⟩
    · obtain ⟨td,htd,hf⟩ := hs.back htd'
      have hsecs := congrArg (fun td : TableData V E => td.secondaryIndexes) hf
      exact Eq.trans hsecs (h.2.bare t td htd)
    · rw [hs.content t k] at hc
      exact h.2.legible t k data hc
    · rw [view_still hs]
      exact h.2.linked

lemma view_of_lookup (htd : e.tables.lookup t = some td)
    {k data : Bytes} (hlook : td.index.lookup k = some data) : view e t k = decodeRow data := by
  rw [view, content, htd, bind_some, hlook]
  rfl

lemma lookup_of_view (h : view e t k = some row) :
    ∃ td data, e.tables.lookup t = some td ∧ td.index.lookup k = some data ∧
      decodeRow data = some row := by
  rw [view] at h
  obtain ⟨data,hc,hdec⟩ := bind_eq_some_iff.mp h
  obtain ⟨td,htd,hlook⟩ := bind_eq_some_iff.mp hc
  exact ⟨td,data,htd,hlook,hdec⟩

lemma content_onTable (t : String) (f : TableData V E → TableData V E) (t' : String)
    (k : Bytes) : (e.onTable t f).content t' k =
      if t' = t then (e.tables.lookup t).bind (fun td => (f td).index.lookup k)
      else e.content t' k :=
  row_onTable e t f (t',k)

lemma content_putRow (t : String) (k data : Bytes) (t' : String) (k' : Bytes) :
    (putRow ev t k data e).2.content t' k' =
      if t' = t ∧ k' = k then (e.tables.lookup t).map (fun td => ev.spill e td data)
      else e.content t' k' := by
  refine (content_onTable t _ t' k').trans ?_
  change (if t' = t then (e.tables.lookup t).bind _ else e.content t' k') = _
  by_cases ht : t' = t
  · rw [if_pos ht, content, ht]
    cases e.tables.lookup t with
    | none => simp
    | some td =>
      by_cases hk : k' = k
      · simp [hk]
      · simp [hk, OrderedMap.lookup_insert]
  · rw [if_neg ht, if_neg (fun h => ht h.1)]

lemma content_deleteRow (t : String) (k : Bytes) (t' : String) (k' : Bytes) :
    (deleteRow t k e).2.content t' k' = if t' = t ∧ k' = k then none else e.content t' k' := by
  refine (content_onTable t _ t' k').trans ?_
  change (if t' = t then (e.tables.lookup t).bind _ else e.content t' k') = _
  by_cases ht : t' = t
  · rw [if_pos ht, content, ht]
    cases e.tables.lookup t with
    | none => simp
    | some td =>
      by_cases hk : k' = k
      · simp [hk]
      · simp [hk, OrderedMap.lookup_erase]
  · rw [if_neg ht, if_neg (fun h => ht h.1)]

lemma view_putRow (hc : Coded ev) (htd : e.tables.lookup t = some td) (hlen : row.length < 256) :
    view (putRow ev t k (serialize row) e).2 = put (view e) t k row := by
  funext t' k'
  rw [view, content_putRow, put, htd]
  split
  · exact hc.decoded row e td hlen
  · rfl

lemma view_deleteRow (t : String) (k : Bytes) (t' : String) (k' : Bytes) :
    view (deleteRow t k e).2 t' k' = if t' = t ∧ k' = k then none else view e t' k' := by
  rw [view, content_deleteRow]
  split
  · rfl
  · rfl

variable {F : Engine V E → Prop}

structure Joins (b e : Engine V E) (t : String) (k : Bytes) (row : List V) : Prop where
  short : row.length < 256
  backed : ∀ schema, schemas b t = some schema → RowBacked (schemas b) (view e) schema row
  same : ∀ old, view e t k = some old → ∀ i, RefersTo (schemas b) t i → row[i]? = old[i]?

lemma Joins.still {e' : Engine V E}
    (h : Joins b e t k row) (hs : Still e e') : Joins b e' t k row := by
  refine ⟨h.short,?_,?_⟩
  · rw [view_still hs]
    exact h.backed
  · rw [view_still hs]
    exact h.same

lemma bare_onTable {f : TableData V E → TableData V E}
    (hf : ∀ td, (f td).secondaryIndexes = td.secondaryIndexes)
    (h : ∀ t td, e.tables.lookup t = some td → td.secondaryIndexes = []) :
    ∀ t' td, (e.onTable t f).tables.lookup t' = some td → td.secondaryIndexes = [] := by
  intro t' td' htd'
  rcases lookup_adjust_cases htd' with ⟨-,td,htd,rfl⟩ | ⟨-,htd'⟩
  · rw [hf]
    exact h t' td htd
  · exact h t' td' htd'

lemma triple_knit_putRow (hc : Coded ev) :
    Triple (fun e => Knit b e ∧ Joins b e t k row) (putRow ev t k (serialize row))
      (fun _ => Knit b) F := by
  intro e he
  obtain ⟨he,hjoins⟩ := he
  refine (⟨bare_onTable (fun _ => rfl) he.bare,fun t' k' data hd => ?_,?_⟩ :
    Knit b (putRow ev t k (serialize row) e).2)
  · rw [content_putRow] at hd
    split at hd
    · obtain ⟨td,-,rfl⟩ := map_eq_some_iff.mp hd
      exact ⟨row,hc.decoded row e td hjoins.short⟩
    · exact he.legible t' k' data hd
  cases htd : e.tables.lookup t with
  | some td =>
    rw [view_putRow hc htd hjoins.short]
    exact linked_put he.linked hjoins.backed hjoins.same
  | none =>
    have hview : view (putRow ev t k (serialize row) e).2 = view e := by
      funext t' k'
      rw [view, content_putRow, view, htd]
      split
      · rename_i hhere
        rw [content, hhere.1, htd]
        rfl
      · rfl
    rw [hview]
    exact he.linked

lemma triple_knit_deleteRow :
    Triple (fun e => Knit b e ∧ ∀ row, view e t k = some row → Cut (schemas b) (view e) t row)
      (deleteRow t k) (fun _ => Knit b) F := by
  intro e he
  obtain ⟨he,hcut⟩ := he
  refine (⟨bare_onTable (fun _ => rfl) he.bare,fun t' k' data hd => ?_,?_⟩ :
    Knit b (deleteRow t k e).2)
  · rw [content_deleteRow] at hd
    split at hd
    · cases hd
    · exact he.legible t' k' data hd
  have hsub : ∀ t' k' row, view (deleteRow t k e).2 t' k' = some row → view e t' k' = some row := by
    intro t' k' row hrow
    rw [view_deleteRow] at hrow
    split at hrow
    · cases hrow
    · exact hrow
  refine linked_sub he.linked hsub (fun t' k' row hrow => ?_)
  rw [view_deleteRow]
  split
  · rename_i hhere
    rw [hhere.1, hhere.2] at hrow
    refine .inr (fun child schema hS fk hfk href parent hparent k1 row1 vals hrow1 => ?_)
    rw [hhere.1] at href hparent
    exact hcut row hrow child schema hS fk hfk href parent hparent k1 row1 vals
      (hsub child k1 row1 hrow1)
  · exact .inl hrow

section

lemma project_range (vals : List V) : project vals (range vals.length) = vals := by
  refine ext_getElem? (fun j => ?_)
  rw [project]
  have hmap : (range vals.length).filterMap (vals[·]?) =
      ((range vals.length).map (fun i => (vals[i]?).getD null)) := by
    refine (filterMap_eq_map_iff_forall_eq_some.mpr ?_)
    intro i hi
    have hlt := mem_range.mp hi
    rw [getElem?_eq_getElem hlt]
    rfl
  rw [hmap, getElem?_map]
  by_cases hj : j < vals.length
  · rw [getElem?_range hj, map_some, getElem?_eq_getElem hj]
    rfl
  · rw [getElem?_eq_none (by simpa using hj), getElem?_eq_none (by simpa using hj)]
    rfl

variable {columns : List ℕ}

lemma getElem?_project
    (hlen : (project row columns).length = columns.length) {j i : ℕ} (hj : columns[j]? = some i) :
    ∃ v, row[i]? = some v ∧ (project row columns)[j]? = some v := by
  induction columns generalizing j with
  | nil => cases hj
  | cons c columns ih =>
    rw [project] at hlen ih ⊢
    cases hc : row[c]? with
    | none =>
      have hle := length_filterMap_le (row[·]?) columns
      simp only [filterMap_cons, hc, length_cons] at hlen
      omega
    | some v =>
      simp only [filterMap_cons, hc, length_cons, Nat.add_right_cancel_iff] at hlen ⊢
      cases j with
      | zero =>
        cases hj
        exact ⟨v,hc,rfl⟩
      | succ j => exact ih hlen hj

lemma hasValues_of_key (hc : Coded ev) {row vals : List V} (hlen : vals.length = columns.length)
    (hkey : keyBytes vals (range vals.length) = keyBytes row columns) :
    HasValues row columns vals := by
  rw [keyBytes, project_range, keyBytes] at hkey
  have hvals := hc.encode_inj _ _ hkey
  intro j i hj
  obtain ⟨v,hv,hproj⟩ := getElem?_project (hvals ▸ hlen) hj
  exact ⟨v,v,hv,hvals ▸ hproj,.inl rfl⟩

lemma fkParentExists_backed (hc : Coded ev) {parent : TableData V E}
    {vals : List V} (hgood : TableGood keyRule parent) (hbare : parent.secondaryIndexes = [])
    (hlegible : ∀ k data, parent.index.lookup k = some data →
      ∃ row : List V, decodeRow data = some row)
    (hlen : vals.length = columns.length) (h : fkParentExists parent columns vals = true) :
    ∃ k data row, parent.index.lookup k = some data ∧ decodeRow data = some row ∧
      HasValues row columns vals := by
  rw [fkParentExists] at h
  split at h
  · rename_i hpk
    obtain ⟨data,hdata⟩ := isSome_iff_exists.mp h
    obtain ⟨row,hrow⟩ := hlegible _ data hdata
    have hkey := (hgood.stored _ data row hdata hrow).2 hpk.1
    refine ⟨_,data,row,hdata,hrow,hasValues_of_key hc hlen ?_⟩
    rw [hkey, hpk.2]
    rfl
  rw [hbare] at h
  simp only [find?_nil, ite_self] at h
  obtain ⟨entry,hentry,hall⟩ := any_eq_true.mp h
  have hlook := (OrderedMap.entries_mem_iff parent.index entry.1 entry.2).mp hentry
  obtain ⟨row,hrow⟩ := hlegible entry.1 entry.2 hlook
  refine ⟨entry.1,entry.2,row,hlook,hrow,fun j i hj => ?_⟩
  have hmem : (i,j) ∈ columns.zipIdx := mk_mem_zipIdx_iff_getElem?.mpr hj
  have hsame := all_eq_true.mp hall (i,j) hmem
  rw [hc.readAt entry.2 row i hrow] at hsame
  cases hv : row[i]? with
  | none =>
    rw [hv] at hsame
    cases hsame
  | some v =>
    cases hw : vals[j]? with
    | none =>
      rw [hv, hw] at hsame
      cases hsame
    | some w =>
      rw [hv, hw] at hsame
      exact ⟨v,w,rfl,rfl,.inr hsame⟩

lemma rowBacked_of_hasParents (hc : Coded ev) (hdecl : WellDeclared (schemas b))
    (hheld : Held names keyRule b e) (hknit : Knit b e) {schema : Schema V}
    (hS : schemas b t = some schema) (h : HasParents e schema row) :
    RowBacked (schemas b) (view e) schema row := by
  intro fk hfk vals hvals
  obtain ⟨parent,hparent,hfound⟩ := h fk hfk vals hvals
  have hSp : schemas b fk.refTable = some parent.schema := by
    rw [← schemas_held hheld]
    exact schemas_some hparent
  obtain ⟨-,hchild,hdeclared⟩ := hdecl t schema hS fk hfk
  obtain ⟨hrefs,hcount⟩ := hdeclared parent.schema hSp
  have hlen : vals.length = (parentColumns parent.schema fk).length := by
    rw [(childValues_eq.mp hvals).1, length_map, hchild, hrefs, hcount]
  obtain ⟨k,data,row',hlook,hdec,hhas⟩ := fkParentExists_backed hc
    (hheld.sound.tables _ parent hparent) (hknit.bare _ parent hparent)
    (fun k data hlook => hknit.legible fk.refTable k data (by rw [content, hparent]; exact hlook))
    hlen hfound
  exact ⟨parent.schema,hSp,k,row',(view_of_lookup hparent hlook).trans hdec,hhas⟩

end

section
variable {td : TableData V E}

abbrev Tied (names : String → Prop) (b e : Engine V E) : Prop := Held names keyRule b e ∧ Knit b e

def SparesRefs (S : Schemas V) (t : String) (schema : Schema V) (assignments : List (String × E)) :
    Prop :=
  ∀ i, RefersTo S t i → ¬ Assigns schema assignments i

def SparesForeign (schema : Schema V) (assignments : List (String × E)) : Prop :=
  ∀ fk ∈ schema.foreignKeys, ∀ i ∈ childColumns schema fk, ¬ Assigns schema assignments i

lemma triple_joins
    (table : String) {f : List SecondaryIndex → List SecondaryIndex × Except CoreError Unit}
    (hf : f [] = ([],.ok ())) :
    Triple (fun e => Knit b e ∧ Joins b e t k row) (onSecondaries table f)
      (fun _ e => Knit b e ∧ Joins b e t k row) F :=
  triple_bare (fun _ h => h.1.bare) table hf

def InsertJoins (b : Engine V E) (table : String) (p : InsertPlan V) (e : Engine V E) : Prop :=
  (p.update = none → Joins b e table p.key p.row) ∧
    ∀ old new, p.update = some (old,new) → Joins b e table p.key new

lemma knit_insertRow (hq : Quiet ev names Still) (hc : Coded ev)
    (hdecl : WellDeclared (schemas b)) {stmt : InsertStmt E Q}
    (hS : schemas b stmt.table = some td.schema) (hcols : td.schema.columns.length < 256)
    (hpk : Referenced (schemas b) stmt.table → td.schema.primaryKeyColumns ≠ [])
    (hspares : ∀ assignments, stmt.onConflict = some (.doUpdate assignments) →
      SparesRefs (schemas b) stmt.table td.schema assignments ∧
        SparesForeign td.schema assignments) (values : List V) (done : List (List V)) :
    Triple (Tied names b) (insertRow ev none stmt td done values) (fun _ => Knit b) (Knit b) := by
  refine triple_eachRow (R := InsertJoins b stmt.table)
    (triple_local (R := fun plan e => ∀ p, plan = some p → InsertJoins b stmt.table p e)
      settled_knit (fun e0 he0 => ?_)) (fun n p => ?_) (fun _ h => h.2) done
  · refine (triple_insertCheck hq he0.1.sound.within stmt td values).post (fun plan e hs => ⟨hs.1,fun p hp => ?_⟩)
    have hfacts := hs.2 p hp
    have hbacked := rowBacked_of_hasParents hc hdecl he0.1 he0.2 hS hfacts.parents
    refine ⟨fun hnone => Joins.still ⟨hfacts.prepared.length.symm ▸ hcols,?_,?_⟩ hs.1,
      fun old new hupd => ?_⟩
    · intro schema hschema
      rw [hS] at hschema
      cases hschema
      exact hbacked
    · intro old hold i hrefers
      obtain ⟨child,schema,hchild,fk,hfk,href,-⟩ := hrefers
      rcases hfacts.fresh hnone with hfresh | hno
      · obtain ⟨td',data,htd',hlook,-⟩ := lookup_of_view hold
        rw [hfacts.existing, content, htd'] at hfresh
        exact absurd (hlook.symm.trans hfresh) (by simp)
      · exact absurd hno (hpk ⟨child,schema,hchild,fk,hfk,href⟩)
    obtain ⟨data,assignments,hdata,hdec,hconf,hassigned⟩ := hfacts.update old new hupd
    obtain ⟨hrefs,hforeign⟩ := hspares assignments hconf
    rw [hfacts.existing] at hdata
    have hview : view e0 stmt.table p.key = some old := by
      rw [view, hdata]
      exact hdec
    refine Joins.still ⟨?_,fun schema hschema => ?_,fun old' hold' i hrefers => ?_⟩ hs.1
    · rw [hassigned.length]
      exact hc.short data old hdec
    · have hlinked := he0.2.linked stmt.table schema hschema p.key old hview
      rw [hS] at hschema
      cases hschema
      intro fk hfk vals hvals
      rw [childValues_congr (fun i hi => hassigned.others (hforeign fk hfk i hi))] at hvals
      exact hlinked fk hfk vals hvals
    · rw [hview] at hold'
      cases hold'
      exact hassigned.others (hrefs i hrefers)
  · rw [insertWrite]
    cases hupd : p.update with
    | some u =>
      intro e he
      refine triple_bind (triple_joins stmt.table rfl) (fun _ => ?_) e ⟨he.1.2,he.2.2 u.1 u.2 hupd⟩
      refine triple_bind (triple_noUndo stmt.table p.key p.existing) (fun _ => ?_)
      exact triple_bind (triple_knit_putRow hc) (fun _ => stays_pure _)
    | none =>
      intro e he
      refine triple_bind (triple_joins stmt.table rfl) (fun _ => ?_) e ⟨he.1.2,he.2.1 hupd⟩
      refine triple_bind (triple_noUndo stmt.table p.key p.existing) (fun _ => ?_)
      exact triple_bind (triple_knit_putRow hc) (fun _ => stays_pure _)

/-- The rows of the table are as in the state `b` where foreign keys refer to
them. -/
def Stable (b : Engine V E) (t : String) (e : Engine V E) : Prop :=
  ∀ k row, view e t k = some row → ∃ old, view b t k = some old ∧
    ∀ i, RefersTo (schemas b) t i → row[i]? = old[i]?

lemma settled_stable : Settled names (fun e => Tied names b e ∧ Stable b t e) where
  names _ h := h.1.1.sound.within
  still e e' h hs := by
    refine ⟨settled_knit.still _ _ h.1 hs,?_⟩
    rw [Stable, view_still hs]
    exact h.2

lemma triple_stable_putRow (hc : Coded ev) {row old : List V} (hlen : row.length < 256) (hold : view b t k = some old)
    (hsame : ∀ i, RefersTo (schemas b) t i → row[i]? = old[i]?) :
    Triple (Stable b t) (putRow ev t k (serialize row)) (fun _ => Stable b t) F := by
  intro e he
  change Stable b t (putRow ev t k (serialize row) e).2
  intro k' row' hrow'
  rw [view, content_putRow] at hrow'
  split at hrow'
  · rename_i hhere
    obtain ⟨data,hdata,hdec⟩ := bind_eq_some_iff.mp hrow'
    obtain ⟨td,-,rfl⟩ := map_eq_some_iff.mp hdata
    rw [hc.decoded row e td hlen] at hdec
    cases hdec
    rw [hhere.2]
    exact ⟨old,hold,hsame⟩
  · exact he k' row' hrow'

lemma triple_candidates_stored (hq : Quiet ev names Still) (hw : Within names b)
    {table : String} {td0 td : TableData V E}
    (htd0 : b.tables.lookup table = some td0) (filter : Option E) :
    Triple (Still b) (candidates ev none table td filter)
      (fun entries e => Still b e ∧ ∀ entry ∈ entries, b.content table entry.1 = some entry.2)
      (Still b) :=
  (triple_candidates_sees hq hw htd0 (sees_none b.tm td0) filter).post (fun _ _ h => ⟨h.1,h.2.1⟩)

lemma knit_updateRow (hq : Quiet ev names Still) (hc : Coded ev)
    (hdecl : WellDeclared (schemas b)) {stmt : UpdateStmt E}
    (hS : schemas b stmt.table = some td.schema)
    (hspares : SparesRefs (schemas b) stmt.table td.schema stmt.assignments)
    {entry : Bytes × Bytes} (hentry : b.content stmt.table entry.1 = some entry.2)
    (done : List (List V)) :
    Triple (fun e => Tied names b e ∧ Stable b stmt.table e) (updateRow ev none stmt td done entry)
      (fun _ e => Knit b e ∧ Stable b stmt.table e)
      (fun e => Knit b e ∧ Stable b stmt.table e) := by
  have hview : ∀ old : List V, decodeRow entry.2 = some old →
      view b stmt.table entry.1 = some old := by
    intro old hold
    rw [view, hentry]
    exact hold
  refine triple_eachRow (R := fun (p : UpdatePlan V) e => Joins b e stmt.table p.key p.new ∧
      view b stmt.table p.key = some p.old ∧
        ∀ i, RefersTo (schemas b) stmt.table i → p.new[i]? = p.old[i]?)
    (triple_noted settled_stable (noted none stmt.table entry.1 (some entry.2)) (fun _ h => h)
      (fun e0 he0 => ?_)) (fun n p => ?_) (fun _ h => ⟨h.1.2,h.2⟩) done
  · refine (triple_updateCheck hq he0.1.1.sound.within stmt td entry).post (fun plan e hs =>
      hs.imp (fun p hfacts e' hstill => ?_))
    have hold := hview p.old hfacts.old
    have hsame : ∀ i, RefersTo (schemas b) stmt.table i → p.new[i]? = p.old[i]? :=
      fun i hrefers => hfacts.assigned.others (hspares i hrefers)
    rw [hfacts.key]
    refine ⟨Joins.still ⟨?_,fun schema hschema => ?_,fun cur hcur i hrefers => ?_⟩ hstill,
      hold,hsame⟩
    · rw [hfacts.assigned.length]
      exact hc.short entry.2 p.old hfacts.old
    · rw [hS] at hschema
      cases hschema
      exact rowBacked_of_hasParents hc hdecl he0.1.1 he0.1.2 hS hfacts.parents
    · obtain ⟨old,hold',hstable⟩ := he0.2 entry.1 cur hcur
      rw [hold] at hold'
      cases hold'
      rw [hstable i hrefers, hsame i hrefers]
  · intro e he
    obtain ⟨⟨⟨-,hknit⟩,hstable⟩,hjoins,hold,hsame⟩ := he
    refine triple_bind (P := fun e => (Knit b e ∧ Joins b e stmt.table p.key p.new) ∧
      Stable b stmt.table e) (triple_noTxn _) (fun _ => ?_) e ⟨⟨hknit,hjoins⟩,hstable⟩
    refine triple_bind (triple_bare (fun _ h => h.1.1.bare) stmt.table rfl) (fun _ => ?_)
    refine triple_bind (Triple.and ?_ ?_) (fun _ => stays_pure _)
    · exact (triple_knit_putRow hc).pre (fun _ h => h.1)
    · exact (triple_stable_putRow hc hjoins.short hold hsame).pre (fun _ h => h.2)

end

end ByteDB.Engine
