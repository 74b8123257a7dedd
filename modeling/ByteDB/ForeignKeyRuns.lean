import ByteDB.Constraints
import ByteDB.ForeignKeys

/-!
# Foreign keys over whole runs

A DELETE first goes through its rows, with the cascades to other tables, and
cuts them off from the rows that refer to them; only then are they deleted.
With INSERT and UPDATE, which look for parents, this keeps every reference met
in a run whose statements leave the referenced columns alone.
-/

set_option autoImplicit false

namespace ByteDB.Engine
open ByteDB.Assoc Command Codec References List Function Option Prod

variable {V E Q : Type} [Codec V] {ev : Evaluator V E Q} {crc : Bytes → UInt32}
  {names : String → Prop} {b e : Engine V E} {F : Engine V E → Prop}

section
variable {e₁ : Engine V E} {t : String}

structure Trimmed (b e₁ : Engine V E) (t : String) (e : Engine V E) : Prop where
  knit : Knit b e
  derived : Derived (view e₁) (view e)
  parent : ∀ k, view e t k = view e₁ t k

def Gone (tg : Target) (e : Engine V E) : Prop :=
  ∀ row, view e tg.childName tg.key = some row → ∀ i ∈ tg.childIdxs, ∀ v, row[i]? = some v →
    isNull v = true

structure CascadeSafe (S : Schemas V) (tg : Target) : Prop where
  acts : tg.action ≠ .restrict
  cascade : tg.action = .cascade → ¬ Referenced S tg.childName
  setNull : tg.action = .setNull → ∀ i ∈ tg.childIdxs, ¬ RefersTo S tg.childName i

variable {tg : Target}

lemma Gone.derived (h : Gone tg e₁) (hd : Derived (view e₁) (view e)) : Gone tg e := by
  intro row hrow i hi v hv
  obtain ⟨old,hold,hn⟩ := hd _ _ row hrow
  by_contra hnull
  have hnot : isNull v = false := by simpa using hnull
  exact hnull (h old hold i hi v (hn i v hv hnot))

lemma Trimmed.refl (h : Knit b e) : Trimmed b e t e := ⟨h,.refl _,fun _ => rfl⟩

lemma Trimmed.trans {e₂ : Engine V E} (h : Trimmed b e₁ t e₂) (h' : Trimmed b e₂ t e) :
    Trimmed b e₁ t e :=
  ⟨h'.knit,h.derived.trans h'.derived,fun k => (h'.parent k).trans (h.parent k)⟩

lemma triple_cascadeDelete (hne : tg.childName ≠ t) (hun : ¬ Referenced (schemas b) tg.childName) :
    Triple (Trimmed b e₁ t) (cascadeDelete none tg)
      (fun _ e => Trimmed b e₁ t e ∧ Gone tg e) F := by
  refine triple_bind (Q := fun _ => Trimmed b e₁ t) (triple_get _ (fun _ h => h)) (fun prev => ?_)
  refine triple_bind (Q := fun _ => Trimmed b e₁ t) ?_ (fun _ =>
    triple_bind (triple_noUndo tg.childName tg.key prev) (fun _ => ?_))
  · rw [unindex]
    split
    · exact triple_pure () (fun _ h => h)
    · exact triple_bare (fun _ h => h.knit.bare) _ rfl
  have hknit : Triple (Trimmed b e₁ t) (deleteRow tg.childName tg.key) (fun _ => Knit b) F :=
    triple_knit_deleteRow.pre (fun e he => ⟨he.knit,fun row _ => cut_of_unreferenced hun row⟩)
  intro e he
  refine (⟨⟨hknit e he,?_,fun k => ?_⟩,?_⟩ : Trimmed b e₁ t (deleteRow tg.childName tg.key e).2 ∧
      Gone tg (deleteRow tg.childName tg.key e).2)
  · intro t' k row hrow
    rw [view_deleteRow] at hrow
    split at hrow
    · cases hrow
    · exact he.derived t' k row hrow
  · rw [view_deleteRow, if_neg (fun h => hne h.1.symm)]
    exact he.parent k
  · intro row hrow
    rw [view_deleteRow, if_pos ⟨rfl,rfl⟩] at hrow
    cases hrow

lemma triple_cascadeSetNull (hc : Coded ev) (hne : tg.childName ≠ t)
    (hnot : ∀ i ∈ tg.childIdxs, ¬ RefersTo (schemas b) tg.childName i) :
    Triple (Trimmed b e₁ t) (cascadeSetNull ev none tg)
      (fun _ e => Trimmed b e₁ t e ∧ Gone tg e) F := by
  refine triple_bind (Q := fun prev e => Trimmed b e₁ t e ∧
    prev = e.content tg.childName tg.key) (triple_get _ (fun e he => ⟨he,rfl⟩)) (fun prev => ?_)
  cases prev with
  | none =>
    refine triple_pure () (fun e he => ⟨he.1,fun row hrow => ?_⟩)
    rw [view, ← he.2] at hrow
    cases hrow
  | some data =>
    dsimp only
    cases hdec : (decodeRow data : Option (List V)) with
    | none =>
      refine triple_pure () (fun e he => ⟨he.1,fun row hrow => ?_⟩)
      rw [view, ← he.2, bind_some, hdec] at hrow
      cases hrow
    | some old =>
      have hlen : (nulled tg.childIdxs old).length < 256 := by
        rw [nulled_length]
        exact hc.short data old hdec
      have hnulls : Nulls old (nulled tg.childIdxs old) :=
        fun i v hv hnull => nulled_value hc.toLawful _ _ hv hnull
      intro e he
      obtain ⟨he,hprev⟩ := he
      have hview : view e tg.childName tg.key = some old := by
        rw [view, ← hprev]
        exact hdec
      have hjoins : Joins b e tg.childName tg.key (nulled tg.childIdxs old) := by
        refine ⟨hlen,fun schema hschema => ?_,fun old' hold' i hrefers => ?_⟩
        · exact RowBacked.of_nulls hc.isNull_null hnulls
            (he.knit.linked _ schema hschema _ old hview)
        · rw [hview] at hold'
          cases hold'
          exact nulled_other _ _ (fun hi => hnot i hi hrefers)
      obtain ⟨td,-,htd,-⟩ := lookup_of_view hview
      refine triple_bind (P := fun s => s = e) (Q := fun _ s => s = e) ?_ (fun _ =>
        triple_bind (triple_noUndo tg.childName tg.key (some data)) (fun _ => ?_)) e rfl
      · refine triple_bare (fun s hs => ?_) _ rfl
        rw [hs]
        exact he.knit.bare
      rintro s rfl
      refine (⟨⟨triple_knit_putRow (F := F) hc s ⟨he.knit,hjoins⟩,?_,fun k => ?_⟩,?_⟩ :
        Trimmed b e₁ t (putRow ev tg.childName tg.key (serialize (nulled tg.childIdxs old)) s).2 ∧
          Gone tg (putRow ev tg.childName tg.key (serialize (nulled tg.childIdxs old)) s).2)
      · rw [view_putRow hc htd hlen]
        intro t' k row hrow
        rw [put] at hrow
        split at hrow
        · rename_i hhere
          cases hrow
          obtain ⟨old₁,hold₁,hn⟩ := he.derived _ _ old hview
          rw [hhere.1, hhere.2]
          exact ⟨old₁,hold₁,hn.trans hnulls⟩
        · exact he.derived t' k row hrow
      · rw [view_putRow hc htd hlen, put, if_neg (fun h => hne h.1.symm)]
        exact he.parent k
      intro row hrow i hi v hv
      rw [view_putRow hc htd hlen, put, if_pos ⟨rfl,rfl⟩] at hrow
      cases hrow
      rw [nulled_null _ _ hi hv]
      exact hc.isNull_null

lemma triple_cascade (hc : Coded ev) (hne : tg.childName ≠ t) (hsafe : CascadeSafe (schemas b) tg) :
    Triple (Trimmed b e₁ t) (cascade ev none tg) (fun _ e => Trimmed b e₁ t e ∧ Gone tg e) F := by
  rw [cascade]
  cases haction : tg.action with
  | restrict => exact absurd haction hsafe.acts
  | cascade => exact triple_cascadeDelete hne (hsafe.cascade haction)
  | setNull => exact triple_cascadeSetNull hc hne (hsafe.setNull haction)

lemma triple_cascades (hc : Coded ev) (targets : List Target)
    (hne : ∀ tg ∈ targets, tg.childName ≠ t) (hsafe : ∀ tg ∈ targets, CascadeSafe (schemas b) tg) :
    Triple (Trimmed b e₁ t) (loop (fun _ tg => cascade ev none tg) () targets)
      (fun _ e => Trimmed b e₁ t e ∧ ∀ tg ∈ targets, Gone tg e) F := by
  refine (triple_loop_done (I := fun done _ e => Trimmed b e₁ t e ∧ ∀ tg ∈ done, Gone tg e)
    targets (fun done tg rest _ hsplit => ?_) ()).pre (fun _ h => ⟨h,nofun⟩)
  have htg : tg ∈ targets := by simp [hsplit]
  intro e he
  refine (triple_cascade hc (hne tg htg) (hsafe tg htg)).post (fun _ e' he' => ?_) e (Trimmed.refl he.1.knit)
  refine ⟨he.1.trans he'.1,fun tg' htg' => ?_⟩
  rcases mem_append.mp htg' with htg' | htg'
  · exact (he.2 tg' htg').derived he'.1.derived
  · rw [mem_singleton.mp htg']
    exact he'.2

end

/-- What DELETE must find in the other tables, whose rows it looks at one level
deep, and in its own, which it does not look at. -/
structure DeleteSafe (S : Schemas V) (r : Rows V) (t : String) : Prop where
  apart : ∀ schema, S t = some schema → ∀ fk ∈ schema.foreignKeys, fk.refTable = t →
    ∀ k row, r t k = some row → childValues schema fk row = none
  cascade : ∀ child schema, S child = some schema → child ≠ t → ∀ fk ∈ schema.foreignKeys,
    fk.refTable = t → fk.onDelete = .cascade → ¬ Referenced S child
  setNull : ∀ child schema, S child = some schema → child ≠ t → ∀ fk ∈ schema.foreignKeys,
    fk.refTable = t → fk.onDelete = .setNull → ∀ i ∈ childColumns schema fk, ¬ RefersTo S child i
  comparable : ∀ child schema, S child = some schema → ∀ fk ∈ schema.foreignKeys,
    fk.refTable = t → ∀ k row vals, r child k = some row → childValues schema fk row = some vals →
    ∀ v ∈ vals, same v v = true

section
variable {t : String}

def Covers (S : Schemas V) (t : String) (parent : Schema V) (refs : List FkRef) : Prop :=
  ∀ child schema, S child = some schema → child ≠ t → ∀ fk ∈ schema.foreignKeys,
    fk.refTable = t → ∃ fkr ∈ refs, fkr.childName = child ∧
      fkr.parentIdxs = parentColumns parent fk ∧ fkr.childIdxs = childColumns schema fk

lemma fkRefs_covers (parent : Schema V) : Covers (schemas e) t parent (fkRefs e t parent) := by
  intro child schema hS hne fk hfk href
  obtain ⟨td,htd,rfl⟩ := map_eq_some_iff.mp hS
  refine ⟨⟨child,parentColumns parent fk,childColumns td.schema fk,fk.onDelete⟩,
    mem_flatMap.mpr ⟨⟨child,td⟩,AList.mem_lookup_iff.mp htd,?_⟩,rfl,rfl,rfl⟩
  rw [if_neg hne]
  exact mem_map.mpr ⟨fk,mem_filter.mpr ⟨hfk,decide_eq_true href⟩,rfl⟩

lemma targetsOf_hit (hc : Coded ev) {fkr : FkRef} {child : TableData V E} {schema : Schema V}
    {fk : ForeignKey} {row row' vals : List V} {k data : Bytes} {ts : List Target}
    (hchild : e.tables.lookup fkr.childName = some child) (hbare : child.secondaryIndexes = [])
    (hidxs : fkr.childIdxs = childColumns schema fk)
    (hlen : fkr.parentIdxs.length = fkr.childIdxs.length)
    (hlook : child.index.lookup k = some data) (hdec : decodeRow data = some row')
    (hvals : childValues schema fk row' = some vals) (hself : ∀ v ∈ vals, same v v = true)
    (hhas : HasValues row fkr.parentIdxs vals) (h : targetsOf e row fkr = .ok ts) :
    ∃ tg ∈ ts, tg.childName = fkr.childName ∧ tg.key = k ∧ tg.childIdxs = fkr.childIdxs := by
  -- Each value of the child has its equal in the deleted row.
  have hpair : ∀ j i : ℕ, fkr.childIdxs[j]? = some i → ∃ v w, row'[i]? = some w ∧
      (fkr.parentIdxs.map (fun i => (row[i]?).getD null))[j]? = some v ∧ same w v = true := by
    intro j i hj
    obtain ⟨hlt,-⟩ := List.getElem?_eq_some_iff.mp hj
    have hj' := List.getElem?_eq_getElem (hlen ▸ hlt : j < fkr.parentIdxs.length)
    obtain ⟨v,w,hv,hw,hequal⟩ := hhas j _ hj'
    obtain ⟨w',hw',hrow',-⟩ := childValues_get hc.isNull_null hvals (hidxs ▸ hj)
    rw [hw] at hw'
    cases hw'
    refine ⟨v,w,hrow',?_,?_⟩
    · rw [getElem?_map, hj', map_some, hv]
      rfl
    · rcases hequal with rfl | hsame
      · exact hself v (mem_of_getElem? hw)
      · rw [hc.same_comm]
        exact hsame
  have hnulls : ¬ (fkr.parentIdxs.map (fun i => (row[i]?).getD null)).any isNull = true := by
    intro hany
    obtain ⟨v,hv,hnull⟩ := any_eq_true.mp hany
    obtain ⟨j,hj⟩ := List.mem_iff_getElem?.mp hv
    obtain ⟨hlt,-⟩ := List.getElem?_eq_some_iff.mp hj
    rw [List.length_map, hlen] at hlt
    have hj' := List.getElem?_eq_getElem hlt
    obtain ⟨v',w,hw,hv',hsame⟩ := hpair j _ hj'
    obtain ⟨w',-,hw',hnot⟩ := childValues_get hc.isNull_null hvals (by rw [← hidxs]; exact hj')
    rw [hj] at hv'
    cases hv'
    rw [hw] at hw'
    cases hw'
    rw [hc.same_comm, hc.same_null v w hnull hnot] at hsame
    cases hsame
  obtain ⟨values,hcols,hagree⟩ := hc.columns data row' fkr.childIdxs hdec
  have hagrees : agrees values fkr.childIdxs
      (fkr.parentIdxs.map (fun i => (row[i]?).getD null)) = true := by
    refine all_eq_true.mpr (fun c hcmem => ?_)
    have hj := mk_mem_zipIdx_iff_getElem?.mp hcmem
    obtain ⟨v,w,hw,hv,hsame⟩ := hpair c.2 c.1 hj
    rw [hagree c.1 (mem_of_getElem? hj), hw, hv]
    exact hsame
  have hcands : childCandidates child fkr.childIdxs
      (fkr.parentIdxs.map (fun i => (row[i]?).getD null)) = child.index.entries := by
    rw [childCandidates, hbare]
    simp
  have hhit : (k,data) ∈ child.index.entries.filter (fun c =>
      (decodeColumns c.2 (needed fkr.childIdxs)).any (fun values => agrees values fkr.childIdxs
        (fkr.parentIdxs.map (fun i => (row[i]?).getD null)))) := by
    refine mem_filter.mpr ⟨(OrderedMap.entries_mem_iff child.index k data).mpr hlook,?_⟩
    rw [hcols]
    exact hagrees
  rw [targetsOf, hchild] at h
  dsimp only at h
  rw [if_neg hnulls, hcands] at h
  split at h
  · cases h
  · cases h
    exact ⟨_,mem_map.mpr ⟨(k,data),hhit,rfl⟩,rfl,rfl,rfl⟩

lemma cut_of_gone (hc : Coded ev) (hdecl : WellDeclared (schemas b))
    {e₀ : Engine V E} (hknit : Knit b e₀)
    (hd₀ : Derived (view b) (view e₀)) (hsafe : DeleteSafe (schemas b) (view b) t)
    {parent : Schema V} (hparent : schemas b t = some parent) {refs : List FkRef}
    (hrefs : Covers (schemas b) t parent refs) {row : List V} {targets : List Target}
    (htargets : cascadeTargets e₀ refs row = .ok targets) (hd : Derived (view e₀) (view e))
    (hgone : ∀ tg ∈ targets, Gone tg e) : Cut (schemas b) (view e) t row := by
  intro child schema hS fk hfk href parent' hparent' k row' vals hrow' hvals hhas
  rw [hparent] at hparent'
  cases hparent'
  obtain ⟨mid,hmid,hn⟩ := hd child k row' hrow'
  have hmidvals := childValues_of_nulls hc.isNull_null hn hvals
  obtain ⟨old,hold,hn₀⟩ := hd₀ child k mid hmid
  have holdvals := childValues_of_nulls hc.isNull_null hn₀ hmidvals
  by_cases hne : child = t
  · subst hne
    rw [hsafe.apart schema hS fk hfk href k old hold] at holdvals
    cases holdvals
  obtain ⟨fkr,hfkr,hname,hpidxs,hidxs⟩ := hrefs child schema hS hne fk hfk href
  obtain ⟨td,data,htd,hlook,hdec⟩ := lookup_of_view hmid
  obtain ⟨hcols,hchild,hdeclared⟩ := hdecl child schema hS fk hfk
  obtain ⟨hplen,hcount⟩ := hdeclared parent (href ▸ hparent)
  have hok : ∃ ts, targetsOf e₀ row fkr = .ok ts := by
    rw [cascadeTargets] at htargets
    cases hout : refs.mapM (targetsOf e₀ row) with
    | error err =>
      rw [hout] at htargets
      cases htargets
    | ok out =>
      obtain ⟨ts,-,hts⟩ := (mapM_ok hout).1 fkr hfkr
      exact ⟨ts,hts⟩
  obtain ⟨ts,hts⟩ := hok
  obtain ⟨tg,htg,htgname,htgkey,htgidxs⟩ := targetsOf_hit hc (hname ▸ htd)
    (hknit.bare _ td htd) hidxs (by rw [hpidxs, hidxs, hplen, hcount, hchild]) hlook hdec
    hmidvals (hsafe.comparable child schema hS fk hfk href k old vals hold holdvals)
    (hpidxs ▸ hhas) hts
  -- A row that is left has a null in the foreign key.
  have hmem := (cascadeTargets_iff htargets tg).mpr ⟨fkr,hfkr,ts,hts,htg⟩
  obtain ⟨i,hi⟩ : ∃ i, i ∈ childColumns schema fk := by
    refine exists_mem_of_ne_nil _ (fun hnil => hcols ?_)
    rw [hnil] at hchild
    exact length_eq_zero_iff.mp hchild.symm
  obtain ⟨j,hj⟩ := mem_iff_getElem?.mp hi
  obtain ⟨v,-,hv,hnot⟩ := childValues_get hc.isNull_null hvals hj
  have hnull := hgone tg hmem row' (by rw [htgname, hname, htgkey]; exact hrow') i
    (by rw [htgidxs, hidxs]; exact hi) v hv
  rw [hnot] at hnull
  cases hnull

/-- The rows that DELETE has gone through: they are where they were, and no
row refers to them. -/
structure Passing (names : String → Prop) (b : Engine V E) (t : String)
    (done : List (Bytes × List V)) (e : Engine V E) : Prop where
  held : Held names keyRule b e
  trimmed : Trimmed b b t e
  cut : ∀ d ∈ done, view b t d.1 = some d.2 ∧ Cut (schemas b) (view e) t d.2

lemma settled_passing {done : List (Bytes × List V)} : Settled names (Passing names b t done) where
  names _ h := h.held.sound.within
  still e e' h hs := by
    obtain ⟨hheld,hknit⟩ := settled_knit.still _ _ ⟨h.held,h.trimmed.knit⟩ hs
    have hview := view_still hs
    refine ⟨hheld,⟨hknit,?_,?_⟩,?_⟩
    · rw [hview]
      exact h.trimmed.derived
    · rw [hview]
      exact h.trimmed.parent
    · rw [hview]
      exact h.cut

lemma triple_passing (hq : Quiet ev names Still) (hc : Coded ev)
    (hdecl : WellDeclared (schemas b)) {stmt : DeleteStmt E} {td : TableData V E}
    (hsafe : DeleteSafe (schemas b) (view b) stmt.table)
    (hparent : schemas b stmt.table = some td.schema) {refs : List FkRef}
    (hrefs : Covers (schemas b) stmt.table td.schema refs)
    (hcascades : ∀ fkr ∈ refs, fkr.childName ≠ stmt.table ∧
      (fkr.onDelete = .cascade → ¬ Referenced (schemas b) fkr.childName) ∧
      (fkr.onDelete = .setNull → ∀ i ∈ fkr.childIdxs, ¬ RefersTo (schemas b) fkr.childName i))
    {entry : Bytes × Bytes} (hentry : b.content stmt.table entry.1 = some entry.2)
    (done : List (Bytes × List V)) :
    Triple (Passing names b stmt.table done) (deleteRowOf ev none stmt td refs done entry)
      (fun done' e => Trimmed b b stmt.table e ∧ ∀ d ∈ done', view b stmt.table d.1 = some d.2 ∧
        Cut (schemas b) (view e) stmt.table d.2) (Knit b) := by
  refine triple_bind (Q := fun plan e => Passing names b stmt.table done e ∧
    ∀ p : DeletePlan V, plan = some p → view b stmt.table p.key = some p.row ∧
      cascadeTargets e refs p.row = .ok p.targets) ?_ (fun plan => ?_)
  · refine (triple_local (R := fun plan e => ∀ p : DeletePlan V, plan = some p →
      view b stmt.table p.key = some p.row ∧ cascadeTargets e refs p.row = .ok p.targets)
      settled_passing (fun e₀ he₀ => ?_)).fail (fun _ h => h.trimmed.knit)
    refine (triple_deleteCheck hq he₀.held.sound.within stmt td refs entry).post (fun plan e hs => ?_)
    cases plan with
    | none => exact ⟨hs,nofun⟩
    | some p =>
      obtain ⟨hstill,hfacts⟩ := hs
      refine ⟨hstill,fun p' hp' => ?_⟩
      cases hp'
      refine ⟨?_,?_⟩
      · rw [hfacts.key, view, hentry]
        exact hfacts.row
      · rw [cascadeTargets_still hstill]
        exact hfacts.targets
  cases plan with
  | none => exact triple_pure done (fun e he => ⟨he.1.trimmed,he.1.cut⟩)
  | some p =>
    intro e₀ he₀
    obtain ⟨hpass,hplan⟩ := he₀
    obtain ⟨hrow,htargets⟩ := hplan p rfl
    have htarget : ∀ tg ∈ p.targets, tg.childName ≠ stmt.table ∧ CascadeSafe (schemas b) tg := by
      intro tg htg
      obtain ⟨fkr,hfkr,ts,hts,hmem⟩ := (cascadeTargets_iff htargets tg).mp htg
      obtain ⟨hname,haction,hidxs,hnot⟩ := targetsOf_mem hts hmem
      obtain ⟨hne,hcascade,hnull⟩ := hcascades fkr hfkr
      rw [hname]
      refine ⟨hne,⟨haction ▸ hnot,?_,?_⟩⟩
      · rw [hname, haction]
        exact hcascade
      · rw [hname, haction, hidxs]
        exact hnull
    refine triple_bind (P := Trimmed b e₀ stmt.table) (Q := fun r e =>
      r = (p.key,p.row) ∧ Trimmed b e₀ stmt.table e ∧ ∀ tg ∈ p.targets, Gone tg e) ?_
      (fun r => triple_pure _ (fun e he => ?_)) e₀ (Trimmed.refl hpass.trimmed.knit)
    · refine triple_bind (triple_cascades hc p.targets (fun tg htg => (htarget tg htg).1)
        (fun tg htg => (htarget tg htg).2)) (fun _ => ?_)
      refine triple_bind (triple_noTxn _) (fun _ => triple_bind
        (triple_bare (fun _ h => h.1.knit.bare) stmt.table rfl) (fun _ => ?_))
      exact triple_pure _ (fun e he => ⟨rfl,he⟩)
    · obtain ⟨rfl,htrim,hgone⟩ := he
      refine ⟨hpass.trimmed.trans htrim,fun d hd => ?_⟩
      rcases mem_append.mp hd with hd | hd
      · exact ⟨(hpass.cut d hd).1,(hpass.cut d hd).2.derived hc.isNull_null htrim.derived⟩
      · rw [mem_singleton.mp hd]
        exact ⟨hrow,cut_of_gone hc hdecl hpass.trimmed.knit hpass.trimmed.derived hsafe hparent
          hrefs htargets htrim.derived hgone⟩

lemma triple_deletes (done : List (Bytes × List V)) (hnull : isNull (null : V) = true) :
    Triple (fun e => Trimmed b b t e ∧ ∀ d ∈ done, view b t d.1 = some d.2 ∧
        Cut (schemas b) (view e) t d.2)
      (loop (fun _ key => deleteRow t key) () (done.map fst)) (fun _ => Knit b) F := by
  refine (triple_loop (I := fun _ e => Knit b e ∧ (∀ k row, view e t k = some row →
    view b t k = some row) ∧ ∀ d ∈ done, view b t d.1 = some d.2 ∧
      Cut (schemas b) (view e) t d.2) (done.map fst) (fun key hkey _ => ?_) ()).weaken
    (fun e he => ⟨he.1.knit,fun k row hrow => (he.1.parent k).symm.trans hrow,he.2⟩)
    (fun _ _ h => h.1) (fun _ h => h)
  obtain ⟨d,hd,rfl⟩ := mem_map.mp hkey
  intro e he
  obtain ⟨hknit,hrows,hcut⟩ := he
  have hback : ∀ t' k row, view (deleteRow t d.1 e).2 t' k = some row → view e t' k = some row := by
    intro t' k row hrow
    rw [view_deleteRow] at hrow
    split at hrow
    · cases hrow
    · exact hrow
  have hdown : Derived (view e) (view (deleteRow t d.1 e).2) :=
    fun t' k row hrow => ⟨row,hback t' k row hrow,.refl row⟩
  refine (⟨triple_knit_deleteRow (F := F) e ⟨hknit,fun row hrow => ?_⟩,fun k row hrow => ?_,
    fun d' hd' => ⟨(hcut d' hd').1,(hcut d' hd').2.derived hnull hdown⟩⟩ :
      Knit b (deleteRow t d.1 e).2 ∧ (∀ k row, view (deleteRow t d.1 e).2 t k = some row →
        view b t k = some row) ∧ ∀ d' ∈ done, view b t d'.1 = some d'.2 ∧
          Cut (schemas b) (view (deleteRow t d.1 e).2) t d'.2)
  · have hsame := (hcut d hd).1.symm.trans (hrows d.1 row hrow)
    cases hsame
    exact (hcut d hd).2
  · exact hrows k row (hback t k row hrow)

end

section

def KeepsLinks (e : Engine V E) : Dml E Q → Prop
  | .insert stmt => ∀ td, e.tables.lookup stmt.table = some td →
      (Referenced (schemas e) stmt.table → td.schema.primaryKeyColumns ≠ []) ∧
      td.schema.columns.length < 256 ∧
      ∀ assignments, stmt.onConflict = some (.doUpdate assignments) →
        SparesRefs (schemas e) stmt.table td.schema assignments ∧
          SparesForeign td.schema assignments
  | .update stmt => ∀ td, e.tables.lookup stmt.table = some td →
      SparesRefs (schemas e) stmt.table td.schema stmt.assignments
  | .delete stmt => DeleteSafe (schemas e) (view e) stmt.table

lemma tied_insert (hq : Quiet ev names Still) (hc : Coded ev) (hread : Readable ev keyRule)
    (hdecl : WellDeclared (schemas e)) {stmt : InsertStmt E Q} (hload : NoLoad ev crc e stmt.table)
    (hup : Upholds ev keyRule none e (fun _ => True) (.insert stmt))
    (hkeep : KeepsLinks e (.insert stmt)) : Stays (Tied names e) (execInsert ev crc none stmt) := by
  have h : Steady ev (Tied names e) := settled_knit.steady hq
  refine stays_bind (stays_insertRows h none stmt ?_) (fun rows => ?_)
  · exact fun s td hs hnone hr => absurd hr (hs.1.noLoad hload hnone td)
  refine triple_bind_getTable (fun _ h => h.1) (fun _ h => h) hload (fun td₀ td htd₀ hdefn => ?_)
  have hschema : td₀.schema = td.schema := congrArg fst hdefn
  have hdefs : defs e stmt.table = some (defn td) := (defs_eq htd₀).trans (congrArg some hdefn)
  obtain ⟨hpk,hcols,hspares⟩ := hkeep td₀ htd₀
  rw [hschema] at hpk hcols hspares
  obtain ⟨hrow,hupdate⟩ := hup td hdefs
  refine stays_bind (stays_loop rows (fun values _ done => ?_) []) (fun done =>
    stays_finish h none _ _ _)
  have hheld := stays_insertRow hq hread stmt td values hdefs
    (fun e₀ p => hrow e₀ values p trivial) hupdate done
  exact (hheld.pre (fun _ h => h.1)).and
    (knit_insertRow hq hc hdecl (hschema ▸ schemas_some htd₀) hcols hpk hspares values done)

variable (hq : Quiet ev names Still) (hc : Coded ev) (hread : Readable ev keyRule)
  (he : Tied names e e) (hdecl : WellDeclared (schemas e))
include hq hc hread he hdecl

lemma tied_update {stmt : UpdateStmt E} (hload : NoLoad ev crc e stmt.table)
    (hup : Upholds ev keyRule none e (fun _ => True) (.update stmt : Dml E Q))
    (hkeep : KeepsLinks e (.update stmt : Dml E Q)) :
    Triple (Still e) (execUpdate ev crc none stmt) (fun _ => Tied names e) (Tied names e) := by
  have h : Steady ev (fun s => Tied names e s ∧ Stable e stmt.table s) := settled_stable.steady hq
  have hstart : ∀ s, Still e s → Tied names e s ∧ Stable e stmt.table s :=
    fun s hs => settled_stable.still e s ⟨he,fun k row hrow => ⟨row,hrow,fun _ _ => rfl⟩⟩ hs
  refine triple_bind_getTable (fun s hs => (hstart s hs).1.1) (fun s hs => (hstart s hs).1) hload
    (fun td₀ td htd₀ hdefn => ?_)
  have hschema : td₀.schema = td.schema := congrArg fst hdefn
  have hdefs : defs e stmt.table = some (defn td) := (defs_eq htd₀).trans (congrArg some hdefn)
  refine triple_bind ((triple_candidates_stored hq he.1.sound.within htd₀
    stmt.whereClause).fail (fun s hs => (hstart s hs).1)) (fun entries s hs => ?_)
  have hrow : ∀ entry ∈ entries, ∀ done, Stays (fun s => Tied names e s ∧ Stable e stmt.table s)
      (updateRow ev none stmt td done entry) := by
    intro entry hentry done
    have hgood : EntryGood keyRule e stmt.table entry :=
      fun values hdec => he.1.good_stored (hs.2 entry hentry) hdec
    have hheld := stays_updateRow hq hread stmt td hdefs (hup td hdefs) entry hgood done
    have hknit := knit_updateRow hq hc hdecl (hschema ▸ schemas_some htd₀)
      (hschema ▸ hkeep td₀ htd₀) (hs.2 entry hentry) done
    exact ((hheld.pre (fun _ h => h.1.1)).and hknit).weaken
      (fun _ h => h) (fun _ _ h => ⟨⟨h.1,h.2.1⟩,h.2.2⟩) (fun _ h => ⟨⟨h.1,h.2.1⟩,h.2.2⟩)
  have hall : Stays (fun s => Tied names e s ∧ Stable e stmt.table s) (do
      let done ← loop (updateRow ev none stmt td) [] entries
      finish ev none td.schema done stmt.returning) :=
    stays_bind (stays_loop entries hrow []) (fun done => stays_finish h none _ _ _)
  exact hall.weaken (fun _ h => h) (fun _ _ h => h.1) (fun _ h => h.1) s (hstart s hs.1)

lemma tied_delete {stmt : DeleteStmt E} (hload : NoLoad ev crc e stmt.table)
    (hup : Upholds ev keyRule none e (fun _ => True) (.delete stmt : Dml E Q))
    (hsafe : DeleteSafe (schemas e) (view e) stmt.table) :
    Triple (Still e) (execDelete ev crc none stmt) (fun _ => Tied names e) (Tied names e) := by
  have hstart : ∀ s, Still e s → Passing names e stmt.table [] s :=
    fun s hs => settled_passing.still e s ⟨he.1,Trimmed.refl he.2,nofun⟩ hs
  have htied : ∀ s, Still e s → Tied names e s :=
    fun s hs => ⟨(hstart s hs).held,(hstart s hs).trimmed.knit⟩
  refine triple_bind_getTable (fun s hs => (htied s hs).1) htied hload (fun td₀ td htd₀ hdefn => ?_)
  have hschema : td₀.schema = td.schema := congrArg fst hdefn
  refine triple_fact ((triple_candidates_stored hq he.1.sound.within htd₀
    stmt.whereClause).fail htied) (fun entries hentries => ?_)
  refine triple_fact (r := fun refs : List FkRef =>
      Covers (schemas e) stmt.table td.schema refs ∧
      ∀ fkr ∈ refs, NullSafe keyRule e fkr.childName fkr.onDelete fkr.childIdxs ∧
        fkr.childName ≠ stmt.table ∧
        (fkr.onDelete = .cascade → ¬ Referenced (schemas e) fkr.childName) ∧
        (fkr.onDelete = .setNull → ∀ i ∈ fkr.childIdxs, ¬ RefersTo (schemas e) fkr.childName i))
    (triple_get _ (fun s hs => ⟨hs,?_,fun fkr hfkr => ?_⟩)) (fun refs hrefs s hs => ?_)
  · rw [← schemas_held (htied s hs).1]
    exact fkRefs_covers td.schema
  · obtain ⟨child,fk,hchild,hne,hfk,href,honDelete,-,hidxs⟩ := fkRefs_mem hfkr
    have hS : schemas e fkr.childName = some child.schema := by
      rw [← schemas_held (htied s hs).1]
      exact schemas_some hchild
    refine ⟨nullSafe_fkRefs hup (htied s hs).1 hfkr,hne,fun haction => ?_,fun haction => ?_⟩
    · exact hsafe.cascade _ _ hS hne fk hfk href (honDelete ▸ haction)
    · rw [hidxs]
      exact hsafe.setNull _ _ hS hne fk hfk href (honDelete ▸ haction)
  have hrow : ∀ entry ∈ entries, ∀ done, Triple (Passing names e stmt.table done)
      (deleteRowOf ev none stmt td refs done entry) (Passing names e stmt.table)
      (Tied names e) := by
    intro entry hentry done
    have hgood : EntryGood keyRule e stmt.table entry :=
      fun values hdec => he.1.good_stored (hentries entry hentry) hdec
    have hheld : Stays (Held names keyRule e) (deleteRowOf ev none stmt td refs done entry) :=
      stays_deleteRowOf hq hread stmt td refs (fun fkr hfkr => (hrefs.2 fkr hfkr).1) entry hgood
        done
    have hpassing := triple_passing hq hc hdecl hsafe (hschema ▸ schemas_some htd₀) hrefs.1
      (fun fkr hfkr => (hrefs.2 fkr hfkr).2) (hentries entry hentry) done
    exact ((hheld.pre (fun _ h => h.held)).and hpassing).post (fun _ _ h => ⟨h.1,h.2.1,h.2.2⟩)
  have hlast : ∀ done, Triple (Passing names e stmt.table done)
      (loop (fun _ key => deleteRow stmt.table key) () (done.map fst))
      (fun _ => Tied names e) (Tied names e) := by
    intro done
    have hheld : Stays (Held names keyRule e)
        (loop (fun _ key => deleteRow stmt.table key) () (done.map fst)) :=
      stays_loop _ (fun key _ _ => stays_deleteRow _ _) ()
    exact (hheld.pre (fun _ h => h.held)).and
      ((triple_deletes done hc.isNull_null).pre (fun _ h => ⟨h.trimmed,h.cut⟩))
  refine triple_bind (triple_loop entries hrow []) (fun done => triple_bind (hlast done)
    (fun _ => ?_)) s (hstart s hs)
  exact stays_finish (settled_knit.steady hq) none _ _ _

lemma tied_dml {stmt : Dml E Q} (hload : NoLoad ev crc e stmt.table)
    (hup : Upholds ev keyRule none e (fun _ => True) stmt) (hkeep : KeepsLinks e stmt) :
    Tied names e (execDml ev crc none stmt e).2 := by
  cases stmt with
  | insert stmt => exact (tied_insert hq hc hread hdecl hload hup hkeep).state he
  | update stmt => exact (tied_update hq hc hread he hdecl hload hup hkeep).state (.refl e)
  | delete stmt => exact (tied_delete hq hc hread he hdecl hload hup hkeep).state (.refl e)

end

variable {name : String}

section

variable {e' : Engine V E}

lemma Knit.rebase (h : Tied names b e) (ht : e'.tables = e.tables) : Knit e' e' := by
  have hcontent : ∀ t k, e'.content t k = e.content t k := by
    intro t k
    rw [content, content, ht]
  have hS : schemas e' = schemas b := by
    rw [← schemas_held h.1]
    funext t
    rw [schemas, schemas, ht]
  have hview : view e' = view e := by
    funext t k
    rw [view, view, hcontent]
  refine ⟨fun t td htd => h.2.bare t td (ht ▸ htd),fun t k data hd => ?_,?_⟩
  · rw [hcontent] at hd
    exact h.2.legible t k data hd
  · rw [hS, hview]
    exact h.2.linked

structure Whole (names : String → Prop) (e : Engine V E) : Prop where
  everywhere : Everywhere names keyRule e
  knit : Knit e e
  declared : WellDeclared (schemas e)

def TruncateSafe (S : Schemas V) (r : Rows V) (t : String) : Prop :=
  ∀ child schema, S child = some schema → child ≠ t → ∀ fk ∈ schema.foreignKeys,
    fk.refTable = t → ∀ k row, r child k = some row → childValues schema fk row = none

/-- A statement without a transaction that leaves the primary keys alone and
takes nothing away that the engine does not know to be referred to. -/
def ReferenceSafe (ev : Evaluator V E Q) (crc : Bytes → UInt32) (names : String → Prop)
    (e : Engine V E) (s : Statement E Q × Option TxnId) : Prop :=
  KeySafe ev crc names e s ∧ match s with
  | (.query _,none) => True
  | (.dml stmt,none) => KeepsLinks e stmt
  | (.ddl (.truncate name),none) => TruncateSafe (schemas e) (view e) name
  | (.ddl (.createTable ct),none) => e.tables.lookup ct.name = none ∧
      WellDeclared (Function.update (schemas e) ct.name (some (schemaOf ev ct)))
  | _ => False

lemma Whole.cleared (h : Whole names e) : Tied names (Engine.cleared e) (Engine.cleared e) := by
  have hsound : Sound names keyRule (Engine.cleared e) :=
    h.everywhere.sound.of_tables rfl (fun _ _ _ h => h)
  exact ⟨hsound.held,Knit.rebase ⟨h.everywhere.sound.held,h.knit⟩ rfl⟩

lemma Knit.truncate (h : Knit e e) {td : TableData V E}
    (htd : e.tables.lookup name = some td) (hsafe : TruncateSafe (schemas e) (view e) name) (ht : e'.tables = e.tables.insert name (truncated td)) :
    Knit e' e' ∧ schemas e' = schemas e := by
  have hS : schemas e' = schemas e := by
    funext t
    rw [schemas, ht, lookup_insert_eq]
    split
    · rename_i heq
      rw [heq, schemas_some htd]
      rfl
    · rfl
  have hcontent : ∀ t k, e'.content t k = if t = name then none else e.content t k := by
    intro t k
    rw [content, ht, lookup_insert_eq]
    split
    · rfl
    · rfl
  have hview : ∀ t k, view e' t k = if t = name then none else view e t k := by
    intro t k
    rw [view, hcontent]
    split
    · rfl
    · rfl
  have hsub : ∀ t k row, view e' t k = some row → t ≠ name ∧ view e t k = some row := by
    intro t k row hrow
    rw [hview] at hrow
    split at hrow
    · cases hrow
    · rename_i hne
      exact ⟨hne,hrow⟩
  refine ⟨⟨fun t td' htd' => ?_,fun t k data hd => ?_,?_⟩,hS⟩
  · rw [ht] at htd'
    rcases lookup_insert_cases htd' with ⟨-,rfl⟩ | ⟨-,htd'⟩
    · show td.secondaryIndexes.map _ = []
      rw [h.bare name td htd]
      rfl
    · exact h.bare t td' htd'
  · rw [hcontent] at hd
    split at hd
    · cases hd
    · exact h.legible t k data hd
  rw [hS]
  refine linked_sub h.linked (fun t k row hrow => (hsub t k row hrow).2) (fun t k row hrow => ?_)
  by_cases heq : t = name
  · refine .inr (fun child schema hchild fk hfk href _ _ k' row' vals hrow' hvals => ?_)
    obtain ⟨hne,hrow'⟩ := hsub child k' row' hrow'
    rw [hsafe child schema hchild hne fk hfk (href.trans heq) k' row' hrow'] at hvals
    cases hvals
  · exact .inl ((hview t k).trans (by rw [if_neg heq]; exact hrow))

lemma Knit.insertEmpty (h : Knit e e) {ct : CreateTableStmt E}
    (hnew : e.tables.lookup ct.name = none)
    (ht : e'.tables = e.tables.insert ct.name (emptyTable ev ct)) :
    Knit e' e' ∧ schemas e' = update (schemas e) ct.name (some (schemaOf ev ct)) := by
  have hlook : ∀ t, e'.tables.lookup t =
      if t = ct.name then some (emptyTable ev ct) else e.tables.lookup t := by
    intro t
    rw [ht, lookup_insert_eq]
  have hcontent : ∀ t k, e'.content t k = e.content t k := by
    intro t k
    rw [content, hlook, content]
    split
    · rename_i heq
      rw [heq, hnew]
      rfl
    · rfl
  have hview : view e' = view e := by
    funext t k
    rw [view, view, hcontent]
  have hS : ∀ t schema, schemas e t = some schema → schemas e' t = some schema := by
    intro t schema hschema
    rw [schemas, hlook, if_neg]
    · exact hschema
    · rintro rfl
      rw [schemas, hnew] at hschema
      cases hschema
  refine ⟨⟨fun t td htd => ?_,fun t k data hd => ?_,?_⟩,funext (fun t => ?_)⟩
  · rw [hlook] at htd
    split at htd
    · cases htd
      rfl
    · exact h.bare t td htd
  · rw [hcontent] at hd
    exact h.legible t k data hd
  · rw [hview]
    intro t schema hschema k row hrow fk hfk vals hvals
    obtain ⟨td,-,htd,-⟩ := lookup_of_view hrow
    have hsame : schemas e t = some schema := by
      rw [← hschema, schemas_some htd, hS t td.schema (schemas_some htd)]
    obtain ⟨parent,hparent,hback⟩ := h.linked t schema hsame k row hrow fk hfk vals hvals
    exact ⟨parent,hS _ parent hparent,hback⟩
  · rw [schemas, hlook, update_apply]
    split
    · rfl
    · rfl

lemma whole_execute (hq : Quiet ev names Still) (hc : Coded ev) (hread : Readable ev keyRule)
    (he : Whole names e) {s : Statement E Q × Option TxnId}
    (h : ReferenceSafe ev crc names e s) : Whole names (execute ev crc s.1 s.2 e).2 := by
  have hevery := everywhere_execute hq hread he.everywhere h.1.keeps
  have htied := he.cleared
  -- Where the definitions stay, the new state takes the place of the old one.
  have hkeep : ∀ m, (execute ev crc s.1 s.2 e).2.tables = m.tables →
      Tied names (cleared e) m → Whole names (execute ev crc s.1 s.2 e).2 := by
    intro m htables hm
    refine ⟨hevery,Knit.rebase hm htables,?_⟩
    have hS : schemas (execute ev crc s.1 s.2 e).2 = schemas e := by
      rw [show schemas e = schemas (cleared e) from rfl, ← schemas_held hm.1]
      funext t
      rw [schemas, schemas, htables]
    rw [hS]
    exact he.declared
  obtain ⟨hkey,h⟩ := h
  rcases s with ⟨_ | _ | _ | _ | q | stmt | (ct | _ | name | _ | _ | _ | _ | _),_ | tid⟩ <;>
    try exact h.elim
  · refine hkeep _ (alike_raisePending _).tables ?_
    refine Stays.state (P := Tied names (cleared e)) ?_ htied
    exact stays_bind (stays_runSelect (settled_knit.steady hq) none q) (fun _ =>
      stays_bind (stays_get _) (fun _ => stays_pure _))
  · obtain ⟨hload,hup⟩ := hkey.upholds
    refine hkeep (execDml ev crc none stmt (Engine.cleared e)).2
      ((alike_raisePending _).tables.trans (alike_settleDeltas none _).tables) ?_
    refine tied_dml hq hc hread htied he.declared hload hup ?_
    cases stmt with
    | insert | update | delete => exact h
  · have hraised : (execute ev crc (.ddl (.createTable ct) : Statement E Q) none e).2.tables = _ :=
      (alike_raisePending _).tables
    cases redefined_ddl ev crc (Engine.cleared e) (.createTable ct) with
    | same h' => exact hkeep (Engine.cleared e) (hraised.trans h'.tables) htied
    | create h' =>
      obtain ⟨hknit,hS⟩ := htied.2.insertEmpty h.1 (hraised.trans h'.tables)
      refine ⟨hevery,hknit,?_⟩
      rw [hS]
      exact h.2
  · have hraised : (execute ev crc (.ddl (.truncate name) : Statement E Q) none e).2.tables = _ :=
      (alike_raisePending _).tables
    cases redefined_ddl ev crc (Engine.cleared e) (.truncate name) with
    | same h' => exact hkeep (Engine.cleared e) (hraised.trans h'.tables) htied
    | truncate hget h' =>
      obtain ⟨htd,hsame⟩ := getTable_ok (e := Engine.cleared e) hkey hget
      rw [hsame] at h'
      obtain ⟨hknit,hS⟩ := htied.2.truncate htd h (hraised.trans h'.tables)
      refine ⟨hevery,hknit,?_⟩
      rw [hS]
      exact he.declared

end

section
open Integers

lemma integers_coded : Coded Expr.evaluator where
  toLawful := integers_lawful
  decoded row _ _ hlen := Value.decodeRow_serialize row hlen
  encode_inj _ _ h := Value.flatMap_encode_inj h
  columns data values cols hdec := by
    refine ⟨values.zipIdx.map (fun c => if c.2 ∈ needed cols then c.1 else .null),?_,?_⟩
    · show (Value.decodeRow data).map _ = _
      rw [show Value.decodeRow data = some values from hdec]
      rfl
    intro i hi
    have hmem : i ∈ needed cols := by
      rw [needed, mem_dedup, mem_mergeSort]
      exact hi
    rw [getElem?_map, getElem?_zipIdx]
    cases values[i]? with
    | none => rfl
    | some v => simp [hmem]
  same_null v w hv hw := by
    cases v with
    | int64 n => cases hv
    | null =>
      cases w with
      | null => cases hw
      | int64 n => rfl

/-- `CREATE TABLE c (id INT PRIMARY KEY, v INT REFERENCES p (id) ON DELETE CASCADE)` -/
def childTable : CreateTableStmt Expr :=
  { name := "c", checkConstraints := [], foreignKeys := []
    columns := [columnDef "id" true,
      { columnDef "v" false with references := some ("p","id"), onDelete := .cascade }] }

/-- `CREATE TABLE p (id INT PRIMARY KEY, v INT)` -/
def parentTable : CreateTableStmt Expr :=
  { name := "p", checkConstraints := [], foreignKeys := []
    columns := [columnDef "id" true, columnDef "v" false] }

def parentSchema : Schema Value := schemaOf Expr.evaluator parentTable

def childSchema : Schema Value := schemaOf Expr.evaluator childTable

def parentMade : Engine Value Expr :=
  executeAll Expr.evaluator (fun _ => 0) fresh [(.ddl (.createTable parentTable),none)]

def childMade : Engine Value Expr :=
  executeAll Expr.evaluator (fun _ => 0) parentMade [(.ddl (.createTable childTable),none)]

def parentFilled : Engine Value Expr := executeAll Expr.evaluator (fun _ => 0) childMade
    [(.dml (.insert (insertInto "p" [(1,10)])),none)]

def referred : Engine Value Expr := executeAll Expr.evaluator (fun _ => 0) parentFilled
    [(.dml (.insert (insertInto "c" [(1,1)])),none)]

def cascaded : Engine Value Expr := executeAll Expr.evaluator (fun _ => 0) referred
    [(.dml (.delete (deleteFrom "p" (equals "id" 1))),none)]

variable {e : Engine Value Expr} {schema : Schema Value}

lemma schemas_mem {t : String} (h : schemas e t = some schema) :
    (t,schema) ∈ e.tables.entries.map (fun x => (x.1,x.2.schema)) := by
  obtain ⟨td,htd,rfl⟩ := map_eq_some_iff.mp h
  exact mem_map.mpr ⟨⟨t,td⟩,AList.mem_lookup_iff.mp htd,rfl⟩

lemma schemas_cases (he : e.tables.entries.map (fun x => (x.1,x.2.schema)) =
      [("c",childSchema), ("p",parentSchema)]) {t : String}
    (h : schemas e t = some schema) :
    (t = "c" ∧ schema = childSchema) ∨ (t = "p" ∧ schema = parentSchema) := by
  have hmem := schemas_mem h
  rw [he] at hmem
  simpa using hmem

lemma referred_deleteSafe : DeleteSafe (schemas referred) (view referred) "p" := by
  have hall : referred.tables.entries.map (fun x => (x.1,x.2.schema)) =
      [("c",childSchema), ("p",parentSchema)] := by decide +kernel
  have hcases : ∀ t schema, schemas referred t = some schema →
      (t = "c" ∧ schema = childSchema) ∨ (t = "p" ∧ schema = parentSchema) :=
    fun t schema h => schemas_cases hall h
  generalize referred = e at hcases
  have hone : ∀ fk ∈ childSchema.foreignKeys, fk.refTable = "p" ∧ fk.onDelete = .cascade := by
    decide
  have hnone : parentSchema.foreignKeys = [] := by decide
  refine ⟨?_,?_,?_,?_⟩
  · intro schema hS fk hfk
    rcases hcases _ _ hS with ⟨hname,-⟩ | ⟨-,rfl⟩
    · exact absurd hname (by decide)
    · rw [hnone] at hfk
      cases hfk
  · rintro child schema hS hne fk hfk href haction ⟨child',schema',hS',fk',hfk',href'⟩
    rcases hcases _ _ hS with ⟨rfl,-⟩ | ⟨rfl,-⟩
    · rcases hcases _ _ hS' with ⟨-,rfl⟩ | ⟨-,rfl⟩
      · exact absurd (href'.symm.trans (hone fk' hfk').1) (by decide)
      · rw [hnone] at hfk'
        cases hfk'
    · exact absurd rfl hne
  · intro child schema hS hne fk hfk href haction
    rcases hcases _ _ hS with ⟨rfl,rfl⟩ | ⟨rfl,-⟩
    · rw [(hone fk hfk).2] at haction
      cases haction
    · exact absurd rfl hne
  · intro child schema hS fk hfk href k row vals _ _ v _
    cases v with
    | null => rfl
    | int64 n => exact decide_eq_true rfl

lemma wellDeclared_parent (S : Schemas Value) (h : ∀ t, S t = none) :
    WellDeclared (update S "p" (some parentSchema)) := by
  have hnone : parentSchema.foreignKeys = [] := by decide
  intro t schema hS fk hfk
  rw [update_apply] at hS
  split at hS
  · cases hS
    rw [hnone] at hfk
    cases hfk
  · rw [h] at hS
    cases hS

lemma wellDeclared_child (S : Schemas Value)
    (h : ∀ t schema, S t = some schema → t = "p" ∧ schema = parentSchema) :
    WellDeclared (update S "c" (some childSchema)) := by
  have hnone : parentSchema.foreignKeys = [] := by decide
  have hone : ∀ fk ∈ childSchema.foreignKeys, fk.columns ≠ [] ∧ fk.refTable = "p" ∧
      (childColumns childSchema fk).length = fk.columns.length ∧
      (parentColumns parentSchema fk).length = fk.refColumns.length ∧
      fk.refColumns.length = fk.columns.length := by decide
  intro t schema hS fk hfk
  rw [update_apply] at hS
  split at hS
  · cases hS
    obtain ⟨hcols,href,hchild,hparent⟩ := hone fk hfk
    refine ⟨hcols,hchild,fun parent hp => ?_⟩
    rw [href, update_of_ne (by decide)] at hp
    rw [(h _ parent hp).2]
    exact hparent
  · rw [(h t schema hS).2, hnone] at hfk
    cases hfk

lemma fresh_whole : Whole (fun _ => True) fresh where
  everywhere := fresh_everywhere _
  knit :=
    { bare := nofun
      legible := nofun
      linked := fun _ _ h => by cases h }
  declared := nofun

lemma noImages_of_undo (h : e.undo.entries.isEmpty = true) (t : String) : NoImages e t := by
  intro tid k data himg
  have hundo : e.undo = ∅ := AList.ext (isEmpty_iff.mp h)
  rw [undoOf, hundo] at himg
  cases himg

lemma noLoad_of_isNone (h : e.disk.isNone = true) : NoLoad Expr.evaluator (fun _ => 0) e name :=
  noLoad_of_disk (isNone_iff_eq_none.mp h)

lemma childMade_reached :
    Runs.Reaches (session Expr.evaluator (fun _ => 0))
      (ReferenceSafe Expr.evaluator (fun _ => 0) (fun _ => True)) fresh childMade := by
  have hall : parentMade.tables.entries.map (fun x => (x.1,x.2.schema)) =
      [("p",parentSchema)] := by decide +kernel
  have hparent : Runs.Reaches (session Expr.evaluator (fun _ => 0))
      (ReferenceSafe Expr.evaluator (fun _ => 0) (fun _ => True)) fresh parentMade :=
    Reaches.one (.ddl (.createTable parentTable),none) .init
      ⟨⟨trivial,noImages_of_undo rfl _⟩,rfl,wellDeclared_parent _ (fun _ => rfl)⟩
  refine Reaches.one (.ddl (.createTable childTable),none) hparent
    ⟨⟨trivial,noImages_of_undo (by decide +kernel) _⟩,?_,wellDeclared_child _ ?_⟩
  · have hnone : (parentMade.tables.lookup "c").isNone = true := by decide +kernel
    exact isNone_iff_eq_none.mp hnone
  · intro t schema hS
    have hmem := schemas_mem hS
    rw [hall] at hmem
    simpa using hmem

lemma insert_referenceSafe {rows : List (Int64 × Int64)} (hdisk : e.disk.isNone = true)
    (hschema : (e.tables.lookup name).map (fun td => td.schema) = some schema)
    (hcols : schema.columns.length < 256) (hpk : schema.primaryKeyColumns ≠ []) :
    ReferenceSafe Expr.evaluator (fun _ => 0) (fun _ => True) e
      (.dml (.insert (insertInto name rows)),none) := by
  refine ⟨⟨noLoad_of_isNone hdisk,fun td htd => ?_⟩,fun td htd => ?_⟩
  · rw [schema_of_map htd hschema]
    exact ⟨hcols,nofun⟩
  · rw [schema_of_map htd hschema]
    exact ⟨fun _ => hpk,hcols,nofun⟩

lemma cascaded_reached :
    Runs.Reaches (session Expr.evaluator (fun _ => 0))
      (ReferenceSafe Expr.evaluator (fun _ => 0) (fun _ => True)) fresh cascaded := by
  have hparent : (childMade.tables.lookup "p").map (·.schema) = some parentSchema := by
    decide +kernel
  have hchild : (parentFilled.tables.lookup "c").map (·.schema) = some childSchema := by
    decide +kernel
  have hfilled := Reaches.one (.dml (.insert (insertInto "p" [(1,10)])),none) childMade_reached
      (insert_referenceSafe (by decide +kernel) hparent (by decide) (by decide))
  have hreferred := Reaches.one (.dml (.insert (insertInto "c" [(1,1)])),none) hfilled
      (insert_referenceSafe (by decide +kernel) hchild (by decide) (by decide))
  refine Reaches.one (.dml (.delete (deleteFrom "p" (equals "id" 1))),none) hreferred
    ⟨⟨noLoad_of_isNone (by decide +kernel),?_⟩,referred_deleteSafe⟩
  have hall : referred.tables.entries.map (fun x => (x.1,x.2.schema)) =
      [("c",childSchema), ("p",parentSchema)] := by decide +kernel
  intro child td fk hchild hne hfk href haction
  have hone : ∀ fk ∈ childSchema.foreignKeys, fk.onDelete = .cascade := by decide
  rcases schemas_cases hall (schemas_some hchild) with ⟨-,hschema⟩ | ⟨rfl,-⟩
  · rw [hschema] at hfk
    rw [hone fk hfk] at haction
    cases haction
  · exact absurd rfl hne

end

end ByteDB.Engine
