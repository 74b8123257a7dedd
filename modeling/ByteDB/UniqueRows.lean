import ByteDB.RuleRuns

/-!
# Unique columns

Without a transaction a statement writes a row in the state in which it has
checked it. So a table without secondary indexes keeps the values in its
unique columns apart, as long as ON CONFLICT DO UPDATE, which makes no check,
leaves these columns alone.
-/

set_option autoImplicit false

namespace ByteDB.Engine
open ByteDB.Assoc Command Codec Option

variable {V E Q : Type} [Codec V] {ev : Evaluator V E Q} {crc : Bytes → UInt32}
  {names : String → Prop} {b e : Engine V E}

/-- What the statements rely on in the encodings and the comparison of values.
No value is moved out of its row. -/
structure Lawful (ev : Evaluator V E Q) : Prop where
  serialized : ∀ row values : List V, row.length < 256 →
    decodeRow (serialize row) = some values → values = row
  spilled : ∀ (row values : List V) e td, row.length < 256 →
    decodeRow (ev.spill e td (serialize row)) = some values → values = row
  short : ∀ data (values : List V), decodeRow data = some values → values.length < 256
  readAt : ∀ data (values : List V) i, decodeRow data = some values →
    readValueAt data i = values[i]?
  isNull_null : isNull (null : V) = true
  same_comm : ∀ v w : V, same v w = same w v

def Holds (td : TableData V E) (k : Bytes) (i : ℕ) (v : V) : Prop :=
  ∃ data values, td.index.lookup k = some data ∧ decodeRow data = some values ∧
    values[i]? = some v ∧ isNull v = false

def UniqueRows (td : TableData V E) : Prop :=
  ∀ c ∈ td.schema.positions, c.1.unique = true →
    ∀ k k' v v', Holds td k c.2 v → Holds td k' c.2 v' → same v v' = true → k = k'

def Avoids (e : Engine V E) (t : String) (k : Bytes) (row : List V) : Prop :=
  ∀ td, e.tables.lookup t = some td → ∀ c ∈ td.schema.positions, c.1.unique = true →
    ∀ v, row[c.2]? = some v → isNull v = false →
      ∀ k' v', Holds td k' c.2 v' → same v' v = true → k' = k

/-- The unique columns are not part of the primary key, for which no check is
made. -/
def PlainUnique (schema : Schema V) : Prop :=
  ∀ c ∈ schema.positions, c.1.unique = true → c.1.primaryKey = false

structure Apart (names : String → Prop) (b e : Engine V E) : Prop where
  within : Within names e
  defined : ∀ t, defs e t = defs b t
  fixed : Fixed b e
  bare : ∀ t td, e.tables.lookup t = some td → td.secondaryIndexes = []
  distinct : ∀ t td, e.tables.lookup t = some td → UniqueRows td

variable {k : Bytes} {t : String} {row : List V} {td' : TableData V E} {i : ℕ} {v : V}

section

variable {td : TableData V E}

lemma holds_frozen (hf : frozen td' = frozen td) : Holds td' k i v ↔ Holds td k i v := by
  have hindex := congrArg (fun td : TableData V E => td.index) hf
  have hindex' : td'.index = td.index := hindex
  rw [Holds, Holds, hindex']

lemma schema_frozen (hf : frozen td' = frozen td) : td'.schema = td.schema := by
  have h := congrArg (fun td : TableData V E => td.schema) hf
  exact h

lemma Avoids.still {e' : Engine V E}
    (h : Avoids e t k row) (hs : Still e e') : Avoids e' t k row := by
  intro td' htd' c hc hunique v hv hnull k' v' hholds
  obtain ⟨td,htd,hf⟩ := hs.back htd'
  rw [schema_frozen hf] at hc
  exact h td htd c hc hunique v hv hnull k' v' ((holds_frozen hf).mp hholds)

lemma settled_apart : Settled names (Apart names b) where
  names _ h := h.within
  still e e' h hs := by
    refine ⟨hs.within h.within,fun t => ?_,h.fixed.trans hs.fixed,fun t td' htd' => ?_,
      fun t td' htd' => ?_⟩
    · have ht := congrArg (Option.map defn) (hs.table t)
      rw [Option.map_map, Option.map_map] at ht
      exact Eq.trans ht (h.defined t)
    · obtain ⟨td,htd,hf⟩ := hs.back htd'
      have hsecs := congrArg (fun td : TableData V E => td.secondaryIndexes) hf
      exact Eq.trans hsecs (h.bare t td htd)
    · obtain ⟨td,htd,hf⟩ := hs.back htd'
      intro c hc hunique k k' v v' hk hk'
      rw [schema_frozen hf] at hc
      exact h.distinct t td htd c hc hunique k k' v v' ((holds_frozen hf).mp hk)
        ((holds_frozen hf).mp hk')

lemma Apart.avoids (h : Apart names b e) {k data : Bytes} {old new : List V}
    (hc : e.content t k = some data) (hdec : decodeRow data = some old)
    (hsame : ∀ td, e.tables.lookup t = some td → ∀ c ∈ td.schema.positions, c.1.unique = true →
      ∀ v, new[c.2]? = some v → isNull v = false → old[c.2]? = some v) :
    Avoids e t k new := by
  intro td htd c hcol hunique v hv hnull k' v' hholds hsamev
  have hlook : td.index.lookup k = some data := by
    rw [content, htd] at hc
    exact hc
  have hold : Holds td k c.2 v := ⟨data,old,hlook,hdec,hsame td htd c hcol hunique v hv hnull,
    hnull⟩
  exact h.distinct t td htd c hcol hunique k' k v' v hholds hold hsamev

lemma NoDuplicate.avoids (hl : Lawful ev) (h : Apart names b e)
    {own : Option Bytes} (hown : ∀ k', own = some k' → k' = k)
    (hplain : ∀ td, e.tables.lookup t = some td → PlainUnique td.schema)
    (hno : NoDuplicate e t row own) : Avoids e t k row := by
  intro td htd c hc hunique v hv hnull k' v' ⟨data,values,hlook,hdec,hv',hnull'⟩ hsame
  rw [NoDuplicate, htd, bind_some, uniqueViolation, map_eq_none_iff, List.find?_eq_none] at hno
  have hpass := hno c hc
  have hhit : uniqueHit td c.2 v own = false := by
    simpa [hunique, hplain td htd c hc hunique, hv, hnull] using hpass
  rw [uniqueHit, h.bare t td htd] at hhit
  have hentry := List.any_eq_false.mp hhit (k',data)
    ((OrderedMap.entries_mem_iff td.index k' data).mpr hlook)
  by_contra hne
  refine hentry ?_
  have hother : own ≠ some k' := fun heq => hne (hown k' heq)
  simp [hother, hl.readAt data values c.2 hdec, hv', hsame]

end

section

lemma Apart.onTable (h : Apart names b e) (table : String) {f : TableData V E → TableData V E}
    (hdef : ∀ td, defn (f td) = defn td)
    (hbare : ∀ td, (f td).secondaryIndexes = td.secondaryIndexes)
    (hdistinct : ∀ td, e.tables.lookup table = some td → UniqueRows (f td)) :
    Apart names b (e.onTable table f) := by
  refine ⟨h.within.onTable table f,fun t => (defs_onTable hdef table).trans (h.defined t),h.fixed,
    fun t td' htd' => ?_,fun t td' htd' => ?_⟩
  · rcases lookup_adjust_cases htd' with ⟨-,td,htd,rfl⟩ | ⟨-,htd'⟩
    · rw [hbare td]
      exact h.bare t td htd
    · exact h.bare t td' htd'
  · rcases lookup_adjust_cases htd' with ⟨ht,td,htd,rfl⟩ | ⟨-,htd'⟩
    · exact hdistinct td (ht ▸ htd)
    · exact h.distinct t td' htd'

variable {F : Engine V E → Prop}

lemma triple_putRow (hl : Lawful ev) (hlen : row.length < 256) :
    Triple (fun e => Apart names b e ∧ Avoids e t k row) (putRow ev t k (serialize row))
      (fun _ => Apart names b) F := by
  refine triple_modify _ (fun e he => ?_)
  obtain ⟨he,havoids⟩ := he
  have hlog : ∀ d, Apart names b (logDelta d e) := fun d =>
    ⟨he.within,he.defined,he.fixed,he.bare,he.distinct⟩
  refine (hlog _).onTable t (fun _ => rfl) (fun _ => rfl) (fun td htd => ?_)
  have htd' : e.tables.lookup t = some td := htd
  rw [htd', map_some, getD_some]
  -- What a row of the new table holds, the new row or an old one holds.
  have hcases : ∀ k' i v, Holds { td with index := td.index.insert k (ev.spill e td (serialize row)) }
      k' i v → (k' = k ∧ row[i]? = some v ∧ isNull v = false) ∨ (k' ≠ k ∧ Holds td k' i v) := by
    rintro k' i v ⟨data,values,hlook,hdec,hv,hnull⟩
    rw [OrderedMap.lookup_insert] at hlook
    split at hlook
    · rename_i hk
      cases hlook
      rw [hl.spilled row values e td hlen hdec] at hv
      exact .inl ⟨hk,hv,hnull⟩
    · rename_i hk
      exact .inr ⟨hk,data,values,hlook,hdec,hv,hnull⟩
  intro c hc hunique k1 k2 v1 v2 h1 h2 hsame
  rcases hcases k1 c.2 v1 h1 with ⟨hk1,hv1,hn1⟩ | ⟨hk1,h1⟩
  · rcases hcases k2 c.2 v2 h2 with ⟨hk2,-,-⟩ | ⟨hk2,h2⟩
    · rw [hk1, hk2]
    · rw [hl.same_comm] at hsame
      exact absurd (havoids td htd' c hc hunique v1 hv1 hn1 k2 v2 h2 hsame) hk2
  · rcases hcases k2 c.2 v2 h2 with ⟨hk2,hv2,hn2⟩ | ⟨-,h2⟩
    · exact absurd (havoids td htd' c hc hunique v2 hv2 hn2 k1 v1 h1 hsame) hk1
    · exact he.distinct t td htd' c hc hunique k1 k2 v1 v2 h1 h2 hsame

lemma apart_deleteRow (t : String) (k : Bytes) :
    Stays (Apart names b) (deleteRow (V := V) (E := E) t k) := by
  refine stays_modify _ (fun e he => ?_)
  have hlog : ∀ d, Apart names b (logDelta d e) := fun d =>
    ⟨he.within,he.defined,he.fixed,he.bare,he.distinct⟩
  refine (hlog _).onTable t (fun _ => rfl) (fun _ => rfl) (fun td htd => ?_)
  have hback : ∀ k' i v, Holds { td with index := td.index.erase k } k' i v → Holds td k' i v := by
    rintro k' i v ⟨data,values,hlook,hrest⟩
    rw [OrderedMap.lookup_erase] at hlook
    split at hlook
    · cases hlook
    · exact ⟨data,values,hlook,hrest⟩
  exact fun c hc hunique k1 k2 v1 v2 h1 h2 =>
    he.distinct t td htd c hc hunique k1 k2 v1 v2 (hback k1 c.2 v1 h1) (hback k2 c.2 v2 h2)

variable {P : Engine V E → Prop}
  {f : List SecondaryIndex → List SecondaryIndex × Except CoreError Unit}

lemma triple_bare
    (hbare : ∀ e, P e → ∀ t td, e.tables.lookup t = some td → td.secondaryIndexes = [])
    (table : String)
    (hf : f [] = ([],.ok ())) : Triple P (onSecondaries table f) (fun _ => P) F := by
  intro e he
  rw [onSecondaries]
  cases htd : e.tables.lookup table with
  | none => exact he
  | some td =>
    have hsecs := hbare e he table td htd
    have hsame : adjust e.tables table (fun td => { td with secondaryIndexes := [] }) = e.tables :=
      adjust_self _ _ _ (fun td' htd' => by rw [← hbare e he table td' htd'])
    dsimp only
    rw [hsecs, hf]
    dsimp only
    rwa [Engine.onTable, hsame]

lemma triple_avoids (table : String) (hf : f [] = ([],.ok ())) :
    Triple (fun e => Apart names b e ∧ Avoids e t k row) (onSecondaries table f)
      (fun _ e => Apart names b e ∧ Avoids e t k row) F :=
  triple_bare (fun _ h => h.1.bare) table hf

lemma triple_noTxn (f : TxnId → Exec V E Unit) : Triple P (inTxn none f) (fun _ => P) F :=
  fun _ he => he

lemma triple_noUndo (table : String) (key : Bytes)
    (prev : Option Bytes) : Triple P (recordUndo none table key prev) (fun _ => P) F :=
  fun _ he => he

end

section
variable {stmt : InsertStmt E Q} {td : TableData V E}

def InsertApart (stmt : InsertStmt E Q) (p : InsertPlan V) (e : Engine V E) : Prop :=
  (p.update = none → Avoids e stmt.table p.key p.row ∧ p.row.length < 256) ∧
    ∀ old new, p.update = some (old,new) → Avoids e stmt.table p.key new ∧ new.length < 256

def SparesUnique (schema : Schema V) (assignments : List (String × E)) : Prop :=
  ∀ c ∈ schema.positions, c.1.unique = true → ¬ Assigns schema assignments c.2

lemma Apart.schema_eq (h : Apart names b e) (hS : defs b t = some (defn td)) (htd' : e.tables.lookup t = some td') : td'.schema = td.schema := by
  have hd := (h.defined t).trans hS
  rw [defs_eq htd'] at hd
  exact congrArg Prod.fst (some.inj hd)

lemma apart_insertRow (hq : Quiet ev names Still) (hl : Lawful ev)
    (hS : defs b stmt.table = some (defn td)) (hplain : PlainUnique td.schema)
    (hcols : td.schema.columns.length < 256)
    (hspares : ∀ assignments, stmt.onConflict = some (.doUpdate assignments) →
      SparesUnique td.schema assignments) (values : List V) (done : List (List V)) :
    Stays (Apart names b) (insertRow ev none stmt td done values) := by
  refine triple_eachRow (R := fun p e => InsertApart stmt p e) (triple_local
    (R := fun plan e => ∀ p, plan = some p → InsertApart stmt p e) settled_apart
    (fun e0 he0 => ?_)) (fun n p => ?_) (fun _ h => h) done
  · refine (triple_insertCheck hq he0.within stmt td values).post (fun plan e hs => ⟨hs.1,fun p hp => ?_⟩)
    have hfacts := hs.2 p hp
    refine ⟨fun _ => ⟨?_,hfacts.prepared.length.symm ▸ hcols⟩,fun old new hupd => ?_⟩
    · refine (NoDuplicate.avoids hl he0 (fun k' h => by cases h) (fun td' htd' => ?_)
        hfacts.unique).still hs.1
      rw [he0.schema_eq hS htd']
      exact hplain
    obtain ⟨data,assignments,hdata,hdec,hconf,hassigned⟩ := hfacts.update old new hupd
    rw [hfacts.existing] at hdata
    refine ⟨(he0.avoids hdata hdec (fun td' htd' c hc hunique v hv _ => ?_)).still hs.1,?_⟩
    · rw [he0.schema_eq hS htd'] at hc
      rw [← hassigned.others (hspares assignments hconf c hc hunique)]
      exact hv
    · rw [hassigned.length]
      exact hl.short data old hdec
  · rw [insertWrite]
    cases hupd : p.update with
    | some u =>
      intro e he
      obtain ⟨havoids,hlen⟩ := he.2.2 u.1 u.2 hupd
      refine triple_bind (triple_avoids stmt.table rfl) (fun _ => ?_) e ⟨he.1,havoids⟩
      refine triple_bind (triple_noUndo stmt.table p.key p.existing) (fun _ => ?_)
      exact triple_bind (triple_putRow hl hlen) (fun _ => stays_pure _)
    | none =>
      intro e he
      obtain ⟨havoids,hlen⟩ := he.2.1 hupd
      refine triple_bind (triple_avoids stmt.table rfl) (fun _ => ?_) e ⟨he.1,havoids⟩
      refine triple_bind (triple_noUndo stmt.table p.key p.existing) (fun _ => ?_)
      exact triple_bind (triple_putRow hl hlen) (fun _ => stays_pure _)

lemma apart_updateRow (hq : Quiet ev names Still) (hl : Lawful ev) {stmt : UpdateStmt E}
    (hS : defs b stmt.table = some (defn td)) (hplain : PlainUnique td.schema)
    (entry : Bytes × Bytes) (done : List (List V)) :
    Stays (Apart names b) (updateRow ev none stmt td done entry) := by
  refine triple_eachRow (R := fun (p : UpdatePlan V) e =>
    Avoids e stmt.table p.key p.new ∧ p.new.length < 256)
    (triple_noted settled_apart (noted none stmt.table entry.1 (some entry.2)) (fun _ h => h)
      (fun e0 he0 => ?_)) (fun n p => ?_) (fun _ h => h) done
  · refine (triple_updateCheck hq he0.within stmt td entry).post (fun plan e hs =>
      hs.imp (fun p hfacts e' hstill => ⟨?_,?_⟩))
    · rw [hfacts.key]
      refine (NoDuplicate.avoids hl he0 (fun k' h => (some.inj h).symm)
        (fun td' htd' => ?_) hfacts.unique).still hstill
      rw [he0.schema_eq hS htd']
      exact hplain
    · rw [hfacts.assigned.length]
      exact hl.short entry.2 p.old hfacts.old
  · intro e he
    refine triple_bind (triple_avoids stmt.table rfl) (fun _ => ?_) e ⟨he.1,he.2.1⟩
    exact triple_bind (triple_putRow hl he.2.2) (fun _ => stays_pure _)

lemma nulled_value (hl : Lawful ev) (columns : List ℕ) (row : List V)
    (hv : (nulled columns row)[i]? = some v) (hnull : isNull v = false) : row[i]? = some v := by
  induction columns generalizing row with
  | nil => exact hv
  | cons j columns ih =>
    have hset := ih (row.set j null) hv
    rw [List.getElem?_set] at hset
    split at hset
    · split at hset
      · cases hset
        rw [hl.isNull_null] at hnull
        cases hnull
      · cases hset
    · exact hset

lemma apart_cascade (hl : Lawful ev) (t : Target) :
    Stays (Apart names b) (cascade ev none t) := by
  have hbare : ∀ {f : List SecondaryIndex → List SecondaryIndex × Except CoreError Unit},
      f [] = ([],.ok ()) → Stays (Apart names b) (onSecondaries t.childName f) :=
    fun hf => triple_bare (fun _ h => h.bare) _ hf
  rw [cascade]
  cases t.action with
  | restrict => exact stays_pure ()
  | cascade =>
    refine stays_bind (stays_get _) (fun prev => stays_bind ?_ (fun _ => apart_deleteRow _ _))
    rw [unindex]
    split
    · exact stays_pure ()
    · exact hbare rfl
  | setNull =>
    refine triple_bind (Q := fun prev e => Apart names b e ∧ prev = e.content t.childName t.key)
      (triple_get _ (fun e he => ⟨he,rfl⟩)) (fun prev => ?_)
    cases prev with
    | none => exact triple_pure () (fun e he => he.1)
    | some data =>
      dsimp only
      cases hdec : (decodeRow data : Option (List V)) with
      | none => exact triple_pure () (fun e he => he.1)
      | some old =>
        have hlen : (nulled t.childIdxs old).length < 256 := by
          rw [nulled_length]
          exact hl.short data old hdec
        intro e he
        have havoids : Avoids e t.childName t.key (nulled t.childIdxs old) :=
          he.1.avoids he.2.symm hdec
            (fun td htd c hc hunique v hv hnull => nulled_value hl _ _ hv hnull)
        refine triple_bind (triple_avoids t.childName rfl) (fun _ => ?_) e ⟨he.1,havoids⟩
        exact triple_bind (triple_noUndo t.childName t.key (some data))
          (fun _ => triple_putRow hl hlen)

lemma apart_deleteRowOf (hq : Quiet ev names Still) (hl : Lawful ev) {stmt : DeleteStmt E}
    (refs : List FkRef) (entry : Bytes × Bytes) (done : List (Bytes × List V)) :
    Stays (Apart names b) (deleteRowOf ev none stmt td refs done entry) := by
  have h : Steady ev (Apart names b) := settled_apart.steady hq
  refine stays_eachRow (R := fun _ => True) ?_ (fun n p _ => ?_) done
  · exact (stays_deleteCheck h none stmt td refs entry nofun).post (fun _ _ hs => ⟨hs,fun _ _ => trivial⟩)
  · refine stays_bind (stays_loop _ (fun t _ _ => apart_cascade hl t) _) (fun _ => ?_)
    refine stays_bind (stays_pure ()) (fun _ => stays_bind ?_ (fun _ => stays_pure _))
    exact triple_bare (fun _ h => h.bare) _ rfl

def KeepsApart (e : Engine V E) : Dml E Q → Prop
  | .insert stmt => ∀ td, e.tables.lookup stmt.table = some td → PlainUnique td.schema ∧
      td.schema.columns.length < 256 ∧
      ∀ assignments, stmt.onConflict = some (.doUpdate assignments) →
        SparesUnique td.schema assignments
  | .update stmt => ∀ td, e.tables.lookup stmt.table = some td → PlainUnique td.schema
  | .delete _ => True

lemma Apart.held (h : Apart names b e) : Held names (fun _ _ _ => True : Rule V E) b e :=
  Held.of_good h.within h.defined h.fixed (fun _ _ _ _ _ _ _ _ => trivial)
    (fun _ _ _ _ _ _ _ _ => trivial) (fun _ _ _ _ _ _ _ _ _ => trivial)

lemma apart_loads (hload : NoLoad ev crc b t) : Loads ev crc t (Apart names b) :=
  fun _ td hs hnone hr => absurd hr (hs.held.noLoad hload hnone td)

lemma apart_bind_getTable {α : Type} {table : String} {m : TableData V E → Exec V E α}
    (hload : NoLoad ev crc b table)
    (hm : ∀ td0 td, b.tables.lookup table = some td0 → defn td0 = defn td →
      Stays (Apart names b) (m td)) :
    Stays (Apart names b) (getTable ev crc table >>= m) :=
  triple_bind_getTable (fun _ h => h.held) (fun _ h => h) hload hm

lemma apart_dml (hq : Quiet ev names Still) (hl : Lawful ev) {stmt : Dml E Q}
    (hload : NoLoad ev crc e stmt.table) (hkeep : KeepsApart e stmt) :
    Stays (Apart names e) (execDml ev crc none stmt) := by
  have h : Steady ev (Apart names e) := settled_apart.steady hq
  cases stmt with
  | insert stmt =>
    refine stays_bind (stays_insertRows h none stmt (apart_loads hload)) (fun rows => ?_)
    refine apart_bind_getTable hload (fun td0 td htd0 hdefn => ?_)
    have hschema : td0.schema = td.schema := congrArg Prod.fst hdefn
    obtain ⟨hplain,hcols,hspares⟩ := hkeep td0 htd0
    rw [hschema] at hplain hcols hspares
    refine stays_bind (stays_loop rows (fun values _ done => ?_) []) (fun done =>
      stays_finish h none _ _ _)
    exact apart_insertRow hq hl ((defs_eq htd0).trans (congrArg some hdefn)) hplain hcols hspares
      values done
  | update stmt =>
    refine apart_bind_getTable hload (fun td0 td htd0 hdefn => ?_)
    have hschema : td0.schema = td.schema := congrArg Prod.fst hdefn
    refine stays_bind (stays_candidates h none stmt.table td stmt.whereClause) (fun entries => ?_)
    refine stays_bind (stays_loop entries (fun entry _ done => ?_) []) (fun done =>
      stays_finish h none _ _ _)
    exact apart_updateRow hq hl ((defs_eq htd0).trans (congrArg some hdefn))
      (hschema ▸ hkeep td0 htd0) entry done
  | delete stmt =>
    refine apart_bind_getTable hload (fun td0 td htd0 hdefn => ?_)
    refine stays_bind (stays_candidates h none stmt.table td stmt.whereClause) (fun entries => ?_)
    refine stays_bind (stays_get _) (fun refs => stays_bind
      (stays_loop entries (fun entry _ done => apart_deleteRowOf hq hl refs entry done) []) ?_)
    exact fun done => stays_bind (stays_loop _ (fun key _ _ => apart_deleteRow _ _) ())
      (fun _ => stays_finish h none _ _ _)

end

end ByteDB.Engine
