import ByteDB.ForeignKeys
import ByteDB.SecondaryIndexes

/-!
# Statements and the secondary indexes

INSERT and UPDATE change the secondary indexes of a row before the row itself,
and DELETE takes the entries of all its rows away before the first row goes.
In between the indexes are ahead of the table: they have the entries of the
rows that will be there.
-/

set_option autoImplicit false

namespace ByteDB.Engine
open ByteDB.Assoc Command Codec SecondaryIndex Function List Prod

variable {V E Q : Type} [Codec V] {ev : Evaluator V E Q} {crc : Bytes → UInt32}
  {names : String → Prop} {K : String → ℕ → Option V → Prop} {b e : Engine V E}
  {txnId : Option TxnId} {O : String → RowMap V → RowMap V} {t : String} {td : TableData V E}
  {F : Engine V E → Prop}

def admitRule (K : String → ℕ → Option V → Prop) : Rule V E := fun d _ row =>
  row.length < 256 ∧ ∀ i, K d.1.tableName i row[i]?

def rowsOf (td : TableData V E) : RowMap V := fun p => (td.index.lookup p).bind decodeRow

/-- The secondary indexes have the entries of the rows that `O` makes of those
in the table. -/
structure Ahead (K : String → ℕ → Option V → Prop) (b : Engine V E)
    (O : String → RowMap V → RowMap V) (e : Engine V E) : Prop where
  defined : ∀ t, defs e t = defs b t
  bare : ∀ t td td', b.tables.lookup t = some td → td.secondaryIndexes = [] →
    e.tables.lookup t = some td' → td'.secondaryIndexes = []
  fits : ∀ t td, e.tables.lookup t = some td → Fit (K td.schema.tableName) (rowsOf td)
  entries : ∀ t td, e.tables.lookup t = some td → ∀ sec ∈ td.secondaryIndexes,
    Exact (K td.schema.tableName) (O t (rowsOf td)) sec

/-- The rows are allowed and the indexes are as far as `O` says. -/
abbrev Tracked (names : String → Prop) (K : String → ℕ → Option V → Prop) (b : Engine V E)
    (O : String → RowMap V → RowMap V) (e : Engine V E) : Prop :=
  Held names (admitRule K) b e ∧ Ahead K b O e

def asStored : String → RowMap V → RowMap V := fun _ rows => rows

def BareAt (e : Engine V E) (t : String) : Prop :=
  ∀ td, e.tables.lookup t = some td → td.secondaryIndexes = []

variable {O' : String → RowMap V → RowMap V} {e' : Engine V E}

lemma rowsOf_insert (td : TableData V E) (k data : Bytes) :
    rowsOf { td with index := td.index.insert k data } = update (rowsOf td) k (decodeRow data) := by
  funext p
  rw [rowsOf, OrderedMap.lookup_insert, update_apply]
  split
  · rfl
  · rfl

lemma rowsOf_erase (td : TableData V E) (k : Bytes) :
    rowsOf { td with index := td.index.erase k } = update (rowsOf td) k none := by
  funext p
  rw [rowsOf, OrderedMap.lookup_erase, update_apply]
  split
  · rfl
  · rfl

lemma rowsOf_lookup (htd : e.tables.lookup t = some td)
    (k : Bytes) : rowsOf td k = (e.content t k).bind decodeRow := by
  rw [rowsOf, content, htd]
  rfl

lemma Ahead.fit_good (h : Ahead K b O e)
    (htd : e.tables.lookup t = some td) {k : Bytes} {row : List V}
    (hrow : Good (admitRule K) b t k row) :
    row.length < 256 ∧ ∀ i, K td.schema.tableName i row[i]? :=
  hrow (defn td) ((h.defined t).symm.trans (defs_eq htd))

lemma Ahead.onTable (h : Ahead K b O e) (t : String)
    {f : TableData V E → TableData V E} (hdefn : ∀ td, defn (f td) = defn td)
    (hO : ∀ t', t' ≠ t → O' t' = O t')
    (hbare : ∀ td, e.tables.lookup t = some td → td.secondaryIndexes = [] →
      (f td).secondaryIndexes = [])
    (hf : ∀ td, e.tables.lookup t = some td → Fit (K td.schema.tableName) (rowsOf (f td)) ∧
      ∀ sec ∈ (f td).secondaryIndexes, Exact (K td.schema.tableName) (O' t (rowsOf (f td))) sec) :
    Ahead K b O' (e.onTable t f) := by
  have hname : ∀ td, (f td).schema = td.schema := fun td => congrArg fst (hdefn td)
  refine ⟨fun t' => (defs_onTable hdefn t).trans (h.defined t'),
    fun t' td0 td' htd0 hnone htd' => ?_,fun t' td' htd' => ?_,fun t' td' htd' => ?_⟩
  · rcases lookup_adjust_cases htd' with ⟨rfl,td,htd,rfl⟩ | ⟨-,htd⟩
    · exact hbare td htd (h.bare _ td0 td htd0 hnone htd)
    · exact h.bare t' td0 td' htd0 hnone htd
  · rcases lookup_adjust_cases htd' with ⟨rfl,td,htd,rfl⟩ | ⟨-,htd⟩
    · rw [hname]
      exact (hf td htd).1
    · exact h.fits t' td' htd
  · rcases lookup_adjust_cases htd' with ⟨rfl,td,htd,rfl⟩ | ⟨hne,htd⟩
    · rw [hname]
      exact (hf td htd).2
    · rw [hO t' hne]
      exact h.entries t' td' htd

def core (td : TableData V E) :
    (Schema V × List E) × OrderedMap Bytes Bytes × List SecondaryIndex :=
  (defn td,td.index,td.secondaryIndexes)

def SameRows (e e' : Engine V E) : Prop :=
  ∀ t, (e'.tables.lookup t).map core = (e.tables.lookup t).map core

lemma Still.sameRows (h : Still e e') : SameRows e e' := by
  intro t
  have ht := congrArg (Option.map core) (h.table t)
  rw [Option.map_map, Option.map_map] at ht
  exact ht

lemma SameRows.back (h : SameRows e e') {td' : TableData V E}
    (htd' : e'.tables.lookup t = some td') : ∃ td, e.tables.lookup t = some td ∧
      defn td' = defn td ∧ td'.secondaryIndexes = td.secondaryIndexes ∧ td'.index = td.index := by
  have ht := h t
  rw [htd'] at ht
  obtain ⟨td,htd,hcore⟩ := Option.map_eq_some_iff.mp ht.symm
  have hcore := hcore.symm
  exact ⟨td,htd,congrArg fst hcore,congrArg (fun c => c.2.2) hcore, congrArg (fun c => c.2.1) hcore⟩

lemma SameRows.content (h : SameRows e e') (t : String) (k : Bytes) :
    e'.content t k = e.content t k := by
  have ht := congrArg (Option.map (fun c => c.2.1)) (h t)
  rw [Option.map_map, Option.map_map] at ht
  have hlook := congrArg (fun m : Option (OrderedMap Bytes Bytes) => m.bind (·.lookup k)) ht
  simp only [Option.bind_map] at hlook
  exact hlook

lemma SameRows.of_tables (h : e'.tables = e.tables) : SameRows e e' := fun t => by rw [h]

lemma ahead_sameRows (h : Ahead K b O e) (hs : SameRows e e') : Ahead K b O e' := by
  have hrows : ∀ td td' : TableData V E, td'.index = td.index → rowsOf td' = rowsOf td := by
    intro td td' hindex
    funext p
    rw [rowsOf, rowsOf, hindex]
  refine ⟨fun t => ?_,fun t td0 td' htd0 hnone htd' => ?_,fun t td' htd' => ?_,
    fun t td' htd' => ?_⟩
  · rw [← h.defined t]
    have ht := congrArg (Option.map fst) (hs t)
    rw [Option.map_map, Option.map_map] at ht
    exact ht
  · obtain ⟨td,htd,-,hsecs,-⟩ := hs.back htd'
    rw [hsecs]
    exact h.bare t td0 td htd0 hnone htd
  · obtain ⟨td,htd,hdefn,-,hindex⟩ := hs.back htd'
    have hschema : td'.schema = td.schema := congrArg fst hdefn
    rw [hschema, hrows td td' hindex]
    exact h.fits t td htd
  · obtain ⟨td,htd,hdefn,hsecs,hindex⟩ := hs.back htd'
    have hschema : td'.schema = td.schema := congrArg fst hdefn
    rw [hschema, hsecs, hrows td td' hindex]
    exact h.entries t td htd

lemma settled_tracked : Settled names (Tracked (E := E) names K b O) where
  names _ h := h.1.sound.within
  still e e' h hs := ⟨settled_held.still e e' h.1 hs,ahead_sameRows h.2 hs.sameRows⟩

lemma Ahead.bareAt (h : Ahead K b O e) (hb : BareAt b t) : BareAt e t := by
  intro td htd
  obtain ⟨td0,htd0,-⟩ := Option.map_eq_some_iff.mp ((h.defined t).symm.trans (defs_eq htd))
  exact h.bare t td0 td htd0 (hb td0 htd0) htd

lemma Ahead.of_bare (h : Ahead K b O e)
    (hbare : BareAt e t) (hO : ∀ t', t' ≠ t → O' t' = O t') : Ahead K b O' e := by
  refine ⟨h.defined,h.bare,h.fits,fun t' td htd sec hsec => ?_⟩
  by_cases ht : t' = t
  · rw [hbare td (ht ▸ htd)] at hsec
    cases hsec
  · rw [hO t' ht]
    exact h.entries t' td htd sec hsec

section
variable {k : Bytes} {row old new : List V}

def Idle {α : Type} (m : Exec V E α) : Prop := ∀ e, SameRows e (m e).2

variable {α : Type}

lemma Idle.stays {m : Exec V E α} (hm : Idle m) {P : Engine V E → Prop}
    (hP : ∀ e e', P e → SameRows e e' → P e') : Stays P m :=
  .of_state (fun e he => hP e _ he (hm e))

lemma Idle.bind {α β : Type} {m : Exec V E α} {f : α → Exec V E β} (hm : Idle m)
    (hf : ∀ a, Idle (f a)) : Idle (m >>= f) := by
  intro e
  have h := hm e
  cases hms : m e with
  | mk r e' =>
    rw [hms] at h
    cases r with
    | error err =>
      rw [bind_error hms]
      exact h
    | ok a =>
      rw [bind_ok hms]
      exact fun t => (hf a e' t).trans (h t)

lemma idle_modify {f : Engine V E → Engine V E} (h : ∀ e, (f e).tables = e.tables) :
    Idle (modify f) :=
  fun e => SameRows.of_tables (h e)

lemma idle_check (f : Engine V E → Except QueryError α) : Idle (check f) := fun _ _ => rfl

lemma idle_onVersions (table : String)
    (f : VersionStore (List V) → VersionStore (List V) × Except CoreError α) :
    Idle (onVersions table f : Exec V E Unit) := by
  intro e t
  have hframe : ∀ vs : VersionStore (List V), ((e.onTable table (fun td => { td with
      versionStore := vs })).tables.lookup t).map core = (e.tables.lookup t).map core := by
    intro vs
    rw [Engine.onTable, lookup_adjust]
    split
    · rw [Option.map_map]
      rfl
    · rfl
  rw [onVersions]
  cases e.tables.lookup table with
  | none => rfl
  | some td =>
    dsimp only
    cases (f td.versionStore).2 with
    | ok | error => exact hframe _

lemma idle_ssiWrite (table : String) (key : Bytes) :
    Idle (ssiWrite txnId table key : Exec V E Unit) := by
  cases txnId with
  | none => exact fun _ _ => rfl
  | some tid => exact idle_modify (fun _ => rfl)

lemma idle_inTxn {f : TxnId → Exec V E Unit} (h : ∀ tid, Idle (f tid)) : Idle (inTxn txnId f) := by
  cases txnId with
  | none => exact fun _ _ => rfl
  | some tid => exact h tid

section
variable (tid : TxnId) (table : String) (slot : ℕ) (td : TableData V E)

lemma idle_insertVersion (p : InsertPlan V) : Idle (insertVersion tid table slot td p) :=
  .bind (idle_modify (fun _ => rfl)) (fun _ => .bind (idle_check _) (fun _ =>
    .bind (idle_onVersions _ _) (fun _ => idle_ssiWrite _ _)))

lemma idle_updateVersion (p : UpdatePlan V) : Idle (updateVersion tid table slot td p) :=
  .bind (idle_check _) (fun _ => .bind (idle_onVersions _ _) (fun _ =>
    .bind (idle_onVersions _ _) (fun _ => .bind (idle_ssiWrite _ _) (fun _ =>
      idle_modify (fun _ => rfl)))))

lemma idle_deleteVersion (p : DeletePlan V) : Idle (deleteVersion tid table slot td p) :=
  .bind (idle_check _) (fun _ => .bind (idle_onVersions _ _) (fun _ =>
    .bind (idle_onVersions _ _) (fun _ => .bind (idle_ssiWrite _ _) (fun _ =>
      idle_modify (fun _ => rfl)))))

end

lemma SameRows.bareAt (h : SameRows e e') (hb : BareAt e t) : BareAt e' t := by
  intro td' htd'
  obtain ⟨td,htd,-,hsecs,-⟩ := h.back htd'
  rw [hsecs]
  exact hb td htd

lemma ahead_onSecondaries {R : Engine V E → Prop}
    {f : List SecondaryIndex → List SecondaryIndex × Except CoreError Unit}
    (hnil : f [] = ([],.ok ())) (hO : ∀ t', t' ≠ t → O' t' = O t')
    (hf : ∀ e td, R e → Ahead K b O e → e.tables.lookup t = some td →
      (f td.secondaryIndexes).2 = .ok () ∧ ∀ sec ∈ (f td.secondaryIndexes).1,
        Exact (K td.schema.tableName) (O' t (rowsOf td)) sec) :
    Triple (fun e => Ahead K b O e ∧ R e) (onSecondaries t f) (fun _ => Ahead K b O') F := by
  intro e he
  rw [onSecondaries]
  cases htd : e.tables.lookup t with
  | none => exact he.1.of_bare (fun td h => by rw [htd] at h; cases h) hO
  | some td =>
    obtain ⟨hok,hexact⟩ := hf e td he.2 he.1 htd
    dsimp only
    rw [hok]
    refine (he.1.onTable t (fun _ => rfl) hO (fun td' htd' hnone => ?_) (fun td' htd' => ?_) :
      Ahead K b O' (e.onTable t (fun td' => { td' with
        secondaryIndexes := (f td.secondaryIndexes).1 })))
    · rw [htd] at htd'
      cases htd'
      show (f td.secondaryIndexes).1 = []
      rw [hnone, hnil]
    · rw [htd] at htd'
      cases htd'
      exact ⟨he.1.fits t td htd,hexact⟩

lemma update_ne (f : RowMap V → RowMap V) : ∀ t', t' ≠ t → update O t f t' = O t' :=
  fun _ ht => update_of_ne ht ..

lemma ahead_insert (hO : O t = fun rows => rows) (hrow : Good (admitRule K) b t k row) :
    Triple (fun e => Ahead K b O e ∧ (e.content t k = none ∨ BareAt e t))
      (updateSecondaryIndexesInsert t row k)
      (fun _ => Ahead K b (update O t (fun rows => update rows k (some row)))) F := by
  refine ahead_onSecondaries rfl (update_ne _) (fun e td hfree he htd => ?_)
  rw [update_self]
  rcases hfree with hnone | hbare
  · have hk : rowsOf td k = none := by
      rw [rowsOf_lookup htd, hnone]
      rfl
    have hentries := he.entries t td htd
    rw [hO] at hentries
    exact insertSecondaries_exact hentries (he.fits t td htd) (he.fit_good htd hrow).2 hk
  · rw [hbare td htd]
    exact ⟨rfl,nofun⟩

def Stored (t : String) (k : Bytes) (old : List V) (e : Engine V E) : Prop :=
  ∃ data, e.content t k = some data ∧ decodeRow data = some old

lemma Stored.rowsOf (h : Stored t k old e)
    (htd : e.tables.lookup t = some td) : Engine.rowsOf td k = some old := by
  obtain ⟨data,hc,hdec⟩ := h
  rw [rowsOf_lookup htd, hc]
  exact hdec

lemma ahead_update (hO : O t = fun rows => rows) (hnew : Good (admitRule K) b t k new) :
    Triple (fun e => Ahead K b O e ∧ (Stored t k old e ∨ BareAt e t))
      (updateSecondaryIndexesUpdate t old new k)
      (fun _ => Ahead K b (update O t (fun rows => update rows k (some new)))) F := by
  refine ahead_onSecondaries rfl (update_ne _) (fun e td hfree he htd => ?_)
  rw [update_self]
  rcases hfree with hstored | hbare
  · have hentries := he.entries t td htd
    rw [hO] at hentries
    exact updateSecondaries_exact hentries (he.fits t td htd) (hstored.rowsOf htd)
      (he.fit_good htd hnew).2
  · rw [hbare td htd]
    exact ⟨rfl,nofun⟩

lemma ahead_delete (hfit : ∀ (J : ℕ → Option V → Prop) rows, Fit J rows → Fit J (O t rows)) :
    Triple (fun e => Ahead K b O e ∧ ((∀ td, e.tables.lookup t = some td →
        O t (rowsOf td) k = some old) ∨ BareAt e t))
      (updateSecondaryIndexesDelete t old k)
      (fun _ => Ahead K b (update O t (fun rows => update (O t rows) k none)))
      F := by
  refine ahead_onSecondaries rfl (update_ne _) (fun e td hfree he htd => ⟨rfl,?_⟩)
  rw [update_self]
  rcases hfree with hstored | hbare
  · exact deleteSecondaries_exact (he.entries t td htd) (hfit _ _ (he.fits t td htd))
      (hstored td htd)
  · rw [hbare td htd]
    exact nofun

lemma ahead_putRow (hc : Coded ev) (hO : O t = fun rows => rows)
    (hrow : Good (admitRule K) b t k row) :
    Triple (Ahead K b (update O t (fun rows => update rows k (some row))))
      (putRow ev t k (serialize row)) (fun _ => Ahead K b O) F := by
  intro e he
  have hlog : Ahead K b (update O t (fun rows => update rows k (some row)))
      (logDelta ⟨t,TableLog.opPut,k,((e.tables.lookup t).map
        (fun td => ev.spill e td (serialize row))).getD (serialize row)⟩ e) := ahead_sameRows he (.of_tables rfl)
  refine (hlog.onTable t (fun _ => rfl) (fun t' ht => (update_of_ne ht ..).symm)
    (fun _ _ h => h) (fun td htd => ?_) : Ahead K b O (putRow ev t k (serialize row) e).2)
  replace htd : e.tables.lookup t = some td := htd
  obtain ⟨hlen,hfits⟩ := he.fit_good htd hrow
  have hrows : rowsOf { td with index := td.index.insert k (((e.tables.lookup t).map
      (fun td => ev.spill e td (serialize row))).getD (serialize row)) } =
        update (rowsOf td) k (some row) := by
    rw [rowsOf_insert, htd]
    exact congrArg _ (hc.decoded row e td hlen)
  rw [hrows]
  refine ⟨(he.fits t td htd).update hfits,fun sec hsec => ?_⟩
  have hexact := he.entries t td htd sec hsec
  rw [update_self] at hexact
  rw [hO]
  exact hexact

lemma ahead_deleteRow (hO : ∀ t', t' ≠ t → O' t' = O t')
    (hrows : ∀ rows, O' t (update rows k none) = O t rows) :
    Triple (Ahead K b O : Engine V E → Prop) (deleteRow t k) (fun _ => Ahead K b O') F := by
  intro e he
  have hlog : Ahead K b O (logDelta ⟨t,TableLog.opDel,k,[]⟩ e) := ahead_sameRows he (.of_tables rfl)
  refine (hlog.onTable t (fun _ => rfl) hO (fun _ _ h => h) (fun td htd => ?_) :
    Ahead K b O' (deleteRow t k e).2)
  replace htd : e.tables.lookup t = some td := htd
  rw [rowsOf_erase, hrows]
  exact ⟨(he.fits t td htd).remove,he.entries t td htd⟩

lemma Stored.sameRows (h : Stored t k old e) (hs : SameRows e e') : Stored t k old e' := by
  obtain ⟨data,hc,hdec⟩ := h
  exact ⟨data,(hs.content t k).trans hc,hdec⟩

lemma ahead_recordUndo (prev : Option Bytes) :
    Triple (Ahead K b O : Engine V E → Prop) (recordUndo txnId t k prev) (fun _ => Ahead K b O)
      F := by
  cases txnId with
  | none => exact triple_pure () (fun _ h => h)
  | some tid => exact triple_modify _ (fun _ h => ahead_sameRows h (.of_tables rfl))

end

variable {rest : List (Bytes × Bytes)} {entry : Bytes × Bytes}

structure InsertTracked (K : String → ℕ → Option V → Prop) (b : Engine V E) (t : String)
    (p : InsertPlan V) (e : Engine V E) : Prop where
  row : p.update = none → Good (admitRule K) b t p.key p.row ∧
    (e.content t p.key = none ∨ BareAt e t)
  update : ∀ old new, p.update = some (old,new) → Good (admitRule K) b t p.key new ∧
    Stored t p.key old e

lemma tracked_insertRow (hq : Quiet ev names Still) (hc : Coded ev) {stmt : InsertStmt E Q}
    (hS : defs b stmt.table = some (defn td))
    (hfree : td.schema.primaryKeyColumns ≠ [] ∨ BareAt b stmt.table) (values : List V)
    (hrow : ∀ e0 p, InsertFacts ev txnId stmt td values e0 p → p.update = none →
      admitRule K (defn td) p.key p.row)
    (hupdate : ∀ assignments old new k, stmt.onConflict = some (.doUpdate assignments) →
      Assigned ev td.schema assignments old new → admitRule K (defn td) k old →
        admitRule K (defn td) k new) (done : List (List V)) :
    Triple (Tracked names K b asStored) (insertRow ev txnId stmt td done values)
      (fun _ => Ahead K b asStored) (Ahead K b asStored) := by
  refine triple_eachRow (R := InsertTracked K b stmt.table)
    (triple_local (R := fun plan e => ∀ p, plan = some p → InsertTracked K b stmt.table p e)
      settled_tracked (fun e0 he0 => ?_)) (fun n p => ?_) (fun _ h => h.2) done
  · refine (triple_insertCheck hq he0.1.sound.within stmt td values).post (fun plan e hs => ⟨hs.1,fun p hp => ?_⟩)
    have hfacts := hs.2 p hp
    refine ⟨fun hnone => ⟨good_of_rule hS (hrow e0 p hfacts hnone),?_⟩,fun old new hupd => ?_⟩
    · rcases hfree with hpk | hbare
      · rcases hfacts.fresh hnone with hfresh | hno
        · rw [hfacts.existing] at hfresh
          exact .inl ((hs.1.content _ _).trans hfresh)
        · exact absurd hno hpk
      · exact .inr (hs.1.sameRows.bareAt (he0.2.bareAt hbare))
    · obtain ⟨data,assignments,hdata,hdec,hconf,hassigned⟩ := hfacts.update old new hupd
      rw [hfacts.existing] at hdata
      refine ⟨good_of_rule hS (hupdate assignments old new p.key hconf hassigned
        (he0.1.good_stored hdata hdec _ hS)),data,(hs.1.content _ _).trans hdata,hdec⟩
  · rw [insertWrite]
    cases hupd : p.update with
    | some u =>
      intro e he
      obtain ⟨hnew,hstored⟩ := he.2.update u.1 u.2 hupd
      refine triple_bind (ahead_update rfl hnew) (fun _ => ?_) e ⟨he.1.2,.inl hstored⟩
      refine triple_bind (ahead_recordUndo p.existing) (fun _ => ?_)
      exact triple_bind (ahead_putRow hc rfl hnew) (fun _ => stays_pure _)
    | none =>
      intro e he
      obtain ⟨hgood,hfree⟩ := he.2.row hupd
      refine triple_bind (P := fun e => Ahead K b asStored e ∧
        (e.content stmt.table p.key = none ∨ BareAt e stmt.table)) (Q := fun _ e =>
        Ahead K b asStored e ∧ (e.content stmt.table p.key = none ∨ BareAt e stmt.table))
        ?_ (fun _ => ?_) e ⟨he.1.2,hfree⟩
      · refine ((idle_inTxn (fun tid => idle_insertVersion tid _ _ _ _)).stays
          (fun e e' h hs => ⟨ahead_sameRows h.1 hs,?_⟩)).fail (fun _ h => h.1)
        rcases h.2 with hnone | hbare
        · exact .inl ((hs.content _ _).trans hnone)
        · exact .inr (hs.bareAt hbare)
      · refine triple_bind (ahead_insert rfl hgood) (fun _ => ?_)
        refine triple_bind (ahead_recordUndo p.existing) (fun _ => ?_)
        exact triple_bind (ahead_putRow hc rfl hgood) (fun _ => stays_pure _)

/-- The entries are the rows as they are stored, or there is nothing to keep. -/
def Current (b : Engine V E) (t : String) (rest : List (Bytes × Bytes)) (e : Engine V E) : Prop :=
  BareAt b t ∨ ∀ x ∈ rest, e.content t x.1 = some x.2

lemma settled_current :
    Settled names (fun e : Engine V E => Tracked names K b O e ∧ Current b t rest e) where
  names _ h := h.1.1.sound.within
  still e e' h hs := by
    refine ⟨settled_tracked.still e e' h.1 hs,h.2.imp_right (fun hrest x hx => ?_)⟩
    rw [hs.content]
    exact hrest x hx

lemma current_putRow {k data : Bytes} (hne : BareAt b t ∨ ∀ x ∈ rest, x.1 ≠ k) :
    Triple (Current b t rest) (putRow ev t k data) (fun _ => Current b t rest) F := by
  intro e he
  change Current b t rest (putRow ev t k data e).2
  rcases hne with hbare | hne
  · exact .inl hbare
  · refine he.imp_right (fun hrest x hx => ?_)
    rw [content_putRow, if_neg (fun h => hne x hx h.2)]
    exact hrest x hx

section
variable (table : String) (f : List SecondaryIndex → List SecondaryIndex × Except CoreError Unit)

lemma content_onSecondaries (t : String)
    (k : Bytes) : (onSecondaries table f e).2.content t k = e.content t k := by
  have hsame : ∀ secs, (e.onTable table (fun td => { td with
      secondaryIndexes := secs })).content t k = e.content t k := by
    intro secs
    rw [content_onTable]
    split
    · rename_i ht
      rw [ht, content]
    · rfl
  rw [onSecondaries]
  cases e.tables.lookup table with
  | none => rfl
  | some td =>
    dsimp only
    cases (f td.secondaryIndexes).2 with
    | ok | error => exact hsame _

lemma current_onSecondaries : Stays (Current b t rest) (onSecondaries table f) :=
  .of_state (fun _ he => he.imp_right (fun hrest x hx =>
    (content_onSecondaries table f t x.1).trans (hrest x hx)))

end

lemma noted_sameRows (table : String) (key : Bytes) (prev : Option Bytes) :
    SameRows e (noted txnId table key prev e) :=
  .of_tables (noted_tables ..)

lemma tracked_updateRow (hq : Quiet ev names Still) (hc : Coded ev) {stmt : UpdateStmt E}
    (hS : defs b stmt.table = some (defn td))
    (hupdate : ∀ e0 entry p, UpdateFacts ev txnId stmt td e0 entry p →
      admitRule K (defn td) entry.1 p.old → admitRule K (defn td) entry.1 p.new) (hentry : EntryGood (admitRule K) b stmt.table entry) (hne : BareAt b stmt.table ∨ ∀ x ∈ rest, x.1 ≠ entry.1)
    (done : List (List V)) :
    Triple (fun e => Tracked names K b asStored e ∧ Current b stmt.table (entry::rest) e)
      (updateRow ev txnId stmt td done entry)
      (fun _ e => Ahead K b asStored e ∧ Current b stmt.table rest e)
      (fun e => Ahead K b asStored e ∧ Current b stmt.table rest e) := by
  have hless : ∀ e, Current b stmt.table (entry::rest) e → Current b stmt.table rest e :=
    fun e h => h.imp_right (fun hrest x hx => hrest x (mem_cons_of_mem _ hx))
  refine triple_eachRow (R := fun (p : UpdatePlan V) e => p.key = entry.1 ∧
      Good (admitRule K) b stmt.table p.key p.new ∧ (Stored stmt.table p.key p.old e ∨
        BareAt e stmt.table)) ?_ (fun n p => ?_) (fun e h => ⟨h.1.2,hless e h.2⟩) done
  · refine triple_noted settled_current (noted txnId stmt.table entry.1 (some entry.2))
      (fun e he => ⟨⟨?_,?_⟩,?_⟩) (fun e0 he0 => ?_)
    · refine held_noted he.1.1 (fun data values hdata hdec => ?_)
      cases hdata
      exact hentry values hdec
    · exact ahead_sameRows he.1.2 (noted_sameRows _ _ _)
    · exact he.2.imp_right (fun hrest x hx =>
        ((noted_sameRows _ _ _).content _ _).trans (hrest x hx))
    refine (triple_updateCheck hq he0.1.1.sound.within stmt td entry).post (fun plan e hs => hs.imp (fun p hfacts e' hs' => ?_))
    have hsame : ∀ k, e'.content stmt.table k = e0.content stmt.table k := fun k =>
      (hs'.content _ _).trans ((noted_sameRows _ _ _).content _ _)
    rw [hfacts.key]
    refine ⟨rfl,good_of_rule hS (hupdate e0 entry p hfacts (hentry _ hfacts.old _ hS)),?_⟩
    rcases he0.2 with hbare | hrest
    · refine .inr (hs'.sameRows.bareAt ((noted_sameRows _ _ _).bareAt ?_))
      exact he0.1.2.bareAt hbare
    · exact .inl ⟨entry.2,(hsame _).trans (hrest entry (mem_cons_self ..)),hfacts.old⟩
  · intro e he
    obtain ⟨⟨⟨-,hahead⟩,hcur⟩,hkey,hnew,hold⟩ := he
    refine triple_bind (P := fun e => (Ahead K b asStored e ∧
      (Stored stmt.table p.key p.old e ∨ BareAt e stmt.table)) ∧ Current b stmt.table rest e)
      (Q := fun _ e => (Ahead K b asStored e ∧
      (Stored stmt.table p.key p.old e ∨ BareAt e stmt.table)) ∧ Current b stmt.table rest e)
      ?_ (fun _ => ?_) e ⟨⟨hahead,hold⟩,hless e hcur⟩
    · refine ((idle_inTxn (fun tid => idle_updateVersion tid _ _ _ _)).stays
        (fun e e' h hs => ⟨⟨ahead_sameRows h.1.1 hs,?_⟩,?_⟩)).fail (fun _ h => ⟨h.1.1,h.2⟩)
      · exact h.1.2.imp (fun h => h.sameRows hs) (fun h => hs.bareAt h)
      · exact h.2.imp_right (fun hrest x hx => (hs.content _ _).trans (hrest x hx))
    · refine triple_bind (Q := fun _ e => Ahead K b (update asStored stmt.table
        (fun rows => update rows p.key (some p.new))) e ∧ Current b stmt.table rest e)
        (Triple.and ?_ ?_) (fun _ => triple_bind (Triple.and ?_ ?_) (fun _ => stays_pure _))
      · exact (ahead_update rfl hnew).pre (fun _ h => h.1)
      · exact (current_onSecondaries _ _).pre (fun _ h => h.2)
      · exact (ahead_putRow hc rfl hnew).pre (fun _ h => h.1)
      · exact (current_putRow (hkey.symm ▸ hne)).pre (fun _ h => h.2)

section

lemma ahead_cascade (hc : Coded ev) (tg : Target) (hO : O tg.childName = fun rows => rows)
    (hnull : NullSafe (admitRule K) b tg.childName tg.action tg.childIdxs) :
    Triple (Tracked names K b O) (cascade ev txnId tg) (fun _ => Ahead K b O) F := by
  have hfit : ∀ (J : ℕ → Option V → Prop) rows, Fit J rows → Fit J (O tg.childName rows) := by
    intro J rows h
    rw [hO]
    exact h
  rw [cascade]
  cases haction : tg.action with
  | restrict => exact triple_pure () (fun _ h => h.2)
  | cascade =>
    refine triple_bind (Q := fun prev e => Ahead K b O e ∧
      prev = e.content tg.childName tg.key) (triple_get _ (fun e he => ⟨he.2,rfl⟩)) (fun prev => ?_)
    have hunindex : Triple (fun e => Ahead K b O e ∧ prev = e.content tg.childName tg.key)
        (unindex tg.childName tg.key prev) (fun _ => Ahead K b (update O tg.childName
          (fun rows => update (O tg.childName rows) tg.key none))) F := by
      rw [unindex]
      cases hdec : prev.bind (decodeRow (V := V)) with
      | none =>
        refine triple_pure () (fun e he => ⟨he.1.defined,he.1.bare,he.1.fits,?_⟩)
        intro t' td htd
        by_cases ht : t' = tg.childName
        · subst ht
          have hk : rowsOf td tg.key = none := by
            rw [rowsOf_lookup htd, ← he.2]
            exact hdec
          have hentries := he.1.entries _ td htd
          rw [hO] at hentries
          rw [update_self, hO, update_none hk]
          exact hentries
        · rw [update_of_ne ht]
          exact he.1.entries t' td htd
      | some old =>
        refine (ahead_delete hfit).pre (fun e he => ⟨he.1,.inl (fun td htd => ?_)⟩)
        have hk : rowsOf td tg.key = some old := by
          rw [rowsOf_lookup htd, ← he.2]
          exact hdec
        rw [hO]
        exact hk
    refine triple_bind hunindex (fun _ => triple_bind (ahead_recordUndo prev) (fun _ => ?_))
    refine ahead_deleteRow (fun t' ht => (update_of_ne ht ..).symm) (fun rows => ?_)
    rw [update_self, hO]
  | setNull =>
    refine triple_bind (Q := fun prev e => Tracked names K b O e ∧
      prev = e.content tg.childName tg.key) (triple_get _ (fun e he => ⟨he,rfl⟩)) (fun prev => ?_)
    cases prev with
    | none => exact triple_pure () (fun e he => he.1.2)
    | some data =>
      dsimp only
      cases hdec : (decodeRow data : Option (List V)) with
      | none => exact triple_pure () (fun e he => he.1.2)
      | some old =>
        intro e he
        have hnew := hnull haction tg.key old (he.1.1.good_stored he.2.symm hdec)
        refine triple_bind (ahead_update hO hnew) (fun _ =>
          triple_bind (ahead_recordUndo (some data)) (fun _ => ahead_putRow hc hO hnew)) e
          ⟨he.1.2,.inl ⟨data,he.2.symm,hdec⟩⟩

lemma tracked_cascade (hc : Coded ev) (hread : Readable ev (admitRule K)) (tg : Target) (hO : O tg.childName = fun rows => rows)
    (hnull : NullSafe (admitRule K) b tg.childName tg.action tg.childIdxs) :
    Triple (Tracked names K b O) (cascade ev txnId tg) (fun _ => Tracked names K b O)
      (fun e => Held names (admitRule K) b e ∧ F e) :=
  ((stays_cascade hread tg hnull).pre (fun _ h => h.1)).and (ahead_cascade hc tg hO hnull)

variable {stmt : DeleteStmt E} {refs : List FkRef}

lemma tracked_deleteRowOf_bare (hq : Quiet ev names Still) (hc : Coded ev)
    (hread : Readable ev (admitRule K)) (hbare : BareAt b stmt.table)
    (hnull : ∀ fkr ∈ refs, NullSafe (admitRule K) b fkr.childName fkr.onDelete fkr.childIdxs) (hentry : EntryGood (admitRule K) b stmt.table entry)
    (done : List (Bytes × List V)) :
    Triple (Tracked names K b asStored) (deleteRowOf ev txnId stmt td refs done entry)
      (fun _ => Ahead K b asStored) (Ahead K b asStored) := by
  refine triple_eachRow (R := fun (p : DeletePlan V) _ => ∀ tg ∈ p.targets,
      NullSafe (admitRule K) b tg.childName tg.action tg.childIdxs)
    (triple_passed settled_tracked (noted txnId stmt.table entry.1 (some entry.2))
      (fun e he => ⟨held_noted he.1 (fun data values hdata hdec => ?_),?_⟩) (fun e0 he0 => ?_))
    (fun n p => ?_) (fun _ h => h.2) done
  · cases hdata
    exact hentry values hdec
  · exact ahead_sameRows he.2 (noted_sameRows _ _ _)
  · refine (triple_deleteCheck hq he0.1.sound.within stmt td refs entry).post (fun plan e hs => hs.imp (fun p hfacts tg htg => ?_))
    obtain ⟨fkr,hfkr,ts,hts,hmem⟩ := (cascadeTargets_iff hfacts.targets tg).mp htg
    obtain ⟨hname,haction,hidxs,-⟩ := targetsOf_mem hts hmem
    rw [hname, haction, hidxs]
    exact hnull fkr hfkr
  intro e he
  refine triple_bind (triple_loop (I := fun _ => Tracked names K b asStored) p.targets
    (fun tg htg _ => ?_) ()) (fun _ => ?_) e he.1
  · exact (tracked_cascade hc hread tg rfl (he.2 tg htg)).fail (fun _ h => h.2)
  refine triple_bind (Q := fun _ => Ahead K b asStored)
    (((idle_inTxn (fun tid => idle_deleteVersion tid _ _ _ _)).stays
      (fun e e' h hs => ahead_sameRows h hs)).pre (fun _ h => h.2)) (fun _ => ?_)
  refine triple_bind (Q := fun _ => Ahead K b asStored) ?_ (fun _ => stays_pure _)
  refine (ahead_delete (O := asStored) (fun _ _ h => h)).weaken
    (fun e h => ⟨h,.inr (h.bareAt hbare)⟩) (fun _ e h => ?_) (fun _ h => h)
  exact h.of_bare (h.bareAt hbare) (fun t' ht => (update_of_ne ht ..).symm)

def hidden (t : String) (keys : List Bytes) : String → RowMap V → RowMap V :=
  Function.update asStored t (fun rows p => if p ∈ keys then none else rows p)

lemma hidden_self (keys : List Bytes) (rows : RowMap V) (p : Bytes) :
    hidden t keys t rows p = if p ∈ keys then none else rows p := by
  rw [hidden, update_self]

lemma hidden_other {t' : String} (ht : t' ≠ t) (keys : List Bytes) :
    hidden (V := V) t keys t' = fun rows => rows :=
  update_of_ne ht ..

lemma hidden_fit (keys : List Bytes) (J : ℕ → Option V → Prop) (rows : RowMap V)
    (h : Fit J rows) : Fit J (hidden t keys t rows) := by
  intro p row hp
  rw [hidden_self] at hp
  split at hp
  · cases hp
  · exact h p row hp

lemma hidden_append (keys : List Bytes) (k : Bytes) :
    update (hidden t keys) t (fun rows => update (hidden t keys t rows) k none) =
      hidden (V := V) t (keys++[k]) := by
  funext t' rows p
  by_cases ht : t' = t
  · subst ht
    rw [update_self, update_apply, hidden_self, hidden_self]
    by_cases hp : p = k
    · simp [hp]
    · simp [hp]
  · rw [update_of_ne ht, hidden_other ht, hidden_other ht]

lemma cascadeTargets_ok (h : ∀ fkr ∈ refs, fkr.onDelete ≠ .restrict)
    (e : Engine V E) (row : List V) : ∃ targets, cascadeTargets e refs row = .ok targets := by
  have hone : ∀ fkr ∈ refs, ∃ ts, targetsOf e row fkr = .ok ts := by
    intro fkr hfkr
    rw [targetsOf]
    split
    · exact ⟨_,rfl⟩
    dsimp only
    split
    · exact ⟨_,rfl⟩
    · rw [if_neg (fun hrestrict => h fkr hfkr hrestrict.1)]
      exact ⟨_,rfl⟩
  have hall : ∃ out, refs.mapM (targetsOf e row) = .ok out := by
    clear h
    induction refs with
    | nil => exact ⟨[],rfl⟩
    | cons fkr refs ih =>
      obtain ⟨ts,hts⟩ := hone fkr (mem_cons_self ..)
      obtain ⟨out,hout⟩ := ih (fun f hf => hone f (mem_cons_of_mem _ hf))
      refine ⟨ts::out,?_⟩
      rw [mapM_cons, hts, hout]
      rfl
  obtain ⟨out,hout⟩ := hall
  refine ⟨out.flatten,?_⟩
  rw [cascadeTargets, hout]
  rfl

lemma deleteCheck_succeeds (h : ∀ fkr ∈ refs, fkr.onDelete ≠ .restrict) (entry : Bytes × Bytes) :
    Triple (fun _ => True) (deleteCheck ev none stmt td refs entry) (fun _ _ => True)
      (fun _ => False) := by
  refine triple_bind (Q := fun _ _ => True) ?_ (fun row => ?_)
  · rw [selectRow]
    split
    · exact triple_pure _ (fun _ _ => trivial)
    · split
      · exact triple_pure _ (fun _ _ => trivial)
      · exact triple_bind (Q := fun _ _ => True) (fun _ _ => trivial)
          (fun _ => triple_pure _ (fun _ _ => trivial))
  · cases row with
    | none => exact triple_pure _ (fun _ _ => trivial)
    | some row =>
      refine triple_bind (Q := fun _ _ => True) (fun _ _ => trivial) (fun _ =>
        triple_bind (Q := fun _ _ => True) (fun _ _ => trivial) (fun _ =>
          triple_bind (Q := fun _ _ => True) ?_ (fun _ => triple_pure _ (fun _ _ => trivial))))
      intro e _
      obtain ⟨targets,htargets⟩ := cascadeTargets_ok h e row
      rw [check, htargets]
      trivial

lemma content_cascade (tg : Target) (ht : t ≠ tg.childName) (k : Bytes) (c : Option Bytes) :
    Stays (fun e : Engine V E => e.content t k = c) (cascade ev txnId tg) := by
  have hsecs : ∀ f, Stays (fun e : Engine V E => e.content t k = c)
      (onSecondaries tg.childName f) :=
    fun f => .of_state (fun _ he => (content_onSecondaries tg.childName f t k).trans he)
  have hundo : ∀ prev, Stays (fun e : Engine V E => e.content t k = c)
      (recordUndo txnId tg.childName tg.key prev) := by
    intro prev
    cases txnId with
    | none => exact stays_pure ()
    | some tid => exact stays_modify _ (fun _ he => he)
  rw [cascade]
  cases tg.action with
  | restrict => exact stays_pure ()
  | cascade =>
    refine stays_bind (stays_get _) (fun prev => stays_bind ?_ (fun _ =>
      stays_bind (hundo prev) (fun _ e he => ?_)))
    · rw [unindex]
      split
      · exact stays_pure ()
      · exact hsecs _
    · change (deleteRow tg.childName tg.key e).2.content t k = c
      rw [content_deleteRow, if_neg (fun h => ht h.1)]
      exact he
  | setNull =>
    refine stays_bind (stays_get _) (fun prev => ?_)
    cases prev with
    | none => exact stays_pure ()
    | some data =>
      dsimp only
      split
      · exact stays_pure ()
      · refine stays_bind (hsecs _) (fun _ => stays_bind (hundo _) (fun _ e he => ?_))
        change (putRow ev tg.childName tg.key _ e).2.content t k = c
        rw [content_putRow, if_neg (fun h => ht h.1)]
        exact he

/-- The entries that DELETE has still to go through are stored and not yet
hidden. -/
def Awaits (t : String) (rest : List (Bytes × Bytes)) (keys : List Bytes) (e : Engine V E) : Prop :=
  ∀ x ∈ rest, e.content t x.1 = some x.2 ∧ x.1 ∉ keys

variable {keys : List Bytes}

lemma awaits_still (h : Awaits t rest keys e) (hs : SameRows e e') : Awaits t rest keys e' :=
  fun x hx => ⟨(hs.content _ _).trans (h x hx).1,(h x hx).2⟩

lemma settled_awaits :
    Settled names (fun e : Engine V E => Tracked names K b O e ∧ Awaits t rest keys e) where
  names _ h := h.1.1.sound.within
  still e e' h hs := ⟨settled_tracked.still e e' h.1 hs,awaits_still h.2 hs.sameRows⟩

lemma awaits_onSecondaries (table : String)
    (f : List SecondaryIndex → List SecondaryIndex × Except CoreError Unit) :
    Stays (Awaits t rest keys : Engine V E → Prop) (onSecondaries table f) :=
  .of_state (fun _ he x hx =>
    ⟨(content_onSecondaries table f t x.1).trans (he x hx).1,(he x hx).2⟩)

lemma awaits_cascade (tg : Target) (ht : t ≠ tg.childName) :
    Stays (Awaits t rest keys : Engine V E → Prop) (cascade ev txnId tg) :=
  .of_state (fun _ he x hx => ⟨(content_cascade tg ht x.1 _).state (he x hx).1,(he x hx).2⟩)

lemma tracked_deleteRowOf (hq : Quiet ev names Still) (hc : Coded ev)
    (hread : Readable ev (admitRule K))
    (hrefs : ∀ fkr ∈ refs, NullSafe (admitRule K) b fkr.childName fkr.onDelete fkr.childIdxs ∧
      fkr.childName ≠ stmt.table ∧ fkr.onDelete ≠ .restrict) (hne : ∀ x ∈ rest, x.1 ≠ entry.1) (done : List (Bytes × List V)) :
    Triple (fun e => Tracked names K b (hidden stmt.table (done.map fst)) e ∧
        Awaits stmt.table (entry::rest) (done.map fst) e)
      (deleteRowOf ev none stmt td refs done entry)
      (fun done' e => Ahead K b (hidden stmt.table (done'.map fst)) e ∧
        Awaits stmt.table rest (done'.map fst) e) F := by
  have hless : ∀ e : Engine V E, Awaits stmt.table (entry::rest) (done.map fst) e →
      Awaits stmt.table rest (done.map fst) e :=
    fun e h x hx => h x (mem_cons_of_mem _ hx)
  refine triple_bind (Q := fun plan e => (Tracked names K b (hidden stmt.table (done.map fst)) e ∧
      Awaits stmt.table (entry::rest) (done.map fst) e) ∧
    ∀ p : DeletePlan V, plan = some p → p.key = entry.1 ∧ decodeRow entry.2 = some p.row ∧
      cascadeTargets e refs p.row = .ok p.targets) ?_ (fun plan => ?_)
  · refine (Triple.and (triple_local (R := fun plan e => ∀ p : DeletePlan V, plan = some p →
      p.key = entry.1 ∧ decodeRow entry.2 = some p.row ∧
        cascadeTargets e refs p.row = .ok p.targets) settled_awaits (fun e0 he0 => ?_))
      ((deleteCheck_succeeds (fun fkr hfkr => (hrefs fkr hfkr).2.2) entry).pre (fun _ _ => trivial))).weaken (fun _ h => h)
      (fun _ _ h => h.1) (fun _ h => h.2.elim)
    refine (triple_deleteCheck hq he0.1.1.sound.within stmt td refs entry).post (fun plan e hs => ?_)
    cases plan with
    | none => exact ⟨hs,nofun⟩
    | some p =>
      obtain ⟨hstill,hfacts⟩ := hs
      refine ⟨hstill,fun p' hp' => ?_⟩
      cases hp'
      rw [cascadeTargets_still hstill]
      exact ⟨hfacts.key,hfacts.row,hfacts.targets⟩
  cases plan with
  | none => exact triple_pure done (fun e he => ⟨he.1.1.2,hless e he.1.2⟩)
  | some p =>
    intro e0 he0
    obtain ⟨⟨htracked,hawaits⟩,hplan⟩ := he0
    obtain ⟨hkey,hdec,htargets⟩ := hplan p rfl
    have htarget : ∀ tg ∈ p.targets, stmt.table ≠ tg.childName ∧
        NullSafe (admitRule K) b tg.childName tg.action tg.childIdxs := by
      intro tg htg
      obtain ⟨fkr,hfkr,ts,hts,hmem⟩ := (cascadeTargets_iff htargets tg).mp htg
      obtain ⟨hname,haction,hidxs,-⟩ := targetsOf_mem hts hmem
      rw [hname, haction, hidxs]
      exact ⟨(hrefs fkr hfkr).2.1.symm,(hrefs fkr hfkr).1⟩
    refine triple_bind (P := fun e => Tracked names K b (hidden stmt.table (done.map fst)) e ∧
        Awaits stmt.table (entry::rest) (done.map fst) e)
      (Q := fun r e => r = (p.key,p.row) ∧ Ahead K b (hidden stmt.table (done.map fst++[p.key])) e ∧
        Awaits stmt.table (entry::rest) (done.map fst) e) ?_
      (fun r => triple_pure _ (fun e he => ?_)) e0 ⟨htracked,hawaits⟩
    · refine triple_bind (triple_loop (I := fun _ e =>
        Tracked names K b (hidden stmt.table (done.map fst)) e ∧
        Awaits stmt.table (entry::rest) (done.map fst) e) p.targets (fun tg htg _ => ?_) ())
        (fun _ => ?_)
      · refine (Triple.and ((tracked_cascade (F := fun _ => False) hc hread tg
          (hidden_other (htarget tg htg).1.symm _) (htarget tg htg).2).pre (fun _ h => h.1)) ((awaits_cascade tg (htarget tg htg).1).pre (fun _ h => h.2))).fail (fun _ h => h.1.2.elim)
      refine triple_bind (triple_noTxn _) (fun _ => triple_bind (Q := fun _ e =>
        Ahead K b (hidden stmt.table (done.map fst++[p.key])) e ∧
        Awaits stmt.table (entry::rest) (done.map fst) e) ?_ (fun _ =>
        triple_pure _ (fun e he => ⟨rfl,he⟩)))
      rw [← hidden_append]
      refine (Triple.and ((ahead_delete (F := fun _ => False) (hidden_fit _)).pre (fun e he => ⟨he.1.2,.inl (fun td htd => ?_)⟩))
        ((awaits_onSecondaries stmt.table _).pre (fun _ h => h.2))).fail (fun _ h => h.1.elim)
      obtain ⟨hcontent,hnot⟩ := he.2 entry (mem_cons_self ..)
      rw [hidden_self, hkey, if_neg hnot, rowsOf_lookup htd, hcontent]
      exact hdec
    · obtain ⟨rfl,hahead,hawaits⟩ := he
      rw [map_append]
      refine ⟨hahead,fun x hx => ⟨(hawaits x (mem_cons_of_mem _ hx)).1,?_⟩⟩
      rw [mem_append, not_or]
      refine ⟨(hawaits x (mem_cons_of_mem _ hx)).2,fun hmem => hne x hx ?_⟩
      rw [← hkey]
      exact mem_singleton.mp hmem

end

end ByteDB.Engine
