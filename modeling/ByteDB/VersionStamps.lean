import ByteDB.Redefinitions
import ByteDB.Steady

/-!
# Who has created the versions

A version carries its creator and the time at which the creator began. Of all
that a statement does, only its own writes add versions, and they carry the
stamp of a transaction that is active, or that of the base.
-/

set_option autoImplicit false

namespace ByteDB.Engine
open ByteDB.Assoc Command Codec List VersionStore

variable {V E Q : Type} {ev : Evaluator V E Q} {txnId : Option TxnId} {b : Engine V E}
  {crc : Bytes → UInt32}

abbrev Stamp := TxnId × Timestamp

def TableHasStamp (td : TableData V E) (s : Stamp) : Prop :=
  ∃ key, ∃ v ∈ VersionStore.chain td.versionStore key, (v.createdBy,v.createdTs) = s

def MapHasStamp (tables : Map String (TableData V E)) (s : Stamp) : Prop :=
  ∃ t td, tables.lookup t = some td ∧ TableHasStamp td s

def HasStamp (e : Engine V E) (s : Stamp) : Prop :=
  MapHasStamp e.tables s ∨ ∃ db tables, e.dbTables.lookup db = some tables ∧ MapHasStamp tables s

/-- From `e` to `e'` no version has been added, and of the transaction manager
only the conflict states have changed. -/
structure Fewer (e e' : Engine V E) : Prop where
  manager : ∃ ssi, e'.tm = { e.tm with ssi := ssi }
  stamps : ∀ s, HasStamp e' s → HasStamp e s

variable {e e' : Engine V E} {td : TableData V E} {f : TableData V E → TableData V E}

namespace Fewer

section
variable (hm : ∃ ssi, e'.tm = { e.tm with ssi := ssi })
  (ht : ∀ s, MapHasStamp e'.tables s → HasStamp e s)
include hm ht

lemma of_maps (hd : ∀ db tables, e'.dbTables.lookup db = some tables →
      ∀ s, MapHasStamp tables s → HasStamp e s) : Fewer e e' where
  manager := hm
  stamps s hs := hs.elim (ht s) (fun ⟨db,tables,hdb,hs⟩ => hd db tables hdb s hs)

lemma of_tables (hd : e'.dbTables = e.dbTables) : Fewer e e' :=
  of_maps hm ht (fun db tables hdb _ hs => .inr ⟨db,tables,hd ▸ hdb,hs⟩)

end

lemma refl (e : Engine V E) : Fewer e e := ⟨⟨e.tm.ssi,rfl⟩,fun _ hs => hs⟩

lemma trans {a b c : Engine V E} (h : Fewer a b) (h' : Fewer b c) : Fewer a c where
  manager := by
    obtain ⟨ssi,hm⟩ := h.manager
    obtain ⟨ssi',hm'⟩ := h'.manager
    exact ⟨ssi',by rw [hm', hm]⟩
  stamps s hs := h.stamps s (h'.stamps s hs)

lemma of_same (htm : e'.tm = e.tm) (ht : e'.tables = e.tables)
    (hd : e'.dbTables = e.dbTables) : Fewer e e' :=
  of_tables ⟨e.tm.ssi,htm⟩ (fun _ hs => .inl (ht ▸ hs)) hd

lemma onTable (e : Engine V E) (table : String)
    (hf : ∀ td, (f td).versionStore = td.versionStore) : Fewer e (e.onTable table f) := by
  refine of_tables ⟨e.tm.ssi,rfl⟩ (fun s hs => ?_) rfl
  obtain ⟨t,td,htd,key,v,hv,rfl⟩ := hs
  rcases lookup_adjust_cases htd with ⟨-,td',htd',rfl⟩ | ⟨-,htd⟩
  · exact .inl ⟨t,td',htd',key,v,hf td' ▸ hv,rfl⟩
  · exact .inl ⟨t,td,htd,key,v,hv,rfl⟩

lemma insert_tables (e : Engine V E) (name : String)
    (htd : ∀ s, TableHasStamp td s → HasStamp e s) :
    Fewer e { e with tables := e.tables.insert name td } := by
  refine of_tables ⟨e.tm.ssi,rfl⟩ (fun s hs => ?_) rfl
  obtain ⟨t,td',htd',hs⟩ := hs
  rcases lookup_insert_cases htd' with ⟨-,rfl⟩ | ⟨-,htd'⟩
  · exact htd s hs
  · exact .inl ⟨t,td',htd',hs⟩

end Fewer

lemma not_hasStamp_new (h : td.versionStore = .new) (s : Stamp) : ¬ TableHasStamp td s := by
  rintro ⟨key,v,hv,-⟩
  rw [h, new, chain, AList.lookup_empty] at hv
  cases hv

structure Versioned (b : Engine V E) (txnId : Option TxnId) (e : Engine V E) : Prop where
  manager : ∃ ssi, e.tm = { b.tm with ssi := ssi }
  stamps : ∀ s, HasStamp e s → HasStamp b s ∨ s = (0,0) ∨
    ∃ tid T, txnId = some tid ∧ b.tm.activeTxns.lookup tid = some T ∧ s = (tid,T.startTs)

namespace Versioned
variable {b e : Engine V E}

lemma refl (b : Engine V E) (txnId : Option TxnId) : Versioned b txnId b :=
  ⟨⟨b.tm.ssi,rfl⟩,fun _ hs => .inl hs⟩

lemma fewer (h : Versioned b txnId e) (h' : Fewer e e') : Versioned b txnId e' where
  manager := by
    obtain ⟨ssi,hm⟩ := h.manager
    obtain ⟨ssi',hm'⟩ := h'.manager
    exact ⟨ssi',by rw [hm', hm]⟩
  stamps s hs := h.stamps s (h'.stamps s hs)

lemma steady (hq : Quiet ev (fun _ => True) Fewer) : Steady ev (Versioned b txnId) where
  tri e tid x row schema he := he.fewer (hq.tri e tid x row schema (fun _ _ _ => trivial))
  value e tid x row schema he := he.fewer (hq.value e tid x row schema (fun _ _ _ => trivial))
  insertValue e tid x schema i he :=
    he.fewer (hq.insertValue e tid x schema i (fun _ _ _ => trivial))
  select e tid q he := he.fewer (hq.select e tid q (fun _ _ _ => trivial))
  ssi _ ssi he := he.fewer (.of_tables ⟨ssi,rfl⟩ (fun _ hs => .inl hs) rfl)
  sequences _ table _ he := he.fewer (.onTable _ table (fun _ => rfl))
  rowids _ _ he := he.fewer (.of_same rfl rfl rfl)

end Versioned

section

lemma stays_walAppend_stamps (r : LogRecord) :
    Stays (Versioned b txnId) (walAppend (V := V) (E := E) r) :=
  stays_modify _ (fun _ he => he.fewer (.of_same rfl rfl rfl))

lemma stays_recordUndo_stamps (table : String) (key : Bytes) (prev : Option Bytes) :
    Stays (Versioned b txnId) (recordUndo (V := V) (E := E) txnId table key prev) := by
  cases txnId with
  | none => exact stays_pure ()
  | some tid => exact stays_modify _ (fun _ he => he.fewer (.of_same rfl rfl rfl))

lemma Versioned.index (h : Versioned b txnId e) (d : Delta) (table : String)
    (f : OrderedMap Bytes Bytes → OrderedMap Bytes Bytes) : Versioned b txnId
      ((logDelta d e).onTable table (fun td => { td with index := f td.index })) := by
  have hlog : Versioned b txnId (logDelta d e) := h.fewer (.of_same rfl rfl rfl)
  exact hlog.fewer (Fewer.onTable _ table
    (f := fun td => { td with index := f td.index }) (fun _ => rfl))

lemma stays_putRow_stamps (table : String) (key data : Bytes) :
    Stays (Versioned b txnId) (putRow ev table key data) :=
  stays_modify _ (fun e he => he.index _ table (fun m => m.insert key
    (((e.tables.lookup table).map (fun td => ev.spill e td data)).getD data)))

lemma stays_deleteRow_stamps (table : String) (key : Bytes) :
    Stays (Versioned b txnId) (deleteRow (V := V) (E := E) table key) :=
  stays_modify _ (fun _ he => he.index _ table (fun m => m.erase key))

lemma stays_onSecondaries_stamps (table : String)
    (f : List SecondaryIndex → List SecondaryIndex × Except CoreError Unit) :
    Stays (Versioned b txnId) (onSecondaries (V := V) (E := E) table f) := by
  refine Stays.of_state (fun e he => ?_)
  rw [onSecondaries]
  cases e.tables.lookup table with
  | none => exact he
  | some td =>
    have hkeep := he.fewer (.onTable e table
      (f := fun td' => { td' with secondaryIndexes := (f td.secondaryIndexes).1 }) (fun _ => rfl))
    dsimp only
    cases (f td.secondaryIndexes).2 with
    | ok | error => exact hkeep

def Adds {α : Type} (A : Set Stamp)
    (f : VersionStore (List V) → VersionStore (List V) × Except CoreError α) : Prop :=
  ∀ vs key, ∀ v ∈ VersionStore.chain (f vs).1 key,
    (∃ w ∈ VersionStore.chain vs key, (w.createdBy,w.createdTs) = (v.createdBy,v.createdTs)) ∨
      (v.createdBy,v.createdTs) ∈ A

lemma stays_onVersions_stamps {α : Type} (table : String) {A : Set Stamp}
    {f : VersionStore (List V) → VersionStore (List V) × Except CoreError α} (hf : Adds A f)
    (hA : ∀ s ∈ A, s = (0,0) ∨
      ∃ tid T, txnId = some tid ∧ b.tm.activeTxns.lookup tid = some T ∧ s = (tid,T.startTs)) :
    Stays (Versioned b txnId) (onVersions (V := V) (E := E) table f) := by
  refine Stays.of_state (fun e he => ?_)
  rw [onVersions]
  cases htd : e.tables.lookup table with
  | none => exact he
  | some td =>
    have hkeep : Versioned b txnId
        (e.onTable table (fun td' => { td' with versionStore := (f td.versionStore).1 })) := by
      refine ⟨he.manager,fun s hs => ?_⟩
      rcases hs with ⟨t,td',htd',key,v,hv,rfl⟩ | hs
      · rcases lookup_adjust_cases htd' with ⟨rfl,td0,htd0,rfl⟩ | ⟨-,htd'⟩
        · cases htd.symm.trans htd0
          rcases hf td.versionStore key v hv with ⟨w,hw,hstamp⟩ | hin
          · exact he.stamps _ (.inl ⟨t,td,htd,key,w,hw,hstamp⟩)
          · exact .inr (hA _ hin)
        · exact he.stamps _ (.inl ⟨t,td',htd',key,v,hv,rfl⟩)
      · exact he.stamps s (.inr hs)
    dsimp only
    cases (f td.versionStore).2 with
    | ok | error => exact hkeep

lemma chain_added (vs : VersionStore (List V)) (key l : Bytes) (row : List V) (s : Stamp) :
    ∀ v ∈ chain (VersionStore.insert vs key row s.1 s.2) l,
      (∃ w ∈ chain vs l, (w.createdBy,w.createdTs) = (v.createdBy,v.createdTs)) ∨
        (v.createdBy,v.createdTs) ∈ ({s} : Set Stamp) := by
  intro v hv
  rw [VersionStore.insert, VersionStore.chain_insert] at hv
  split at hv
  · rename_i hl
    subst hl
    rcases mem_append.mp hv with hv | hv
    · exact .inl ⟨v,hv,rfl⟩
    · rw [mem_singleton.mp hv]
      exact .inr rfl
  · exact .inl ⟨v,hv,rfl⟩

lemma adds_insert (key : Bytes) (row : List V) (s : Stamp) : Adds {s} (fun vs =>
      (insert vs key row s.1 s.2,(Except.ok () : Except CoreError Unit))) :=
  fun vs l => chain_added vs key l row s

lemma adds_ensureBase (key : Bytes) (row : List V) : Adds {(0,0)} (fun vs =>
      (ensureBase vs key row,(Except.ok () : Except CoreError Unit))) := by
  intro vs l v hv
  dsimp only at hv
  rw [ensureBase] at hv
  split at hv
  · rw [chain_insert] at hv
    split at hv
    · rw [mem_singleton.mp hv]
      exact .inr rfl
    · exact .inl ⟨v,hv,rfl⟩
  · exact .inl ⟨v,hv,rfl⟩

lemma adds_tryUpdate (key : Bytes) (row : List V) (s : Stamp) (snapshotTs : Timestamp)
    (activeTxns : List TxnId) :
    Adds {s} (fun vs => tryUpdate vs key row s.1 s.2 snapshotTs activeTxns) := by
  intro vs l v hv
  dsimp only at hv
  rw [tryUpdate] at hv
  split at hv
  · exact .inl ⟨v,hv,rfl⟩
  · exact chain_added vs key l row s v hv

lemma adds_tryDelete (key : Bytes) (tid : TxnId) (ts snapshotTs : Timestamp)
    (activeTxns : List TxnId) : Adds ∅ (fun vs : VersionStore (List V) =>
      tryDelete vs key tid ts snapshotTs activeTxns) := by
  intro vs l v hv
  obtain ⟨w,hw,rfl | rfl⟩ := mem_tryDelete hv
  · exact .inl ⟨v,hw,rfl⟩
  · exact .inl ⟨w,hw,rfl⟩

lemma triple_snapshot_stamps (tid : TxnId) :
    Triple (Versioned b txnId) (snapshot (V := V) (E := E) tid) (fun snap e => Versioned b txnId e ∧
        ∃ T, b.tm.activeTxns.lookup tid = some T ∧ snap.startTs = T.startTs)
      (Versioned b txnId) := by
  refine triple_check _ (fun e snap he hsnap => ⟨he,?_⟩) (fun _ he => he)
  obtain ⟨ssi,hm⟩ := he.manager
  rw [TableData.snapshotFor, hm, TransactionManager.getSnapshot] at hsnap
  cases hT : b.tm.activeTxns.lookup tid with
  | none =>
    rw [hT] at hsnap
    cases hsnap
  | some T =>
    rw [hT] at hsnap
    cases hsnap
    exact ⟨T,rfl,rfl⟩

variable {P : Engine V E → Prop}

lemma stays_inTxn {f : TxnId → Exec V E Unit}
    (h : ∀ tid, txnId = some tid → Stays P (f tid)) : Stays P (inTxn txnId f) := by
  cases txnId with
  | none => exact stays_pure ()
  | some tid => exact h tid rfl

lemma stays_rows {α β γ : Type} {check : α → Exec V E (Option β)}
    {write : ℕ → β → Exec V E γ} (hcheck : ∀ a, Stays P (check a))
    (hwrite : ∀ n plan, Stays P (write n plan)) (done : List γ) (as : List α) :
    Stays P (loop (eachRow check write) done as) := by
  refine stays_loop as (fun a _ done => stays_bind (hcheck a) (fun plan => ?_)) done
  cases plan with
  | none => exact stays_pure _
  | some plan => exact stays_bind (hwrite _ plan) (fun _ => stays_pure _)

end

variable {name : String}

section
variable [Codec V]

lemma buildTableData_new {ds : DiskStore V} {tcat : TableCatalog V}
    (h : buildTableData ev crc ds tcat = .ok td) : td.versionStore = .new := by
  rw [buildTableData] at h
  cases hentries : ds.loadTableData crc tcat.name with
  | error err => rw [hentries] at h; cases h
  | ok entries =>
    rw [hentries] at h
    simp only [bind, Except.bind] at h
    split at h
    · cases h
    · cases h
      rfl

lemma reloadTable_new (h : reloadTable ev crc e name = .ok td) : td.versionStore = .new := by
  rw [reloadTable] at h
  split at h
  · cases h
  · split at h
    · cases h
    · cases h
      exact buildTableData_new ‹_›

lemma Versioned.loads {b : Engine V E} {txnId : Option TxnId} (name : String) :
    Loads ev crc name (Versioned b txnId) := by
  intro e td he _ hr
  have hfewer := Fewer.insert_tables e name
    (fun s hs => absurd hs (not_hasStamp_new (reloadTable_new hr) s))
  exact (he.fewer hfewer).fewer (.of_same rfl rfl rfl)

end

variable {tid : TxnId}

section
variable [Codec V]

lemma stays_insertVersion_stamps (htid : txnId = some tid)
    (hs : Steady ev (Versioned b txnId)) (table : String) (slot : ℕ) (td : TableData V E)
    (plan : InsertPlan V) : Stays (Versioned b txnId) (insertVersion tid table slot td plan) := by
  refine stays_bind (stays_walAppend_stamps _) (fun _ => ?_)
  refine triple_fact (triple_snapshot_stamps tid) (fun snap hsnap => ?_)
  obtain ⟨T,hT,hts⟩ := hsnap
  refine stays_bind (stays_onVersions_stamps table
    (adds_insert plan.key plan.row (tid,snap.startTs)) ?_) (fun _ => stays_ssiWrite hs _ _ _)
  rintro s rfl
  exact .inr ⟨tid,T,htid,hT,by rw [hts]⟩

lemma stays_insertWrite_stamps (hs : Steady ev (Versioned b txnId)) (stmt : InsertStmt E Q)
    (td : TableData V E) (slot : ℕ) (plan : InsertPlan V) :
    Stays (Versioned b txnId) (insertWrite ev txnId stmt td slot plan) := by
  rw [insertWrite]
  cases plan.update with
  | some rows =>
    obtain ⟨old,new⟩ := rows
    refine stays_bind (stays_onSecondaries_stamps _ _) (fun _ => ?_)
    refine stays_bind (stays_recordUndo_stamps _ _ _) (fun _ => ?_)
    exact stays_bind (stays_putRow_stamps _ _ _) (fun _ => stays_pure _)
  | none =>
    refine stays_bind (stays_inTxn (fun tid htid =>
      stays_insertVersion_stamps htid hs stmt.table slot td plan)) (fun _ => ?_)
    refine stays_bind (stays_onSecondaries_stamps _ _) (fun _ => ?_)
    refine stays_bind (stays_recordUndo_stamps _ _ _) (fun _ => ?_)
    exact stays_bind (stays_putRow_stamps _ _ _) (fun _ => stays_pure _)

lemma stays_updateVersion_stamps (htid : txnId = some tid)
    (hs : Steady ev (Versioned b txnId)) (table : String) (slot : ℕ) (td : TableData V E)
    (plan : UpdatePlan V) : Stays (Versioned b txnId) (updateVersion tid table slot td plan) := by
  refine triple_fact (triple_snapshot_stamps tid) (fun snap hsnap => ?_)
  obtain ⟨T,hT,hts⟩ := hsnap
  refine stays_bind (stays_onVersions_stamps table (adds_ensureBase plan.key plan.old)
    (fun s hsin => .inl hsin)) (fun _ => ?_)
  refine stays_bind (stays_onVersions_stamps table
    (adds_tryUpdate plan.key plan.new (tid,snap.startTs) _ _) ?_) (fun _ => ?_)
  · rintro s rfl
    exact .inr ⟨tid,T,htid,hT,by rw [hts]⟩
  · exact stays_bind (stays_ssiWrite hs _ _ _) (fun _ => stays_walAppend_stamps _)

lemma stays_updateWrite_stamps (hs : Steady ev (Versioned b txnId)) (stmt : UpdateStmt E)
    (td : TableData V E) (slot : ℕ) (plan : UpdatePlan V) :
    Stays (Versioned b txnId) (updateWrite ev txnId stmt td slot plan) := by
  refine stays_bind (stays_inTxn (fun tid htid =>
    stays_updateVersion_stamps htid hs stmt.table slot td plan)) (fun _ => ?_)
  refine stays_bind (stays_onSecondaries_stamps _ _) (fun _ => ?_)
  exact stays_bind (stays_putRow_stamps _ _ _) (fun _ => stays_pure _)

lemma stays_cascade_stamps (t : Target) : Stays (Versioned b txnId) (cascade ev txnId t) := by
  rw [cascade]
  split
  · refine stays_bind (stays_get _) (fun prev => stays_bind ?_ (fun _ => ?_))
    · rw [unindex]
      split
      · exact stays_pure ()
      · exact stays_onSecondaries_stamps _ _
    · exact stays_bind (stays_recordUndo_stamps _ _ _) (fun _ => stays_deleteRow_stamps _ _)
  · refine stays_bind (stays_get _) (fun prev => ?_)
    cases prev with
    | none => exact stays_pure ()
    | some data =>
      dsimp only
      split
      · exact stays_pure ()
      · refine stays_bind (stays_onSecondaries_stamps _ _) (fun _ => ?_)
        exact stays_bind (stays_recordUndo_stamps _ _ _) (fun _ => stays_putRow_stamps _ _ _)
  · exact stays_pure ()

lemma stays_deleteVersion_stamps (tid : TxnId) (hs : Steady ev (Versioned b txnId))
    (table : String) (slot : ℕ) (td : TableData V E) (plan : DeletePlan V) :
    Stays (Versioned b txnId) (deleteVersion tid table slot td plan) := by
  refine stays_bind (stays_check _) (fun snap => ?_)
  refine stays_bind (stays_onVersions_stamps table (adds_ensureBase plan.key plan.row)
    (fun s hsin => .inl hsin)) (fun _ => ?_)
  refine stays_bind (stays_onVersions_stamps table (adds_tryDelete plan.key tid _ _ _)
    (fun s hsin => hsin.elim)) (fun _ => ?_)
  exact stays_bind (stays_ssiWrite hs _ _ _) (fun _ => stays_walAppend_stamps _)

lemma stays_deleteWrite_stamps (hs : Steady ev (Versioned b txnId)) (stmt : DeleteStmt E)
    (td : TableData V E) (slot : ℕ) (plan : DeletePlan V) :
    Stays (Versioned b txnId) (deleteWrite ev txnId stmt td slot plan) := by
  refine stays_bind (stays_loop _ (fun t _ _ => stays_cascade_stamps t) _) (fun _ => ?_)
  refine stays_bind (stays_inTxn (fun tid _ =>
    stays_deleteVersion_stamps tid hs stmt.table slot td plan)) (fun _ => ?_)
  exact stays_bind (stays_onSecondaries_stamps _ _) (fun _ => stays_pure _)

lemma keepsUndo_stamps (table : String) (schema : Schema V) (filter : Option E)
    (entry : Bytes × Bytes) : KeepsUndo ev txnId table schema filter entry (Versioned b txnId) :=
  fun _ _ _ _ he => he.fewer (.of_same rfl rfl rfl)

lemma stays_execDml_stamps (hq : Quiet ev (fun _ => True) Fewer) (stmt : Dml E Q) :
    Stays (Versioned b txnId) (execDml ev crc txnId stmt) := by
  have hs : Steady ev (Versioned b txnId) := Versioned.steady hq
  cases stmt with
  | insert stmt =>
    refine stays_bind (stays_insertRows hs txnId stmt (Versioned.loads _)) (fun rows => ?_)
    refine stays_bind (stays_getTable (Versioned.loads _)) (fun td => ?_)
    exact stays_bind (stays_rows (stays_insertCheck hs txnId stmt td)
      (stays_insertWrite_stamps hs stmt td) [] rows) (fun done => stays_finish hs _ _ _ _)
  | update stmt =>
    refine stays_bind (stays_getTable (Versioned.loads _)) (fun td => ?_)
    refine stays_bind (stays_candidates hs txnId _ _ _) (fun entries => ?_)
    exact stays_bind (stays_rows
      (fun entry => stays_updateCheck hs txnId stmt td entry (keepsUndo_stamps _ _ _ _))
      (stays_updateWrite_stamps hs stmt td) [] entries) (fun done => stays_finish hs _ _ _ _)
  | delete stmt =>
    refine stays_bind (stays_getTable (Versioned.loads _)) (fun td => ?_)
    refine stays_bind (stays_candidates hs txnId _ _ _) (fun entries => ?_)
    refine stays_bind (stays_get _) (fun refs => ?_)
    refine stays_bind (stays_rows
      (fun entry => stays_deleteCheck hs txnId stmt td refs entry (keepsUndo_stamps _ _ _ _))
      (stays_deleteWrite_stamps hs stmt td) [] entries) (fun done => ?_)
    exact stays_bind (stays_loop _ (fun key _ _ => stays_deleteRow_stamps _ _) _)
      (fun _ => stays_finish hs _ _ _ _)

end

lemma fewer_setTable (e : Engine V E) (htd : e.tables.lookup name = some td) (td' : TableData V E)
    (hv : td'.versionStore = td.versionStore) : Fewer e (setTable name td' e) :=
  Fewer.insert_tables e name (fun _ ⟨key,v,hvc,heq⟩ =>
    .inl ⟨name,td,htd,key,v,hv ▸ hvc,heq⟩)

lemma fewer_setNew (e : Engine V E) (name : String) (td : TableData V E)
    (hv : td.versionStore = .new) : Fewer e (setTable name td e) :=
  Fewer.insert_tables e name (fun s hs => absurd hs (not_hasStamp_new hv s))

lemma Alike.fewer {b e e' : Engine V E} (h : Alike e e') (hb : Fewer b e) : Fewer b e' :=
  hb.trans (.of_same h.tm h.tables h.dbTables)

lemma fewer_erase (e : Engine V E) (name : String) :
    Fewer e { e with tables := e.tables.erase name } := by
  refine .of_tables ⟨e.tm.ssi,rfl⟩ (fun s hs => ?_) rfl
  obtain ⟨t,td,htd,hs⟩ := hs
  obtain ⟨-,htd⟩ := lookup_erase_cases htd
  exact .inl ⟨t,td,htd,hs⟩

section
variable [Codec V]

lemma fewer_getTable (ev : Evaluator V E Q) (crc : Bytes → UInt32) (e : Engine V E)
    (name : String) : Fewer e (getTable ev crc name e).2 := by
  rw [getTable]
  cases e.tables.lookup name with
  | some td => exact .refl e
  | none =>
    cases hr : reloadTable ev crc e name with
    | error err => exact .refl e
    | ok td =>
      exact (Fewer.insert_tables e name
        (fun s hs => absurd hs (not_hasStamp_new (reloadTable_new hr) s))).trans
          (.of_same rfl rfl rfl)

lemma fewer_ddl (e : Engine V E) (stmt : Ddl E) : Fewer e (execDdl ev crc stmt e).2 := by
  cases redefined_ddl ev crc e stmt with
  | same h => exact h.fewer (.refl e)
  | create h => exact h.fewer (fewer_setNew e _ _ rfl)
  | drop h => exact h.fewer (fewer_erase e _)
  | @truncate name td e1 _ hget h =>
    have hloaded := fewer_getTable ev crc e name
    rw [hget] at hloaded
    exact h.fewer (hloaded.trans (fewer_setNew e1 name (truncated td) rfl))
  | alter htd _ h | createIndex htd _ h => exact h.fewer (fewer_setTable e htd _ rfl)
  | dropIndex htd h => exact h.fewer (fewer_setTable e htd _ rfl)
  | dropDatabase h =>
    refine h.fewer (.of_maps ⟨e.tm.ssi,rfl⟩ (fun s hs => .inl hs) ?_)
    intro db tables hdb s hs
    obtain ⟨-,hdb⟩ := lookup_erase_cases hdb
    exact .inr ⟨db,tables,hdb,hs⟩

lemma loadTables_new (ds : DiskStore V) (cats : List (TableCatalog V))
    (tables : Map String (TableData V E)) (s : Stamp)
    (hs : MapHasStamp (loadTables ev crc ds cats tables).1 s) : MapHasStamp tables s := by
  induction cats generalizing tables with
  | nil => exact hs
  | cons t ts ih =>
    rw [loadTables] at hs
    split at hs
    · exact hs
    rename_i td htd
    obtain ⟨t',td',htd',hs'⟩ := ih _ hs
    rcases lookup_insert_cases htd' with ⟨-,rfl⟩ | ⟨-,htd'⟩
    · exact absurd hs' (not_hasStamp_new (buildTableData_new htd) s)
    · exact ⟨t',td',htd',hs'⟩

/-- The tables of the database that is left are kept, and those of the other
are the ones that were kept or come from disk. -/
lemma fewer_use (e : Engine V E) (name : String) : Fewer e (execUse ev crc name e).2 := by
  rcases use_switched ev crc e name with heq | hsw
  · rw [heq]
    exact .refl e
  have hempty : ∀ s, ¬ MapHasStamp (∅ : Map String (TableData V E)) s := by
    rintro s ⟨t,td,htd,-⟩
    cases htd
  have hbrought : ∀ tables, Brought ev crc e name tables →
      ∀ s, MapHasStamp tables s → HasStamp e s := by
    intro tables h s hs
    cases h with
    | kept h => exact .inr ⟨name,tables,h,hs⟩
    | none => exact absurd hs (hempty s)
    | loaded _ _ _ => exact absurd (loadTables_new _ _ ∅ s hs) (hempty s)
  refine .of_maps ⟨e.tm.ssi,hsw.tm⟩ (hbrought _ hsw.brought) (fun db tables hdb s hs => ?_)
  rcases hsw.dbTables db tables hdb with rfl | hdb
  · exact .inl hs
  · exact .inr ⟨db,tables,hdb,hs⟩

end

section

def Inner : Statement E Q → Prop
  | .begin _ | .commit | .rollback => False
  | _ => True

variable {stmt : Statement E Q} [Codec V] (crc : Bytes → UInt32)
  (hq : Quiet ev (fun _ => True) Fewer) (hstmt : Inner stmt) (txnId : Option TxnId) (e : Engine V E)
include hq hstmt

lemma dispatch_stamps : Versioned e txnId (dispatch ev crc stmt txnId e).2 := by
  have hself := Versioned.refl e txnId
  cases stmt with
  | begin | commit | rollback => exact hstmt.elim
  | useDatabase name => exact hself.fewer (fewer_use e name)
  | query q =>
    exact (stays_bind (stays_runSelect (Versioned.steady hq) txnId q)
      (fun rows => stays_bind (stays_get _) (fun columns => stays_pure _))).state hself
  | dml stmt =>
    exact ((stays_execDml_stamps hq stmt).state hself).fewer
      ((alike_settleDeltas txnId _).fewer (.refl _))
  | ddl stmt => exact hself.fewer (fewer_ddl e stmt)

lemma execute_stamps : Versioned e txnId (execute ev crc stmt txnId e).2 := by
  have hcleared : Fewer e { e with pendingSubqueryError := none } := .of_same rfl rfl rfl
  have hrun := dispatch_stamps crc hq hstmt txnId { e with pendingSubqueryError := none }
  have hback : Versioned e txnId
      (dispatch ev crc stmt txnId { e with pendingSubqueryError := none }).2 :=
    ⟨hrun.manager,fun s hs => (hrun.stamps s hs).imp_left (hcleared.stamps s)⟩
  exact hback.fewer ((alike_raisePending _).fewer (.refl _))

end

def MapFewer (m m' : Map String (TableData V E)) : Prop := ∀ t td', m'.lookup t = some td' →
    ∃ td, m.lookup t = some td ∧ ∀ s, TableHasStamp td' s → TableHasStamp td s

lemma MapFewer.refl (m : Map String (TableData V E)) : MapFewer m m :=
  fun _ td htd => ⟨td,htd,fun _ hs => hs⟩

lemma MapFewer.trans {a b c : Map String (TableData V E)} (h : MapFewer a b)
    (h' : MapFewer b c) : MapFewer a c := by
  intro t td'' htd''
  obtain ⟨td',htd',hs'⟩ := h' t td'' htd''
  obtain ⟨td,htd,hs⟩ := h t td' htd'
  exact ⟨td,htd,fun s h => hs s (hs' s h)⟩

lemma mapFewer_adjust (m : Map String (TableData V E)) (t : String) (hf : ∀ td s, TableHasStamp (f td) s → TableHasStamp td s) :
    MapFewer m (adjust m t f) := by
  intro t' td' htd'
  rcases lookup_adjust_cases htd' with ⟨-,td,htd,rfl⟩ | ⟨-,htd'⟩
  · exact ⟨td,htd,hf td⟩
  · exact ⟨td',htd',fun _ hs => hs⟩

lemma restoreRow_versions [Codec V] (key : Bytes) (prev : Option Bytes) (td : TableData V E) :
    (restoreRow key prev td).versionStore = td.versionStore := by
  rw [restoreRow.eq_def]
  split <;> rfl

lemma mapFewer_restore [Codec V] (us : List ((_ : String × Bytes) × Option Bytes))
    (m : Map String (TableData V E)) : MapFewer m (us.foldl restoreEntry m) := by
  induction us generalizing m with
  | nil => exact .refl m
  | cons u us ih =>
    refine MapFewer.trans (mapFewer_adjust m u.1.1 ?_) (ih _)
    rintro td s ⟨key,v,hv,heq⟩
    exact ⟨key,v,restoreRow_versions u.1.2 u.2 td ▸ hv,heq⟩

lemma hasStamp_rollback {s : Stamp}
    (h : TableHasStamp { td with versionStore := rollbackTxn td.versionStore tid } s) :
    TableHasStamp td s ∧ s.1 ≠ tid := by
  obtain ⟨key,v,hv,rfl⟩ := h
  rw [chain_rollback, rollbackChain, mem_filter, mem_map] at hv
  obtain ⟨⟨w,hw,rfl⟩,hne⟩ := hv
  have hstamp : ((restore tid w).createdBy,(restore tid w).createdTs) =
      (w.createdBy,w.createdTs) := by
    rw [restore]
    split <;> rfl
  exact ⟨⟨key,w,hw,hstamp.symm⟩,of_decide_eq_true hne⟩

lemma mapFewer_drop (tid : TxnId) (ts : List String) (m : Map String (TableData V E)) :
    MapFewer m (ts.foldl (dropVersions tid) m) := by
  induction ts generalizing m with
  | nil => exact .refl m
  | cons t ts ih =>
    exact MapFewer.trans (mapFewer_adjust m t (fun _ _ hs => (hasStamp_rollback hs).1)) (ih _)

lemma drop_clean (tid : TxnId) {t : String} {ts : List String} (ht : t ∈ ts)
    (m : Map String (TableData V E))
    (htd : (ts.foldl (dropVersions tid) m).lookup t = some td) (time : Timestamp) :
    ¬ TableHasStamp td (tid,time) := by
  induction ts generalizing m with
  | nil => cases ht
  | cons t' ts ih =>
    rw [foldl_cons] at htd
    rcases mem_cons.mp ht with rfl | ht
    · intro hs
      obtain ⟨td',htd',hs'⟩ := mapFewer_drop tid ts _ t td htd
      rw [dropVersions, lookup_adjust, if_pos rfl] at htd'
      obtain ⟨td0,-,rfl⟩ := Option.map_eq_some_iff.mp htd'
      exact (hasStamp_rollback (hs' _ hs)).2 rfl
    · exact ih ht _ htd

/-- Every table that has versions of the transaction is one of the current
database that its undo log names. -/
def Covered (e : Engine V E) (tid : TxnId) : Prop :=
  ∀ time, (∀ t td, e.tables.lookup t = some td → TableHasStamp td (tid,time) →
      ∃ key img, (e.undoOf tid).lookup (t,key) = some img) ∧
    ∀ db tables, e.dbTables.lookup db = some tables → ¬ MapHasStamp tables (tid,time)

lemma fewer_rollback [Codec V] (tid : TxnId) (e : Engine V E) :
    Fewer e (rollbackTxnEffects tid e) := by
  rw [rollbackTxnEffects]
  split
  · exact .of_same rfl rfl rfl
  rename_i undo hundo
  refine .of_tables ⟨e.tm.ssi,rfl⟩ (fun s hs => ?_) rfl
  obtain ⟨t,td',htd',hs⟩ := hs
  obtain ⟨td,htd,hback⟩ := (mapFewer_restore undo.entries e.tables).trans
    (mapFewer_drop tid _ _) t td' htd'
  exact .inl ⟨t,td,htd,hback s hs⟩

lemma rollback_clean [Codec V] (h : Covered e tid)
    (time : Timestamp) : ¬ HasStamp (rollbackTxnEffects tid e) (tid,time) := by
  have hdb : (rollbackTxnEffects tid e).dbTables = e.dbTables := by
    rw [rollbackTxnEffects]
    split <;> rfl
  rintro (⟨t,td',htd',hs⟩ | ⟨db,tables,hlook,hs⟩)
  · rw [rollbackTxnEffects] at htd'
    split at htd'
    · rename_i hnone
      obtain ⟨key,img,hundo⟩ := (h time).1 t td' htd' hs
      have hempty : e.undoOf tid = ∅ := congrArg (fun o => o.getD ∅) hnone
      rw [hempty] at hundo
      cases hundo
    · rename_i undo hsome
      have hof : e.undoOf tid = undo := congrArg (fun o => o.getD ∅) hsome
      obtain ⟨td,htd,hback⟩ := (mapFewer_restore undo.entries e.tables).trans
        (mapFewer_drop tid _ _) t td' htd'
      obtain ⟨key,img,hundo⟩ := (h time).1 t td htd (hback _ hs)
      rw [hof] at hundo
      refine drop_clean tid ?_ _ htd' time hs
      rw [mem_dedup, mem_map]
      exact ⟨⟨(t,key),img⟩,of_mem_dlookup hundo,rfl⟩
  · rw [hdb] at hlook
    exact (h time).2 db tables hlook hs

end ByteDB.Engine
