import ByteDB.Execute

/-!
# What reading and checking leave alone

Before a statement writes a row it reads, evaluates and takes numbers. A
property of the engine that does not speak of what these steps change is kept
by all of it.
-/

set_option autoImplicit false

namespace ByteDB.Engine
open ByteDB.Assoc Command Codec

variable {V E Q : Type}

abbrev RowId := String × Bytes

def row (e : Engine V E) (r : RowId) : Option Bytes := e.content r.1 r.2

/-- What statements never change of the engine before they end. -/
def Fixed (e e' : Engine V E) : Prop :=
  e'.disk = e.disk ∧ e'.txnDeltas = e.txnDeltas ∧ e'.dbTables = e.dbTables ∧
    e'.databases = e.databases ∧ e'.currentDb = e.currentDb

lemma Fixed.refl (e : Engine V E) : Fixed e e := ⟨rfl,rfl,rfl,rfl,rfl⟩

lemma Fixed.trans {a b c : Engine V E} (h : Fixed a b) (h' : Fixed b c) : Fixed a c :=
  ⟨h'.1.trans h.1,h'.2.1.trans h.2.1,h'.2.2.1.trans h.2.2.1,h'.2.2.2.1.trans h.2.2.2.1,
    h'.2.2.2.2.trans h.2.2.2.2⟩

lemma row_onTable (e : Engine V E) (table : String) (f : TableData V E → TableData V E)
    (r : RowId) : (e.onTable table f).row r =
      if r.1 = table then (e.tables.lookup table).bind (fun td => (f td).index.lookup r.2)
      else e.row r := by
  rw [row, content, onTable, lookup_adjust]
  by_cases h : r.1 = table
  · rw [if_pos h, if_pos h, h, Option.bind_map]
    rfl
  · rw [if_neg h, if_neg h]
    rfl

variable [Codec V] {ev : Evaluator V E Q} {crc : Bytes → UInt32}
  {P : Engine V E → Prop}

/-- `P` does not depend on the conflict flags, the sequences and the row ids,
and evaluation keeps it. -/
structure Steady (ev : Evaluator V E Q) (P : Engine V E → Prop) : Prop where
  tri : ∀ e txnId x row schema, P e → P (ev.tri e txnId x row schema).2
  value : ∀ e txnId x row schema, P e → P (ev.value e txnId x row schema).2
  insertValue : ∀ e txnId x schema i, P e → P (ev.insertValue e txnId x schema i).2
  select : ∀ e txnId q, P e → P (ev.select e txnId q).2
  ssi : ∀ e ssi, P e → P { e with tm := { e.tm with ssi := ssi } }
  sequences : ∀ e table (f : Map String Int → Map String Int), P e →
    P (e.onTable table (fun td => { td with sequences := f td.sequences }))
  rowids : ∀ e rowids, P e → P { e with rowids := rowids }

def Within (names : String → Prop) (e : Engine V E) : Prop :=
  ∀ t td, e.tables.lookup t = some td → names t

lemma Within.onTable {names : String → Prop} {e : Engine V E} (h : Within names e)
    (table : String) (f : TableData V E → TableData V E) : Within names (e.onTable table f) := by
  intro t td htd
  rcases lookup_adjust_cases htd with ⟨-,td',htd',-⟩ | ⟨-,htd⟩
  · exact h t td' htd'
  · exact h t td htd

/-- Evaluation leads from a state to one that is `R`-related to it, as long as
the tables have these names. Common table expressions and derived tables are
kept as tables while a query runs, so none of them may have one of the names. -/
structure Quiet (ev : Evaluator V E Q) (names : String → Prop)
    (R : Engine V E → Engine V E → Prop) : Prop where
  tri : ∀ e txnId x row schema, Within names e → R e (ev.tri e txnId x row schema).2
  value : ∀ e txnId x row schema, Within names e → R e (ev.value e txnId x row schema).2
  insertValue : ∀ e txnId x schema i, Within names e → R e (ev.insertValue e txnId x schema i).2
  select : ∀ e txnId q, Within names e → R e (ev.select e txnId q).2

def Loads (ev : Evaluator V E Q) (crc : Bytes → UInt32) (name : String)
    (P : Engine V E → Prop) : Prop :=
  ∀ e td, P e → e.tables.lookup name = none → reloadTable ev crc e name = .ok td →
    P (noteTables [name] { e with tables := e.tables.insert name td })

lemma stays_getTable {name : String} (h : Loads ev crc name P) :
    Stays P (getTable ev crc name) := by
  intro e he
  rw [getTable]
  cases htd : e.tables.lookup name with
  | some td => exact he
  | none =>
    cases hr : reloadTable ev crc e name with
    | error err => simpa only [hr] using he
    | ok td => simpa only [hr] using h e td he htd hr

lemma ssiRecord_ssi (tm : TransactionManager) (txnId : TxnId) (side : Side)
    (note : SsiState → SsiState) (hit : SsiState → Bool) (hitRecent : CommittedSsi → Bool) :
    tm.ssiRecord txnId side note hit hitRecent =
      { tm with ssi := (tm.ssiRecord txnId side note hit hitRecent).ssi } := by
  rw [TransactionManager.ssiRecord]
  cases tm.ssi.lookup txnId with
  | none | some => rfl

lemma ssiRecordPredicate_ssi (tm : TransactionManager) (txnId : TxnId) (table : String) :
    tm.ssiRecordPredicate txnId table =
      { tm with ssi := (tm.ssiRecordPredicate txnId table).ssi } := by
  rw [TransactionManager.ssiRecordPredicate]
  cases tm.ssi.lookup txnId with
  | none | some => rfl

section
variable (h : Steady ev P) (txnId : Option TxnId)
include h

variable (table : String)

lemma stays_ssiRead (key : Bytes) : Stays P (ssiRead (V := V) (E := E) txnId table key) := by
  cases txnId with
  | none => exact stays_pure ()
  | some tid =>
    refine stays_modify _ (fun e he => ?_)
    rw [TransactionManager.ssiRecordRead, ssiRecord_ssi]
    exact h.ssi e _ he

lemma stays_ssiWrite (key : Bytes) : Stays P (ssiWrite (V := V) (E := E) txnId table key) := by
  cases txnId with
  | none => exact stays_pure ()
  | some tid =>
    refine stays_modify _ (fun e he => ?_)
    rw [TransactionManager.ssiRecordWrite, ssiRecord_ssi]
    exact h.ssi e _ he

lemma stays_ssiPredicate : Stays P (ssiPredicate (V := V) (E := E) txnId table) := by
  cases txnId with
  | none => exact stays_pure ()
  | some tid =>
    refine stays_modify _ (fun e he => ?_)
    rw [ssiRecordPredicate_ssi]
    exact h.ssi e _ he

section
variable (x : E) (row : List V) (schema : Schema V)

lemma stays_evalPredicate : Stays P (evalPredicate ev txnId x row schema) :=
  fun e he => h.tri e txnId x row schema he

lemma stays_evalCheck : Stays P (evalCheck ev txnId x row schema) :=
  fun e he => h.tri e txnId x row schema he

lemma stays_evalValue : Stays P (evalValue ev txnId x row schema) :=
  fun e he => h.value e txnId x row schema he

end

lemma stays_evalInsertValue (x : E) (schema : Schema V) (i : ℕ) :
    Stays P (evalInsertValue ev txnId x schema i) :=
  fun e he => h.insertValue e txnId x schema i he

lemma stays_runSelect (q : Q) : Stays P (runSelect ev txnId q) := by
  intro e he
  have hq := h.select e txnId q he
  rw [runSelect]
  cases hr : ev.select e txnId q with
  | mk r e' =>
    rw [hr] at hq
    cases r with
    | ok | error => exact hq

variable (schema : Schema V)

lemma stays_assign (assignments : List (String × E)) (row : List V) :
    Stays P (assign ev txnId schema assignments row) := by
  refine stays_loop _ (fun a _ row => ?_) _
  cases schema.columnIndex a.1 with
  | none => exact stays_pure row
  | some i => exact stays_bind (stays_evalValue h txnId _ _ _) (fun v => stays_pure _)

lemma stays_finish (rows : List (List V))
    (returning : Option (Returning E)) : Stays P (finish ev txnId schema rows returning) := by
  cases returning with
  | none => exact stays_pure _
  | some r =>
    cases r with
    | star => exact stays_pure _
    | columns cols =>
      refine stays_bind (stays_loop _ (fun row _ out => ?_) _) (fun out => stays_pure _)
      refine stays_bind (stays_loop _ (fun c _ values => ?_) _) (fun values => stays_pure _)
      exact stays_bind (stays_evalValue h txnId _ _ _) (fun v => stays_pure _)

lemma stays_checkUnique (refuse : Refusals) (table : String) (row : List V)
    (own : Option Bytes) : Stays P (checkUnique (E := E) refuse table row own) :=
  stays_check _

lemma stays_checkExpressions (refuse : Refusals) (table : String) (td : TableData V E)
    (row : List V) : Stays P (checkExpressions ev refuse txnId table td row) := by
  refine stays_loop _ (fun x _ _ => ?_) _
  refine stays_bind (stays_evalCheck h txnId _ _ _) (fun holds => ?_)
  cases holds with
  | true => exact stays_pure ()
  | false => exact stays_fail _

lemma stays_candidates (td : TableData V E) (filter : Option E) :
    Stays P (candidates ev txnId table td filter) := by
  rw [candidates]
  cases tryPkLookup ev filter td.schema with
  | some key =>
    exact stays_bind (stays_ssiRead h txnId table key)
      (fun _ => stays_bind (stays_check _) (fun found => stays_pure _))
  | none => exact stays_bind (stays_ssiPredicate h txnId table) (fun _ => stays_check _)

lemma stays_selectRow (filter : Option E) (data : Bytes) :
    Stays P (selectRow ev txnId schema filter data) := by
  rw [selectRow]
  cases (decodeRow data : Option (List V)) with
  | none => exact stays_pure none
  | some row =>
    cases filter with
    | none => exact stays_pure _
    | some x => exact stays_bind (stays_evalPredicate h txnId _ _ _) (fun chosen => stays_pure _)

end

section
variable (h : Steady ev P) (txnId : Option TxnId)

include h

lemma stays_sequenceObserve (table col : String) (n : Int) :
    Stays P (sequenceObserve (V := V) (E := E) table col n) :=
  stays_modify _ (fun e he => h.sequences e table
    (fun m => adjust m col (fun next => if next ≤ n then n+1 else next)) he)

lemma stays_sequenceNext (table col : String) :
    Stays P (sequenceNext (V := V) (E := E) table col) := by
  intro e he
  rw [sequenceNext]
  cases (e.tables.lookup table).bind (fun td => td.sequences.lookup col) with
  | none => exact he
  | some n => exact h.sequences e table (fun m => m.insert col (n+1)) he

variable (table : String)

lemma stays_supply (col : Column V) (v : V) : Stays P (supply (E := E) table col v) := by
  rw [supply]
  split
  · split
    · exact stays_bind (stays_sequenceNext h table col.name) (fun n => stays_pure _)
    · exact stays_pure _
  · split
    · split
      · exact stays_bind (stays_sequenceObserve h table col.name _) (fun _ => stays_pure _)
      · exact stays_pure _
    · exact stays_pure _

lemma stays_prepareColumn (row : List V) (c : Column V × ℕ) :
    Stays P (prepareColumn (E := E) table row c) := by
  refine stays_bind (stays_supply h table c.1 _) (fun v => ?_)
  generalize (if isNull v then v else convert c.1.dataType c.1.maxLength v) = v
  show Stays P (if isNull v && !c.1.nullable then fail _ else pure _)
  split
  · exact stays_fail _
  · exact stays_pure _

lemma stays_keyFor (schema : Schema V) (row : List V) :
    Stays P (keyFor (E := E) table schema row) := by
  rw [keyFor]
  split
  · exact fun e he => h.rowids e _ he
  · exact stays_pure _

variable (stmt : InsertStmt E Q)

lemma stays_insertRows (hload : Loads ev crc stmt.table P) :
    Stays P (insertRows ev crc txnId stmt) := by
  rw [insertRows]
  cases stmt.source with
  | select q => exact stays_runSelect h txnId q
  | values rows =>
    refine stays_bind (stays_getTable hload) (fun td => stays_bind (stays_check _) ?_)
    intro indices
    refine stays_loop _ (fun exprs _ out => stays_bind ?_ (fun row => stays_pure _)) _
    refine stays_loop _ (fun x _ row => ?_) _
    cases targetColumn td.schema indices x.2 with
    | none => exact stays_pure row
    | some j => exact stays_bind (stays_evalInsertValue h txnId _ _ _) (fun v => stays_pure _)

lemma stays_resolveConflict (schema : Schema V) (row : List V)
    (key old : Bytes) : Stays P (resolveConflict ev txnId stmt schema row key old) := by
  rw [resolveConflict]
  split
  · exact stays_pure none
  · split
    · exact stays_fail _
    · exact stays_bind (stays_assign h txnId _ _ _) (fun new => stays_pure _)
  · split
    · exact stays_fail _
    · exact stays_pure _

lemma stays_insertCheck (td : TableData V E) (values : List V) :
    Stays P (insertCheck ev txnId stmt td values) := by
  refine stays_bind (stays_loop _ (fun c _ row => stays_prepareColumn h _ row c) _) (fun row => ?_)
  refine stays_bind (stays_checkUnique h _ _ _ _) (fun _ => ?_)
  refine stays_bind (stays_checkExpressions h txnId _ _ _ _) (fun _ => ?_)
  refine stays_bind (stays_check _) (fun _ => ?_)
  refine stays_bind (stays_keyFor h _ _ _) (fun key => stays_bind (stays_get _) (fun existing => ?_))
  cases existing with
  | none => exact stays_pure _
  | some old => exact stays_resolveConflict h txnId stmt td.schema row key old

def Chosen (ev : Evaluator V E Q) (txnId : Option TxnId) (schema : Schema V) (filter : Option E)
    (data : Bytes) (P : Engine V E → Prop) : Prop :=
  ∃ e row, P e ∧ (selectRow ev txnId schema filter data e).1 = .ok (some row)

def KeepsUndo (ev : Evaluator V E Q) (txnId : Option TxnId) (table : String) (schema : Schema V)
    (filter : Option E) (entry : Bytes × Bytes) (P : Engine V E → Prop) : Prop :=
  Chosen ev txnId schema filter entry.2 P → ∀ tid, txnId = some tid → ∀ e, P e →
    P (withUndo tid table entry.1 (some entry.2) e)

lemma triple_selectRow (schema : Schema V) (filter : Option E) (data : Bytes) :
    Triple P (selectRow ev txnId schema filter data)
      (fun row e => P e ∧ (row.isSome → Chosen ev txnId schema filter data P)) P := by
  intro e he
  have hP := stays_selectRow h txnId schema filter data e he
  cases hr : selectRow ev txnId schema filter data e with
  | mk r e' =>
    rw [hr] at hP
    cases r with
    | error err => exact hP
    | ok row =>
      refine ⟨hP,fun hrow => ?_⟩
      obtain ⟨values,rfl⟩ := Option.isSome_iff_exists.mp hrow
      exact ⟨e,values,he,by rw [hr]⟩

lemma stays_chosen {β : Type} (table : String) (schema : Schema V) (filter : Option E)
    (entry : Bytes × Bytes) (hundo : KeepsUndo ev txnId table schema filter entry P)
    (next : List V → Exec V E (Option β)) (hnext : ∀ row, Stays P (next row)) : Stays P (do
      let row ← selectRow ev txnId schema filter entry.2
      match row with
      | none => pure none
      | some row => do
        ssiRead txnId table entry.1
        recordUndo txnId table entry.1 (some entry.2)
        next row) := by
  refine triple_bind (triple_selectRow h txnId schema filter entry.2) (fun row => ?_)
  cases row with
  | none => exact triple_pure _ (fun e he => he.1)
  | some row =>
    intro e he
    have hchosen := he.2 rfl
    refine stays_bind (stays_ssiRead h txnId _ _) (fun _ => stays_bind ?_ (fun _ => hnext row)) e he.1
    cases txnId with
    | none => exact stays_pure ()
    | some tid => exact stays_modify _ (fun e he => hundo hchosen tid rfl e he)

lemma stays_updateCheck (stmt : UpdateStmt E) (td : TableData V E) (entry : Bytes × Bytes)
    (hundo : KeepsUndo ev txnId stmt.table td.schema stmt.whereClause entry P) :
    Stays P (updateCheck ev txnId stmt td entry) := by
  refine stays_chosen h txnId stmt.table td.schema stmt.whereClause entry hundo _ (fun old => ?_)
  refine stays_bind (stays_assign h txnId _ _ _) (fun new => stays_bind ?_ (fun _ => ?_))
  · rw [checkNotNull]
    split
    · exact stays_fail _
    · exact stays_pure ()
  · refine stays_bind (stays_checkUnique h _ _ _ _) (fun _ => ?_)
    refine stays_bind (stays_checkExpressions h txnId _ _ _ _) (fun _ => ?_)
    exact stays_bind (stays_check _) (fun _ => stays_pure _)

lemma stays_deleteCheck (stmt : DeleteStmt E) (td : TableData V E) (refs : List FkRef)
    (entry : Bytes × Bytes)
    (hundo : KeepsUndo ev txnId stmt.table td.schema stmt.whereClause entry P) :
    Stays P (deleteCheck ev txnId stmt td refs entry) := by
  refine stays_chosen h txnId stmt.table td.schema stmt.whereClause entry hundo _ (fun row => ?_)
  exact stays_bind (stays_check _) (fun _ => stays_pure _)

end

end ByteDB.Engine
