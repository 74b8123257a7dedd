import ByteDB.Command
import ByteDB.DiskStore

/-!
# The query engine and its primitives

The state of the engine and the small operations that the statements are made
of. How expressions are evaluated and how a SELECT is run is a parameter; both
may read everything and may leave traces in the state.
-/

set_option autoImplicit false

namespace ByteDB
open ByteDB.Assoc

inductive LogRecord where
  | begin (txnId : TxnId)
  | insert (txnId : TxnId) (tableId slot : ℕ) (data : Bytes)
  | update (txnId : TxnId) (tableId slot : ℕ) (oldData newData : Bytes)
  | delete (txnId : TxnId) (tableId slot : ℕ) (oldData : Bytes)
  | commit (txnId : TxnId)
  | abort (txnId : TxnId)
  | checkpoint (activeTxns : List TxnId)
  deriving DecidableEq, Repr

structure Delta where
  table : String
  op : UInt8
  key : Bytes
  value : Bytes
  deriving DecidableEq, Repr

abbrev UndoMap := Map (String × Bytes) (Option Bytes)

structure Engine (V E : Type) where
  tm : TransactionManager
  tables : Map String (TableData V E)
  dbTables : Map String (Map String (TableData V E))
  databases : List String
  currentDb : String
  /-- The names of the tables that have been created, of all databases. -/
  database : List String
  wal : Option (List LogRecord)
  disk : Option (DiskStore V)
  undo : Map TxnId UndoMap
  rowids : Map String ℕ
  pending : List Delta
  txnDeltas : Map TxnId (List Delta)
  pendingSubqueryError : Option String

structure Evaluator (V E Q : Type) where
  tri : Engine V E → Option TxnId → E → List V → Schema V → Option Bool × Engine V E
  value : Engine V E → Option TxnId → E → List V → Schema V → V × Engine V E
  insertValue : Engine V E → Option TxnId → E → Schema V → ℕ → V × Engine V E
  select : Engine V E → Option TxnId → Q → Except QueryError (List (List V)) × Engine V E
  columns : Engine V E → Q → List String
  /-- The column and the literal of a condition `column = literal`. -/
  columnEq : E → Option (String × V)
  /-- `eval_expr_simple`: the value of a literal. -/
  simple : E → V
  toSql : E → String
  parse : String → Option E
  /-- `spill_serialized`: large values are moved out of the row. -/
  spill : Engine V E → TableData V E → Bytes → Bytes

abbrev Exec (V E α : Type) := Command (Engine V E) QueryError α

namespace Engine
open Command
variable {V E Q : Type} [Codec V] (ev : Evaluator V E Q) (e : Engine V E)

def content (table : String) (key : Bytes) : Option Bytes :=
  (e.tables.lookup table).bind (fun td => td.index.lookup key)

/-- `Database::create_table` for names that may be there already. -/
def noteTables (names : List String) (e : Engine V E) : Engine V E :=
  { e with database := e.database++names.filter (· ∉ e.database) }

def onTable (table : String) (f : TableData V E → TableData V E) :
    Engine V E :=
  { e with tables := adjust e.tables table f }

section
variable (txnId : Option TxnId) (x : E) (row : List V) (schema : Schema V)

def evalPredicate :
    Exec V E Bool := fun e =>
  let r := ev.tri e txnId x row schema
  (.ok (r.1.getD false),r.2)

def evalCheck :
    Exec V E Bool := fun e =>
  let r := ev.tri e txnId x row schema
  (.ok (r.1.getD true),r.2)

def evalValue :
    Exec V E V := fun e =>
  let r := ev.value e txnId x row schema
  (.ok r.1,r.2)

end

def evalInsertValue (txnId : Option TxnId) (x : E) (schema : Schema V) (colIdx : ℕ) :
    Exec V E V := fun e =>
  let r := ev.insertValue e txnId x schema colIdx
  (.ok r.1,r.2)

def runSelect (txnId : Option TxnId) (q : Q) : Exec V E (List (List V)) := fun e =>
  ev.select e txnId q

section

/-- The columns as `deserialize_columns` wants them. -/
def needed (columns : List ℕ) : List ℕ := (columns.mergeSort (· ≤ ·)).dedup

def buildStep (decode : Bytes → Option (List V)) (sec : SecondaryIndex) (row : Bytes × Bytes) :
    Except CoreError SecondaryIndex :=
  match (decode row.2).bind sec.keyValues with
  | none => .ok sec
  | some kv => if sec.refuses kv row.1 then .error sec.violated else .ok (sec.put kv row.1)

def buildSecondaryIndexes (schema : Schema V) (rows : List (Bytes × Bytes)) :
    List IndexDef → Except CoreError (List SecondaryIndex)
  | [] => .ok []
  | d::defs => do
    let columns := d.columns.filterMap schema.columnIndex
    if columns.length ≠ d.columns.length then buildSecondaryIndexes schema rows defs
    else
      let sec ← rows.foldlM
        (buildStep (fun data => (Codec.decodeColumns data (needed columns) : Option (List V))))
        { name := d.name, columns := columns, unique := d.unique, tree := .empty }
      let secs ← buildSecondaryIndexes schema rows defs
      .ok (sec::secs)

variable (crc : Bytes → UInt32)

def buildTableData (ds : DiskStore V) (tcat : TableCatalog V) :
    Except CoreError (TableData V E) := do
  let entries ← ds.loadTableData crc tcat.name
  let index := entries.foldl (fun (m : OrderedMap Bytes Bytes) e => m.insert e.1 e.2) .empty
  let secs ← buildSecondaryIndexes tcat.schema index.entries tcat.indexes
  .ok
    { schema := tcat.schema
      index := index
      versionStore := .new
      checkExprs := tcat.schema.checkConstraints.filterMap ev.parse
      sequences := (tcat.schema.columns.filter (·.autoIncrement)).foldl (fun m c =>
        m.insert c.name (((tcat.sequences.find? (·.1 = c.name)).map Prod.snd).getD 1)) ∅
      secondaryIndexes := secs }

def reloadTable (e : Engine V E) (name : String) :
    Except QueryError (TableData V E) :=
  match e.disk.bind (fun ds => (ds.listTables.find? (·.name = name)).map (fun t => (ds,t))) with
  | none => .error (.execution ("Table '" ++ name ++ "' not found"))
  | some (ds,tcat) =>
    match buildTableData ev crc ds tcat with
    | .error err => .error (.execution err.message)
    | .ok td => .ok td

def getTable (name : String) : Exec V E (TableData V E) := fun e =>
  match e.tables.lookup name with
  | some td => (.ok td,e)
  | none =>
    match reloadTable ev crc e name with
    | .error err => (.error err,e)
    | .ok td => (.ok td,noteTables [name] { e with tables := e.tables.insert name td })

end

section

section
variable (txnId : Option TxnId) (table : String)

def ssiRead (key : Bytes) : Exec V E Unit :=
  match txnId with
  | none => pure ()
  | some tid => modify (fun e => { e with tm := e.tm.ssiRecordRead tid table key })

def ssiPredicate : Exec V E Unit :=
  match txnId with
  | none => pure ()
  | some tid => modify (fun e => { e with tm := e.tm.ssiRecordPredicate tid table })

def ssiWrite (key : Bytes) : Exec V E Unit :=
  match txnId with
  | none => pure ()
  | some tid => modify (fun e => { e with tm := e.tm.ssiRecordWrite tid table key })

end

def undoOf (tid : TxnId) : UndoMap := (e.undo.lookup tid).getD ∅

def UndoMap.record (m : UndoMap) (table : String) (key : Bytes) (prev : Option Bytes) : UndoMap :=
  if (m.lookup (table,key)).isSome then m else m.insert (table,key) prev

def withUndo (tid : TxnId) (table : String) (key : Bytes) (prev : Option Bytes)
    (e : Engine V E) : Engine V E :=
  { e with undo := e.undo.insert tid (UndoMap.record (e.undoOf tid) table key prev) }

def recordUndo (txnId : Option TxnId) (table : String) (key : Bytes) (prev : Option Bytes) :
    Exec V E Unit :=
  match txnId with
  | none => pure ()
  | some tid => modify (withUndo tid table key prev)

def appendWal (r : LogRecord) (e : Engine V E) : Engine V E :=
  { e with wal := e.wal.map (fun records => records++[r]) }

def walAppend (r : LogRecord) : Exec V E Unit := modify (appendWal r)

def logDelta (d : Delta) (e : Engine V E) : Engine V E :=
  { e with pending := if e.disk.isSome then e.pending++[d] else e.pending }

variable (table : String)

def putRow (key data : Bytes) : Exec V E Unit := modify (fun e =>
  let stored := ((e.tables.lookup table).map (fun td => ev.spill e td data)).getD data
  (logDelta ⟨table,TableLog.opPut,key,stored⟩ e).onTable table
    (fun td => { td with index := td.index.insert key stored }))

def deleteRow (key : Bytes) : Exec V E Unit := modify (fun e =>
  (logDelta ⟨table,TableLog.opDel,key,[]⟩ e).onTable table
    (fun td => { td with index := td.index.erase key }))

def insertSecondaries (values : List V) (pk : Bytes) :
    List SecondaryIndex → List SecondaryIndex × Except CoreError Unit
  | [] => ([],.ok ())
  | sec::secs =>
    match sec.keyValues values with
    | none => let r := insertSecondaries values pk secs; (sec::r.1,r.2)
    | some kv =>
      if sec.refuses kv pk then (sec::secs,.error sec.violated)
      else let r := insertSecondaries values pk secs; (sec.put kv pk::r.1,r.2)

def deleteSecondaries (values : List V) (pk : Bytes) (secs : List SecondaryIndex) :
    List SecondaryIndex :=
  secs.map (fun sec =>
    match sec.keyValues values with
    | none => sec
    | some kv => sec.remove kv pk)

def updateSecondaries (oldValues newValues : List V) (pk : Bytes) :
    List SecondaryIndex → List SecondaryIndex × Except CoreError Unit
  | [] => ([],.ok ())
  | sec::secs =>
    match sec.keyValues oldValues, sec.keyValues newValues with
    | some old, some new =>
      if sameValues old new then
        let r := updateSecondaries oldValues newValues pk secs; (sec::r.1,r.2)
      else
        let sec' := sec.remove old pk
        if sec'.refuses new pk then (sec'::secs,.error sec.violated)
        else let r := updateSecondaries oldValues newValues pk secs; (sec'.put new pk::r.1,r.2)
    | _, _ => let r := updateSecondaries oldValues newValues pk secs; (sec::r.1,r.2)

def onSecondaries (f : List SecondaryIndex → List SecondaryIndex × Except CoreError Unit) : Exec V E Unit :=
  fun e =>
    match e.tables.lookup table with
    | none => (.ok (),e)
    | some td =>
      let r := f td.secondaryIndexes
      let e' := e.onTable table (fun td => { td with secondaryIndexes := r.1 })
      match r.2 with
      | .ok _ => (.ok (),e')
      | .error err => (.error (.execution err.message),e')

def updateSecondaryIndexesInsert (values : List V) (pk : Bytes) :
    Exec V E Unit :=
  onSecondaries table (insertSecondaries values pk)

def updateSecondaryIndexesDelete (values : List V) (pk : Bytes) :
    Exec V E Unit :=
  onSecondaries table (fun secs => (deleteSecondaries values pk secs,.ok ()))

def updateSecondaryIndexesUpdate (oldValues newValues : List V) (pk : Bytes) :
    Exec V E Unit :=
  onSecondaries table (updateSecondaries oldValues newValues pk)

def bigEndian (n : ℕ) : Bytes := (LittleEndian.le 8 n).reverse

def maxRowid (td : TableData V E) : ℕ := ((td.index.entries.filter (fun e => e.1.length = 8)).map
    (fun e => LittleEndian.readLe e.1.reverse)).foldl max 0

def nextRowid : Exec V E Bytes := fun e =>
  let next := match e.rowids.lookup table with
    | some c => c
    | none => ((e.tables.lookup table).map maxRowid).getD 0+1
  (.ok (bigEndian next),{ e with rowids := e.rowids.insert table (next+1) })

end

end Engine

end ByteDB
