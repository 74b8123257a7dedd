import ByteDB.Engine

/-!
# INSERT, UPDATE and DELETE

Each statement goes through its rows one by one. For a row it first makes the
checks, which may refuse the statement or pass the row over, and then writes:
the version store, the secondary indexes, the rows of other tables that a
foreign key reaches, and the primary index.
-/

set_option autoImplicit false

namespace ByteDB
open ByteDB.Assoc

inductive InsertSource (E Q : Type) where
  | values (rows : List (List E))
  | select (q : Q)

inductive ConflictAction (E : Type) where
  | doNothing
  | doUpdate (assignments : List (String × E))

inductive Returning (E : Type) where
  | star
  | columns (cols : List (E × String))

structure InsertStmt (E Q : Type) where
  table : String
  columns : Option (List String)
  source : InsertSource E Q
  onConflict : Option (ConflictAction E)
  returning : Option (Returning E)

structure UpdateStmt (E : Type) where
  table : String
  assignments : List (String × E)
  whereClause : Option E
  returning : Option (Returning E)

structure DeleteStmt (E : Type) where
  table : String
  whereClause : Option E
  returning : Option (Returning E)

inductive ExecutionResult (V : Type) where
  | rows (columns : List String) (rows : List (List V))
  | modified (count : ℕ)
  | ok (message : String)
  deriving DecidableEq

namespace Engine
open Command Codec
variable {V E Q : Type} [Codec V] (ev : Evaluator V E Q) (crc : Bytes → UInt32)

section

def notNullViolation (col : String) : QueryError :=
  .constraint ("NOT NULL constraint violated for column '" ++ col ++ "'")

def uniqueHit (td : TableData V E) (i : ℕ) (v : V) (own : Option Bytes) : Bool :=
  match td.secondaryIndexes.find? (fun sec => sec.columns = [i]) with
  | some sec => (sec.lookupEq [v]).any (fun pk => own ≠ some pk)
  | none => td.index.entries.any (fun e =>
      own ≠ some e.1 && (readValueAt e.2 i).any (fun other => same other v))

def uniqueViolation (td : TableData V E) (row : List V) (own : Option Bytes) : Option String :=
  (td.schema.positions.find? (fun c => c.1.unique && !c.1.primaryKey &&
    (row[c.2]?).any (fun v => !isNull v && uniqueHit td c.2 v own))).map (fun c => c.1.name)

structure Refusals where
  unique : String → QueryError
  check : String → QueryError
  unknownParent : String → QueryError
  noParent : String → QueryError

def uniqueText (col : String) : String := "UNIQUE constraint violated for column '" ++ col ++ "'"

def checkText (table : String) : String := "CHECK constraint failed on table '" ++ table ++ "'"

def noParentText (parent : String) : String :=
  "FOREIGN KEY violation: no matching row in '" ++ parent ++ "'"

def insertRefusals : Refusals where
  unique := fun col => .constraint (uniqueText col)
  check := fun table => .constraint (checkText table)
  unknownParent := fun parent =>
    .execution ("Foreign key references unknown table '" ++ parent ++ "'")
  noParent := fun parent => .constraint (noParentText parent)

def updateRefusals : Refusals where
  unique := fun col => .execution (uniqueText col)
  check := fun table => .execution (checkText table)
  unknownParent := fun parent => .execution ("FK references unknown table '" ++ parent ++ "'")
  noParent := fun parent => .execution (noParentText parent)

variable (refuse : Refusals)

def checkUnique (table : String) (row : List V) (own : Option Bytes) :
    Exec V E Unit :=
  check (fun e =>
    match (e.tables.lookup table).bind (fun td => uniqueViolation td row own) with
    | some col => .error (refuse.unique col)
    | none => .ok ())

def checkExpressions (txnId : Option TxnId) (table : String)
    (td : TableData V E) (row : List V) : Exec V E Unit :=
  loop (fun _ x => do
    let holds ← evalCheck ev txnId x row td.schema
    if holds then pure () else fail (refuse.check table)) () td.checkExprs

def agrees (values : List V) (columns : List ℕ) (others : List V) : Bool :=
  columns.zipIdx.all (fun c =>
    match values[c.1]?,others[c.2]? with
    | some a,some b => same a b
    | _,_ => false)

def fkParentExists (parent : TableData V E) (parentIdxs : List ℕ) (childVals : List V) : Bool :=
  if parent.schema.primaryKeyColumns ≠ [] ∧ parentIdxs = parent.schema.primaryKeyColumns then
    (parent.index.lookup (keyBytes childVals (List.range childVals.length))).isSome
  else
    match if childVals.all fkIndexEligible then
        parent.secondaryIndexes.find? (fun sec => sec.columns = parentIdxs) else none with
    | some sec => (sec.lookupEq childVals).any (fun pk =>
        ((parent.index.lookup pk).bind (fun data => decodeColumns data (needed parentIdxs))).any
          (fun values => agrees values parentIdxs childVals))
    | none => parent.index.entries.any (fun e => parentIdxs.zipIdx.all (fun c =>
        match readValueAt e.2 c.1,childVals[c.2]? with
        | some a,some b => same a b
        | _,_ => false))

/-- The values under a foreign key; a null among them suspends the key. -/
def childValues (schema : Schema V) (fk : ForeignKey) (row : List V) : Option (List V) :=
  let vals := (fk.columns.filterMap schema.columnIndex).map (fun i => (row[i]?).getD null)
  if vals.any isNull then none else some vals

def checkForeignKeys (schema : Schema V) (row : List V) : Exec V E Unit :=
  check (fun e => schema.foreignKeys.forM (fun fk =>
    match childValues schema fk row with
    | none => Except.ok ()
    | some vals =>
      match e.tables.lookup fk.refTable with
      | none => .error (refuse.unknownParent fk.refTable)
      | some parent =>
        if fkParentExists parent (fk.refColumns.filterMap parent.schema.columnIndex) vals then
          .ok ()
        else .error (refuse.noParent fk.refTable)))

end

section
variable (txnId : Option TxnId) (schema : Schema V)

def assign (assignments : List (String × E)) (row : List V) : Exec V E (List V) :=
  loop (fun row a =>
    match schema.columnIndex a.1 with
    | none => pure row
    | some i => do
      let v ← evalValue ev txnId a.2 row schema
      pure (row.set i v)) row assignments

def buildReturning (rows : List (List V)) : Returning E → Exec V E (ExecutionResult V)
  | .star => pure (.rows (schema.columns.map (fun c => c.name)) rows)
  | .columns cols => do
    let out ← loop (fun out row => do
      let values ← loop (fun values c => do
        let v ← evalValue ev txnId c.1 row schema
        pure (values++[v])) [] cols
      pure (out++[values])) [] rows
    pure (.rows (cols.map Prod.snd) out)

def finish (rows : List (List V))
    (returning : Option (Returning E)) : Exec V E (ExecutionResult V) :=
  match returning with
  | none => pure (.modified rows.length)
  | some r => buildReturning ev txnId schema rows r

end

def snapshot (tid : TxnId) : Exec V E Snapshot := check (fun e => TableData.snapshotFor e.tm tid)

/-- Change the version store of a table by an operation that may fail. -/
def onVersions {α : Type} (table : String)
    (f : VersionStore (List V) → VersionStore (List V) × Except CoreError α) : Exec V E Unit :=
  fun e =>
    match e.tables.lookup table with
    | none => (.ok (),e)
    | some td =>
      let r := f td.versionStore
      let e' := e.onTable table (fun td => { td with versionStore := r.1 })
      match r.2 with
      | .ok _ => (.ok (),e')
      | .error err => (.error (.core err),e')

variable (txnId : Option TxnId)

def inTxn (f : TxnId → Exec V E Unit) : Exec V E Unit :=
  match txnId with
  | none => pure ()
  | some tid => f tid

/-- One row of a statement: it is passed over, or written. The slot in the log
is the number of rows written before, in two bytes. -/
def eachRow {α β γ : Type} (check : α → Exec V E (Option β)) (write : ℕ → β → Exec V E γ)
    (done : List γ) (a : α) : Exec V E (List γ) := do
  let plan ← check a
  match plan with
  | none => pure done
  | some plan => do
    let r ← write (done.length % 65536) plan
    pure (done++[r])

section

variable (schema : Schema V)

def columnIndices (cols : List String) : Except QueryError (List ℕ) := cols.mapM (fun c =>
    match schema.columnIndex c with
    | some i => .ok i
    | none => .error (.execution ("Column '" ++ c ++ "' not found")))

def targetColumn (indices : Option (List ℕ)) (i : ℕ) : Option ℕ :=
  match indices with
  | some indices => indices[i]?
  | none => if i < schema.columns.length then some i else none

def evalRow (indices : Option (List ℕ)) (exprs : List E) : Exec V E (List V) := loop (fun row x =>
    match targetColumn schema indices x.2 with
    | none => pure row
    | some j => do
      let v ← evalInsertValue ev txnId x.1 schema j
      pure (row.set j v)) (List.replicate schema.columns.length null) exprs.zipIdx

variable (stmt : InsertStmt E Q)

def insertRows : Exec V E (List (List V)) :=
  match stmt.source with
  | .values rows => do
    let td ← getTable ev crc stmt.table
    let indices ← check (fun _ => stmt.columns.mapM (columnIndices td.schema))
    loop (fun out exprs => do
      let row ← evalRow ev txnId td.schema indices exprs
      pure (out++[row])) [] rows
  | .select q => runSelect ev txnId q

def sequenceNext (table col : String) : Exec V E (Option Int) := fun e =>
  match (e.tables.lookup table).bind (fun td => td.sequences.lookup col) with
  | none => (.ok none,e)
  | some n => (.ok (some n),e.onTable table
      (fun td => { td with sequences := td.sequences.insert col (n+1) }))

def sequenceObserve (table col : String) (value : Int) : Exec V E Unit := modify (fun e =>
  e.onTable table (fun td => { td with
    sequences := adjust td.sequences col (fun n => if n ≤ value then value+1 else n) }))

variable (table : String)

def supply (col : Column V) (v : V) : Exec V E V :=
  if isNull v then
    if col.autoIncrement then do
      let n ← sequenceNext table col.name
      pure ((n.map ofInt64).getD v)
    else pure (col.default.getD v)
  else if col.autoIncrement then
    match int64? v with
    | some n => do
      sequenceObserve table col.name n
      pure v
    | none => pure v
  else pure v

def prepareColumn (row : List V) (c : Column V × ℕ) : Exec V E (List V) := do
  let v ← supply table c.1 ((row[c.2]?).getD null)
  let v := if isNull v then v else convert c.1.dataType c.1.maxLength v
  if isNull v && !c.1.nullable then fail (notNullViolation c.1.name)
  else pure (row.set c.2 v)

def resize (n : ℕ) (row : List V) : List V := (row++List.replicate n null).take n

/-- A row to insert, or with `update` the values of the row that exists and
those it gets by ON CONFLICT DO UPDATE. -/
structure InsertPlan (V : Type) where
  row : List V
  key : Bytes
  existing : Option Bytes
  update : Option (List V × List V)

def duplicateKey : QueryError :=
  .execution ("duplicate key value violates primary key constraint on table '" ++ table ++ "'")

def resolveConflict (schema : Schema V)
    (row : List V) (key old : Bytes) : Exec V E (Option (InsertPlan V)) :=
  match stmt.onConflict with
  | some .doNothing => pure none
  | some (.doUpdate assignments) =>
    match decodeRow old with
    | none => fail (.core (.internal "called `Option::unwrap()` on a `None` value"))
    | some oldValues => do
      let new ← assign ev txnId schema assignments oldValues
      pure (some ⟨row,key,some old,some (oldValues,new)⟩)
  | none =>
    if schema.primaryKeyColumns ≠ [] then fail (duplicateKey stmt.table)
    else pure (some ⟨row,key,some old,none⟩)

def keyFor (schema : Schema V) (row : List V) : Exec V E Bytes :=
  if schema.primaryKeyColumns = [] then nextRowid table
  else pure (keyBytes row schema.primaryKeyColumns)

/-- All that INSERT does for a row before it writes. -/
def insertCheck (stmt : InsertStmt E Q) (td : TableData V E)
    (values : List V) : Exec V E (Option (InsertPlan V)) := do
  let row ← loop (prepareColumn stmt.table) (resize td.schema.columns.length values)
    td.schema.positions
  checkUnique insertRefusals stmt.table row none
  checkExpressions ev insertRefusals txnId stmt.table td row
  checkForeignKeys insertRefusals td.schema row
  let key ← keyFor stmt.table td.schema row
  let existing ← get (fun e => e.content stmt.table key)
  match existing with
  | none => pure (some ⟨row,key,none,none⟩)
  | some old => resolveConflict ev txnId stmt td.schema row key old

def upsertWrite (table : String) (key : Bytes) (existing : Option Bytes)
    (old new : List V) : Exec V E (List V) := do
  updateSecondaryIndexesUpdate table old new key
  recordUndo txnId table key existing
  putRow ev table key (serialize new)
  pure new

def insertVersion (tid : TxnId) (table : String) (slot : ℕ) (td : TableData V E)
    (plan : InsertPlan V) : Exec V E Unit := do
  walAppend (.insert tid td.schema.columns.length slot (serialize plan.row))
  let snap ← snapshot tid
  onVersions table (fun vs =>
    (VersionStore.insert vs plan.key plan.row tid snap.startTs,Except.ok ()))
  ssiWrite (some tid) table plan.key

def insertWrite (td : TableData V E) (slot : ℕ) (plan : InsertPlan V) : Exec V E (List V) :=
  match plan.update with
  | some (old,new) => upsertWrite ev txnId stmt.table plan.key plan.existing old new
  | none => do
    inTxn txnId (fun tid => insertVersion tid stmt.table slot td plan)
    updateSecondaryIndexesInsert stmt.table plan.row plan.key
    recordUndo txnId stmt.table plan.key plan.existing
    putRow ev stmt.table plan.key (serialize plan.row)
    pure plan.row

def insertRow (td : TableData V E) : List (List V) → List V → Exec V E (List (List V)) :=
  eachRow (insertCheck ev txnId stmt td) (insertWrite ev txnId stmt td)

def execInsert : Exec V E (ExecutionResult V) := do
  let rows ← insertRows ev crc txnId stmt
  let td ← getTable ev crc stmt.table
  let done ← loop (insertRow ev txnId stmt td) [] rows
  finish ev txnId td.schema done stmt.returning

end

end Engine

end ByteDB
