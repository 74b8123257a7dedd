import ByteDB.Dml

/-!
# The execution of statements

Changes of rows are collected while a statement runs. They go to the logs of
the tables at the end of a statement without a transaction, and at the commit
of a transaction; a statement that fails drops them, and so does a rollback.
-/

set_option autoImplicit false

namespace ByteDB
open ByteDB.Assoc

/-! The statements that define tables, indexes and databases take effect at once and
know no transactions. A table that is altered keeps its rows as they are, and its
new schema has neither check constraints nor foreign keys; the catalog on disk keeps
the old one. -/

structure ColumnDef (E : Type) where
  name : String
  dataType : DataType
  maxLength : Option ℕ
  nullable : Bool
  primaryKey : Bool
  unique : Bool
  autoIncrement : Bool
  default : Option E
  check : Option E
  references : Option (String × String)
  onDelete : FkAction
  onUpdate : FkAction

structure CreateTableStmt (E : Type) where
  name : String
  columns : List (ColumnDef E)
  checkConstraints : List E
  foreignKeys : List ForeignKey

structure CreateIndexStmt where
  name : String
  table : String
  columns : List String
  unique : Bool

inductive AlterTableAction (E : Type) where
  | addColumn (col : ColumnDef E)
  | dropColumn (name : String)
  | renameColumn (oldName newName : String)

inductive Ddl (E : Type) where
  | createTable (ct : CreateTableStmt E)
  | dropTable (name : String) (ifExists : Bool)
  | truncate (name : String)
  | alterTable (table : String) (action : AlterTableAction E)
  | createIndex (ci : CreateIndexStmt)
  | dropIndex (name : String)
  | createDatabase (name : String) (ifNotExists : Bool)
  | dropDatabase (name : String) (ifExists : Bool)

def Schema.new {V : Type} (tableName : String) (columns : List (Column V)) : Schema V :=
  { tableName := tableName, columns := columns, checkConstraints := [], foreignKeys := [] }

inductive Dml (E Q : Type) where
  | insert (stmt : InsertStmt E Q)
  | update (stmt : UpdateStmt E)
  | delete (stmt : DeleteStmt E)

def Dml.table {E Q : Type} : Dml E Q → String
  | .insert stmt => stmt.table
  | .update stmt => stmt.table
  | .delete stmt => stmt.table

inductive Statement (E Q : Type) where
  | begin (isolation : Option IsolationLevel)
  | commit
  | rollback
  | useDatabase (name : String)
  | query (q : Q)
  | dml (stmt : Dml E Q)
  | ddl (stmt : Ddl E)

namespace Engine
open Command Codec
variable {V E Q : Type} [Codec V] (ev : Evaluator V E Q) (crc : Bytes → UInt32)

section

variable (c : ColumnDef E)

def columnOf : Column V :=
  { name := c.name
    dataType := c.dataType
    nullable := c.nullable && !c.primaryKey
    primaryKey := c.primaryKey
    unique := c.unique
    autoIncrement := c.autoIncrement
    default := c.default.map ev.simple
    maxLength := c.maxLength }

/-- A column of ALTER TABLE, which is neither unique nor counted and has no default. -/
def addedColumn : Column V :=
  { name := c.name
    dataType := c.dataType
    nullable := c.nullable && !c.primaryKey
    primaryKey := c.primaryKey
    unique := false
    autoIncrement := false
    default := none
    maxLength := c.maxLength }

def columnReference : Option ForeignKey := c.references.map (fun r =>
    { columns := [c.name], refTable := r.1, refColumns := [r.2]
      onDelete := c.onDelete, onUpdate := c.onUpdate })

variable (ct : CreateTableStmt E)

def allChecks : List E := ct.checkConstraints++ct.columns.filterMap (fun c => c.check)

def schemaOf : Schema V :=
  { tableName := ct.name
    columns := ct.columns.map (columnOf ev)
    checkConstraints := (allChecks ct).map ev.toSql
    foreignKeys := ct.foreignKeys++ct.columns.filterMap columnReference }

def newSequences (schema : Schema V) : Map String Int :=
  (schema.columns.filter (·.autoIncrement)).foldl (fun m c => m.insert c.name 1) ∅

def emptyTable : TableData V E :=
  { schema := schemaOf ev ct
    index := .empty
    versionStore := .new
    checkExprs := allChecks ct
    sequences := newSequences (schemaOf ev ct : Schema V)
    secondaryIndexes := [] }

end

section
variable (td : TableData V E)

def sequenceList : List (String × Int) := td.sequences.entries.map (fun s => (s.1,s.2))

def flushSequencesFor (ds : DiskStore V) (table : String) (td : TableData V E) : DiskStore V :=
  if sequenceList td = [] then ds else ds.flushTableSequences table (sequenceList td)

def onDisk (f : DiskStore V → DiskStore V) (e : Engine V E) : Engine V E :=
  { e with disk := e.disk.map f }

variable (name : String)

def setTable (td : TableData V E) (e : Engine V E) : Engine V E :=
  { e with tables := e.tables.insert name td }

def tableNotFound : QueryError := .execution ("Table '" ++ name ++ "' not found")

def execCreateTable (ct : CreateTableStmt E) : Exec V E (ExecutionResult V) := do
  check (fun e => if ct.name ∈ e.database then
    .error (.execution ("Table '" ++ ct.name ++ "' already exists")) else .ok ())
  modify (fun e =>
    let td := emptyTable ev ct
    let tableId := e.tables.entries.length+1
    onDisk (fun ds => (ds.upsertTable ct.name tableId td.schema (sequenceList td)).compactTable crc
      ct.name []) (setTable ct.name td (noteTables [ct.name] e)))
  pure (.ok ("Table " ++ ct.name ++ " created"))

def forgetTable (e : Engine V E) : Engine V E := onDisk (fun ds => ds.dropTable name) { e with
      database := e.database.filter (· ≠ name)
      tables := e.tables.erase name
      rowids := e.rowids.erase name }

def execDropTable (ifExists : Bool) : Exec V E (ExecutionResult V) := fun e =>
  if name ∈ e.database then (.ok (.ok ("Table " ++ name ++ " dropped")),forgetTable name e)
  else if ifExists then (.ok (.ok "OK"),e)
  else (.error (tableNotFound name),e)

def truncated : TableData V E := { td with
    index := .empty
    versionStore := .new
    secondaryIndexes := td.secondaryIndexes.map (fun sec => { sec with tree := .empty }) }

def flushTableToDisk (table : String) (e : Engine V E) : Engine V E :=
  match e.tables.lookup table with
  | none => e
  | some td =>
    onDisk (fun ds => flushSequencesFor (ds.compactTable crc table td.index.entries) table td) e

def execTruncate : Exec V E (ExecutionResult V) := do
  let td ← getTable ev crc name
  modify (fun e => flushTableToDisk crc name (setTable name (truncated td) e))
  pure (.ok "TRUNCATE TABLE")

/-- A table with new columns; without `keepIndexes` it loses its secondary indexes. -/
def withColumns (columns : List (Column V)) (keepIndexes : Bool) (td : TableData V E) :
    TableData V E :=
  { td with
    schema := .new td.schema.tableName columns
    secondaryIndexes := if keepIndexes then td.secondaryIndexes else [] }

def columnNotFound : QueryError := .execution ("Column '" ++ name ++ "' not found")

def alteredColumns (schema : Schema V) :
    AlterTableAction E → Except QueryError (List (Column V) × Bool)
  | .addColumn col => .ok (schema.columns++[addedColumn col],true)
  | .dropColumn name =>
    match schema.columnIndex name with
    | none => .error (columnNotFound name)
    | some i =>
      if i ∈ schema.primaryKeyColumns then .error (.execution "Cannot drop primary key column")
      else .ok (schema.columns.eraseIdx i,false)
  | .renameColumn oldName newName =>
    match schema.columnIndex oldName with
    | none => .error (columnNotFound oldName)
    | some i => .ok (schema.columns.modify i (fun c => { c with name := newName }),false)

def alterMessage : AlterTableAction E → String
  | .addColumn col => "Column '" ++ col.name ++ "' added"
  | .dropColumn name => "Column '" ++ name ++ "' dropped"
  | .renameColumn oldName newName => "Column '" ++ oldName ++ "' renamed to '" ++ newName ++ "'"

def execAlterTable (table : String) (action : AlterTableAction E) :
    Exec V E (ExecutionResult V) := fun e =>
  match e.tables.lookup table with
  | none => (.error (tableNotFound table),e)
  | some td =>
    match alteredColumns td.schema action with
    | .error err => (.error err,e)
    | .ok (columns,keepIndexes) =>
      let e := setTable table (withColumns columns keepIndexes td) e
      (.ok (.ok (alterMessage action)),
        if keepIndexes then e else onDisk (fun ds => ds.upsertTableIndexes table []) e)

def indexDefsFor (schema : Schema V) (secs : List SecondaryIndex) : List IndexDef :=
  secs.map (fun s =>
    { name := s.name
      columns := s.columns.filterMap (fun i => (schema.columns[i]?).map (fun c => c.name))
      unique := s.unique })

def newIndex (ci : CreateIndexStmt) : Except QueryError SecondaryIndex :=
  if td.secondaryIndexes.any (fun s => s.name = ci.name) then
    .error (.execution ("Index '" ++ ci.name ++ "' already exists"))
  else
    match ci.columns.mapM td.schema.columnIndex with
    | none => .error (.execution "indexed column not found")
    | some columns =>
      match td.index.entries.foldlM (buildStep (fun data => (decodeRow data : Option (List V))))
          { name := ci.name, columns := columns, unique := ci.unique, tree := .empty } with
      | .error err => .error (.execution err.message)
      | .ok sec => .ok sec

def setIndexes (table : String) (td : TableData V E) (secs : List SecondaryIndex)
    (e : Engine V E) : Engine V E :=
  onDisk (fun ds => ds.upsertTableIndexes table (indexDefsFor td.schema secs))
    (setTable table { td with secondaryIndexes := secs } e)

def execCreateIndex (ci : CreateIndexStmt) : Exec V E (ExecutionResult V) := fun e =>
  match e.tables.lookup ci.table with
  | none => (.error (tableNotFound ci.table),e)
  | some td =>
    match newIndex td ci with
    | .error err => (.error err,e)
    | .ok sec =>
      (.ok (.ok ("Index " ++ ci.name ++ " created on " ++ ci.table)),
        setIndexes ci.table td (td.secondaryIndexes++[sec]) e)

def execDropIndex : Exec V E (ExecutionResult V) := fun e =>
  match e.tables.entries.find? (fun t => t.2.secondaryIndexes.any (fun s => s.name = name)) with
  | none => (.ok (.ok ("Index " ++ name ++ " not found")),e)
  | some t =>
    (.ok (.ok ("Index " ++ name ++ " dropped")),
      setIndexes t.1 t.2 (t.2.secondaryIndexes.filter (fun s => s.name ≠ name)) e)

def tryDisk (f : DiskStore V → Except CoreError (DiskStore V)) (e : Engine V E) :
    Except QueryError (Engine V E) :=
  match e.disk with
  | none => .ok e
  | some ds =>
    match f ds with
    | .error err => .error (.execution err.message)
    | .ok ds => .ok { e with disk := some ds }

def execCreateDatabase (ifNotExists : Bool) : Exec V E (ExecutionResult V) := fun e =>
    if name ∈ e.databases then
      if ifNotExists then (.ok (.ok ("Database " ++ name ++ " already exists")),e)
      else (.error (.execution ("Database '" ++ name ++ "' already exists")),e)
    else
      match tryDisk (fun ds => ds.createDatabase name) e with
      | .error err => (.error err,e)
      | .ok e =>
        (.ok (.ok ("Database " ++ name ++ " created")),{ e with databases := e.databases++[name] })

def execDropDatabase (ifExists : Bool) : Exec V E (ExecutionResult V) := fun e =>
  if name = e.currentDb then
    (.error (.execution "Cannot drop the current database; USE another first"),e)
  else if name ∉ e.databases then
    if ifExists then (.ok (.ok "OK"),e)
    else (.error (.execution ("Database '" ++ name ++ "' not found")),e)
  else
    match tryDisk (fun ds => ds.dropDatabase name) e with
    | .error err => (.error err,e)
    | .ok e =>
      (.ok (.ok ("Database " ++ name ++ " dropped")), { e with
          databases := e.databases.filter (· ≠ name)
          dbTables := e.dbTables.erase name })

def execDdl : Ddl E → Exec V E (ExecutionResult V)
  | .createTable ct => execCreateTable ev crc ct
  | .dropTable name ifExists => execDropTable name ifExists
  | .truncate name => execTruncate ev crc name
  | .alterTable table action => execAlterTable table action
  | .createIndex ci => execCreateIndex ci
  | .dropIndex name => execDropIndex name
  | .createDatabase name ifNotExists => execCreateDatabase name ifNotExists
  | .dropDatabase name ifExists => execDropDatabase name ifExists

end

/-! UPDATE and DELETE read the rows that the transaction sees and then go through
them. The rows that a DELETE removes leave the primary index only after the last row
has been gone through; what a foreign key does to other tables is done at once. -/

def tryPkLookup (filter : Option E) (schema : Schema V) : Option Bytes :=
  match schema.primaryKeyColumns, filter.bind ev.columnEq with
  | [i], some (name,v) =>
    if (schema.columns[i]?).any (fun c => c.name = name) then some (keyBytes [v] [0]) else none
  | _, _ => none

section
variable (txnId : Option TxnId)

def candidates (table : String) (td : TableData V E) (filter : Option E) :
    Exec V E (List (Bytes × Bytes)) :=
  match tryPkLookup ev filter td.schema with
  | some key => do
    ssiRead txnId table key
    let found ← check (fun e =>
      ((e.tables.lookup table).getD td).readVisibleOne e.tm txnId key)
    pure (found.toList.map (fun data => (key,data)))
  | none => do
    ssiPredicate txnId table
    check (fun e => ((e.tables.lookup table).getD td).readVisibleEntries e.tm txnId)

variable (schema : Schema V)

def selectRow (filter : Option E) (data : Bytes) : Exec V E (Option (List V)) :=
  match decodeRow data with
  | none => pure none
  | some row =>
    match filter with
    | none => pure (some row)
    | some x => do
      let chosen ← evalPredicate ev txnId x row schema
      pure (if chosen then some row else none)

section

structure UpdatePlan (V : Type) where
  key : Bytes
  data : Bytes
  old : List V
  new : List V

def nullViolation (row : List V) : Option String :=
  (schema.positions.find? (fun c => !c.1.nullable && (row[c.2]?).any isNull)).map
    (fun c => c.1.name)

def checkNotNull (row : List V) : Exec V E Unit :=
  match nullViolation schema row with
  | some col => fail (notNullViolation col)
  | none => pure ()

def updateCheck (stmt : UpdateStmt E) (td : TableData V E)
    (entry : Bytes × Bytes) : Exec V E (Option (UpdatePlan V)) := do
  let row ← selectRow ev txnId td.schema stmt.whereClause entry.2
  match row with
  | none => pure none
  | some old => do
    ssiRead txnId stmt.table entry.1
    recordUndo txnId stmt.table entry.1 (some entry.2)
    let new ← assign ev txnId td.schema stmt.assignments old
    checkNotNull td.schema new
    checkUnique updateRefusals stmt.table new (some entry.1)
    checkExpressions ev updateRefusals txnId stmt.table td new
    checkForeignKeys updateRefusals td.schema new
    pure (some ⟨entry.1,entry.2,old,new⟩)

def updateVersion (tid : TxnId) (table : String) (slot : ℕ) (td : TableData V E)
    (plan : UpdatePlan V) : Exec V E Unit := do
  let snap ← snapshot tid
  onVersions table (fun vs => (VersionStore.ensureBase vs plan.key plan.old,Except.ok ()))
  onVersions table (fun vs => VersionStore.tryUpdate vs plan.key plan.new tid snap.startTs
    snap.startTs snap.activeTxns)
  ssiWrite (some tid) table plan.key
  walAppend (.update tid td.schema.columns.length slot plan.data (serialize plan.new))

variable (txnId : Option TxnId) (stmt : UpdateStmt E)

def updateWrite (td : TableData V E) (slot : ℕ) (plan : UpdatePlan V) : Exec V E (List V) := do
  inTxn txnId (fun tid => updateVersion tid stmt.table slot td plan)
  updateSecondaryIndexesUpdate stmt.table plan.old plan.new plan.key
  putRow ev stmt.table plan.key (serialize plan.new)
  pure plan.new

def updateRow (td : TableData V E) : List (List V) → Bytes × Bytes → Exec V E (List (List V)) :=
  eachRow (updateCheck ev txnId stmt td) (updateWrite ev txnId stmt td)

def execUpdate : Exec V E (ExecutionResult V) := do
  let td ← getTable ev crc stmt.table
  let entries ← candidates ev txnId stmt.table td stmt.whereClause
  let done ← loop (updateRow ev txnId stmt td) [] entries
  finish ev txnId td.schema done stmt.returning

end

section

structure FkRef where
  childName : String
  parentIdxs : List ℕ
  childIdxs : List ℕ
  onDelete : FkAction

variable (e : Engine V E)

def fkRefs (table : String) (schema : Schema V) : List FkRef :=
  e.tables.entries.flatMap (fun other =>
    if other.1 = table then []
    else (other.2.schema.foreignKeys.filter (fun fk => fk.refTable = table)).map (fun fk =>
      { childName := other.1
        parentIdxs := fk.refColumns.filterMap schema.columnIndex
        childIdxs := fk.columns.filterMap other.2.schema.columnIndex
        onDelete := fk.onDelete }))

structure Target where
  childName : String
  action : FkAction
  key : Bytes
  childIdxs : List ℕ

def childCandidates (child : TableData V E) (childIdxs : List ℕ) (parentVals : List V) :
    List (Bytes × Bytes) :=
  match if parentVals.all fkIndexEligible then
      child.secondaryIndexes.find? (fun sec => sec.columns = childIdxs) else none with
  | some sec => (sec.lookupEq parentVals).filterMap (fun pk =>
      (child.index.lookup pk).map (fun data => (pk,data)))
  | none => child.index.entries

def fkReferenced (child : String) : QueryError :=
  .constraint ("FOREIGN KEY violation: row in '" ++ child ++ "' references this row")

def targetsOf (row : List V) (fkr : FkRef) : Except QueryError (List Target) :=
  match e.tables.lookup fkr.childName with
  | none => .ok []
  | some child =>
    let parentVals := fkr.parentIdxs.map (fun i => (row[i]?).getD null)
    if parentVals.any isNull then .ok []
    else
      let hits := (childCandidates child fkr.childIdxs parentVals).filter (fun c =>
        (decodeColumns c.2 (needed fkr.childIdxs)).any
          (fun values => agrees values fkr.childIdxs parentVals))
      if fkr.onDelete = .restrict ∧ hits ≠ [] then .error (fkReferenced fkr.childName)
      else .ok (hits.map (fun c => ⟨fkr.childName,fkr.onDelete,c.1,fkr.childIdxs⟩))

def cascadeTargets (refs : List FkRef) (row : List V) : Except QueryError (List Target) := do
  let targets ← refs.mapM (targetsOf e row)
  .ok targets.flatten

structure DeletePlan (V : Type) where
  key : Bytes
  data : Bytes
  row : List V
  targets : List Target

variable (txnId : Option TxnId)

def deleteCheck (stmt : DeleteStmt E) (td : TableData V E)
    (refs : List FkRef) (entry : Bytes × Bytes) : Exec V E (Option (DeletePlan V)) := do
  let row ← selectRow ev txnId td.schema stmt.whereClause entry.2
  match row with
  | none => pure none
  | some row => do
    ssiRead txnId stmt.table entry.1
    recordUndo txnId stmt.table entry.1 (some entry.2)
    let targets ← check (fun e => cascadeTargets e refs row)
    pure (some ⟨entry.1,entry.2,row,targets⟩)

def unindex (table : String) (key : Bytes) (prev : Option Bytes) : Exec V E Unit :=
  match prev.bind decodeRow with
  | none => pure ()
  | some (values : List V) => updateSecondaryIndexesDelete table values key

def cascadeDelete (t : Target) : Exec V E Unit := do
  let prev ← get (fun e => e.content t.childName t.key)
  unindex t.childName t.key prev
  recordUndo txnId t.childName t.key prev
  deleteRow t.childName t.key

def cascadeSetNull (t : Target) : Exec V E Unit := do
  let prev ← get (fun e => e.content t.childName t.key)
  match prev with
  | none => pure ()
  | some data =>
    match decodeRow data with
    | none => pure ()
    | some (old : List V) => do
      let new := t.childIdxs.foldl (fun (row : List V) i => row.set i null) old
      updateSecondaryIndexesUpdate t.childName old new t.key
      recordUndo txnId t.childName t.key (some data)
      putRow ev t.childName t.key (serialize new)

def cascade (txnId : Option TxnId) (t : Target) : Exec V E Unit :=
  match t.action with
  | .cascade => cascadeDelete txnId t
  | .setNull => cascadeSetNull ev txnId t
  | .restrict => pure ()

def deleteVersion (tid : TxnId) (table : String) (slot : ℕ) (td : TableData V E)
    (plan : DeletePlan V) : Exec V E Unit := do
  let snap ← snapshot tid
  onVersions table (fun vs => (VersionStore.ensureBase vs plan.key plan.row,Except.ok ()))
  onVersions table (fun vs => VersionStore.tryDelete vs plan.key tid snap.startTs
    snap.startTs snap.activeTxns)
  ssiWrite (some tid) table plan.key
  walAppend (.delete tid td.schema.columns.length slot plan.data)

variable (txnId : Option TxnId) (stmt : DeleteStmt E)

def deleteWrite (td : TableData V E) (slot : ℕ)
    (plan : DeletePlan V) : Exec V E (Bytes × List V) := do
  loop (fun _ t => cascade ev txnId t) () plan.targets
  inTxn txnId (fun tid => deleteVersion tid stmt.table slot td plan)
  updateSecondaryIndexesDelete stmt.table plan.row plan.key
  pure (plan.key,plan.row)

/-- The keys to delete and the rows that were under them, so far. -/
def deleteRowOf (td : TableData V E) (refs : List FkRef) :
    List (Bytes × List V) → Bytes × Bytes → Exec V E (List (Bytes × List V)) :=
  eachRow (deleteCheck ev txnId stmt td refs) (deleteWrite ev txnId stmt td)

def execDelete : Exec V E (ExecutionResult V) := do
  let td ← getTable ev crc stmt.table
  let entries ← candidates ev txnId stmt.table td stmt.whereClause
  let refs ← get (fun e => fkRefs e stmt.table td.schema)
  let done ← loop (deleteRowOf ev txnId stmt td refs) [] entries
  loop (fun _ key => deleteRow stmt.table key) () (done.map Prod.fst)
  finish ev txnId td.schema (done.map Prod.snd) stmt.returning

end

end

section

def logCompactThresholdBytes : ℕ := 8*1024*1024

def toLog (d : Delta) : TableLog.LogDelta := ⟨d.op,d.key,d.value⟩

variable (deltas : List Delta)

def deltasOf (table : String) : List TableLog.LogDelta :=
  (deltas.filter (fun d => d.table = table)).map toLog

/-- Append the changes of one table; a log that has grown large is replaced by
the entries that the table has in memory. -/
def writeTable (tables : Map String (TableData V E)) (deltas : List Delta) (ds : DiskStore V)
    (table : String) : DiskStore V :=
  let ds := ds.appendTableLog crc table (deltasOf deltas table)
  match tables.lookup table with
  | none => ds
  | some td =>
    let ds := flushSequencesFor ds table td
    if logCompactThresholdBytes ≤ ds.tableLogBytes table then
      ds.compactTable crc table td.index.entries
    else ds

/-- The tables that are changed; the source takes them in no fixed order. -/
def tablesOf : List String := (deltas.map (fun d => d.table)).dedup

variable (e : Engine V E)

def writeDeltasToDisk : Engine V E :=
  { e with disk := e.disk.map (fun ds =>
      (tablesOf deltas).foldl (writeTable crc e.tables deltas) ds) }

def clearPendingDeltas : Engine V E := { e with pending := [] }

def deltasFor (tid : TxnId) : List Delta := (e.txnDeltas.lookup tid).getD []

def stashOrPersistDeltas (txnId : Option TxnId) (e : Engine V E) : Engine V E :=
  match txnId with
  | none => writeDeltasToDisk crc e.pending e.clearPendingDeltas
  | some tid =>
    if e.pending = [] then e
    else { e.clearPendingDeltas with
      txnDeltas := e.txnDeltas.insert tid (e.deltasFor tid++e.pending) }

def discardTxnDeltas (tid : TxnId) (e : Engine V E) : Engine V E :=
  { e with txnDeltas := e.txnDeltas.erase tid }

def commitTxnDeltas (tid : TxnId) (e : Engine V E) : Engine V E :=
  writeDeltasToDisk crc (e.deltasFor tid) (e.discardTxnDeltas tid)

end

def restoreRow (key : Bytes) (prev : Option Bytes) (td : TableData V E) : TableData V E :=
  match td.index.lookup key, prev with
  | some cur, some pv =>
    { td with
      secondaryIndexes := match decodeRow cur, decodeRow pv with
        | some (cv : List V), some pvv => (updateSecondaries cv pvv key td.secondaryIndexes).1
        | _, _ => td.secondaryIndexes
      index := td.index.insert key pv }
  | some cur, none =>
    { td with
      secondaryIndexes := match decodeRow cur with
        | some (cv : List V) => deleteSecondaries cv key td.secondaryIndexes
        | none => td.secondaryIndexes
      index := td.index.erase key }
  | none, some pv =>
    { td with
      secondaryIndexes := match decodeRow pv with
        | some (pvv : List V) => (insertSecondaries pvv key td.secondaryIndexes).1
        | none => td.secondaryIndexes
      index := td.index.insert key pv }
  | none, none => td

def restoreEntry (tables : Map String (TableData V E))
    (u : (_ : String × Bytes) × Option Bytes) : Map String (TableData V E) :=
  adjust tables u.1.1 (restoreRow u.1.2 u.2)

def dropVersions (tid : TxnId) (tables : Map String (TableData V E)) (table : String) :
    Map String (TableData V E) :=
  adjust tables table (fun td => { td with
    versionStore := VersionStore.rollbackTxn td.versionStore tid })

def rollbackTxnEffects (tid : TxnId) (e : Engine V E) : Engine V E :=
  let e := (e.discardTxnDeltas tid).clearPendingDeltas
  match e.undo.lookup tid with
  | none => e
  | some undo =>
    let restored := undo.entries.foldl restoreEntry e.tables
    { e with
      undo := e.undo.erase tid
      tables := ((undo.entries.map (fun u => u.1.1)).dedup).foldl (dropVersions tid) restored }

def loadTables (ds : DiskStore V) : List (TableCatalog V) → Map String (TableData V E) →
    Map String (TableData V E) × Except CoreError Unit
  | [], tables => (tables,.ok ())
  | t::ts, tables =>
    match buildTableData ev crc ds t with
    | .error err => (tables,.error err)
    | .ok td => loadTables ds ts (tables.insert t.name td)

/-- The databases that are not current keep their tables in memory. -/
def switchToDatabase (name : String) : Exec V E Unit := fun e =>
  if e.currentDb = name then (.ok (),e)
  else
    let cached := (e.dbTables.insert e.currentDb e.tables)
    let e := { e with tables := ∅, dbTables := cached }
    match cached.lookup name, e.disk with
    | some tables, disk =>
      (.ok (),{ e with
        tables := tables
        dbTables := cached.erase name
        currentDb := name
        disk := disk.map (fun ds => ((ds.switchDatabase name).toOption).getD ds) })
    | none, some ds =>
      match ds.switchDatabase name with
      | .error err => (.error (.execution err.message),e)
      | .ok ds =>
        let r := loadTables ev crc ds ds.listTables ∅
        let e := noteTables r.1.keys { e with disk := some ds, currentDb := name, tables := r.1 }
        match r.2 with
        | .error err => (.error (.execution err.message),e)
        | .ok _ => (.ok (),e)
    | none, none => (.ok (),{ e with currentDb := name })

variable (txnId : Option TxnId)

def execDml : Dml E Q → Exec V E (ExecutionResult V)
  | .insert stmt => execInsert ev crc txnId stmt
  | .update stmt => execUpdate ev crc txnId stmt
  | .delete stmt => execDelete ev crc txnId stmt

variable (m : Exec V E (ExecutionResult V))

/-- What the end of INSERT, UPDATE and DELETE does with the changes. -/
def settleDeltas :
    Exec V E (ExecutionResult V) := fun e =>
  match m e with
  | (.ok r,e) => (.ok r,stashOrPersistDeltas crc txnId e)
  | (.error err,e) => (.error err,e.clearPendingDeltas)

def noTransaction : QueryError := .execution "No active transaction"

def execCommit : Exec V E (ExecutionResult V) :=
  match txnId with
  | none => fail noTransaction
  | some tid => fun e =>
    match e.tm.commit tid with
    | (tm,.ok _) =>
      let e := { e with tm := tm, undo := e.undo.erase tid }
      (.ok (.ok "COMMIT"),appendWal (.commit tid) (commitTxnDeltas crc tid e))
    | (tm,.error err) =>
      (.error (.execution err.message),
        appendWal (.abort tid) (rollbackTxnEffects tid { e with tm := tm }))

def execRollback : Exec V E (ExecutionResult V) :=
  match txnId with
  | none => fail noTransaction
  | some tid => fun e =>
    let e := appendWal (.abort tid) (rollbackTxnEffects tid e)
    match e.tm.abort tid with
    | (tm,.ok _) => (.ok (.ok "ROLLBACK"),{ e with tm := tm })
    | (tm,.error err) => (.error (.execution err.message),{ e with tm := tm })

def execBegin (isolation : Option IsolationLevel) : Exec V E (ExecutionResult V) := fun e =>
  let r := e.tm.begin (isolation.getD .readCommitted)
  (.ok (.ok ("Transaction " ++ toString r.2 ++ " started")),
    appendWal (.begin r.2) { e with tm := r.1 })

def execUse (name : String) : Exec V E (ExecutionResult V) := do
  let known ← get (fun e => decide (name ∈ e.databases))
  if known then
    switchToDatabase ev crc name
    pure (.ok ("Now using database " ++ name))
  else fail (.execution ("Database '" ++ name ++ "' not found"))

def execQuery (q : Q) : Exec V E (ExecutionResult V) := do
  let rows ← runSelect ev txnId q
  let columns ← get (fun e => ev.columns e q)
  pure (.rows columns rows)

def dispatch (stmt : Statement E Q) (txnId : Option TxnId) : Exec V E (ExecutionResult V) :=
  match stmt with
  | .begin isolation => execBegin isolation
  | .commit => execCommit crc txnId
  | .rollback => execRollback txnId
  | .useDatabase name => execUse ev crc name
  | .query q => execQuery ev txnId q
  | .dml stmt => settleDeltas crc txnId (execDml ev crc txnId stmt)
  | .ddl stmt => execDdl ev crc stmt

/-- An error that a subquery has left behind is raised at the end. -/
def raisePending : Exec V E (ExecutionResult V) := fun e =>
  match m { e with pendingSubqueryError := none } with
  | (.ok r,e) =>
    match e.pendingSubqueryError with
    | none => (.ok r,e)
    | some msg => (.error (.execution msg),{ e with pendingSubqueryError := none })
  | (.error err,e) => (.error err,e)

def execute (stmt : Statement E Q) (txnId : Option TxnId) : Exec V E (ExecutionResult V) :=
  raisePending (dispatch ev crc stmt txnId)

/-- Statements of several sessions, one after another; a statement that fails
does not stop the others. -/
def executeAll (e : Engine V E) (stmts : List (Statement E Q × Option TxnId)) : Engine V E :=
  stmts.foldl (fun e s => (execute ev crc s.1 s.2 e).2) e

end Engine

end ByteDB
