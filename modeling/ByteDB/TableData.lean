import ByteDB.OrderedMap
import ByteDB.VersionStore

/-!
# Tables in memory

A table has a primary index from keys to serialized rows, a version store and
secondary indexes. The indexes are the finite maps that the search trees
stand for. The values of a row and their encodings are a parameter.
-/

set_option autoImplicit false

namespace ByteDB
open ByteDB.Assoc

inductive QueryError where
  | execution (message : String)
  | constraint (message : String)
  | core (e : CoreError)
  | plan (message : String)
  deriving DecidableEq, Repr

inductive DataType where
  | bool
  | int64
  | float64
  | text
  | bytes
  | json
  | timestamp
  | date
  | decimal
  | uuid
  | interval
  deriving DecidableEq, Repr

class Codec (V : Type) where
  null : V
  isNull : V → Bool
  dataType : V → Option DataType
  /-- The equality of `Value`, which is a comparison and not an equivalence. -/
  same : V → V → Bool
  ofInt64 : Int → V
  int64? : V → Option Int
  /-- `encode_value`, of which keys and rows are made. -/
  encode : V → Bytes
  /-- The order-preserving encoding of one value in a secondary index. -/
  okey : V → Bytes
  decodeRow : Bytes → Option (List V)
  decodeColumns : Bytes → List ℕ → Option (List V)
  readValueAt : Bytes → ℕ → Option V
  /-- The conversion of a value to the type and length of its column. -/
  convert : DataType → Option ℕ → V → V
  fkIndexEligible : V → Bool

structure Column (V : Type) where
  name : String
  dataType : DataType
  nullable : Bool
  primaryKey : Bool
  unique : Bool
  autoIncrement : Bool
  default : Option V
  maxLength : Option ℕ
  deriving DecidableEq

inductive FkAction where
  | restrict
  | cascade
  | setNull
  deriving DecidableEq, Repr

structure ForeignKey where
  columns : List String
  refTable : String
  refColumns : List String
  onDelete : FkAction
  onUpdate : FkAction
  deriving DecidableEq, Repr

structure Schema (V : Type) where
  tableName : String
  columns : List (Column V)
  checkConstraints : List String
  foreignKeys : List ForeignKey
  deriving DecidableEq

namespace Schema
variable {V : Type} (schema : Schema V)

def positions : List (Column V × ℕ) := schema.columns.zipIdx

/-- Of two columns of one name the map of names keeps the later one. -/
def columnIndex (name : String) : Option ℕ :=
  (schema.positions.reverse.find? (fun c => c.1.name = name)).map Prod.snd

def primaryKeyColumns : List ℕ := (schema.positions.filter (fun c => c.1.primaryKey)).map Prod.snd

end Schema

section
variable {V : Type} [Codec V] (values : List V)

/-- `Tuple::serialize`: the number of values in one byte, then the values. -/
def serialize : Bytes := UInt8.ofNat values.length::values.flatMap Codec.encode

def project (columns : List ℕ) : List V := columns.filterMap (values[·]?)

def keyBytes (keyColumns : List ℕ) : Bytes := (project values keyColumns).flatMap Codec.encode

def sameValues : List V → List V → Bool
  | [], [] => true
  | a::as, b::bs => Codec.same a b && sameValues as bs
  | _, _ => false

end

structure SecondaryIndex where
  name : String
  columns : List ℕ
  unique : Bool
  tree : OrderedMap Bytes Bytes
  deriving DecidableEq

namespace SecondaryIndex
variable {V : Type} [Codec V]

def keyPrefix (colValues : List V) : Bytes := colValues.flatMap Codec.okey

def composite (colValues : List V) (pk : Bytes) : Bytes := keyPrefix colValues++pk

variable (sec : SecondaryIndex)

def lookupEq (colValues : List V) : List Bytes :=
  (sec.tree.entries.filter (fun e => (keyPrefix colValues).isPrefixOf e.1)).map Prod.snd

def refuses (colValues : List V) (pk : Bytes) : Bool :=
  sec.unique && (sec.lookupEq colValues).any (· ≠ pk)

def violated : CoreError := .internal ("unique index " ++ sec.name ++ " violated")

def put (colValues : List V) (pk : Bytes) : SecondaryIndex :=
  { sec with tree := sec.tree.insert (composite colValues pk) pk }

def remove (colValues : List V) (pk : Bytes) : SecondaryIndex :=
  { sec with tree := sec.tree.erase (composite colValues pk) }

/-- The values of a row that the index is about, if the row has them all. -/
def keyValues (values : List V) : Option (List V) :=
  if (project values sec.columns).length = sec.columns.length then
    some (project values sec.columns)
  else none

end SecondaryIndex

structure TableData (V E : Type) where
  schema : Schema V
  index : OrderedMap Bytes Bytes
  versionStore : VersionStore (List V)
  checkExprs : List E
  sequences : Map String Int
  secondaryIndexes : List SecondaryIndex

namespace TableData
variable {V E : Type} [Codec V]
open VersionStore

def snapshotFor (tm : TransactionManager) (tid : TxnId) : Except QueryError Snapshot :=
  match tm.getSnapshot tid with
  | .ok snapshot => .ok snapshot
  | .error e => .error (.execution e.message)

variable (td : TableData V E) (tm : TransactionManager) (txnId : Option TxnId)

def readVisibleEntries : Except QueryError (List (Bytes × Bytes)) :=
  match txnId with
  | none => .ok td.index.entries
  | some tid =>
    if keyCount td.versionStore = 0 then .ok td.index.entries
    else
      match snapshotFor tm tid with
      | .error e => .error e
      | .ok snapshot =>
        let resolved := snapshotResolved td.versionStore tid snapshot.startTs snapshot.activeTxns
        .ok (td.index.entries.filter (fun e => e.1 ∉ resolved.map Prod.fst) ++
          resolved.filterMap (fun r => r.2.map (fun t => (r.1,serialize t))))

def readVisibleOne (key : Bytes) : Except QueryError (Option Bytes) :=
  match txnId with
  | none => .ok (td.index.lookup key)
  | some tid =>
    match snapshotFor tm tid with
    | .error e => .error e
    | .ok snapshot =>
      match lookupForRead td.versionStore key tid snapshot.startTs snapshot.activeTxns with
      | .visible t => .ok (some (serialize t))
      | .tombstone => .ok none
      | .noVersions => .ok (td.index.lookup key)

end TableData

end ByteDB
