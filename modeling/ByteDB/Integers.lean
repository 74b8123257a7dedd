import ByteDB.Steady

/-!
# Rows of integers

The null and the 64-bit integers among the values of the source, with their
encodings, and conditions and assignments over them. Statements on such rows
can be run.
-/

set_option autoImplicit false

namespace ByteDB.Integers
open ByteDB.Assoc List

inductive Value where
  | null
  | int64 (n : Int64)
  deriving DecidableEq, Repr

namespace Value

def bits (n : Int64) : ℕ := n.toUInt64.toNat

def ofBits (n : ℕ) : Int64 := (UInt64.ofNat n).toInt64

def encode : Value → Bytes
  | .null => [0]
  | .int64 n => 2::LittleEndian.le 8 (bits n)

/-- The sign bit is flipped, so that the bytes are in the order of the integers. -/
def okey : Value → Bytes
  | .null => [0]
  | .int64 n => 1::Engine.bigEndian (bits (n+(2^63 : Int64)))

def decode : Bytes → Option (Value × Bytes)
  | 0::rest => some (.null,rest)
  | 2::rest =>
    if rest.length < 8 then none
    else some (.int64 (ofBits (LittleEndian.readLe (rest.take 8))),rest.drop 8)
  | _ => none

def decodeMany : ℕ → Bytes → Option (List Value)
  | 0, _ => some []
  | n+1, data => do
    let (v,rest) ← decode data
    let vs ← decodeMany n rest
    some (v::vs)

def decodeRow : Bytes → Option (List Value)
  | [] => none
  | count::data => decodeMany count.toNat data

def same : Value → Value → Bool
  | .null, .null => true
  | .int64 a, .int64 b => a = b
  | _, _ => false

instance : Codec Value where
  null := .null
  isNull v := v = .null
  dataType v := match v with
    | .int64 _ => some .int64
    | .null => none
  same := same
  ofInt64 n := .int64 (Int64.ofInt n)
  int64? v := match v with
    | .int64 n => some n.toInt
    | .null => none
  encode := encode
  okey := okey
  decodeRow := decodeRow
  decodeColumns data columns := (decodeRow data).map (fun row =>
    row.zipIdx.map (fun c => if c.2 ∈ columns then c.1 else .null))
  readValueAt data i := (decodeRow data).bind (·[i]?)
  convert _ _ v := v
  fkIndexEligible _ := true

lemma ofBits_bits (n : Int64) : ofBits (bits n) = n := by
  rw [ofBits, bits, UInt64.ofNat_toNat]
  rfl

lemma decode_encode (v : Value) (rest : Bytes) : decode (encode v++rest) = some (v,rest) := by
  cases v with
  | null => rfl
  | int64 n =>
    have hbits : bits n < 256^8 := n.toUInt64.toNat_lt
    have hlen : ¬ (LittleEndian.le 8 (bits n)++rest).length < 8 := by simp
    rw [encode, cons_append, decode, if_neg hlen, LittleEndian.read_take 8 _ rest hbits,
      LittleEndian.drop_le, ofBits_bits]

lemma decodeMany_encode (row : List Value) (rest : Bytes) :
    decodeMany row.length (row.flatMap encode++rest) = some row := by
  induction row with
  | nil => rfl
  | cons v row ih =>
    rw [length_cons, decodeMany, flatMap_cons, append_assoc, decode_encode]
    simp [ih]

lemma flatMap_encode_inj {vs ws : List Value} (h : vs.flatMap encode = ws.flatMap encode) :
    vs = ws := by
  have hsome : ∀ (v : Value) vs, decode ((v::vs).flatMap encode) = some (v,vs.flatMap encode) :=
    fun v vs => decode_encode v _
  induction vs generalizing ws with
  | nil =>
    cases ws with
    | nil => rfl
    | cons w ws =>
      have hw := hsome w ws
      rw [← h] at hw
      cases hw
  | cons v vs ih =>
    have hv := hsome v vs
    cases ws with
    | nil =>
      rw [h] at hv
      cases hv
    | cons w ws =>
      rw [h, hsome w ws] at hv
      obtain ⟨rfl,hrest⟩ := Prod.mk.inj (Option.some.inj hv)
      rw [ih hrest.symm]

lemma decodeRow_serialize (row : List Value) (h : row.length < 256) :
    decodeRow (serialize row) = some row := by
  have hcount : (UInt8.ofNat row.length).toNat = row.length := UInt8.toNat_ofNat_of_lt h
  have hmany := decodeMany_encode row []
  rw [append_nil] at hmany
  rw [serialize, decodeRow, hcount]
  exact hmany

lemma decodeMany_length {n : ℕ} {data : Bytes} {row : List Value}
    (h : decodeMany n data = some row) : row.length = n := by
  induction n generalizing data row with
  | zero =>
    cases h
    rfl
  | succ n ih =>
    rw [decodeMany] at h
    obtain ⟨⟨v,rest⟩,-,h⟩ := Option.bind_eq_some_iff.mp h
    obtain ⟨vs,hvs,h⟩ := Option.bind_eq_some_iff.mp h
    cases h
    rw [length_cons, ih hvs]

lemma decodeRow_length {data : Bytes} {row : List Value} (h : decodeRow data = some row) :
    row.length < 256 := by
  cases data with
  | nil => cases h
  | cons count data =>
    rw [decodeMany_length h]
    exact count.toNat_lt

end Value

inductive Expr where
  | literal (v : Value)
  | column (name : String)
  | eq (l r : Expr)
  | lt (l r : Expr)

namespace Expr
open Value

def value (row : List Value) (schema : Schema Value) : Expr → Value
  | .literal v => v
  | .column name => ((schema.columnIndex name).bind (row[·]?)).getD .null
  | _ => .null

/-- A comparison with a null has no truth value. -/
def tri (row : List Value) (schema : Schema Value) : Expr → Option Bool
  | .eq l r =>
    match value row schema l, value row schema r with
    | .int64 a, .int64 b => some (a = b)
    | _, _ => none
  | .lt l r =>
    match value row schema l, value row schema r with
    | .int64 a, .int64 b => some (a < b)
    | _, _ => none
  | _ => none

def columnEq : Expr → Option (String × Value)
  | .eq (.column name) (.literal v) => some (name,v)
  | _ => none

/-- Conditions over integers leave no traces in the engine. -/
def evaluator : Evaluator Value Expr Empty where
  tri e _ x row schema := (tri row schema x,e)
  value e _ x row schema := (value row schema x,e)
  insertValue e _ x schema _ := (value [] schema x,e)
  select _ _ q := q.elim
  columns _ q := q.elim
  columnEq := columnEq
  simple x := match x with
    | .literal v => v
    | _ => .null
  toSql _ := ""
  parse _ := none
  spill _ _ data := data

end Expr

lemma integers_quiet (names : String → Prop)
    (R : Engine Value Expr → Engine Value Expr → Prop)
    (hR : ∀ e, Engine.Within names e → R e e) : Engine.Quiet Expr.evaluator names R where
  tri e _ _ _ _ h := hR e h
  value e _ _ _ _ h := hR e h
  insertValue e _ _ _ _ h := hR e h
  select _ _ q := q.elim

variable (name : String)

def column (primaryKey : Bool) : Column Value :=
  { name := name, dataType := .int64, nullable := !primaryKey, primaryKey := primaryKey
    unique := false, autoIncrement := false, default := none, maxLength := none }

def schema (foreignKeys : List ForeignKey) : Schema Value :=
  { tableName := name, columns := [column "id" true, column "v" false], checkConstraints := []
    foreignKeys := foreignKeys }

def key (id : Int64) : Bytes := Value.encode (.int64 id)

def row (id v : Int64) : List Value := [.int64 id, .int64 v]

def index (rows : List (Int64 × Int64)) : OrderedMap Bytes Bytes :=
  rows.foldl (fun m r => m.insert (key r.1) (serialize (row r.1 r.2))) .empty

def table (schema : Schema Value) (checkExprs : List Expr) (rows : List (Int64 × Int64)) :
    TableData Value Expr :=
  { schema := schema, index := index rows, versionStore := .new, checkExprs := checkExprs
    sequences := ∅, secondaryIndexes := [] }

def engine (tables : Map String (TableData Value Expr)) (disk : Option (DiskStore Value)) :
    Engine Value Expr :=
  { tm := .new, tables := tables, dbTables := ∅, databases := ["default"], currentDb := "default"
    database := tables.keys, wal := none, disk := disk, undo := ∅, rowids := ∅, pending := []
    txnDeltas := ∅, pendingSubqueryError := none }

def insertInto (rows : List (Int64 × Int64)) : InsertStmt Expr Empty :=
  { table := name, columns := none, onConflict := none, returning := none
    source := .values (rows.map (fun r => [.literal (.int64 r.1), .literal (.int64 r.2)])) }

def equals (n : Int64) : Expr := .eq (.column name) (.literal (.int64 n))

def updateOf (n : Int64) (condition : Expr) : UpdateStmt Expr :=
  { table := name, assignments := [("v",.literal (.int64 n))], whereClause := some condition
    returning := none }

def deleteFrom (condition : Expr) : DeleteStmt Expr :=
  { table := name, whereClause := some condition, returning := none }

end ByteDB.Integers
