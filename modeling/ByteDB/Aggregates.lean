import ByteDB.Grouping
import ByteDB.StoredCells

/-!
# Aggregates

Grouping and aggregation of rows, and the shortcut that aggregates the bytes
of a table's rows with one integer accumulator for each group. The arithmetic
of floating-point numbers is a parameter.
-/

set_option autoImplicit false

namespace ByteDB.Tuple
open ByteDB.Ast

structure FloatOps where
  add : BitVec 64 → BitVec 64 → BitVec 64
  div : BitVec 64 → BitVec 64 → BitVec 64
  /-- The conversion of an `i128`. -/
  ofInt : ℤ → BitVec 64

inductive AggKind where
  | count
  | countDistinct
  | sum
  | avg
  | min
  | max
  | other
  deriving DecidableEq, Repr

/-- The comparison ignores the case of ASCII letters. -/
def AggKind.fromName (name : String) : AggKind :=
  if name.toLower = "count" then .count
  else if name.toLower = "count_distinct" then .countDistinct
  else if name.toLower = "sum" then .sum
  else if name.toLower = "avg" then .avg
  else if name.toLower = "min" then .min
  else if name.toLower = "max" then .max
  else .other

section
variable {Q : Type}

def argName : List (Expr Q) → String
  | .column c::_ => c
  | _ => "*"

/-- The names of aggregate functions are ASCII, so that their lower case is. -/
def aggFuncColName (name : String) (args : List (Expr Q)) : String :=
  name.toLower ++ "(" ++ argName args ++ ")"

mutual

/-- The aggregate functions of an expression, outermost ones only. -/
def aggFunctionsIn : Expr Q → List (String × List (Expr Q))
  | .function name args =>
    if AggKind.fromName name = .other then aggFunctionsInList args else [(name,args)]
  | .binaryOp left _ right => aggFunctionsIn left++aggFunctionsIn right
  | .unaryOp _ expr => aggFunctionsIn expr
  | .isNull expr => aggFunctionsIn expr
  | .isNotNull expr => aggFunctionsIn expr
  | .cast expr _ => aggFunctionsIn expr
  | .inList expr list => aggFunctionsIn expr++aggFunctionsInList list
  | .between expr low high => aggFunctionsIn expr++aggFunctionsIn low++aggFunctionsIn high
  | .case operand whenClauses elseResult =>
    aggFunctionsInOption operand++aggFunctionsInPairs whenClauses++aggFunctionsInOption elseResult
  | _ => []

def aggFunctionsInList : List (Expr Q) → List (String × List (Expr Q))
  | [] => []
  | expr::exprs => aggFunctionsIn expr++aggFunctionsInList exprs

def aggFunctionsInOption : Option (Expr Q) → List (String × List (Expr Q))
  | none => []
  | some expr => aggFunctionsIn expr

def aggFunctionsInPairs : List (Expr Q × Expr Q) → List (String × List (Expr Q))
  | [] => []
  | (w,t)::rest => aggFunctionsIn w++aggFunctionsIn t++aggFunctionsInPairs rest

end

def firstNamed (seen : List String) : List (String × List (Expr Q)) → List (String × List (Expr Q))
  | [] => []
  | (name,args)::fs =>
    if aggFuncColName name args ∈ seen then firstNamed seen fs
    else (name,args)::firstNamed (aggFuncColName name args::seen) fs

def collectAggFunctions (exprs : List (Expr Q)) : List (String × List (Expr Q)) :=
  firstNamed [] (exprs.flatMap aggFunctionsIn)

def position (colNames : List String) (name : String) : Option ℕ :=
  colNames.findIdx? (fun c => c = name)

def aggColumn (colNames : List String) : List (Expr Q) → Option ℕ
  | .column c::_ => position colNames c
  | _ => none

def groupIndices (colNames : List String) (groupBy : List (Expr Q)) : List ℕ :=
  groupBy.filterMap (fun expr =>
    match expr with
    | .column name => position colNames name
    | _ => none)

def groupNames (groupBy : List (Expr Q)) : List String :=
  groupBy.filterMap (fun expr =>
    match expr with
    | .column name => some name
    | _ => none)

end

section
variable {J : Type} (lib : Libraries J) (floats : FloatOps)

def int128ToValue (s : ℤ) : Value J :=
  if -2^63 ≤ s ∧ s ≤ 2^63-1 then .int64 (BitVec.ofInt 64 s) else .float64 (floats.ofInt s)

/-- The order used by MIN and MAX; values without an order count as equal. -/
def Value.cmpFast : Value J → Value J → Ordering
  | .null, .null => .eq
  | .null, _ => .lt
  | _, .null => .gt
  | .int64 a, .int64 b => compareSigned a b
  | .int64 a, .float64 b => (F64.partialCmp (F64.ofInt64 a) b).getD .eq
  | .float64 a, .int64 b => (F64.partialCmp a (F64.ofInt64 b)).getD .eq
  | .float64 a, .float64 b => (F64.partialCmp a b).getD .eq
  | .text a, .text b => compareBytes (utf8 a) (utf8 b)
  | .bool a, .bool b => Ord.compare a b
  | .bytes a, .bytes b => compareBytes a b
  | .timestamp a, .timestamp b => compareSigned a b
  | .date a, .date b => compareSigned a b
  | .uuid a, .uuid b => compareBytes a.bytes b.bytes
  | .interval a, .interval b => compareSigned a b
  | .decimal a sa, .decimal b sb =>
    let (na,nb) := decimalAlign a sa b sb
    compareSigned na nb
  | _, _ => .eq

structure SumAcc where
  sum : ℤ
  isFloat : Bool
  fsum : BitVec 64
  seen : Bool

def SumAcc.add (acc : SumAcc) : Value J → SumAcc
  | .int64 n => { acc with sum := acc.sum+n.toInt, seen := true }
  | .float64 f => { acc with isFloat := true, fsum := floats.add acc.fsum f, seen := true }
  | _ => acc

def sumValues (vals : List (Value J)) : Value J :=
  let acc := vals.foldl (SumAcc.add floats) ⟨0,false,0,false⟩
  if !acc.seen then .null
  else if acc.isFloat then .float64 (floats.add acc.fsum (floats.ofInt acc.sum))
  else int128ToValue floats acc.sum

def avgStep (acc : BitVec 64 × ℕ) : Value J → BitVec 64 × ℕ
  | .int64 n => (floats.add acc.1 (F64.ofInt64 n),acc.2+1)
  | .float64 f => (floats.add acc.1 f,acc.2+1)
  | _ => acc

def quotient (sum : BitVec 64) (count : ℕ) : Value J :=
  .float64 (floats.div sum (F64.ofInt64 (BitVec.ofNat 64 count)))

def avgValues (vals : List (Value J)) : Value J :=
  let acc := vals.foldl (avgStep floats) (0,0)
  if 0 < acc.2 then quotient floats acc.1 acc.2 else .null

def better (wanted : Ordering) (best : Option (Value J)) (v : Value J) : Option (Value J) :=
  if v.isNull then best
  else
    match best with
    | none => some v
    | some current => some (if v.cmpFast current = wanted then v else current)

def extremum (wanted : Ordering) (vals : List (Value J)) : Value J :=
  (vals.foldl (better wanted) none).getD .null

/-- `compute_aggregate_fast` over the rows of a group. -/
def computeAggregate (kind : AggKind) (col : Option ℕ) (rows : List (List (Value J))) : Value J :=
  match kind, col with
  | .count, none => .int64 (BitVec.ofNat 64 rows.length)
  | .count, some i =>
    .int64 (BitVec.ofNat 64 ((rows.map (valueAt · i)).filter (fun v => !v.isNull)).length)
  | .countDistinct, none => .int64 (BitVec.ofNat 64 rows.length)
  | .countDistinct, some i =>
    .int64 (BitVec.ofNat 64
      (((rows.map (valueAt · i)).filter (fun v => !v.isNull)).map (encodeOkey lib)).dedup.length)
  | .sum, some i => sumValues floats (rows.map (valueAt · i))
  | .avg, some i => avgValues floats (rows.map (valueAt · i))
  | .min, some i => extremum .lt (rows.map (valueAt · i))
  | .max, some i => extremum .gt (rows.map (valueAt · i))
  | _, _ => .null

def okeyOf (indices : List ℕ) (row : List (Value J)) : Bytes :=
  indices.flatMap (fun i => encodeOkey lib (valueAt row i))

end

namespace Executor
variable {Q J E : Type} (x : Executor Q J) (floats : FloatOps)

def hashGroups (indices : List ℕ) (rows : List (List (Value J))) : List (List (List (Value J))) :=
  (Grouping.accumulate (okeyOf x.lib indices) (fun _ => []) (fun g row => g++[row]) rows).map
    Prod.snd

/-- The schema over the columns of the result, which HAVING is evaluated in. -/
def resultSchema (names : List String) : Schema (Value J) where
  tableName := ""
  columns := names.map (fun name =>
    { name := name, dataType := .text, nullable := true, primaryKey := false, unique := false,
      autoIncrement := false, default := none, maxLength := none })
  checkConstraints := []
  foreignKeys := []

def execHashAggregate (colNames : List String) (rows : List (List (Value J)))
    (groupBy aggregates : List (Expr Q)) (having : Option (Expr Q)) :
    List String × List (List (Value J)) :=
  let indices := groupIndices colNames groupBy
  let functions := collectAggFunctions (aggregates++having.toList)
  let groups := x.hashGroups indices rows
  let groups := if groupBy = [] ∧ groups = [] then [[]] else groups
  let names := groupNames groupBy++functions.map (fun f => aggFuncColName f.1 f.2)
  let built := groups.map (fun g =>
    indices.map (valueAt (g.head?.getD []))++functions.map (fun f =>
      computeAggregate x.lib floats (AggKind.fromName f.1) (aggColumn colNames f.2) g))
  (names,built.filter (fun row =>
    having.all (fun h => evalPredicate x.expressions h row (resultSchema names))))

structure GroupAcc (J : Type) where
  count : ℕ
  sum : ℤ
  min : BitVec 64
  max : BitVec 64
  groupVals : List (Value J)

def i64Max : BitVec 64 := BitVec.ofInt 64 (2^63-1)

def i64Min : BitVec 64 := BitVec.ofInt 64 (-2^63)

def GroupAcc.fresh (groupVals : List (Value J)) : GroupAcc J := ⟨0,0,i64Max,i64Min,groupVals⟩

def GroupAcc.add (acc : GroupAcc J) : Option (BitVec 64) → GroupAcc J
  | none => { acc with count := acc.count+1 }
  | some v =>
    { acc with
      count := acc.count+1
      sum := acc.sum+v.toInt
      min := if v.toInt < acc.min.toInt then v else acc.min
      max := if acc.max.toInt < v.toInt then v else acc.max }

def columnSlice (data : Bytes) (i : ℕ) : Option Bytes :=
  (columnOffset data i).map (fun pos =>
    (data.drop pos).take ((columnOffset data (i+1)).getD data.length-pos))

/-- The bytes of the group columns; a row that lacks one of them is passed over. -/
def rawKey (indices : List ℕ) (data : Bytes) : Option Bytes :=
  (indices.mapM (columnSlice data)).map List.flatten

def aggVal (functions : List (AggKind × Option ℕ)) (data : Bytes) : Option (BitVec 64) :=
  functions.findSome? (fun f => if f.1 = .count then none else f.2.bind (readInt64At data))

/-- The value of a function; the names compared here are ASCII, so that their
upper case says the same as their kind. -/
def GroupAcc.value (acc : GroupAcc J) : AggKind → Value J
  | .count => .int64 (BitVec.ofNat 64 acc.count)
  | .sum => int128ToValue floats acc.sum
  | .avg => if 0 < acc.count then quotient floats (floats.ofInt acc.sum) acc.count else .null
  | .min => if acc.min = i64Max then .null else .int64 acc.min
  | .max => if acc.max = i64Min then .null else .int64 acc.max
  | _ => .null

def fastGroups (td : TableData (Value J) E) (indices : List ℕ)
    (functions : List (AggKind × Option ℕ)) : List (Bytes × GroupAcc J) :=
  Grouping.accumulate Prod.snd
    (fun p => GroupAcc.fresh (indices.map (fun i => (readValueAt x.lib p.1 i).getD .null)))
    (fun acc p => acc.add (aggVal functions p.1))
    ((td.index.entries.map Prod.snd).filterMap (fun data =>
      (rawKey indices data).map (fun key => (data,key))))

def allSimple (groupBy aggregates : List (Expr Q)) : Bool :=
  aggregates.all (fun e =>
    match e with
    | .column n => n ∈ groupNames groupBy
    | .function name _ => AggKind.fromName name ≠ .other
    | _ => false)

def functionsOf (aggregates : List (Expr Q)) : List (String × List (Expr Q)) :=
  aggregates.filterMap (fun e =>
    match e with
    | .function name args => some (name,args)
    | _ => none)

def oneColumn (functions : List (AggKind × Option ℕ)) : Bool :=
  (functions.filterMap (fun f => if f.1 = .count then none else f.2)).dedup.length ≤ 1

def tryFastAggregate (td : TableData (Value J) E) (colNames : List String)
    (groupBy aggregates : List (Expr Q)) : Option (List String × List (List (Value J))) :=
  let indices := groupIndices colNames groupBy
  let functions := (functionsOf aggregates).map
    (fun f => (AggKind.fromName f.1,aggColumn colNames f.2))
  if indices.length ≠ groupBy.length then none
  else if !allSimple groupBy aggregates then none
  else if functions.any (fun f => f.1 ≠ .count ∧ f.2 = none) then none
  else if functions.any (fun f => f.1 = .countDistinct) then none
  else if !oneColumn functions then none
  else
    let names := groupNames groupBy++(functionsOf aggregates).map (fun f =>
      f.1.toLower ++ "(" ++ ((aggColumn colNames f.2).bind (fun i => colNames[i]?)).getD "*" ++ ")")
    some (names,(x.fastGroups td indices functions).map (fun g =>
      g.2.groupVals++functions.map (fun f => g.2.value floats f.1)))

end Executor

end ByteDB.Tuple
