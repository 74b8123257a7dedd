import ByteDB.Predicates
import ByteDB.TupleReads

/-!
# Scanning a table

The scan of one table with its shortcuts: a lookup and a range of primary
keys, comparisons on the bytes of a row, and the filter of large tables leaf
by leaf. The leaves are taken together in the order of their keys.
-/

set_option autoImplicit false

namespace ByteDB.Tuple
open ByteDB.Ast ByteDB.VersionStore

structure BlobFiles where
  present : Bool
  load : Bytes → Option Bytes

structure ValueRules (J : Type) where
  convert : DataType → Option ℕ → Value J → Value J
  fkIndexEligible : Value J → Bool

structure Executor (Q J : Type) where
  lib : Libraries J
  files : BlobFiles
  rules : ValueRules J
  expressions : Expressions Q J

namespace Executor
variable {Q J E : Type} (x : Executor Q J)

section
variable (data : Bytes)

def slice (range : ℕ × ℕ) : Bytes := (data.drop range.1).take (range.2-range.1)

def resolveSlice (range : ℕ × ℕ) : Bytes :=
  if data[range.1]? = some 22 ∧ range.2-range.1 = 17 then
    (x.files.load ((slice data range).drop 1)).getD (slice data range)
  else slice data range

def resolveSerialized : Bytes :=
  if !x.files.present || !hasBlobRef data then data
  else
    match columnRanges data with
    | none => data
    | some ranges => data.take 1++ranges.flatMap (x.resolveSlice data)

def decodeRow : Option (List (Value J)) := deserializeToVec x.lib (x.resolveSerialized data)

def neededHasBlob (needed : List ℕ) : Bool := hasBlobRef data &&
    match columnRanges data with
    | none => false
    | some ranges =>
      needed.any (fun i => (ranges[i]?).any (fun range => data[range.1]? == some 22))

def decodeRowCols (needed : List ℕ) : Option (List (Value J)) :=
  deserializeColumns x.lib (if neededHasBlob data needed then x.resolveSerialized data else data)
    needed

end

@[reducible] def codec : Codec (Value J) where
  null := .null
  isNull := Value.isNull
  dataType := Value.dataType
  same a b := a.compare b == some .eq
  ofInt64 n := .int64 (BitVec.ofInt 64 n)
  int64?
    | .int64 n => some n.toInt
    | _ => none
  encode := encodeValue x.lib
  okey := encodeOkey x.lib
  decodeRow := x.decodeRow
  decodeColumns := x.decodeRowCols
  readValueAt := readValueAt x.lib
  convert := x.rules.convert
  fkIndexEligible := x.rules.fkIndexEligible

section

def evalExprSimple : LiteralValue → Value J
  | .hexBlob _ => .null
  | l => literalValue l

variable (schema : Schema (Value J))

def tryFastFilter : Expr Q → Option (ℕ × BinOp × Value J)
  | .binaryOp (.column name) op (.literal l) =>
    if isComparison op then
      (schema.columnIndex name).map (fun i => (i,op,evalExprSimple l))
    else none
  | .binaryOp (.literal l) op (.column name) =>
    if isComparison op then
      (schema.columnIndex name).map (fun i => (i,flipOp op,evalExprSimple l))
    else none
  | _ => none

def opCode : BinOp → UInt8
  | .eq => 0
  | .neq => 1
  | .lt => 2
  | .gt => 3
  | .lte => 4
  | .gte => 5
  | _ => 255

def literalToKeyBytes (l : LiteralValue) : Bytes := keyBytes x.lib [literalValue l] [0]

def keyColumn : Option String :=
  match schema.primaryKeyColumns with
  | [pk] => (schema.columns[pk]?).map Column.name
  | _ => none

def tryPkLookup : Expr Q → Option Bytes
  | .binaryOp (.column name) .eq (.literal l) =>
    if keyColumn schema = some name then some (x.literalToKeyBytes l) else none
  | .binaryOp (.literal l) .eq (.column name) =>
    if keyColumn schema = some name then some (x.literalToKeyBytes l) else none
  | _ => none

def extractBound (pkName : String) : Expr Q → Option (BinOp × LiteralValue)
  | .binaryOp (.column name) op (.literal l) => if name = pkName then some (op,l) else none
  | .binaryOp (.literal l) op (.column name) =>
    if name = pkName then some (flipOp op,l) else none
  | _ => none

def tryPkRange : Expr Q → Option (Bytes × Bytes)
  | .binaryOp left .and right => do
    let pkName ← keyColumn schema
    let l ← extractBound pkName left
    let r ← extractBound pkName right
    match l.1, r.1 with
    | .gte, .lte | .gt, .lte => some (x.literalToKeyBytes l.2,x.literalToKeyBytes r.2)
    | .lte, .gte | .lte, .gt => some (x.literalToKeyBytes r.2,x.literalToKeyBytes l.2)
    | _, _ => none
  | _ => none

end

section

def parallelScanThreshold : ℕ := 16384

def upTo {α : Type} (limit : Option ℕ) (rows : List α) : List α :=
  match limit with
  | none => rows
  | some n => rows.take (max n 1)

variable (schema : Schema (Value J))

def keepRow (filter : Option (Expr Q)) (data : Bytes) : Option (List (Value J)) :=
  (x.decodeRow data).filter
    (fun row => filter.all (fun f => evalPredicate x.expressions f row schema))

/-- A row that passes the comparison of its bytes, or the filter where the
bytes do not decide. -/
def keepChecked (filter : Option (Expr Q))
    (fast : Option (ℕ × BinOp × Value J)) (data : Bytes) : Option (List (Value J)) :=
  match fast.bind (fun f => rawFilterMatches data f.1 (opCode f.2.1) f.2.2) with
  | some true => x.decodeRow data
  | some false => none
  | none => x.keepRow schema filter data

def keepRaw (fast : ℕ × BinOp × Value J) (data : Bytes) : Option (List (Value J)) :=
  match rawFilterMatches data fast.1 (opCode fast.2.1) fast.2.2 with
  | some true => x.decodeRow data
  | _ => none

variable (td : TableData (Value J) E)

def scanCommitted (filter : Option (Expr Q)) (limit : Option ℕ) : List (List (Value J)) :=
  match filter.bind (x.tryPkLookup td.schema) with
  | some key => ((td.index.lookup key).bind x.decodeRow).toList
  | none =>
    let fast := filter.bind (tryFastFilter td.schema)
    let rows := td.index.entries.map Prod.snd
    if limit = none ∧ filter ≠ none ∧ parallelScanThreshold ≤ td.index.entries.length then
      rows.filterMap (x.keepChecked td.schema filter fast)
    else
      match fast with
      | some fast => upTo limit (rows.filterMap (x.keepRaw fast))
      | none => upTo limit (rows.filterMap (x.keepRow td.schema filter))

/-- The keys of a range, in the index and outside it, as a transaction sees them. -/
def scanRange (filter : Option (Expr Q)) (limit : Option ℕ)
    (resolved : List (Bytes × Option (List (Value J)))) (lo hi : Bytes) : List (List (Value J)) :=
  let base := (td.index.entries.filter (fun e => lo ≤ e.1 ∧ e.1 ≤ hi)).filterMap (fun e =>
    match resolved.lookup e.1 with
    | none => x.keepRow td.schema filter e.2
    | some none => none
    | some (some t) => x.keepRow td.schema filter (serialize x.lib t))
  let others := resolved.filterMap (fun r =>
    if lo ≤ r.1 ∧ r.1 ≤ hi ∧ td.index.lookup r.1 = none then
      r.2.bind (fun t => x.keepRow td.schema filter (serialize x.lib t))
    else none)
  upTo limit base++others

def scanVisible (tm : TransactionManager) (filter : Option (Expr Q))
    (tid : TxnId) (limit : Option ℕ) : Except QueryError (List (List (Value J))) :=
  letI := x.codec
  match filter.bind (x.tryPkLookup td.schema) with
  | some key =>
    (td.readVisibleOne tm (some tid) key).map (fun data => (data.bind x.decodeRow).toList)
  | none =>
    match filter.bind (x.tryPkRange td.schema) with
    | some (lo,hi) =>
      (TableData.snapshotFor tm tid).map (fun snapshot =>
        x.scanRange td filter limit
          (snapshotResolved td.versionStore tid snapshot.startTs snapshot.activeTxns) lo hi)
    | none =>
      (td.readVisibleEntries tm (some tid)).map (fun entries =>
        upTo limit ((entries.map Prod.snd).filterMap
          (x.keepChecked td.schema filter (filter.bind (tryFastFilter td.schema)))))

def execSeqScan (tm : TransactionManager) (filter : Option (Expr Q))
    (txnId : Option TxnId) (limit : Option ℕ) : Except QueryError (List (List (Value J))) :=
  match txnId with
  | some tid => x.scanVisible td tm filter tid limit
  | none => .ok (x.scanCommitted td filter limit)

end

end Executor

/-! A stored row has each value in place or, where it was large, the name of the
file that holds its encoding. Without compressed values such a row is decoded to its
values, and a comparison of its bytes sees the value in place. -/

open ByteDB.LittleEndian List Executor

inductive Cell (J : Type) where
  | inline (v : Value J)
  | spilled (file : Uuid) (v : Value J)
  deriving DecidableEq

namespace Cell
variable {Q J : Type}

def value : Cell J → Value J
  | .inline v => v
  | .spilled _ v => v

def isSpilled : Cell J → Bool
  | .inline _ => false
  | .spilled _ _ => true

def bytes (lib : Libraries J) : Cell J → Bytes
  | .inline v => encodeValue lib v
  | .spilled file _ => 22::file.bytes

def spillable : Value J → Bool
  | .text _ | .bytes _ | .json _ => true
  | _ => false

structure Sound (x : Executor Q J) (c : Cell J) : Prop where
  short : Short x.lib c.value
  plain : Plain x.lib c.value
  file : ∀ file v, c = .spilled file v → spillable v = true ∧ x.files.present = true ∧
    x.files.load file.bytes = some (encodeValue x.lib v)

/-- The order in which a comparison of bytes finds a value and a literal. -/
def rawOrdering : Cell J → Value J → Option Ordering
  | .inline (.int64 n), .int64 l => some (compareSigned n l)
  | .inline (.timestamp t), .int64 l => some (compareSigned t l)
  | .inline (.float64 f), .float64 l => F64.partialCmp f l
  | .inline (.int64 n), .float64 l => F64.partialCmp (F64.ofInt64 n) l
  | .inline (.text s), .text l => some (Value.compareBytes (utf8 s) (utf8 l))
  | _, _ => none

end Cell

section
variable {J : Type} {lib : Libraries J}

def rowBytes (lib : Libraries J) (cells : List (Cell J)) : Bytes :=
  UInt8.ofNat cells.length::cells.flatMap (Cell.bytes lib)

lemma rowBytes_parts (cells : List (Cell J)) :
    (rowBytes lib cells).drop 1 = (cells.map (Cell.bytes lib)).flatten :=
  flatMap_def ..

lemma rowBytes_inline {cells : List (Cell J)} (h : cells.any Cell.isSpilled = false) :
    rowBytes lib cells = serialize lib (cells.map Cell.value) := by
  have hbytes : cells.flatMap (Cell.bytes lib) =
      (cells.map Cell.value).flatMap (encodeValue lib) := by
    induction cells with
    | nil => rfl
    | cons c cs ih =>
      rw [any_cons, Bool.or_eq_false_iff] at h
      rw [flatMap_cons, map_cons, flatMap_cons, ih h.2]
      cases c with
      | inline v => rfl
      | spilled file v => cases h.1
  rw [rowBytes, serialize, hbytes, length_map]

end

section
variable {Q J : Type} {x : Executor Q J} {data : Bytes} {c : Cell J}

lemma Cell.Sound.skips (h : c.Sound x) : Skips (c.bytes x.lib) := by
  cases c with
  | inline v => exact skips_encode h.short h.plain
  | spilled file v =>
    intro rest
    simp [Cell.bytes, skipFront, file.size]

variable {cells : List (Cell J)}

lemma skips_cells (h : ∀ c ∈ cells, c.Sound x) : ∀ p ∈ cells.map (Cell.bytes x.lib), Skips p := by
  intro p hp
  obtain ⟨c,hc,rfl⟩ := mem_map.mp hp
  exact (h c hc).skips

lemma Cell.Sound.head (h : c.Sound x) (rest : Bytes) :
    ∃ tag, (c.bytes x.lib++rest).head? = some tag ∧ (tag.toNat = 22 ↔ c.isSpilled = true) := by
  cases c with
  | inline v =>
    have hle := typeTag_le v
    refine ⟨typeTag v,?_,?_⟩
    · rw [Cell.bytes, encode_plain (show Plain x.lib v from h.plain)]
      rfl
    constructor
    · intro h22
      omega
    · nofun
  | spilled file v => exact ⟨22,rfl,fun _ => rfl,fun _ => rfl⟩

lemma hasBlobRefFrom_cells (cells : List (Cell J)) (pos : ℕ) (h : ∀ c ∈ cells, c.Sound x)
    (hat : data.drop pos = (cells.map (Cell.bytes x.lib)).flatten) :
    hasBlobRefFrom data cells.length pos = cells.any Cell.isSpilled := by
  induction cells generalizing pos with
  | nil => rfl
  | cons c cs ih =>
    rw [map_cons, flatten_cons] at hat
    rw [forall_mem_cons] at h
    obtain ⟨tag,htag,hiff⟩ := h.1.head (cs.map (Cell.bytes x.lib)).flatten
    rw [length_cons, hasBlobRefFrom, hat, htag, skipValue_part h.1.skips hat, any_cons]
    dsimp only
    by_cases hc : c.isSpilled = true
    · rw [if_pos (hiff.mpr hc), hc, Bool.true_or]
    · rw [if_neg (fun h22 => hc (hiff.mp h22)), ih _ h.2 (drop_part hat),
        Bool.eq_false_iff.mpr hc, Bool.false_or]

lemma resolveSlice_cell {pos : ℕ} {rest : Bytes} (h : c.Sound x)
    (hat : data.drop pos = c.bytes x.lib++rest) :
    x.resolveSlice data (pos,pos+(c.bytes x.lib).length) = encodeValue x.lib c.value := by
  have hslice : slice data (pos,pos+(c.bytes x.lib).length) = c.bytes x.lib := by
    rw [slice, Nat.add_sub_cancel_left, hat, take_left]
  have hget : data[pos]? = (c.bytes x.lib++rest).head? := by
    rw [← hat, head?_drop]
  obtain ⟨tag,htag,hiff⟩ := h.head rest
  rw [resolveSlice, hslice, hget, htag, Nat.add_sub_cancel_left]
  cases c with
  | inline v =>
    have hne : ¬ (some tag = some 22 ∧ ((Cell.inline v).bytes x.lib).length = 17) := by
      rintro ⟨h22,-⟩
      cases h22
      exact absurd (hiff.mp rfl) (by simp [Cell.isSpilled])
    rw [if_neg hne]
    rfl
  | spilled file v =>
    obtain ⟨-,-,hload⟩ := h.file file v rfl
    have h22 : some tag = some 22 ∧ ((Cell.spilled file v).bytes x.lib).length = 17 := by
      cases htag
      exact ⟨rfl,by simp [Cell.bytes, file.size]⟩
    rw [if_pos h22, Cell.bytes, drop_one, tail_cons, hload]
    rfl

lemma resolve_parts (cells : List (Cell J)) (pos : ℕ) (h : ∀ c ∈ cells, c.Sound x)
    (hat : data.drop pos = (cells.map (Cell.bytes x.lib)).flatten) :
    (partRanges pos (cells.map (Cell.bytes x.lib))).flatMap (x.resolveSlice data) =
      (cells.map Cell.value).flatMap (encodeValue x.lib) := by
  induction cells generalizing pos with
  | nil => rfl
  | cons c cs ih =>
    rw [map_cons, flatten_cons] at hat
    rw [forall_mem_cons] at h
    rw [map_cons, partRanges, flatMap_cons, resolveSlice_cell h.1 hat,
      ih _ h.2 (drop_part hat), map_cons, flatMap_cons]

lemma rowBytes_count (hcount : cells.length ≤ 255) :
    (UInt8.ofNat cells.length).toNat = cells.length := by
  rw [UInt8.toNat_ofNat']
  omega

lemma resolveSerialized_cells (hcount : cells.length ≤ 255) (h : ∀ c ∈ cells, c.Sound x) :
    x.resolveSerialized (rowBytes x.lib cells) = serialize x.lib (cells.map Cell.value) := by
  have hblob : hasBlobRef (rowBytes x.lib cells) = cells.any Cell.isSpilled := by
    rw [← hasBlobRefFrom_cells cells 1 h (rowBytes_parts cells), rowBytes, hasBlobRef,
      rowBytes_count hcount]
  rw [resolveSerialized, hblob]
  by_cases hany : cells.any Cell.isSpilled = true
  · obtain ⟨c,hc,hspilled⟩ := any_eq_true.mp hany
    have hpresent : x.files.present = true := by
      cases c with
      | inline v => cases hspilled
      | spilled file v => exact ((h _ hc).file file v rfl).2.1
    have hranges : columnRanges (rowBytes x.lib cells) =
        some (partRanges 1 (cells.map (Cell.bytes x.lib))) := by
      rw [← rangesFrom_parts _ 1 (skips_cells h) (rowBytes_parts cells), length_map, rowBytes,
        columnRanges, rowBytes_count hcount]
    rw [hpresent, hany, if_neg (by decide), hranges]
    dsimp only
    rw [resolve_parts cells 1 h (rowBytes_parts cells), serialize, length_map]
    rfl
  · rw [Bool.not_eq_true] at hany
    rw [hany, if_pos (by simp), rowBytes_inline hany]

lemma decodeRow_cells (hlib : x.lib.Faithful)
    (hcount : cells.length ≤ 255) (h : ∀ c ∈ cells, c.Sound x) :
    x.decodeRow (rowBytes x.lib cells) = some (cells.map Cell.value) := by
  rw [decodeRow, resolveSerialized_cells hcount h]
  refine deserialize_serialize (by rwa [length_map]) ?_
  intro v hv
  obtain ⟨c,hc,rfl⟩ := mem_map.mp hv
  exact decodes_plain hlib (h c hc).short (h c hc).plain

end

section
variable {Q J : Type} {x : Executor Q J}

lemma columnOffset_cells {α : Type} {cells : List (Cell J)} (hcount : cells.length ≤ 255)
    (h : ∀ c ∈ cells, c.Sound x) (front : Bytes → Option α) (spec : Cell J → Option α)
    (hfront : ∀ c ∈ cells, ∀ rest, front (c.bytes x.lib++rest) = spec c) (i : ℕ) :
    (columnOffset (rowBytes x.lib cells) i).bind
        (fun pos => front ((rowBytes x.lib cells).drop pos)) = (cells[i]?).bind spec := by
  have hoffset : columnOffset (rowBytes x.lib cells) i =
      if cells.length ≤ i then none else skipValues (rowBytes x.lib cells) i 1 := by
    rw [rowBytes, columnOffset, rowBytes_count hcount]
  rw [hoffset]
  split
  · rename_i hle
    rw [getElem?_eq_none hle]
    rfl
  rename_i hlt
  have hi : i < cells.length := not_le.mp hlt
  obtain ⟨stop,hstop,hat⟩ := skipValues_parts _ 1 i (skips_cells h) (rowBytes_parts cells)
    (by rwa [length_map])
  rw [← map_drop, drop_eq_getElem_cons hi, map_cons, flatten_cons] at hat
  rw [hstop, Option.bind_some, hat, hfront _ (getElem_mem hi), getElem?_eq_getElem hi,
    Option.bind_some]

lemma read_word {n : ℕ} (b : BitVec n) (k : ℕ) (hk : 2^n = 256^k) :
    BitVec.ofNat n (readLe (le k b.toNat)) = b := by
  rw [read_le k _ (word_lt b hk), word_ofNat]

variable {c : Cell J}

lemma int64Front_cell (h : c.Sound x) (l : BitVec 64) (rest : Bytes) :
    int64Front l (c.bytes x.lib++rest) = c.rawOrdering (.int64 l) := by
  cases c with
  | spilled file v => rfl
  | inline v =>
    cases v with
    | int64 n =>
      simp [Cell.bytes, encodeValue, int64Front, Cell.rawOrdering, read_word n 8 (by norm_num)]
    | timestamp t =>
      simp [Cell.bytes, encodeValue, int64Front, Cell.rawOrdering, read_word t 8 (by norm_num)]
    | bytes b =>
      have hnone : compress x.lib b = none := h.plain
      simp [Cell.bytes, encodeValue, hnone, int64Front, Cell.rawOrdering]
    | _ => rfl

lemma float64Front_cell (h : c.Sound x) (l : BitVec 64) (rest : Bytes) :
    float64Front l (c.bytes x.lib++rest) = c.rawOrdering (.float64 l) := by
  cases c with
  | spilled file v => rfl
  | inline v =>
    cases v with
    | int64 n =>
      simp [Cell.bytes, encodeValue, float64Front, Cell.rawOrdering, read_word n 8 (by norm_num)]
    | float64 f =>
      simp [Cell.bytes, encodeValue, float64Front, Cell.rawOrdering, read_word f 8 (by norm_num)]
    | bytes b =>
      have hnone : compress x.lib b = none := h.plain
      simp [Cell.bytes, encodeValue, hnone, float64Front, Cell.rawOrdering]
    | _ => rfl

lemma textFront_cell (h : c.Sound x) (l : String) (rest : Bytes) :
    textFront l (c.bytes x.lib++rest) = c.rawOrdering (.text l) := by
  cases c with
  | spilled file v => rfl
  | inline v =>
    cases v with
    | text s =>
      have hshort : (utf8 s).length < 256^4 := h.short
      rw [Cell.bytes, encodeValue, cons_append, append_assoc, textFront]
      simp only [read_take 4 _ _ hshort, drop_le, take_left]
      rw [if_pos (by decide), if_neg (by simp), if_neg (by simp), fromUtf8_utf8]
      rfl
    | bytes b =>
      have hnone : compress x.lib b = none := h.plain
      simp [Cell.bytes, encodeValue, hnone, textFront, Cell.rawOrdering]
    | _ => rfl

lemma rawFilterMatches_cells {cells : List (Cell J)} (hcount : cells.length ≤ 255)
    (h : ∀ c ∈ cells, c.Sound x) (i : ℕ) (op : UInt8) (l : Value J) :
    rawFilterMatches (rowBytes x.lib cells) i op l =
      ((cells[i]?).bind (fun c => c.rawOrdering l)).map (codeHolds op) := by
  refine congrArg (Option.map (codeHolds op)) ?_
  cases l with
  | int64 l =>
    exact columnOffset_cells hcount h _ _ (fun c hc rest => int64Front_cell (h c hc) l rest) i
  | float64 l =>
    exact columnOffset_cells hcount h _ _ (fun c hc rest => float64Front_cell (h c hc) l rest) i
  | text l =>
    exact columnOffset_cells hcount h _ _ (fun c hc rest => textFront_cell (h c hc) l rest) i
  | _ =>
    symm
    rw [Option.bind_eq_none_iff]
    intro c _
    rcases c with (_ | _ | _ | _ | _ | _ | _ | _ | _ | _ | _ | _) | _ <;> rfl

end

end ByteDB.Tuple
