import ByteDB.Value

/-!
# Rows as bytes

A row is the number of its values in one byte and the encodings of the values
one after another. Values are decoded or skipped from a position on; where a
value ends is computed separately by the two. The compression libraries and
the text of JSON values are parameters.
-/

set_option autoImplicit false

namespace ByteDB.Tuple
open ByteDB.LittleEndian

structure Libraries (J : Type) where
  jsonText : J → Bytes
  jsonParse : Bytes → Option J
  lz4Compress : Bytes → Bytes
  lz4Decompress : Bytes → ℕ → Option Bytes
  zstdCompress : Bytes → Option Bytes
  zstdDecompress : Bytes → Option Bytes

structure Libraries.Faithful {J : Type} (lib : Libraries J) : Prop where
  json : ∀ j, lib.jsonParse (lib.jsonText j) = some j
  lz4 : ∀ b, lib.lz4Decompress (lib.lz4Compress b) b.length = some b
  zstd : ∀ b c, lib.zstdCompress b = some c → lib.zstdDecompress c = some b

variable {J : Type} (lib : Libraries J)

def minCompressSize : ℕ := 1024

def block (tag : UInt8) (size : ℕ) (buf : Bytes) : Bytes :=
  tag::(le 8 size++(le 4 buf.length++buf))

def compress (data : Bytes) : Option Bytes :=
  if data.length < minCompressSize then none
  else if (lib.lz4Compress data).length < data.length then
    some (block 12 data.length (lib.lz4Compress data))
  else
    match lib.zstdCompress data with
    | none => none
    | some buf => if buf.length < data.length then some (block 13 data.length buf) else none

def decompress (data : Bytes) : Option Bytes :=
  if data.length < 13 then none
  else
    let origSize := readLe ((data.drop 1).take 8)
    let compSize := readLe ((data.drop 9).take 4)
    if data.length < 13+compSize then none
    else
      let compressed := (data.drop 13).take compSize
      let out := match data.head? with
        | some 12 => lib.lz4Decompress compressed origSize
        | some 13 => lib.zstdDecompress compressed
        | _ => none
      out.filter (fun b => b.length = origSize)

def encodeValue : Value J → Bytes
  | .null => [0]
  | .bool b => [1, if b then 1 else 0]
  | .int64 n => 2::le 8 n.toNat
  | .float64 f => 3::le 8 f.toNat
  | .text s => 4::(le 4 (utf8 s).length++utf8 s)
  | .bytes b =>
    match compress lib b with
    | some compressed => compressed
    | none => 5::(le 4 b.length++b)
  | .json j => 6::(le 4 (lib.jsonText j).length++lib.jsonText j)
  | .timestamp t => 7::le 8 t.toNat
  | .date d => 8::le 4 d.toNat
  | .decimal m s => 9::(le 16 m.toNat++[s])
  | .uuid u => 10::u.bytes
  | .interval us => 11::le 8 us.toNat

def serialize (values : List (Value J)) : Bytes :=
  UInt8.ofNat values.length::values.flatMap (encodeValue lib)

def keyBytes (values : List (Value J)) (keyColumns : List ℕ) : Bytes :=
  keyColumns.flatMap (fun i => (values[i]?).elim [] (encodeValue lib))

def be (width n : ℕ) : Bytes := (le width n).reverse

/-- Bytes with an end mark that sorts below any continuation. -/
def encodeVar : Bytes → Bytes
  | [] => [0, 0]
  | b::bs => if b = 0 then 0::0xFF::encodeVar bs else b::encodeVar bs

/-- `encode_body`: the scale of a decimal is left out. -/
def encodeBody : Value J → Bytes
  | .null => []
  | .bool b => [if b then 1 else 0]
  | .int64 n => be 8 (n ^^^ 1#64 <<< 63).toNat
  | .timestamp n => be 8 (n ^^^ 1#64 <<< 63).toNat
  | .interval n => be 8 (n ^^^ 1#64 <<< 63).toNat
  | .date d => be 4 (d ^^^ 1#32 <<< 31).toNat
  | .float64 f => be 8 (if f.msb then ~~~f else f ||| 1#64 <<< 63).toNat
  | .decimal m _ => be 16 (m ^^^ 1#128 <<< 127).toNat
  | .uuid u => u.bytes
  | .text s => encodeVar (utf8 s)
  | .json j => encodeVar (lib.jsonText j)
  | .bytes b => encodeVar b

def encodeOkey (v : Value J) : Bytes := if v.isNull then [0] else 1::encodeBody lib v

def okeys (vs : List (Value J)) : Bytes := vs.flatMap (encodeOkey lib)

section

def readWord (n : ℕ) (rest : Bytes) (f : ℕ → Value J) : Option (Value J × ℕ) :=
  if rest.length < n then none else some (f (readLe (rest.take n)),1+n)

def readVar (rest : Bytes) (f : Bytes → Option (Value J)) : Option (Value J × ℕ) :=
  if rest.length < 4 then none
  else
    let len := readLe (rest.take 4)
    let body := rest.drop 4
    if body.length < len then none else (f (body.take len)).map (fun v => (v,5+len))

/-- The value at the front of the bytes, and how many of them it takes. A text
is not checked to be UTF-8 in the source; here one that is not has no value. -/
def decodeFront : Bytes → Option (Value J × ℕ)
  | [] => none
  | tag::rest =>
    match tag.toNat with
    | 0 => some (.null,1)
    | 1 =>
      match rest with
      | [] => none
      | b::_ => some (.bool (b != 0),2)
    | 2 => readWord 8 rest (fun n => .int64 (BitVec.ofNat 64 n))
    | 3 => readWord 8 rest (fun n => .float64 (BitVec.ofNat 64 n))
    | 4 => readVar rest (fun b => (fromUtf8 b).map .text)
    | 5 => readVar rest (fun b => some (.bytes b))
    | 6 => readVar rest (fun b => (lib.jsonParse b).map .json)
    | 7 => readWord 8 rest (fun n => .timestamp (BitVec.ofNat 64 n))
    | 8 => readWord 4 rest (fun n => .date (BitVec.ofNat 32 n))
    | 9 =>
      if rest.length < 17 then none
      else some (.decimal (BitVec.ofNat 128 (readLe (rest.take 16))) ((rest[16]?).getD 0),18)
    | 10 =>
      if h : rest.length < 16 then none
      else some (.uuid ⟨rest.take 16,List.length_take_of_le (not_lt.mp h)⟩,17)
    | 11 => readWord 8 rest (fun n => .interval (BitVec.ofNat 64 n))
    | 12 | 13 =>
      if rest.length < 13 then none
      else
        let compSize := readLe ((rest.drop 8).take 4)
        if (tag::rest).length < 13+compSize then none
        else (decompress lib ((tag::rest).take (13+compSize))).map (fun b => (.bytes b,13+compSize))
    | _ => none

variable (data : Bytes)

def decodeValue (pos : ℕ) : Option (Value J × ℕ) :=
  (decodeFront lib (data.drop pos)).map (fun r => (r.1,pos+r.2))

def skipFront : Bytes → Option ℕ
  | [] => none
  | tag::rest =>
    match tag.toNat with
    | 0 => some 1
    | 1 => some 2
    | 2 | 3 | 7 | 11 => some 9
    | 8 => some 5
    | 10 => some 17
    | 9 => some 18
    | 12 | 13 =>
      if rest.length < 12 then none else some (14+readLe ((rest.drop 8).take 4))
    | 22 => if rest.length < 16 then none else some 17
    | 4 | 5 | 6 => if rest.length < 4 then none else some (5+readLe (rest.take 4))
    | _ => none

def skipValue (pos : ℕ) : Option ℕ := (skipFront (data.drop pos)).map (pos+·)

def decodeValues (data : Bytes) : ℕ → ℕ → Option (List (Value J))
  | 0, _ => some []
  | count+1, pos => do
    let (v,pos) ← decodeValue lib data pos
    let vs ← decodeValues data count pos
    some (v::vs)

def deserializeToVec : Bytes → Option (List (Value J))
  | [] => none
  | count::rest => decodeValues lib (count::rest) count.toNat 1

/-- The columns from `col` on, of which those that are needed are decoded. -/
def decodeColumns (data : Bytes) : ℕ → ℕ → ℕ → List ℕ → Option (List (Value J))
  | 0, _, _, _ => some []
  | count+1, col, pos, needed =>
    if needed.head? = some col then do
      let (v,pos) ← decodeValue lib data pos
      let vs ← decodeColumns data count (col+1) pos needed.tail
      some (v::vs)
    else do
      let pos ← skipValue data pos
      let vs ← decodeColumns data count (col+1) pos needed
      some (.null::vs)

def deserializeColumns : Bytes → List ℕ → Option (List (Value J))
  | [], _ => none
  | count::rest, needed => decodeColumns lib (count::rest) count.toNat 0 1 needed

def rangesFrom (data : Bytes) : ℕ → ℕ → Option (List (ℕ × ℕ))
  | 0, _ => some []
  | count+1, pos => do
    let stop ← skipValue data pos
    let rs ← rangesFrom data count stop
    some ((pos,stop)::rs)

def columnRanges : Bytes → Option (List (ℕ × ℕ))
  | [] => none
  | count::rest => rangesFrom (count::rest) count.toNat 1

def skipValues (data : Bytes) : ℕ → ℕ → Option ℕ
  | 0, pos => some pos
  | n+1, pos => do
    let pos ← skipValue data pos
    skipValues data n pos

def columnOffset (col : ℕ) : Option ℕ :=
  match data with
  | [] => none
  | count::_ => if count.toNat ≤ col then none else skipValues data col 1

def readValueAt (col : ℕ) : Option (Value J) := do
  let pos ← columnOffset data col
  let (v,_) ← decodeValue lib data pos
  some v

def numberFront : Bytes → Option (BitVec 64)
  | [] => none
  | tag::rest =>
    if tag.toNat = 2 ∨ tag.toNat = 7 then
      if rest.length < 8 then none else some (BitVec.ofNat 64 (readLe (rest.take 8)))
    else none

/-- `read_int64_at`, which reads timestamps too. -/
def readInt64At (col : ℕ) : Option (BitVec 64) := do
  let pos ← columnOffset data col
  numberFront (data.drop pos)

def hasBlobRefFrom (data : Bytes) : ℕ → ℕ → Bool
  | 0, _ => false
  | count+1, pos =>
    match (data.drop pos).head? with
    | none => false
    | some tag =>
      if tag.toNat = 22 then true
      else
        match skipValue data pos with
        | some pos => hasBlobRefFrom data count pos
        | none => false

def hasBlobRef : Bytes → Bool
  | [] => false
  | count::rest => hasBlobRefFrom (count::rest) count.toNat 1

end

section

/-- The order of the number at the front of the bytes and a literal. -/
def int64Front (literal : BitVec 64) : Bytes → Option Ordering
  | [] => none
  | tag::rest =>
    if tag.toNat = 2 ∨ tag.toNat = 7 then
      if rest.length < 8 then none
      else some (compareSigned (BitVec.ofNat 64 (readLe (rest.take 8))) literal)
    else none

variable (data : Bytes)

def compareColumnInt64 (col : ℕ) (literal : BitVec 64) : Option Ordering := do
  let pos ← columnOffset data col
  int64Front literal (data.drop pos)

def float64Front (literal : BitVec 64) : Bytes → Option Ordering
  | [] => none
  | tag::rest =>
    if tag.toNat = 3 then
      if rest.length < 8 then none
      else F64.partialCmp (BitVec.ofNat 64 (readLe (rest.take 8))) literal
    else if tag.toNat = 2 then
      if rest.length < 8 then none
      else F64.partialCmp (F64.ofInt64 (BitVec.ofNat 64 (readLe (rest.take 8)))) literal
    else none

def compareColumnFloat64 (col : ℕ) (literal : BitVec 64) : Option Ordering := do
  let pos ← columnOffset data col
  float64Front literal (data.drop pos)

def textFront (literal : String) : Bytes → Option Ordering
  | [] => none
  | tag::rest =>
    if tag.toNat = 4 then
      if rest.length < 4 then none
      else
        let len := readLe (rest.take 4)
        let body := rest.drop 4
        if body.length < len then none
        else
          (fromUtf8 (body.take len)).map (fun s => Value.compareBytes (utf8 s) (utf8 literal))
    else none

def compareColumnText (col : ℕ) (literal : String) : Option Ordering := do
  let pos ← columnOffset data col
  textFront literal (data.drop pos)

/-- The comparisons by their codes; any other code accepts. -/
def codeHolds (op : UInt8) (ord : Ordering) : Bool :=
  match op.toNat with
  | 0 => ord == .eq
  | 1 => ord != .eq
  | 2 => ord == .lt
  | 3 => ord == .gt
  | 4 => ord != .gt
  | 5 => ord != .lt
  | _ => true

def rawFilterMatches (col : ℕ) (op : UInt8) (literal : Value J) : Option Bool :=
  let ord := match literal with
    | .int64 v => compareColumnInt64 data col v
    | .float64 v => compareColumnFloat64 data col v
    | .text v => compareColumnText data col v
    | _ => none
  ord.map (codeHolds op)

end

end ByteDB.Tuple
