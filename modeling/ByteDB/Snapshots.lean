import ByteDB.Value

/-!
# Snapshots as bytes

Every text, schema, key and value stands behind its length and every list behind
its number, both cut to the width of their fields. Schemas are written as JSON,
which is a parameter here; so is the text of an error in a name.
-/

set_option autoImplicit false

namespace ByteDB.Snapshots
open LittleEndian Reader ByteDB.Tuple List

def snapshotMagic : Bytes := [66, 83, 68, 66]

def snapshotVersion : BitVec 32 := 2

structure SnapshotHeader where
  version : BitVec 32
  lsn : BitVec 64
  timestamp : BitVec 64
  tableCount : BitVec 32
  deriving DecidableEq

structure TableSnapshot (S : Type) where
  name : String
  tableId : BitVec 32
  schema : S
  entries : List (Bytes × Bytes)
  sequences : List (String × BitVec 64)
  deriving DecidableEq

structure FullSnapshot (S : Type) where
  header : SnapshotHeader
  tables : List (TableSnapshot S)
  deriving DecidableEq

section
variable {S : Type} (toVec : S → Bytes)

def sized (bs : Bytes) : Bytes := le 4 bs.length++bs

def entryBytes (e : Bytes × Bytes) : Bytes := sized e.1++sized e.2

def sequenceBytes (s : String × BitVec 64) : Bytes := sized (utf8 s.1)++le 8 s.2.toNat

def tableBytes (t : TableSnapshot S) : Bytes :=
  sized (utf8 t.name)++(le 4 t.tableId.toNat++(sized (toVec t.schema)++
    (le 8 t.entries.length++(t.entries.flatMap entryBytes++
      (le 4 t.sequences.length++t.sequences.flatMap sequenceBytes)))))

def serializeSnapshot (crc : Bytes → UInt32) (s : FullSnapshot S) : Bytes :=
  snapshotMagic++(le 4 snapshotVersion.toNat++(le 8 s.header.lsn.toNat++
    (le 8 s.header.timestamp.toNat++(le 4 s.header.tableCount.toNat++
      s.tables.flatMap (tableBytes toVec)))))++le 4 (crc []).toNat

end

section
variable {S : Type} (utf8Error : Bytes → String) (fromSlice : Bytes → Except String S)

def readWord (width : ℕ) : Reader (BitVec (8*width)) := do
  return BitVec.ofNat (8*width) (← readNumber width)

def readSized : Reader Bytes := do readExact (← readNumber 4)

def readName : Reader String := do
  let bytes ← readSized
  match fromUtf8 bytes with
  | some name => pure name
  | none => throw (utf8Error bytes)

def readEntry : Reader (Bytes × Bytes) := do return (← readSized,← readSized)

def readSequence : Reader (String × BitVec 64) := do return (← readName utf8Error,← readWord 8)

def readTable (version : BitVec 32) : Reader (TableSnapshot S) := do
  let name ← readName utf8Error
  let tableId ← readWord 4
  let schema ← fromSlice (← readSized)
  let entries ← repeated readEntry (← readNumber 8)
  let sequences ←
    if 2 ≤ version then do repeated (readSequence utf8Error) (← readNumber 4) else pure []
  return ⟨name,tableId,schema,entries,sequences⟩

def deserializeSnapshot : Reader (FullSnapshot S) := do
  let magic ← readExact 4
  check (magic = snapshotMagic) "Invalid snapshot magic"
  let version ← readWord 4
  check (version ≤ snapshotVersion) ("Unsupported snapshot version: "++toString version.toNat)
  let lsn ← readWord 8
  let timestamp ← readWord 8
  let tableCount ← readWord 4
  let tables ← repeated (readTable utf8Error fromSlice version) tableCount.toNat
  return ⟨⟨version,lsn,timestamp,tableCount⟩,tables⟩

end

structure Fits {S : Type} (toVec : S → Bytes) (t : TableSnapshot S) : Prop where
  name : (utf8 t.name).length < 2^32
  schema : (toVec t.schema).length < 2^32
  entries : t.entries.length < 2^64
  entry : ∀ e ∈ t.entries, e.1.length < 2^32 ∧ e.2.length < 2^32
  sequences : t.sequences.length < 2^32
  sequence : ∀ s ∈ t.sequences, (utf8 s.1).length < 2^32

lemma reads_word {width : ℕ} (v : BitVec (8*width)) :
    Reads (readWord width) (le width v.toNat) v := by
  have hv : v.toNat < 256^width := by
    rw [show 256 = 2^8 from rfl, ← pow_mul]
    exact v.isLt
  refine (reads_number hv).last ?_
  rw [BitVec.ofNat_toNat, BitVec.setWidth_eq]
  exact reads_pure v

lemma reads_sized {bs : Bytes} (h : bs.length < 2^32) : Reads readSized (sized bs) bs :=
  (reads_number h).bind (reads_exact bs)

section
variable {S : Type} {toVec : S → Bytes} (utf8Error : Bytes → String)
    {fromSlice : Bytes → Except String S}

lemma reads_name {name : String} (h : (utf8 name).length < 2^32) :
    Reads (readName utf8Error) (sized (utf8 name)) name := by
  refine (reads_sized h).last ?_
  rw [fromUtf8_utf8]
  exact reads_pure name

lemma reads_entry {e : Bytes × Bytes} (h : e.1.length < 2^32 ∧ e.2.length < 2^32) :
    Reads readEntry (entryBytes e) e :=
  (reads_sized h.1).bind ((reads_sized h.2).last (reads_pure e))

lemma reads_sequence {s : String × BitVec 64} (h : (utf8 s.1).length < 2^32) :
    Reads (readSequence utf8Error) (sequenceBytes s) s :=
  (reads_name utf8Error h).bind ((@reads_word 8 s.2).last (reads_pure s))

variable (hjson : ∀ schema, fromSlice (toVec schema) = .ok schema)
include hjson

lemma reads_table {t : TableSnapshot S} (h : Fits toVec t) :
    Reads (readTable utf8Error fromSlice snapshotVersion) (tableBytes toVec t) t := by
  have hschema : Reads (liftM (fromSlice (toVec t.schema)) : Reader S) [] t.schema := by
    rw [hjson]
    exact reads_pure t.schema
  rw [readTable, tableBytes]
  refine (reads_name utf8Error h.name).bind ((@reads_word 4 t.tableId).bind ?_)
  refine (reads_sized h.schema).bind (hschema.bind ((reads_number h.entries).bind ?_))
  refine (reads_repeated entryBytes fun e he => reads_entry (h.entry e he)).bind ?_
  rw [if_pos (by decide)]
  refine (reads_number h.sequences).bind (Reads.last ?_ (reads_pure t))
  exact reads_repeated sequenceBytes fun s hs => reads_sequence utf8Error (h.sequence s hs)

/-- A snapshot is read back from the bytes that are written for it. -/
theorem snapshot_read_back (crc : Bytes → UInt32) (s : FullSnapshot S)
    (hversion : s.header.version = 2) (hcount : s.header.tableCount.toNat = s.tables.length)
    (hfits : ∀ t ∈ s.tables, Fits toVec t) :
    (deserializeSnapshot utf8Error fromSlice).run' (serializeSnapshot toVec crc s) = .ok s := by
  have htables := reads_repeated (tableBytes toVec) fun t ht =>
    reads_table utf8Error hjson (hfits t ht)
  rw [← hcount] at htables
  have hread : Reads (deserializeSnapshot utf8Error fromSlice) (snapshotMagic++
      (le 4 snapshotVersion.toNat++(le 8 s.header.lsn.toNat++(le 8 s.header.timestamp.toNat++
        (le 4 s.header.tableCount.toNat++s.tables.flatMap (tableBytes toVec)))))) s := by
    refine (reads_exact snapshotMagic).bind (.check rfl ?_)
    refine (@reads_word 4 snapshotVersion).bind (.check (BitVec.le_refl _) ?_)
    refine (@reads_word 8 s.header.lsn).bind ((@reads_word 8 s.header.timestamp).bind ?_)
    refine (@reads_word 4 s.header.tableCount).bind (htables.last ?_)
    rw [show snapshotVersion = s.header.version from hversion.symm]
    exact reads_pure s
  rw [serializeSnapshot, StateT.run', hread]
  rfl

end

def sampleSnapshot : FullSnapshot Unit :=
  ⟨⟨2,7,0,1⟩,[⟨"t",1,(),[([1],[2, 3])],[("id",5)]⟩]⟩

theorem table_read_back : (deserializeSnapshot (fun _ => "") fun _ => .ok ()).run'
    (serializeSnapshot (fun _ => [123, 125]) (fun _ => 0) sampleSnapshot) = .ok sampleSnapshot := by
  refine @snapshot_read_back Unit (fun _ => [123, 125]) (fun _ => "") (fun _ => .ok ())
    (fun _ => rfl) (fun _ => 0) sampleSnapshot rfl rfl ?_
  intro t ht
  obtain rfl := mem_singleton.1 ht
  constructor <;> decide +kernel

end ByteDB.Snapshots
