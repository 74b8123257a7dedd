import ByteDB.TableData
import ByteDB.TableLog

/-!
# The disk store

Each database has a directory with a catalog, and for each table a base file
and a change log. The names of directories and files are the names of the
databases and tables with all other characters replaced by underscores. The
catalog is kept as the value that it encodes.
-/

set_option autoImplicit false

namespace ByteDB
open ByteDB.Assoc

def sanitizeChar (c : Char) : Char :=
  if c.isAlphanum || c = '_' || c = '-' || c = '.' then c else '_'

def sanitize (name : String) : String := String.ofList (name.toList.map sanitizeChar)

structure IndexDef where
  name : String
  columns : List String
  unique : Bool
  deriving DecidableEq, Repr

structure TableCatalog (V : Type) where
  name : String
  tableId : ℕ
  schema : Schema V
  sequences : List (String × Int)
  indexes : List IndexDef
  deriving DecidableEq

structure DiskStore (V : Type) where
  registry : List String
  defaultDb : String
  catalogs : Map String (List (TableCatalog V))
  tableFiles : Map (String × String) Bytes
  logFiles : Map (String × String) Bytes
  catalog : List (TableCatalog V)
  currentDb : String

namespace DiskStore
variable {V : Type} (crc : Bytes → UInt32)
open TableLog (LogDelta)

section
variable (ds : DiskStore V)

def dbDir : String := sanitize ds.currentDb

variable (table : String)

def path : String × String := (ds.dbDir,sanitize table)

def logFile : Bytes :=
  (ds.logFiles.lookup (ds.path table)).getD []

def listTables : List (TableCatalog V) := ds.catalog

def switchDatabase (name : String) : Except CoreError (DiskStore V) :=
  if name ∉ ds.registry then .error (.internal ("Database '" ++ name ++ "' not found"))
  else
    .ok { ds with
      currentDb := name
      catalog := (ds.catalogs.lookup (sanitize name)).getD [] }

def appendTableLog (deltas : List LogDelta) : DiskStore V :=
  if deltas = [] then ds
  else
    { ds with
      logFiles := ds.logFiles.insert (ds.path table)
        (TableLog.append crc (ds.logFile table) deltas) }

def tableLogBytes : ℕ := (ds.logFile table).length

def compactTable (entries : List (Bytes × Bytes)) : DiskStore V :=
  { ds with
    tableFiles := ds.tableFiles.insert (ds.path table) (TableFile.save crc entries)
    logFiles := ds.logFiles.erase (ds.path table) }

def saveCatalog (catalog : List (TableCatalog V)) : DiskStore V :=
  { ds with catalog := catalog, catalogs := ds.catalogs.insert ds.dbDir catalog }

end

def replaceFirst (name : String) (entry : TableCatalog V) :
    List (TableCatalog V) → List (TableCatalog V)
  | [] => []
  | t::ts => if t.name = name then entry::ts else t::replaceFirst name entry ts

def setSequences (table : String) (sequences : List (String × Int)) :
    List (TableCatalog V) → List (TableCatalog V)
  | [] => []
  | t::ts =>
    if t.name = table then { t with sequences := sequences }::ts
    else t::setSequences table sequences ts

variable (ds : DiskStore V)

def flushTableSequences (table : String) (sequences : List (String × Int)) :
    DiskStore V :=
  if ds.catalog.any (fun t => t.name = table) then
    ds.saveCatalog (setSequences table sequences ds.catalog)
  else ds

/-- Put a table into the catalog; one that is there keeps its indexes. -/
def upsertTable (name : String) (tableId : ℕ) (schema : Schema V)
    (sequences : List (String × Int)) : DiskStore V :=
  match ds.catalog.find? (fun t => t.name = name) with
  | none => ds.saveCatalog (ds.catalog++[⟨name,tableId,schema,sequences,[]⟩])
  | some old =>
    let entry := ⟨name,tableId,schema,sequences,old.indexes⟩
    ds.saveCatalog (replaceFirst name entry ds.catalog)

def upsertTableIndexes (table : String) (indexes : List IndexDef) :
    DiskStore V :=
  match ds.catalog.find? (fun t => t.name = table) with
  | none => ds
  | some old => ds.saveCatalog (replaceFirst table { old with indexes := indexes } ds.catalog)

def dropTable (name : String) : DiskStore V :=
  if ds.catalog.any (fun t => t.name = name) then
    let ds := ds.saveCatalog (ds.catalog.filter (fun t => t.name ≠ name))
    { ds with
      tableFiles := ds.tableFiles.erase (ds.path name)
      logFiles := ds.logFiles.erase (ds.path name) }
  else ds

def invalidName (name : String) : CoreError :=
  .internal ("invalid database name '" ++ name ++ "': must be 1..=128 chars")

def createDatabase (name : String) : Except CoreError (DiskStore V) :=
  if name.utf8ByteSize = 0 ∨ 128 < name.utf8ByteSize then .error (invalidName name)
  else if name ∈ ds.registry then .ok ds
  else .ok { ds with registry := ds.registry++[name] }

def dropDatabase (name : String) : Except CoreError (DiskStore V) :=
  if name = ds.defaultDb then
    .error (.internal ("cannot drop default database '" ++ name ++ "'"))
  else if name ∉ ds.registry then .ok ds
  else
    let keep := fun (p : String × String) (file : Bytes) =>
      if p.1 = sanitize name then none else some file
    .ok { ds with
      registry := ds.registry.filter (· ≠ name)
      catalogs := ds.catalogs.erase (sanitize name)
      tableFiles := retain ds.tableFiles keep
      logFiles := retain ds.logFiles keep }

def loadTableData (table : String) : Except CoreError (List (Bytes × Bytes)) :=
  match TableFile.load crc (ds.tableFiles.lookup (ds.path table)) with
  | .error _ => .error (.internal ("table file " ++ table))
  | .ok base =>
    match TableLog.load crc (ds.logFile table) with
    | .error _ => .error (.internal ("table log " ++ table))
    | .ok deltas => .ok (TableLog.fold base deltas)

end DiskStore

/-! Two names have one file exactly if they differ only in places where both have an
underscore or a character outside ASCII. A compaction that is cut short loses
nothing: the log, folded over the new base file, gives the rows that were there. -/

namespace DiskStore
open List TableLog

section

def Identifier (alphabetic alphanumeric : Char → Bool) (name : String) : Prop :=
  ∃ c cs, name.toList = c::cs ∧ (alphabetic c = true ∨ c = '_') ∧
    ∀ d ∈ cs, alphanumeric d = true ∨ d = '_'

structure Unicode (alphabetic alphanumeric : Char → Bool) : Prop where
  letter : ∀ c, alphabetic c = true → alphanumeric c = true
  plain : ∀ c, alphanumeric c = true → c ≠ '-' ∧ c ≠ '.'

/-- The names differ only where neither has an ASCII letter or digit. -/
def Clash (a b : String) : Prop :=
  Forall₂ (fun c d => c = d ∨ c.isAlphanum = false ∧ d.isAlphanum = false) a.toList b.toList

variable {alphabetic alphanumeric : Char → Bool} {a b : String}

lemma Identifier.sanitized (hu : Unicode alphabetic alphanumeric)
    (h : Identifier alphabetic alphanumeric a) :
    a.toList.map sanitizeChar = a.toList.map (fun c => if c.isAlphanum then c else '_') := by
  have hchar : ∀ c, alphanumeric c = true ∨ c = '_' →
      sanitizeChar c = if c.isAlphanum then c else '_' := by
    rintro c (hc | rfl)
    · obtain ⟨hhyphen,hdot⟩ := hu.plain c hc
      by_cases hlow : c = '_'
      · rw [hlow]
        rfl
      · simp [sanitizeChar, hhyphen, hdot, hlow]
    · rfl
  obtain ⟨c,cs,hname,hfirst,hrest⟩ := h
  rw [hname, map_cons, map_cons, hchar c (hfirst.imp_left (hu.letter c))]
  exact congrArg _ (map_congr_left (fun d hd => hchar d (hrest d hd)))

lemma map_clash (as bs : List Char) : as.map (fun c => if c.isAlphanum then c else '_') =
        bs.map (fun c => if c.isAlphanum then c else '_') ↔
      Forall₂ (fun c d => c = d ∨ c.isAlphanum = false ∧ d.isAlphanum = false) as bs := by
  induction as generalizing bs with
  | nil => cases bs <;> simp
  | cons c cs ih =>
    cases bs with
    | nil => simp
    | cons d ds =>
      rw [map_cons, map_cons, cons.injEq, forall₂_cons, ih]
      have hlow : ∀ x : Char, x.isAlphanum = true → x ≠ '_' := by
        rintro x hx rfl
        cases hx
      refine and_congr_left (fun _ => ?_)
      split <;> split <;> grind

/-- Two databases have one directory, and two tables of a database one file and
one log, exactly if their names clash. -/
theorem shared_files_iff {V : Type} (hu : Unicode alphabetic alphanumeric) (ds : DiskStore V)
    (ha : Identifier alphabetic alphanumeric a) (hb : Identifier alphabetic alphanumeric b) :
    ({ ds with currentDb := a }.dbDir = { ds with currentDb := b }.dbDir ↔ Clash a b) ∧
      (ds.path a = ds.path b ↔ Clash a b) := by
  have hsame : sanitize a = sanitize b ↔ Clash a b := by
    rw [sanitize, sanitize, String.ofList_inj]
    rw [ha.sanitized hu, hb.sanitized hu]
    exact map_clash _ _
  refine ⟨hsame,?_⟩
  rw [path, path, Prod.mk.injEq]
  exact ⟨fun h => hsame.mp h.2,fun h => ⟨rfl,hsame.mpr h⟩⟩

/-- Letters, and letters and digits, with all characters outside ASCII. -/
def wideAlpha (c : Char) : Bool := c.isAlpha || 128 ≤ c.toNat

def wideAlphanum (c : Char) : Bool := c.isAlphanum || 128 ≤ c.toNat

def noFiles : DiskStore Unit := ⟨["db"],"db",∅,∅,∅,[],"db"⟩

lemma wide_unicode : Unicode wideAlpha wideAlphanum where
  letter c h := by
    simp only [wideAlpha, wideAlphanum, Char.isAlphanum, Bool.or_eq_true] at h ⊢
    tauto
  plain c h := by
    constructor
    · rintro rfl
      cases h
    · rintro rfl
      cases h

theorem letters_apart : ¬Clash "a" "b" ∧ noFiles.path "a" ≠ noFiles.path "b" := by
  have hapart : ¬Clash "a" "b" := by simp [Clash]
  refine ⟨hapart,fun h => hapart ?_⟩
  exact (shared_files_iff wide_unicode noFiles ⟨'a',[],rfl,.inl rfl,nofun⟩
    ⟨'b',[],rfl,.inl rfl,nofun⟩).2.mp h

/-- What is logged for one table is read for another. -/
theorem accents_share_log :
    Identifier wideAlpha wideAlphanum "é" ∧ Identifier wideAlpha wideAlphanum "è" ∧
      noFiles.loadTableData (fun _ => 0) "è" = .ok [] ∧
      (noFiles.appendTableLog (fun _ => 0) "é" [⟨opPut,[1],[2]⟩]).loadTableData
        (fun _ => 0) "è" = .ok [([1],[2])] :=
  ⟨⟨'é',[],rfl,.inl rfl,nofun⟩,⟨'è',[],rfl,.inl rfl,nofun⟩,by decide +kernel, by decide +kernel⟩

end

section
variable {V : Type} (crc : Bytes → UInt32) (ds : DiskStore V) (table : String)

/-- What a process leaves that stops in `compact_table`. The base file is
replaced at once by a file that nothing reads before, and then the log goes. -/
def stops (entries : List (Bytes × Bytes)) : List (DiskStore V) := [ds, { ds with
    tableFiles := ds.tableFiles.insert (ds.path table) (TableFile.save crc entries) },
    ds.compactTable crc table entries]

def contents (entries : List (Bytes × Bytes)) (k : Bytes) : Option Bytes :=
  (collect entries).lookup k

def Enumerates (es before : List (Bytes × Bytes)) : Prop :=
  (es.map Prod.fst).Nodup ∧ ∀ k v, (k,v) ∈ es ↔ contents before k = some v

lemma contents_nodup {es : List (Bytes × Bytes)} (h : (es.map Prod.fst).Nodup) (k v : Bytes) :
    contents es k = some v ↔ (k,v) ∈ es := by
  have hfrom : ∀ m : Map Bytes Bytes, (es.foldl (fun m e => m.insert e.1 e.2) m).lookup k = some v ↔
        (k,v) ∈ es ∨ k ∉ es.map Prod.fst ∧ m.lookup k = some v := by
    induction es with
    | nil => simp
    | cons e es ih =>
      rw [map_cons, nodup_cons] at h
      intro m
      rw [foldl_cons, ih h.2, lookup_insert_eq]
      grind
  simpa [contents, collect] using hfrom ∅

lemma contents_fold (base : List (Bytes × Bytes)) (deltas : List LogDelta) (k : Bytes) :
    contents (fold base deltas) k = (deltas.foldl foldStep (collect base)).lookup k := by
  rw [fold]
  split
  · rename_i hnil
    rw [hnil]
    rfl
  · generalize deltas.foldl foldStep (collect base) = m
    have hnodup : ((m.entries.map (fun e => (e.1,e.2))).map Prod.fst).Nodup := by
      rw [map_map]
      exact m.nodupKeys
    ext v
    rw [contents_nodup hnodup, ← Option.mem_def, AList.mem_lookup_iff, mem_map]
    constructor
    · rintro ⟨e,he,heq⟩
      cases heq
      exact he
    · exact fun h => ⟨_,h,rfl⟩

lemma foldStep_lookup (deltas : List LogDelta) (k : Bytes) :
    (∃ o, ∀ m : Map Bytes Bytes, (deltas.foldl foldStep m).lookup k = o) ∨
      ∀ m : Map Bytes Bytes, (deltas.foldl foldStep m).lookup k = m.lookup k := by
  induction deltas with
  | nil => exact .inr (fun _ => rfl)
  | cons d deltas ih =>
    rcases ih with ⟨o,ho⟩ | hsame
    · exact .inl ⟨o,fun m => ho _⟩
    · simp only [foldl_cons, hsame, foldStep]
      by_cases hk : k = d.key <;> by_cases hop : d.op = opDel <;>
        simp [hk, hop, lookup_insert_eq, lookup_erase_eq]

lemma fold_again {base es : List (Bytes × Bytes)} {deltas : List LogDelta}
    (h : contents es = contents (fold base deltas)) :
    contents (fold es deltas) = contents (fold base deltas) := by
  funext k
  have hk := congrFun h k
  rw [contents_fold, contents] at hk
  rw [contents_fold, contents_fold]
  rcases foldStep_lookup deltas k with ⟨o,ho⟩ | hsame
  · rw [ho, ho]
  · rw [hsame, hk]

lemma readLe_take (n : ℕ) (bs : Bytes) : LittleEndian.readLe (bs.take n) < 256^n := by
  induction n generalizing bs with
  | zero => simp [LittleEndian.readLe]
  | succ n ih =>
    cases bs with
    | nil => simp [LittleEndian.readLe]
    | cons b bs =>
      have hb : b.toNat < 256 := b.toNat_lt
      have hbs := ih bs
      rw [take_succ_cons, LittleEndian.readLe, pow_succ]
      omega

lemma loadEntries_fits {n : ℕ} {rest : Bytes} {es : List (Bytes × Bytes)}
    (h : TableFile.loadEntries n rest = .ok es) : ∀ e ∈ es, TableFile.Fits e := by
  induction n generalizing rest es with
  | zero =>
    cases h
    nofun
  | succ n ih =>
    simp only [TableFile.loadEntries, TableFile.loadBytes, bind, Except.bind] at h
    grind [TableFile.Fits, readLe_take 4]

lemma decodeBody_fits {body : Bytes} {d : LogDelta} (h : decodeBody body = some d) :
    TableFile.Fits (d.key,d.value) := by
  cases body with
  | nil => cases h
  | cons op rest => grind [decodeBody, TableFile.Fits, readLe_take 4]

lemma loadRecords_fits (n : ℕ) (rest : Bytes) :
    ∀ d ∈ loadRecords crc n rest, TableFile.Fits (d.key,d.value) := by
  induction n generalizing rest with
  | zero => nofun
  | succ n ih => grind [loadRecords, decodeBody_fits]

lemma foldStep_all {P : Bytes → Bytes → Prop} {deltas : List LogDelta} {m : Map Bytes Bytes}
    (hm : ∀ k v, m.lookup k = some v → P k v) (hd : ∀ d ∈ deltas, P d.key d.value) :
    ∀ k v, (deltas.foldl foldStep m).lookup k = some v → P k v := by
  induction deltas generalizing m with
  | nil => exact hm
  | cons d deltas ih =>
    rw [forall_mem_cons] at hd
    refine ih (fun k v hk => ?_) hd.2
    grind [foldStep, lookup_insert_eq, lookup_erase_eq]

lemma load_fits {base : List (Bytes × Bytes)} {deltas : List LogDelta}
    {file : Option Bytes} {log : Bytes} (hbase : TableFile.load crc file = .ok base)
    (hlog : TableLog.load crc log = .ok deltas) :
    ∀ k v, contents (fold base deltas) k = some v → TableFile.Fits (k,v) := by
  have hes : ∀ e ∈ base, TableFile.Fits e := by
    simp only [TableFile.load, TableFile.loadPayload, bind, Except.bind] at hbase
    grind [loadEntries_fits]
  have hdeltas : ∀ d ∈ deltas, TableFile.Fits (d.key,d.value) := by
    grind [TableLog.load, loadRecords_fits crc]
  have hcollect : collect base = (base.map (fun e => ⟨opPut,e.1,e.2⟩)).foldl foldStep ∅ := by
    rw [foldl_map]
    rfl
  intro k v hk
  rw [contents_fold, hcollect] at hk
  exact foldStep_all (P := fun k v => TableFile.Fits (k,v))
    (foldStep_all (by simp) (forall_mem_map.mpr hes)) hdeltas k v hk

/-- Wherever a compaction stops, the table is loaded with the same rows. A list
in memory has fewer than `2^64` entries. -/
theorem compaction_keeps {before es : List (Bytes × Bytes)}
    (h : ds.loadTableData crc table = .ok before) (he : Enumerates es before)
    (hlen : es.length < 2^64) :
    (∀ s ∈ ds.stops crc table es, ∃ after, s.loadTableData crc table = .ok after ∧
      contents after = contents before) ∧
    ∀ base deltas, contents (fold (fold base deltas) deltas) = contents (fold base deltas) := by
  refine ⟨?_,fun base deltas => fold_again rfl⟩
  have hes : contents es = contents before := by
    ext k v
    rw [contents_nodup he.1, he.2]
  rw [loadTableData] at h
  split at h
  · cases h
  rename_i base hbase
  split at h
  · cases h
  rename_i deltas hlog
  cases h
  have hsave := TableFile.load_save crc es hlen (fun e hmem =>
      load_fits crc hbase hlog e.1 e.2 ((he.2 e.1 e.2).mp hmem))
  intro s hs
  simp only [stops, mem_cons, not_mem_nil, or_false] at hs
  rcases hs with rfl | rfl | rfl
  · exact ⟨_,by simp [loadTableData, hbase, hlog],rfl⟩
  · refine ⟨fold es deltas,?_,fold_again hes⟩
    simp [loadTableData, path, dbDir, logFile] at hlog ⊢
    simp [hsave, hlog]
  · refine ⟨es,?_,hes⟩
    simp [loadTableData, compactTable, path, dbDir, logFile, hsave, TableLog.load, fold]

def oneRow : DiskStore Unit := noFiles.appendTableLog (fun _ => 0) "t" [⟨opPut,[1],[2]⟩]

theorem compaction_keeps_row : oneRow.loadTableData (fun _ => 0) "t" = .ok [([1],[2])] ∧
      ∀ s ∈ oneRow.stops (fun _ => 0) "t" [([1],[2])],
        ∃ after, s.loadTableData (fun _ => 0) "t" = .ok after ∧
          contents after = contents [([1],[2])] := by
  have hload : oneRow.loadTableData (fun _ => 0) "t" = .ok [([1],[2])] := by decide +kernel
  refine ⟨hload,(compaction_keeps (fun _ => 0) oneRow "t" hload ⟨by simp,fun k v => ?_⟩
    (by simp)).1⟩
  rw [contents_nodup (by simp)]

end

end DiskStore

end ByteDB
