import ByteDB.Assoc
import ByteDB.Bytes

/-!
# The files of a table

The base file has all entries of a table with their number in front and a checksum
behind. A log file is a header and a sequence of records, each with its length and
a checksum. `load` stops at the first record that is not whole. The checksum is a
parameter: nothing here depends on what it computes.
-/

set_option autoImplicit false

namespace ByteDB.TableFile
open ByteDB.LittleEndian List

def tableMagic : Bytes := [66,84,66,76]

def tableVersion : ℕ := 2

def tableVersionLegacy : ℕ := 1

inductive FileError where
  | io
  | badMagic
  | unsupportedVersion (version : ℕ)
  | truncatedTrailer
  | checksumMismatch
  | truncated
  deriving DecidableEq, Repr

variable (crc : Bytes → UInt32)

def encodeEntry (e : Bytes × Bytes) : Bytes := le 4 e.1.length++(e.1++(le 4 e.2.length++e.2))

variable (entries : List (Bytes × Bytes))

def payload : Bytes := le 8 entries.length++entries.flatMap encodeEntry

def save : Bytes :=
  tableMagic++(le 4 tableVersion++(payload entries++le 4 (crc (payload entries)).toNat))

def loadBytes (rest : Bytes) : Except FileError (Bytes × Bytes) :=
  if rest.length < 4 then .error .truncated
  else
    let len := readLe (rest.take 4)
    let rest := rest.drop 4
    if rest.length < len then .error .truncated else .ok (rest.take len,rest.drop len)

def loadEntries : ℕ → Bytes → Except FileError (List (Bytes × Bytes))
  | 0, _ => .ok []
  | count+1, rest => do
    let (k,rest) ← loadBytes rest
    let (v,rest) ← loadBytes rest
    let out ← loadEntries count rest
    .ok ((k,v)::out)

def loadPayload (payload : Bytes) : Except FileError (List (Bytes × Bytes)) :=
  if payload.length < 8 then .error .truncated
  else loadEntries (readLe (payload.take 8)) (payload.drop 8)

/-- The payload of a file of the present version, without its trailer. -/
def checked (payload : Bytes) : Except FileError Bytes :=
  if payload.length < 4 then .error .truncatedTrailer
  else
    let body := payload.take (payload.length-4)
    if readLe (payload.drop (payload.length-4)) ≠ (crc body).toNat then .error .checksumMismatch
    else .ok body

/-- A table without a file has no entries. -/
def load : Option Bytes → Except FileError (List (Bytes × Bytes))
  | none => .ok []
  | some file =>
    if file.length < 4 then .error .io
    else if file.take 4 ≠ tableMagic then .error .badMagic
    else if file.length < 8 then .error .io
    else
      let version := readLe ((file.drop 4).take 4)
      if version = tableVersion then do
        let body ← checked crc (file.drop 8)
        loadPayload body
      else if version = tableVersionLegacy then loadPayload (file.drop 8)
      else .error (.unsupportedVersion version)

def Fits (e : Bytes × Bytes) : Prop := e.1.length < 256^4 ∧ e.2.length < 256^4

lemma load_bytes (bs rest : Bytes) (h : bs.length < 256^4) :
    loadBytes (le 4 bs.length++(bs++rest)) = .ok (bs,rest) := by
  rw [loadBytes, if_neg (by simp)]
  simp only [read_take 4 _ _ h, drop_le, take_left, drop_left]
  rw [if_neg (by simp)]

variable (es : List (Bytes × Bytes))

lemma load_entries (h : ∀ e ∈ es, Fits e) (rest : Bytes) :
    loadEntries es.length (es.flatMap encodeEntry++rest) = .ok es := by
  induction es with
  | nil => rfl
  | cons e es ih =>
    obtain ⟨hk,hv⟩ := h e (by simp)
    rw [flatMap_cons, encodeEntry, length_cons, loadEntries]
    simp only [append_assoc, load_bytes _ _ hk]
    show (do
      let (v,rest) ← loadBytes (le 4 e.2.length++(e.2++(es.flatMap encodeEntry++rest)))
      let out ← loadEntries es.length rest
      Except.ok ((e.1,v)::out)) = _
    simp only [load_bytes _ _ hv]
    show (do
      let out ← loadEntries es.length (es.flatMap encodeEntry++rest)
      Except.ok ((e.1,e.2)::out)) = _
    rw [ih (fun e' he' => h e' (by simp [he']))]
    rfl

lemma load_payload (hlen : es.length < 256^8)
    (h : ∀ e ∈ es, Fits e) : loadPayload (payload es) = .ok es := by
  have hes := load_entries es h []
  rw [append_nil] at hes
  rw [loadPayload, if_neg (by simp [payload]), payload, read_take 8 _ _ hlen, drop_le, hes]

lemma checked_payload (body : Bytes) : checked crc (body++le 4 (crc body).toNat) = .ok body := by
  have hc : (crc body).toNat < 256^4 := (crc body).toNat_lt
  have hsub : (body++le 4 (crc body).toNat).length-4 = body.length := by simp
  rw [checked, if_neg (by simp), hsub]
  simp [read_le 4 _ hc]

lemma load_version (rest : Bytes) : load crc (some (tableMagic++(le 4 tableVersion++rest))) =
      (checked crc rest).bind loadPayload := by
  have hmagic : tableMagic.length = 4 := rfl
  have htake : (tableMagic++(le 4 tableVersion++rest)).take 4 = tableMagic := take_left' hmagic
  have hdrop4 : (tableMagic++(le 4 tableVersion++rest)).drop 4 = le 4 tableVersion++rest :=
    drop_left' hmagic
  have hdrop : (tableMagic++(le 4 tableVersion++rest)).drop 8 = rest := by
    rw [show (8 : ℕ) = 4+4 from rfl, ← drop_drop, hdrop4, drop_le]
  have hver : readLe ((le 4 tableVersion++rest).take 4) = tableVersion :=
    read_take 4 _ _ (by decide)
  have h8 : 8 ≤ (tableMagic++(le 4 tableVersion++rest)).length := by
    simp [hmagic]
    omega
  simp only [load, htake, hdrop4, hdrop, hver]
  rw [if_neg (by omega), if_neg (by simp), if_neg (by omega), if_pos trivial]
  rfl

lemma load_save (hlen : es.length < 256^8)
    (h : ∀ e ∈ es, Fits e) : load crc (some (save crc es)) = .ok es := by
  have hload := load_payload es hlen h
  rw [save, load_version, checked_payload, Except.bind, hload]

end ByteDB.TableFile

namespace ByteDB.TableLog
open ByteDB.Assoc ByteDB.LittleEndian List

def logMagic : Bytes := [66,84,76,71]

def logVersion : ℕ := 1

def opPut : UInt8 := 0

def opDel : UInt8 := 1

structure LogDelta where
  op : UInt8
  key : Bytes
  value : Bytes
  deriving DecidableEq, Repr

variable (crc : Bytes → UInt32)

def encodeBody (d : LogDelta) : Bytes :=
  d.op::(le 4 d.key.length++(d.key++(le 4 d.value.length++d.value)))

def encodeRecord (d : LogDelta) : Bytes :=
  le 4 (encodeBody d).length++(le 4 (crc (encodeBody d)).toNat++encodeBody d)

def encodeRecords (deltas : List LogDelta) : Bytes := deltas.flatMap (encodeRecord crc)

def header : Bytes := logMagic++le 4 logVersion

variable (file : Bytes)

/-- The bytes that `append` writes to a file with the given content. -/
def appended (deltas : List LogDelta) : Bytes :=
  (if file = [] then header else [])++encodeRecords crc deltas

def append (deltas : List LogDelta) : Bytes :=
  if deltas = [] then file else file++appended crc file deltas

def decodeBody : Bytes → Option LogDelta
  | [] => none
  | op::rest =>
    if rest.length < 4 then none
    else
      let kl := readLe (rest.take 4)
      let rest := rest.drop 4
      if rest.length < kl then none
      else
        let key := rest.take kl
        let rest := rest.drop kl
        if rest.length < 4 then none
        else
          let vl := readLe (rest.take 4)
          let rest := rest.drop 4
          if rest.length < vl then none
          else some { op := op, key := key, value := rest.take vl }

def loadRecords : ℕ → Bytes → List LogDelta
  | 0, _ => []
  | fuel+1, rest =>
    if rest.length < 8 then []
    else
      let len := readLe (rest.take 4)
      let stored := readLe ((rest.drop 4).take 4)
      let rest := rest.drop 8
      if rest.length < len then []
      else if (crc (rest.take len)).toNat ≠ stored then []
      else
        match decodeBody (rest.take len) with
        | none => []
        | some delta => delta::loadRecords fuel (rest.drop len)

inductive LogError where
  | badMagic
  | unsupportedVersion (version : ℕ)
  deriving DecidableEq, Repr

def load (all : Bytes) : Except LogError (List LogDelta) :=
  if all.length < 8 then .ok []
  else if all.take 4 ≠ logMagic then .error .badMagic
  else if readLe ((all.drop 4).take 4) ≠ logVersion then
    .error (.unsupportedVersion (readLe ((all.drop 4).take 4)))
  else .ok (loadRecords crc all.length (all.drop 8))

def foldStep (m : Map Bytes Bytes) (d : LogDelta) : Map Bytes Bytes :=
  if d.op = opDel then m.erase d.key else m.insert d.key d.value

variable (base : List (Bytes × Bytes))

def collect : Map Bytes Bytes :=
  base.foldl (fun m e => m.insert e.1 e.2) ∅

def fold (deltas : List LogDelta) : List (Bytes × Bytes) :=
  if deltas = [] then base
  else (deltas.foldl foldStep (collect base)).entries.map (fun e => (e.1,e.2))

section
variable (d : LogDelta)

def Fits : Prop := (encodeBody d).length < 256^4

lemma body_length : (encodeBody d).length = 9+d.key.length+d.value.length := by
  simp [encodeBody]
  omega

lemma decode_body (h : Fits d) : decodeBody (encodeBody d) = some d := by
  rw [Fits, body_length] at h
  have hk : d.key.length < 256^4 := by omega
  have hv : d.value.length < 256^4 := by omega
  simp only [encodeBody, decodeBody, read_take 4 _ _ hk, drop_le, take_left, drop_left,
    read_take 4 _ _ hv]
  simp

@[simp] lemma record_length : (encodeRecord crc d).length = 8+(encodeBody d).length := by
  simp [encodeRecord]
  omega

lemma load_record (h : Fits d) (fuel : ℕ) (rest : Bytes) :
    loadRecords crc (fuel+1) (encodeRecord crc d++rest) = d::loadRecords crc fuel rest := by
  have hc : (crc (encodeBody d)).toNat < 256^4 := (crc (encodeBody d)).toNat_lt
  have hlen : ¬(encodeRecord crc d++rest).length < 8 := by
    simp
    omega
  have hdrop4 : (encodeRecord crc d++rest).drop 4 =
      le 4 (crc (encodeBody d)).toNat++(encodeBody d++rest) := by
    simp only [encodeRecord, append_assoc, drop_le]
  have hdrop8 : (encodeRecord crc d++rest).drop 8 = encodeBody d++rest := by
    rw [show (8 : ℕ) = 4+4 from rfl, ← drop_drop, hdrop4, drop_le]
  have htake : readLe ((encodeRecord crc d++rest).take 4) = (encodeBody d).length := by
    simp only [encodeRecord, append_assoc]
    exact read_take 4 _ _ h
  rw [loadRecords, if_neg hlen]
  simp only [hdrop4, hdrop8, htake, read_take 4 _ _ hc, take_left, drop_left]
  simp [decode_body d h]

lemma load_torn (h : Fits d) (fuel n : ℕ) (hn : n < (encodeRecord crc d).length) :
    loadRecords crc fuel ((encodeRecord crc d).take n) = [] := by
  rw [record_length] at hn
  cases fuel with
  | zero => rfl
  | succ fuel =>
    rw [loadRecords]
    by_cases h8 : n < 8
    · rw [if_pos (by simp; omega)]
    have hlen : ((encodeRecord crc d).take n).length = n := by
      rw [length_take, record_length]
      omega
    have htake : readLe (((encodeRecord crc d).take n).take 4) = (encodeBody d).length := by
      rw [take_take, Nat.min_eq_left (by omega), encodeRecord]
      exact read_take 4 _ _ h
    rw [if_neg (by omega)]
    simp only [htake]
    rw [if_pos (by rw [length_drop]; omega)]

lemma records_cons (ds : List LogDelta) :
    encodeRecords crc (d::ds) = encodeRecord crc d++encodeRecords crc ds := rfl

end

lemma records_append (ds es : List LogDelta) :
    encodeRecords crc (ds++es) = encodeRecords crc ds++encodeRecords crc es :=
  flatMap_append

variable (ds : List LogDelta)

lemma records_long : ds.length ≤ (encodeRecords crc ds).length := by
  induction ds with
  | nil => exact Nat.zero_le _
  | cons d ds ih =>
    rw [records_cons, length_append, record_length, length_cons]
    omega

lemma load_records (h : ∀ d ∈ ds, Fits d) (fuel : ℕ) (rest : Bytes) :
    loadRecords crc (ds.length+fuel) (encodeRecords crc ds++rest) =
      ds++loadRecords crc fuel rest := by
  induction ds with
  | nil => simp [encodeRecords]
  | cons d ds ih =>
    have hfuel : (d::ds).length+fuel = ds.length+fuel+1 := by
      simp
      omega
    rw [hfuel, records_cons, append_assoc, load_record crc d (h d (by simp)),
      ih (fun e he => h e (by simp [he])), cons_append]

def Holds : Prop :=
  (file = [] ∧ ds = []) ∨ file = header++encodeRecords crc ds

lemma holds_append {file : Bytes} {ds es : List LogDelta} (h : Holds crc file ds) :
    Holds crc (append crc file es) (ds++es) := by
  rw [append]
  split
  · rename_i hes
    simpa [hes] using h
  · right
    rcases h with ⟨rfl,rfl⟩ | rfl
    · rfl
    · rw [appended, if_neg (by simp [header, logMagic]), nil_append, append_assoc, records_append]

lemma load_header (rest : Bytes) :
    load crc (header++rest) = .ok (loadRecords crc (8+rest.length) rest) := by
  have hlen : header.length = 8 := rfl
  have htake : (header++rest).take 4 = logMagic := rfl
  have hver : readLe (((header++rest).drop 4).take 4) = logVersion := rfl
  have hdrop : (header++rest).drop 8 = rest := rfl
  rw [load, if_neg (by simp [hlen]), htake, hver, hdrop]
  simp [hlen]

lemma load_holds {file : Bytes} {ds : List LogDelta} (h : Holds crc file ds)
    (hfits : ∀ d ∈ ds, Fits d) : load crc file = .ok ds := by
  rcases h with ⟨rfl,rfl⟩ | rfl
  · rfl
  have hlong := records_long crc ds
  obtain ⟨fuel,hfuel⟩ := Nat.exists_eq_add_of_le
    (show ds.length ≤ 8+(encodeRecords crc ds).length by omega)
  have hload := load_records crc ds hfits fuel []
  rw [append_nil] at hload
  rw [load_header, hfuel, hload]
  cases fuel <;> simp [loadRecords]

end ByteDB.TableLog

/-! `load` ends at a record that is not whole and leaves it in the file; `append`
writes behind it. What is appended is then read only if the cut left no piece of a
record, and no piece of the header. -/

namespace ByteDB.TableLog
open ByteDB.LittleEndian List

variable {ds : List LogDelta} {cut : ℕ}

section

def recordSize (d : LogDelta) : ℕ := 8+(encodeBody d).length

/-- The deltas whose records are whole in the first `n` bytes of the records. -/
def wholeDeltas : List LogDelta → ℕ → List LogDelta
  | [], _ => []
  | d::ds, n => if recordSize d ≤ n then d::wholeDeltas ds (n-recordSize d) else []

def leftover : List LogDelta → ℕ → ℕ
  | [], _ => 0
  | d::ds, n => if recordSize d ≤ n then leftover ds (n-recordSize d) else n

def wholeBefore (ds : List LogDelta) (cut : ℕ) : List LogDelta := wholeDeltas ds (cut-8)

/-- The cut is at the end of a record or of the header, or leaves nothing. -/
def AtBoundary (ds : List LogDelta) (cut : ℕ) : Prop :=
  ds = [] ∨ cut = 0 ∨ 8 ≤ cut ∧ leftover ds (cut-8) = 0

variable (crc : Bytes → UInt32)

section
variable (ds : List LogDelta)

/-- A log is written, cut and written again, and then has the deltas that were
whole and those that were appended after the cut. -/
def Continues (cut : ℕ) (further : List LogDelta) : Prop :=
  load crc (append crc ((append crc [] ds).take cut) further) = .ok (wholeBefore ds cut++further)

lemma append_nil : append crc [] ds = if ds = [] then [] else header++encodeRecords crc ds := by
  rw [append]
  split
  · rfl
  · rfl

lemma take_records (n : ℕ) :
    ∃ piece, (encodeRecords crc ds).take n = encodeRecords crc (wholeDeltas ds n)++piece ∧
      (piece = [] ∧ leftover ds n = 0 ∨ ∃ d ∈ ds, 0 < leftover ds n ∧ leftover ds n < recordSize d ∧
        piece = (encodeRecord crc d).take (leftover ds n)) := by
  induction ds generalizing n with
  | nil => exact ⟨[],by simp [encodeRecords, wholeDeltas],.inl ⟨rfl,rfl⟩⟩
  | cons d ds ih =>
    have hsize : (encodeRecord crc d).length = recordSize d := record_length crc d
    rw [records_cons, wholeDeltas, leftover]
    by_cases hn : recordSize d ≤ n
    · obtain ⟨piece,htake,hpiece⟩ := ih (n-recordSize d)
      rw [if_pos hn, if_pos hn]
      refine ⟨piece,?_,hpiece.imp_right ?_⟩
      · rw [take_append, take_of_length_le (by omega), hsize, htake, records_cons, append_assoc]
      · rintro ⟨d',hd',hrest⟩
        exact ⟨d',mem_cons_of_mem _ hd',hrest⟩
    · rw [if_neg hn, if_neg hn]
      have hlt : n < recordSize d := not_le.mp hn
      refine ⟨(encodeRecord crc d).take n,?_,?_⟩
      · rw [take_append_of_le_length (by omega)]
        rfl
      · rcases Nat.eq_zero_or_pos n with rfl | hpos
        · exact .inl ⟨rfl,rfl⟩
        · exact .inr ⟨d,mem_cons_self ..,hpos,hlt,rfl⟩

lemma wholeDeltas_mem (n : ℕ) : ∀ d ∈ wholeDeltas ds n, d ∈ ds := by
  induction ds generalizing n with
  | nil => simp [wholeDeltas]
  | cons d ds ih =>
    rw [wholeDeltas]
    split
    · intro d' hd'
      rcases mem_cons.mp hd' with rfl | hd'
      · exact mem_cons_self ..
      · exact mem_cons_of_mem _ (ih _ d' hd')
    · simp

lemma wholeDeltas_zero : wholeDeltas ds 0 = [] := by
  cases ds with
  | nil => rfl
  | cons d ds =>
    rw [wholeDeltas, if_neg]
    rw [recordSize]
    omega

end

lemma take_file (hds : ds ≠ []) (hcut : 8 ≤ cut) :
    (append crc [] ds).take cut = header++(encodeRecords crc ds).take (cut-8) := by
  have hlen : header.length = 8 := rfl
  rw [append_nil, if_neg hds, take_append, take_of_length_le (by omega), hlen]

lemma append_behind {file : Bytes} (hfile : file ≠ []) (further : List LogDelta) :
    append crc file further = file++encodeRecords crc further := by
  rw [append]
  split
  · rename_i hnil
    rw [hnil]
    simp [encodeRecords]
  · rw [appended, if_neg hfile, nil_append]

end

section
variable (crc : Bytes → UInt32)

lemma continues_boundary {ds further : List LogDelta} (hds : ∀ d ∈ ds, Fits d)
    (hfurther : ∀ d ∈ further, Fits d) (h : AtBoundary ds cut) :
    Continues crc ds cut further := by
  have hempty : (append crc [] ds).take cut = [] → wholeBefore ds cut = [] →
      Continues crc ds cut further := by
    intro hfile hwhole
    rw [Continues, hfile, hwhole]
    exact load_holds crc (holds_append crc (.inl ⟨rfl,rfl⟩)) hfurther
  rcases h with rfl | rfl | ⟨hcut,hleft⟩
  · exact hempty (by simp [append_nil]) rfl
  · exact hempty rfl (wholeDeltas_zero ds)
  by_cases hnil : ds = []
  · subst hnil
    exact hempty (by simp [append_nil]) rfl
  obtain ⟨piece,htake,hpiece⟩ := take_records crc ds (cut-8)
  obtain ⟨rfl,-⟩ : piece = [] ∧ _ := hpiece.resolve_right (by
    rintro ⟨d,-,hpos,-⟩
    omega)
  rw [List.append_nil] at htake
  have hholds : Holds crc ((append crc [] ds).take cut) (wholeBefore ds cut) :=
    .inr (by rw [take_file crc hnil hcut, htake]; rfl)
  refine load_holds crc (holds_append crc hholds) (fun d hd => ?_)
  rcases mem_append.mp hd with hd | hd
  · exact hds d (wholeDeltas_mem ds _ d hd)
  · exact hfurther d hd

lemma continues_nil (hds : ∀ d ∈ ds, Fits d) (cut : ℕ) : Continues crc ds cut [] := by
  rw [Continues, append, if_pos rfl, List.append_nil]
  by_cases hnil : ds = []
  · subst hnil
    rw [append_nil, if_pos rfl, List.take_nil]
    rfl
  by_cases hcut : cut < 8
  · have hwhole : wholeBefore ds cut = [] := by
      rw [wholeBefore, show cut-8 = 0 by omega, wholeDeltas_zero]
    rw [load, if_pos (by rw [List.length_take]; omega), hwhole]
  obtain ⟨piece,htake,hpiece⟩ := take_records crc ds (cut-8)
  have hwhole : ∀ d ∈ wholeDeltas ds (cut-8), Fits d :=
    fun d hd => hds d (wholeDeltas_mem ds _ d hd)
  have hlong := records_long crc (wholeDeltas ds (cut-8))
  rw [take_file crc hnil (not_lt.mp hcut), htake, load_header, List.length_append]
  obtain ⟨fuel,hfuel⟩ := Nat.exists_eq_add_of_le (show (wholeDeltas ds (cut-8)).length ≤
    8+((encodeRecords crc (wholeDeltas ds (cut-8))).length+piece.length) by omega)
  rw [hfuel, load_records crc _ hwhole]
  have hstop : loadRecords crc fuel piece = [] := by
    rcases hpiece with ⟨rfl,-⟩ | ⟨d,hd,-,hlt,rfl⟩
    · cases fuel with
      | zero | succ => rfl
    · exact load_torn crc d (hds d hd) _ _ (by rw [record_length]; exact hlt)
  rw [hstop, List.append_nil]
  rfl

end

section
variable (crc : Bytes → UInt32)

lemma decodeBody_size {body : Bytes} {x : LogDelta} (h : decodeBody body = some x) :
    9+x.key.length+x.value.length ≤ body.length ∧ body.head? = some x.op := by
  cases body with
  | nil => cases h
  | cons op rest =>
    rw [decodeBody] at h
    split at h
    · cases h
    dsimp only at h
    split at h
    · cases h
    split at h
    · cases h
    split at h
    · cases h
    · cases h
      simp only [length_take, length_drop, length_cons, head?_cons] at *
      exact ⟨by omega,trivial⟩

lemma loadRecords_first {fuel : ℕ} {rest : Bytes} {x : LogDelta} {xs : List LogDelta}
    (h : loadRecords crc fuel rest = x::xs) : 9+x.key.length+x.value.length ≤ readLe (rest.take 4) ∧
      8+readLe (rest.take 4) ≤ rest.length ∧ (rest.drop 8).head? = some x.op := by
  cases fuel with
  | zero => cases h
  | succ fuel =>
    rw [loadRecords] at h
    split at h
    · cases h
    rename_i hlen
    dsimp only at h
    split at h
    · cases h
    rename_i hrest
    rw [length_drop] at hrest
    split at h
    · cases h
    split at h
    · cases h
    rename_i delta hdecode
    cases h
    obtain ⟨hsize,hop⟩ := decodeBody_size hdecode
    rw [length_take] at hsize
    refine ⟨by omega,by omega,?_⟩
    rw [head?_take] at hop
    split at hop
    · cases hop
    · exact hop

def blank (op : UInt8) (m : ℕ) : LogDelta := { op := op, key := [], value := List.replicate m 0 }

lemma blank_size (op : UInt8) (m : ℕ) : (encodeBody (blank op m)).length = 9+m := by
  rw [body_length, blank, length_replicate]
  rfl

lemma header_piece_refused (hpos : 0 < cut) (hcut : cut < 8) (ds : List LogDelta) :
    load crc (header.take cut++encodeRecords crc [blank 0 0]) ≠ .ok ds := by
  have hbytes : encodeRecords crc [blank 0 0] =
      [9,0,0,0]++(le 4 (crc (encodeBody (blank 0 0))).toNat++encodeBody (blank 0 0)) := by
    rw [records_cons, encodeRecords, List.flatMap_nil, List.append_nil, encodeRecord, blank_size]
    rfl
  have hrest : 4 ≤ (le 4 (crc (encodeBody (blank 0 0))).toNat++encodeBody (blank 0 0)).length := by
    rw [List.length_append, le_length]
    omega
  rw [hbytes]
  generalize le 4 (crc (encodeBody (blank 0 0))).toNat++encodeBody (blank 0 0) = rest at hrest
  have hlong : ¬ (header.take cut++([9,0,0,0]++rest)).length < 8 := by
    rw [List.length_append, List.length_append, List.length_take]
    simp [header, logMagic]
    omega
  rw [load, if_neg hlong]
  interval_cases cut
  · rw [if_pos (by simp [header, logMagic])]
    exact fun h => by cases h
  · rw [if_pos (by simp [header, logMagic])]
    exact fun h => by cases h
  · rw [if_pos (by simp [header, logMagic])]
    exact fun h => by cases h
  all_goals
    rw [if_neg (by simp [header, logMagic]), if_pos]
    · exact fun h => by cases h
    · simp [header, logMagic, le, logVersion, readLe]

lemma blank_ne {fuel : ℕ} {rest : Bytes} {op : UInt8} {m : ℕ}
    (h : readLe (rest.take 4) < 9+m ∨ rest.length < 8+readLe (rest.take 4) ∨
      (rest.drop 8).head? ≠ some op) : loadRecords crc fuel rest ≠ [blank op m] := by
  intro hload
  obtain ⟨hsize,hlen,hop⟩ := loadRecords_first crc hload
  simp only [blank, length_nil, length_replicate] at hsize hop
  rcases h with h | h | h
  · omega
  · omega
  · exact h hop

lemma piece_loses {d : LogDelta} (hd : Fits d) {p : ℕ} (hpos : 0 < p) (hp : p < recordSize d) :
    ∃ e, Fits e ∧ ∀ fuel, loadRecords crc fuel
      ((encodeRecord crc d).take p++encodeRecords crc [e]) ≠ [e] := by
  have hbytes : ∀ op m, encodeRecords crc [blank op m] =
      le 4 (9+m)++(le 4 (crc (encodeBody (blank op m))).toNat++encodeBody (blank op m)) := by
    intro op m
    rw [records_cons, encodeRecords, List.flatMap_nil, List.append_nil, encodeRecord, blank_size]
  have hlen : ∀ op m, ((encodeRecord crc d).take p++encodeRecords crc [blank op m]).length =
      p+(17+m) := by
    intro op m
    have hrec : (encodeRecord crc d).length = recordSize d := record_length crc d
    rw [List.length_append, List.length_take, hbytes, List.length_append, List.length_append,
      le_length, le_length, blank_size]
    omega
  have hhead : 4 ≤ p → ∀ more, readLe (((encodeRecord crc d).take p++more).take 4) =
      (encodeBody d).length := by
    intro h4 more
    rw [take_append_of_le_length, take_take, Nat.min_eq_left h4, encodeRecord]
    · exact read_take 4 _ _ hd
    · rw [List.length_take, record_length]
      rw [recordSize] at hp
      omega
  have hfits : ∀ op m, m < 256^3 → Fits (blank op m) := by
    intro op m hm
    rw [Fits, blank_size]
    omega
  by_cases h4 : p < 4
  · -- the length is made of bytes of both records
    refine ⟨blank 0 0,hfits 0 0 (by decide),fun fuel => blank_ne crc (.inr (.inl ?_))⟩
    have htake : ((encodeRecord crc d).take p++encodeRecords crc [blank 0 0]).take 4 =
        (encodeRecord crc d).take p++(le 4 9).take (4-p) := by
      have hpiece : ((encodeRecord crc d).take p).length = p := by
        rw [List.length_take, record_length]
        rw [recordSize] at hp
        omega
      rw [take_append, take_of_length_le (by omega), hpiece, hbytes,
        take_append_of_le_length (by rw [le_length]; omega)]
    have hnine : readLe ((le 4 9).take (4-p)) = 9 := by
      interval_cases p <;> rfl
    have hlow : 256^1 ≤ 256^p := Nat.pow_le_pow_right (by decide) hpos
    rw [hlen, htake, readLe_append, hnine, List.length_take, record_length,
      Nat.min_eq_left (by rw [recordSize] at hp; omega)]
    omega
  · by_cases h9 : 9 ≤ p
    · -- the operation is that of the record that was cut
      refine ⟨blank (d.op+1) 0,hfits _ 0 (by decide),fun fuel => blank_ne crc (.inr (.inr ?_))⟩
      have hop : (encodeRecord crc d)[8]? = some d.op := by
        rw [encodeRecord, getElem?_append_right (by simp), getElem?_append_right (by simp)]
        simp [encodeBody]
      rw [head?_eq_getElem?, getElem?_drop, getElem?_append_left,
        getElem?_take_of_lt (by omega), Nat.add_zero, hop]
      · simp
      · rw [List.length_take, record_length]
        rw [recordSize] at hp
        omega
    · by_cases hbig : 17 < (encodeBody d).length
      · refine ⟨blank 0 0,hfits 0 0 (by decide),fun fuel => blank_ne crc (.inr (.inl ?_))⟩
        rw [hlen, hhead (not_lt.mp h4)]
        omega
      · refine ⟨blank 0 (encodeBody d).length,hfits 0 _ (by omega),
          fun fuel => blank_ne crc (.inl ?_)⟩
        rw [hhead (not_lt.mp h4)]
        omega

lemma not_continues (hds : ∀ d ∈ ds, Fits d)
    (h : ¬ AtBoundary ds cut) : ∃ further, (∀ d ∈ further, Fits d) ∧
      ¬ Continues crc ds cut further := by
  simp only [AtBoundary, not_or, not_and] at h
  obtain ⟨hnil,hpos,hleft⟩ := h
  by_cases hcut : cut < 8
  · refine ⟨[blank 0 0],?_,?_⟩
    · intro d hd
      rw [mem_singleton.mp hd, Fits, blank_size]
      decide
    have hfile : (append crc [] ds).take cut = header.take cut := by
      have hlen : header.length = 8 := rfl
      rw [append_nil, if_neg hnil, take_append_of_le_length (by omega)]
    have hne : header.take cut ≠ [] := by
      intro hempty
      have hlen := congrArg length hempty
      rw [length_take] at hlen
      simp [header, logMagic] at hlen
      omega
    rw [Continues, hfile, append_behind crc hne]
    exact header_piece_refused crc (Nat.pos_of_ne_zero hpos) hcut _
  · obtain ⟨piece,htake,hpiece⟩ := take_records crc ds (cut-8)
    obtain ⟨d,hd,hp,hlt,rfl⟩ := hpiece.resolve_left (fun hempty => hleft (not_lt.mp hcut) hempty.2)
    obtain ⟨e,he,hlost⟩ := piece_loses crc (hds d hd) hp hlt
    refine ⟨[e],fun d' hd' => mem_singleton.mp hd' ▸ he,?_⟩
    have hwhole : ∀ d ∈ wholeDeltas ds (cut-8), Fits d :=
      fun d hd => hds d (wholeDeltas_mem ds _ d hd)
    have hlong := records_long crc (wholeDeltas ds (cut-8))
    have hne : header++(encodeRecords crc (wholeDeltas ds (cut-8))++
        (encodeRecord crc d).take (leftover ds (cut-8))) ≠ [] := by
      simp [header, logMagic]
    rw [Continues, take_file crc hnil (not_lt.mp hcut), htake, append_behind crc hne,
      append_assoc, append_assoc, load_header, length_append]
    intro hload
    obtain ⟨fuel,hfuel⟩ := Nat.exists_eq_add_of_le (show (wholeDeltas ds (cut-8)).length ≤
      8+((encodeRecords crc (wholeDeltas ds (cut-8))).length+
        ((encodeRecord crc d).take (leftover ds (cut-8))++encodeRecords crc [e]).length) by omega)
    rw [hfuel, load_records crc _ hwhole] at hload
    exact hlost fuel (append_cancel_left (Except.ok.inj hload))

/-- After a cut everything that is appended is read if and only if the cut is
at a boundary; where nothing is appended, what was whole is read after any cut. -/
theorem appends_after_cut_read_iff (ds : List LogDelta) (hds : ∀ d ∈ ds, Fits d) (cut : ℕ) :
    ((∀ further, (∀ d ∈ further, Fits d) → Continues crc ds cut further) ↔ AtBoundary ds cut) ∧
      Continues crc ds cut [] := by
  refine ⟨⟨fun h => ?_,fun h further hfurther => continues_boundary crc hds hfurther h⟩,
    continues_nil crc hds cut⟩
  by_contra hcut
  obtain ⟨further,hfurther,hlost⟩ := not_continues crc hds hcut
  exact hlost (h further hfurther)

theorem whole_records_continue : Continues (fun _ => 0) [blank 0 1, blank 0 2] 26 [blank 1 0] :=
  ((appends_after_cut_read_iff (fun _ => 0) [blank 0 1, blank 0 2] (by simp [Fits, blank_size])
    26).1.mpr (Or.inr (Or.inr (by decide)))) [blank 1 0] (by simp [Fits, blank_size])

/-- One byte of the second delta is left, and the third one is not read. -/
theorem piece_hides_delta : load (fun _ => 0) (append (fun _ => 0)
      ((append (fun _ => 0) [] [blank 0 1, blank 0 2]).take 27) [blank 1 0]) = .ok [blank 0 1] ∧
      ¬ Continues (fun _ => 0) [blank 0 1, blank 0 2] 27 [blank 1 0] := by
  rw [Continues]
  decide

end

end ByteDB.TableLog
