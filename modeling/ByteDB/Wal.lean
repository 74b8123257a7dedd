import ByteDB.Bytes

/-!
# The write-ahead log

A record is written behind a header with its length, a checksum and the number
of the record before it. Opening a log reads it to its end and cuts off a last
record that is not whole; a rest shorter than a header is left where it is,
and what is appended later stands behind it. The encoding of the records and
the checksum are parameters.
-/

set_option autoImplicit false

namespace ByteDB.Wal
open ByteDB.LittleEndian List

variable {R : Type}

inductive WalError where
  | walCorrupted (lsn : ℕ)
  | tooLarge (size : ℕ)
  deriving DecidableEq, Repr

structure Format (R : Type) where
  serialize : R → Bytes
  deserialize : Bytes → Option R
  crc : Bytes → UInt32

def Format.RoundTrip (fmt : Format R) : Prop := ∀ r, fmt.deserialize (fmt.serialize r) = some r

/-- What can be read is a text of at least 16 characters: the shortest record
is an object with the name of its kind and a transaction. -/
def Format.Text (fmt : Format R) : Prop :=
  ∀ data r, fmt.deserialize data = some r → 16 ≤ data.length ∧ 0 ∉ data

def logRecordHeaderSize : ℕ := 16

def maxLogRecordSize : ℕ := 64*1024*1024

variable (fmt : Format R)

/-- A record behind its header, for the record that has the number `prev+1`. -/
def frame (prev : ℕ) (r : R) : Bytes :=
  let data := fmt.serialize r
  le 4 data.length++(le 4 (fmt.crc (le 8 prev++data)).toNat++(le 8 prev++data))

inductive Front (R : Type) where
  | short
  | torn
  | bad (isLast : Bool)
  | good (record : R) (size : ℕ)

def frontOf (lsn : ℕ) (rest : Bytes) : Front R :=
  if rest.length < logRecordHeaderSize then .short
  else
    let len := readLe (rest.take 4)
    let checksum := readLe ((rest.drop 4).take 4)
    let prev := readLe ((rest.drop 8).take 8)
    let body := rest.drop 16
    let data := body.take len
    if maxLogRecordSize < len ∨ body.length < len then .torn
    else if (fmt.crc (le 8 prev++data)).toNat ≠ checksum ∨ prev ≠ lsn then
      .bad (body.length ≤ len)
    else
      match fmt.deserialize data with
      | none => .bad (body.length ≤ len)
      | some r => .good r (logRecordHeaderSize+len)

/-- The loop of `scan_and_repair` and of `read_all_records`: the records, and
the length to which the file is cut if it is. -/
def readFrames : ℕ → ℕ → ℕ → Bytes → Except WalError (List R × Option ℕ)
  | 0, _, _, _ => .ok ([],none)
  | fuel+1, lsn, offset, rest =>
    match frontOf fmt lsn rest with
    | .short => .ok ([],none)
    | .torn => .ok ([],some offset)
    | .bad true => .ok ([],some offset)
    | .bad false => .error (.walCorrupted (lsn+1))
    | .good r size => do
      let (records,cut) ← readFrames fuel (lsn+1) (offset+size) (rest.drop size)
      .ok (r::records,cut)

def readFile (file : Bytes) : Except WalError (List R × Bytes) := do
  let (records,cut) ← readFrames fmt file.length 0 0 file
  .ok (records,match cut with
    | none => file
    | some offset => file.take offset)

structure LogManager where
  file : Bytes
  buffer : Bytes
  currentLsn : ℕ
  flushedLsn : ℕ
  deriving DecidableEq, Repr

namespace LogManager

def scanAndRepair (file : Bytes) : Except WalError (ℕ × Bytes) := do
  let (records,file) ← readFile fmt file
  .ok (records.length,file)

def new (file : Bytes) : Except WalError LogManager := do
  let (lsn,file) ← if file = [] then .ok (0,file) else scanAndRepair fmt file
  .ok { file := file, buffer := [], currentLsn := lsn, flushedLsn := lsn }

def append (lm : LogManager) (r : R) : Except WalError LogManager :=
  if maxLogRecordSize < (fmt.serialize r).length then
    .error (.tooLarge (fmt.serialize r).length)
  else
    .ok { lm with
      buffer := lm.buffer++frame fmt lm.currentLsn r
      currentLsn := lm.currentLsn+1 }

def appendAll (lm : LogManager) (records : List R) : Except WalError LogManager :=
  records.foldlM (append fmt) lm

def flush (lm : LogManager) : LogManager :=
  if lm.currentLsn ≤ lm.flushedLsn then lm
  else { lm with file := lm.file++lm.buffer, buffer := [], flushedLsn := lm.currentLsn }

def numbered (records : List R) : List (ℕ × R) := records.zipIdx.map (fun r => (r.2+1,r.1))

def readAllRecords (lm : LogManager) : Except WalError (List (ℕ × R) × LogManager) := do
  let (records,file) ← readFile fmt lm.file
  .ok (numbered records,{ lm with file := file })

def written (records : List R) : Except WalError Bytes := do
  let lm ← new fmt []
  let lm ← appendAll fmt lm records
  .ok lm.flush.file

def reopened (file : Bytes) (further : List R) : Except WalError (List (ℕ × R)) := do
  let lm ← new fmt file
  let lm ← appendAll fmt lm further
  let lm ← new fmt lm.flush.file
  let (records,_) ← readAllRecords fmt lm
  .ok records

end LogManager

def frames : ℕ → List R → Bytes
  | _, [] => []
  | prev, r::rs => frame fmt prev r++frames (prev+1) rs

def frameSize (r : R) : ℕ := logRecordHeaderSize+(fmt.serialize r).length

def wholeRecords : List R → ℕ → List R
  | [], _ => []
  | r::rs, n => if frameSize fmt r ≤ n then r::wholeRecords rs (n-frameSize fmt r) else []

def leftover : List R → ℕ → ℕ
  | [], _ => 0
  | r::rs, n => if frameSize fmt r ≤ n then leftover rs (n-frameSize fmt r) else n

def Loggable (r : R) : Prop := (fmt.serialize r).length ≤ maxLogRecordSize

variable {fmt}

@[simp] lemma frame_length (prev : ℕ) (r : R) : (frame fmt prev r).length = frameSize fmt r := by
  simp [frame, frameSize, logRecordHeaderSize]
  omega

lemma frame_size_pos (r : R) : 0 < frameSize fmt r := by
  simp [frameSize, logRecordHeaderSize]

lemma frame_head (prev : ℕ) (r : R) (rest : Bytes) (h : Loggable fmt r) :
    readLe ((frame fmt prev r++rest).take 4) = (fmt.serialize r).length := by
  rw [Loggable, maxLogRecordSize] at h
  simp only [frame, append_assoc]
  exact read_take 4 _ _ (by omega)

lemma frontOf_frame (hround : fmt.RoundTrip) (prev : ℕ) (hprev : prev < 256^8) (r : R)
    (h : Loggable fmt r) (rest : Bytes) :
    frontOf fmt prev (frame fmt prev r++rest) = .good r (frameSize fmt r) := by
  have hmax : ¬ maxLogRecordSize < (fmt.serialize r).length := not_lt.mpr h
  have hcrc : (fmt.crc (le 8 prev++fmt.serialize r)).toNat < 256^4 := UInt32.toNat_lt _
  have hlong : ¬ (frame fmt prev r++rest).length < logRecordHeaderSize := by
    simp [frameSize]
    omega
  have hdrop4 : (frame fmt prev r++rest).drop 4 =
      le 4 (fmt.crc (le 8 prev++fmt.serialize r)).toNat++ (le 8 prev++(fmt.serialize r++rest)) := by
    simp only [frame, append_assoc, drop_le]
  have hdrop8 : (frame fmt prev r++rest).drop 8 = le 8 prev++(fmt.serialize r++rest) := by
    rw [show (8 : ℕ) = 4+4 from rfl, ← drop_drop, hdrop4, drop_le]
  have hdrop16 : (frame fmt prev r++rest).drop 16 = fmt.serialize r++rest := by
    rw [show (16 : ℕ) = 8+8 from rfl, ← drop_drop, hdrop8, drop_le]
  rw [frontOf, if_neg hlong]
  simp only [frame_head prev r rest h, hdrop4, hdrop8, hdrop16, read_take 4 _ _ hcrc,
    read_take 8 _ _ hprev, take_left, hround r]
  simp [hmax, frameSize]

variable {rest : Bytes}

lemma frontOf_short (lsn : ℕ) (h : rest.length < logRecordHeaderSize) :
    frontOf fmt lsn rest = .short := by
  rw [frontOf, if_pos h]

lemma frontOf_torn (lsn prev n : ℕ) (r : R) (h : Loggable fmt r) (hn : n < frameSize fmt r)
    (h16 : 16 ≤ n) : frontOf fmt lsn ((frame fmt prev r).take n) = .torn := by
  have hlen : ((frame fmt prev r).take n).length = n := by
    rw [length_take, frame_length]
    omega
  have hhead : readLe (((frame fmt prev r).take n).take 4) = (fmt.serialize r).length := by
    rw [take_take, Nat.min_eq_left (by omega), ← frame_head prev r [] h, append_nil]
  rw [frontOf, if_neg (by rw [hlen, logRecordHeaderSize]; omega)]
  simp only [hhead]
  rw [if_pos]
  right
  rw [frameSize, logRecordHeaderSize] at hn
  rw [length_drop, hlen]
  omega

lemma frames_append (prev : ℕ) (rs ss : List R) :
    frames fmt prev (rs++ss) = frames fmt prev rs++frames fmt (prev+rs.length) ss := by
  induction rs generalizing prev with
  | nil => rfl
  | cons r rs ih =>
    rw [cons_append, frames, frames, ih, append_assoc, length_cons]
    congr 3
    omega

lemma frames_long (prev : ℕ) (rs : List R) : rs.length ≤ (frames fmt prev rs).length := by
  induction rs generalizing prev with
  | nil => exact Nat.zero_le _
  | cons r rs ih =>
    have hr : 0 < frameSize fmt r := frame_size_pos r
    have hrs := ih (prev+1)
    rw [frames, length_append, frame_length, length_cons]
    omega

lemma readFrames_frames (hround : fmt.RoundTrip) (rs : List R) (h : ∀ r ∈ rs, Loggable fmt r)
    (fuel prev offset : ℕ) (hprev : prev+rs.length ≤ 256^8) (rest : Bytes) :
    readFrames fmt (rs.length+fuel) prev offset (frames fmt prev rs++rest) =
      (readFrames fmt fuel (prev+rs.length) (offset+(frames fmt prev rs).length) rest).map
        (fun x => (rs++x.1,x.2)) := by
  induction rs generalizing prev offset with
  | nil =>
    simp only [length_nil, Nat.zero_add, frames, nil_append, Nat.add_zero]
    cases readFrames fmt fuel prev offset rest <;> rfl
  | cons r rs ih =>
    rw [length_cons] at hprev
    have hfuel : (r::rs).length+fuel = rs.length+fuel+1 := by
      rw [length_cons]
      omega
    have hfront := frontOf_frame hround prev (by omega) r (h r (by simp))
      (frames fmt (prev+1) rs++rest)
    have hdrop : (frame fmt prev r++(frames fmt (prev+1) rs++rest)).drop (frameSize fmt r) =
        frames fmt (prev+1) rs++rest := drop_left' (frame_length prev r)
    rw [hfuel, frames, append_assoc, readFrames, hfront]
    simp only [hdrop]
    rw [ih (fun s hs => h s (by simp [hs])) (prev+1) _ (by omega), length_append, frame_length,
      length_cons]
    rw [show prev+1+rs.length = prev+(rs.length+1) by omega,
      show offset+frameSize fmt r+(frames fmt (prev+1) rs).length =
        offset+(frameSize fmt r+(frames fmt (prev+1) rs).length) by omega]
    cases readFrames fmt fuel (prev+(rs.length+1)) _ rest <;> rfl

lemma take_frames (rs : List R) (prev n : ℕ) :
    ∃ rest, (frames fmt prev rs).take n = frames fmt prev (wholeRecords fmt rs n)++rest ∧
      rest.length = leftover fmt rs n ∧ (rest = [] ∨ ∃ r ∈ rs, leftover fmt rs n < frameSize fmt r ∧
        rest = (frame fmt (prev+(wholeRecords fmt rs n).length) r).take (leftover fmt rs n)) := by
  induction rs generalizing prev n with
  | nil => exact ⟨[],by simp [frames, wholeRecords],rfl,.inl rfl⟩
  | cons r rs ih =>
    rw [frames, wholeRecords, leftover]
    by_cases hn : frameSize fmt r ≤ n
    · obtain ⟨rest,htake,hlen,hrest⟩ := ih (prev+1) (n-frameSize fmt r)
      rw [if_pos hn, if_pos hn]
      refine ⟨rest,?_,hlen,hrest.imp_right ?_⟩
      · rw [take_append, take_of_length_le (by simpa using hn), frame_length, htake,
          frames, append_assoc]
      rintro ⟨r',hr',hlt,heq⟩
      refine ⟨r',by simp [hr'],hlt,?_⟩
      rw [length_cons, show prev+((wholeRecords fmt rs (n-frameSize fmt r)).length+1) =
        prev+1+(wholeRecords fmt rs (n-frameSize fmt r)).length by omega]
      exact heq
    · rw [if_neg hn, if_neg hn]
      have hlt : n < frameSize fmt r := not_le.mp hn
      have htake : (frame fmt prev r++frames fmt (prev+1) rs).take n = (frame fmt prev r).take n :=
        take_append_of_le_length (by simpa using hlt.le)
      refine ⟨(frame fmt prev r).take n,htake,?_,.inr ⟨r,by simp,hlt,rfl⟩⟩
      rw [length_take, frame_length, Nat.min_eq_left hlt.le]

lemma whole_sublist (rs : List R) (n : ℕ) : ∀ r ∈ wholeRecords fmt rs n, r ∈ rs := by
  induction rs generalizing n with
  | nil => simp [wholeRecords]
  | cons r rs ih =>
    rw [wholeRecords]
    split
    · intro s hs
      rcases mem_cons.mp hs with rfl | hs
      · exact mem_cons_self
      · exact mem_cons_of_mem _ (ih _ s hs)
    · simp

lemma whole_length (rs : List R) (n : ℕ) : (wholeRecords fmt rs n).length ≤ rs.length := by
  induction rs generalizing n with
  | nil => exact le_rfl
  | cons r rs ih =>
    rw [wholeRecords]
    split
    · exact Nat.succ_le_succ (ih _)
    · exact Nat.zero_le _

lemma readFrames_stop {fuel lsn offset : ℕ} {x : List R × Option ℕ}
    (hstop : ∀ r size, frontOf fmt lsn rest ≠ .good r size)
    (h : readFrames fmt fuel lsn offset rest = .ok x) :
    x.1 = [] ∧ (x.2 = none ∨ x.2 = some offset) := by
  cases fuel with
  | zero =>
    rw [readFrames] at h
    cases h
    exact ⟨rfl,.inl rfl⟩
  | succ fuel =>
    rw [readFrames] at h
    cases hfront : frontOf fmt lsn rest with
    | short =>
      rw [hfront] at h
      cases h
      exact ⟨rfl,.inl rfl⟩
    | torn =>
      rw [hfront] at h
      cases h
      exact ⟨rfl,.inr rfl⟩
    | bad isLast =>
      rw [hfront] at h
      cases isLast with
      | false => cases h
      | true =>
        cases h
        exact ⟨rfl,.inr rfl⟩
    | good r size => exact absurd hfront (hstop r size)

section
variable (hround : fmt.RoundTrip) (rs : List R) (h : ∀ r ∈ rs, Loggable fmt r)
  (hlsn : rs.length ≤ 256^8)
include hround h hlsn

lemma readFile_frames (rest : Bytes) :
    ∃ fuel, rest.length ≤ fuel ∧ readFile fmt (frames fmt 0 rs++rest) =
      (readFrames fmt fuel rs.length (frames fmt 0 rs).length rest).map
        (fun x => (rs++x.1,match x.2 with
          | none => frames fmt 0 rs++rest
          | some offset => (frames fmt 0 rs++rest).take offset)) := by
  have hlong : rs.length ≤ (frames fmt 0 rs).length := frames_long 0 rs
  refine ⟨(frames fmt 0 rs++rest).length-rs.length,?_,?_⟩
  · rw [length_append]
    omega
  have hfuel : (frames fmt 0 rs++rest).length =
      rs.length+((frames fmt 0 rs++rest).length-rs.length) := by
    rw [length_append]
    omega
  rw [readFile]
  conv_lhs => rw [hfuel]
  rw [readFrames_frames hround rs h _ 0 0 (by omega), Nat.zero_add, Nat.zero_add]
  cases readFrames fmt _ rs.length (frames fmt 0 rs).length rest <;> rfl

lemma readFile_short (hrest : rest.length < logRecordHeaderSize) :
    readFile fmt (frames fmt 0 rs++rest) = .ok (rs,frames fmt 0 rs++rest) := by
  obtain ⟨fuel,-,heq⟩ := readFile_frames hround rs h hlsn rest
  have hstop : readFrames fmt fuel rs.length (frames fmt 0 rs).length rest = .ok ([],none) := by
    cases fuel with
    | zero => rfl
    | succ fuel => rw [readFrames, frontOf_short rs.length hrest]
  rw [heq, hstop]
  simp [Except.map]

lemma readFile_whole : readFile fmt (frames fmt 0 rs) = .ok (rs,frames fmt 0 rs) := by
  have hshort : readFile fmt (frames fmt 0 rs++[]) = .ok (rs,frames fmt 0 rs++[]) :=
    readFile_short hround rs h hlsn (by decide)
  rwa [append_nil] at hshort

lemma readFile_torn (hrest : rest ≠ []) (htorn : frontOf fmt rs.length rest = .torn) :
    readFile fmt (frames fmt 0 rs++rest) = .ok (rs,frames fmt 0 rs) := by
  obtain ⟨fuel,hfuel,heq⟩ := readFile_frames hround rs h hlsn rest
  have hpos := length_pos_of_ne_nil hrest
  obtain ⟨fuel,rfl⟩ : ∃ k, fuel = k+1 := ⟨fuel-1,by omega⟩
  rw [heq, readFrames, htorn]
  simp [Except.map]

lemma readFile_stop {x : List R × Bytes}
    (hstop : ∀ r size, frontOf fmt rs.length rest ≠ .good r size)
    (hx : readFile fmt (frames fmt 0 rs++rest) = .ok x) :
    x.1 = rs ∧ (x.2 = frames fmt 0 rs++rest ∨ x.2 = frames fmt 0 rs) := by
  obtain ⟨fuel,-,heq⟩ := readFile_frames hround rs h hlsn rest
  rw [heq] at hx
  cases hread : readFrames fmt fuel rs.length (frames fmt 0 rs).length rest with
  | error err =>
    rw [hread] at hx
    cases hx
  | ok y =>
    obtain ⟨hnil,hcut⟩ := readFrames_stop hstop hread
    rw [hread] at hx
    cases hx
    refine ⟨by simp [hnil],?_⟩
    rcases hcut with hcut | hcut
    · exact .inl (by simp [hcut])
    · exact .inr (by simp [hcut])

end

variable {r : R} {all : List (ℕ × R)}

namespace LogManager

variable {lm lm' : LogManager}

lemma append_ok (h : append fmt lm r = .ok lm') : Loggable fmt r := by
  rw [append] at h
  split at h
  · cases h
  · exact not_lt.mp ‹_›

variable {records : List R}

lemma appendAll_loggable
    (h : appendAll fmt lm records = .ok lm') : ∀ r ∈ records, Loggable fmt r := by
  induction records generalizing lm with
  | nil => simp
  | cons r rs ih =>
    rw [appendAll, foldlM_cons] at h
    cases hr : append fmt lm r with
    | error err =>
      rw [hr] at h
      cases h
    | ok lm1 =>
      rw [hr] at h
      intro s hs
      rcases mem_cons.mp hs with rfl | hs
      · exact append_ok hr
      · exact ih h s hs

lemma appendAll_frames (records : List R) (h : ∀ r ∈ records, Loggable fmt r) (lm : LogManager) :
    appendAll fmt lm records = .ok { lm with
      buffer := lm.buffer++frames fmt lm.currentLsn records
      currentLsn := lm.currentLsn+records.length } := by
  induction records generalizing lm with
  | nil => simp [appendAll, frames, pure, Except.pure]
  | cons r rs ih =>
    have hr : append fmt lm r = .ok { lm with
        buffer := lm.buffer++frame fmt lm.currentLsn r
        currentLsn := lm.currentLsn+1 } := if_neg (not_lt.mpr (h r (by simp)))
    have htail := ih (fun s hs => h s (by simp [hs])) { lm with
        buffer := lm.buffer++frame fmt lm.currentLsn r
        currentLsn := lm.currentLsn+1 }
    rw [appendAll, foldlM_cons, hr]
    refine htail.trans ?_
    simp only [frames, append_assoc, length_cons]
    rw [Nat.add_assoc, Nat.add_comm 1]

/-- A manager that has written everything is at `lsn`. -/
def opened (file : Bytes) (lsn : ℕ) : LogManager :=
  { file := file, buffer := [], currentLsn := lsn, flushedLsn := lsn }

lemma append_flush (records : List R) (h : ∀ r ∈ records, Loggable fmt r) (file : Bytes)
    (lsn : ℕ) : ∃ lm, appendAll fmt (opened file lsn) records = .ok lm ∧
      lm.flush.file = file++frames fmt lsn records := by
  refine ⟨_,appendAll_frames records h _,?_⟩
  cases records with
  | nil => simp [flush, opened, frames]
  | cons r rs => simp [flush, opened]

variable {file file' : Bytes}

lemma new_eq (h : readFile fmt file = .ok (records,file')) :
    new fmt file = .ok (opened file' records.length) := by
  rw [new]
  by_cases hfile : file = []
  · subst hfile
    cases h
    rfl
  · rw [if_neg hfile, scanAndRepair, h]
    rfl

lemma written_eq (h : written fmt records = .ok file) :
    (∀ r ∈ records, Loggable fmt r) ∧ file = frames fmt 0 records := by
  have h' : (appendAll fmt (opened [] 0) records >>= fun lm => .ok lm.flush.file) = .ok file := h
  cases happ : appendAll fmt (opened [] 0) records with
  | error err =>
    rw [happ] at h'
    cases h'
  | ok lm =>
    have hlog := appendAll_loggable happ
    obtain ⟨lm',happ',hfile⟩ := append_flush records hlog [] 0
    rw [happ] at h' happ'
    cases happ'
    cases h'
    exact ⟨hlog,hfile⟩

lemma reopened_eq {records further : List R}
    (hread : readFile fmt file = .ok (records,file')) (hfurther : ∀ r ∈ further, Loggable fmt r) :
    reopened fmt file further = (do
      let (_,again) ← readFile fmt (file'++frames fmt records.length further)
      let (all,_) ← readFile fmt again
      .ok (numbered all)) := by
  obtain ⟨lm,happ,hflush⟩ := append_flush further hfurther file' records.length
  rw [reopened, new_eq hread]
  change (appendAll fmt (opened file' records.length) further >>= _) = _
  rw [happ]
  change (new fmt lm.flush.file >>= _) = _
  rw [hflush]
  cases hagain : readFile fmt (file'++frames fmt records.length further) with
  | error err =>
    have hne : file'++frames fmt records.length further ≠ [] := by
      intro hnil
      rw [hnil] at hagain
      cases hagain
    rw [new, if_neg hne, scanAndRepair, hagain]
    rfl
  | ok x =>
    rw [new_eq hagain]
    change (readAllRecords fmt (opened x.2 x.1.length) >>= _) = _
    change _ = (readFile fmt x.2 >>= _)
    rw [readAllRecords, opened]
    cases readFile fmt x.2 <;> rfl

lemma reopened_loggable {further : List R}
    (h : reopened fmt file further = .ok all) : ∀ r ∈ further, Loggable fmt r := by
  rw [reopened] at h
  cases hnew : new fmt file with
  | error err =>
    rw [hnew] at h
    cases h
  | ok lm =>
    rw [hnew] at h
    change (appendAll fmt lm further >>= _) = _ at h
    cases happ : appendAll fmt lm further with
    | error err =>
      rw [happ] at h
      cases h
    | ok lm' => exact appendAll_loggable happ

end LogManager

variable (fmt) in
/-- The records can be appended, and the cut does not leave a piece of a
header in front of them. -/
def Mends (records : List R) (cut : ℕ) (further : List R) : Prop :=
  (∀ r ∈ further, Loggable fmt r) ∧
    (leftover fmt records cut = 0 ∨ logRecordHeaderSize ≤ leftover fmt records cut ∨ further = [])

lemma frontOf_good {lsn size : ℕ} (h : frontOf fmt lsn rest = .good r size) :
    ∃ len, fmt.deserialize ((rest.drop 16).take len) = some r := by
  rw [frontOf] at h
  split at h
  · cases h
  simp only at h
  split at h
  · cases h
  split at h
  · cases h
  · split at h
    · cases h
    · cases h
      exact ⟨_,‹_›⟩

lemma frame_getElem (prev : ℕ) (r : R) (more : Bytes) (h : prev < 256^7) :
    (frame fmt prev r++more)[15]? = some 0 := by
  have hbyte : (le 8 prev)[7]? = some 0 := by
    rw [le_getElem? 8 prev 7 (by decide), Nat.div_eq_of_lt h]
    rfl
  have hlen : 15 < (frame fmt prev r).length := by
    rw [frame_length, frameSize, logRecordHeaderSize]
    omega
  rw [getElem?_append_left hlen, frame]
  rw [getElem?_append_right (by simp), getElem?_append_right (by simp),
    getElem?_append_left (by simp)]
  simpa using hbyte

/-- A record behind a piece of a header is not found: what is read as its text
has the last byte of its header in it. -/
lemma frontOf_behind (htext : fmt.Text) (lsn prev : ℕ) (hprev : prev < 256^7) (r : R)
    (piece more : Bytes) (hpos : piece ≠ []) (hpiece : piece.length < logRecordHeaderSize) :
    ∀ s size, frontOf fmt lsn (piece++(frame fmt prev r++more)) ≠ .good s size := by
  intro s size hgood
  obtain ⟨len,hdata⟩ := frontOf_good hgood
  obtain ⟨hlong,hzero⟩ := htext _ _ hdata
  have hone := length_pos_of_ne_nil hpos
  rw [logRecordHeaderSize] at hpiece
  rw [length_take] at hlong
  apply hzero
  have hbyte : (((piece++(frame fmt prev r++more)).drop 16).take len)[piece.length-1]? =
      some 0 := by
    rw [getElem?_take_of_lt (by omega), getElem?_drop,
      getElem?_append_right (by omega), show 16+(piece.length-1)-piece.length = 15 by omega]
    exact frame_getElem prev r more hprev
  exact mem_of_getElem? hbyte

lemma numbered_length (rs : List R) : (LogManager.numbered rs).length = rs.length := by
  simp [LogManager.numbered]

section
variable (hround : fmt.RoundTrip)
include hround

lemma readFile_cut (records : List R)
    (h : ∀ r ∈ records, Loggable fmt r) (hlsn : records.length ≤ 256^8) (cut : ℕ) :
    ∃ piece, readFile fmt ((frames fmt 0 records).take cut) =
        .ok (wholeRecords fmt records cut,frames fmt 0 (wholeRecords fmt records cut)++piece) ∧
      (piece = [] ↔ leftover fmt records cut = 0 ∨ logRecordHeaderSize ≤ leftover fmt records cut) ∧
      piece.length < logRecordHeaderSize := by
  obtain ⟨rest,htake,hlen,hrest⟩ := @take_frames R fmt records 0 cut
  have hwhole : ∀ r ∈ wholeRecords fmt records cut, Loggable fmt r :=
    fun r hr => h r (whole_sublist records cut r hr)
  have hcount : (wholeRecords fmt records cut).length ≤ 256^8 :=
    (whole_length records cut).trans hlsn
  rw [htake]
  by_cases hshort : rest.length < logRecordHeaderSize
  · refine ⟨rest,readFile_short hround _ hwhole hcount hshort,?_,hshort⟩
    rw [← length_eq_zero_iff, ← hlen]
    omega
  have hne : rest ≠ [] := by
    rintro rfl
    exact hshort (by decide)
  obtain ⟨r,hr,hlt,heq⟩ := hrest.resolve_left hne
  rw [not_lt] at hshort
  refine ⟨[],?_,?_,by decide⟩
  · rw [append_nil]
    refine readFile_torn hround _ hwhole hcount hne ?_
    rw [heq]
    exact frontOf_torn _ _ _ r (h r hr) hlt (by rw [← hlen]; exact hshort)
  · exact iff_of_true rfl (.inr (hlen ▸ hshort))

lemma reopened_of_mends (records : List R)
    (hlog : ∀ r ∈ records, Loggable fmt r) (cut : ℕ) (further : List R)
    (hlsn : records.length+further.length ≤ 256^8) (hmends : Mends fmt records cut further) :
    LogManager.reopened fmt ((frames fmt 0 records).take cut) further =
      .ok (LogManager.numbered (wholeRecords fmt records cut++further)) := by
  obtain ⟨piece,hread,hpiece,hshort⟩ := readFile_cut hround records hlog (by omega) cut
  obtain ⟨hfurther,hmends⟩ := hmends
  have hwhole : ∀ r ∈ wholeRecords fmt records cut, Loggable fmt r :=
    fun r hr => hlog r (whole_sublist records cut r hr)
  have hcount := @whole_length R fmt records cut
  rw [LogManager.reopened_eq hread hfurther]
  by_cases hnil : piece = []
  · have hall : ∀ r ∈ wholeRecords fmt records cut++further, Loggable fmt r := by
      intro r hr
      exact (mem_append.mp hr).elim (hwhole r) (hfurther r)
    have hlast := readFile_whole hround _ hall (by rw [length_append]; omega)
    rw [hnil, append_nil, ← Nat.zero_add (wholeRecords fmt records cut).length,
      ← frames_append, hlast]
    change (readFile fmt _ >>= _) = _
    rw [hlast]
    rfl
  · have hempty : further = [] := by
      rcases hmends with hzero | hlong | hempty
      · exact absurd (hpiece.mpr (.inl hzero)) hnil
      · exact absurd (hpiece.mpr (.inr hlong)) hnil
      · exact hempty
    have hlast := readFile_short hround _ hwhole (by omega) hshort
    rw [hempty, frames, append_nil, hlast, append_nil]
    change (readFile fmt _ >>= _) = _
    rw [hlast]
    rfl

lemma reopened_stop (rs : List R) (h : ∀ r ∈ rs, Loggable fmt r) (hlsn : rs.length ≤ 256^8)
    (hstop : ∀ r size, frontOf fmt rs.length rest ≠ .good r size) (hok : (do
      let (_,again) ← readFile fmt (frames fmt 0 rs++rest)
      let (all,_) ← readFile fmt again
      .ok (LogManager.numbered all)) = Except.ok all) : all = LogManager.numbered rs := by
  cases hagain : readFile fmt (frames fmt 0 rs++rest) with
  | error err =>
    rw [hagain] at hok
    cases hok
  | ok x =>
    rw [hagain] at hok
    change (readFile fmt x.2 >>= _) = _ at hok
    cases hlast : readFile fmt x.2 with
    | error err =>
      rw [hlast] at hok
      cases hok
    | ok y =>
      have hy : y.1 = rs := by
        rcases (readFile_stop hround rs h hlsn hstop hagain).2 with hx | hx
        · rw [hx] at hlast
          exact (readFile_stop hround rs h hlsn hstop hlast).1
        · rw [hx, readFile_whole hround rs h hlsn] at hlast
          cases hlast
          rfl
      rw [hlast] at hok
      rw [← hy]
      exact (Except.ok.inj hok).symm

lemma mends_of_reopened (htext : fmt.Text) (records : List R)
    (hlog : ∀ r ∈ records, Loggable fmt r) (cut : ℕ) (further : List R)
    (hlsn : records.length < 256^7)
    (hok : LogManager.reopened fmt ((frames fmt 0 records).take cut) further =
      .ok (LogManager.numbered (wholeRecords fmt records cut++further))) :
    Mends fmt records cut further := by
  obtain ⟨piece,hread,hpiece,hshort⟩ := readFile_cut hround records hlog (by omega) cut
  have hwhole : ∀ r ∈ wholeRecords fmt records cut, Loggable fmt r :=
    fun r hr => hlog r (whole_sublist records cut r hr)
  have hcount := @whole_length R fmt records cut
  have hfurther := LogManager.reopened_loggable hok
  refine ⟨hfurther,?_⟩
  by_contra hbad
  push Not at hbad
  obtain ⟨hpos,hlt,hne⟩ := hbad
  have hnil : piece ≠ [] := by
    intro hnil
    rcases hpiece.mp hnil with hzero | hlong
    · exact hpos hzero
    · omega
  obtain ⟨r,rs,rfl⟩ := exists_cons_of_ne_nil hne
  have hstop := frontOf_behind htext (wholeRecords fmt records cut).length
    (wholeRecords fmt records cut).length (by omega) r piece
    (frames fmt ((wholeRecords fmt records cut).length+1) rs) hnil hshort
  rw [LogManager.reopened_eq hread hfurther, frames, append_assoc] at hok
  have hlen := congrArg List.length (reopened_stop hround _ hwhole (by omega) hstop hok)
  rw [numbered_length, numbered_length, length_append, length_cons] at hlen
  omega

end

def beginText : Bytes :=
  [123, 34, 66, 101, 103, 105, 110, 34, 58, 123, 34, 116, 120, 110, 95, 105, 100, 34, 58, 49, 125,
    125]

def beginFormat : Format Unit where
  serialize _ := beginText
  deserialize data := if data = beginText then some () else none
  crc _ := 0

lemma beginFormat_roundTrip : beginFormat.RoundTrip := fun _ => rfl

lemma beginFormat_text : beginFormat.Text := by
  intro data r h
  simp only [beginFormat] at h
  split at h
  · subst data
    decide
  · cases h

end ByteDB.Wal
