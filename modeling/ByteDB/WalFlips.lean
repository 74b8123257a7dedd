import ByteDB.Wal

/-!
# One flipped bit in a write-ahead log

The checksum of a record covers its number and its text, but not the length in
its header. A flipped bit of the length can make the record reach to the end
of the file or behind it, and such a record is taken for a torn one: it is cut
off with everything behind it.
-/

set_option autoImplicit false

namespace ByteDB.Wal
open ByteDB.LittleEndian List LogManager
variable {R : Type}

def flip (p : ℕ) (b : Fin 8) (file : Bytes) : Bytes := file.modify p (· ^^^ (1 <<< b.val.toUInt8))

@[simp] lemma flip_length (p : ℕ) (b : Fin 8) (file : Bytes) :
    (flip p b file).length = file.length := length_modify ..

lemma flip_append_left {p : ℕ} (b : Fin 8) {as : Bytes} (bs : Bytes) (h : p < as.length) :
    flip p b (as++bs) = flip p b as++bs := by
  induction as generalizing p with
  | nil => simp at h
  | cons a as ih =>
    cases p with
    | zero => rfl
    | succ p => exact congrArg (cons a) (ih (by simpa using h))

lemma flip_append_right (p : ℕ) (b : Fin 8) (as bs : Bytes) :
    flip (as.length+p) b (as++bs) = as++flip p b bs := by
  induction as with
  | nil => simp
  | cons a as ih =>
    rw [length_cons, show as.length+1+p = as.length+p+1 by omega]
    exact congrArg (cons a) ih

lemma flip_ne {p : ℕ} (b : Fin 8) {file : Bytes} (h : p < file.length) : flip p b file ≠ file := by
  intro heq
  have hbyte := congrArg (fun bs : Bytes => bs[p]?) heq
  have hmask : (1 <<< b.val.toUInt8 : UInt8) ≠ 0 := by
    fin_cases b <;> decide
  simp only [flip, getElem?_modify_eq, getElem?_eq_getElem h, Option.map_eq_map,
    Option.map_some, Option.some.injEq] at hbyte
  exact hmask (by simpa using hbyte)

section
variable {fmt : Format R}

def covered (fmt : Format R) (prev : ℕ) (r : R) : Bytes := le 8 prev++fmt.serialize r

lemma frontOf_parts (lsn : ℕ) {length checksum prev : Bytes} (body : Bytes)
    (hlength : length.length = 4) (hchecksum : checksum.length = 4) (hprev : prev.length = 8) :
    frontOf fmt lsn (length++(checksum++(prev++body))) =
      if maxLogRecordSize < readLe length ∨ body.length < readLe length then .torn
      else if (fmt.crc (prev++body.take (readLe length))).toNat ≠ readLe checksum ∨
          readLe prev ≠ lsn then .bad (body.length ≤ readLe length)
      else
        match fmt.deserialize (body.take (readLe length)) with
        | none => .bad (body.length ≤ readLe length)
        | some r => .good r (logRecordHeaderSize+readLe length) := by
  have hdrop4 : (length++(checksum++(prev++body))).drop 4 = checksum++(prev++body) :=
    drop_left' hlength
  have hdrop8 : (length++(checksum++(prev++body))).drop 8 = prev++body := by
    rw [show (8 : ℕ) = 4+4 from rfl, ← drop_drop, hdrop4, drop_left' hchecksum]
  have hdrop16 : (length++(checksum++(prev++body))).drop 16 = body := by
    rw [show (16 : ℕ) = 8+8 from rfl, ← drop_drop, hdrop8, drop_left' hprev]
  have hback : le 8 (readLe prev) = prev := by
    rw [← hprev, le_readLe]
  rw [frontOf, if_neg]
  · simp only [hdrop4, hdrop8, hdrop16, take_left' hlength, take_left' hchecksum,
      take_left' hprev, hback]
    all_goals rfl
  · simp [logRecordHeaderSize, hlength, hchecksum, hprev]
    omega

/-- No other bytes have the checksum of the record. -/
def Detected (fmt : Format R) (prev : ℕ) (r : R) : Prop :=
  ∀ other, other ≠ covered fmt prev r → fmt.crc other ≠ fmt.crc (covered fmt prev r)

def flippedLength (fmt : Format R) (r : R) (q : ℕ) (b : Fin 8) : ℕ :=
  readLe (flip q b (le 4 (fmt.serialize r).length))

lemma frontOf_flipped_length {prev q : ℕ} {r : R} (hdet : Detected fmt prev r)
    (hr : Loggable fmt r) (hq : q < 4) (b : Fin 8) (more : Bytes) :
    frontOf fmt prev (flip q b (frame fmt prev r)++more) =
      if maxLogRecordSize < flippedLength fmt r q b ∨
          (fmt.serialize r++more).length < flippedLength fmt r q b then .torn
      else .bad ((fmt.serialize r++more).length ≤ flippedLength fmt r q b) := by
  have hlen : (le 4 (fmt.serialize r).length).length = 4 := le_length ..
  have hcrc : (fmt.crc (covered fmt prev r)).toNat < 256^4 := UInt32.toNat_lt _
  rw [frame, flip_append_left b _ (by omega)]
  simp only [append_assoc]
  rw [frontOf_parts prev _ (by simp) (by simp) (by simp)]
  rw [← flippedLength]
  split
  · rfl
  rename_i hfit
  rw [if_pos]
  left
  have hne : flippedLength fmt r q b ≠ (fmt.serialize r).length := by
    intro heq
    refine flip_ne b (by omega : q < (le 4 (fmt.serialize r).length).length) (readLe_inj (by simp) ?_)
    rw [← flippedLength, heq, read_le]
    rw [Loggable, maxLogRecordSize] at hr
    omega
  rw [← covered, read_le 4 _ hcrc, Ne, UInt32.toNat_inj]
  refine hdet _ (fun heq => hne ?_)
  have hlens := congrArg length heq
  rw [covered, length_append, length_append, length_take] at hlens
  omega

lemma frontOf_unlike {prev : ℕ} {r : R} {checksum prevs data : Bytes} (hr : Loggable fmt r)
    (hchecksum : checksum.length = 4) (hprev : prevs.length = 8)
    (hdata : data.length = (fmt.serialize r).length)
    (hbad : (fmt.crc (prevs++data)).toNat ≠ readLe checksum) (more : Bytes) :
    frontOf fmt prev (le 4 (fmt.serialize r).length++(checksum++(prevs++(data++more)))) =
      .bad (more.length = 0) := by
  have hlen : readLe (le 4 (fmt.serialize r).length) = data.length := by
    rw [Loggable, maxLogRecordSize] at hr
    rw [hdata, read_le 4 _ (by omega)]
  have hmax : ¬ maxLogRecordSize < data.length := by
    rw [hdata]
    exact not_lt.mpr hr
  rw [frontOf_parts prev _ (by simp) hchecksum hprev, hlen, if_neg, if_pos]
  · congr 1
    simp
  · left
    rw [take_left]
    exact hbad
  · rw [not_or]
    exact ⟨hmax,by simp⟩

lemma frontOf_flipped {prev q : ℕ} {r : R} (hdet : Detected fmt prev r)
    (hr : Loggable fmt r) (h4 : 4 ≤ q) (hq : q < frameSize fmt r) (b : Fin 8) (more : Bytes) :
    frontOf fmt prev (flip q b (frame fmt prev r)++more) = .bad (more.length = 0) := by
  have hcrc : (fmt.crc (covered fmt prev r)).toNat < 256^4 := UInt32.toNat_lt _
  have hlen : (le 4 (fmt.serialize r).length).length = 4 := le_length ..
  have hsum : (le 4 (fmt.crc (covered fmt prev r)).toNat).length = 4 := le_length ..
  have hsize : (covered fmt prev r).length = 8+(fmt.serialize r).length := by
    rw [covered, length_append, le_length]
  rw [frameSize, logRecordHeaderSize] at hq
  rw [frame, ← covered]
  by_cases h8 : q < 8
  · -- the checksum itself
    have hflip : flip q b (le 4 (fmt.serialize r).length++
        (le 4 (fmt.crc (covered fmt prev r)).toNat++covered fmt prev r)) =
        le 4 (fmt.serialize r).length++
          (flip (q-4) b (le 4 (fmt.crc (covered fmt prev r)).toNat)++covered fmt prev r) := by
      obtain ⟨j,rfl⟩ := Nat.exists_eq_add_of_le h4
      nth_rewrite 1 [← hlen]
      rw [flip_append_right, flip_append_left b _ (by omega), Nat.add_sub_cancel_left]
    rw [hflip, covered]
    simp only [append_assoc]
    refine frontOf_unlike hr (by simp) (by simp) rfl ?_ more
    intro heq
    rw [← covered] at heq
    refine flip_ne b (by omega : q-4 < (le 4 (fmt.crc (covered fmt prev r)).toNat).length)
      (readLe_inj (by simp) ?_)
    rw [← heq, read_le 4 _ hcrc]
  · -- the bytes that it covers
    have hflip : flip q b (le 4 (fmt.serialize r).length++
        (le 4 (fmt.crc (covered fmt prev r)).toNat++covered fmt prev r)) =
        le 4 (fmt.serialize r).length++
          (le 4 (fmt.crc (covered fmt prev r)).toNat++flip (q-8) b (covered fmt prev r)) := by
      obtain ⟨j,rfl⟩ := Nat.exists_eq_add_of_le (not_lt.mp h8)
      rw [show 8+j = (le 4 (fmt.serialize r).length).length+
        ((le 4 (fmt.crc (covered fmt prev r)).toNat).length+j) by omega, flip_append_right,
        flip_append_right, hlen, hsum, show 4+(4+j)-8 = j by omega]
    have hother := hdet _ (flip_ne b (by omega : q-8 < (covered fmt prev r).length))
    have hlong : (flip (q-8) b (covered fmt prev r)).length = 8+(fmt.serialize r).length := by
      rw [flip_length, hsize]
    rw [hflip]
    generalize flip (q-8) b (covered fmt prev r) = other at hother hlong
    rw [← take_append_drop 8 other] at hother ⊢
    simp only [append_assoc]
    refine frontOf_unlike hr hsum (by rw [length_take]; omega) (by rw [length_drop]; omega) ?_ more
    rw [read_le 4 _ hcrc, Ne, UInt32.toNat_inj]
    exact hother

end

section
variable {fmt : Format R}

lemma readFile_bad (hround : fmt.RoundTrip) (rs : List R) (h : ∀ r ∈ rs, Loggable fmt r)
    (hlsn : rs.length ≤ 256^8) {rest : Bytes} (hrest : rest ≠ []) {isLast : Bool}
    (hbad : frontOf fmt rs.length rest = .bad isLast) : readFile fmt (frames fmt 0 rs++rest) =
      if isLast then .ok (rs,frames fmt 0 rs) else .error (.walCorrupted (rs.length+1)) := by
  obtain ⟨fuel,hfuel,heq⟩ := readFile_frames hround rs h hlsn rest
  have hpos := length_pos_of_ne_nil hrest
  obtain ⟨fuel,rfl⟩ : ∃ k, fuel = k+1 := ⟨fuel-1,by omega⟩
  rw [heq, readFrames, hbad]
  cases isLast with
  | false => rfl
  | true => simp [Except.map]

variable (fmt) in
/-- The flip makes the record reach to the end of the file or behind it. -/
def Overreaches (prev : ℕ) (r : R) (post : List R) (q : ℕ) (b : Fin 8) : Prop :=
  q < 4 ∧ (maxLogRecordSize < flippedLength fmt r q b ∨
    (fmt.serialize r).length+(frames fmt (prev+1) post).length ≤ flippedLength fmt r q b)

variable {pre post : List R} {r : R} {q : ℕ}

lemma flip_frames (hq : q < frameSize fmt r) (b : Fin 8) :
    flip ((frames fmt 0 pre).length+q) b (frames fmt 0 (pre++r::post)) =
      frames fmt 0 pre++(flip q b (frame fmt pre.length r)++frames fmt (pre.length+1) post) := by
  rw [frames_append, Nat.zero_add, frames, flip_append_right,
    flip_append_left b _ (by rw [frame_length]; exact hq)]

lemma flipped_ne_nil (hq : q < frameSize fmt r) (b : Fin 8) (rest : Bytes) :
    flip q b (frame fmt pre.length r)++rest ≠ [] := by
  intro hnil
  have hlen := congrArg length hnil
  rw [length_append, flip_length, frame_length, length_nil] at hlen
  omega

section
variable (hround : fmt.RoundTrip) (hlog : ∀ s ∈ pre++r::post, Loggable fmt s)
  (hlsn : (pre++r::post).length ≤ 256^8) (hdet : Detected fmt pre.length r)
include hround hlog hlsn hdet

lemma readFile_overreach {b : Fin 8} (h : Overreaches fmt pre.length r post q b) :
    readFile fmt (flip ((frames fmt 0 pre).length+q) b (frames fmt 0 (pre++r::post))) =
      .ok (pre,frames fmt 0 pre) := by
  obtain ⟨h4,hlen⟩ := h
  have hq : q < frameSize fmt r := by
    rw [frameSize, logRecordHeaderSize]
    omega
  have hpre : ∀ s ∈ pre, Loggable fmt s := fun s hs => hlog s (mem_append_left _ hs)
  have hcount : pre.length ≤ 256^8 := by
    rw [length_append] at hlsn
    omega
  have hfront := frontOf_flipped_length hdet (hlog r (by simp)) h4 b (frames fmt (pre.length+1) post)
  rw [length_append] at hfront
  rw [flip_frames hq]
  split at hfront
  · exact readFile_torn hround pre hpre hcount (flipped_ne_nil hq b _) hfront
  · rename_i hfit
    rw [decide_eq_true (by omega)] at hfront
    exact readFile_bad hround pre hpre hcount (flipped_ne_nil hq b _) hfront

lemma readFile_flipped (hq : q < frameSize fmt r) {b : Fin 8}
    (h : ¬ Overreaches fmt pre.length r post q b) :
    readFile fmt (flip ((frames fmt 0 pre).length+q) b (frames fmt 0 (pre++r::post))) =
      .error (.walCorrupted (pre.length+1)) ∨
    post = [] ∧ readFile fmt (flip ((frames fmt 0 pre).length+q) b (frames fmt 0 (pre++r::post))) =
      .ok (pre,frames fmt 0 pre) := by
  have hpre : ∀ s ∈ pre, Loggable fmt s := fun s hs => hlog s (mem_append_left _ hs)
  have hcount : pre.length ≤ 256^8 := by
    rw [length_append] at hlsn
    omega
  rw [flip_frames hq]
  by_cases h4 : q < 4
  · left
    have hfront := frontOf_flipped_length hdet (hlog r (by simp)) h4 b
      (frames fmt (pre.length+1) post)
    rw [Overreaches, not_and, not_or] at h
    obtain ⟨hmax,hlen⟩ := h h4
    rw [length_append, if_neg (by omega), decide_eq_false hlen] at hfront
    exact readFile_bad hround pre hpre hcount (flipped_ne_nil hq b _) hfront
  · have hfront := frontOf_flipped hdet (hlog r (by simp)) (not_lt.mp h4) hq b
      (frames fmt (pre.length+1) post)
    have hread := readFile_bad hround pre hpre hcount (flipped_ne_nil hq b _) hfront
    rw [hread]
    cases post with
    | nil => exact .inr ⟨rfl,rfl⟩
    | cons s post =>
      left
      rw [if_neg]
      have hpos : 0 < frameSize fmt s := frame_size_pos s
      rw [frames, length_append, frame_length, decide_eq_true_eq]
      omega

end

lemma position_split (prev : ℕ) (records : List R) (p : ℕ)
    (hp : p < (frames fmt prev records).length) :
    ∃ pre r post q, records = pre++r::post ∧ q < frameSize fmt r ∧
      p = (frames fmt prev pre).length+q := by
  induction records generalizing prev p with
  | nil => simp [frames] at hp
  | cons r rs ih =>
    rw [frames, length_append, frame_length] at hp
    by_cases h : p < frameSize fmt r
    · exact ⟨[],r,rs,p,rfl,h,by simp [frames]⟩
    · obtain ⟨pre,s,post,q,rfl,hq,hpos⟩ := ih (prev+1) (p-frameSize fmt r) (by omega)
      refine ⟨r::pre,s,post,q,rfl,hq,?_⟩
      rw [frames, length_append, frame_length]
      omega

end

section
variable (fmt : Format R)

/-- No two different contents of a record have the same checksum. -/
def Detects (records : List R) : Prop := ∀ i r, records[i]? = some r → Detected fmt i r

/-- The flip is in the length of a record before the last one, and makes it
reach to the end of the file or behind it. -/
def HidesTail (records : List R) (p : ℕ) (b : Fin 8) : Prop :=
  ∃ pre r post q, records = pre++r::post ∧ post ≠ [] ∧ p = (frames fmt 0 pre).length+q ∧
    Overreaches fmt pre.length r post q b

/-- Opening the log fails, or the flip is in the last record and only that one is lost. -/
def OpenReports (records : List R) (p : ℕ) (b : Fin 8) : Prop :=
  (∃ n, LogManager.new fmt (flip p b (frames fmt 0 records)) = .error (.walCorrupted n)) ∨
  (frames fmt 0 records.dropLast).length ≤ p ∧
    LogManager.new fmt (flip p b (frames fmt 0 records)) =
      .ok (LogManager.opened (frames fmt 0 records.dropLast) (records.length-1))

/-- The same for reading the records of a log that is open. -/
def ReadReports (lm : LogManager) (records : List R) (p : ℕ) (b : Fin 8) : Prop :=
  (∃ n, LogManager.readAllRecords fmt { lm with file := flip p b (frames fmt 0 records) } =
    .error (.walCorrupted n)) ∨
  (frames fmt 0 records.dropLast).length ≤ p ∧
    LogManager.readAllRecords fmt { lm with file := flip p b (frames fmt 0 records) } =
      .ok (LogManager.numbered records.dropLast, { lm with file := frames fmt 0 records.dropLast })

variable {fmt}

lemma new_error {file : Bytes} {n : ℕ} (h : readFile fmt file = .error (.walCorrupted n)) :
    new fmt file = .error (.walCorrupted n) := by
  have hne : file ≠ [] := by
    rintro rfl
    cases h
  rw [new, if_neg hne, scanAndRepair, h]
  rfl

lemma readAll_error {lm : LogManager} {n : ℕ}
    (h : readFile fmt lm.file = .error (.walCorrupted n)) :
    readAllRecords fmt lm = .error (.walCorrupted n) := by
  rw [readAllRecords, h]
  rfl

lemma readAll_ok {lm : LogManager} {records : List R} {left : Bytes}
    (h : readFile fmt lm.file = .ok (records,left)) :
    readAllRecords fmt lm = .ok (numbered records,{ lm with file := left }) := by
  rw [readAllRecords, h]
  rfl

/-- A flipped bit is reported, or costs the last record only, if and only if it
does not make an earlier record reach to the end of the file. -/
theorem flipped_bit_reported_iff (hround : fmt.RoundTrip) (records : List R) (file : Bytes)
    (hfile : LogManager.written fmt records = .ok file) (hlsn : records.length ≤ 256^8)
    (hdet : Detects fmt records) (p : ℕ) (hp : p < file.length) (b : Fin 8) :
    (OpenReports fmt records p b ↔ ¬ HidesTail fmt records p b) ∧
      ∀ lm, ReadReports fmt lm records p b ↔ ¬ HidesTail fmt records p b := by
  obtain ⟨hlog,rfl⟩ := written_eq hfile
  have hhides : HidesTail fmt records p b → ∃ pre, p < (frames fmt 0 records.dropLast).length ∧
      readFile fmt (flip p b (frames fmt 0 records)) = .ok (pre,frames fmt 0 pre) := by
    rintro ⟨pre,r,post,q,rfl,hpost,rfl,hover⟩
    have hd : Detected fmt pre.length r := hdet pre.length r (by simp)
    refine ⟨pre,?_,readFile_overreach hround hlog hlsn hd hover⟩
    obtain ⟨s,post,rfl⟩ : ∃ s init, post = init++[s] :=
      ⟨post.getLast hpost,post.dropLast,(dropLast_append_getLast hpost).symm⟩
    have hq : q < frameSize fmt r := by
      have h4 := hover.1
      rw [frameSize, logRecordHeaderSize]
      omega
    rw [← cons_append, ← append_assoc, dropLast_concat, frames_append,
      length_append, Nat.zero_add, frames, length_append, frame_length]
    omega
  have hfound : ¬ HidesTail fmt records p b →
      (∃ n, readFile fmt (flip p b (frames fmt 0 records)) = .error (.walCorrupted n)) ∨
      (frames fmt 0 records.dropLast).length ≤ p ∧ readFile fmt (flip p b (frames fmt 0 records)) =
        .ok (records.dropLast,frames fmt 0 records.dropLast) := by
    intro hhide
    obtain ⟨pre,r,post,q,rfl,hq,rfl⟩ := position_split 0 records p hp
    have hd : Detected fmt pre.length r := hdet pre.length r (by simp)
    by_cases hover : Overreaches fmt pre.length r post q b
    · have hnil : post = [] := by
        by_contra hpost
        exact hhide ⟨pre,r,post,q,rfl,hpost,rfl,hover⟩
      subst hnil
      rw [dropLast_concat]
      exact Or.inr ⟨Nat.le_add_right ..,readFile_overreach hround hlog hlsn hd hover⟩
    · rcases readFile_flipped hround hlog hlsn hd hq hover with herr | ⟨rfl,hok⟩
      · exact Or.inl ⟨_,herr⟩
      · rw [dropLast_concat]
        exact Or.inr ⟨Nat.le_add_right ..,hok⟩
  have hlast : records.dropLast.length = records.length-1 := length_dropLast
  refine ⟨⟨fun h hhide => ?_,fun hhide => ?_⟩,fun lm => ⟨fun h hhide => ?_,fun hhide => ?_⟩⟩
  · obtain ⟨pre,hearly,hread⟩ := hhides hhide
    rcases h with ⟨n,herr⟩ | ⟨hlate,-⟩
    · rw [new_eq hread] at herr
      cases herr
    · omega
  · rcases hfound hhide with ⟨n,herr⟩ | ⟨hlate,hok⟩
    · exact Or.inl ⟨n,new_error herr⟩
    · exact Or.inr ⟨hlate,by rw [new_eq hok, hlast]⟩
  · obtain ⟨pre,hearly,hread⟩ := hhides hhide
    rcases h with ⟨n,herr⟩ | ⟨hlate,-⟩
    · rw [readAll_ok hread] at herr
      cases herr
    · omega
  · rcases hfound hhide with ⟨n,herr⟩ | ⟨hlate,hok⟩
    · exact Or.inl ⟨n,readAll_error herr⟩
    · exact Or.inr ⟨hlate,readAll_ok hok⟩

/-- Two records that begin transaction 1, with their CRC-32. -/
def checkedFormat : Format Unit := { beginFormat with
    crc := fun data =>
      if data = le 8 0++beginText then 3294080165
      else if data = le 8 1++beginText then 4164374445
      else 0 }

lemma checkedFormat_roundTrip : checkedFormat.RoundTrip := fun _ => rfl

lemma checkedFormat_detects : Detects checkedFormat [(), ()] := by
  have hother : ∀ prev, prev = 0 ∨ prev = 1 → Detected checkedFormat prev () := by
    intro prev hprev other hne
    rcases hprev with rfl | rfl
    · have hcrc : checkedFormat.crc (covered checkedFormat 0 ()) = 3294080165 := by decide
      rw [hcrc]
      simp only [checkedFormat]
      rw [if_neg (by exact hne)]
      split
      · decide
      · decide
    · have hcrc : checkedFormat.crc (covered checkedFormat 1 ()) = 4164374445 := by decide
      rw [hcrc]
      simp only [checkedFormat]
      split
      · decide
      · rw [if_neg (by exact hne)]
        decide
  intro i r hi
  have hlt : i < 2 := (List.getElem?_eq_some_iff.mp hi).1
  exact hother i (by omega)

theorem flipped_text_reported : OpenReports checkedFormat [(), ()] 20 0 :=
  (flipped_bit_reported_iff checkedFormat_roundTrip [(), ()] (frames checkedFormat 0 [(), ()])
    (by decide) (by decide) checkedFormat_detects 20 (by decide) 0).1.mpr (by
      rintro ⟨pre,r,post,q,hrecords,-,hp,h4,-⟩
      have hlen := congrArg length hrecords
      rw [length_append, length_cons] at hlen
      cases pre with
      | nil =>
        simp [frames] at hp
        omega
      | cons s pre =>
        rw [frames, length_append, frame_length] at hp
        have hsize : frameSize checkedFormat s = 38 := rfl
        omega)

/-- A flip in the length of the first record, and both records are gone. -/
theorem flipped_length_hides_tail :
    LogManager.new checkedFormat (flip 3 7 (frames checkedFormat 0 [(), ()])) =
        .ok (LogManager.opened [] 0) ∧
      Detects checkedFormat [(), ()] ∧ ¬ OpenReports checkedFormat [(), ()] 3 7 := by
  have hnew : new checkedFormat (flip 3 7 (frames checkedFormat 0 [(), ()])) =
      .ok (opened [] 0) := by decide
  refine ⟨hnew,checkedFormat_detects,?_⟩
  rintro (⟨n,herr⟩ | ⟨hlate,-⟩)
  · rw [hnew] at herr
    cases herr
  · exact absurd hlate (by decide)

end

end ByteDB.Wal
