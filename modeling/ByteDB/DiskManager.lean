import ByteDB.Bytes

/-!
# The pages of the database file

The disk manager reads and writes whole pages at multiples of the page size.
A page that is written gets a checksum of the bytes behind it. A page that is
read is checked, unless its checksum is zero. The checksum function is a
parameter.
-/

set_option autoImplicit false

namespace ByteDB

structure DiskManager where
  file : Bytes
  nextPageId : UInt32

namespace DiskManager
open LittleEndian List

def pageSize : ℕ := 8192

def pageHeaderSize : ℕ := 32

def pageFormatVersion : UInt8 := 2

def checksumOffset : ℕ := 16

inductive PageError where
  | io
  | checksumMismatch (pageId : UInt32)
  deriving DecidableEq, Repr

structure Page where
  data : Bytes
  size : data.length = pageSize
  deriving DecidableEq

/-- `Page::new`: type, sequence number, checksum and counts are zero. -/
def Page.new (id : UInt32) : Page where
  data := le 4 id.toNat++([0, pageFormatVersion]++(replicate 18 0++
    (le 2 pageHeaderSize++(le 2 pageSize++replicate (pageSize-28) 0))))
  size := by
    simp only [length_append, le_length, length_replicate, length_cons, length_nil, pageSize]

/-- `copy_from_slice` to the bytes from an offset on. -/
def splice (buf : Bytes) (offset : ℕ) (part : Bytes) : Bytes :=
  buf.take offset++(part++buf.drop (offset+part.length))

/-- A write behind the end fills the gap with zeros. -/
def writeAt (file : Bytes) (offset : ℕ) (buf : Bytes) : Bytes :=
  splice (file++replicate (offset-file.length) 0) offset buf

def checksum (page : Bytes) : ℕ := readLe ((page.drop checksumOffset).take 4)

/-- `DiskManager::new` on a file; its length is cut to 32 bits. -/
def new (file : Bytes) : DiskManager where
  file := file
  nextPageId := if file.length = 0 then 1 else UInt32.ofNat file.length/UInt32.ofNat pageSize

variable (crc : Bytes → UInt32)

def computeChecksum (page : Bytes) : ℕ := (crc (page.drop 20)).toNat

def readPage (pageId : UInt32) (dm : DiskManager) : Except PageError Page :=
  let page := (dm.file.drop (pageId.toNat*pageSize)).take pageSize
  if h : page.length = pageSize then
    if checksum page ≠ 0 ∧ checksum page ≠ computeChecksum crc page then
      .error (.checksumMismatch pageId)
    else .ok ⟨page,h⟩
  else .error .io

def image (page : Page) : Bytes :=
  let buf := splice page.data checksumOffset (le 4 0)
  splice buf checksumOffset (le 4 (computeChecksum crc buf))

def writePage (pageId : UInt32) (page : Page) (dm : DiskManager) : DiskManager :=
  { dm with file := writeAt dm.file (pageId.toNat*pageSize) (image crc page) }

def allocatePage (dm : DiskManager) : UInt32 × DiskManager :=
  (dm.nextPageId,writePage crc dm.nextPageId (.new dm.nextPageId)
    { dm with nextPageId := dm.nextPageId+1 })

def allocated : ℕ → DiskManager → UInt32
  | 0, dm => (allocatePage crc dm).1
  | k+1, dm => allocated k (allocatePage crc dm).2

def changeByte (pageId : UInt32) (i : ℕ) (b : UInt8) (dm : DiskManager) : DiskManager :=
  { dm with file := dm.file.set (pageId.toNat*pageSize+i) b }

variable {crc}

section
variable {buf part : Bytes} {offset : ℕ}

lemma length_splice (h : offset+part.length ≤ buf.length) :
    (splice buf offset part).length = buf.length := by
  simp [splice]
  omega

lemma drop_splice (h : offset ≤ buf.length) :
    (splice buf offset part).drop offset = part++buf.drop (offset+part.length) :=
  drop_left' (by rw [length_take, Nat.min_eq_left h])

end

variable (crc) in
lemma length_image (page : Page) : (image crc page).length = pageSize := by
  have hlen := page.size
  have hfits : ∀ n buf, buf.length = pageSize → (splice buf checksumOffset (le 4 n)).length =
      pageSize := by
    intro n buf hbuf
    rw [length_splice (by rw [hbuf, le_length]; decide), hbuf]
  exact hfits _ _ (hfits _ _ hlen)

variable (crc) in
lemma image_checksum (page : Page) :
    checksum (image crc page) = computeChecksum crc (image crc page) := by
  have hoffset : checksumOffset ≤ (splice page.data checksumOffset (le 4 0)).length := by
    rw [length_splice (by rw [page.size, le_length]; decide), page.size]
    decide
  rw [image]
  generalize splice page.data checksumOffset (le 4 0) = buf at hoffset
  have hcovered : ∀ bs : Bytes, bs.drop 20 = (bs.drop checksumOffset).drop 4 :=
    fun bs => by rw [drop_drop]; rfl
  rw [checksum, drop_splice hoffset, read_take _ _ _ (UInt32.toNat_lt _)]
  rw [computeChecksum, computeChecksum, hcovered, hcovered, drop_splice hoffset, drop_le]
  rw [le_length, drop_drop]

lemma readPage_changed (dm : DiskManager) (pageId : UInt32) (page : Page) {i : ℕ}
    (hi : i < pageSize) (b : UInt8) :
    readPage crc pageId (changeByte pageId i b (dm.writePage crc pageId page)) =
        .error (.checksumMismatch pageId) ↔ checksum ((image crc page).set i b) ≠ 0 ∧
      checksum ((image crc page).set i b) ≠ computeChecksum crc ((image crc page).set i b) := by
  have hsize := length_image crc page
  have hpage : ((changeByte pageId i b (dm.writePage crc pageId page)).file.drop
      (pageId.toNat*pageSize)).take pageSize = (image crc page).set i b := by
    rw [changeByte, writePage]
    generalize pageId.toNat*pageSize = off
    have hgap : (take off (dm.file++replicate (off-dm.file.length) 0)).length = off := by
      simp
      omega
    dsimp only
    rw [writeAt, splice, set_append_right _ _ (by omega), hgap, Nat.add_sub_cancel_left,
      drop_left' hgap, set_append_left _ _ (by omega), take_left' (by rw [length_set, hsize])]
  rw [readPage]
  simp only [hpage, length_set, hsize, dite_true]
  split
  · exact iff_of_true rfl ‹_›
  · exact iff_of_false nofun ‹_›

lemma readLe_ne_zero_iff (bs : Bytes) : readLe bs ≠ 0 ↔ ∃ b ∈ bs, b ≠ 0 := by
  induction bs with
  | nil => simp [readLe]
  | cons b bs ih =>
    rw [readLe, exists_mem_cons_iff, ← ih, ne_eq b, ← UInt8.toNat_inj, UInt8.toNat_zero]
    omega

/-- What is assumed of CRC-32: it changes when one byte does. -/
def Detects (crc : Bytes → UInt32) : Prop :=
  ∀ (bs : Bytes) i b, i < bs.length → bs[i]? ≠ some b → crc (bs.set i b) ≠ crc bs

/-- A change in front of the checksum is not noticed, nor is one that leaves a
checksum of zero. Every other one is. -/
theorem changed_byte_reported_iff (hcrc : Detects crc) (dm : DiskManager) (pageId : UInt32)
    (page : Page) {i : ℕ} (hi : i < pageSize) {b : UInt8} (hb : (image crc page)[i]? ≠ some b) :
    readPage crc pageId (changeByte pageId i b (dm.writePage crc pageId page)) =
        .error (.checksumMismatch pageId) ↔
      checksumOffset ≤ i ∧ ∃ x ∈ (((image crc page).set i b).drop checksumOffset).take 4, x ≠ 0 := by
  rw [readPage_changed dm pageId page hi b, ← readLe_ne_zero_iff, ← checksum]
  have hsame := image_checksum crc page
  have hsize := length_image crc page
  generalize image crc page = img at hb hsame hsize
  rw [checksum, computeChecksum, checksumOffset] at hsame
  rw [computeChecksum, checksum, checksumOffset]
  rcases lt_or_ge i 16 with hlow | hlow
  · rw [drop_set_of_lt hlow, drop_set_of_lt (by omega), hsame]
    simp [hlow.not_ge]
  rw [and_comm]
  refine and_congr_left (fun _ => iff_of_true ?_ hlow)
  rcases lt_or_ge i 20 with hmid | hmid
  · rw [drop_set_of_lt hmid, ← hsame]
    intro heq
    have hfield := readLe_inj (by simp) heq
    refine hb ?_
    have hat := congrArg (·[i-16]?) hfield
    simpa [getElem?_take, getElem?_drop, show i-16 < 4 by omega,
      show 16+(i-16) = i by omega, hsize ▸ hi] using hat.symm
  · rw [drop_set, if_neg (by omega), take_set_of_le (by omega), hsame, drop_set, if_neg (by omega)]
    refine fun heq => hcrc _ (i-20) b (by simp; omega) ?_ (UInt32.toNat_inj.mp heq.symm)
    simpa [getElem?_drop, show 20+(i-20) = i by omega] using hb

def total : Bytes → UInt32
  | [] => 0
  | b::bs => b.toUInt32+total bs

lemma total_detects : Detects total := by
  intro bs
  induction bs with
  | nil => exact fun i b hi => absurd hi (Nat.not_lt_zero i)
  | cons a bs ih =>
    intro i b hi hb
    cases i with
    | zero =>
      intro h
      have hnat := congrArg UInt32.toNat (add_right_cancel h)
      exact hb (congrArg some (UInt8.toNat_inj.mp hnat).symm)
    | succ i => exact fun h => ih i b (Nat.lt_of_succ_lt_succ hi) hb (add_left_cancel h)

theorem changed_checksum_reported : ∃ b, readPage total 0 (changeByte 0 16 b
    ((new []).writePage total 0 (.new 0))) = .error (.checksumMismatch 0) := by
  obtain ⟨b,hne,hb⟩ : ∃ b : UInt8, b ≠ 0 ∧ (image total (.new 0))[16]? ≠ some b := by
    by_cases h : (image total (.new 0))[16]? = some 1
    · exact ⟨2,by decide,by rw [h]; decide⟩
    · exact ⟨1,by decide,h⟩
  refine ⟨b,(changed_byte_reported_iff total_detects (new []) 0 (.new 0) (by decide) hb).mpr
    ⟨le_rfl,b,?_,hne⟩⟩
  rw [drop_set, if_neg (by decide)]
  refine mem_of_getElem? (i := 0) ?_
  simp [length_image, checksumOffset, pageSize]

/-- A change of the page id is not noticed. -/
theorem changed_id_read : readPage total 0 (changeByte 0 0 9
    ((new []).writePage total 0 (.new 0))) ≠ .error (.checksumMismatch 0) := by
  rw [ne_eq, readPage_changed _ _ _ (by decide), not_and_not_right]
  intro _
  rw [checksum, computeChecksum, drop_set_of_lt (by decide), drop_set_of_lt (by decide)]
  exact image_checksum _ _

lemma allocated_eq (k : ℕ) (dm : DiskManager) :
    allocated crc k dm = dm.nextPageId+UInt32.ofNat k := by
  induction k generalizing dm with
  | zero => exact (add_zero dm.nextPageId).symm
  | succ k ih =>
    rw [allocated, ih, UInt32.ofNat_add, add_comm (UInt32.ofNat k), ← add_assoc]
    rfl

/-- The number of pages is taken modulo 2^19. -/
lemma new_nextPageId {n : ℕ} {file : Bytes} (hfile : file.length = n*pageSize) :
    (new file).nextPageId.toNat = if n = 0 then 1 else n % 2^19 := by
  rw [new, hfile]
  by_cases hn : n = 0
  · subst hn
    rfl
  have hpos : n*pageSize ≠ 0 := by simp [pageSize, hn]
  have hsize : (UInt32.ofNat pageSize).toNat = 8192 := rfl
  rw [if_neg hpos, if_neg hn, UInt32.toNat_div, UInt32.toNat_ofNat', hsize, pageSize]
  omega

/-- No page is given out again as long as the file has less than 2^19 pages and
the ids do not run out. -/
theorem allocated_fresh_iff (crc : Bytes → UInt32) {n : ℕ} (hn : n ≤ 2^32-1) {file : Bytes}
    (hfile : file.length = n*pageSize) (m : ℕ) :
    (∀ k < m, max n 1 ≤ (allocated crc k (new file)).toNat) ↔
      m = 0 ∨ n < 2^19 ∧ max n 1+m ≤ 2^32 := by
  have hid : ∀ k, (allocated crc k (new file)).toNat =
      ((if n = 0 then 1 else n % 2^19)+k) % 2^32 := by
    intro k
    rw [allocated_eq, UInt32.toNat_add, UInt32.toNat_ofNat', new_nextPageId hfile]
    omega
  simp only [hid]
  clear hid hfile
  constructor
  · intro h
    by_contra hnot
    have hfirst := h 0 (by omega)
    have hlast := h (2^32-max n 1)
    split at hfirst
    · rw [if_pos ‹_›] at hlast
      omega
    · rw [if_neg ‹_›] at hlast
      omega
  · rintro (rfl | ⟨hsmall,hm⟩) k hk
    · omega
    · split <;> omega

theorem allocated_behind_page :
    max 1 1 ≤ (allocated total 2 (new (Page.new 0).data)).toNat :=
  (allocated_fresh_iff total (n := 1) (by decide) (Page.new 0).size 3).mpr (.inr (by decide)) 2
    (by decide)

/-- In a file of 4 GiB the first page is given out again. -/
theorem large_file_overwritten : ∃ file : Bytes, file.length = 2^19*pageSize ∧
    (allocated total 0 (new file)).toNat = 0 := by
  obtain ⟨file,hfile⟩ : ∃ file : Bytes, file.length = 2^19*pageSize :=
    ⟨replicate _ 0,length_replicate⟩
  exact ⟨file,hfile,new_nextPageId hfile⟩

end DiskManager

end ByteDB
