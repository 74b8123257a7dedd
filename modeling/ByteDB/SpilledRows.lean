import ByteDB.StoredCells

/-!
# Large values moved to files

Before a row is stored it is cut into the ranges of its columns. A large column
that no key needs is written to a file of its own and a reference takes its
place; when the row is read, the file's content takes the place of the
reference. A range that ends behind the row makes the source panic, which is
`none` here. The ranges come from the code that skips values, so the row comes
back exactly if they cover it.
-/

set_option autoImplicit false

namespace ByteDB.Tuple
open ByteDB.LittleEndian List

variable {ranges : List (ℕ × ℕ)} {out : Bytes} {data : Bytes} {Q J V E : Type} {parts : List Bytes}

namespace Executor

/-- The directory of large values. A file is stored under a new name, or not at
all; `store` is absent if the directory cannot be used. -/
structure BlobStore where
  files : BlobFiles
  store : Option (ℕ → Bytes → Option Uuid)

structure BlobStore.ReadsBack (bs : BlobStore) : Prop where
  present : ∀ store, bs.store = some store → bs.files.present = true
  loads : ∀ store i part file, bs.store = some store → store i part = some file →
    bs.files.load file.bytes = some part

/-- `set_blob_config`: values of up to 64 KiB are never moved. -/
def effectiveThreshold (spillThresholdBytes : ℕ) : ℕ :=
  if spillThresholdBytes = 0 then 0 else max spillThresholdBytes 65537

def isSpillableTag (tag : UInt8) : Bool := tag.toNat ∈ [4, 5, 6, 12, 13]

section
variable {V E : Type}

def protectedColumns (td : TableData V E) : List ℕ :=
  td.schema.primaryKeyColumns++td.secondaryIndexes.flatMap SecondaryIndex.columns

variable (threshold : ℕ) (td : TableData V E)

def sliceAt (data : Bytes) (range : ℕ × ℕ) : Option Bytes :=
  if range.2 ≤ data.length then some (slice data range) else none

def isLarge (i : ℕ) (tag : Option UInt8) (length : ℕ) : Bool :=
  i ∉ protectedColumns td && tag.any isSpillableTag && threshold < length

def needsSpill (data : Bytes) (ranges : List (ℕ × ℕ)) : Bool :=
  ranges.zipIdx.any (fun (range,i) => isLarge threshold td i data[range.1]? (range.2-range.1))

def spillPart (store : ℕ → Bytes → Option Uuid) (i : ℕ) (part : Bytes) : Bytes :=
  if isLarge threshold td i part.head? part.length then
    match store i part with
    | some file => 22::file.bytes
    | none => part
  else part

def spillFrom (store : ℕ → Bytes → Option Uuid) (data : Bytes) : ℕ → List (ℕ × ℕ) → Option Bytes
  | _, [] => some []
  | i, range::ranges => do
    let part ← sliceAt data range
    let rest ← spillFrom store data (i+1) ranges
    some (spillPart threshold td store i part++rest)

def spillSerialized (bs : BlobStore) (data : Bytes) : Option Bytes :=
  if threshold = 0 then some data
  else
    match columnRanges data with
    | none => some data
    | some ranges =>
      if !needsSpill threshold td data ranges then some data
      else
        match bs.store with
        | none => some data
        | some store => (spillFrom threshold td store data 0 ranges).map (data.take 1++·)

end

section
variable {Q J : Type} (x : Executor Q J)

/-- The columns with the content of their files, if all ranges end within the data. -/
def resolveFrom (data : Bytes) : List (ℕ × ℕ) → Option Bytes
  | [] => some []
  | range::ranges => do
    let _ ← sliceAt data range
    let rest ← resolveFrom data ranges
    some (x.resolveSlice data range++rest)

/-- `resolve_serialized`, where a range behind the data is a panic. -/
def resolveChecked (data : Bytes) : Option Bytes :=
  if !x.files.present || !hasBlobRef data then some data
  else
    match columnRanges data with
    | none => some data
    | some ranges => (resolveFrom x data ranges).map (data.take 1++·)

lemma resolveFrom_eq {data : Bytes}
    (h : resolveFrom x data ranges = some out) : out = ranges.flatMap (x.resolveSlice data) := by
  induction ranges generalizing out with
  | nil =>
    cases h
    rfl
  | cons range ranges ih =>
    rw [resolveFrom] at h
    cases hslice : sliceAt data range with
    | none => simp [hslice] at h
    | some part =>
      cases hrest : resolveFrom x data ranges with
      | none => simp [hslice, hrest] at h
      | some rest =>
        simp only [hslice, hrest, Option.bind_eq_bind, Option.bind_some, Option.some.injEq] at h
        rw [flatMap_cons, ← ih hrest, h]

lemma resolveChecked_eq {data out : Bytes} (h : x.resolveChecked data = some out) :
    x.resolveSerialized data = out := by
  rw [resolveChecked] at h
  rw [resolveSerialized]
  split at h
  · next hplain =>
    rw [if_pos hplain]
    exact Option.some.inj h
  next hplain =>
  rw [if_neg hplain]
  cases hranges : columnRanges data with
  | none =>
    rw [hranges] at h
    exact Option.some.inj h
  | some ranges =>
    rw [hranges] at h
    obtain ⟨rest,hrest,rfl⟩ := Option.map_eq_some_iff.mp h
    rw [resolveFrom_eq x hrest]

end

end Executor

variable {part : Bytes} {pos : ℕ}

section

lemma drop_take_of_take_eq {as bs : Bytes} {i n m : ℕ} (h : as.take m = bs.take m)
    (hm : i+n ≤ m) : (as.drop i).take n = (bs.drop i).take n := by
  have hcut : ∀ cs : Bytes, (cs.drop i).take n = ((cs.take m).drop i).take n := by
    intro cs
    rw [drop_take, take_take, Nat.min_eq_left (by omega)]
  rw [hcut as, hcut bs, h]

variable {n : ℕ}

lemma skipFront_congr {tag : UInt8} {rest rest' : Bytes}
    (h : skipFront (tag::rest) = some (n+1)) (hlen : n ≤ rest'.length)
    (htake : rest'.take n = rest.take n) : skipFront (tag::rest') = some (n+1) := by
  have hsize : ∀ {m}, some m = some (n+1) → m = n+1 := fun hm => Option.some.inj hm
  rw [skipFront] at h ⊢
  split at h
  case h_10 | h_11 =>
    split at h
    · cases h
    · have hn := hsize h
      rw [if_neg (by omega), drop_take_of_take_eq htake (by omega), h]
  case h_12 =>
    split at h
    · cases h
    · have hn := hsize h
      rw [if_neg (by omega), h]
  case h_13 | h_14 | h_15 =>
    split at h
    · cases h
    · have hn := hsize h
      have hhead := drop_take_of_take_eq (i := 0) (n := 4) htake (by omega)
      rw [drop_zero, drop_zero] at hhead
      rw [if_neg (by omega), hhead, h]
  all_goals exact h

lemma skipFront_pos (h : skipFront data = some n) : 0 < n := by
  cases data with
  | nil => cases h
  | cons tag rest =>
    rw [skipFront] at h
    split at h
    all_goals grind

lemma skips_take (h : skipFront data = some n) (hn : n ≤ data.length) : Skips (data.take n) := by
  cases data with
  | nil => cases h
  | cons tag rest =>
    obtain ⟨m,rfl⟩ : ∃ m, n = m+1 := ⟨n-1,by have := skipFront_pos h; omega⟩
    have hm : m ≤ rest.length := Nat.le_of_succ_le_succ hn
    have hsize : (rest.take m).length = m := length_take_of_le hm
    intro more
    rw [take_succ_cons, cons_append, length_cons, hsize]
    refine skipFront_congr h ?_ ?_
    · rw [length_append, hsize]
      omega
    · rw [take_append_of_le_length hsize.ge, take_take, Nat.min_self]

lemma Skips.head (h : Skips part) (rest : Bytes) : (part++rest).head? = part.head? ∧ part ≠ [] := by
  have hne : part ≠ [] := by
    rintro rfl
    cases h []
  exact ⟨head?_append_of_ne_nil part hne,hne⟩

lemma Skips.reference (h : Skips part) (htag : part.head? = some 22) : part.length = 17 := by
  cases part with
  | nil => cases htag
  | cons tag rest =>
    cases htag
    have hskip := h []
    rw [append_nil, skipFront] at hskip
    change (if rest.length < 16 then none else some 17) = some (rest.length+1) at hskip
    split at hskip
    · cases hskip
    · exact (Option.some.inj hskip).symm

lemma parts_of_ranges
    (h : rangesFrom data n pos = some ranges) (hin : ∀ range ∈ ranges, range.2 ≤ data.length) :
    ∃ parts rest, parts.length = n ∧ (∀ p ∈ parts, Skips p) ∧
      data.drop pos = parts.flatten++rest ∧ ranges = partRanges pos parts := by
  induction n generalizing pos ranges with
  | zero =>
    cases h
    exact ⟨[],data.drop pos,rfl,by simp,rfl,rfl⟩
  | succ n ih =>
    obtain ⟨stop,hstop,h⟩ := Option.bind_eq_some_iff.mp h
    obtain ⟨ranges',hranges,heq⟩ := Option.bind_eq_some_iff.mp h
    cases heq
    rw [forall_mem_cons] at hin
    obtain ⟨parts,rest,hlen,hskips,hat,rfl⟩ := ih hranges hin.2
    obtain ⟨size,hsize,rfl⟩ := Option.map_eq_some_iff.mp hstop
    have hfits : size ≤ (data.drop pos).length := by
      have hpos := skipFront_pos hsize
      have hend : pos+size ≤ data.length := hin.1
      rw [length_drop]
      omega
    have hpart : ((data.drop pos).take size).length = size := length_take_of_le hfits
    refine ⟨(data.drop pos).take size::parts,rest,by rw [length_cons, hlen],?_,?_,?_⟩
    · rw [forall_mem_cons]
      exact ⟨skips_take hsize hfits,hskips⟩
    · rw [flatten_cons, append_assoc, ← hat, ← drop_drop, take_append_drop]
    · rw [partRanges, hpart]

lemma hasBlobRefFrom_parts (parts : List Bytes) (pos : ℕ) (rest : Bytes)
    (hskips : ∀ p ∈ parts, Skips p) (hat : data.drop pos = parts.flatten++rest) :
    hasBlobRefFrom data parts.length pos = parts.any (fun p => p.head? == some 22) := by
  induction parts generalizing pos with
  | nil => rfl
  | cons p ps ih =>
    rw [forall_mem_cons] at hskips
    rw [flatten_cons, append_assoc] at hat
    obtain ⟨hhead,hne⟩ := hskips.1.head (ps.flatten++rest)
    obtain ⟨tag,hp⟩ : ∃ tag, p.head? = some tag :=
      Option.ne_none_iff_exists'.mp (by rwa [Ne, head?_eq_none_iff])
    rw [length_cons, hasBlobRefFrom, hat, hhead, hp, skipValue_part hskips.1 hat, any_cons, hp]
    dsimp only
    by_cases htag : tag = 22
    · rw [if_pos (by rw [htag]; rfl), htag]
      rfl
    · have hnat : ¬ tag.toNat = 22 := fun h => htag (UInt8.toNat_inj.mp h)
      rw [if_neg hnat, ih _ hskips.2 (drop_part hat)]
      simp [htag]

lemma partRanges_last (parts : List Bytes) (pos : ℕ) (hne : parts ≠ []) :
    (partRanges pos parts).getLast?.map Prod.snd = some (pos+parts.flatten.length) := by
  induction parts generalizing pos with
  | nil => exact absurd rfl hne
  | cons p ps ih =>
    rw [partRanges]
    cases ps with
    | nil => simp [partRanges]
    | cons q qs =>
      have hrest := ih (pos+p.length) (by simp)
      rw [partRanges] at hrest ⊢
      rw [getLast?_cons_cons, hrest, flatten_cons (l := p), length_append, Nat.add_assoc]

lemma rangesFrom_ge
    (h : rangesFrom data n pos = some ranges) : ∀ range ∈ ranges, pos ≤ range.2 := by
  induction n generalizing pos ranges with
  | zero =>
    cases h
    simp
  | succ n ih =>
    obtain ⟨stop,hstop,h⟩ := Option.bind_eq_some_iff.mp h
    obtain ⟨ranges',hranges,heq⟩ := Option.bind_eq_some_iff.mp h
    cases heq
    obtain ⟨size,-,rfl⟩ := Option.map_eq_some_iff.mp hstop
    rw [forall_mem_cons]
    exact ⟨Nat.le_add_right _ _,fun r hr => (Nat.le_add_right _ _).trans (ih hranges r hr)⟩

lemma rangesFrom_le_last {n pos stop : ℕ} (h : rangesFrom data n pos = some ranges)
    (hlast : ranges.getLast?.map Prod.snd = some stop) : ∀ range ∈ ranges, range.2 ≤ stop := by
  induction n generalizing pos ranges with
  | zero =>
    cases h
    simp
  | succ n ih =>
    obtain ⟨next,hnext,h⟩ := Option.bind_eq_some_iff.mp h
    obtain ⟨ranges',hranges,heq⟩ := Option.bind_eq_some_iff.mp h
    cases heq
    rw [forall_mem_cons]
    cases ranges' with
    | nil =>
      cases hlast
      exact ⟨le_rfl,by simp⟩
    | cons r rs =>
      rw [getLast?_cons_cons] at hlast
      have hrest := ih hranges hlast
      have hr : r ∈ r::rs := mem_cons_self
      exact ⟨(rangesFrom_ge hranges r hr).trans (hrest r hr),hrest⟩

end

variable {rest : Bytes}

namespace Executor
variable {store : ℕ → Bytes → Option Uuid} {count : UInt8}

section
variable (x : Executor Q J)

/-- The content of a column's file, if the column reads as a reference. -/
def resolvePart (part : Bytes) : Bytes :=
  if part.head? = some 22 ∧ part.length = 17 then (x.files.load (part.drop 1)).getD part else part

def spillParts (threshold : ℕ) (td : TableData V E) (store : ℕ → Bytes → Option Uuid) :
    ℕ → List Bytes → List Bytes
  | _, [] => []
  | i, p::ps => spillPart threshold td store i p::spillParts threshold td store (i+1) ps

lemma sliceAt_part (hat : data.drop pos = part++rest)
    (hne : part ≠ []) : sliceAt data (pos,pos+part.length) = some part := by
  have hlen : data.length-pos = part.length+rest.length := by
    rw [← length_drop, hat, length_append]
  have hpos : 0 < part.length := length_pos_iff.mpr hne
  rw [sliceAt, if_pos (by dsimp only; omega), slice, Nat.add_sub_cancel_left, hat, take_left]

lemma resolveSlice_part (hat : data.drop pos = part++rest)
    (hne : part ≠ []) : x.resolveSlice data (pos,pos+part.length) = x.resolvePart part := by
  have hslice : slice data (pos,pos+part.length) = part := by
    rw [slice, Nat.add_sub_cancel_left, hat, take_left]
  have hget : data[pos]? = part.head? := by
    rw [← head?_drop, hat, head?_append_of_ne_nil part hne]
  rw [resolveSlice, hslice, hget, Nat.add_sub_cancel_left, resolvePart]

lemma resolveFrom_parts (pos : ℕ) (rest : Bytes) (hskips : ∀ p ∈ parts, Skips p)
    (hat : data.drop pos = parts.flatten++rest) :
    resolveFrom x data (partRanges pos parts) = some (parts.flatMap x.resolvePart) := by
  induction parts generalizing pos with
  | nil => rfl
  | cons p ps ih =>
    rw [forall_mem_cons] at hskips
    rw [flatten_cons, append_assoc] at hat
    have hne := (hskips.1.head []).2
    rw [partRanges, resolveFrom, sliceAt_part hat hne, ih _ hskips.2 (drop_part hat),
      resolveSlice_part x hat hne, flatMap_cons]
    rfl

lemma spillFrom_parts (threshold : ℕ) (td : TableData V E) (store : ℕ → Bytes → Option Uuid)
    (i pos : ℕ) (rest : Bytes) (hskips : ∀ p ∈ parts, Skips p)
    (hat : data.drop pos = parts.flatten++rest) :
    spillFrom threshold td store data i (partRanges pos parts) =
      some (spillParts threshold td store i parts).flatten := by
  induction parts generalizing i pos with
  | nil => rfl
  | cons p ps ih =>
    rw [forall_mem_cons] at hskips
    rw [flatten_cons, append_assoc] at hat
    rw [partRanges, spillFrom, sliceAt_part hat (hskips.1.head []).2,
      ih _ _ hskips.2 (drop_part hat), spillParts, flatten_cons]
    rfl

variable {threshold : ℕ} {td : TableData V E}

lemma spillFrom_within {i : ℕ} (h : spillFrom threshold td store data i ranges = some out) :
    ∀ range ∈ ranges, range.2 ≤ data.length := by
  induction ranges generalizing i out with
  | nil => simp
  | cons range ranges ih =>
    obtain ⟨part,hpart,h⟩ := Option.bind_eq_some_iff.mp h
    obtain ⟨rest,hrest,-⟩ := Option.bind_eq_some_iff.mp h
    rw [forall_mem_cons]
    refine ⟨?_,ih hrest⟩
    by_contra hlong
    rw [sliceAt, if_neg hlong] at hpart
    cases hpart

lemma resolveFrom_within
    (h : resolveFrom x data ranges = some out) : ∀ range ∈ ranges, range.2 ≤ data.length := by
  induction ranges generalizing out with
  | nil => simp
  | cons range ranges ih =>
    obtain ⟨part,hpart,h⟩ := Option.bind_eq_some_iff.mp h
    obtain ⟨rest,hrest,-⟩ := Option.bind_eq_some_iff.mp h
    rw [forall_mem_cons]
    refine ⟨?_,ih hrest⟩
    by_contra hlong
    rw [sliceAt, if_neg hlong] at hpart
    cases hpart

lemma resolveChecked_parts (hcount : parts.length = count.toNat)
    (hskips : ∀ p ∈ parts, Skips p) (hpresent : x.files.present = true) :
    x.resolveChecked (count::parts.flatten) = some (count::parts.flatMap x.resolvePart) := by
  have hat : (count::parts.flatten).drop 1 = parts.flatten++[] := by simp
  have href : hasBlobRef (count::parts.flatten) = parts.any (fun p => p.head? == some 22) := by
    rw [hasBlobRef, ← hcount, hasBlobRefFrom_parts parts 1 [] hskips hat]
  rw [resolveChecked, hpresent, href]
  cases hany : parts.any (fun p => p.head? == some 22) with
  | false =>
    have hsame : ∀ p ∈ parts, x.resolvePart p = p := by
      intro p hp
      have hne := any_eq_false.mp hany p hp
      rw [resolvePart, if_neg (fun h => hne (by rw [h.1]; rfl))]
    rw [if_pos (by rfl), flatMap_def, map_congr_left hsame, map_id']
  | true =>
    have hranges : columnRanges (count::parts.flatten) = some (partRanges 1 parts) := by
      rw [columnRanges, ← hcount, rangesFrom_parts parts 1 hskips rfl]
    rw [if_neg (by decide), hranges]
    dsimp only
    rw [resolveFrom_parts x 1 [] hskips hat]
    rfl

lemma resolve_spillParts (i : ℕ)
    (hload : ∀ i part file, store i part = some file → x.files.load file.bytes = some part)
    (hplain : ∀ p ∈ parts, p.head? ≠ some 22) :
    (spillParts threshold td store i parts).flatMap x.resolvePart = parts.flatten := by
  induction parts generalizing i with
  | nil => rfl
  | cons p ps ih =>
    rw [forall_mem_cons] at hplain
    have hkept : x.resolvePart p = p := by rw [resolvePart, if_neg (fun h => hplain.1 h.1)]
    have hpart : x.resolvePart (spillPart threshold td store i p) = p := by
      rw [spillPart]
      split
      · cases hstore : store i p with
        | none => exact hkept
        | some file =>
          rw [resolvePart, if_pos ⟨rfl,by rw [length_cons, file.size]⟩, drop_one,
            tail_cons, hload i p file hstore]
          rfl
      · exact hkept
    rw [spillParts, flatMap_cons, hpart, ih (i+1) hplain.2, flatten_cons]

lemma skips_spillParts (i : ℕ) (hskips : ∀ p ∈ parts, Skips p) :
    ∀ p ∈ spillParts threshold td store i parts, Skips p := by
  induction parts generalizing i with
  | nil =>
    nofun
  | cons p ps ih =>
    rw [forall_mem_cons] at hskips
    rw [spillParts, forall_mem_cons]
    refine ⟨?_,ih (i+1) hskips.2⟩
    rw [spillPart]
    split
    · cases store i p with
      | none => exact hskips.1
      | some file =>
        intro rest
        simp [skipFront, file.size]
    · exact hskips.1

lemma spillParts_length (threshold : ℕ) (td : TableData V E)
    (store : ℕ → Bytes → Option Uuid) (i : ℕ) :
    (spillParts threshold td store i parts).length = parts.length := by
  induction parts generalizing i with
  | nil => rfl
  | cons p ps ih => rw [spillParts, length_cons, length_cons, ih]

lemma spillParts_refused (threshold : ℕ) (td : TableData V E) (i : ℕ) :
    spillParts threshold td (fun _ _ => none) i parts = parts := by
  induction parts generalizing i with
  | nil => rfl
  | cons p ps ih =>
    rw [spillParts, ih, spillPart]
    split <;> rfl

end

section
variable (x : Executor Q J) (threshold : ℕ) (td : TableData V E)

def ComesBack (bs : BlobStore) (data : Bytes) : Prop :=
  ∃ stored, spillSerialized threshold td bs data = some stored ∧
    resolveChecked { x with files := bs.files } stored = some data

variable {x threshold td} {bs : BlobStore}

lemma resolveChecked_plain (h : hasBlobRef data = false) : x.resolveChecked data = some data := by
  rw [resolveChecked, h, if_pos (by simp)]


lemma rest_of_last (h : (partRanges 1 parts).getLast?.map Prod.snd =
      some (count::(parts.flatten++rest)).length) : rest = [] := by
  by_cases hne : parts = []
  · rw [hne] at h
    cases h
  · rw [partRanges_last parts 1 hne, Option.some_inj, length_cons, length_append] at h
    exact length_eq_zero_iff.mp (by omega)

def Large (threshold : ℕ) (td : TableData V E) (data : Bytes) (ranges : List (ℕ × ℕ)) : Prop :=
  threshold ≠ 0 ∧ needsSpill threshold td data ranges = true

lemma spill_large
    (hranges : columnRanges data = some ranges) (hlarge : Large threshold td data ranges)
    (hstore : bs.store = some store) : spillSerialized threshold td bs data =
      (spillFrom threshold td store data 0 ranges).map (data.take 1++·) := by
  simp [spillSerialized, hlarge.1, hranges, hlarge.2, hstore]

lemma spill_small (hranges : columnRanges data = some ranges)
    (hsmall : ¬ Large threshold td data ranges) :
    spillSerialized threshold td bs data = some data := by
  rw [spillSerialized]
  by_cases hzero : threshold = 0
  · rw [if_pos hzero]
  · have hneeds : needsSpill threshold td data ranges = false :=
      Bool.eq_false_iff.mpr (fun h => hsmall ⟨hzero,h⟩)
    rw [if_neg hzero, hranges]
    simp only [hneeds, Bool.not_false, if_true]

lemma columns_of_ranges {body : Bytes} (hranges : columnRanges (count::body) = some ranges)
    (hin : ∀ range ∈ ranges, range.2 ≤ (count::body).length) :
    ∃ parts rest, parts.length = count.toNat ∧ (∀ p ∈ parts, Skips p) ∧
      body = parts.flatten++rest ∧ ranges = partRanges 1 parts ∧
      hasBlobRef (count::body) = parts.any (fun p => p.head? == some 22) := by
  obtain ⟨parts,rest,hlen,hskips,hat,hparts⟩ := parts_of_ranges hranges hin
  refine ⟨parts,rest,hlen,hskips,hat,hparts,?_⟩
  rw [hasBlobRef, ← hlen, hasBlobRefFrom_parts parts 1 rest hskips hat]

/-- The columns can be told apart: none reads as a reference, and if one of them
is to be moved to a file, the last one ends where the row ends. -/
def Separable (threshold : ℕ) (td : TableData V E) (data : Bytes) : Prop :=
  ∀ ranges, columnRanges data = some ranges → hasBlobRef data = false ∧
    (Large threshold td data ranges → ranges.getLast?.map Prod.snd = some data.length)

lemma comesBack_of_separable (hbs : bs.ReadsBack) (h : Separable threshold td data) :
    ComesBack x threshold td bs data := by
  cases hranges : columnRanges data with
  | none =>
    refine ⟨data,?_,?_⟩
    · simp [spillSerialized, hranges]
    · simp [resolveChecked, hranges]
  | some ranges =>
    obtain ⟨href,hlast⟩ := h ranges hranges
    by_cases hlarge : Large threshold td data ranges
    · cases hstore : bs.store with
      | none =>
        refine ⟨data,?_,resolveChecked_plain href⟩
        simp [spillSerialized, hlarge.1, hranges, hlarge.2, hstore]
      | some store =>
        cases data with
        | nil => cases hranges
        | cons count body =>
          have hin := rangesFrom_le_last hranges (hlast hlarge)
          obtain ⟨parts,rest,hlen,hskips,rfl,rfl,hany⟩ := columns_of_ranges hranges hin
          have hplain : ∀ p ∈ parts, p.head? ≠ some 22 := by
            intro p hp htag
            rw [href, eq_comm, any_eq_false] at hany
            exact hany p hp (by rw [htag]; rfl)
          have hrest : rest = [] := rest_of_last (hlast hlarge)
          refine ⟨count::(spillParts threshold td store 0 parts).flatten,?_,?_⟩
          · rw [spill_large hranges hlarge hstore,
              spillFrom_parts threshold td store 0 1 rest hskips rfl]
            rfl
          · rw [resolveChecked_parts _ (by rw [spillParts_length, hlen])
              (skips_spillParts 0 hskips) (hbs.present store hstore),
              resolve_spillParts _ 0 (hbs.loads store · · · hstore) hplain, hrest, append_nil]
    · exact ⟨data,spill_small hranges hlarge,resolveChecked_plain href⟩

/-- A directory that is full and whose files have this content. -/
def fullStore (content : Option Bytes) : BlobStore where
  files := ⟨true,fun _ => content⟩
  store := some (fun _ _ => none)

lemma fullStore_readsBack (content : Option Bytes) : (fullStore content).ReadsBack where
  present _ _ := rfl
  loads _ _ _ _ h hfile := by
    cases h
    cases hfile

lemma comesBack_full {body : Bytes}
    {content : Option Bytes} (hranges : columnRanges (count::body) = some ranges)
    (h : ComesBack x threshold td (fullStore content) (count::body))
    (hcut : Large threshold td (count::body) ranges ∨ hasBlobRef (count::body) = true) :
    ∃ parts rest, body = parts.flatten++rest ∧ ranges = partRanges 1 parts ∧
      hasBlobRef (count::body) = parts.any (fun p => p.head? == some 22) ∧ (∀ p ∈ parts, Skips p) ∧
      body = parts.flatMap (resolvePart { x with files := (fullStore content).files }) := by
  obtain ⟨stored,hstored,hback⟩ := h
  by_cases hlarge : Large threshold td (count::body) ranges
  · rw [spill_large hranges hlarge rfl] at hstored
    obtain ⟨out,hout,rfl⟩ := Option.map_eq_some_iff.mp hstored
    obtain ⟨parts,rest,hlen,hskips,rfl,rfl,hany⟩ :=
      columns_of_ranges hranges (spillFrom_within hout)
    rw [spillFrom_parts _ _ _ 0 1 rest hskips rfl, spillParts_refused, Option.some_inj] at hout
    rw [← hout] at hback
    have hall := (resolveChecked_parts _ hlen hskips rfl).symm.trans hback
    exact ⟨parts,rest,rfl,rfl,hany,hskips,(cons.inj (Option.some.inj hall)).2.symm⟩
  · have href := hcut.resolve_left hlarge
    rw [spill_small hranges hlarge, Option.some_inj] at hstored
    rw [← hstored, resolveChecked, href, hranges] at hback
    obtain ⟨out,hout,hall⟩ := Option.map_eq_some_iff.mp hback
    obtain ⟨parts,rest,hlen,hskips,rfl,rfl,hany⟩ :=
      columns_of_ranges hranges (resolveFrom_within _ hout)
    rw [resolveFrom_parts _ 1 rest hskips rfl, Option.some_inj] at hout
    rw [← hout] at hall
    exact ⟨parts,rest,rfl,rfl,hany,hskips,(cons.inj hall).2.symm⟩

lemma length_le_flatMap {p : Bytes} (f : Bytes → Bytes) (hp : p ∈ parts) :
    (f p).length ≤ (parts.flatMap f).length := by
  rw [length_flatMap]
  exact single_le_sum (by simp) _ (mem_map_of_mem hp)

lemma noRef_of_comesBack (hranges : columnRanges data = some ranges)
    (h : ∀ content, ComesBack x threshold td (fullStore content) data) :
    hasBlobRef data = false := by
  cases data with
  | nil => rfl
  | cons count body =>
    by_contra href
    rw [Bool.not_eq_false] at href
    -- the reference is taken for a file that is longer than the row
    obtain ⟨parts,rest,-,-,hany,hskips,hbody⟩ :=
      comesBack_full hranges (h (some (0::body))) (.inr href)
    rw [href, eq_comm] at hany
    obtain ⟨p,hp,htag⟩ := any_eq_true.mp hany
    rw [beq_iff_eq] at htag
    have hlong := length_le_flatMap (resolvePart { x with files := (fullStore (some (0::body))).files })
      hp
    rw [← hbody, resolvePart, if_pos ⟨htag,(hskips p hp).reference htag⟩] at hlong
    exact absurd hlong (Nat.not_succ_le_self _)

lemma last_of_comesBack (hranges : columnRanges data = some ranges)
    (h : ComesBack x threshold td (fullStore none) data) (hlarge : Large threshold td data ranges) :
    ranges.getLast?.map Prod.snd = some data.length := by
  cases data with
  | nil => cases hranges
  | cons count body =>
    obtain ⟨parts,rest,-,rfl,-,-,hbody⟩ := comesBack_full hranges h (.inl hlarge)
    have hne : parts ≠ [] := by
      rintro rfl
      cases hlarge.2
    have hkept : ∀ p ∈ parts, resolvePart { x with files := (fullStore none).files } p = p := by
      intro p _
      rw [resolvePart]
      split <;> rfl
    rw [flatMap_def, map_congr_left hkept, map_id'] at hbody
    rw [partRanges_last parts 1 hne, ← hbody, length_cons, Nat.add_comm]

lemma comesBack_iff_separable :
    (∀ bs : BlobStore, bs.ReadsBack → ComesBack x threshold td bs data) ↔
      Separable threshold td data := by
  constructor
  · intro h ranges hranges
    exact ⟨noRef_of_comesBack hranges (fun content => h _ (fullStore_readsBack content)),
      last_of_comesBack hranges (h _ (fullStore_readsBack none))⟩
  · intro h bs hbs
    exact comesBack_of_separable hbs h

end

@[irreducible] def wideZeros : Bytes := List.replicate 16777216 0

/-- The LZ4 block of `wideZeros`: one literal, a match of 16777210 bytes at
distance one, and five literals. -/
@[irreducible] def wideBlock : Bytes :=
  [0x1F, 0, 1, 0]++List.replicate 65792 0xFF++[0xE7, 0x50, 0, 0, 0, 0, 0]

lemma wideBlock_length : wideBlock.length = 65803 := by
  rw [wideBlock, length_append, length_append, length_replicate]
  rfl

def wideLibraries : Libraries Unit where
  jsonText _ := utf8 "null"
  jsonParse _ := some ()
  lz4Compress b := if b = wideZeros then wideBlock else 0::b
  lz4Decompress c _ := if c = wideBlock then some wideZeros else some c.tail
  zstdCompress b := some b
  zstdDecompress c := some c

lemma compress_wideZeros :
    compress wideLibraries wideZeros = some (block 12 16777216 wideBlock) := by
  have hlz4 : wideLibraries.lz4Compress wideZeros = wideBlock := by simp [wideLibraries]
  have hlen : wideZeros.length = 16777216 := by rw [wideZeros, length_replicate]
  rw [compress, hlz4, hlen, wideBlock_length, if_neg (by norm_num [minCompressSize]),
    if_pos (by norm_num)]

def wideTable : TableData (Value Unit) Unit where
  schema := {
    tableName := "t"
    columns := [
      { name := "id", dataType := .int64, nullable := false, primaryKey := true, unique := false,
        autoIncrement := false, default := none, maxLength := none },
      { name := "b", dataType := .bytes, nullable := true, primaryKey := false, unique := false,
        autoIncrement := false, default := none, maxLength := none }]
    checkConstraints := []
    foreignKeys := [] }
  index := ⟨[],List.Pairwise.nil⟩
  versionStore := VersionStore.new
  checkExprs := []
  sequences := ∅
  secondaryIndexes := []

def wideRow : Bytes := serialize wideLibraries [.int64 1, .bytes wideZeros]

lemma wideRow_eq : wideRow = 2::((2::le 8 1)++block 12 16777216 wideBlock) := by
  have hvalue : encodeValue wideLibraries (.bytes wideZeros) = block 12 16777216 wideBlock := by
    rw [encodeValue, compress_wideZeros]
  rw [wideRow, serialize, flatMap_cons, flatMap_cons, hvalue, flatMap_nil, append_nil]
  rfl

lemma block_length (tag : UInt8) (size : ℕ) (buf : Bytes) :
    (block tag size buf).length = 13+buf.length := by
  rw [block, length_cons, length_append, length_append, le_length, le_length]
  omega

lemma wideRow_length : wideRow.length = 65826 := by
  rw [wideRow_eq, length_cons, length_append, length_cons, le_length, block_length,
    wideBlock_length]

lemma skipFront_block {rest : Bytes} (hlong : ¬ rest.length < 12) :
    skipFront (12::rest) = some (14+readLe ((rest.drop 8).take 4)) := by
  rw [skipFront]
  change (if _ then none else some (14+_)) = _
  rw [if_neg hlong]

lemma skip_wideBlock : skipFront (block 12 16777216 wideBlock) = some 65817 := by
  have hsize : readLe (((le 8 16777216++(le 4 wideBlock.length++wideBlock)).drop 8).take 4) =
      65803 := by
    rw [drop_left' (le_length 8 _), take_left' (le_length 4 _), wideBlock_length,
      read_le 4 65803 (by norm_num)]
  have hlong : ¬ (le 8 16777216++(le 4 wideBlock.length++wideBlock)).length < 12 := by
    rw [length_append, length_append, le_length, le_length]
    omega
  rw [block, skipFront_block hlong, hsize]

lemma wideRow_ranges : columnRanges wideRow = some [(1,10), (10,65827)] := by
  have hfirst : skipFront ((2::le 8 1)++block 12 16777216 wideBlock) = some 9 := by
    rw [cons_append, skipFront]
    rfl
  have hdrop : (2::((2::le 8 1)++block 12 16777216 wideBlock)).drop 10 =
      block 12 16777216 wideBlock := by
    rw [← cons_append]
    exact drop_left' (by simp)
  have hone : skipValue (2::((2::le 8 1)++block 12 16777216 wideBlock)) 1 = some 10 := by
    rw [skipValue, drop_one, tail_cons, hfirst]
    rfl
  have htwo : skipValue (2::((2::le 8 1)++block 12 16777216 wideBlock)) 10 = some 65827 := by
    rw [skipValue, hdrop, skip_wideBlock]
    rfl
  rw [wideRow_eq, columnRanges]
  change rangesFrom _ (1+1) 1 = _
  rw [rangesFrom, hone, Option.bind_eq_bind, Option.bind_some]
  change (rangesFrom _ (0+1) 10 >>= _) = _
  rw [rangesFrom, htwo]
  rfl

end Executor

end ByteDB.Tuple
