import ByteDB.TupleReads

/-!
# Rows and keys keep their values

Every value is decoded from the front of its encoding, compressed or not. So a
row is read back from its bytes, and no encoding continues another one: the
bytes of a key tell the values in the key columns.
-/

set_option autoImplicit false

namespace ByteDB.Tuple
open ByteDB.LittleEndian List
variable {J : Type} {lib : Libraries J}

/-- No data is compressed to no bytes: an LZ4 block has a token and a zstd
frame has its magic number. -/
structure Libraries.Framed (lib : Libraries J) : Prop where
  lz4 : ∀ b, b ≠ [] → lib.lz4Compress b ≠ []
  zstd : ∀ b c, b ≠ [] → lib.zstdCompress b = some c → c ≠ []

variable {v : Value J}

section

variable {b buf : Bytes} {tag : UInt8}

lemma decompress_block (hlib : lib.Faithful)
    (hmade : Made lib b tag buf) (hlt : buf.length < b.length) (hb : b.length < 256^4) :
    decompress lib (block tag b.length buf) = some b := by
  have hsize : readLe (((block tag b.length buf).drop 1).take 8) = b.length :=
    read_take 8 _ _ (by omega)
  have hcomp : readLe (((block tag b.length buf).drop 9).take 4) = buf.length := by
    rw [block, show (9 : ℕ) = 8+1 from rfl, drop_succ_cons, drop_le, read_take 4 _ _ (by omega)]
  have hbody : (block tag b.length buf).drop 13 = buf := by
    rw [block, show (13 : ℕ) = 12+1 from rfl, drop_succ_cons, ← append_assoc, drop_left' (by simp)]
  have hlength : (block tag b.length buf).length = 13+buf.length := by
    simp [block]
    omega
  rw [decompress, hlength, if_neg (by omega)]
  simp only [hsize, hcomp, hbody, take_length]
  rw [if_neg (lt_irrefl _)]
  rcases hmade with ⟨rfl,rfl⟩ | ⟨rfl,hzstd⟩
  · simp [block, hlib.lz4]
  · simp [block, hlib.zstd b buf hzstd]

lemma decodeFront_block (hlib : lib.Faithful)
    (hmade : Made lib b tag buf) (hne : buf ≠ []) (hlt : buf.length < b.length)
    (hb : b.length < 256^4) (rest : Bytes) :
    decodeFront lib (block tag b.length buf++rest) =
      some (.bytes b,(block tag b.length buf).length) := by
  have hpos : 0 < buf.length := length_pos_iff.mpr hne
  have hlength : (block tag b.length buf).length = 13+buf.length := by
    simp [block]
    omega
  have htag : tag.toNat = 12 ∨ tag.toNat = 13 := by
    rcases hmade with ⟨rfl,-⟩ | ⟨rfl,-⟩
    · exact .inl rfl
    · exact .inr rfl
  have hread : readLe (((le 8 b.length++(le 4 buf.length++buf)++rest).drop 8).take 4) =
      buf.length := by
    rw [append_assoc, append_assoc, drop_le, read_take 4 _ _ (by omega)]
  have htake : (block tag b.length buf++rest).take (13+buf.length) = block tag b.length buf :=
    take_left' hlength
  have hrest : ¬ (le 8 b.length++(le 4 buf.length++buf)++rest).length < 13 := by
    simp
    omega
  have hdecompress := decompress_block hlib hmade hlt hb
  rw [block, cons_append] at htake
  rw [hlength, block, cons_append, decodeFront.eq_def]
  rcases htag with h | h
  all_goals
    simp only [h, hread]
    rw [if_neg hrest, if_neg (by simp; omega), htake]
    rw [block] at hdecompress
    rw [hdecompress]
    rfl

lemma decodes_short (hlib : lib.Faithful) (hframed : lib.Framed)
    (hshort : Short lib v) : Decodes lib v := by
  by_cases hplain : Plain lib v
  · exact decodes_plain hlib hshort hplain
  intro rest
  cases v with
  | bytes b =>
    obtain ⟨c,hc⟩ := Option.ne_none_iff_exists'.mp hplain
    obtain ⟨tag,buf,rfl,hmade,hlt⟩ := compress_made hc
    have hb : b ≠ [] := ne_nil_of_length_pos (Nat.zero_lt_of_lt hlt)
    have hne : buf ≠ [] := by
      rcases hmade with ⟨-,rfl⟩ | ⟨-,hzstd⟩
      · exact hframed.lz4 b hb
      · exact hframed.zstd b buf hb hzstd
    rw [encodeValue, hc]
    exact decodeFront_block hlib hmade hne hlt hshort rest
  | _ => exact absurd trivial hplain

end

variable {cols : List ℕ}

section
variable {α : Type} {xs ys : List α}

lemma present_le (hle : xs.length ≤ ys.length) (cols : List ℕ) :
    (cols.filterMap (xs[·]?)).length ≤ (cols.filterMap (ys[·]?)).length := by
  induction cols with
  | nil => exact le_refl _
  | cons i cols ih =>
    cases hx : xs[i]? with
    | none =>
      rw [filterMap_cons_none hx]
      refine ih.trans ?_
      cases hy : ys[i]? with
      | none => rw [filterMap_cons_none hy]
      | some y =>
        rw [filterMap_cons_some hy]
        exact Nat.le_succ _
    | some x =>
      have hi : i < ys.length := (List.getElem?_eq_some_iff.mp hx).1.trans_le hle
      rw [List.filterMap_cons_some hx, List.filterMap_cons_some (List.getElem?_eq_getElem hi)]
      exact Nat.succ_le_succ ih

/-- Columns that are not there leave no gap behind which other values could
take their places, as a shorter list lacks the later columns only. -/
lemma columns_eq_of_le (hle : xs.length ≤ ys.length)
    (h : cols.filterMap (xs[·]?) = cols.filterMap (ys[·]?)) : ∀ i ∈ cols, xs[i]? = ys[i]? := by
  induction cols with
  | nil => exact nofun
  | cons i cols ih =>
    rw [forall_mem_cons]
    cases hx : xs[i]? with
    | none =>
      rw [filterMap_cons_none hx] at h
      cases hy : ys[i]? with
      | none =>
        rw [filterMap_cons_none hy] at h
        exact ⟨rfl,ih h⟩
      | some y =>
        rw [filterMap_cons_some hy] at h
        have hlength := present_le hle cols
        rw [h, length_cons] at hlength
        exact absurd hlength (Nat.not_succ_le_self _)
    | some x =>
      have hi : i < ys.length := (List.getElem?_eq_some_iff.mp hx).1.trans_le hle
      rw [List.filterMap_cons_some hx, List.filterMap_cons_some (List.getElem?_eq_getElem hi)] at h
      obtain ⟨hhead,htail⟩ := List.cons.inj h
      exact ⟨by rw [getElem?_eq_getElem hi, hhead],ih htail⟩

lemma columns_eq :
    cols.filterMap (xs[·]?) = cols.filterMap (ys[·]?) ↔ ∀ i ∈ cols, xs[i]? = ys[i]? := by
  constructor
  · intro h
    rcases le_total xs.length ys.length with hle | hle
    · exact columns_eq_of_le hle h
    · exact fun i hi => (columns_eq_of_le hle h.symm i hi).symm
  · exact filterMap_congr

end

section
variable {values other : List (Value J)}

lemma keyBytes_columns (values : List (Value J)) (cols : List ℕ) :
    keyBytes lib values cols = (cols.filterMap (values[·]?)).flatMap (encodeValue lib) := by
  induction cols with
  | nil => rfl
  | cons i cols ih =>
    rw [keyBytes, flatMap_cons, ← keyBytes, ih]
    cases h : values[i]? with
    | none => rw [filterMap_cons_none h, Option.elim_none, nil_append]
    | some v => rw [filterMap_cons_some h, Option.elim_some, flatMap_cons]

lemma mem_columns (hv : v ∈ cols.filterMap (values[·]?)) : v ∈ values := by
  obtain ⟨i,-,hi⟩ := mem_filterMap.mp hv
  exact mem_of_getElem? hi

lemma keyBytes_eq_iff (hvalues : ∀ v ∈ values, Decodes lib v)
    (hother : ∀ v ∈ other, Decodes lib v) (cols : List ℕ) :
    keyBytes lib values cols = keyBytes lib other cols ↔ ∀ i ∈ cols, values[i]? = other[i]? := by
  rw [keyBytes_columns, keyBytes_columns, ← columns_eq]
  constructor
  · exact encodings_inj (fun v hv => hvalues v (mem_columns hv))
      (fun v hv => hother v (mem_columns hv))
  · intro h
    rw [h]

/-- A row is read back from its bytes, and two rows have one key exactly if
they hold the same values in the key columns. -/
theorem row_and_key_kept (hlib : lib.Faithful) (hframed : lib.Framed)
    (hcount : values.length ≤ 255) (hshort : ∀ v ∈ values, Short lib v) :
    deserializeToVec lib (serialize lib values) = some values ∧
      ∀ other : List (Value J), other.length ≤ 255 → (∀ v ∈ other, Short lib v) →
        ∀ cols, keyBytes lib values cols = keyBytes lib other cols ↔
          ∀ i ∈ cols, values[i]? = other[i]? := by
  have hdecodes : ∀ v ∈ values, Decodes lib v :=
    fun v hv => decodes_short hlib hframed (hshort v hv)
  refine ⟨deserialize_serialize hcount hdecodes,?_⟩
  intro other _ hother cols
  exact keyBytes_eq_iff hdecodes (fun v hv => decodes_short hlib hframed (hother v hv)) cols

lemma sampleLibraries_framed : sampleLibraries.Framed where
  lz4 b _ := by
    by_cases h : b = zeros
    · simp [sampleLibraries, h, zerosBlock]
    · simp [sampleLibraries, h]
  zstd b c hb h := by
    cases h
    exact hb

theorem compressed_row_kept :
    deserializeToVec sampleLibraries (serialize sampleLibraries [.bytes zeros, .int64 5]) =
        some [.bytes zeros, .int64 5] ∧
      keyBytes sampleLibraries [.bytes zeros, .int64 5] [0] =
        keyBytes sampleLibraries [.bytes zeros, .int64 6] [0] ∧
      keyBytes sampleLibraries [.bytes zeros, .int64 5] [1, 0] ≠
        keyBytes sampleLibraries [.bytes zeros, .int64 6] [1, 0] := by
  have hshort : ∀ n, ∀ v ∈ [Value.bytes zeros, .int64 n], Short sampleLibraries v := by
    simp [Short, zeros_length]
  obtain ⟨hread,hkeys⟩ := row_and_key_kept sampleLibraries_faithful sampleLibraries_framed
    (by simp) (hshort 5)
  have hkeys := hkeys [.bytes zeros, .int64 6] (by simp) (hshort 6)
  refine ⟨hread,(hkeys [0]).mpr (by simp),fun heq => ?_⟩
  have hone := (hkeys [1, 0]).mp heq 1 (by simp)
  exact absurd hone (by simp)

end

end ByteDB.Tuple
