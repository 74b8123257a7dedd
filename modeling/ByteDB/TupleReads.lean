import ByteDB.TupleCodec

/-!
# The ways to read a row

All ways to read the bytes of a row agree, unless the row has a compressed
value: skipping one goes a byte too far.
-/

set_option autoImplicit false

namespace ByteDB.Tuple
open ByteDB.LittleEndian List Option
variable {J : Type} (lib : Libraries J)

def Short : Value J → Prop
  | .text s => (utf8 s).length < 256^4
  | .bytes b => b.length < 256^4
  | .json j => (lib.jsonText j).length < 256^4
  | _ => True

def Plain : Value J → Prop
  | .bytes b => compress lib b = none
  | _ => True

section
variable {lib}

lemma readWord_le (n x : ℕ) (rest : Bytes) (f : ℕ → Value J) (h : x < 256^n) :
    readWord n (le n x++rest) f = some (f x,1+n) := by
  rw [readWord, if_neg (by simp), read_take n x rest h]

lemma readVar_le (b rest : Bytes) (f : Bytes → Option (Value J)) (h : b.length < 256^4) :
    readVar (le 4 b.length++(b++rest)) f = (f b).map (fun v => (v,5+b.length)) := by
  rw [readVar, if_neg (by simp)]
  simp only [read_take 4 _ _ h, drop_le, take_left]
  rw [if_neg (by simp)]

variable {w k : ℕ}

lemma word_lt (n : BitVec w) (h : 2^w = 256^k) : n.toNat < 256^k := by
  rw [← h]
  exact n.isLt

lemma word_ofNat (n : BitVec w) : BitVec.ofNat w n.toNat = n := by
  rw [BitVec.ofNat_toNat, BitVec.setWidth_eq]

def Decodes (lib : Libraries J) (v : Value J) : Prop :=
  ∀ rest, decodeFront lib (encodeValue lib v++rest) = some (v,(encodeValue lib v).length)

variable {v : Value J}

lemma decodes_plain (hlib : lib.Faithful) (hshort : Short lib v)
    (hplain : Plain lib v) : Decodes lib v := by
  intro rest
  cases v with
  | null => rfl
  | bool b => cases b <;> rfl
  | int64 n | float64 n | timestamp n | interval n =>
    rw [encodeValue, cons_append, decodeFront.eq_def]
    change readWord 8 _ _ = _
    rw [readWord_le 8 _ rest _ (word_lt n (by norm_num)), word_ofNat, length_cons, le_length]
  | text s =>
    rw [encodeValue, cons_append, append_assoc, decodeFront.eq_def]
    simp only [show (4 : UInt8).toNat = 4 from rfl]
    rw [readVar_le (utf8 s) rest _ hshort]
    rw [fromUtf8_utf8]
    simp
    omega
  | bytes b =>
    have hnone : compress lib b = none := hplain
    rw [encodeValue, hnone, cons_append, append_assoc, decodeFront.eq_def]
    simp only [show (5 : UInt8).toNat = 5 from rfl]
    rw [readVar_le b rest _ hshort]
    simp
    omega
  | json j =>
    rw [encodeValue, cons_append, append_assoc, decodeFront.eq_def]
    simp only [show (6 : UInt8).toNat = 6 from rfl]
    rw [readVar_le (lib.jsonText j) rest _ hshort]
    rw [hlib.json]
    simp
    omega
  | date d =>
    rw [encodeValue, cons_append, decodeFront.eq_def]
    simp only [show (8 : UInt8).toNat = 8 from rfl]
    rw [readWord_le 4 _ rest _ (word_lt d (by norm_num)), word_ofNat, length_cons, le_length]
  | decimal m s =>
    rw [encodeValue, cons_append, append_assoc, decodeFront.eq_def]
    simp only [show (9 : UInt8).toNat = 9 from rfl]
    rw [if_neg (by simp; omega), read_take 16 _ _ (word_lt m (by norm_num)), word_ofNat,
      getElem?_append_right (by simp)]
    simp
  | uuid u =>
    obtain ⟨b,hb⟩ := u
    rw [encodeValue, cons_append, decodeFront.eq_def]
    simp only [show (10 : UInt8).toNat = 10 from rfl]
    rw [dif_neg (by simp [hb])]
    simp [take_left' hb, hb]

lemma skipFront_encode (hshort : Short lib v) (hplain : Plain lib v) (rest : Bytes) :
    skipFront (encodeValue lib v++rest) = some (encodeValue lib v).length := by
  have hvar : ∀ (tag : UInt8) (b : Bytes), tag.toNat = 4 ∨ tag.toNat = 5 ∨ tag.toNat = 6 →
      b.length < 256^4 → skipFront (tag::(le 4 b.length++b)++rest) =
        some (tag::(le 4 b.length++b)).length := by
    intro tag b htag hb
    rw [cons_append, append_assoc, skipFront]
    have htake := read_take 4 b.length (b++rest) hb
    rcases htag with h | h | h
    all_goals
      simp only [h, htake]
      rw [if_neg (by simp)]
      simp
      omega
  cases v with
  | null | bool => rfl
  | int64 | float64 => simp [encodeValue, skipFront]
  | text s => exact hvar 4 _ (by decide) hshort
  | bytes b =>
    have hnone : compress lib b = none := hplain
    rw [encodeValue, hnone]
    exact hvar 5 _ (by decide) hshort
  | json j => exact hvar 6 _ (by decide) hshort
  | timestamp | date | decimal => simp [encodeValue, skipFront]
  | uuid u => simp [encodeValue, skipFront, u.size]
  | interval us => simp [encodeValue, skipFront]

/-- A block is told by its tag which library made it. -/
def Made (lib : Libraries J) (b : Bytes) (tag : UInt8) (buf : Bytes) : Prop :=
  tag = 12 ∧ buf = lib.lz4Compress b ∨ tag = 13 ∧ lib.zstdCompress b = some buf

lemma compress_made {b c : Bytes} (h : compress lib b = some c) :
    ∃ tag buf, c = block tag b.length buf ∧ Made lib b tag buf ∧ buf.length < b.length := by
  rw [compress] at h
  split at h
  · cases h
  split at h
  · rename_i hlt
    cases h
    exact ⟨_,_,rfl,.inl ⟨rfl,rfl⟩,hlt⟩
  split at h
  · cases h
  rename_i buf hbuf
  split at h
  · rename_i hlt
    cases h
    exact ⟨_,_,rfl,.inr ⟨rfl,hbuf⟩,hlt⟩
  · cases h

lemma compressed_block (hpacked : ¬ Plain lib v) :
    ∃ b tag buf, v = .bytes b ∧ encodeValue lib v = block tag b.length buf ∧
      (tag = 12 ∨ tag = 13) ∧ buf.length < b.length := by
  cases v with
  | bytes b =>
    obtain ⟨c,hc⟩ := ne_none_iff_exists'.mp hpacked
    obtain ⟨tag,buf,rfl,hmade,hlt⟩ := compress_made hc
    refine ⟨b,tag,buf,rfl,by rw [encodeValue, hc],?_,hlt⟩
    exact hmade.imp And.left And.left
  | _ => exact absurd trivial hpacked

/-- A compressed value is taken for one byte longer than it is. -/
lemma skipFront_compressed (hshort : Short lib v) (hpacked : ¬ Plain lib v) (rest : Bytes) :
    skipFront (encodeValue lib v++rest) = some ((encodeValue lib v).length+1) := by
  obtain ⟨b,tag,buf,rfl,hblock,htag,hlt⟩ := compressed_block hpacked
  have hb : b.length < 256^4 := hshort
  have hread : readLe (((le 8 b.length++(le 4 buf.length++(buf++rest))).drop 8).take 4) =
      buf.length := by
    rw [drop_le, read_take 4 _ _ (by omega)]
  rw [hblock]
  simp only [block, cons_append, append_assoc, skipFront]
  rcases htag with rfl | rfl
  all_goals
    simp only [show (12 : UInt8).toNat = 12 from rfl, show (13 : UInt8).toNat = 13 from rfl, hread]
    rw [if_neg (by simp; omega)]
    simp
    omega

def typeTag : Value J → UInt8
  | .null => 0
  | .bool _ => 1
  | .int64 _ => 2
  | .float64 _ => 3
  | .text _ => 4
  | .bytes _ => 5
  | .json _ => 6
  | .timestamp _ => 7
  | .date _ => 8
  | .decimal _ _ => 9
  | .uuid _ => 10
  | .interval _ => 11

variable (lib) in
def payload : Value J → Bytes
  | .null => []
  | .bool b => [if b then 1 else 0]
  | .int64 n => le 8 n.toNat
  | .float64 f => le 8 f.toNat
  | .text s => le 4 (utf8 s).length++utf8 s
  | .bytes b => le 4 b.length++b
  | .json j => le 4 (lib.jsonText j).length++lib.jsonText j
  | .timestamp t => le 8 t.toNat
  | .date d => le 4 d.toNat
  | .decimal m s => le 16 m.toNat++[s]
  | .uuid u => u.bytes
  | .interval us => le 8 us.toNat

lemma encode_plain (hplain : Plain lib v) : encodeValue lib v = typeTag v::payload lib v := by
  cases v with
  | bytes b =>
    have hnone : compress lib b = none := hplain
    rw [encodeValue, hnone]
    rfl
  | _ => rfl

lemma typeTag_le (v : Value J) : (typeTag v).toNat ≤ 11 := by
  cases v <;> simp [typeTag]

lemma le_word_inj {a b : BitVec w} (hk : 2^w = 256^k)
    (h : le k a.toNat = le k b.toNat) : a = b := by
  have hread := congrArg readLe h
  rw [read_le k _ (word_lt a hk), read_le k _ (word_lt b hk)] at hread
  exact BitVec.eq_of_toNat_eq hread

lemma sized_inj {a b : Bytes} (h : le 4 a.length++a = le 4 b.length++b) : a = b :=
  (append_inj h (by rw [le_length, le_length])).2

lemma payload_inj (hlib : lib.Faithful) {a b : Value J} (htag : typeTag a = typeTag b)
    (h : payload lib a = payload lib b) : a = b := by
  cases a <;> cases b <;> try (simp [typeTag] at htag; done)
  case null.null => rfl
  case bool.bool p q => cases p <;> cases q <;> simp [payload] at h <;> rfl
  case int64.int64 | float64.float64 | timestamp.timestamp | date.date | interval.interval =>
    rw [le_word_inj (by norm_num) h]
  case text.text => rw [utf8_inj (sized_inj h)]
  case bytes.bytes => rw [sized_inj h]
  case json.json =>
    have htext := congrArg lib.jsonParse (sized_inj h)
    rw [hlib.json, hlib.json] at htext
    rw [some.inj htext]
  case decimal.decimal =>
    have hparts := append_inj h (by rw [le_length, le_length])
    rw [le_word_inj (by norm_num) hparts.1, (cons.inj hparts.2).1]
  case uuid.uuid u w =>
    obtain ⟨p,hp⟩ := u
    obtain ⟨q,hq⟩ := w
    cases h
    rfl

lemma encodeValue_inj (hlib : lib.Faithful) {a b : Value J} (ha : Plain lib a)
    (h : encodeValue lib a = encodeValue lib b) : a = b := by
  rw [encode_plain ha] at h
  have hb : Plain lib b := by
    by_contra hpacked
    obtain ⟨c,tag,buf,-,hblock,htag,-⟩ := compressed_block hpacked
    rw [hblock] at h
    have hle := typeTag_le a
    rw [(cons.inj h).1] at hle
    rcases htag with rfl | rfl
    · exact absurd hle (by decide)
    · exact absurd hle (by decide)
  rw [encode_plain hb] at h
  obtain ⟨htag,hpayload⟩ := cons.inj h
  exact payload_inj hlib htag hpayload

end

section
variable {data : Bytes}

def Skips (part : Bytes) : Prop := ∀ rest, skipFront (part++rest) = some part.length

variable {pos : ℕ} {part rest : Bytes}

lemma drop_part (hat : data.drop pos = part++rest) : data.drop (pos+part.length) = rest := by
  rw [← drop_drop, hat, drop_left]

lemma skipValue_part (hskips : Skips part)
    (hat : data.drop pos = part++rest) : skipValue data pos = some (pos+part.length) := by
  rw [skipValue, hat, hskips]
  rfl

lemma skipValues_succ (data : Bytes) (n pos : ℕ) :
    skipValues data (n+1) pos = (skipValues data n pos).bind (skipValue data) := by
  induction n generalizing pos with
  | zero =>
    rw [skipValues, skipValues, bind_some]
    cases skipValue data pos <;> rfl
  | succ n ih =>
    rw [skipValues, skipValues]
    cases skipValue data pos with
    | none => rfl
    | some next => exact ih next

lemma skipValues_parts (parts : List Bytes) (pos i : ℕ) (hskips : ∀ p ∈ parts, Skips p)
    (hat : data.drop pos = parts.flatten) (hi : i < parts.length) :
    ∃ stop, skipValues data i pos = some stop ∧ data.drop stop = (parts.drop i).flatten := by
  induction i generalizing parts pos with
  | zero => exact ⟨pos,rfl,hat⟩
  | succ i ih =>
    cases parts with
    | nil => cases hi
    | cons p ps =>
      rw [flatten_cons] at hat
      rw [forall_mem_cons] at hskips
      rw [skipValues, skipValue_part hskips.1 hat]
      exact ih ps _ hskips.2 (drop_part hat) (Nat.lt_of_succ_lt_succ hi)

def partRanges : ℕ → List Bytes → List (ℕ × ℕ)
  | _, [] => []
  | pos, p::ps => (pos,pos+p.length)::partRanges (pos+p.length) ps

lemma rangesFrom_parts (parts : List Bytes) (pos : ℕ) (hskips : ∀ p ∈ parts, Skips p)
    (hat : data.drop pos = parts.flatten) :
    rangesFrom data parts.length pos = some (partRanges pos parts) := by
  induction parts generalizing pos with
  | nil => rfl
  | cons p ps ih =>
    rw [flatten_cons] at hat
    rw [forall_mem_cons] at hskips
    rw [length_cons, rangesFrom, skipValue_part hskips.1 hat]
    simp only [bind_eq_bind, bind_some]
    rw [ih _ hskips.2 (drop_part hat), bind_some, partRanges]

end

section
variable {lib} {data : Bytes} {pos : ℕ} {v : Value J} {rest : Bytes}

lemma decodeValue_at (hdecodes : Decodes lib v) (hat : data.drop pos = encodeValue lib v++rest) :
    decodeValue lib data pos = some (v,pos+(encodeValue lib v).length) := by
  rw [decodeValue, hat, hdecodes rest]
  rfl

lemma skips_encode (hshort : Short lib v) (hplain : Plain lib v) : Skips (encodeValue lib v) :=
  skipFront_encode hshort hplain

lemma skips_values {values : List (Value J)} (hshort : ∀ v ∈ values, Short lib v)
    (hplain : ∀ v ∈ values, Plain lib v) : ∀ p ∈ values.map (encodeValue lib), Skips p := by
  intro p hp
  obtain ⟨v,hv,rfl⟩ := mem_map.mp hp
  exact skips_encode (hshort v hv) (hplain v hv)

end

section
variable {lib} {data : Bytes} (values : List (Value J))

lemma decodeValues_at (pos : ℕ) (hdecodes : ∀ v ∈ values, Decodes lib v)
    (hat : data.drop pos = values.flatMap (encodeValue lib)) :
    decodeValues lib data values.length pos = some values := by
  induction values generalizing pos with
  | nil => rfl
  | cons v vs ih =>
    rw [flatMap_cons] at hat
    rw [forall_mem_cons] at hdecodes
    rw [length_cons, decodeValues, decodeValue_at hdecodes.1 hat]
    simp only [bind_eq_bind, bind_some]
    rw [ih _ hdecodes.2 (drop_part hat), bind_some]

lemma encodings_inj {as bs : List (Value J)} (has : ∀ a ∈ as, Decodes lib a)
    (hbs : ∀ b ∈ bs, Decodes lib b)
    (h : as.flatMap (encodeValue lib) = bs.flatMap (encodeValue lib)) : as = bs := by
  induction as generalizing bs with
  | nil =>
    cases bs with
    | nil => rfl
    | cons b bs =>
      -- No encoding is empty, as nothing is decoded from no bytes.
      have hfront := (forall_mem_cons.mp hbs).1 (bs.flatMap (encodeValue lib))
      rw [← flatMap_cons, ← h] at hfront
      cases hfront
  | cons a as ih =>
    rw [forall_mem_cons] at has
    have hfront := has.1 (as.flatMap (encodeValue lib))
    rw [← flatMap_cons, h] at hfront
    cases bs with
    | nil => cases hfront
    | cons b bs =>
      rw [forall_mem_cons] at hbs
      rw [flatMap_cons, hbs.1] at hfront
      cases some.inj hfront
      rw [flatMap_cons, flatMap_cons] at h
      rw [ih has.2 hbs.2 (append_cancel_left h)]

def pick : ℕ → List (Value J) → List ℕ → List (Value J)
  | _, [], _ => []
  | col, v::vs, needed =>
    if needed.head? = some col then v::pick (col+1) vs needed.tail
    else .null::pick (col+1) vs needed

lemma decodeColumns_at (hlib : lib.Faithful) (values : List (Value J)) (col pos : ℕ)
    (needed : List ℕ) (hshort : ∀ v ∈ values, Short lib v) (hplain : ∀ v ∈ values, Plain lib v)
    (hat : data.drop pos = values.flatMap (encodeValue lib)) :
    decodeColumns lib data values.length col pos needed = some (pick col values needed) := by
  induction values generalizing col pos needed with
  | nil => rfl
  | cons v vs ih =>
    rw [flatMap_cons] at hat
    rw [forall_mem_cons] at hshort hplain
    rw [length_cons, decodeColumns, pick, decodeValue_at (decodes_plain hlib hshort.1 hplain.1) hat,
      skipValue_part (skips_encode hshort.1 hplain.1) hat]
    simp only [bind_eq_bind, bind_some]
    split
    · rw [ih _ _ _ hshort.2 hplain.2 (drop_part hat), bind_some]
    · rw [ih _ _ _ hshort.2 hplain.2 (drop_part hat), bind_some]

lemma pick_length (col : ℕ) (values : List (Value J)) (needed : List ℕ) :
    (pick col values needed).length = values.length := by
  induction values generalizing col needed with
  | nil => rfl
  | cons v vs ih =>
    rw [pick]
    split
    · rw [length_cons, ih, length_cons]
    · rw [length_cons, ih, length_cons]

lemma pick_getElem? (col : ℕ) (values : List (Value J)) (needed : List ℕ)
    (hinc : needed.Pairwise (· < ·)) (hfrom : ∀ i ∈ needed, col ≤ i) (i : ℕ)
    (hi : col+i ∈ needed) : (pick col values needed)[i]? = values[i]? := by
  induction values generalizing col needed i with
  | nil => rfl
  | cons v vs ih =>
    cases needed with
    | nil => cases hi
    | cons n ns =>
      have htail := pairwise_cons.mp hinc
      by_cases hn : n = col
      · subst hn
        rw [pick, head?_cons, if_pos rfl, tail_cons]
        cases i with
        | zero => rfl
        | succ i =>
          rw [getElem?_cons_succ, getElem?_cons_succ]
          refine ih _ _ htail.2 htail.1 _ ?_
          have hmem := (mem_cons.mp hi).resolve_left (by omega)
          rwa [Nat.succ_add_eq_add_succ]
      · have hlt : col < n := lt_of_le_of_ne (hfrom n (mem_cons_self ..)) (Ne.symm hn)
        have hall : ∀ j ∈ n::ns, col+1 ≤ j := by
          intro j hj
          rcases mem_cons.mp hj with rfl | hj
          · exact hlt
          · exact hlt.trans (htail.1 j hj)
        rw [pick, head?_cons, if_neg (fun h => hn (some.inj h))]
        cases i with
        | zero => exact absurd (hall _ hi) (by omega)
        | succ i =>
          rw [getElem?_cons_succ, getElem?_cons_succ]
          refine ih _ _ hinc hall _ ?_
          rwa [Nat.add_assoc, Nat.add_comm 1 i]

variable (lib) in
/-- Ranges that stand one after another from `pos` to the end of the bytes, each
holding the encoding of one value. -/
def Tiles (data : Bytes) : ℕ → List (Value J) → List (ℕ × ℕ) → Prop
  | pos, [], [] => pos = data.length
  | pos, v::vs, (start,stop)::rs =>
    start = pos ∧ start ≤ stop ∧ stop ≤ data.length ∧
      (data.drop start).take (stop-start) = encodeValue lib v ∧ Tiles data stop vs rs
  | _, _, _ => False

lemma tiles_partRanges (pos : ℕ) (hpos : pos ≤ data.length)
    (hat : data.drop pos = values.flatMap (encodeValue lib)) :
    Tiles lib data pos values (partRanges pos (values.map (encodeValue lib))) := by
  induction values generalizing pos with
  | nil =>
    rw [flatMap_nil, drop_eq_nil_iff] at hat
    exact le_antisymm hpos hat
  | cons v vs ih =>
    rw [flatMap_cons] at hat
    have hlen := congrArg length hat
    rw [length_drop, length_append] at hlen
    have hstop : pos+(encodeValue lib v).length ≤ data.length := by omega
    refine ⟨rfl,Nat.le_add_right ..,hstop,?_,ih _ hstop (drop_part hat)⟩
    rw [Nat.add_sub_cancel_left, hat, take_left]

lemma plain_of_tiles (pos : ℕ) (ranges : List (ℕ × ℕ)) (hshort : ∀ v ∈ values, Short lib v)
    (hat : data.drop pos = values.flatMap (encodeValue lib))
    (hranges : rangesFrom data values.length pos = some ranges)
    (htiles : Tiles lib data pos values ranges) : ∀ v ∈ values, Plain lib v := by
  induction values generalizing pos ranges with
  | nil => exact fun _ hv => absurd hv not_mem_nil
  | cons v vs ih =>
    rw [flatMap_cons] at hat
    rw [forall_mem_cons] at hshort ⊢
    rw [length_cons, rangesFrom] at hranges
    simp only [bind_eq_bind, bind_eq_some_iff, some.injEq] at hranges
    obtain ⟨stop,hskip,rs,hrs,rfl⟩ := hranges
    obtain ⟨-,-,hstop,hslice,htail⟩ := htiles
    have hplain : Plain lib v := by
      by_contra hpacked
      rw [skipValue, hat, skipFront_compressed hshort.1 hpacked, map_some, some.injEq] at hskip
      have hlen := congrArg length hslice
      rw [length_take, length_drop] at hlen
      omega
    have hend := (skipValue_part (skips_encode hshort.1 hplain) hat).symm.trans hskip
    rw [some.injEq] at hend
    refine ⟨hplain,ih stop rs hshort.2 ?_ hrs htail⟩
    rw [← hend, drop_part hat]

end

section

/-- All ways to read the bytes give the values that reading all of them gives,
and the ranges of the columns tile the bytes. -/
def ReadsAgree (values : List (Value J)) : Prop :=
  ∃ read, deserializeToVec lib (serialize lib values) = some read ∧
    (∀ needed : List ℕ, needed.Pairwise (· < ·) →
      ∃ row, deserializeColumns lib (serialize lib values) needed = some row ∧
        row.length = read.length ∧ ∀ i ∈ needed, row[i]? = read[i]?) ∧
    (∀ i, readValueAt lib (serialize lib values) i = read[i]?) ∧
    ∃ ranges, columnRanges (serialize lib values) = some ranges ∧
      Tiles lib (serialize lib values) 1 values ranges

variable {lib} {values : List (Value J)}

lemma serialize_drop : (serialize lib values).drop 1 = values.flatMap (encodeValue lib) := rfl

lemma serialize_parts : (serialize lib values).drop 1 = (values.map (encodeValue lib)).flatten :=
  flatMap_def ..

lemma serialize_count (hcount : values.length ≤ 255) :
    (UInt8.ofNat values.length).toNat = values.length := by
  rw [UInt8.toNat_ofNat']
  omega

lemma readValueAt_serialize (hlib : lib.Faithful) (hcount : values.length ≤ 255)
    (hshort : ∀ v ∈ values, Short lib v) (hplain : ∀ v ∈ values, Plain lib v) (i : ℕ) :
    readValueAt lib (serialize lib values) i = values[i]? := by
  have hoffset : columnOffset (serialize lib values) i =
      if values.length ≤ i then none else skipValues (serialize lib values) i 1 := by
    rw [serialize, columnOffset, serialize_count hcount]
  rw [readValueAt, hoffset]
  split
  · rename_i hle
    rw [getElem?_eq_none hle]
    rfl
  rename_i hlt
  have hi : i < values.length := not_le.mp hlt
  obtain ⟨stop,hstop,hat⟩ := skipValues_parts _ 1 i (skips_values hshort hplain)
    serialize_parts (by rwa [length_map])
  rw [← map_drop, drop_eq_getElem_cons hi, map_cons, flatten_cons] at hat
  have hmem := getElem_mem hi
  simp only [bind_eq_bind]
  rw [hstop, bind_some,
    decodeValue_at (decodes_plain hlib (hshort _ hmem) (hplain _ hmem)) hat, bind_some, getElem?_eq_getElem hi]

lemma deserialize_serialize (hcount : values.length ≤ 255)
    (hdecodes : ∀ v ∈ values, Decodes lib v) :
    deserializeToVec lib (serialize lib values) = some values := by
  have hall := decodeValues_at values 1 hdecodes serialize_drop
  rw [serialize] at hall ⊢
  rw [deserializeToVec, serialize_count hcount, hall]

lemma deserializeColumns_serialize (hlib : lib.Faithful) (hcount : values.length ≤ 255)
    (hshort : ∀ v ∈ values, Short lib v) (hplain : ∀ v ∈ values, Plain lib v) (needed : List ℕ) :
    deserializeColumns lib (serialize lib values) needed = some (pick 0 values needed) := by
  have hall := decodeColumns_at hlib values 0 1 needed hshort hplain serialize_drop
  rw [serialize] at hall ⊢
  rw [deserializeColumns, serialize_count hcount, hall]

/-- All ways to read a row agree exactly if none of its values is compressed. -/
theorem reads_agree_iff (hlib : lib.Faithful) (hcount : values.length ≤ 255)
    (hshort : ∀ v ∈ values, Short lib v) : ReadsAgree lib values ↔ ∀ v ∈ values, Plain lib v := by
  have hranges : columnRanges (serialize lib values) =
      rangesFrom (serialize lib values) values.length 1 := by
    rw [serialize, columnRanges, serialize_count hcount]
  constructor
  · rintro ⟨read,-,-,-,ranges,hsome,htiles⟩
    exact plain_of_tiles values 1 ranges hshort serialize_drop (hranges.symm.trans hsome) htiles
  intro hplain
  have hdecodes : ∀ v ∈ values, Decodes lib v :=
    fun v hv => decodes_plain hlib (hshort v hv) (hplain v hv)
  refine ⟨values,deserialize_serialize hcount hdecodes,?_,
    readValueAt_serialize hlib hcount hshort hplain,?_⟩
  · intro needed hinc
    refine ⟨_,deserializeColumns_serialize hlib hcount hshort hplain needed,pick_length ..,?_⟩
    intro i hi
    exact pick_getElem? 0 values needed hinc (fun _ _ => Nat.zero_le _) i (by rwa [zero_add])
  · have hparts := rangesFrom_parts _ 1 (skips_values hshort hplain) serialize_parts
    rw [length_map] at hparts
    exact ⟨_,hranges.trans hparts,
      tiles_partRanges values 1 (Nat.succ_le_succ (Nat.zero_le _)) serialize_drop⟩

end

def zeros : Bytes := List.replicate 1024 0

/-- The LZ4 block of 1024 zero bytes: one literal, a match of 1018 bytes at
distance one, and five literals. -/
def zerosBlock : Bytes := [0x1F, 0, 1, 0, 0xFF, 0xFF, 0xFF, 0xEA, 0x50, 0, 0, 0, 0, 0]

/-- Libraries that shorten no other bytes; `null` is the only JSON value. -/
def sampleLibraries : Libraries Unit where
  jsonText _ := utf8 "null"
  jsonParse _ := some ()
  lz4Compress b := if b = zeros then zerosBlock else 0::b
  lz4Decompress c _ := if c = zerosBlock then some zeros else some c.tail
  zstdCompress b := some b
  zstdDecompress c := some c

lemma sampleLibraries_faithful : sampleLibraries.Faithful where
  json _ := rfl
  lz4 b := by
    by_cases h : b = zeros
    · rw [h]
      simp [sampleLibraries]
    · have hne : (0 : UInt8)::b ≠ zerosBlock := by
        intro heq
        exact absurd (cons.inj heq).1 (by decide)
      simp [sampleLibraries, h, hne]
  zstd b c h := by
    cases h
    rfl

lemma zeros_length : zeros.length = 1024 := length_replicate ..

lemma compress_zeros : compress sampleLibraries zeros = some (block 12 1024 zerosBlock) := by
  have hlz4 : sampleLibraries.lz4Compress zeros = zerosBlock := by simp [sampleLibraries]
  rw [compress, hlz4, zeros_length, if_neg (by decide), if_pos (by decide)]

lemma decompress_zeros : decompress sampleLibraries (block 12 1024 zerosBlock) = some zeros := by
  have hlz4 : sampleLibraries.lz4Decompress zerosBlock 1024 = some zeros := by
    simp [sampleLibraries]
  have hsize : readLe (((block 12 1024 zerosBlock).drop 1).take 8) = 1024 := by decide
  have hcomp : readLe (((block 12 1024 zerosBlock).drop 9).take 4) = 14 := by decide
  have hbody : ((block 12 1024 zerosBlock).drop 13).take 14 = zerosBlock := by decide
  have hhead : (block 12 1024 zerosBlock).head? = some 12 := rfl
  rw [decompress, if_neg (by decide)]
  simp only [hsize, hcomp, hbody, hhead, hlz4]
  rw [if_neg (by decide), filter_some, if_pos (by simp [zeros_length])]

theorem plain_row_reads : ReadsAgree sampleLibraries [.bytes [1, 2], .int64 5, .null] :=
  (reads_agree_iff sampleLibraries_faithful (by decide)
    (by simp [Short])).mpr (by simp [Plain, compress, minCompressSize])

/-- Behind a compressed value the number 5 is read as an empty byte string. -/
theorem compressed_row_misread :
    deserializeToVec sampleLibraries (serialize sampleLibraries [.bytes zeros, .int64 5]) =
        some [.bytes zeros, .int64 5] ∧
      readValueAt sampleLibraries (serialize sampleLibraries [.bytes zeros, .int64 5]) 1 =
        some (.bytes []) ∧
      ¬ ReadsAgree sampleLibraries [.bytes zeros, .int64 5] := by
  have hrow : serialize sampleLibraries [.bytes zeros, .int64 5] =
      2::(block 12 1024 zerosBlock++(2::le 8 5)) := by
    simp [serialize, encodeValue, compress_zeros]
  have hread : deserializeToVec sampleLibraries
      (serialize sampleLibraries [.bytes zeros, .int64 5]) = some [.bytes zeros, .int64 5] := by
    have hfirst : decodeValue sampleLibraries (2::(block 12 1024 zerosBlock++(2::le 8 5))) 1 =
        some (.bytes zeros,28) := by
      have hfront : decodeFront sampleLibraries (block 12 1024 zerosBlock++(2::le 8 5)) =
          (decompress sampleLibraries (block 12 1024 zerosBlock)).map
            (fun b => (.bytes b,27)) := rfl
      rw [decodeValue, drop_one, tail_cons, hfront, decompress_zeros]
      rfl
    rw [hrow, deserializeToVec]
    simp only [show (2 : UInt8).toNat = 1+1 from rfl]
    rw [decodeValues, hfirst]
    rfl
  have hshift : readValueAt sampleLibraries
      (serialize sampleLibraries [.bytes zeros, .int64 5]) 1 = some (.bytes []) := by
    rw [hrow]
    rfl
  refine ⟨hread,hshift,?_⟩
  rintro ⟨read,hall,-,hsingle,-⟩
  have hone := hsingle 1
  rw [← Option.some.inj (hread.symm.trans hall), hshift] at hone
  cases hone

end ByteDB.Tuple
