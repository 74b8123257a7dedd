import ByteDB.ForeignKeys
import ByteDB.IndexScans
import ByteDB.TupleKeys

/-!
# The search for a parent row

The row that a foreign key refers to is looked up by its primary key, through a
secondary index, or by going through all rows.
-/

set_option autoImplicit false

namespace ByteDB.Tuple
open Executor Engine List

variable {Q J E : Type}

def referableTypes : List DataType := [.bool, .int64, .date, .timestamp, .uuid, .text]

/-- A row in place, under the bytes of its primary key. -/
structure InPlace (x : Executor Q J) (td : TableData (Value J) E) (e : Bytes × Bytes)
    (row : List (Value J)) : Prop where
  data : e.2 = serialize x.lib row
  width : row.length ≤ 255
  short : ∀ v ∈ row, Short x.lib v
  plain : ∀ v ∈ row, Plain x.lib v
  key : td.schema.primaryKeyColumns ≠ [] → e.1 = keyBytes x.lib row td.schema.primaryKeyColumns

def Refers (schema : Schema (Value J)) (i : ℕ) (v : Value J) : Prop :=
  ∃ c, schema.columns[i]? = some c ∧ c.dataType ∈ referableTypes ∧ v.dataType = some c.dataType

variable {x : Executor Q J} {td : TableData (Value J) E} {e : Bytes × Bytes}
  {row vals : List (Value J)} {idxs : List ℕ} {v w : Value J}

lemma compare_eq_iff {t : DataType} (ht : t ∈ referableTypes) (hv : v.dataType = some t)
    (hw : HasType t w) : (w.compare v == some .eq) = true ↔ w = v := by
  have huuid : ∀ a b : Uuid, a.bytes = b.bytes ↔ a = b := fun a b => by cases a; cases b; simp
  rcases hw with rfl | hw
  · cases v <;> cases hv <;> simp [Value.compare]
  · cases v <;> cases hv <;> (try exact absurd ht (by decide)) <;> cases w <;> cases hw <;>
      simp [Value.compare, compareSigned, compareBytes_eq, BitVec.toInt_inj, huuid,
        Function.Injective.eq_iff (fun _ _ => utf8_inj)]

lemma pairwise_needed (cols : List ℕ) : (needed cols).Pairwise (· < ·) := by
  have hsorted := (pairwise_mergeSort' (· ≤ ·) cols).sublist (dedup_sublist _)
  exact (hsorted.and (nodup_dedup _)).imp fun h => lt_of_le_of_ne h.1 h.2

lemma InPlace.resolve (h : InPlace x td e row) : x.resolveSerialized e.2 = e.2 := by
  have hsound : ∀ c ∈ row.map Cell.inline, c.Sound x := by
    intro c hc
    obtain ⟨v,hv,rfl⟩ := mem_map.1 hc
    exact ⟨h.short v hv,h.plain v hv,nofun⟩
  have hvalues : (row.map Cell.inline).map Cell.value = row := by
    rw [map_map]
    exact map_id row
  have hbytes : rowBytes x.lib (row.map Cell.inline) = e.2 := by
    rw [rowBytes_inline (by simp [Cell.isSpilled]), hvalues, h.data]
  have hres := resolveSerialized_cells (by rw [length_map]; exact h.width) hsound
  rwa [hbytes, hvalues, ← h.data] at hres

section
variable (hlib : x.lib.Faithful)
include hlib

lemma InPlace.decodes (h : InPlace x td e row) : ∀ v ∈ row, Decodes x.lib v :=
  fun v hv => decodes_plain hlib (h.short v hv) (h.plain v hv)

lemma InPlace.decodeRow (h : InPlace x td e row) : x.decodeRow e.2 = some row := by
  rw [Executor.decodeRow, h.resolve, h.data, deserialize_serialize h.width (h.decodes hlib)]

lemma InPlace.decodeRowCols (h : InPlace x td e row) (cols : List ℕ) :
    ∃ values, x.decodeRowCols e.2 (needed cols) = some values ∧
      ∀ i ∈ cols, values[i]? = row[i]? := by
  rw [Executor.decodeRowCols, h.resolve, ite_self, h.data]
  refine ⟨_,deserializeColumns_serialize hlib h.width h.short h.plain _,fun i hi => ?_⟩
  refine pick_getElem? 0 row _ (pairwise_needed cols) (fun _ _ => Nat.zero_le _) i ?_
  rw [zero_add, needed, mem_dedup, mem_mergeSort]
  exact hi

end

lemma all_same_iff {test : ℕ × ℕ → Bool} (htest : ∀ i ∈ idxs, ∀ j v, vals[j]? = some v →
      test (i,j) = (row[i]?).any fun w => w.compare v == some .eq)
    (htyped : ∀ i c, td.schema.columns[i]? = some c → HasType c.dataType (valueAt row i))
    (hvals : Forall₂ (Refers td.schema) idxs vals) :
    idxs.zipIdx.all test = true ↔ idxs.map (row[·]?) = vals.map some := by
  obtain ⟨hlen,hrefers⟩ := forall₂_iff_zip.1 hvals
  have hsame : ∀ i j v, idxs[j]? = some i → vals[j]? = some v →
      (test (i,j) = true ↔ row[i]? = some v) := by
    intro i j v hi hv
    obtain ⟨c,hc,ht,hvt⟩ := hrefers (mem_of_getElem? (getElem?_zip_eq_some.2 ⟨hi,hv⟩))
    have hwt := htyped i c hc
    rw [htest i (mem_of_getElem? hi) j v hv]
    rw [valueAt] at hwt
    cases hw : row[i]? with
    | none => exact iff_of_false (fun h => by cases h) (fun h => by cases h)
    | some w =>
      rw [hw] at hwt
      rw [Option.some.injEq]
      exact compare_eq_iff ht hvt hwt
  constructor
  · intro hall
    refine ext_getElem (by simpa using hlen) fun j hj hj' => ?_
    rw [getElem_map, getElem_map]
    rw [length_map] at hj hj'
    refine (hsame _ j _ (getElem?_eq_getElem hj) (getElem?_eq_getElem hj')).1 ?_
    exact all_eq_true.1 hall _ (mk_mem_zipIdx_iff_getElem?.2 (getElem?_eq_getElem hj))
  · intro hrow
    refine all_eq_true.2 fun c hc => ?_
    obtain ⟨i,j⟩ := c
    have hi : idxs[j]? = some i := mk_mem_zipIdx_iff_getElem?.1 hc
    have hj := congrArg (·[j]?) hrow
    simp only [getElem?_map, hi, Option.map_some] at hj
    obtain ⟨v,hv,hw⟩ := Option.map_eq_some_iff.1 hj.symm
    exact (hsame i j v hi hv).2 hw.symm

lemma project_eq_iff (hlen : idxs.length = vals.length) :
    project row idxs = vals ↔ idxs.map (row[·]?) = vals.map some := by
  induction idxs generalizing vals with
  | nil =>
    obtain rfl := length_eq_zero_iff.1 hlen.symm
    exact ⟨fun _ => rfl,fun _ => rfl⟩
  | cons i idxs ih =>
    obtain ⟨v,vals,rfl⟩ := exists_cons_of_length_eq_add_one hlen.symm
    rw [project, map_cons, map_cons]
    cases hw : row[i]? with
    | none =>
      rw [filterMap_cons_none hw]
      refine iff_of_false (fun h => ?_) (fun h => by cases h)
      have := length_filterMap_le (row[·]?) idxs
      rw [h] at this
      exact absurd this (by simp_all)
    | some w =>
      rw [filterMap_cons_some hw, cons.injEq, cons.injEq, Option.some.injEq]
      exact and_congr_right fun _ => ih (Nat.succ.inj hlen)

lemma plain_of_refers {schema : Schema (Value J)} (lib : Libraries J)
    (hvals : Forall₂ (Refers schema) idxs vals) : ∀ v ∈ vals, Plain lib v := by
  induction hvals with
  | nil => exact nofun
  | @cons i v _ _ hv _ ih =>
    obtain ⟨c,-,ht,hvt⟩ := hv
    refine forall_mem_cons.2 ⟨?_,ih⟩
    cases v <;> first | trivial | (rw [← Option.some.inj hvt] at ht; exact absurd ht (by decide))

/-- A parent is found exactly if a row has the values, whichever way is taken. -/
theorem parent_exists_iff (hlib : x.lib.Faithful) (h : Indexed x td)
    (hrows : ∀ e ∈ td.index.entries, ∃ row, InPlace x td e row)
    (hvals : Forall₂ (Refers td.schema) idxs vals) (hshort : ∀ v ∈ vals, Short x.lib v) :
    @fkParentExists _ _ x.codec td idxs vals = true ↔ ∃ e ∈ td.index.entries, ∃ row,
      x.decodeRow e.2 = some row ∧ idxs.map (row[·]?) = vals.map some := by
  let := x.codec
  have hin : ∀ e ∈ td.index.entries, ∀ row, x.decodeRow e.2 = some row → InPlace x td e row := by
    intro e he row hdec
    obtain ⟨row',hin⟩ := hrows e he
    cases hdec.symm.trans (hin.decodeRow hlib)
    exact hin
  rw [fkParentExists]
  by_cases hpk : td.schema.primaryKeyColumns ≠ [] ∧ idxs = td.schema.primaryKeyColumns
  · have hkey : ByteDB.keyBytes vals (range vals.length) = vals.flatMap (encodeValue x.lib) :=
      congrArg (·.flatMap (encodeValue x.lib)) (project_range vals)
    have hiff : ∀ e row, InPlace x td e row →
        (e.1 = vals.flatMap (encodeValue x.lib) ↔ idxs.map (row[·]?) = vals.map some) := by
      intro e row hin
      rw [hin.key hpk.1, ← hpk.2, keyBytes_columns, ← project_eq_iff hvals.length_eq]
      refine ⟨encodings_inj (fun v hv => hin.decodes hlib v (mem_columns hv)) fun v hv => ?_,?_⟩
      · exact decodes_plain hlib (hshort v hv) (plain_of_refers x.lib hvals v hv)
      · rintro rfl
        rfl
    rw [if_pos hpk, hkey, Option.isSome_iff_exists]
    constructor
    · rintro ⟨data,hdata⟩
      have he := (OrderedMap.entries_mem_iff ..).2 hdata
      obtain ⟨row,hrow⟩ := hrows _ he
      exact ⟨_,he,row,hrow.decodeRow hlib,(hiff _ row hrow).1 rfl⟩
    · rintro ⟨e,he,row,hdec,heq⟩
      rw [← (hiff e row (hin e he row hdec)).2 heq]
      exact ⟨e.2,(OrderedMap.entries_mem_iff ..).1 he⟩
  rw [if_neg hpk]
  split
  · next sec hsec =>
    obtain ⟨hmem,hcols⟩ : sec ∈ td.secondaryIndexes ∧ sec.columns = idxs := by
      split_ifs at hsec
      exact ⟨mem_of_find?_eq_some hsec,by simpa using find?_some hsec⟩
    have hagrees : ∀ e ∈ td.index.entries, ∀ row, x.decodeRow e.2 = some row →
        ((((td.index.lookup e.1).bind fun data => x.decodeRowCols data (needed idxs)).any
          fun values => agrees values idxs vals) = true ↔ idxs.map (row[·]?) = vals.map some) := by
      intro e he row hdec
      obtain ⟨values,hread,hvalues⟩ := (hin e he row hdec).decodeRowCols hlib idxs
      rw [(OrderedMap.entries_mem_iff ..).1 he, Option.bind_some, hread]
      refine all_same_iff (fun i hi j v hv => ?_) (h.typed e he row hdec).2 hvals
      simp only [hvalues i hi, hv]
      cases row[i]? <;> rfl
    rw [any_eq_true]
    constructor
    · rintro ⟨pk,hpk,hany⟩
      obtain ⟨⟨k,_⟩,hk,rfl⟩ := mem_map.1 hpk
      obtain ⟨data,row,he,hdec,-⟩ := (h.entries sec hmem k _).1 (mem_filter.1 hk).1
      exact ⟨_,he,row,hdec,(hagrees _ he row hdec).1 hany⟩
    · rintro ⟨e,he,row,hdec,heq⟩
      have hentry := (h.entries sec hmem _ e.1).2 ⟨e.2,row,he,hdec,rfl⟩
      rw [hcols, (project_eq_iff hvals.length_eq).2 heq] at hentry
      refine ⟨e.1,mem_map.2 ⟨_,mem_filter.2 ⟨hentry,?_⟩,rfl⟩,(hagrees e he row hdec).2 heq⟩
      exact isPrefixOf_iff_prefix.2 (prefix_append _ _)
  · rw [any_eq_true]
    refine exists_congr fun e => and_congr_right fun he => ?_
    obtain ⟨row,hrow⟩ := hrows e he
    have hdec := hrow.decodeRow hlib
    have hread : ∀ i, Codec.readValueAt e.2 i = row[i]? := by
      rw [hrow.data]
      exact readValueAt_serialize hlib hrow.width hrow.short hrow.plain
    refine Iff.trans (all_same_iff (fun i _ j v hv => ?_) (h.typed e he row hdec).2 hvals)
      ⟨fun heq => ⟨row,hdec,heq⟩,?_⟩
    · simp only [hread, hv]
      cases row[i]? <;> rfl
    · rintro ⟨row',hdec',heq⟩
      cases hdec.symm.trans hdec'
      exact heq

theorem indexed_parent_found :
    @fkParentExists _ _ sampleExecutor.codec (indexedTable "b") [1] [.int64 7] = true := by
  have hrow : InPlace sampleExecutor (indexedTable "b")
      (indexedRow.key,rowBytes sampleLibraries indexedRow.cells) indexedRow.row :=
    ⟨rfl,by decide,by simp [indexedRow, StoredRow.row, Cell.value, Short],
      by simp [indexedRow, StoredRow.row, Cell.value, Plain],fun _ => rfl⟩
  refine (parent_exists_iff sampleLibraries_faithful (indexedTable_rows "b") (fun e he => ?_)
    (.cons ⟨_,rfl,by decide,rfl⟩ .nil) (by simp [Short])).2 ⟨_,mem_singleton_self _,_,rfl,rfl⟩
  cases mem_singleton.1 he
  exact ⟨_,hrow⟩

end ByteDB.Tuple
