import ByteDB.Aggregates
import ByteDB.ScanFilters

/-!
# The aggregate shortcut

The shortcut and the general way to aggregate a table give the same rows
exactly if no two functions have one name, equal keys of groups come from
equal values, and each group has values that both treat alike.
-/

set_option autoImplicit false

namespace ByteDB.Tuple
open ByteDB.Ast ByteDB.LittleEndian List Function Executor Grouping

section
variable {Q J : Type} {x : Executor Q J}

def number : Value J → Option (BitVec 64)
  | .int64 n => some n
  | .timestamp t => some t
  | _ => none

lemma numberFront_cell {c : Cell J} (h : c.Sound x) (rest : Bytes) :
    numberFront (c.bytes x.lib++rest) = number c.value := by
  cases c with
  | spilled file v =>
    obtain ⟨hspill,-⟩ := h.file file v rfl
    cases v with
    | text | bytes | json => rfl
    | _ => cases hspill
  | inline v =>
    cases v with
    | int64 n =>
      simp [Cell.bytes, encodeValue, numberFront, number, Cell.value, read_word n 8 (by norm_num)]
    | timestamp t =>
      simp [Cell.bytes, encodeValue, numberFront, number, Cell.value, read_word t 8 (by norm_num)]
    | bytes b =>
      have hnone : compress x.lib b = none := h.plain
      simp [Cell.bytes, encodeValue, hnone, numberFront, number, Cell.value]
    | _ => rfl

variable {cells : List (Cell J)}

lemma readInt64At_cells (hcount : cells.length ≤ 255) (h : ∀ c ∈ cells, c.Sound x) (i : ℕ) :
    readInt64At (rowBytes x.lib cells) i = number (valueAt (cells.map Cell.value) i) := by
  have hread : readInt64At (rowBytes x.lib cells) i = (cells[i]?).bind (fun c => number c.value) :=
    columnOffset_cells hcount h _ _ (fun c hc rest => numberFront_cell (h c hc) rest) i
  rw [hread, valueAt, getElem?_map]
  cases cells[i]? <;> rfl

lemma columnSlice_cells (hcount : cells.length ≤ 255)
    (h : ∀ c ∈ cells, c.Sound x) {i : ℕ} {c : Cell J} (hc : cells[i]? = some c) :
    columnSlice (rowBytes x.lib cells) i = some (c.bytes x.lib) := by
  obtain ⟨hi,hget⟩ := List.getElem?_eq_some_iff.mp hc
  have hoffset : ∀ j, columnOffset (rowBytes x.lib cells) j =
      if cells.length ≤ j then none else skipValues (rowBytes x.lib cells) j 1 := by
    intro j
    rw [rowBytes, columnOffset, rowBytes_count hcount]
  obtain ⟨stop,hstop,hat⟩ := skipValues_parts _ 1 i (skips_cells h) (rowBytes_parts cells)
    (by rwa [length_map])
  rw [← map_drop, drop_eq_getElem_cons hi, map_cons, flatten_cons, hget] at hat
  have hnext : (columnOffset (rowBytes x.lib cells) (i+1)).getD (rowBytes x.lib cells).length =
      stop+(c.bytes x.lib).length := by
    have hpos : 0 < (c.bytes x.lib).length := by
      obtain ⟨tag,htag,-⟩ := (h c (hget ▸ getElem_mem hi)).head []
      rw [append_nil] at htag
      exact length_pos_of_ne_nil (fun hnil => by simp [hnil] at htag)
    rw [hoffset, skipValues_succ, hstop, Option.bind_some,
      skipValue_part (h c (hget ▸ getElem_mem hi)).skips hat]
    split
    · rename_i hle
      have hnil : cells.drop (i+1) = [] := drop_eq_nil_of_le hle
      have hlen := congrArg length hat
      rw [hnil, map_nil, flatten_nil, append_nil, length_drop] at hlen
      rw [Option.getD_none]
      omega
    · rfl
  rw [columnSlice, hnext, hoffset i, if_neg (not_le.mpr hi), hstop, Option.map_some,
    Nat.add_sub_cancel_left, hat, take_left]

lemma readValueAt_cells (hlib : x.lib.Faithful)
    (hcount : cells.length ≤ 255) (h : ∀ c ∈ cells, c.Sound x) {i : ℕ} {v : Value J}
    (hv : cells[i]? = some (.inline v)) : readValueAt x.lib (rowBytes x.lib cells) i = some v := by
  have hfront : ∀ c ∈ cells, ∀ rest, (decodeFront x.lib (c.bytes x.lib++rest)).map Prod.fst =
        if c.isSpilled then none else some c.value := by
    intro c hc rest
    cases c with
    | inline v =>
      have hdecodes : Decodes x.lib v := decodes_plain hlib (h _ hc).short (h _ hc).plain
      rw [Cell.bytes, hdecodes]
      rfl
    | spilled file v => rfl
  have hread := columnOffset_cells hcount h
    (fun data => (decodeFront x.lib data).map Prod.fst) _ hfront i
  rw [hv] at hread
  refine Eq.trans ?_ hread
  rw [readValueAt]
  simp only [Option.bind_eq_bind, decodeValue]
  cases columnOffset (rowBytes x.lib cells) i with
  | none => rfl
  | some pos =>
    rw [Option.bind_some, Option.bind_some]
    cases decodeFront x.lib ((rowBytes x.lib cells).drop pos) <;> rfl

end

section
variable {Q J : Type} {x : Executor Q J}

def encodeAll (lib : Libraries J) (vs : List (Value J)) : Bytes := vs.flatMap (encodeValue lib)

def groupVals (indices : List ℕ) (r : StoredRow J) : List (Value J) := indices.map (valueAt r.row)

lemma valueAt_inline {r : StoredRow J} {i : ℕ} {v : Value J}
    (h : r.cells[i]? = some (.inline v)) : valueAt r.row i = v := by
  rw [valueAt, StoredRow.row, getElem?_map, h]
  rfl

lemma rawKey_cells {r : StoredRow J} (hcount : r.cells.length ≤ 255)
    (h : ∀ c ∈ r.cells, c.Sound x) (indices : List ℕ)
    (hinline : ∀ i ∈ indices, ∃ v, r.cells[i]? = some (.inline v)) :
    rawKey indices (rowBytes x.lib r.cells) = some (encodeAll x.lib (groupVals indices r)) := by
  rw [rawKey]
  induction indices with
  | nil => rfl
  | cons i is ih =>
    rw [forall_mem_cons] at hinline
    obtain ⟨⟨v,hv⟩,his⟩ := hinline
    have ih := ih his
    rw [mapM_cons, columnSlice_cells hcount h hv]
    cases hm : is.mapM (columnSlice (rowBytes x.lib r.cells)) with
    | none =>
      rw [hm] at ih
      cases ih
    | some parts =>
      rw [hm, Option.map_some, Option.some.injEq] at ih
      simp only [Option.bind_eq_bind, Option.bind_some, Option.pure_def, Option.map_some,
        flatten_cons, ih, groupVals, map_cons, encodeAll, flatMap_cons,
        valueAt_inline hv, Cell.bytes]

end

section
variable {J : Type} (floats : FloatOps)

def int64Of : Value J → Option (BitVec 64)
  | .int64 n => some n
  | _ => none

def lower (a b : BitVec 64) : Bool := a.toInt < b.toInt

def higher (a b : BitVec 64) : Bool := b.toInt < a.toInt

lemma add_foldl (acc : Executor.GroupAcc J) (nums : List (Option (BitVec 64))) :
    nums.foldl Executor.GroupAcc.add acc =
      { count := acc.count+nums.length
        sum := acc.sum+((nums.filterMap id).map BitVec.toInt).sum
        min := (nums.filterMap id).foldl (prefer lower) acc.min
        max := (nums.filterMap id).foldl (prefer higher) acc.max
        groupVals := acc.groupVals } := by
  induction nums generalizing acc with
  | nil => simp
  | cons n ns ih =>
    rw [foldl_cons, ih]
    cases n with
    | none =>
      simp [Executor.GroupAcc.add]
      omega
    | some v =>
      simp [Executor.GroupAcc.add, prefer, lower, higher]
      omega

lemma sum_foldl (vals : List (Value J)) (hfloat : ∀ f, Value.float64 f ∉ vals) (acc : SumAcc) :
    vals.foldl (SumAcc.add floats) acc = { acc with
        sum := acc.sum+((vals.filterMap int64Of).map BitVec.toInt).sum
        seen := acc.seen || !(vals.filterMap int64Of).isEmpty } := by
  induction vals generalizing acc with
  | nil => simp
  | cons v vs ih =>
    have hvs : ∀ f, Value.float64 f ∉ vs := fun f hf => hfloat f (mem_cons_of_mem _ hf)
    rw [foldl_cons, ih hvs]
    cases v with
    | float64 f => exact absurd (mem_cons_self ..) (hfloat f)
    | int64 n => simp [SumAcc.add, int64Of, add_assoc]
    | _ => rfl

lemma avg_foldl (vals : List (Value J)) (hfloat : ∀ f, Value.float64 f ∉ vals)
    (acc : BitVec 64 × ℕ) : vals.foldl (avgStep floats) acc =
      ((vals.filterMap int64Of).foldl (fun s n => floats.add s (F64.ofInt64 n)) acc.1,
        acc.2+(vals.filterMap int64Of).length) := by
  induction vals generalizing acc with
  | nil => simp
  | cons v vs ih =>
    have hvs : ∀ f, Value.float64 f ∉ vs := fun f hf => hfloat f (mem_cons_of_mem _ hf)
    rw [foldl_cons, ih hvs]
    cases v with
    | float64 f => exact absurd (mem_cons_self ..) (hfloat f)
    | int64 n =>
      simp [avgStep, int64Of]
      omega
    | _ => rfl

lemma better_foldl (wanted : Ordering) (vals : List (Value J)) (b : Value J) :
    ∃ w, vals.foldl (better wanted) (some b) = some w ∧ (w = b ∨ w ∈ vals ∧ w.isNull = false) := by
  induction vals generalizing b with
  | nil => exact ⟨b,rfl,.inl rfl⟩
  | cons v vs ih =>
    rw [foldl_cons, better]
    cases hv : v.isNull with
    | true =>
      obtain ⟨w,hw,hcase⟩ := ih b
      exact ⟨w,hw,hcase.imp_right (fun h => ⟨mem_cons_of_mem _ h.1,h.2⟩)⟩
    | false =>
      obtain ⟨w,hw,hcase⟩ := ih (if v.cmpFast b = wanted then v else b)
      refine ⟨w,hw,?_⟩
      rcases hcase with rfl | h
      · split
        · exact .inr ⟨mem_cons_self ..,hv⟩
        · exact .inl rfl
      · exact .inr ⟨mem_cons_of_mem _ h.1,h.2⟩

lemma extremum_cases (wanted : Ordering) (vals : List (Value J)) :
    (∀ v ∈ vals, v.isNull = true) ∧ extremum wanted vals = .null ∨
      (∃ v ∈ vals, v.isNull = false) ∧ extremum wanted vals ∈ vals ∧
        (extremum wanted vals).isNull = false := by
  rw [extremum]
  induction vals with
  | nil => exact .inl ⟨nofun,rfl⟩
  | cons v vs ih =>
    rw [foldl_cons, better]
    cases hv : v.isNull with
    | true =>
      rcases ih with ⟨hall,hnull⟩ | ⟨⟨w,hw,hwn⟩,hmem,hne⟩
      · exact .inl ⟨forall_mem_cons.mpr ⟨hv,hall⟩,hnull⟩
      · exact .inr ⟨⟨w,mem_cons_of_mem _ hw,hwn⟩,mem_cons_of_mem _ hmem,hne⟩
    | false =>
      obtain ⟨w,hw,hcase⟩ := better_foldl wanted vs v
      refine .inr ⟨⟨v,mem_cons_self ..,hv⟩,?_⟩
      rw [if_neg nofun, hw, Option.getD_some]
      rcases hcase with rfl | h
      · exact ⟨mem_cons_self ..,hv⟩
      · exact ⟨mem_cons_of_mem _ h.1,h.2⟩

variable (wanted : Ordering) (prior : BitVec 64 → BitVec 64 → Bool)
  (hprior : ∀ a b, prior a b = true ↔ compareSigned a b = wanted) (vals : List (Value J))
  (hint : ∀ v ∈ vals, v = .null ∨ ∃ n, v = .int64 n)
include hprior hint

lemma better_ints (b : BitVec 64) : vals.foldl (better wanted) (some (.int64 b)) =
      some (.int64 ((vals.filterMap int64Of).foldl (prefer prior) b)) := by
  induction vals generalizing b with
  | nil => rfl
  | cons v vs ih =>
    rw [forall_mem_cons] at hint
    rw [foldl_cons]
    rcases hint.1 with rfl | ⟨n,rfl⟩
    · exact ih hint.2 b
    have hstep : better wanted (some (.int64 b)) (.int64 n : Value J) =
        some (.int64 (prefer prior b n)) := by
      rw [better, if_neg nofun, prefer]
      by_cases hn : compareSigned n b = wanted
      · rw [if_pos ((hprior n b).mpr hn)]
        exact congrArg some (if_pos hn)
      · rw [if_neg (fun h => hn ((hprior n b).mp h))]
        exact congrArg some (if_neg hn)
    rw [hstep, ih hint.2]
    rfl

lemma extremum_ints {n : BitVec 64} {ns : List (BitVec 64)} (hns : vals.filterMap int64Of = n::ns) :
    extremum wanted vals = .int64 (ns.foldl (prefer prior) n) := by
  rw [extremum]
  induction vals with
  | nil => cases hns
  | cons v vs ih =>
    rw [forall_mem_cons] at hint
    rcases hint.1 with rfl | ⟨m,rfl⟩
    · exact ih hint.2 hns
    · obtain ⟨rfl,rfl⟩ := cons.inj hns
      rw [foldl_cons]
      exact congrArg (Option.getD · .null) (better_ints wanted prior hprior vs hint.2 m)

end

section
variable {J : Type} (floats : FloatOps) {vals : List (Value J)}

/-- Whether both ways to compute a function over the values of a group agree. -/
def ValuesSafe (kind : AggKind) (vals : List (Value J)) : Prop :=
  match kind with
  | .count => ∀ v ∈ vals, v.isNull = false
  | .sum => vals.filterMap int64Of ≠ []
  | .avg =>
    vals.filterMap int64Of ≠ [] ∧
      quotient (J := J) floats (floats.ofInt ((vals.filterMap int64Of).map BitVec.toInt).sum)
          vals.length =
        quotient floats ((vals.filterMap int64Of).foldl (fun s n => floats.add s (F64.ofInt64 n)) 0)
          (vals.filterMap int64Of).length
  | .min =>
    (∀ v ∈ vals, v.isNull = true) ∨ ∃ n ∈ vals.filterMap int64Of, n ≠ Executor.i64Max
  | .max =>
    (∀ v ∈ vals, v.isNull = true) ∨ ∃ n ∈ vals.filterMap int64Of, n ≠ Executor.i64Min
  | _ => True

structure Typed (t : DataType) (vals : List (Value J)) : Prop where
  type : ∀ v ∈ vals, v = .null ∨ v.dataType = some t
  float : t ≠ .float64

variable {t : DataType}

lemma Typed.no_float (h : Typed t vals) (f : BitVec 64) : Value.float64 f ∉ vals := by
  intro hf
  rcases h.type _ hf with hnull | ht
  · cases hnull
  · exact h.float (Option.some.inj ht).symm

lemma mem_ints {n : BitVec 64} : n ∈ vals.filterMap int64Of ↔ Value.int64 n ∈ vals := by
  rw [mem_filterMap]
  constructor
  · rintro ⟨v,hv,hn⟩
    cases v <;> cases hn
    exact hv
  · intro hv
    exact ⟨_,hv,rfl⟩

lemma Typed.ints (h : Typed t vals) (hne : vals.filterMap int64Of ≠ []) :
    ∀ v ∈ vals, v = .null ∨ ∃ n, v = .int64 n := by
  obtain ⟨n,hn⟩ := exists_mem_of_ne_nil _ hne
  have ht : t = .int64 := by
    rcases h.type _ (mem_ints.mp hn) with hnull | ht
    · cases hnull
    · exact (Option.some.inj ht).symm
  intro v hv
  rcases h.type v hv with rfl | hv
  · exact .inl rfl
  · rw [ht] at hv
    cases v <;> cases hv
    exact .inr ⟨_,rfl⟩

lemma Typed.numbers (h : Typed t vals) (hne : vals.filterMap int64Of ≠ []) :
    vals.filterMap number = vals.filterMap int64Of := by
  refine filterMap_congr (fun v hv => ?_)
  rcases h.ints hne v hv with rfl | ⟨n,rfl⟩
  · rfl
  · rfl

lemma int128ToValue_ne_null (s : ℤ) : int128ToValue (J := J) floats s ≠ .null := by
  rw [int128ToValue]
  split <;> nofun

lemma sum_iff (h : Typed t vals) :
    int128ToValue floats ((vals.filterMap number).map BitVec.toInt).sum = sumValues floats vals ↔
      ValuesSafe floats .sum vals := by
  rw [sumValues, sum_foldl floats vals h.no_float, ValuesSafe]
  by_cases hne : vals.filterMap int64Of = []
  · simp [hne, int128ToValue_ne_null]
  · rw [h.numbers hne]
    simp [hne]

lemma avg_iff (h : Typed t vals) (hvals : vals ≠ []) : (if 0 < vals.length then
        quotient floats (floats.ofInt ((vals.filterMap number).map BitVec.toInt).sum) vals.length
      else .null) = avgValues floats vals ↔ ValuesSafe floats .avg vals := by
  rw [avgValues, avg_foldl floats vals h.no_float, ValuesSafe, if_pos (length_pos_of_ne_nil hvals)]
  by_cases hne : vals.filterMap int64Of = []
  · simp [hne, quotient]
  · rw [h.numbers hne]
    simp [hne, length_pos_of_ne_nil hne]

/-- MIN and MAX, whose accumulators start from the last of all integers. -/
lemma extremum_iff (h : Typed t vals) (wanted : Ordering)
    (prior : BitVec 64 → BitVec 64 → Bool) (order : BitVec 64 → ℤ)
    (hwanted : ∀ a b, prior a b = true ↔ compareSigned a b = wanted)
    (hprior : ∀ a b, prior a b = true ↔ order a < order b) (horder : Function.Injective order)
    {last : BitVec 64} (hlast : ∀ n, order n ≤ order last) :
    (if (vals.filterMap number).foldl (prefer prior) last = last then .null
      else .int64 ((vals.filterMap number).foldl (prefer prior) last)) = extremum wanted vals ↔
      (∀ v ∈ vals, v.isNull = true) ∨ ∃ n ∈ vals.filterMap int64Of, n ≠ last := by
  rcases extremum_cases wanted vals with ⟨hall,hnull⟩ | ⟨⟨v,hv,hvn⟩,hmem,hnot⟩
  · have hnone : vals.filterMap number = [] := by
      rw [filterMap_eq_nil_iff]
      intro v hv
      have hvn := hall v hv
      cases v <;> cases hvn
      rfl
    rw [hnull, hnone, foldl_nil, if_pos rfl]
    exact iff_of_true rfl (.inl hall)
  have hsome : ¬ ∀ v ∈ vals, v.isNull = true := fun hall => by
    rw [hall v hv] at hvn
    cases hvn
  cases hints : vals.filterMap int64Of with
  | nil =>
    -- The extremum is a value that is neither NULL nor an integer.
    refine iff_of_false ?_ (fun hor => ?_)
    · intro heq
      split at heq
      · rw [← heq] at hnot
        cases hnot
      · rw [← heq] at hmem
        have hn := mem_ints.mpr hmem
        rw [hints] at hn
        cases hn
    · rcases hor with hall | ⟨n,hn,-⟩
      · exact hsome hall
      · cases hn
  | cons n ns =>
    have hne : vals.filterMap int64Of ≠ [] := by rw [hints]; nofun
    rw [h.numbers hne, hints, extremum_ints wanted prior hwanted vals (h.ints hne) hints,
      prefer_last prior order hprior horder hlast]
    have hiff := prefer_eq_last prior order hprior horder hlast n ns
    constructor
    · intro heq
      right
      by_contra hcon
      have hlasts : ∀ w ∈ n::ns, w = last := by
        intro w hw
        by_contra hw'
        exact hcon ⟨w,hw,hw'⟩
      rw [if_pos (hiff.mpr hlasts)] at heq
      cases heq
    · rintro (hall | ⟨w,hw,hne⟩)
      · exact absurd hall hsome
      · exact if_neg (fun heq => hne (hiff.mp heq w hw))

lemma count_iff (vals : List (Value J)) (hfew : vals.length < 2^64) :
    Value.int64 (BitVec.ofNat 64 vals.length) =
        (.int64 (BitVec.ofNat 64 (vals.filter (fun v => !v.isNull)).length) : Value J) ↔
      ValuesSafe floats .count vals := by
  have hle := length_filter_le (fun v : Value J => !v.isNull) vals
  have hsame : BitVec.ofNat 64 vals.length =
      BitVec.ofNat 64 (vals.filter (fun v => !v.isNull)).length ↔
        (vals.filter (fun v => !v.isNull)).length = vals.length := by
    constructor
    · intro heq
      have hnat := congrArg BitVec.toNat heq
      rw [BitVec.toNat_ofNat, BitVec.toNat_ofNat, Nat.mod_eq_of_lt hfew,
        Nat.mod_eq_of_lt (hle.trans_lt hfew)] at hnat
      exact hnat.symm
    · intro heq
      rw [heq]
  rw [Value.int64.injEq, hsame, length_filter_eq_length_iff, ValuesSafe]
  simp

def groupAcc (kept : List (Value J)) (nums : List (Option (BitVec 64))) : Executor.GroupAcc J :=
  nums.foldl Executor.GroupAcc.add (.fresh kept)

def AggKind.fast (kind : AggKind) : Prop := kind ≠ .other ∧ kind ≠ .countDistinct

lemma value_iff (lib : Libraries J) {kind : AggKind} (hkind : kind.fast)
    (kept : List (Value J)) (nums : List (Option (BitVec 64))) (rows : List (List (Value J)))
    (hlen : nums.length = rows.length) {i : ℕ}
    (hnums : kind ≠ .count → nums = (rows.map (valueAt · i)).map number)
    (htyped : Typed t (rows.map (valueAt · i))) (hrows : rows ≠ []) (hfew : rows.length < 2^64) :
    (groupAcc kept nums).value floats kind = computeAggregate lib floats kind (some i) rows ↔
      ValuesSafe floats kind (rows.map (valueAt · i)) := by
  have hne : rows.map (valueAt · i) ≠ [] := fun hnil => hrows (map_eq_nil_iff.mp hnil)
  have hfm : ((rows.map (valueAt · i)).map number).filterMap id =
      (rows.map (valueAt · i)).filterMap number := by
    rw [filterMap_map]
    rfl
  rw [groupAcc, add_foldl]
  cases kind with
  | other => exact absurd rfl hkind.1
  | countDistinct => exact absurd rfl hkind.2
  | count =>
    have hiff := count_iff floats (rows.map (valueAt · i)) (by rwa [length_map])
    rw [length_map, ← hlen] at hiff
    simpa [Executor.GroupAcc.value, Executor.GroupAcc.fresh, computeAggregate] using hiff
  | sum =>
    have hiff := sum_iff floats htyped
    rw [hnums nofun, hfm]
    simpa [Executor.GroupAcc.value, Executor.GroupAcc.fresh, computeAggregate] using hiff
  | avg =>
    have hiff := avg_iff floats htyped hne
    rw [hnums nofun, hfm]
    simpa [Executor.GroupAcc.value, Executor.GroupAcc.fresh, computeAggregate] using hiff
  | min =>
    rw [hnums nofun, hfm]
    refine extremum_iff htyped .lt lower BitVec.toInt ?_ ?_ (fun a b => BitVec.eq_of_toInt_eq) ?_
    · intro a b
      simp [lower, compareSigned, compare_lt_iff_lt]
    · intro a b
      simp [lower]
    · intro n
      have hn := n.toInt_lt
      have hlast : i64Max.toInt = 2^63-1 := by decide
      exact (Int.le_sub_one_of_lt hn).trans hlast.ge
  | max =>
    rw [hnums nofun, hfm]
    refine extremum_iff htyped .gt higher (fun n => -n.toInt) ?_ ?_ ?_ ?_
    · intro a b
      simp [higher, compareSigned, compare_gt_iff_gt]
    · intro a b
      simp [higher]
    · intro a b hab
      exact BitVec.eq_of_toInt_eq (neg_injective hab)
    · intro n
      have hn := n.le_toInt
      have hlast : i64Min.toInt = -2^63 := by decide
      exact neg_le_neg (hlast.le.trans hn)

end

section
variable {Q : Type}

lemma firstNamed_sublist (seen : List String) (fs : List (String × List (Expr Q))) :
    (firstNamed seen fs).Sublist fs := by
  induction fs generalizing seen with
  | nil => exact List.Sublist.refl _
  | cons f fs ih =>
    rw [firstNamed]
    split
    · exact (ih seen).cons _
    · exact (ih _).cons_cons _

lemma firstNamed_eq_iff (seen : List String) (fs : List (String × List (Expr Q))) :
    firstNamed seen fs = fs ↔ (fs.map (fun f => aggFuncColName f.1 f.2)).Nodup ∧
        ∀ f ∈ fs, aggFuncColName f.1 f.2 ∉ seen := by
  induction fs generalizing seen with
  | nil => simp [firstNamed]
  | cons f fs ih =>
    rw [firstNamed]
    split
    · rename_i hseen
      refine iff_of_false (fun heq => ?_) (fun h => h.2 f (mem_cons_self ..) hseen)
      have hlen := (firstNamed_sublist seen fs).length_le
      rw [heq, length_cons] at hlen
      omega
    · rename_i hseen
      rw [cons.injEq, ih]
      simp only [map_cons, nodup_cons, mem_cons, mem_map, not_or, forall_eq_or_imp]
      constructor
      · rintro ⟨-,hnodup,hnot⟩
        exact ⟨⟨fun ⟨g,hg,heq⟩ => (hnot g hg).1 heq,hnodup⟩,hseen,fun g hg => (hnot g hg).2⟩
      · rintro ⟨⟨hnew,hnodup⟩,-,hnot⟩
        exact ⟨trivial,hnodup,fun g hg => ⟨fun heq => hnew ⟨g,hg,heq⟩,hnot g hg⟩⟩

lemma collected (groupBy : List (Expr Q)) {aggregates : List (Expr Q)}
    (hsimple : allSimple groupBy aggregates = true) :
    aggregates.flatMap aggFunctionsIn = functionsOf aggregates := by
  induction aggregates with
  | nil => rfl
  | cons e es ih =>
    rw [allSimple, all_cons, Bool.and_eq_true] at hsimple
    have ih := ih hsimple.2
    rw [flatMap_cons, ih]
    cases e with
    | column n => rfl
    | function name args =>
      have hkind := of_decide_eq_true hsimple.1
      rw [aggFunctionsIn, if_neg hkind]
      rfl
    | _ => cases hsimple.1

def fastName (colNames : List String) (f : String × List (Expr Q)) : String :=
  f.1.toLower ++ "(" ++ ((aggColumn colNames f.2).bind (fun i => colNames[i]?)).getD "*" ++ ")"

lemma position_some {colNames : List String} {c : String} {i : ℕ}
    (h : position colNames c = some i) : colNames[i]? = some c := by
  obtain ⟨hi,hc,-⟩ := findIdx?_eq_some_iff_getElem.mp h
  rw [getElem?_eq_getElem hi, of_decide_eq_true hc]

lemma fastName_iff (colNames : List String) (f : String × List (Expr Q)) :
    fastName colNames f = aggFuncColName f.1 f.2 ↔
      ∀ c rest, f.2 = .column c::rest → c ∈ colNames ∨ c = "*" := by
  obtain ⟨name,args⟩ := f
  rw [fastName, aggFuncColName, String.append_left_inj, String.append_right_inj]
  cases args with
  | nil => simp [aggColumn, argName]
  | cons e rest =>
    cases e with
    | column c =>
      simp only [aggColumn, argName, cons.injEq, Expr.column.injEq, and_imp, forall_eq',
        forall_apply_eq_imp_iff]
      cases hc : position colNames c with
      | none =>
        have hnot : c ∉ colNames := by
          intro hmem
          have hall := findIdx?_eq_none_iff.mp hc c hmem
          simp at hall
        simp [hnot, eq_comm]
      | some i =>
        have hget := position_some hc
        simp [hget, mem_of_getElem? hget]
    | _ => simp [aggColumn, argName]

end

section
variable {Q J E : Type} (x : Executor Q J) (floats : FloatOps)
  (td : TableData (Value J) E) (stored : List (StoredRow J))

def columnNames : List String := td.schema.columns.map Column.name

/-- A table without FLOAT columns, each of which holds NULL or values of its
type. The columns that it is grouped by are not moved to files. -/
structure GroupedRows (indices : List ℕ) : Prop extends StoredRows x td stored where
  inline : ∀ r ∈ stored, ∀ i ∈ indices, ∃ v, r.cells[i]? = some (.inline v)
  typed : ∀ r ∈ stored, ∀ i c, td.schema.columns[i]? = some c →
    valueAt r.row i = .null ∨ (valueAt r.row i).dataType = some c.dataType
  float : ∀ c ∈ td.schema.columns, c.dataType ≠ .float64
  few : stored.length < 2^64

variable {x td stored} {indices : List ℕ}

lemma findSome?_shared {α β : Type} {l : List α} {f : α → Option β} {r : Option β}
    (h : ∀ a ∈ l, f a = none ∨ f a = r) {a : α} (ha : a ∈ l) (hr : f a = r) :
    l.findSome? f = r := by
  cases hl : l.findSome? f with
  | none => rw [← hr, findSome?_eq_none_iff.mp hl a ha]
  | some v =>
    obtain ⟨b,hb,hv⟩ := exists_of_findSome?_eq_some hl
    rcases h b hb with hnone | hshared
    · rw [hnone] at hv
      cases hv
    · rw [← hshared, hv]

lemma aggVal_column {functions : List (AggKind × Option ℕ)}
    (hone : oneColumn functions = true) {f : AggKind × Option ℕ} (hf : f ∈ functions)
    (hkind : f.1 ≠ .count) {i : ℕ} (hi : f.2 = some i) (data : Bytes) :
    aggVal functions data = readInt64At data i := by
  have hcols : ∀ g ∈ functions, g.1 ≠ .count → ∀ j, g.2 = some j → j = i := by
    have hle := of_decide_eq_true hone
    have hmem : ∀ g ∈ functions, g.1 ≠ .count → ∀ j, g.2 = some j →
        j ∈ (functions.filterMap (fun f => if f.1 = .count then none else f.2)).dedup := by
      intro g hg hgk j hj
      rw [mem_dedup, mem_filterMap]
      exact ⟨g,hg,by rw [if_neg hgk, hj]⟩
    intro g hg hgk j hj
    have hj := hmem g hg hgk j hj
    have hi := hmem f hf hkind i hi
    generalize (functions.filterMap (fun f => if f.1 = .count then none else f.2)).dedup = l at *
    match l, hle with
    | [k], _ => rw [mem_singleton.mp hj, mem_singleton.mp hi]
  have hstep : ∀ g ∈ functions,
      (if g.1 = .count then none else g.2.bind (readInt64At data)) = none ∨
        (if g.1 = .count then none else g.2.bind (readInt64At data)) = readInt64At data i := by
    intro g hg
    by_cases hgk : g.1 = .count
    · exact .inl (if_pos hgk)
    rw [if_neg hgk]
    cases hj : g.2 with
    | none => exact .inl rfl
    | some j =>
      rw [hcols g hg hgk j hj]
      exact .inr rfl
  refine findSome?_shared hstep hf ?_
  rw [if_neg hkind, hi, Option.bind_some]

lemma okeyOf_row (lib : Libraries J) (indices : List ℕ) (r : StoredRow J) :
    okeyOf lib indices r.row = okeys lib (groupVals indices r) := by
  rw [okeyOf, okeys, groupVals, flatMap_map]

lemma GroupedRows.encoded (h : GroupedRows x td stored indices) {r : StoredRow J}
    (hr : r ∈ stored) : ∀ v ∈ groupVals indices r, Short x.lib v ∧ Plain x.lib v := by
  intro v hv
  obtain ⟨i,hi,rfl⟩ := mem_map.mp hv
  obtain ⟨w,hw⟩ := h.inline r hr i hi
  rw [valueAt_inline hw]
  have hsound := h.sound r hr _ (mem_of_getElem? hw)
  exact ⟨hsound.short,hsound.plain⟩

lemma GroupedRows.encode_inj (h : GroupedRows x td stored indices) (hlib : x.lib.Faithful)
    {r s : StoredRow J} (hr : r ∈ stored) (hs : s ∈ stored)
    (heq : encodeAll x.lib (groupVals indices r) = encodeAll x.lib (groupVals indices s)) :
    groupVals indices r = groupVals indices s :=
  encodings_inj (fun a ha => decodes_plain hlib (h.encoded hr a ha).1 (h.encoded hr a ha).2)
    (fun b hb => decodes_plain hlib (h.encoded hs b hb).1 (h.encoded hs b hb).2) heq

section
variable (x : Executor Q J) (functions : List (AggKind × Option ℕ)) (kept : List (Value J))
  (g : List (StoredRow J))

def fastRow : List (Value J) := kept++functions.map (fun f =>
    (groupAcc kept (g.map (fun r => Executor.aggVal functions (rowBytes x.lib r.cells)))).value
      floats f.1)

def slowRow : List (Value J) :=
  kept++functions.map (fun f => computeAggregate x.lib floats f.1 f.2 (g.map StoredRow.row))

end

lemma hashGroups_rows (x : Executor Q J) (indices : List ℕ) (stored : List (StoredRow J)) :
    x.hashGroups indices (stored.map StoredRow.row) =
      (firstKeys (fun r => okeys x.lib (groupVals indices r)) stored).map (fun k =>
        (group (fun r => okeys x.lib (groupVals indices r)) stored k).map StoredRow.row) := by
  have hrows : ∀ (rs : List (StoredRow J)) (g : List (List (Value J))),
      rs.foldl (fun g r => g++[r.row]) g = g++rs.map StoredRow.row := by
    intro rs
    induction rs with
    | nil => intro g; exact (append_nil g).symm
    | cons r rs ih =>
      intro g
      rw [foldl_cons, ih, append_assoc]
      rfl
  have hkey := funext (okeyOf_row x.lib indices)
  rw [hashGroups, accumulate_of_map, hkey]
  exact accumulate_map _ (fun _ => [])
    (fun (g : List (List (Value J))) (r : StoredRow J) => g++[r.row]) id
    (map StoredRow.row) (fun r rs => hrows (r::rs) []) stored

lemma StoredRows.scan_all (h : StoredRows x td stored) (hlib : x.lib.Faithful)
    (tm : TransactionManager) :
    x.execSeqScan td tm none none none = .ok (stored.map StoredRow.row) := by
  have hkeep : (td.index.entries.map Prod.snd).filterMap (x.keepRow td.schema none) =
      (stored.filter (fun _ => true)).map StoredRow.row := by
    refine h.filterMap _ _ (fun r hr => ?_)
    rw [keepRow, h.decode hlib hr]
    rfl
  rw [filter_true] at hkeep
  exact congrArg Except.ok hkeep

def fastFunctions (td : TableData (Value J) E) (aggregates : List (Expr Q)) :
    List (AggKind × Option ℕ) :=
  (Executor.functionsOf aggregates).map
    (fun f => (AggKind.fromName f.1,aggColumn (columnNames td) f.2))

structure Accepted (td : TableData (Value J) E) (groupBy aggregates : List (Expr Q)) : Prop where
  columns : (groupIndices (columnNames td) groupBy).length = groupBy.length
  simple : Executor.allSimple groupBy aggregates = true
  column : ∀ f ∈ fastFunctions td aggregates, f.1 ≠ .count → f.2 ≠ none
  fast : ∀ f ∈ fastFunctions td aggregates, f.1.fast
  one : Executor.oneColumn (fastFunctions td aggregates) = true

variable {groupBy aggregates : List (Expr Q)}

lemma tryFastAggregate_some {result : List String × List (List (Value J))}
    (h : x.tryFastAggregate floats td (columnNames td) groupBy aggregates = some result) :
    Accepted td groupBy aggregates ∧ result = (groupNames groupBy++
          (functionsOf aggregates).map (fastName (columnNames td)),
        (x.fastGroups td (groupIndices (columnNames td) groupBy)
          (fastFunctions td aggregates)).map (fun g =>
            g.2.groupVals++(fastFunctions td aggregates).map (fun f => g.2.value floats f.1))) := by
  revert h
  fun_cases tryFastAggregate with
  | case6 indices functions hcolumns hsimple hcolumn hdistinct hone names =>
    intro h
    rw [Bool.not_eq_true, Bool.not_eq_false'] at hsimple hone
    refine ⟨⟨not_not.mp hcolumns,hsimple,?_,?_,hone⟩,(Option.some.inj h).symm⟩
    · intro f hf hkind hnone
      refine hcolumn (any_eq_true.mpr ⟨f,hf,?_⟩)
      simp [hkind, hnone]
    intro f hf
    constructor
    · intro hother
      obtain ⟨g,hg,rfl⟩ := mem_map.mp hf
      obtain ⟨e,he,heq⟩ := mem_filterMap.mp hg
      have hall := all_eq_true.mp hsimple e he
      cases e <;> cases heq
      exact of_decide_eq_true hall hother
    · intro hkind
      exact hdistinct (any_eq_true.mpr ⟨f,hf,decide_eq_true hkind⟩)
  | _ => nofun

lemma names_iff (h : Accepted td groupBy aggregates) :
    groupNames groupBy++(functionsOf aggregates).map (fastName (columnNames td)) =
        groupNames groupBy++
          (collectAggFunctions aggregates).map (fun f => aggFuncColName f.1 f.2) ↔
      collectAggFunctions aggregates = functionsOf aggregates ∧
        ∀ f ∈ functionsOf aggregates, ∀ c rest, f.2 = .column c::rest →
          c ∈ columnNames td ∨ c = "*" := by
  rw [append_cancel_left_eq, collectAggFunctions, collected groupBy h.simple]
  constructor
  · intro heq
    have hlen := congrArg length heq
    rw [length_map, length_map] at hlen
    have hall := (firstNamed_sublist [] (functionsOf aggregates)).eq_of_length hlen.symm
    rw [hall] at heq
    exact ⟨hall,fun f hf => (fastName_iff _ f).mp (map_inj_left.mp heq f hf)⟩
  · rintro ⟨hall,hpresent⟩
    rw [hall]
    exact map_congr_left (fun f hf => (fastName_iff _ f).mpr (hpresent f hf))

def keyedRow (x : Executor Q J) (functions : List (AggKind × Option ℕ)) (indices : List ℕ)
    (stored : List (StoredRow J)) (key : Bytes) : List (Value J) :=
  slowRow floats x functions
    (((Grouping.group (fun r => okeys x.lib (groupVals indices r)) stored key).head?.map
      (groupVals indices)).getD (indices.map (valueAt [])))
    (Grouping.group (fun r => okeys x.lib (groupVals indices r)) stored key)

lemma slow_rows (hgroup : groupBy ≠ [])
    (hfunctions : collectAggFunctions aggregates = functionsOf aggregates) :
    (x.execHashAggregate floats (columnNames td) (stored.map StoredRow.row) groupBy aggregates
        none).2 =
      (firstKeys (fun r =>
          okeys x.lib (groupVals (groupIndices (columnNames td) groupBy) r)) stored).map
        (keyedRow floats x (fastFunctions td aggregates) (groupIndices (columnNames td) groupBy)
          stored) := by
  rw [execHashAggregate]
  simp only [Option.toList_none, append_nil, Option.all_none, filter_true]
  rw [if_neg (fun h => hgroup h.1), hashGroups_rows, hfunctions, map_map]
  refine map_congr_left (fun key _ => ?_)
  rw [comp_apply, Tuple.keyedRow, slowRow, fastFunctions, map_map]
  cases group (fun r =>
    okeys x.lib (groupVals (groupIndices (columnNames td) groupBy) r)) stored key <;> rfl

lemma GroupedRows.typed_column (h : GroupedRows x td stored indices)
    {e : List (Expr Q)} {i : ℕ} (hi : aggColumn (columnNames td) e = some i)
    {g : List (StoredRow J)} (hg : ∀ r ∈ g, r ∈ stored) :
    ∃ t, Typed t (g.map (fun r => valueAt r.row i)) := by
  have hlt : i < td.schema.columns.length := by
    match e, hi with
    | .column c::_, hi =>
      have hget := (List.getElem?_eq_some_iff.mp (position_some hi)).1
      rwa [columnNames, List.length_map] at hget
  refine ⟨_,?_,h.float _ (List.getElem_mem hlt)⟩
  intro v hv
  obtain ⟨r,hr,rfl⟩ := mem_map.mp hv
  exact h.typed r (hg r hr) i _ (getElem?_eq_getElem hlt)

lemma GroupedRows.row_iff (h : GroupedRows x td stored indices) (hacc : Accepted td groupBy aggregates)
    {g : List (StoredRow J)} (hg : g.Sublist stored) (hne : g ≠ []) (kept : List (Value J)) :
    fastRow floats x (fastFunctions td aggregates) kept g =
        slowRow floats x (fastFunctions td aggregates) kept g ↔
      ∀ f ∈ functionsOf aggregates, ∀ i, aggColumn (columnNames td) f.2 = some i →
        ValuesSafe floats (AggKind.fromName f.1) (g.map (fun r => valueAt r.row i)) := by
  rw [fastRow, slowRow, append_cancel_left_eq, map_inj_left, fastFunctions, forall_mem_map]
  refine forall₂_congr (fun f hf => ?_)
  have hmem : (AggKind.fromName f.1,aggColumn (columnNames td) f.2) ∈
      fastFunctions td aggregates := mem_map_of_mem hf
  cases hi : aggColumn (columnNames td) f.2 with
  | none =>
    have hcount : AggKind.fromName f.1 = .count := by
      by_contra hkind
      exact hacc.column _ hmem hkind hi
    refine iff_of_true ?_ nofun
    rw [hcount, groupAcc, add_foldl]
    simp [Executor.GroupAcc.value, Executor.GroupAcc.fresh, computeAggregate]
  | some i =>
    obtain ⟨t,ht⟩ := h.typed_column hi (fun r hr => hg.subset hr)
    have hvals : (g.map StoredRow.row).map (valueAt · i) = g.map (fun r => valueAt r.row i) := by
      rw [map_map]
      rfl
    have hiff := value_iff floats x.lib (hacc.fast _ hmem) kept
      (g.map (fun r => aggVal (fastFunctions td aggregates) (rowBytes x.lib r.cells)))
      (g.map StoredRow.row) (by rw [length_map, length_map]) (i := i) (t := t)
      (fun hkind => ?_) (by rwa [hvals]) (fun hnil => hne (map_eq_nil_iff.mp hnil))
      (by rw [length_map]; exact hg.length_le.trans_lt h.few)
    · rw [hvals] at hiff
      refine hiff.trans ⟨fun hsafe j hj => ?_,fun hsafe => hsafe i rfl⟩
      cases hj
      exact hsafe
    · rw [hvals, map_map]
      refine map_congr_left (fun r hr => ?_)
      rw [aggVal_column hacc.one hmem hkind hi,
        readInt64At_cells (h.width r (hg.subset hr)) (h.sound r (hg.subset hr))]
      rfl

def groupColumn [DecidableEq J] (stored : List (StoredRow J)) (indices : List ℕ) (r : StoredRow J) (i : ℕ) : List (Value J) :=
  (stored.filter (fun s => groupVals indices s = groupVals indices r)).map
    (fun s => valueAt s.row i)

/-- Where the shortcut agrees with the general way: no two functions have one
name, COUNT is not about an unknown column, rows with one key have the same
values to group by, and both treat the values of each group alike. -/
structure AggregatesSafe [DecidableEq J] (x : Executor Q J) (floats : FloatOps)
    (td : TableData (Value J) E) (stored : List (StoredRow J)) (groupBy aggregates : List (Expr Q)) :
    Prop where
  distinct : ((Executor.functionsOf aggregates).map (fun f => aggFuncColName f.1 f.2)).Nodup
  present : ∀ f ∈ Executor.functionsOf aggregates, ∀ c rest, f.2 = .column c::rest →
    c ∈ columnNames td ∨ c = "*"
  keys : ∀ r ∈ stored, ∀ s ∈ stored, okeyOf x.lib (groupIndices (columnNames td) groupBy) r.row =
        okeyOf x.lib (groupIndices (columnNames td) groupBy) s.row →
      groupVals (groupIndices (columnNames td) groupBy) r =
        groupVals (groupIndices (columnNames td) groupBy) s
  values : ∀ r ∈ stored, ∀ f ∈ Executor.functionsOf aggregates,
    ∀ i, aggColumn (columnNames td) f.2 = some i → ValuesSafe floats (AggKind.fromName f.1)
        (groupColumn stored (groupIndices (columnNames td) groupBy) r i)

section
variable [DecidableEq J] {k : List (Value J)}

lemma group_head (hk : k ∈ firstKeys (groupVals indices) stored) (d : List (Value J)) :
    ((group (groupVals indices) stored k).head?.map (groupVals indices)).getD d = k := by
  cases hg : group (groupVals indices) stored k with
  | nil => exact absurd hg (group_ne_nil _ _ hk)
  | cons r rs =>
    have hr : r ∈ group (groupVals indices) stored k := hg ▸ mem_cons_self ..
    exact of_decide_eq_true (mem_filter.mp hr).2

lemma GroupedRows.fast_rows (h : GroupedRows x td stored indices) (hlib : x.lib.Faithful)
    (functions : List (AggKind × Option ℕ)) :
    (x.fastGroups td indices functions).map (fun g =>
        g.2.groupVals++functions.map (fun f => g.2.value floats f.1)) =
      (firstKeys (groupVals indices) stored).map (fun k =>
        fastRow floats x functions k (group (groupVals indices) stored k)) := by
  have hdata : (td.index.entries.map Prod.snd).filterMap (fun data =>
      (rawKey indices data).map (fun key => (data,key))) =
        stored.map (fun r =>
          (rowBytes x.lib r.cells,encodeAll x.lib (groupVals indices r))) := by
    rw [h.entries, map_map, filterMap_map, ← filterMap_eq_map]
    refine filterMap_congr (fun r hr => ?_)
    rw [comp_apply, comp_apply,
      rawKey_cells (h.width r hr) (h.sound r hr) indices (h.inline r hr)]
    rfl
  have hkept : ∀ r ∈ stored,
      indices.map (fun i => (readValueAt x.lib (rowBytes x.lib r.cells) i).getD .null) =
        groupVals indices r := by
    intro r hr
    refine map_congr_left (fun i hi => ?_)
    obtain ⟨v,hv⟩ := h.inline r hr i hi
    rw [readValueAt_cells hlib (h.width r hr) (h.sound r hr) hv, valueAt_inline hv,
      Option.getD_some]
  have hacc : x.fastGroups td indices functions = accumulate
      (fun r => encodeAll x.lib (groupVals indices r))
      (fun r => Executor.GroupAcc.fresh (groupVals indices r))
      (fun acc r => acc.add (aggVal functions (rowBytes x.lib r.cells))) stored := by
    rw [fastGroups, hdata, accumulate_of_map]
    exact accumulate_congr _ _ _ stored
      (fun r hr => congrArg Executor.GroupAcc.fresh (hkept r hr)) (fun _ _ _ => rfl)
  have hrow : ∀ (r : StoredRow J) (rs : List (StoredRow J)),
      ((r::rs).foldl (fun acc r => Executor.GroupAcc.add acc
          (aggVal functions (rowBytes x.lib r.cells)))
        (Executor.GroupAcc.fresh (groupVals indices r))) =
        groupAcc (groupVals indices r) ((r::rs).map
          (fun r => aggVal functions (rowBytes x.lib r.cells))) := by
    intro r rs
    rw [groupAcc, foldl_map]
  have hinj : ∀ k ∈ firstKeys (groupVals indices) stored,
      ∀ l ∈ firstKeys (groupVals indices) stored,
        encodeAll x.lib k = encodeAll x.lib l → k = l := by
    intro k hk l hl
    obtain ⟨r,hr,rfl⟩ := (mem_firstKeys _ _ _).mp hk
    obtain ⟨s,hs,rfl⟩ := (mem_firstKeys _ _ _).mp hl
    exact h.encode_inj hlib hr hs
  rw [hacc]
  refine (accumulate_map _ _ _
    (fun acc : Executor.GroupAcc J =>
      acc.groupVals++functions.map (fun f => acc.value floats f.1))
    (fun g => fastRow floats x functions ((g.head?.map (groupVals indices)).getD []) g)
    (fun r rs => ?_) stored).trans ?_
  · rw [hrow, fastRow]
    congr 1
    rw [groupAcc, add_foldl]
    rfl
  · rw [firstKeys_map (groupVals indices) (encodeAll x.lib) stored hinj, map_map]
    refine map_congr_left (fun k hk => ?_)
    rw [comp_apply, group_map _ _ _ hinj hk, group_head hk]

def KeysApart (lib : Libraries J) (indices : List ℕ) (stored : List (StoredRow J)) : Prop :=
  ∀ k ∈ Grouping.firstKeys (groupVals indices) stored,
    ∀ l ∈ Grouping.firstKeys (groupVals indices) stored, okeys lib k = okeys lib l → k = l

lemma keysApart_iff (lib : Libraries J) : KeysApart lib indices stored ↔ ∀ r ∈ stored, ∀ s ∈ stored,
      okeyOf lib indices r.row = okeyOf lib indices s.row →
        groupVals indices r = groupVals indices s := by
  constructor
  · intro h r hr s hs heq
    rw [okeyOf_row, okeyOf_row] at heq
    exact h _ ((mem_firstKeys _ _ _).mpr ⟨r,hr,rfl⟩) _ ((mem_firstKeys _ _ _).mpr ⟨s,hs,rfl⟩) heq
  · intro h k hk l hl heq
    obtain ⟨r,hr,rfl⟩ := (mem_firstKeys _ _ _).mp hk
    obtain ⟨s,hs,rfl⟩ := (mem_firstKeys _ _ _).mp hl
    rw [← okeyOf_row, ← okeyOf_row] at heq
    exact h r hr s hs heq

lemma KeysApart.keyedRow (h : KeysApart x.lib indices stored)
    (functions : List (AggKind × Option ℕ)) (hk : k ∈ firstKeys (groupVals indices) stored) :
    Tuple.keyedRow floats x functions indices stored (okeys x.lib k) =
      slowRow floats x functions k (Grouping.group (groupVals indices) stored k) := by
  rw [Tuple.keyedRow, group_map _ _ _ h hk, group_head hk]

lemma GroupedRows.rows_iff (h : GroupedRows x td stored indices) (hacc : Accepted td groupBy aggregates) :
    ((firstKeys (groupVals indices) stored).map (fun k =>
          fastRow floats x (fastFunctions td aggregates) k
            (Grouping.group (groupVals indices) stored k))).Perm
        ((firstKeys (fun r => okeys x.lib (groupVals indices r)) stored).map
          (keyedRow floats x (fastFunctions td aggregates) indices stored)) ↔
      KeysApart x.lib indices stored ∧ ∀ r ∈ stored, ∀ f ∈ functionsOf aggregates,
          ∀ i, aggColumn (columnNames td) f.2 = some i →
            ValuesSafe floats (AggKind.fromName f.1) (groupColumn stored indices r i) := by
  have hsize : ∀ k ∈ firstKeys (groupVals indices) stored, k.length = indices.length := by
    intro k hk
    obtain ⟨r,hr,rfl⟩ := (Grouping.mem_firstKeys _ _ _).mp hk
    exact length_map ..
  have hperm := rows_perm_iff (groupVals indices) (okeys x.lib) stored
    (fun k => fastRow floats x (fastFunctions td aggregates) k
      (Grouping.group (groupVals indices) stored k))
    (keyedRow floats x (fastFunctions td aggregates) indices stored)
    (take indices.length) (fun k hk => take_left' (hsize k hk))
    (fun hapart k hk => by
      rw [KeysApart.keyedRow floats hapart _ hk]
      exact take_left' (hsize k hk))
  refine hperm.trans (and_congr_right (fun hapart => ?_))
  constructor
  · intro hsame r hr
    have hk := (Grouping.mem_firstKeys (groupVals indices) stored _).mpr ⟨r,hr,rfl⟩
    have hrow := hsame _ hk
    rw [KeysApart.keyedRow floats hapart _ hk] at hrow
    exact (h.row_iff floats hacc filter_sublist (Grouping.group_ne_nil _ _ hk) _).mp hrow
  · intro hsafe k hk
    rw [KeysApart.keyedRow floats hapart _ hk]
    obtain ⟨r,hr,rfl⟩ := (Grouping.mem_firstKeys _ _ _).mp hk
    exact (h.row_iff floats hacc filter_sublist (Grouping.group_ne_nil _ _ hk) _).mpr (hsafe r hr)

end

end

def sampleFloats : FloatOps where
  add := fun a b => if a = 0 then b else a
  div := fun a _ => a
  ofInt := fun n => F64.ofInt64 (BitVec.ofInt 64 n)

def valueRow (v : Value Unit) : StoredRow Unit where
  key := encodeValue sampleLibraries (.int64 1)
  cells := [.inline (.int64 1), .inline v]

def valueTable (v : Value Unit) : TableData (Value Unit) Unit where
  schema := ⟨"t",[sampleColumn "id" .int64 true, sampleColumn "v" .int64 false],[],[]⟩
  index := ⟨[((valueRow v).key,rowBytes sampleLibraries (valueRow v).cells)],
    pairwise_singleton _ _⟩
  versionStore := VersionStore.new
  checkExprs := []
  sequences := ∅
  secondaryIndexes := []

lemma valueTable_rows {v : Value Unit} (hv : v = .null ∨ ∃ n, v = .int64 n) :
    GroupedRows sampleExecutor (valueTable v) [valueRow v] [0] where
  entries := rfl
  width := by
    intro r hr
    cases mem_singleton.mp hr
    exact Nat.le_of_ble_eq_true rfl
  sound := by
    have hid : Cell.Sound sampleExecutor (.inline (.int64 1)) := ⟨trivial,trivial,nofun⟩
    have hvalue : Cell.Sound sampleExecutor (.inline v) := by
      rcases hv with rfl | ⟨n,rfl⟩
      · exact ⟨trivial,trivial,nofun⟩
      · exact ⟨trivial,trivial,nofun⟩
    intro r hr c hc
    cases mem_singleton.mp hr
    rcases mem_cons.mp hc with rfl | hc
    · exact hid
    · cases mem_singleton.mp hc
      exact hvalue
  key := by
    intro pk hpk r hr
    cases mem_singleton.mp hr
    cases hpk
    rfl
  inline := by
    intro r hr i hi
    cases mem_singleton.mp hr
    cases mem_singleton.mp hi
    exact ⟨_,rfl⟩
  typed := by
    intro r hr i c hc
    cases mem_singleton.mp hr
    match i, hc with
    | 0, rfl => exact .inr rfl
    | 1, rfl =>
      rcases hv with rfl | ⟨n,rfl⟩
      · exact .inl rfl
      · exact .inr rfl
  float := by
    intro c hc
    rcases mem_cons.mp hc with rfl | hc
    · nofun
    · cases mem_singleton.mp hc
      nofun
  few := by norm_num

end ByteDB.Tuple
