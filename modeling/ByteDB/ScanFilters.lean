import ByteDB.Listing
import ByteDB.StoredCells

/-!
# Scans with one comparison

Outside transactions a scan whose filter compares a column with a literal
returns the rows that satisfy the filter, except for the values that the
comparison of bytes does not read and for those it reads as another type.
-/

set_option autoImplicit false

namespace ByteDB.Tuple
open ByteDB.Ast List Executor

section
variable {α β : Type}

lemma filter_map_perm_iff (rows : List α) (f : α → β) (p : α → Bool) (q : β → Bool) :
    ((rows.filter p).map f).Perm ((rows.map f).filter q) ↔ ∀ r ∈ rows, p r = q (f r) := by
  have hq : (rows.map f).filter q = (rows.filter (q ∘ f)).map f := filter_map ..
  rw [hq]
  constructor
  · intro hperm
    have hsound : ∀ r ∈ rows, p r = true → q (f r) = true := by
      intro r hr hp
      have hmem := hperm.subset (mem_map_of_mem (mem_filter.mpr ⟨hr,hp⟩))
      obtain ⟨s,hs,heq⟩ := mem_map.mp hmem
      rw [← heq]
      exact (mem_filter.mp hs).2
    have hsub : (rows.filter (q ∘ f)).filter p = rows.filter p := by
      rw [filter_filter]
      refine filter_congr (fun r hr => ?_)
      cases hp : p r with
      | false => rfl
      | true => simp [hsound r hr hp]
    have hlen : ((rows.filter (q ∘ f)).filter p).length = (rows.filter (q ∘ f)).length := by
      rw [hsub]
      simpa using hperm.length_eq
    have hall := filter_eq_self.mp (filter_sublist.eq_of_length hlen)
    intro r hr
    cases hqr : q (f r) with
    | true => exact hall r (mem_filter.mpr ⟨hr,hqr⟩)
    | false =>
      rw [← Bool.not_eq_true]
      intro hp
      rw [hsound r hr hp] at hqr
      cases hqr
  · intro heq
    rw [filter_congr heq]
    exact List.Perm.refl _

end

section
variable {Q J E : Type}

structure StoredRow (J : Type) where
  key : Bytes
  cells : List (Cell J)

def StoredRow.row (r : StoredRow J) : List (Value J) := r.cells.map Cell.value

structure SoundRows (x : Executor Q J) (schema : Schema (Value J)) (rows : List (StoredRow J)) :
    Prop where
  width : ∀ r ∈ rows, r.cells.length ≤ 255
  sound : ∀ r ∈ rows, ∀ c ∈ r.cells, c.Sound x
  key : ∀ pk, schema.primaryKeyColumns = [pk] → ∀ r ∈ rows, r.key = keyBytes x.lib r.row [pk]

structure StoredRows (x : Executor Q J) (td : TableData (Value J) E)
    (stored : List (StoredRow J)) : Prop extends SoundRows x td.schema stored where
  entries : td.index.entries = stored.map (fun r => (r.key,rowBytes x.lib r.cells))

variable {x : Executor Q J} {td : TableData (Value J) E} {stored : List (StoredRow J)}
  {schema : Schema (Value J)} {rows : List (StoredRow J)} {r : StoredRow J}

lemma SoundRows.decode (h : SoundRows x schema rows) (hlib : x.lib.Faithful)
    (hr : r ∈ rows) : x.decodeRow (rowBytes x.lib r.cells) = some r.row :=
  decodeRow_cells hlib (h.width r hr) (h.sound r hr)

lemma filterMap_rows {lib : Libraries J} (rows : List (StoredRow J))
    (keep : Bytes × Bytes → Option (List (Value J))) (p : StoredRow J → Bool)
    (hkeep : ∀ r ∈ rows, keep (r.key,rowBytes lib r.cells) = if p r then some r.row else none) :
    (rows.map (fun r => (r.key,rowBytes lib r.cells))).filterMap keep =
      (rows.filter p).map StoredRow.row := by
  rw [filterMap_map, ← filterMap_eq_map, filterMap_filter]
  refine filterMap_congr (fun r hr => ?_)
  exact hkeep r hr

lemma StoredRows.filterMap (h : StoredRows x td stored) (keep : Bytes → Option (List (Value J)))
    (p : StoredRow J → Bool)
    (hkeep : ∀ r ∈ stored, keep (rowBytes x.lib r.cells) = if p r then some r.row else none) :
    (td.index.entries.map Prod.snd).filterMap keep = (stored.filter p).map StoredRow.row := by
  rw [filterMap_map, h.entries]
  exact filterMap_rows stored _ p hkeep

lemma SoundRows.lookup (h : SoundRows x schema rows) (hlib : x.lib.Faithful)
    {f : Bytes → Option Bytes}
    (hf : Lists (rows.map (fun r => (r.key,rowBytes x.lib r.cells))) f) (key : Bytes) :
    ((f key).bind x.decodeRow).toList = (rows.filter (fun r => r.key = key)).map StoredRow.row := by
  have hrows : ((rows.map (fun r => (r.key,rowBytes x.lib r.cells))).filter
      (fun e => e.1 = key)).filterMap (fun e => x.decodeRow e.2) =
        (rows.filter (fun r => r.key = key)).map StoredRow.row := by
    rw [filter_map, filterMap_map, ← filterMap_eq_map]
    refine filterMap_congr (fun r hr => ?_)
    exact h.decode hlib (mem_filter.mp hr).1
  rw [← hrows, hf.filter_key]
  cases f key with
  | none => rfl
  | some data =>
    rw [Option.bind_some, Option.map_some, Option.toList_some, filterMap_cons]
    cases x.decodeRow data <;> rfl

lemma StoredRows.lists (h : StoredRows x td stored) :
    Lists (stored.map (fun r => (r.key,rowBytes x.lib r.cells))) td.index.lookup :=
  h.entries ▸ td.index.lists

lemma SoundRows.key_iff (h : SoundRows x schema rows) (hlib : x.lib.Faithful) {pk : ℕ}
    (hpk : schema.primaryKeyColumns = [pk]) (hr : r ∈ rows) (l : LiteralValue) :
    r.key = x.literalToKeyBytes l ↔ r.row[pk]? = some (literalValue l) := by
  have hliteral : x.literalToKeyBytes l = encodeValue x.lib (literalValue l) := by
    simp [literalToKeyBytes, keyBytes]
  rw [h.key pk hpk r hr, hliteral, keyBytes, flatMap_cons, flatMap_nil, append_nil]
  cases hv : r.row[pk]? with
  | none =>
    have hne : encodeValue x.lib (literalValue l) ≠ [] := by
      cases l with
      | hexBlob b =>
        rw [literalValue, encodeValue]
        cases hc : compress x.lib b with
        | none => exact cons_ne_nil _ _
        | some c =>
          obtain ⟨tag,buf,rfl,-⟩ := compress_made hc
          exact cons_ne_nil _ _
      | _ => exact cons_ne_nil _ _
    simp [hne.symm]
  | some v =>
    have hplain : Plain x.lib v := by
      obtain ⟨c,hc,rfl⟩ := mem_map.mp (mem_of_getElem? hv)
      exact (h.sound r hr c hc).plain
    constructor
    · intro henc
      rw [encodeValue_inj hlib hplain henc]
    · intro heq
      rw [Option.some.inj heq]
      rfl

end

section
variable {Q J E : Type}

def IsColumn (c : Expr Q) : Prop := (∃ name, c = .column name) ∨ ∃ t name, c = .qualifiedColumn t name

def comparison (literalFirst : Bool) (c : Expr Q) (op : BinOp) (l : LiteralValue) : Expr Q :=
  if literalFirst then .binaryOp (.literal l) op c else .binaryOp c op (.literal l)

def sided (literalFirst : Bool) (op : BinOp) : BinOp := if literalFirst then flipOp op else op

variable {op : BinOp}

lemma eval_comparison (ex : Expressions Q J) (first : Bool) (c : Expr Q)
    (hop : isComparison op = true) (l : LiteralValue) (row : List (Value J))
    (schema : Schema (Value J)) : evalPredicate ex (comparison first c op l) row schema =
      Satisfies (sided first op) (evalValue ex c row schema) (literalValue l) := by
  cases first with
  | false => exact evalPredicate_comparison ex hop _ _ row schema
  | true =>
    refine (evalPredicate_comparison ex hop _ _ row schema).trans ?_
    exact (satisfies_flip op _ _).symm

/-- Values that the comparison of bytes does not read against a literal. -/
def Unread : Cell J → Value J → Bool
  | .spilled _ _, _ => true
  | .inline (.bool _), .bool _ => true
  | .inline (.bytes _), .bytes _ => true
  | .inline (.float64 _), .int64 _ => true
  | .inline (.decimal _ _), .int64 _ => true
  | _, _ => false

/-- A number that the literal is compared with is not a timestamp, and if only
the bytes decide, no value that satisfies the comparison is left unread. -/
structure FilterSafe (bytesOnly : Prop) (op : BinOp) (c : Cell J) (l : Value J) : Prop where
  timestamps : ∀ t n, c = .inline (.timestamp t) → l = .int64 n →
    opHolds op (some (compareSigned t n)) = false
  unread : bytesOnly → Unread c l = true → Satisfies op c.value l = false

/-- The key is the literal exactly if it compares equal to it. -/
def KeySafe (schema : Schema (Value J)) (name : String) (l : Value J) (row : List (Value J)) :
    Prop :=
  ∀ pk, schema.primaryKeyColumns = [pk] → (row[pk]? = some l ↔
    Satisfies .eq ((columnValue schema row name).getD .null) l = true)

/-- What a row must meet for a comparison `op` of the column with the literal. -/
def RowSafe (td : TableData (Value J) E) (c : Expr Q) (op : BinOp) (l : LiteralValue)
    (r : StoredRow J) : Prop :=
  match c with
  | .column name =>
    if op = .eq ∧ Executor.keyColumn td.schema = some name then
      KeySafe td.schema name (literalValue l) r.row
    else
      ∀ i cell, td.schema.columnIndex name = some i → r.cells[i]? = some cell →
        FilterSafe (td.index.entries.length < Executor.parallelScanThreshold) op cell
          (literalValue l)
  | _ => True

def decided (op : BinOp) (c : Cell J) (l : Value J) : Option Bool :=
  (c.rawOrdering l).map (fun o => opHolds op (some o))

lemma codeHolds_opCode (hop : isComparison op = true) (o : Ordering) :
    codeHolds (opCode op) o = opHolds op (some o) := by
  cases op with
  | eq | neq | lt | gt | lte | gte => cases o <;> rfl
  | _ => cases hop

/-- The three kinds of cells: timestamps against numbers, unread ones, and
those on which the bytes decide as the values do. -/
inductive Reading (op : BinOp) (c : Cell J) (l : LiteralValue) : Prop where
  | number (t n : BitVec 64) (hc : c = .inline (.timestamp t)) (hl : l = .integer n)
  | unread (hunread : Unread c (literalValue l) = true)
      (hnone : decided op c (Executor.evalExprSimple l) = none)
      (hother : ∀ t, c ≠ .inline (.timestamp t))
  | asValue (hread : Unread c (literalValue l) = false)
      (hother : ∀ t n, c = .inline (.timestamp t) → l ≠ .integer n)
      (hdecided : decided op c (Executor.evalExprSimple l) =
          some (Satisfies op c.value (literalValue l)) ∨
        decided op c (Executor.evalExprSimple l) = none ∧
          Satisfies op c.value (literalValue l) = false)

variable (op : BinOp) (c : Cell J) (l : LiteralValue)

lemma reading : Reading op c l := by
  have hnone : opHolds op none = false := by cases op <;> rfl
  -- A NaN on either side leaves the order open.
  have hcmp : ∀ o : Option Ordering, o.map (fun o => opHolds op (some o)) = some (opHolds op o) ∨
        o.map (fun o => opHolds op (some o)) = none ∧ opHolds op o = false := by
    intro o
    cases o with
    | none => exact .inr ⟨rfl,hnone⟩
    | some o => exact .inl rfl
  cases c with
  | spilled file v =>
    refine .unread rfl ?_ nofun
    cases l <;> rfl
  | inline v =>
    cases l with
    | null => cases v <;> exact .asValue rfl (fun _ _ _ => nofun) (.inr ⟨rfl,rfl⟩)
    | integer n =>
      cases v with
      | timestamp t => exact .number t n rfl rfl
      | null => exact .asValue rfl nofun (.inr ⟨rfl,rfl⟩)
      | int64 => exact .asValue rfl nofun (.inl rfl)
      | float64 | decimal => exact .unread rfl rfl nofun
      | _ => exact .asValue rfl nofun (.inr ⟨rfl,hnone⟩)
    | float f =>
      cases v with
      | null => exact .asValue rfl nofun (.inr ⟨rfl,rfl⟩)
      | int64 | float64 => exact .asValue rfl nofun (hcmp _)
      | _ => exact .asValue rfl (fun _ _ _ => nofun) (.inr ⟨rfl,hnone⟩)
    | string s =>
      cases v with
      | null => exact .asValue rfl nofun (.inr ⟨rfl,rfl⟩)
      | text => exact .asValue rfl nofun (.inl rfl)
      | _ => exact .asValue rfl (fun _ _ _ => nofun) (.inr ⟨rfl,hnone⟩)
    | bool b =>
      cases v with
      | null => exact .asValue rfl nofun (.inr ⟨rfl,rfl⟩)
      | bool => exact .unread rfl rfl nofun
      | _ => exact .asValue rfl (fun _ _ _ => nofun) (.inr ⟨rfl,hnone⟩)
    | hexBlob b =>
      cases v with
      | null => exact .asValue rfl nofun (.inr ⟨rfl,rfl⟩)
      | bytes => exact .unread rfl rfl nofun
      | _ => exact .asValue rfl (fun _ _ _ => nofun) (.inr ⟨rfl,hnone⟩)

lemma bytes_decide_iff (bytesOnly : Prop) [Decidable bytesOnly] :
    (decided op c (evalExprSimple l)).getD
        (if bytesOnly then false else Satisfies op c.value (literalValue l)) =
          Satisfies op c.value (literalValue l) ↔
      FilterSafe bytesOnly op c (literalValue l) := by
  rcases reading op c l with ⟨t,n,rfl,rfl⟩ | ⟨hunread,hnone,ht⟩ | ⟨hread,ht,hdecided⟩
  · have hfalse : Satisfies op (.timestamp t : Value J) (.int64 n) = false := by cases op <;> rfl
    constructor
    · intro heq
      refine ⟨fun t' n' hc hl => ?_,nofun⟩
      cases hc
      cases hl
      exact heq.trans hfalse
    · intro hsafe
      exact (hsafe.timestamps t n rfl rfl).trans hfalse.symm
  · rw [hnone, Option.getD_none]
    constructor
    · intro heq
      refine ⟨fun t n hc => absurd hc (ht t),fun honly _ => ?_⟩
      rw [if_pos honly] at heq
      exact heq.symm
    · intro hsafe
      split
      · exact (hsafe.unread ‹_› hunread).symm
      · rfl
  · refine iff_of_true ?_ ⟨?_,fun _ hu => by rw [hread] at hu; cases hu⟩
    · rcases hdecided with hsome | ⟨hnone,hfalse⟩
      · rw [hsome]
        rfl
      · rw [hnone, hfalse]
        exact ite_self false
    · intro t n hc hl
      cases l with
      | integer m => exact absurd rfl (ht t m hc)
      | _ => cases hl

end

section
variable {Q J E : Type} {x : Executor Q J} {td : TableData (Value J) E}
  {stored : List (StoredRow J)} {r : StoredRow J} {op : BinOp}

lemma StoredRows.raw (h : StoredRows x td stored) (hr : r ∈ stored) (i : ℕ) (hop : isComparison op = true) (l : Value J) :
    rawFilterMatches (rowBytes x.lib r.cells) i (opCode op) l =
      (r.cells[i]?).bind (fun c => decided op c l) := by
  rw [rawFilterMatches_cells (h.width r hr) (h.sound r hr), Option.map_bind]
  cases r.cells[i]? with
  | none => rfl
  | some c =>
    rw [Option.bind_some, Option.bind_some, Function.comp_apply, decided]
    cases c.rawOrdering l with
    | none => rfl
    | some o => rw [Option.map_some, Option.map_some, codeHolds_opCode hop]

variable {schema : Schema (Value J)} {name : String} {i : ℕ}

lemma evalValue_cell
    (hi : schema.columnIndex name = some i) (ex : Expressions Q J) (r : StoredRow J) :
    evalValue ex (.column name) r.row schema = ((r.cells[i]?).map Cell.value).getD .null := by
  rw [evalValue, columnValue, hi, Option.map_some, Option.getD_some, valueAt, StoredRow.row,
    getElem?_map]

lemma StoredRows.keepRaw (h : StoredRows x td stored) (hlib : x.lib.Faithful)
    (hr : r ∈ stored) (i : ℕ) (hop : isComparison op = true) (l : Value J) :
    x.keepRaw (i,op,l) (rowBytes x.lib r.cells) =
      if ((r.cells[i]?).bind (fun c => decided op c l)).getD false then some r.row else none := by
  rw [Executor.keepRaw, h.raw hr i hop, h.decode hlib hr]
  rcases (r.cells[i]?).bind (fun c => decided op c l) with _ | _ | _ <;> rfl

variable {rows : List (StoredRow J)}

lemma SoundRows.keepRow (h : SoundRows x schema rows) (hlib : x.lib.Faithful) (hr : r ∈ rows)
    (f : Expr Q) : x.keepRow schema (some f) (rowBytes x.lib r.cells) =
      if evalPredicate x.expressions f r.row schema then some r.row else none := by
  rw [Executor.keepRow, h.decode hlib hr, Option.filter_some]
  rfl

lemma StoredRows.keepChecked (h : StoredRows x td stored) (hlib : x.lib.Faithful) (hr : r ∈ stored) (f : Expr Q) (i : ℕ)
    (hop : isComparison op = true) (l : Value J) :
    x.keepChecked td.schema (some f) (some (i,op,l)) (rowBytes x.lib r.cells) =
      if ((r.cells[i]?).bind (fun c => decided op c l)).getD
        (evalPredicate x.expressions f r.row td.schema) then some r.row else none := by
  rw [Executor.keepChecked, Option.bind_some, h.raw hr i hop, h.decode hlib hr, h.keepRow hlib hr]
  rcases (r.cells[i]?).bind (fun c => decided op c l) with _ | _ | _ <;> rfl

lemma tryPkLookup_comparison (schema : Schema (Value J)) (first : Bool) (name : String)
    (op : BinOp) (l : LiteralValue) : x.tryPkLookup schema (comparison first (.column name) op l) =
      if sided first op = .eq ∧ keyColumn schema = some name then
        some (x.literalToKeyBytes l) else none := by
  cases first <;> cases op <;> simp [comparison, sided, flipOp, tryPkLookup]

lemma tryFastFilter_comparison (schema : Schema (Value J)) (first : Bool) (name : String) (hop : isComparison op = true) (l : LiteralValue) :
    tryFastFilter schema (comparison first (.column name : Expr Q) op l) =
      (schema.columnIndex name).map (fun i => (i,sided first op,evalExprSimple l)) := by
  cases first with
  | false | true => simp [comparison, sided, tryFastFilter, hop]

lemma isComparison_sided (first : Bool) (hop : isComparison op = true) :
    isComparison (sided first op) = true := by
  cases first with
  | false => exact hop
  | true => exact (isComparison_flip op).trans hop

lemma SoundRows.key_safe_iff (h : SoundRows x schema rows) (hlib : x.lib.Faithful)
    (hname : keyColumn schema = some name) (hr : r ∈ rows) (l : LiteralValue) :
    decide (r.key = x.literalToKeyBytes l) =
        Satisfies .eq (evalValue x.expressions (.column name) r.row schema) (literalValue l) ↔
      KeySafe schema name (literalValue l) r.row := by
  obtain ⟨pk,hpk⟩ : ∃ pk, schema.primaryKeyColumns = [pk] := by
    rw [keyColumn] at hname
    split at hname
    · exact ⟨_,‹_›⟩
    · cases hname
  rw [KeySafe, hpk, Bool.eq_iff_iff, decide_eq_true_iff, h.key_iff hlib hpk hr]
  simp only [cons.injEq, and_true, forall_eq']
  rfl

variable {f : Expr Q}

lemma StoredRows.scan_plain (h : StoredRows x td stored) (hlib : x.lib.Faithful)
    (hlookup : x.tryPkLookup td.schema f = none) (hfast : tryFastFilter td.schema f = none) :
    x.scanCommitted td (some f) none = (stored.filter
      (fun r => evalPredicate x.expressions f r.row td.schema)).map StoredRow.row := by
  have hkeep : (td.index.entries.map Prod.snd).filterMap (x.keepRow td.schema (some f)) =
      (stored.filter (fun r => evalPredicate x.expressions f r.row td.schema)).map StoredRow.row :=
    h.filterMap _ _ (fun r hr => h.keepRow hlib hr f)
  rw [scanCommitted, Option.bind_some, hlookup]
  simp only [Option.bind_some, hfast]
  split
  · exact hkeep
  · exact hkeep

lemma StoredRows.scan_fast (h : StoredRows x td stored) (hlib : x.lib.Faithful) (hop : isComparison op = true) {l : Value J}
    (hlookup : x.tryPkLookup td.schema f = none)
    (hfast : tryFastFilter td.schema f = some (i,op,l)) :
    x.scanCommitted td (some f) none = (stored.filter (fun r =>
      ((r.cells[i]?).bind (fun c => decided op c l)).getD
        (if td.index.entries.length < parallelScanThreshold then false
          else evalPredicate x.expressions f r.row td.schema))).map StoredRow.row := by
  rw [scanCommitted, Option.bind_some, hlookup]
  simp only [Option.bind_some, hfast]
  by_cases hlt : td.index.entries.length < parallelScanThreshold
  · rw [if_neg (fun hc => absurd hc.2.2 (not_le.mpr hlt))]
    refine h.filterMap _ _ (fun r hr => ?_)
    rw [h.keepRaw hlib hr i hop, if_pos hlt]
  · rw [if_pos ⟨trivial,by simp,not_lt.mp hlt⟩]
    refine h.filterMap _ _ (fun r hr => ?_)
    rw [h.keepChecked hlib hr f i hop, if_neg hlt]

lemma chosen_iff (serial : Prop) [Decidable serial] (op : BinOp) (c : Option (Cell J))
    (l : LiteralValue) :
    (c.bind (fun c => decided op c (evalExprSimple l))).getD (if serial then false
          else Satisfies op ((c.map Cell.value).getD .null) (literalValue l)) =
      Satisfies op ((c.map Cell.value).getD .null) (literalValue l) ↔
    ∀ cell, c = some cell → FilterSafe serial op cell (literalValue l) := by
  cases c with
  | none =>
    refine iff_of_true ?_ nofun
    split <;> rfl
  | some cell =>
    simp only [Option.bind_some, Option.map_some, Option.getD_some, Option.some.injEq,
      forall_eq', bytes_decide_iff]

end

def sampleExecutor : Executor Unit Unit where
  lib := sampleLibraries
  files := ⟨false,fun _ => none⟩
  rules := ⟨fun _ _ v => v,fun _ => false⟩
  expressions := ⟨fun _ _ _ => .null,fun _ _ => false,fun _ _ => false⟩

def sampleColumn (name : String) (dataType : DataType) (primaryKey : Bool) :
    Column (Value Unit) where
  name := name
  dataType := dataType
  nullable := !primaryKey
  primaryKey := primaryKey
  unique := false
  autoIncrement := false
  default := none
  maxLength := none

/-- `CREATE TABLE t (id INT PRIMARY KEY, flag BOOL)` with the row `(1, TRUE)`. -/
def flagRow : StoredRow Unit where
  key := encodeValue sampleLibraries (.int64 1)
  cells := [.inline (.int64 1), .inline (.bool true)]

def flagTable : TableData (Value Unit) Unit where
  schema := ⟨"t",[sampleColumn "id" .int64 true, sampleColumn "flag" .bool false],[],[]⟩
  index := ⟨[(flagRow.key,rowBytes sampleLibraries flagRow.cells)],pairwise_singleton _ _⟩
  versionStore := VersionStore.new
  checkExprs := []
  sequences := ∅
  secondaryIndexes := []

lemma flagTable_rows : StoredRows sampleExecutor flagTable [flagRow] where
  entries := rfl
  width := by decide
  sound := by
    have hid : Cell.Sound sampleExecutor (.inline (.int64 1)) := ⟨trivial,trivial,nofun⟩
    have hflag : Cell.Sound sampleExecutor (.inline (.bool true)) := ⟨trivial,trivial,nofun⟩
    intro r hr c hc
    cases mem_singleton.mp hr
    rcases mem_cons.mp hc with rfl | hc
    · exact hid
    · cases mem_singleton.mp hc
      exact hflag
  key := by
    intro pk hpk r hr
    cases mem_singleton.mp hr
    cases hpk
    rfl

end ByteDB.Tuple
