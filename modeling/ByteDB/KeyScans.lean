import ByteDB.ScanFilters

/-!
# Scans by the primary key

The lookup and the range of keys agree with the filter on the visible rows as
far as equal keys have equal encodings and the encodings are in the order of
the keys.
-/

set_option autoImplicit false

namespace ByteDB

variable {es : List (Bytes × Bytes)}

section
variable {V E : Type} {td : TableData V E} {tm : TransactionManager} {tid : TxnId}
  {snapshot : Snapshot}
open VersionStore Option

def TableData.resolvedAt (td : TableData V E) (tid : TxnId) (snapshot : Snapshot) (key : Bytes) :
    Option (Option (List V)) :=
  (td.versionStore.lookup key).map
    (fun c => firstVisible c tid snapshot.startTs snapshot.activeTxns)

lemma TableData.lists_resolved (td : TableData V E) (tid : TxnId) (snapshot : Snapshot) :
    Lists (snapshotResolved td.versionStore tid snapshot.startTs snapshot.activeTxns)
      (td.resolvedAt tid snapshot) where
  nodup := by
    rw [snapshotResolved, List.map_map]
    exact td.versionStore.nodupKeys
  mem := by
    intro k o
    rw [snapshotResolved, List.mem_map, resolvedAt, map_eq_some_iff]
    constructor
    · rintro ⟨⟨l,c⟩,hl,heq⟩
      cases heq
      exact ⟨c,AList.mem_lookup_iff.mpr hl,rfl⟩
    · rintro ⟨c,hc,rfl⟩
      exact ⟨⟨k,c⟩,AList.mem_lookup_iff.mp hc,rfl⟩

variable [Codec V]

def TableData.visibleAt (td : TableData V E) (tid : TxnId) (snapshot : Snapshot) :
    Bytes → Option Bytes :=
  Lists.merged td.index.lookup (td.resolvedAt tid snapshot) serialize

lemma TableData.lists_visible (hsnap : TableData.snapshotFor tm tid = .ok snapshot) (h : td.readVisibleEntries tm (some tid) = .ok es) :
    Lists es (td.visibleAt tid snapshot) := by
  rw [readVisibleEntries] at h
  split at h
  · rename_i hzero
    cases h
    have hempty : td.versionStore.entries = [] := List.length_eq_zero_iff.mp hzero
    have hnone : td.visibleAt tid snapshot = td.index.lookup := by
      funext k
      have hk : td.versionStore.lookup k = none := by
        rw [AList.lookup, hempty]
        rfl
      rw [visibleAt, Lists.merged, resolvedAt, hk]
      rfl
    rw [hnone]
    exact td.index.lists
  · rw [hsnap] at h
    cases h
    have hkeyed : ∀ top : List (Bytes × Option (List V)),
        top.filterMap (fun r => r.2.map (fun t => (r.1,serialize t))) =
          Lists.keyed (fun _ o => o.map serialize) top := by
      intro top
      simp only [Lists.keyed, map_map]
      rfl
    rw [hkeyed, visibleAt]
    convert td.index.lists.overlay (td.lists_resolved tid snapshot) serialize

lemma TableData.readVisibleOne_eq (hsnap : TableData.snapshotFor tm tid = .ok snapshot)
    (hchains : ∀ e ∈ td.versionStore.entries, e.2 ≠ []) (key : Bytes) :
    td.readVisibleOne tm (some tid) key = .ok (td.visibleAt tid snapshot key) := by
  rw [readVisibleOne, hsnap, visibleAt, Lists.merged, resolvedAt]
  simp only [lookupForRead, chain]
  cases hc : td.versionStore.lookup key with
  | none => rfl
  | some c =>
    have hne : c ≠ [] := hchains ⟨key,c⟩ (AList.mem_lookup_iff.mp hc)
    simp only [getD_some, readChain, if_neg hne, map_some, elim_some]
    cases firstVisible c tid snapshot.startTs snapshot.activeTxns <;> rfl

end

namespace Tuple
open ByteDB.Ast

section
variable {Q J E : Type} {x : Executor Q J} {td : TableData (Value J) E}

lemma scanRange_perm (tid : TxnId) (snapshot : Snapshot) (filter : Option (Expr Q)) (lo hi : Bytes)
    (hes : letI := x.codec; Lists es (td.visibleAt tid snapshot)) : (x.scanRange td filter none
        (VersionStore.snapshotResolved td.versionStore tid snapshot.startTs snapshot.activeTxns)
        lo hi).Perm
      ((es.filter (fun e => lo ≤ e.1 ∧ e.1 ≤ hi)).filterMap
        (fun e => x.keepRow td.schema filter e.2)) := by
  let := x.codec
  have hperm := hes.perm
    (td.index.lists.overlay_each (td.lists_resolved tid snapshot) ByteDB.serialize)
  refine List.Perm.trans (List.Perm.of_eq ?_)
    ((hperm.filter (fun e => lo ≤ e.1 ∧ e.1 ≤ hi)).filterMap _).symm
  rw [List.filter_append, List.filterMap_append,
    Lists.filterMap_keyed _ _ (fun k => lo ≤ k ∧ k ≤ hi),
    Lists.filterMap_keyed _ _ (fun k => lo ≤ k ∧ k ≤ hi)]
  rw [Executor.scanRange, Executor.upTo]
  congr 1
  · rw [List.filterMap_filter]
    refine List.filterMap_congr (fun e _ => ?_)
    split
    · rw [(td.lists_resolved tid snapshot).lookup_eq]
      rcases td.resolvedAt tid snapshot e.1 with _ | _ | t <;> rfl
    · rfl
  · refine List.filterMap_congr (fun r _ => ?_)
    by_cases hrange : lo ≤ r.1 ∧ r.1 ≤ hi
    · have hin : (lo ≤ r.1 ∧ r.1 ≤ hi ∧ td.index.lookup r.1 = none) ↔
          td.index.lookup r.1 = none := by simp [hrange]
      have hdecide : decide (lo ≤ r.1 ∧ r.1 ≤ hi) = true := decide_eq_true hrange
      by_cases hnone : td.index.lookup r.1 = none
      · rw [if_pos (hin.mpr hnone), if_pos hdecide, if_pos hnone]
        cases r.2 <;> rfl
      · rw [if_neg (fun h => hnone (hin.mp h)), if_pos hdecide, if_neg hnone]
        rfl
    · rw [if_neg (fun h => hrange ⟨h.1,h.2.1⟩), if_neg (by simpa using hrange)]

end

section
variable {Q J E : Type} {x : Executor Q J} {td : TableData (Value J) E} {tm : TransactionManager}
  {txnId : Option TxnId} {visible : List (StoredRow J)}

/-- The rows that a statement sees, in or out of a transaction. -/
structure VisibleRows (x : Executor Q J) (td : TableData (Value J) E) (tm : TransactionManager)
    (txnId : Option TxnId) (visible : List (StoredRow J)) : Prop
    extends SoundRows x td.schema visible where
  entries : letI := x.codec
    td.readVisibleEntries tm txnId = .ok (visible.map (fun r => (r.key,rowBytes x.lib r.cells)))
  active : ∀ tid, txnId = some tid → ∃ snapshot, TableData.snapshotFor tm tid = .ok snapshot
  chains : ∀ e ∈ td.versionStore.entries, e.2 ≠ []

lemma VisibleRows.stored (h : VisibleRows x td tm none visible) : StoredRows x td visible where
  toSoundRows := h.toSoundRows
  entries := Except.ok.inj h.entries

/-- The two shortcuts on one row: the key is the literal exactly if it compares
equal to it, and a key that lies between the literals lies between their
encodings. -/
structure ShortcutSafe (x : Executor Q J) (td : TableData (Value J) E) (txnId : Option TxnId)
    (f : Expr Q) (r : StoredRow J) : Prop where
  lookup : ∀ first name l, f = comparison first (.column name) .eq l →
    KeySafe td.schema name (literalValue l) r.row
  range : ∀ lo hi, txnId ≠ none → x.tryPkRange td.schema f = some (lo,hi) →
    evalPredicate x.expressions f r.row td.schema = true → lo ≤ r.key ∧ r.key ≤ hi

variable {schema : Schema (Value J)} {f : Expr Q} {key : Bytes}

lemma tryPkLookup_some (h : x.tryPkLookup schema f = some key) :
    ∃ first name l, f = comparison first (.column name) .eq l ∧
      Executor.keyColumn schema = some name ∧ key = x.literalToKeyBytes l := by
  rw [Executor.tryPkLookup.eq_def] at h
  split at h
  · split at h
    · cases h
      exact ⟨false,_,_,rfl,‹_›,rfl⟩
    · cases h
  · split at h
    · cases h
      exact ⟨true,_,_,rfl,‹_›,rfl⟩
    · cases h
  · cases h

lemma tryPkRange_some {bounds : Bytes × Bytes}
    (h : x.tryPkRange schema f = some bounds) : ∃ left right, f = .binaryOp left .and right := by
  rw [Executor.tryPkRange.eq_def] at h
  split at h
  · exact ⟨_,_,rfl⟩
  · cases h

lemma VisibleRows.scan_lookup (h : VisibleRows x td tm txnId visible) (hlib : x.lib.Faithful) (hf : x.tryPkLookup td.schema f = some key) :
    x.execSeqScan td tm (some f) txnId none =
      .ok ((visible.filter (fun r => r.key = key)).map StoredRow.row) := by
  cases txnId with
  | none =>
    rw [Executor.execSeqScan, Executor.scanCommitted, Option.bind_some, hf]
    exact congrArg Except.ok (h.lookup hlib h.stored.lists key)
  | some tid =>
    let := x.codec
    obtain ⟨snapshot,hsnap⟩ := h.active tid rfl
    rw [Executor.execSeqScan, Executor.scanVisible, Option.bind_some, hf]
    dsimp only
    rw [TableData.readVisibleOne_eq hsnap h.chains]
    exact congrArg Except.ok (h.lookup hlib (TableData.lists_visible hsnap h.entries) key)

/-- A range, which only transactions scan by keys, keeps the rows of its keys. -/
lemma VisibleRows.scan_range (h : VisibleRows x td tm txnId visible) (hlib : x.lib.Faithful) {lo hi : Bytes} (hlookup : x.tryPkLookup td.schema f = none)
    (hf : x.tryPkRange td.schema f = some (lo,hi)) :
    ∃ rows, x.execSeqScan td tm (some f) txnId none = .ok rows ∧
      rows.Perm ((visible.filter (fun r =>
        (decide (lo ≤ r.key ∧ r.key ≤ hi) || txnId.isNone) &&
          evalPredicate x.expressions f r.row td.schema)).map StoredRow.row) := by
  cases txnId with
  | none =>
    obtain ⟨left,right,rfl⟩ := tryPkRange_some hf
    have hfast : Executor.tryFastFilter td.schema (.binaryOp left .and right) = none := by
      rw [Executor.tryFastFilter.eq_def]
      split
      · rename_i heq
        cases heq
        rfl
      · rename_i heq
        cases heq
        rfl
      · rfl
    refine ⟨_,rfl,?_⟩
    rw [h.stored.scan_plain hlib hlookup hfast]
    simp
  | some tid =>
    let := x.codec
    obtain ⟨snapshot,hsnap⟩ := h.active tid rfl
    have hlists := TableData.lists_visible hsnap h.entries
    refine ⟨_,?_,(scanRange_perm tid snapshot (some f) lo hi hlists).trans (.of_eq ?_)⟩
    · rw [Executor.execSeqScan, Executor.scanVisible, Option.bind_some, hlookup]
      rw [Option.bind_some, hf]
      rw [hsnap]
      rfl
    · rw [List.filterMap_filter]
      refine filterMap_rows visible _ _ (fun r hr => ?_)
      rw [h.keepRow hlib hr, Option.isNone_some, Bool.or_false]
      cases decide (lo ≤ r.key ∧ r.key ≤ hi) <;> rfl

end

def numberRow (n : BitVec 64) : StoredRow Unit where
  key := encodeValue sampleLibraries (.int64 n)
  cells := [.inline (.int64 n)]

def numberTable (n : BitVec 64) : TableData (Value Unit) Unit where
  schema := ⟨"t",[sampleColumn "id" .int64 true],[],[]⟩
  index := ⟨[((numberRow n).key,rowBytes sampleLibraries (numberRow n).cells)],
    List.pairwise_singleton _ _⟩
  versionStore := VersionStore.new
  checkExprs := []
  sequences := ∅
  secondaryIndexes := []

def oneBegun : TransactionManager := (TransactionManager.new.begin .repeatableRead).1

lemma numberTable_rows (n : BitVec 64) :
    VisibleRows sampleExecutor (numberTable n) oneBegun (some 1) [numberRow n] where
  entries := rfl
  active := by
    intro tid htid
    cases htid
    exact ⟨_,rfl⟩
  chains := nofun
  width := by simp [numberRow]
  sound := by
    intro r hr c hc
    cases List.mem_singleton.mp hr
    cases List.mem_singleton.mp hc
    exact ⟨trivial,trivial,nofun⟩
  key := by
    intro pk hpk r hr
    cases List.mem_singleton.mp hr
    cases hpk
    exact (List.append_nil _).symm

def between (lo hi : BitVec 64) : Expr Unit :=
  .binaryOp (comparison false (.column "id") .gte (.integer lo)) .and
    (comparison false (.column "id") .lte (.integer hi))

end Tuple

end ByteDB
