import ByteDB.Integers

/-!
# Vacuum

A vacuum takes out of every chain the versions whose deleter began before the
oldest active transaction did. A deleter that has begun before may still have
committed after, and then an active transaction sees what it deleted.
-/

set_option autoImplicit false

namespace ByteDB.Engine
open ByteDB.Assoc VersionStore List Option
variable {V E : Type}

def vacuumTable (oldest : Timestamp) (td : TableData V E) : TableData V E :=
  { td with versionStore := gcWithAborted td.versionStore oldest [] }

/-- `MvccVacuum::run_once` over the version stores of the current database. -/
def vacuum (e : Engine V E) : Engine V E :=
  let oldest := e.tm.oldestActiveStartTs
  { e with
    tables := retain e.tables (fun _ td => some (vacuumTable oldest td))
    tm := (e.tm.gcCommitted oldest).gcSsiRecent }

variable {txn : Transaction} {tid : TxnId}

section
variable {α : Type}

def expired (oldest : Timestamp) (v : VersionedTuple α) : Bool := v.deletedTs.any (· < oldest)

def newest (txn : Transaction) (tid : TxnId) (chain : Chain α) : Option (VersionedTuple α) :=
  chain.reverse.find? (fun v => isVisible v tid txn.startTs txn.snapshotActive)

def left (oldest : Timestamp) (chain : Chain α) : Chain α :=
  chain.filter (fun v => !expired oldest v)

lemma chain_vacuum (vs : VersionStore α) (oldest : Timestamp) (key : Bytes) :
    chain (gcWithAborted vs oldest []) key = left oldest (chain vs key) := by
  rw [chain_gc, left]
  congr 1
  funext v
  simp [gcKeeps, expired]

lemma left_eq_nil (oldest : Timestamp) (chain : Chain α) :
    left oldest chain = [] ↔ ∀ v ∈ chain, expired oldest v = true := by
  simp [left, filter_eq_nil_iff]

lemma newest_left (txn : Transaction) (tid : TxnId) (oldest : Timestamp) (chain : Chain α) :
    newest txn tid (left oldest chain) = chain.reverse.find? (fun v =>
      !expired oldest v && isVisible v tid txn.startTs txn.snapshotActive) := by
  rw [newest, left, ← filter_reverse, find?_filter]
  simp only [Bool.decide_and, Bool.decide_eq_true]

lemma newest_left_none {chain : Chain α} (h : newest txn tid chain = none) (oldest : Timestamp) :
    newest txn tid (left oldest chain) = none := by
  rw [newest, find?_eq_none] at h
  rw [newest_left, find?_eq_none]
  intro v hv
  have hinvisible := h v hv
  simp_all

lemma newest_left_some {chain : Chain α}
    {v : VersionedTuple α} (h : newest txn tid chain = some v) {oldest : Timestamp}
    (hv : expired oldest v = false) : newest txn tid (left oldest chain) = some v := by
  rw [newest, find?_eq_some_iff_append] at h
  obtain ⟨hsees,newer,older,hsplit,hnewer⟩ := h
  rw [newest_left, find?_eq_some_iff_append]
  refine ⟨by simp [hv, hsees],newer,older,hsplit,?_⟩
  intro w hw
  have hinvisible := hnewer w hw
  simp_all

end

variable [Codec V]

def rowRead (txn : Transaction) (tid : TxnId) (chain : Chain (List V)) (indexed : Option Bytes) :
    Option Bytes :=
  if chain = [] then indexed else (newest txn tid chain).map (fun v => serialize v.data)

def readRow (e : Engine V E) (tid : TxnId) (table : String) (key : Bytes) :
    Option (Except QueryError (Option Bytes)) :=
  (e.tables.lookup table).map (fun td => td.readVisibleOne e.tm (some tid) key)

lemma readVisibleOne_active {tm : TransactionManager}
    (h : tm.activeTxns.lookup tid = some txn) (td : TableData V E) (key : Bytes) :
    td.readVisibleOne tm (some tid) key =
      .ok (rowRead txn tid (chain td.versionStore key) (td.index.lookup key)) := by
  have hsnap : TableData.snapshotFor tm tid =
      .ok { txnId := tid, startTs := txn.startTs, activeTxns := txn.snapshotActive } := by
    simp [TableData.snapshotFor, TransactionManager.getSnapshot, h]
  simp only [TableData.readVisibleOne, hsnap, lookupForRead, readChain, rowRead]
  by_cases hempty : chain td.versionStore key = []
  · rw [if_pos hempty, if_pos hempty]
  · rw [if_neg hempty, if_neg hempty, firstVisible, newest]
    cases (chain td.versionStore key).reverse.find?
      (fun v => isVisible v tid txn.startTs txn.snapshotActive) <;> rfl

/-- Another copy of a row takes the place of the version: an older version
that is left, or the row in the primary index. -/
def Replaced (oldest : Timestamp) (txn : Transaction) (tid : TxnId) (td : TableData V E)
    (key row : Bytes) : Prop :=
  (∃ w, newest txn tid (left oldest (chain td.versionStore key)) = some w ∧
    serialize w.data = row) ∨
  ((∀ w ∈ chain td.versionStore key, expired oldest w = true) ∧ td.index.lookup key = some row)

/-- The transaction does not need what a vacuum takes away: the version that
it sees has not expired, and where it sees none and all have expired, the row
is not in the primary index. -/
structure Spared (oldest : Timestamp) (txn : Transaction) (tid : TxnId) (td : TableData V E)
    (key : Bytes) : Prop where
  seen : ∀ v, newest txn tid (chain td.versionStore key) = some v → expired oldest v = true →
    Replaced oldest txn tid td key (serialize v.data)
  unseen : newest txn tid (chain td.versionStore key) = none → chain td.versionStore key ≠ [] →
    (∀ v ∈ chain td.versionStore key, expired oldest v = true) → td.index.lookup key = none

lemma rowRead_left_iff (oldest : Timestamp) (txn : Transaction) (tid : TxnId)
    (td : TableData V E) (key : Bytes) :
    rowRead txn tid (left oldest (chain td.versionStore key)) (td.index.lookup key) =
      rowRead txn tid (chain td.versionStore key) (td.index.lookup key) ↔
    Spared oldest txn tid td key := by
  rw [rowRead, rowRead]
  generalize hc : chain td.versionStore key = c
  by_cases hempty : c = []
  · subst hempty
    refine iff_of_true (by simp [left]) ⟨?_,?_⟩
    · intro v hv
      rw [hc] at hv
      cases hv
    · intro _ hne
      exact absurd hc hne
  rw [if_neg hempty]
  cases hnew : newest txn tid c with
  | none =>
    rw [newest_left_none hnew, map_none]
    constructor
    · intro h
      refine ⟨fun v hv => ?_,fun _ _ hall => ?_⟩
      · rw [hc, hnew] at hv
        cases hv
      · rw [hc, ← left_eq_nil] at hall
        rwa [if_pos hall] at h
    · intro h
      split
      · rename_i hleft
        rw [left_eq_nil] at hleft
        exact h.unseen (hc ▸ hnew) (hc ▸ hempty) (hc ▸ hleft)
      · rfl
  | some v =>
    rw [map_some]
    constructor
    · intro h
      refine ⟨fun w hw hexp => ?_,fun hnone => ?_⟩
      · rw [hc, hnew] at hw
        cases hw
        rw [Replaced, hc]
        split at h
        · rename_i hleft
          exact .inr ⟨(left_eq_nil oldest c).mp hleft,h⟩
        · exact .inl (map_eq_some_iff.mp h)
      · rw [hc, hnew] at hnone
        cases hnone
    · intro h
      by_cases hexp : expired oldest v = true
      · have hrep := h.seen v (hc ▸ hnew) hexp
        rw [Replaced, hc] at hrep
        rcases hrep with ⟨w,hw,hrow⟩ | ⟨hall,hrow⟩
        · have hne : left oldest c ≠ [] := by
            intro hnil
            rw [hnil] at hw
            cases hw
          rw [if_neg hne, hw, map_some, hrow]
        · rw [if_pos ((left_eq_nil oldest c).mpr hall), hrow]
      · have hkept := newest_left_some hnew (by simpa using hexp : expired oldest v = false)
        have hne : left oldest c ≠ [] := by
          intro hnil
          rw [hnil] at hkept
          cases hkept
        rw [if_neg hne, hkept, map_some]

def SparesAll (e : Engine V E) : Prop :=
  ∀ tid txn, e.tm.activeTxns.lookup tid = some txn → ∀ table td, e.tables.lookup table = some td →
    ∀ key, Spared e.tm.oldestActiveStartTs txn tid td key

section
open Integers

/-- Transactions 1 and 2 begin, and 1 deletes the row and commits. -/
def deletedBeside : Engine Value Expr := executeAll Expr.evaluator (fun _ => 0)
    (engine (AList.insert "t" (table (schema "t" []) [] [(1,10)]) ∅) none)
    [(.begin none,none), (.begin none,none),
      (.dml (.delete (deleteFrom "t" (equals "id" 1))),some 1), (.commit,some 1)]

end

end ByteDB.Engine
