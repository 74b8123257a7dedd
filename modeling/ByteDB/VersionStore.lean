import ByteDB.Transaction

/-!
# The version store

Each key has a chain of versions, the newest last. A version carries the
transaction that created it and the one that deleted it, each with the start
timestamp of that transaction. The shards of the store are one map here.
-/

set_option autoImplicit false

namespace ByteDB
open ByteDB.Assoc

structure VersionedTuple (α : Type) where
  data : α
  createdBy : TxnId
  deletedBy : Option TxnId
  createdTs : Timestamp
  deletedTs : Option Timestamp
  deriving DecidableEq, Repr

def VersionedTuple.fresh {α : Type} (data : α) (txnId : TxnId) (ts : Timestamp) :
    VersionedTuple α where
  data := data
  createdBy := txnId
  deletedBy := none
  createdTs := ts
  deletedTs := none

inductive ReadResult (α : Type) where
  | visible (data : α)
  | tombstone
  | noVersions
  deriving DecidableEq, Repr

def isVisible {α : Type} (version : VersionedTuple α) (txnId : TxnId) (snapshotTs : Timestamp)
    (activeTxns : List TxnId) : Bool :=
  if version.createdBy = txnId then
    version.deletedBy = none ∨ version.deletedBy = some txnId
  else if version.createdBy ∈ activeTxns then false
  else if snapshotTs < version.createdTs then false
  else
    match version.deletedBy with
    | none => true
    | some deletedBy =>
      if deletedBy = txnId then false
      else if deletedBy ∈ activeTxns then true
      else !(version.deletedTs.any (· ≤ snapshotTs))

abbrev Chain (α : Type) := List (VersionedTuple α)

abbrev VersionStore (α : Type) := Map Bytes (Chain α)

namespace VersionStore
variable {α : Type}

def new : VersionStore α := ∅

def chain (vs : VersionStore α) (key : Bytes) : Chain α := (vs.lookup key).getD []

def insert (vs : VersionStore α) (key : Bytes) (tuple : α) (txnId : TxnId) (ts : Timestamp) :
    VersionStore α :=
  AList.insert key (chain vs key++[.fresh tuple txnId ts]) vs

section
variable (latest : VersionedTuple α) (txnId : TxnId)

/-- The checks on the latest version that `try_delete` and `try_update` make
after they have looked at its deleter. -/
def conflicts (snapshotTs : Timestamp) (activeTxns : List TxnId) : Bool :=
  (latest.createdBy ≠ txnId ∧ latest.createdBy ∈ activeTxns) ∨
  (latest.createdBy ≠ txnId ∧ snapshotTs < latest.createdTs) ∨
  (latest.deletedBy ≠ some txnId ∧ latest.deletedTs.any (snapshotTs < ·))

def deleterActive (activeTxns : List TxnId) : Bool :=
  latest.deletedBy.any (fun deleter => deleter ≠ txnId ∧ deleter ∈ activeTxns)

def deletedByOther : Bool :=
  latest.deletedBy.any (fun deleter => deleter ≠ txnId)

end

section
variable (vs : VersionStore α) (key : Bytes)

def tryDelete (txnId : TxnId) (ts snapshotTs : Timestamp)
    (activeTxns : List TxnId) : VersionStore α × Except CoreError Bool :=
  match (chain vs key).getLast? with
  | none => (vs,.ok false)
  | some latest =>
    if deleterActive latest txnId activeTxns then (vs,.error .writeConflict)
    else if deletedByOther latest txnId then (vs,.ok false)
    else if conflicts latest txnId snapshotTs activeTxns then (vs,.error .writeConflict)
    else
      (AList.insert key ((chain vs key).dropLast ++
        [{ latest with deletedBy := some txnId, deletedTs := some ts }]) vs,.ok true)

def ensureBase (committed : α) : VersionStore α :=
  if chain vs key = [] then
    AList.insert key [.fresh committed 0 0] vs
  else vs

def tryUpdate (newTuple : α) (txnId : TxnId) (ts snapshotTs : Timestamp) (activeTxns : List TxnId) :
    VersionStore α × Except CoreError Unit :=
  if (chain vs key).getLast?.any (fun latest =>
      deleterActive latest txnId activeTxns || conflicts latest txnId snapshotTs activeTxns) then
    (vs,.error .writeConflict)
  else (insert vs key newTuple txnId ts,.ok ())

end

section
variable (chain : Chain α) (txnId : TxnId) (snapshotTs : Timestamp) (activeTxns : List TxnId)

def firstVisible : Option α :=
  (chain.reverse.find? (fun v => isVisible v txnId snapshotTs activeTxns)).map VersionedTuple.data

def readChain : ReadResult α :=
  if chain = [] then .noVersions
  else
    match firstVisible chain txnId snapshotTs activeTxns with
    | some data => .visible data
    | none => .tombstone

end

def lookupForRead (vs : VersionStore α) (key : Bytes) (txnId : TxnId) (snapshotTs : Timestamp)
    (activeTxns : List TxnId) : ReadResult α :=
  readChain (chain vs key) txnId snapshotTs activeTxns

/-- For each key with versions, the visible one if there is any. -/
def snapshotResolved (vs : VersionStore α) (txnId : TxnId) (snapshotTs : Timestamp)
    (activeTxns : List TxnId) : List (Bytes × Option α) :=
  vs.entries.map (fun e => (e.1,firstVisible e.2 txnId snapshotTs activeTxns))

def gcKeeps (oldestActiveTs : Timestamp) (abortedTxns : List TxnId) (v : VersionedTuple α) : Bool :=
  v.createdBy ∉ abortedTxns ∧ ¬ v.deletedTs.any (· < oldestActiveTs)

def nonempty (chain : Chain α) : Option (Chain α) := if chain = [] then none else some chain

def gcWithAborted (vs : VersionStore α) (oldestActiveTs : Timestamp) (abortedTxns : List TxnId) :
    VersionStore α :=
  retain vs (fun _ chain => nonempty (chain.filter (gcKeeps oldestActiveTs abortedTxns)))

def restore (txnId : TxnId) (v : VersionedTuple α) : VersionedTuple α :=
  if v.deletedBy = some txnId then { v with deletedBy := none, deletedTs := none } else v

def rollbackChain (txnId : TxnId) (chain : Chain α) : Chain α :=
  (chain.map (restore txnId)).filter (fun v => v.createdBy ≠ txnId)

section
variable (vs : VersionStore α)

def rollbackTxn (txnId : TxnId) : VersionStore α :=
  retain vs (fun _ chain => nonempty (rollbackChain txnId chain))

def keyCount : ℕ := vs.entries.length

lemma chain_insert (key l : Bytes) (c : Chain α) :
    chain (AList.insert key c vs) l = if l = key then c else chain vs l := by
  rw [chain, lookup_insert_eq]
  by_cases h : l = key
  · simp [h]
  · simp [h, chain]

lemma chain_retain (f : Chain α → Chain α) (key : Bytes) (hf : f [] = []) :
    chain (retain vs (fun _ c => nonempty (f c))) key = f (chain vs key) := by
  rw [chain, chain, lookup_retain]
  cases vs.lookup key with
  | none => simp [hf]
  | some c =>
    by_cases h : f c = []
    · simp [nonempty, h]
    · simp [nonempty, h]

lemma chain_rollback (txnId : TxnId) (key : Bytes) :
    chain (rollbackTxn vs txnId) key = rollbackChain txnId (chain vs key) :=
  chain_retain vs (rollbackChain txnId) key rfl

lemma chain_gc (oldestActiveTs : Timestamp) (abortedTxns : List TxnId) (key : Bytes) :
    chain (gcWithAborted vs oldestActiveTs abortedTxns) key =
      (chain vs key).filter (gcKeeps oldestActiveTs abortedTxns) :=
  chain_retain vs (fun c => c.filter (gcKeeps oldestActiveTs abortedTxns)) key rfl

lemma chain_push (key : Bytes) (tuple : α) (txnId : TxnId) (ts : Timestamp) :
    chain (insert vs key tuple txnId ts) key = chain vs key++[.fresh tuple txnId ts] := by
  rw [insert, chain_insert, if_pos rfl]

end

variable {vs : VersionStore α} {key : Bytes} {txnId : TxnId} {ts snapshotTs : Timestamp}
  {activeTxns : List TxnId} {err : CoreError}

lemma tryUpdate_error {newTuple : α}
    (h : (tryUpdate vs key newTuple txnId ts snapshotTs activeTxns).2 = .error err) :
    tryUpdate vs key newTuple txnId ts snapshotTs activeTxns = (vs,.error err) := by
  rw [tryUpdate] at h ⊢
  split
  · rename_i hc
    rw [if_pos hc] at h
    rw [← h]
  · rename_i hc
    rw [if_neg hc] at h
    cases h

lemma tryDelete_cases (vs : VersionStore α) (key : Bytes) (txnId : TxnId)
    (ts snapshotTs : Timestamp) (activeTxns : List TxnId) :
    (∃ r, tryDelete vs key txnId ts snapshotTs activeTxns = (vs,r) ∧ r ≠ .ok true) ∨
    ∃ pre latest, chain vs key = pre++[latest] ∧ deletedByOther latest txnId = false ∧
      conflicts latest txnId snapshotTs activeTxns = false ∧
      tryDelete vs key txnId ts snapshotTs activeTxns = (AList.insert key
        (pre++[{ latest with deletedBy := some txnId, deletedTs := some ts }]) vs,.ok true) := by
  fun_cases tryDelete vs key txnId ts snapshotTs activeTxns with
  | case5 latest hlast _ hother hconf =>
    obtain ⟨pre,hchain⟩ := List.getLast?_eq_some_iff.mp hlast
    refine .inr ⟨pre,latest,hchain,by simpa using hother,by simpa using hconf,?_⟩
    rw [hchain, List.dropLast_concat]
  | _ => exact .inl ⟨_,rfl,by simp⟩

lemma tryDelete_error (h : (tryDelete vs key txnId ts snapshotTs activeTxns).2 = .error err) :
    tryDelete vs key txnId ts snapshotTs activeTxns = (vs,.error err) := by
  rcases tryDelete_cases vs key txnId ts snapshotTs activeTxns with
    ⟨r,hr,-⟩ | ⟨_,_,-,-,-,hr⟩
  · rw [hr] at h ⊢
    rw [← h]
  · rw [hr] at h
    cases h

lemma mem_tryDelete {l : Bytes} {v : VersionedTuple α}
    (hv : v ∈ chain (tryDelete vs key txnId ts snapshotTs activeTxns).1 l) :
    ∃ w ∈ chain vs l, v = w ∨ v = { w with deletedBy := some txnId, deletedTs := some ts } := by
  rcases tryDelete_cases vs key txnId ts snapshotTs activeTxns with
    ⟨r,hr,-⟩ | ⟨pre,latest,hchain,-,-,hr⟩
  · rw [hr] at hv
    exact ⟨v,hv,.inl rfl⟩
  rw [hr, chain_insert] at hv
  split at hv
  · rename_i hl
    rw [hl, hchain]
    rcases List.mem_append.mp hv with hv | hv
    · exact ⟨v,List.mem_append_left _ hv,.inl rfl⟩
    · exact ⟨latest,by simp,.inr (List.mem_singleton.mp hv)⟩
  · exact ⟨v,hv,.inl rfl⟩

lemma ensureBase_of_chain (h : chain vs key ≠ [])
    (committed : α) : ensureBase vs key committed = vs := by
  rw [ensureBase, if_neg h]

end VersionStore

end ByteDB
