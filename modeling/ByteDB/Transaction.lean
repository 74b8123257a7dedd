import ByteDB.Assoc
import ByteDB.Bytes

/-!
# The transaction manager

One clock gives start and commit timestamps. A transaction remembers which
transactions were active when it began; serializable transactions also carry
their reads, scans and writes and two conflict flags. The counters are
unbounded here and deadlines are left out.
-/

set_option autoImplicit false

namespace ByteDB
open ByteDB.Assoc

abbrev TxnId := ℕ
abbrev Timestamp := ℕ
abbrev RwKey := String × Bytes

inductive CoreError where
  | transactionNotFound (id : TxnId)
  | transactionAborted (id : TxnId)
  | deadlock
  | serializationConflict
  | writeConflict
  | lockTimeout (id : TxnId)
  | internal (message : String)
  deriving DecidableEq, Repr

def CoreError.message : CoreError → String
  | .transactionNotFound id => "Transaction " ++ toString id ++ " not found"
  | .transactionAborted id => "Transaction " ++ toString id ++ " aborted"
  | .deadlock => "Deadlock detected"
  | .serializationConflict => "Serialization conflict"
  | .writeConflict => "Write conflict: row was modified by concurrent transaction"
  | .lockTimeout id => "Lock wait timeout for txn " ++ toString id
  | .internal message => message

/-- The side of a read-write dependency on which a transaction stands: the
writer has it incoming, the reader outgoing. -/
inductive Side where
  | incoming
  | outgoing
  deriving DecidableEq, Repr

def Side.opposite : Side → Side
  | .incoming => .outgoing
  | .outgoing => .incoming

structure SsiState where
  startTs : Timestamp
  reads : Finset RwKey
  scanned : Finset String
  writes : Finset RwKey
  inConflict : Bool
  outConflict : Bool
  aborted : Bool
  deriving DecidableEq

namespace SsiState

def new (startTs : Timestamp) : SsiState where
  startTs := startTs
  reads := ∅
  scanned := ∅
  writes := ∅
  inConflict := false
  outConflict := false
  aborted := false

variable (s : SsiState)

def isDangerous : Bool := s.aborted

def isPivot : Bool := !s.aborted && s.inConflict && s.outConflict

def abort : SsiState := { s with aborted := true }

def flag : Side → Bool
  | .incoming => s.inConflict
  | .outgoing => s.outConflict

def raise : Side → SsiState
  | .incoming => { s with inConflict := true }
  | .outgoing => { s with outConflict := true }

/-- The end of every conflict check: a pivot is aborted. -/
def abortPivot : SsiState := if s.isPivot then s.abort else s

end SsiState

structure CommittedSsi where
  commitTs : Timestamp
  reads : Finset RwKey
  scanned : Finset String
  writes : Finset RwKey
  deriving DecidableEq

inductive IsolationLevel where
  | readCommitted
  | repeatableRead
  | serializable
  deriving DecidableEq, Repr

inductive TxnStatus where
  | active
  | committed
  | aborted
  deriving DecidableEq, Repr

structure Transaction where
  id : TxnId
  isolation : IsolationLevel
  startTs : Timestamp
  status : TxnStatus
  snapshotActive : List TxnId
  deriving DecidableEq, Repr

structure Snapshot where
  txnId : TxnId
  startTs : Timestamp
  activeTxns : List TxnId
  deriving DecidableEq, Repr

structure TransactionManager where
  nextTxnId : TxnId
  nextTimestamp : Timestamp
  activeTxns : Map TxnId Transaction
  committedTxns : Map TxnId Timestamp
  ssi : Map TxnId SsiState
  ssiRecent : Map TxnId CommittedSsi

namespace TransactionManager

def new : TransactionManager where
  nextTxnId := 1
  nextTimestamp := 1
  activeTxns := ∅
  committedTxns := ∅
  ssi := ∅
  ssiRecent := ∅

section
variable (tm : TransactionManager)

def begin (isolation : IsolationLevel) : TransactionManager × TxnId :=
  let txnId := tm.nextTxnId
  let startTs := tm.nextTimestamp
  let txn : Transaction :=
    { id := txnId, isolation := isolation, startTs := startTs, status := .active
      snapshotActive := tm.activeTxns.keys }
  ({ tm with
      nextTxnId := txnId+1
      nextTimestamp := startTs+1
      activeTxns := tm.activeTxns.insert txnId txn
      ssi := if isolation = .serializable then tm.ssi.insert txnId (SsiState.new startTs)
        else tm.ssi },txnId)

def oldest (starts : List Timestamp) : Timestamp := starts.min?.getD tm.nextTimestamp

def oldestActiveSerializableStart : Timestamp :=
  tm.oldest (tm.ssi.entries.map (fun e => e.2.startTs))

def oldestActiveStartTs : Timestamp := tm.oldest (tm.activeTxns.entries.map (fun e => e.2.startTs))

end

/-- After a conflict of `me` with `other` one of them may be a pivot; `me` is
looked at first. -/
def settle (ssi : Map TxnId SsiState) (me other : TxnId) : Map TxnId SsiState :=
  if (ssi.lookup me).any SsiState.isPivot then adjust ssi me SsiState.abort
  else adjust ssi other SsiState.abortPivot

/-- One turn of the loop over the other transactions. -/
def conflictTurn (me : TxnId) (side : Side) (hit : SsiState → Bool) (ssi : Map TxnId SsiState)
    (oid : TxnId) : Map TxnId SsiState :=
  if oid = me then ssi
  else if (ssi.lookup oid).any hit then
    settle (adjust (adjust ssi me (·.raise side)) oid (·.raise side.opposite)) me oid
  else ssi

/-- One turn of the loop over the transactions committed recently. -/
def conflictRecent (side : Side) (hit : CommittedSsi → Bool) (me : SsiState)
    (c : CommittedSsi) : SsiState :=
  if me.startTs < c.commitTs ∧ hit c then (me.raise side).abortPivot else me

variable (tm : TransactionManager)

def recentValues : List CommittedSsi := tm.ssiRecent.entries.map (fun e => e.2)

/-- The common course of `ssi_record_read` and `ssi_record_write`: note the
access, then look for conflicts among the active transactions and among those
committed recently. -/
def ssiRecord (txnId : TxnId) (side : Side)
    (note : SsiState → SsiState) (hit : SsiState → Bool) (hitRecent : CommittedSsi → Bool) :
    TransactionManager :=
  match tm.ssi.lookup txnId with
  | none => tm
  | some _ =>
    let ssi := adjust tm.ssi txnId note
    let ssi := ssi.keys.foldl (conflictTurn txnId side hit) ssi
    { tm with
      ssi := adjust ssi txnId (fun me => tm.recentValues.foldl (conflictRecent side hitRecent) me) }

def ssiRecordRead (txnId : TxnId) (table : String) (key : Bytes) : TransactionManager :=
  tm.ssiRecord txnId .outgoing (fun me => { me with reads := insert (table,key) me.reads })
    (fun other => (table,key) ∈ other.writes) (fun c => (table,key) ∈ c.writes)

def ssiRecordPredicate (txnId : TxnId) (table : String) : TransactionManager :=
  match tm.ssi.lookup txnId with
  | none => tm
  | some _ =>
    { tm with
      ssi := adjust tm.ssi txnId (fun me => { me with scanned := insert table me.scanned }) }

def ssiRecordWrite (txnId : TxnId) (table : String) (key : Bytes) : TransactionManager :=
  tm.ssiRecord txnId .incoming (fun me => { me with writes := insert (table,key) me.writes })
    (fun other => (table,key) ∈ other.reads ∨ table ∈ other.scanned)
    (fun c => (table,key) ∈ c.reads ∨ table ∈ c.scanned)

def gcSsiRecent : TransactionManager := { tm with
    ssiRecent := retain tm.ssiRecent
      (fun _ c => if tm.oldestActiveSerializableStart ≤ c.commitTs then some c else none) }

/-- The part of `commit` behind the check of the conflict flags. -/
def commitSsi (txnId : TxnId) (commitTs : Timestamp) (state : SsiState) : TransactionManager :=
  let recent := if state.writes = ∅ then tm.ssiRecent else
    tm.ssiRecent.insert txnId
      { commitTs := commitTs, reads := state.reads, scanned := state.scanned
        writes := state.writes }
  gcSsiRecent { tm with ssiRecent := recent, ssi := tm.ssi.erase txnId }

def commit (txnId : TxnId) : TransactionManager × Except CoreError Timestamp :=
  if (tm.ssi.lookup txnId).any SsiState.isDangerous then
    ({ tm with ssi := tm.ssi.erase txnId, activeTxns := tm.activeTxns.erase txnId },
      .error .serializationConflict)
  else
    match tm.activeTxns.lookup txnId with
    | none => (tm,.error (.transactionNotFound txnId))
    | some txn =>
      if txn.status ≠ .active then (tm,.error (.transactionAborted txnId))
      else
        let commitTs := tm.nextTimestamp
        let tm' : TransactionManager := { tm with
            nextTimestamp := commitTs+1
            activeTxns := tm.activeTxns.erase txnId
            committedTxns := tm.committedTxns.insert txnId commitTs }
        match tm.ssi.lookup txnId with
        | none => (tm',.ok commitTs)
        | some state => (commitSsi tm' txnId commitTs state,.ok commitTs)

def abort (txnId : TxnId) : TransactionManager × Except CoreError Unit :=
  let tm' := { tm with ssi := tm.ssi.erase txnId }
  match tm.activeTxns.lookup txnId with
  | none => (tm',.error (.transactionNotFound txnId))
  | some _ =>
    let tm' := { tm' with activeTxns := tm.activeTxns.erase txnId }
    if (tm.ssi.lookup txnId).isSome then (gcSsiRecent tm',.ok ()) else (tm',.ok ())

def gcCommitted (oldestActiveTs : Timestamp) : TransactionManager := { tm with
    committedTxns := retain tm.committedTxns
      (fun _ ts => if oldestActiveTs ≤ ts then some ts else none) }

def getSnapshot (txnId : TxnId) : Except CoreError Snapshot :=
  match tm.activeTxns.lookup txnId with
  | none => .error (.transactionNotFound txnId)
  | some txn => .ok { txnId := txnId, startTs := txn.startTs, activeTxns := txn.snapshotActive }

def isCommitted (txnId : TxnId) : Bool := (tm.committedTxns.lookup txnId).isSome

def isActive (txnId : TxnId) : Bool := (tm.activeTxns.lookup txnId).isSome

lemma commit_active (tid : TxnId) : (tm.commit tid).1.nextTxnId = tm.nextTxnId ∧
    ((tm.commit tid).1.activeTxns = tm.activeTxns ∨
      (tm.commit tid).1.activeTxns = tm.activeTxns.erase tid) := by
  rw [commit]
  split
  · exact ⟨rfl,.inr rfl⟩
  split
  · exact ⟨rfl,.inl rfl⟩
  split
  · exact ⟨rfl,.inl rfl⟩
  · cases tm.ssi.lookup tid with
    | none | some => exact ⟨rfl,.inr rfl⟩

lemma abort_active (tid : TxnId) : (tm.abort tid).1.nextTxnId = tm.nextTxnId ∧
    ((tm.abort tid).1.activeTxns = tm.activeTxns ∨
      (tm.abort tid).1.activeTxns = tm.activeTxns.erase tid) := by
  rw [abort]
  split
  · exact ⟨rfl,.inl rfl⟩
  split
  · exact ⟨rfl,.inr rfl⟩
  · exact ⟨rfl,.inr rfl⟩

end TransactionManager

end ByteDB
