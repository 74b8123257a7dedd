import ByteDB.Integers
import ByteDB.Runs
import ByteDB.Timeline
import ByteDB.VersionStamps

/-!
# Versions of aborted transactions

COMMIT and ROLLBACK are made in two steps each, between which statements of
other sessions may run. A COMMIT that is refused takes its transaction off the
active list first and removes its versions later, and the versions of a
transaction are removed only from the tables that its undo log names. Without
these two a transaction never reads a version of one that ends aborted.
-/

set_option autoImplicit false

namespace ByteDB.AbortedVersions
open ByteDB.Assoc ByteDB.TransactionManager ByteDB.Engine List Prod

variable {V E Q : Type}

inductive Ending where
  | committed
  | refused
  | undone
  deriving DecidableEq, Repr

/-- The engine, with the transactions begun so far, those in the middle of
their COMMIT or ROLLBACK, and those that have been aborted. -/
structure State (V E : Type) where
  engine : Engine V E
  begun : List Transaction
  ending : List (TxnId × Ending)
  aborted : List TxnId

inductive Step (E Q : Type) where
  | statement (stmt : Statement E Q) (txnId : Option TxnId)
  /-- `TransactionManager::commit`, the first step of COMMIT. -/
  | commit (tid : TxnId)
  | finishCommit (tid : TxnId)
  | undoCommit (tid : TxnId)
  /-- `rollback_txn_effects`, the first step of ROLLBACK. -/
  | undo (tid : TxnId)
  | abort (tid : TxnId)

def State.start (e : Engine V E) : State V E where
  engine := e
  begun := []
  ending := []
  aborted := []

namespace State

variable (s : State V E)

/-- A session in the middle of COMMIT or ROLLBACK runs no other statement. -/
def busy (txnId : Option TxnId) : Bool := txnId.any (fun tid => tid ∈ s.ending.map Prod.fst)

def leave (tid : TxnId) (how : Ending) : State V E := { s with ending := s.ending.erase (tid,how) }

/-- The transaction is no longer active; it had been if it ends by this. -/
def abandon (tid : TxnId) : List TxnId :=
  if s.engine.tm.isActive tid then tid::s.aborted else s.aborted

end State

variable {tid : TxnId}

section
variable [Codec V] (ev : Evaluator V E Q) (crc : Bytes → UInt32)

def undoEffects (tid : TxnId) (e : Engine V E) : Engine V E :=
  appendWal (.abort tid) (rollbackTxnEffects tid e)

def keepEffects (tid : TxnId) (e : Engine V E) : Engine V E :=
  appendWal (.commit tid) (commitTxnDeltas crc tid { e with undo := e.undo.erase tid })

variable (s : State V E)

def runStatement (stmt : Statement E Q) (txnId : Option TxnId) : State V E :=
  { s with engine := (execute ev crc stmt txnId s.engine).2 }

def whole (txnId : Option TxnId) : Statement E Q → Option (State V E)
  | .commit | .rollback => none
  | .begin isolation =>
    some { runStatement ev crc s (.begin isolation) txnId with
      begun := s.begun++[begunTxn s.engine.tm (isolation.getD .readCommitted)] }
  | stmt => some (runStatement ev crc s stmt txnId)

def step : Step E Q → Option (State V E)
  | .statement stmt txnId => if s.busy txnId then none else whole ev crc s txnId stmt
  | .commit tid =>
    if s.busy (some tid) then none
    else
      match s.engine.tm.commit tid with
      | (tm,.ok _) =>
        some { s with engine := { s.engine with tm := tm }, ending := (tid,.committed)::s.ending }
      | (tm,.error _) =>
        some { s with
          engine := { s.engine with tm := tm }
          ending := (tid,.refused)::s.ending
          aborted := s.abandon tid }
  | .finishCommit tid =>
    if (tid,.committed) ∈ s.ending then
      some { s.leave tid .committed with engine := keepEffects crc tid s.engine }
    else none
  | .undoCommit tid =>
    if (tid,.refused) ∈ s.ending then
      some { s.leave tid .refused with engine := undoEffects tid s.engine }
    else none
  | .undo tid =>
    if s.busy (some tid) then none
    else
      some { s with engine := undoEffects tid s.engine, ending := (tid,.undone)::s.ending }
  | .abort tid =>
    if (tid,.undone) ∈ s.ending then
      some { s.leave tid .undone with
        engine := { s.engine with tm := (s.engine.tm.abort tid).1 }
        aborted := s.abandon tid }
    else none

lemma commit_in_steps (hbusy : s.busy (some tid) = false) :
    ∃ next s', Runs.run (step ev crc) s [.commit tid, next] = some s' ∧
      s'.engine = (execCommit crc (some tid) s.engine).2 := by
  rw [execCommit]
  cases hc : s.engine.tm.commit tid with
  | mk tm r =>
    cases r with
    | ok ts =>
      refine ⟨.finishCommit tid,?_⟩
      simp only [Runs.run, step, hbusy, hc, Bool.false_eq_true, if_false, Option.bind_eq_bind,
        Option.bind_some, mem_cons, true_or, if_true]
      exact ⟨_,rfl,rfl⟩
    | error err =>
      refine ⟨.undoCommit tid,?_⟩
      simp only [Runs.run, step, hbusy, hc, Bool.false_eq_true, if_false, Option.bind_eq_bind,
        Option.bind_some, mem_cons, true_or, if_true]
      exact ⟨_,rfl,rfl⟩

lemma rollback_in_steps (hbusy : s.busy (some tid) = false) :
    ∃ s', Runs.run (step ev crc) s [.undo tid, .abort tid] = some s' ∧
      s'.engine = (execRollback (some tid) s.engine).2 := by
  simp only [Runs.run, step, hbusy, Bool.false_eq_true, if_false, Option.bind_eq_bind,
    Option.bind_some, mem_cons, true_or, if_true]
  refine ⟨_,rfl,?_⟩
  rw [execRollback]
  dsimp only [undoEffects]
  cases (appendWal (.abort tid) (rollbackTxnEffects tid s.engine)).tm.abort tid with
  | mk tm r => cases r <;> rfl

end

def found {α : Type} (c : Chain α) (R : Transaction) : Option (VersionedTuple α) :=
  c.reverse.find? (fun v => isVisible v R.id R.startTs R.snapshotActive)

/-- `lookup_for_read` or `snapshot_resolved` returns the version to a
transaction that is active. -/
def Returned (s : State V E) (R : Transaction) (v : VersionedTuple (List V)) : Prop :=
  s.engine.tm.activeTxns.lookup R.id = some R ∧ ∃ t td key, s.engine.tables.lookup t = some td ∧
      found (VersionStore.chain td.versionStore key) R = some v

/-- What a step must meet: nobody begins while a refused COMMIT has still to
remove versions, and those that a ROLLBACK or a refused COMMIT has to remove
are in tables that its undo log names. -/
def Guarded (s : State V E) : Step E Q → Prop
  | .statement (.begin _) _ =>
    ∀ tid, (tid,.refused) ∈ s.ending → s.engine.tm.isCommitted tid = false →
      ∀ time, ¬ HasStamp s.engine (tid,time)
  | .undoCommit tid | .undo tid => s.engine.tm.isCommitted tid = true ∨ Covered s.engine tid
  | _ => True

/-- A transaction whose versions are in a table is active or committed, or its
COMMIT has been refused and those that see its end have it on their lists. -/
structure Inv (s : State V E) : Prop where
  timeline : Timeline s.engine.tm s.begun
  stamped : ∀ u time, HasStamp s.engine (u,time) →
    u = 0 ∨ ∃ T ∈ s.begun, T.id = u ∧ T.startTs = time
  hidden : ∀ T ∈ s.begun, HasStamp s.engine (T.id,T.startTs) →
    s.engine.tm.live T.id = true ∨ (T.id,.refused) ∈ s.ending ∧
      ∀ R, s.engine.tm.activeTxns.lookup R.id = some R → T.startTs < R.startTs →
        T.id ∈ R.snapshotActive
  undone : ∀ T ∈ s.begun, (T.id,.undone) ∈ s.ending →
    s.engine.tm.isCommitted T.id = true ∨ ¬ HasStamp s.engine (T.id,T.startTs)
  aborted : ∀ tid ∈ s.aborted, (∃ T ∈ s.begun, T.id = tid) ∧ s.engine.tm.live tid = false

section
variable {s : State V E} {tm : TransactionManager}

lemma live_of_committed (h : tm.isCommitted tid = true) : tm.live tid = true := by
  rw [live, h, Bool.or_true]

variable {e : Engine V E}

lemma inv_start (htm : e.tm = .new) (hnone : ∀ st, ¬ HasStamp e st) : Inv (State.start e) where
  timeline := by
    rw [State.start, htm]
    exact timeline_new
  stamped _ _ hs := absurd hs (hnone _)
  hidden _ _ hs := absurd hs (hnone _)
  undone _ hT := by cases hT
  aborted _ hin := by cases hin

variable {txnId : Option TxnId}

lemma Inv.versioned (h : Inv s) (hbusy : s.busy txnId = false) (hv : Versioned s.engine txnId e) : Inv { s with engine := e } := by
  obtain ⟨ssi,hm⟩ := hv.manager
  have hlive : ∀ u, e.tm.live u = s.engine.tm.live u := by
    intro u
    rw [hm]
    rfl
  constructor
  · rw [hm]
    exact h.timeline.of_ssi ssi s.engine.tm.ssiRecent
  · intro u time hs
    rcases hv.stamps _ hs with hold | hbase | ⟨tid,T,-,hT,heq⟩
    · exact h.stamped u time hold
    · exact .inl (mk.inj hbase).1
    · obtain ⟨rfl,rfl⟩ := mk.inj heq
      obtain ⟨hmem,hid,-⟩ := h.timeline.active_begun _ T hT
      exact .inr ⟨T,hmem,hid,rfl⟩
  · intro T hT hs
    rcases hv.stamps _ hs with hold | hbase | ⟨tid,U,-,hU,heq⟩
    · refine (h.hidden T hT hold).imp (fun hl => (hlive _).trans hl) (fun hr => ⟨hr.1,?_⟩)
      intro R hR
      exact hr.2 R (by rwa [hm] at hR)
    · exact absurd (mk.inj hbase).1 (h.timeline.id_pos T hT).ne'
    · left
      rw [hlive, (mk.inj heq).1, live, isActive, hU]
      rfl
  · intro T hT hin
    refine (h.undone T hT hin).imp (fun hc => ?_) (fun hno hs => ?_)
    · rw [hm]
      exact hc
    rcases hv.stamps _ hs with hold | hbase | ⟨tid,U,htid,hU,heq⟩
    · exact hno hold
    · exact (h.timeline.id_pos T hT).ne' (mk.inj hbase).1
    · -- The session of a transaction that is being rolled back runs no statement.
      rw [State.busy, htid, Option.any_some, decide_eq_false_iff_not] at hbusy
      exact hbusy (mem_map.mpr ⟨_,hin,(mk.inj heq).1⟩)
  · intro tid hin
    obtain ⟨hbegun,hdead⟩ := h.aborted tid hin
    exact ⟨hbegun,(hlive _).trans hdead⟩

lemma Inv.fewer (h : Inv s) (hf : Fewer s.engine e) : Inv { s with engine := e } :=
  Inv.versioned h (show s.busy none = false from rfl)
    ⟨hf.manager,fun st hs => .inl (hf.stamps st hs)⟩

/-- A transaction has finished the second step of its COMMIT or ROLLBACK; if
the COMMIT was refused, its versions have been removed. -/
lemma Inv.leave (h : Inv s) (tid : TxnId) (how : Ending)
    (hclean : how = .refused → s.engine.tm.isCommitted tid = true ∨
      ∀ time, ¬ HasStamp s.engine (tid,time)) : Inv (s.leave tid how) where
  timeline := h.timeline
  stamped := h.stamped
  hidden T hT hs := by
    by_cases heq : (T.id,Ending.refused) = (tid,how)
    · obtain ⟨rfl,rfl⟩ := mk.inj heq
      rcases hclean rfl with hc | hno
      · exact .inl (live_of_committed hc)
      · exact absurd hs (hno _)
    · exact (h.hidden T hT hs).imp_right (fun hr => ⟨(mem_erase_of_ne heq).mpr hr.1,hr.2⟩)
  undone T hT hin := h.undone T hT (mem_of_mem_erase hin)
  aborted := h.aborted

lemma Inv.enter (h : Inv s) (tid : TxnId) (how : Ending)
    (hclean : how = .undone → s.engine.tm.isCommitted tid = true ∨
      ∀ time, ¬ HasStamp s.engine (tid,time)) :
    Inv { s with ending := (tid,how)::s.ending } where
  timeline := h.timeline
  stamped := h.stamped
  hidden T hT hs := (h.hidden T hT hs).imp_right (fun hr => ⟨mem_cons_of_mem _ hr.1,hr.2⟩)
  undone T hT hin := by
    rcases mem_cons.mp hin with heq | hin
    · obtain ⟨rfl,rfl⟩ := mk.inj heq
      exact (hclean rfl).imp_right (fun hno => hno _)
    · exact h.undone T hT hin
  aborted := h.aborted

lemma Inv.begin (h : Inv s) (isolation : IsolationLevel)
    (htm : e.tm = (s.engine.tm.begin isolation).1)
    (hstamps : ∀ st, HasStamp e st → HasStamp s.engine st)
    (hguard : ∀ tid, (tid,.refused) ∈ s.ending → s.engine.tm.isCommitted tid = false →
      ∀ time, ¬ HasStamp s.engine (tid,time)) :
    Inv { s with engine := e, begun := s.begun++[begunTxn s.engine.tm isolation] } := by
  have hlive : ∀ T ∈ s.begun, e.tm.live T.id = s.engine.tm.live T.id := by
    intro T hT
    rw [htm]
    exact live_begin _ isolation (h.timeline.id_lt T hT).ne
  have hnew : ∀ time, ¬ HasStamp s.engine (s.engine.tm.nextTxnId,time) := by
    intro time hs
    rcases h.stamped _ _ hs with h0 | ⟨T,hT,hid,-⟩
    · exact h.timeline.next_pos.ne' h0
    · exact (h.timeline.id_lt T hT).ne hid
  have hold : ∀ T ∈ s.begun++[begunTxn s.engine.tm isolation], HasStamp e (T.id,T.startTs) →
      T ∈ s.begun := by
    intro T hT hs
    rcases mem_append.mp hT with hT | hT
    · exact hT
    · rw [mem_singleton.mp hT] at hs
      exact absurd (hstamps _ hs) (hnew _)
  constructor
  · rw [htm]
    exact timeline_begin h.timeline isolation
  · intro u time hs
    refine (h.stamped u time (hstamps _ hs)).imp_right (fun ⟨T,hT,hid⟩ => ?_)
    exact ⟨T,mem_append_left _ hT,hid⟩
  · intro T hT hs
    have hT := hold T hT hs
    left
    rw [hlive T hT]
    rcases h.hidden T hT (hstamps _ hs) with hl | ⟨hr,-⟩
    · exact hl
    · cases hc : s.engine.tm.isCommitted T.id with
      | true => exact live_of_committed hc
      | false => exact absurd (hstamps _ hs) (hguard T.id hr hc _)
  · intro T hT hin
    by_cases hs : HasStamp e (T.id,T.startTs)
    · refine (h.undone T (hold T hT hs) hin).imp (fun hc => ?_) (fun hno h => hno (hstamps _ h))
      rw [htm]
      exact hc
    · exact .inr hs
  · intro tid hin
    obtain ⟨⟨T,hT,rfl⟩,hdead⟩ := h.aborted tid hin
    exact ⟨⟨T,mem_append_left _ hT,rfl⟩,(hlive T hT).trans hdead⟩

lemma Inv.committed (h : Inv s) {T : Transaction}
    {cts : Timestamp} (hT : s.engine.tm.activeTxns.lookup tid = some T)
    (he : Ended s.engine.tm tm tid (some cts)) : Inv { s with
      engine := { s.engine with tm := tm }
      ending := (tid,.committed)::s.ending } := by
  have hlive := fun u => (live_committed hT he u).1
  constructor
  · exact timeline_committed h.timeline hT he
  · exact h.stamped
  · intro U hU hs
    refine (h.hidden U hU hs).imp (fun hl => (hlive _).trans hl) (fun hr => ?_)
    refine ⟨mem_cons_of_mem _ hr.1,fun R hR => hr.2 R ?_⟩
    have hR : tm.activeTxns.lookup R.id = some R := hR
    rw [he.lookup] at hR
    split at hR
    · cases hR
    · exact hR
  · intro U hU hin
    rcases mem_cons.mp hin with heq | hin
    · cases heq
    · exact (h.undone U hU hin).imp_left (live_committed hT he U.id).2
  · intro u hin
    obtain ⟨hbegun,hdead⟩ := h.aborted u hin
    exact ⟨hbegun,(hlive u).trans hdead⟩

/-- A transaction that was active ends without a commit: by a COMMIT that is
refused, or by a ROLLBACK that has removed its versions. -/
lemma Inv.ended (h : Inv s) {T : Transaction}
    (hT : s.engine.tm.activeTxns.lookup tid = some T) (he : Ended s.engine.tm tm tid none)
    {ending : List (TxnId × Ending)}
    (hrefused : ∀ u, (u,.refused) ∈ s.ending → (u,.refused) ∈ ending)
    (hundone : ∀ u, (u,.undone) ∈ ending → (u,.undone) ∈ s.ending)
    (hown : (tid,.refused) ∈ ending ∨ ¬ HasStamp s.engine (T.id,T.startTs)) : Inv { s with
      engine := { s.engine with tm := tm }
      ending := ending
      aborted := tid::s.aborted } := by
  obtain ⟨hmem,hid,-⟩ := h.timeline.active_begun tid T hT
  have hlive := fun u => (live_aborted h.timeline hT he u).1
  have hactive : ∀ R, tm.activeTxns.lookup R.id = some R →
      s.engine.tm.activeTxns.lookup R.id = some R := by
    intro R hR
    rw [he.lookup] at hR
    split at hR
    · cases hR
    · exact hR
  constructor
  · exact timeline_aborted h.timeline he
  · exact h.stamped
  · intro U hU hs
    by_cases hUT : U.id = tid
    · -- Those that began later and are still active have it on their lists.
      obtain rfl := h.timeline.unique U hU T hmem (hUT.trans hid.symm)
      refine .inr ⟨hUT ▸ hown.resolve_right (fun hno => hno hs),fun R hR hlt => ?_⟩
      obtain ⟨hRmem,-,-⟩ := h.timeline.active_begun _ R (hactive R hR)
      exact (h.timeline.snapshot_active R hRmem U hU (hUT ▸ hT)).mpr hlt
    · refine (h.hidden U hU hs).imp (fun hl => ?_) (fun hr => ?_)
      · rw [hlive, hl, Bool.and_true]
        exact decide_eq_true hUT
      · exact ⟨hrefused _ hr.1,fun R hR => hr.2 R (hactive R hR)⟩
  · intro U hU hin
    refine (h.undone U hU (hundone _ hin)).imp_left (fun hc => ?_)
    exact (live_aborted h.timeline hT he U.id).2.trans hc
  intro u hin
  rcases mem_cons.mp hin with rfl | hin
  · refine ⟨⟨T,hmem,hid⟩,?_⟩
    rw [hlive]
    simp
  · obtain ⟨hbegun,hdead⟩ := h.aborted u hin
    refine ⟨hbegun,?_⟩
    rw [hlive, hdead, Bool.and_false]

lemma commit_inactive (h : tm.activeTxns.lookup tid = none) :
    ∃ ssi err, tm.commit tid = ({ tm with ssi := ssi },.error err) := by
  have herase : tm.activeTxns.erase tid = tm.activeTxns :=
    AList.ext (kerase_of_notMem_keys (AList.lookup_eq_none.mp h))
  rw [commit]
  split
  · rw [herase]
    exact ⟨_,_,rfl⟩
  · rw [h]
    exact ⟨tm.ssi,_,rfl⟩

variable (tm)

lemma commit_committed (tid : TxnId) {u : TxnId}
    (h : tm.isCommitted u = true) : (tm.commit tid).1.isCommitted u = true := by
  have hinsert : ∀ cts, ((tm.committedTxns.insert tid cts).lookup u).isSome = true := by
    intro cts
    rw [lookup_insert_eq]
    split
    · rfl
    · exact h
  rw [commit]
  split
  · exact h
  split
  · exact h
  split
  · exact h
  · cases tm.ssi.lookup tid with
    | none | some => exact hinsert _

lemma abort_committed (tid u : TxnId) : (tm.abort tid).1.isCommitted u = tm.isCommitted u := by
  rw [abort]
  cases tm.activeTxns.lookup tid with
  | none => rfl
  | some T =>
    dsimp only
    split <;> rfl

variable {tm}

lemma Inv.manager (h : Inv s) (ssi : Map TxnId SsiState) :
    Inv { s with engine := { s.engine with tm := { s.engine.tm with ssi := ssi } } } :=
  h.fewer ⟨⟨ssi,rfl⟩,fun _ hs => hs⟩

lemma Inv.returned (h : Inv s) {R : Transaction} {v : VersionedTuple (List V)}
    (hread : Returned s R v) (hne : v.createdBy ≠ R.id) :
    v.createdBy = 0 ∨ s.engine.tm.isCommitted v.createdBy = true := by
  obtain ⟨hR,t,td,key,htd,hfound⟩ := hread
  have hmem : v ∈ VersionStore.chain td.versionStore key :=
    mem_reverse.mp (mem_of_find?_eq_some hfound)
  have hvisible := find?_some hfound
  have hstamp : HasStamp s.engine (v.createdBy,v.createdTs) := .inl ⟨t,td,htd,key,v,hmem,rfl⟩
  obtain ⟨hRmem,-,-⟩ := h.timeline.active_begun _ R hR
  refine (h.stamped _ _ hstamp).imp_right (fun ⟨T,hT,hid,hts⟩ => ?_)
  have hseen : T.id ∉ R.snapshotActive ∧ T.startTs ≤ R.startTs := by
    rw [isVisible, if_neg hne] at hvisible
    split at hvisible
    · cases hvisible
    split at hvisible
    · cases hvisible
    · rw [hid, hts]
      exact ⟨‹_›,not_lt.mp ‹_›⟩
  have hlt : T.startTs < R.startTs := by
    refine lt_of_le_of_ne hseen.2 (fun heq => hne ?_)
    rw [← hid, h.timeline.start_inj hT hRmem heq]
  rw [← hid, ← hts] at hstamp
  rcases h.hidden T hT hstamp with hlive | ⟨-,hlisted⟩
  · have hbefore := (h.timeline.sees_iff hRmem hT hlive (hid ▸ hne)).mp hseen
    obtain ⟨cts,hcts,-⟩ := Option.any_eq_true _ _ |>.mp hbefore
    rw [← hid, isCommitted, hcts]
    rfl
  · exact absurd (hlisted R hR hlt) hseen.1

variable [Codec V] {ev : Evaluator V E Q} {crc : Bytes → UInt32}

lemma fewer_undoEffects (tid : TxnId) (e : Engine V E) : Fewer e (undoEffects tid e) :=
  (fewer_rollback tid e).trans (.of_same rfl rfl rfl)

lemma undoEffects_clean (h : e.tm.isCommitted tid = true ∨ Covered e tid) :
    (undoEffects tid e).tm.isCommitted tid = true ∨
      ∀ time, ¬ HasStamp (undoEffects tid e) (tid,time) := by
  refine h.imp (fun hc => ?_) (fun hcov time hs => rollback_clean hcov time hs)
  obtain ⟨ssi,hm⟩ := (fewer_undoEffects tid e).manager
  rw [hm]
  exact hc

lemma Inv.inner (h : Inv s) (hq : Quiet ev (fun _ => True) Fewer) (stmt : Statement E Q)
    (hstmt : Inner stmt) (hbusy : s.busy txnId = false) : Inv (runStatement ev crc s stmt txnId) :=
  h.versioned hbusy (execute_stamps crc hq hstmt txnId s.engine)

variable {s' : State V E}

lemma Inv.statement (h : Inv s) (hq : Quiet ev (fun _ => True) Fewer) {stmt : Statement E Q} (hguard : Guarded s (.statement stmt txnId))
    (hs : step ev crc s (.statement stmt txnId) = some s') : Inv s' := by
  rw [step] at hs
  split at hs
  · cases hs
  rename_i hbusy
  rw [Bool.not_eq_true] at hbusy
  cases stmt with
  | commit | rollback => cases hs
  | begin isolation =>
    cases hs
    exact h.begin (isolation.getD .readCommitted) rfl (fun st hst => hst) hguard
  | useDatabase name =>
    cases hs
    exact h.inner hq (.useDatabase name) trivial hbusy
  | query q =>
    cases hs
    exact h.inner hq (.query q) trivial hbusy
  | dml stmt =>
    cases hs
    exact h.inner hq (.dml stmt) trivial hbusy
  | ddl stmt =>
    cases hs
    exact h.inner hq (.ddl stmt) trivial hbusy

lemma Inv.commit (h : Inv s) (hs : step ev crc s (.commit tid) = some s') : Inv s' := by
  rw [step] at hs
  split at hs
  · cases hs
  cases hT : s.engine.tm.activeTxns.lookup tid with
  | none =>
    obtain ⟨ssi,err,hc⟩ := commit_inactive hT
    have hdead : s.abandon tid = s.aborted := by
      rw [State.abandon, isActive, hT]
      rfl
    rw [hc, hdead] at hs
    cases hs
    exact (h.manager ssi).enter tid .refused (fun hk => by cases hk)
  | some T =>
    have hlisted : s.abandon tid = tid::s.aborted := by
      rw [State.abandon, isActive, hT]
      rfl
    cases hc : s.engine.tm.commit tid with
    | mk tm r =>
      have hend := commit_ended h.timeline hT
      rw [hc] at hs hend
      rcases hend with ⟨cts,hr,he⟩ | ⟨hr,he⟩
      · cases hr
        cases hs
        exact h.committed hT he
      · cases hr
        rw [hlisted] at hs
        cases hs
        exact h.ended hT he (fun u hu => mem_cons_of_mem _ hu)
          (fun u hu => (mem_cons.mp hu).resolve_left (fun hk => by cases hk)) (.inl (mem_cons_self ..))

lemma Inv.abort (h : Inv s) (hs : step ev crc s (.abort tid) = some s') : Inv s' := by
  rw [step] at hs
  split at hs
  · rename_i hin
    cases hT : s.engine.tm.activeTxns.lookup tid with
    | none =>
      have hdead : s.abandon tid = s.aborted := by
        rw [State.abandon, isActive, hT]
        rfl
      rw [hdead, TransactionManager.abort, hT] at hs
      cases hs
      exact (h.manager _).leave tid .undone (fun hk => by cases hk)
    | some T =>
      obtain ⟨hmem,rfl,-⟩ := h.timeline.active_begun tid T hT
      have hlisted : s.abandon T.id = T.id::s.aborted := by
        rw [State.abandon, isActive, hT]
        rfl
      rw [hlisted] at hs
      cases hs
      refine h.ended hT (abort_ended hT) (fun u hu => ?_)
        (fun u hu => mem_of_mem_erase hu) (.inr ?_)
      · exact (mem_erase_of_ne (fun heq => by cases heq)).mpr hu
      · refine (h.undone T hmem hin).resolve_left (fun hc => ?_)
        obtain ⟨cts,hcts⟩ := Option.isSome_iff_exists.mp hc
        rw [h.timeline.committed_inactive _ cts hcts] at hT
        cases hT
  · cases hs

lemma Inv.step (h : Inv s) (hq : Quiet ev (fun _ => True) Fewer) {a : Step E Q}
    (hguard : Guarded s a) (hs : AbortedVersions.step ev crc s a = some s') : Inv s' := by
  cases a with
  | statement stmt txnId => exact h.statement hq hguard hs
  | commit tid => exact h.commit hs
  | abort tid => exact h.abort hs
  | finishCommit tid =>
    rw [AbortedVersions.step] at hs
    split at hs
    · cases hs
      exact (h.fewer (e := keepEffects crc tid s.engine) (.of_same rfl rfl rfl)).leave tid
        .committed nofun
    · cases hs
  | undoCommit tid =>
    rw [AbortedVersions.step] at hs
    split at hs
    · cases hs
      exact (h.fewer (fewer_undoEffects tid s.engine)).leave tid .refused
        (fun _ => undoEffects_clean hguard)
    · cases hs
  | undo tid =>
    rw [AbortedVersions.step] at hs
    split at hs
    · cases hs
    · cases hs
      exact (h.fewer (fewer_undoEffects tid s.engine)).enter tid .undone
        (fun _ => undoEffects_clean hguard)

lemma step_committed (hq : Quiet ev (fun _ => True) Fewer) {a : Step E Q}
    (hs : AbortedVersions.step ev crc s a = some s') {u : TxnId}
    (hu : s.engine.tm.isCommitted u = true) : s'.engine.tm.isCommitted u = true := by
  have hssi : ∀ e : Engine V E, (∃ ssi, e.tm = { s.engine.tm with ssi := ssi }) →
      e.tm.isCommitted u = true := by
    rintro e ⟨ssi,hm⟩
    rw [hm]
    exact hu
  have hinner : ∀ stmt : Statement E Q, Inner stmt → ∀ txnId,
      (runStatement ev crc s stmt txnId).engine.tm.isCommitted u = true :=
    fun stmt hstmt txnId => hssi _ (execute_stamps crc hq hstmt txnId s.engine).manager
  cases a with
  | statement stmt txnId =>
    rw [AbortedVersions.step] at hs
    split at hs
    · cases hs
    cases stmt with
    | commit | rollback => cases hs
    | begin isolation => cases hs; exact hu
    | useDatabase name => cases hs; exact hinner (.useDatabase name) trivial txnId
    | query q => cases hs; exact hinner (.query q) trivial txnId
    | dml stmt => cases hs; exact hinner (.dml stmt) trivial txnId
    | ddl stmt => cases hs; exact hinner (.ddl stmt) trivial txnId
  | commit tid =>
    have hkeep := commit_committed s.engine.tm tid hu
    rw [AbortedVersions.step] at hs
    split at hs
    · cases hs
    cases hc : s.engine.tm.commit tid with
    | mk tm r =>
      rw [hc] at hs hkeep
      cases r with
      | ok | error => cases hs; exact hkeep
  | abort tid =>
    rw [AbortedVersions.step] at hs
    split at hs
    · cases hs
      exact (abort_committed s.engine.tm tid u).trans hu
    · cases hs
  | finishCommit tid =>
    rw [AbortedVersions.step] at hs
    split at hs
    · cases hs
      exact hu
    · cases hs
  | undoCommit tid =>
    rw [AbortedVersions.step] at hs
    split at hs
    · cases hs
      exact hssi _ (fewer_undoEffects tid s.engine).manager
    · cases hs
  | undo tid =>
    rw [AbortedVersions.step] at hs
    split at hs
    · cases hs
    · cases hs
      exact hssi _ (fewer_undoEffects tid s.engine).manager

end

/-- In every run whose steps are guarded, no transaction is returned a version
of another one that ends aborted, now or later. -/
theorem aborted_versions_unseen [Codec V] (ev : Evaluator V E Q) (crc : Bytes → UInt32)
    (hq : Quiet ev (fun _ => True) Fewer) (e : Engine V E) (htm : e.tm = .new)
    (hnone : ∀ st, ¬ HasStamp e st) {s s' : State V E}
    (hs : Runs.Reaches (step ev crc) Guarded (State.start e) s)
    (hs' : Runs.Reaches (step ev crc) Guarded s s') {R : Transaction}
    {v : VersionedTuple (List V)} (hread : Returned s R v) (hne : v.createdBy ≠ R.id) :
    v.createdBy ∉ s'.aborted := by
  have hinv : Inv s :=
    hs.invariant (inv_start htm hnone) (fun _ _ _ h hP hstep => h.step hq hP hstep)
  have hinv' : Inv s' := hs'.invariant hinv (fun _ _ _ h hP hstep => h.step hq hP hstep)
  intro hin
  obtain ⟨⟨T,hT,hid⟩,hdead⟩ := hinv'.aborted _ hin
  rcases hinv.returned hread hne with h0 | hc
  · exact (hinv'.timeline.id_pos T hT).ne' (hid.trans h0)
  have hkept : s'.engine.tm.isCommitted v.createdBy = true :=
    hs'.invariant (I := fun s => s.engine.tm.isCommitted v.createdBy = true) hc
      (fun _ _ _ h _ hstep => step_committed hq hstep h)
  rw [live_of_committed hkept] at hdead
  cases hdead

section
open Integers

abbrev intStep := step Expr.evaluator (fun _ => 0)

def readAfter (e : Engine Value Expr) (steps : List (Step Expr Empty)) (reader : TxnId)
    (key : Bytes) : Option (TxnId × List Value × List TxnId) := do
  let s ← Runs.run intStep (State.start e) steps
  let R ← s.engine.tm.activeTxns.lookup reader
  guard (R.id = reader)
  let td ← s.engine.tables.lookup "t"
  let v ← found (VersionStore.chain td.versionStore key) R
  some (v.createdBy,v.data,s.aborted)

lemma returned_of_readAfter {e : Engine Value Expr} {steps : List (Step Expr Empty)}
    {reader creator : TxnId} {key : Bytes} {data : List Value} {aborted : List TxnId}
    (h : readAfter e steps reader key = some (creator,data,aborted)) :
    ∃ s R v, Runs.run intStep (State.start e) steps = some s ∧ Returned s R v ∧
      R.id = reader ∧ v.createdBy = creator ∧ s.aborted = aborted := by
  simp only [readAfter, Option.bind_eq_bind, Option.bind_eq_some_iff] at h
  obtain ⟨s,hs,R,hR,u,hguard,td,htd,v,hv,heq⟩ := h
  have hid : R.id = reader := by
    by_contra hne
    rw [guard, if_neg hne] at hguard
    cases hguard
  cases heq
  subst hid
  exact ⟨s,R,v,hs,⟨hR,"t",td,key,htd,hv⟩,rfl,rfl,rfl⟩

variable (rows : List (Int64 × Int64))

def tableOf : Engine Value Expr := engine (AList.insert "t" (table (schema "t" []) [] rows) ∅) none

lemma tableOf_unversioned (st : Stamp) : ¬ HasStamp (tableOf rows) st := by
  rintro (⟨t,td,htd,hst⟩ | ⟨db,tables,hdb,-⟩)
  · rw [tableOf, engine] at htd
    rcases lookup_insert_cases htd with ⟨-,rfl⟩ | ⟨-,htd⟩
    · exact not_hasStamp_new rfl st hst
    · cases htd
  · cases hdb

def insertBy (tid : TxnId) (id v : Int64) : Step Expr Empty :=
  .statement (.dml (.insert (insertInto "t" [(id,v)]))) (some tid)

def beginStep (isolation : IsolationLevel) : Step Expr Empty :=
  .statement (.begin (some isolation)) none

def cleanRun : List (Step Expr Empty) :=
  [beginStep .readCommitted, insertBy 1 1 1, .commit 1, .finishCommit 1, beginStep .readCommitted]

lemma cleanRun_guarded : ∃ s, Runs.Reaches intStep Guarded (State.start (tableOf [])) s ∧
    Runs.run intStep (State.start (tableOf [])) cleanRun = some s := by
  refine ⟨_,?_,rfl⟩
  refine .step (beginStep .readCommitted) (.step (.finishCommit 1) (.step (.commit 1)
    (.step (insertBy 1 1 1) (.step (beginStep .readCommitted) .init ?_ rfl) trivial rfl)
      trivial rfl) trivial rfl) ?_ rfl
  · nofun
  · nofun

theorem committed_version_read :
    ∃ s R v, Runs.Reaches intStep Guarded (State.start (tableOf [])) s ∧ Returned s R v ∧
      v.createdBy ≠ R.id ∧ v.createdBy ∉ s.aborted := by
  obtain ⟨s,hs,hrun⟩ := cleanRun_guarded
  have hread : readAfter (tableOf []) cleanRun 2 (key 1) = some (1,row 1 1,[]) := by
    decide +kernel
  obtain ⟨s',R,v,hrun',hret,hid,hby,-⟩ := returned_of_readAfter hread
  rw [hrun] at hrun'
  cases hrun'
  have hne : v.createdBy ≠ R.id := by
    rw [hid, hby]
    decide
  exact ⟨s,R,v,hs,hret,hne,aborted_versions_unseen Expr.evaluator (fun _ => 0)
    (integers_quiet _ _ (fun e _ => .refl e)) (tableOf []) rfl (tableOf_unversioned [])
    hs .init hret hne⟩

def scanBy (tid : TxnId) : Step Expr Empty :=
  .statement (.dml (.update (updateOf "t" 0 (equals "v" 99)))) (some tid)

/-- The COMMIT of transaction 2 is refused, and before its versions are removed
another transaction begins. -/
def windowRun : List (Step Expr Empty) :=
  [beginStep .serializable, beginStep .serializable, scanBy 1, scanBy 2, insertBy 1 3 3,
    insertBy 2 4 4, .commit 2, beginStep .readCommitted]

/-- An INSERT fails at a unique index, after its version has been written and
before the undo log has an entry for it. -/
def leakRun : List (Step Expr Empty) :=
  [.statement (.ddl (.createIndex ⟨"ix","t",["v"],true⟩)) none, beginStep .readCommitted,
    insertBy 1 2 5, .undo 1, .abort 1, beginStep .readCommitted]

/-- In both runs a transaction is returned a version of one that is aborted. -/
theorem aborted_version_read :
    (∃ s R v, Runs.run intStep (State.start (tableOf [])) windowRun = some s ∧
      Returned s R v ∧ v.createdBy ≠ R.id ∧ v.createdBy ∈ s.aborted) ∧
    ∃ s R v, Runs.run intStep (State.start (tableOf [(1,5)])) leakRun = some s ∧
      Returned s R v ∧ v.createdBy ≠ R.id ∧ v.createdBy ∈ s.aborted := by
  have hwindow : readAfter (tableOf []) windowRun 3 (key 4) = some (2,row 4 4,[2]) := by
    decide +kernel
  have hleak : readAfter (tableOf [(1,5)]) leakRun 2 (key 2) = some (1,row 2 5,[1]) := by
    decide +kernel
  constructor
  · obtain ⟨s,R,v,hrun,hret,hid,hby,habort⟩ := returned_of_readAfter hwindow
    exact ⟨s,R,v,hrun,hret,by rw [hid, hby]; decide,by rw [hby, habort]; decide⟩
  · obtain ⟨s,R,v,hrun,hret,hid,hby,habort⟩ := returned_of_readAfter hleak
    exact ⟨s,R,v,hrun,hret,by rw [hid, hby]; decide,by rw [hby, habort]; decide⟩

end

end ByteDB.AbortedVersions
