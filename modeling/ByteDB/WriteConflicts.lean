import ByteDB.Runs
import ByteDB.Timeline
import ByteDB.VersionStore

/-!
# Concurrent writers of one key

An update or a delete is checked against the last version of its key only. The
writers in a chain, read from the oldest version to the newest, are ordered:
each had committed before the next one began, or is the same transaction.
This is kept when a transaction in the middle is rolled back, and so no two
transactions that overlap can both stay in the chain.
-/

set_option autoImplicit false

namespace ByteDB.WriteConflicts
open ByteDB.Assoc ByteDB.VersionStore ByteDB.TransactionManager List

variable {α : Type} {c : Chain α} {tm : TransactionManager} {T : Transaction}

/-- The manager and the store, with the transactions begun so far and who has
successfully updated or deleted which key. -/
structure State (α : Type) where
  tm : TransactionManager
  store : VersionStore α
  begun : List Transaction
  wrote : List (TxnId × Bytes)

inductive Step (α : Type) where
  | begin (isolation : IsolationLevel)
  | ensureBase (key : Bytes) (committed : α)
  | tryUpdate (txn : TxnId) (key : Bytes) (tuple : α)
  | tryDelete (txn : TxnId) (key : Bytes)
  | commit (txn : TxnId)
  | abort (txn : TxnId)
  deriving DecidableEq, Repr

def init : State α where
  tm := .new
  store := .new
  begun := []
  wrote := []

/-- One call. A transaction passes its start timestamp and the active list of
its begin; a call by a transaction that is not active is no step. A commit
that is refused and an abort are followed by a rollback. -/
def step (s : State α) : Step α → Option (State α)
  | .begin isolation =>
    some { s with
      tm := (s.tm.begin isolation).1
      begun := s.begun++[begunTxn s.tm isolation] }
  | .ensureBase key committed => some { s with store := ensureBase s.store key committed }
  | .tryUpdate txn key tuple => do
    let T ← s.tm.activeTxns.lookup txn
    match tryUpdate s.store key tuple txn T.startTs T.startTs T.snapshotActive with
    | (store,.ok _) => some { s with store := store, wrote := (txn,key)::s.wrote }
    | (store,.error _) => some { s with store := store }
  | .tryDelete txn key => do
    let T ← s.tm.activeTxns.lookup txn
    match tryDelete s.store key txn T.startTs T.startTs T.snapshotActive with
    | (store,.ok true) => some { s with store := store, wrote := (txn,key)::s.wrote }
    | (store,_) => some { s with store := store }
  | .commit txn => do
    let _ ← s.tm.activeTxns.lookup txn
    match s.tm.commit txn with
    | (tm,.ok _) => some { s with tm := tm }
    | (tm,.error _) => some { s with tm := tm, store := rollbackTxn s.store txn }
  | .abort txn => do
    let _ ← s.tm.activeTxns.lookup txn
    some { s with tm := (s.tm.abort txn).1, store := rollbackTxn s.store txn }

def run : State α → List (Step α) → Option (State α) := Runs.run step

def Overlap (tm : TransactionManager) (T U : Transaction) : Prop :=
  tm.committedBefore T.id U = false ∧ tm.committedBefore U.id T = false

def writersOf (v : VersionedTuple α) : List TxnId := v.createdBy::v.deletedBy.toList

def writers (c : Chain α) : List TxnId := c.flatMap writersOf

/-- `u` is `w`, or the base, or had committed before `w` began. -/
def Before (tm : TransactionManager) (begun : List Transaction) (u w : TxnId) : Prop :=
  u = w ∨ u = 0 ∨ ∃ W ∈ begun, W.id = w ∧ tm.committedBefore u W = true

/-- The timestamp is that of a transaction which has not been aborted, or that
of the base. -/
def Stamp (tm : TransactionManager) (begun : List Transaction) (u : TxnId) (ts : Timestamp) :
    Prop :=
  (u = 0 ∧ ts = 0) ∨ ∃ T ∈ begun, T.id = u ∧ T.startTs = ts ∧ tm.live u = true

structure Ordered (tm : TransactionManager) (begun : List Transaction) (c : Chain α) : Prop where
  created : ∀ v ∈ c, Stamp tm begun v.createdBy v.createdTs
  deleted : ∀ v ∈ c, ∀ d, v.deletedBy = some d → ∃ ts, v.deletedTs = some ts ∧ Stamp tm begun d ts
  ordered : (writers c).Pairwise (Before tm begun)

structure Inv (s : State α) : Prop where
  timeline : Timeline s.tm s.begun
  ordered : ∀ key, Ordered s.tm s.begun (chain s.store key)
  known : ∀ w ∈ s.wrote, ∃ T ∈ s.begun, T.id = w.1
  recorded : ∀ w ∈ s.wrote, s.tm.live w.1 = true → w.1 ∈ writers (chain s.store w.2)

variable {v : VersionedTuple α}

lemma writersOf_sublist (hv : v ∈ c) : (writersOf v).Sublist (writers c) := by
  induction c with
  | nil => cases hv
  | cons x c ih =>
    rcases mem_cons.mp hv with rfl | hv
    · exact sublist_append_left _ _
    · exact (ih hv).trans (sublist_append_right _ _)

lemma writers_append (c d : Chain α) : writers (c++d) = writers c++writers d := flatMap_append

section
variable {begun : List Transaction} {u v w : TxnId}

lemma before_trans (h : Timeline tm begun) (huv : Before tm begun u v)
    (hvw : Before tm begun v w) : Before tm begun u w := by
  rcases huv with rfl | rfl | ⟨V,hV,rfl,huV⟩
  · exact hvw
  · exact .inr (.inl rfl)
  rcases hvw with rfl | h0 | ⟨W,hW,rfl,hVW⟩
  · exact .inr (.inr ⟨V,hV,rfl,huV⟩)
  · exact absurd h0 (h.id_pos V hV).ne'
  refine .inr (.inr ⟨W,hW,rfl,?_⟩)
  rw [committedBefore, Option.any_eq_true] at huV hVW ⊢
  obtain ⟨cu,hcu,hlt⟩ := huV
  obtain ⟨cv,hcv,hlt'⟩ := hVW
  obtain ⟨V',hV',hid,hstart⟩ := h.committed_begun _ cv hcv
  rw [h.unique V' hV' V hV hid] at hstart
  refine ⟨cu,hcu,?_⟩
  simp only [decide_eq_true_eq] at hlt hlt' ⊢
  exact hlt.trans (hstart.trans hlt')

lemma before_of_checked (h : Timeline tm begun) {T : Transaction} (hT : T ∈ begun)
    {ts : Timestamp} (hu : Stamp tm begun u ts)
    (hpass : u ≠ T.id → u ∉ T.snapshotActive ∧ ts ≤ T.startTs) : Before tm begun u T.id := by
  by_cases heq : u = T.id
  · exact .inl heq
  · rcases hu with ⟨h0,-⟩ | ⟨U,hU,rfl,rfl,hlive⟩
    · exact .inr (.inl h0)
    · exact .inr (.inr ⟨T,hT,rfl,(h.sees_iff hT hU hlive heq).mp (hpass heq)⟩)

lemma before_last (h : Timeline tm begun) {latest : VersionedTuple α}
    (hc : Ordered tm begun (c++[latest])) (hw : Before tm begun latest.createdBy w) :
    ∀ u ∈ writers c, Before tm begun u w := by
  intro u hu
  have hord := hc.ordered
  rw [writers_append, pairwise_append] at hord
  exact before_trans h (hord.2.2 u hu latest.createdBy (by simp [writers, writersOf])) hw

end

section
variable {tm tm' : TransactionManager} {begun begun' : List Transaction}

lemma Ordered.later (h : Ordered tm begun c) (hbegun : ∀ T ∈ begun, T ∈ begun')
    (hcommit : ∀ u cts, tm.committedTxns.lookup u = some cts →
      tm'.committedTxns.lookup u = some cts)
    (hlive : ∀ u ∈ writers c, tm.live u = true → tm'.live u = true) :
    Ordered tm' begun' c := by
  have hstamp : ∀ u ∈ writers c, ∀ ts, Stamp tm begun u ts → Stamp tm' begun' u ts := by
    rintro u hu ts (h0 | ⟨U,hU,hid,hts,hl⟩)
    · exact .inl h0
    · exact .inr ⟨U,hbegun U hU,hid,hts,hlive u hu hl⟩
  constructor
  · intro v hv
    refine hstamp _ (mem_flatMap.mpr ⟨v,hv,?_⟩) _ (h.created v hv)
    simp [writersOf]
  · intro v hv d hd
    obtain ⟨ts,hts,hst⟩ := h.deleted v hv d hd
    refine ⟨ts,hts,hstamp d (mem_flatMap.mpr ⟨v,hv,?_⟩) ts hst⟩
    simp [writersOf, hd]
  refine h.ordered.imp ?_
  rintro u w (heq | h0 | ⟨W,hW,hid,hb⟩)
  · exact .inl heq
  · exact .inr (.inl h0)
  · refine .inr (.inr ⟨W,hbegun W hW,hid,?_⟩)
    rw [committedBefore, Option.any_eq_true] at hb ⊢
    obtain ⟨cts,hcts,hlt⟩ := hb
    exact ⟨cts,hcommit u cts hcts,hlt⟩

lemma restore_createdBy (txn : TxnId) (v : VersionedTuple α) :
    (restore txn v).createdBy = v.createdBy ∧ (restore txn v).createdTs = v.createdTs := by
  rw [restore]
  split
  · exact ⟨rfl,rfl⟩
  · exact ⟨rfl,rfl⟩

lemma restore_deletedBy {txn d : TxnId} :
    (restore txn v).deletedBy = some d ↔ v.deletedBy = some d ∧ d ≠ txn := by
  rw [restore]
  by_cases h : v.deletedBy = some txn
  · rw [if_pos h, h]
    simp only [Option.some.injEq, reduceCtorEq, ne_eq, false_iff, not_and, not_not]
    exact Eq.symm
  · rw [if_neg h]
    refine ⟨fun hd => ⟨hd,?_⟩,And.left⟩
    rintro rfl
    exact h hd

lemma restore_deletedTs {txn d : TxnId}
    (h : (restore txn v).deletedBy = some d) : (restore txn v).deletedTs = v.deletedTs := by
  rw [restore] at h ⊢
  by_cases hd : v.deletedBy = some txn
  · simp [hd] at h
  · rw [if_neg hd]

lemma writersOf_restore (txn : TxnId) (v : VersionedTuple α) :
    (writersOf (restore txn v)).Sublist (writersOf v) := by
  rw [restore]
  split
  · exact List.Sublist.cons_cons _ (nil_sublist _)
  · exact List.Sublist.refl _

lemma writers_rollback (txn : TxnId) (c : Chain α) :
    (writers (rollbackChain txn c)).Sublist (writers c) := by
  induction c with
  | nil => exact List.Sublist.refl _
  | cons v c ih =>
    have hv := writersOf_restore txn v
    rw [rollbackChain, map_cons, filter_cons]
    split
    · exact hv.append ih
    · exact ih.trans (sublist_append_right _ _)

lemma mem_rollback {txn : TxnId} {w : VersionedTuple α} :
    w ∈ rollbackChain txn c ↔ ∃ v ∈ c, restore txn v = w ∧ v.createdBy ≠ txn := by
  rw [rollbackChain, mem_filter, mem_map]
  constructor
  · rintro ⟨⟨v,hv,rfl⟩,hne⟩
    exact ⟨v,hv,rfl,by simpa [(restore_createdBy txn v).1] using hne⟩
  · rintro ⟨v,hv,rfl,hne⟩
    exact ⟨⟨v,hv,rfl⟩,by simpa [(restore_createdBy txn v).1] using hne⟩

lemma Ordered.rollback (h : Ordered tm begun c) (txn : TxnId) :
    Ordered tm begun (rollbackChain txn c) := by
  constructor
  · intro w hw
    obtain ⟨v,hv,rfl,-⟩ := mem_rollback.mp hw
    obtain ⟨hby,hts⟩ := restore_createdBy txn v
    rw [hby, hts]
    exact h.created v hv
  · intro w hw d hd
    obtain ⟨v,hv,rfl,-⟩ := mem_rollback.mp hw
    rw [restore_deletedTs hd]
    exact h.deleted v hv d (restore_deletedBy.mp hd).1
  · exact h.ordered.sublist (writers_rollback txn c)

lemma not_writer_rollback (txn : TxnId) (c : Chain α) : txn ∉ writers (rollbackChain txn c) := by
  intro hin
  obtain ⟨w,hw,hmem⟩ := mem_flatMap.mp hin
  obtain ⟨v,-,rfl,hne⟩ := mem_rollback.mp hw
  rcases mem_cons.mp hmem with heq | hdel
  · exact hne (heq.trans (restore_createdBy txn v).1).symm
  · exact (restore_deletedBy.mp (Option.mem_toList.mp hdel)).2 rfl

section
variable (ht : Timeline tm begun) (h : Ordered tm begun c) (hT : tm.activeTxns.lookup T.id = some T)
include ht h hT

/-- The other writers stay: nobody has deleted a version of a transaction that
is still active. -/
lemma writer_rollback {u : TxnId} (hu : u ∈ writers c) (hne : u ≠ T.id) :
    u ∈ writers (rollbackChain T.id c) := by
  obtain ⟨v,hv,hmem⟩ := mem_flatMap.mp hu
  have hcreated : v.createdBy ≠ T.id := by
    intro heq
    rcases mem_cons.mp hmem with hcu | hdel
    · exact hne (hcu.trans heq)
    have hpair : Before tm begun v.createdBy u := by
      have hsub : [v.createdBy, u].Sublist (writers c) := by
        have hvc := writersOf_sublist hv
        rw [writersOf, Option.mem_toList.mp hdel] at hvc
        exact hvc
      simpa using h.ordered.sublist hsub
    obtain ⟨hTb,-,-⟩ := ht.active_begun _ T hT
    rcases hpair with hb | hb | ⟨W,-,-,hb⟩
    · exact hne (hb.symm.trans heq)
    · exact (ht.id_pos T hTb).ne' (heq.symm.trans hb)
    · rw [heq, committedBefore, Option.any_eq_true] at hb
      obtain ⟨cts,hcts,-⟩ := hb
      rw [ht.committed_inactive _ cts hcts] at hT
      cases hT
  refine mem_flatMap.mpr ⟨restore T.id v,mem_rollback.mpr ⟨v,hv,rfl,hcreated⟩,?_⟩
  rcases mem_cons.mp hmem with hcu | hdel
  · rw [hcu, writersOf, (restore_createdBy T.id v).1]
    exact mem_cons_self
  · have hd := restore_deletedBy.mpr ⟨Option.mem_toList.mp hdel,hne⟩
    rw [writersOf, hd]
    exact mem_cons_of_mem _ (mem_singleton_self u)

lemma Ordered.update (tuple : α) (hpass : ∀ latest, c.getLast? = some latest →
      (deleterActive latest T.id T.snapshotActive ||
        conflicts latest T.id T.startTs T.snapshotActive) = false) :
    Ordered tm begun (c++[.fresh tuple T.id T.startTs]) := by
  obtain ⟨hTb,-,-⟩ := ht.active_begun _ T hT
  have hlive : tm.live T.id = true := by simp [live, isActive, hT]
  have hbefore : ∀ u ∈ writers c, Before tm begun u T.id := by
    rcases eq_nil_or_concat c with rfl | ⟨pre,latest,rfl⟩
    · exact fun u hu => absurd hu not_mem_nil
    rw [concat_eq_append] at h hpass ⊢
    have hchecks := hpass latest (by simp)
    simp only [deleterActive, conflicts, Bool.or_eq_false_iff, decide_eq_false_iff_not, not_or,
      not_and, not_lt] at hchecks
    obtain ⟨hdel,hact,hts,hdts⟩ := hchecks
    have hcreated : Before tm begun latest.createdBy T.id :=
      before_of_checked ht hTb (h.created latest (by simp)) (fun hne => ⟨hact hne,hts hne⟩)
    intro u hu
    rw [writers_append, mem_append] at hu
    rcases hu with hu | hu
    · exact before_last ht h hcreated u hu
    simp only [writers, flatMap_cons, flatMap_nil, append_nil, writersOf,
      mem_cons, Option.mem_toList] at hu
    rcases hu with rfl | hd
    · exact hcreated
    obtain ⟨ts,hdts',hstamp⟩ := h.deleted latest (by simp) u hd
    refine before_of_checked ht hTb hstamp (fun hne => ⟨?_,?_⟩)
    · rw [hd] at hdel
      simpa [hne] using hdel
    have hother : latest.deletedBy ≠ some T.id := fun heq =>
      hne (Option.some.inj (hd.symm.trans heq))
    have := hdts hother
    rw [hdts'] at this
    simpa using this
  constructor
  · intro v hv
    rcases mem_append.mp hv with hv | hv
    · exact h.created v hv
    · obtain rfl := mem_singleton.mp hv
      exact .inr ⟨T,hTb,rfl,rfl,hlive⟩
  · intro v hv d hd
    rcases mem_append.mp hv with hv | hv
    · exact h.deleted v hv d hd
    · obtain rfl := mem_singleton.mp hv
      cases hd
  · rw [writers_append]
    refine pairwise_append.mpr ⟨h.ordered,pairwise_singleton _ _,?_⟩
    intro u hu w hw
    obtain rfl := mem_singleton.mp hw
    exact hbefore u hu

end

lemma Ordered.delete {pre : Chain α} {latest : VersionedTuple α} (ht : Timeline tm begun)
    (h : Ordered tm begun (pre++[latest])) (hT : tm.activeTxns.lookup T.id = some T)
    (hpass : conflicts latest T.id T.startTs T.snapshotActive = false) : Ordered tm begun
      (pre++[{ latest with deletedBy := some T.id, deletedTs := some T.startTs }]) := by
  obtain ⟨hTb,-,-⟩ := ht.active_begun _ T hT
  have hlive : tm.live T.id = true := by simp [live, isActive, hT]
  simp only [conflicts, decide_eq_false_iff_not, not_or, not_and, not_lt] at hpass
  have hcreated : Before tm begun latest.createdBy T.id :=
    before_of_checked ht hTb (h.created latest (by simp)) (fun hne => ⟨hpass.1 hne,hpass.2.1 hne⟩)
  constructor
  · intro v hv
    rcases mem_append.mp hv with hv | hv
    · exact h.created v (by simp [hv])
    · obtain rfl := mem_singleton.mp hv
      exact h.created latest (by simp)
  · intro v hv d hd
    rcases mem_append.mp hv with hv | hv
    · exact h.deleted v (by simp [hv]) d hd
    · obtain rfl := mem_singleton.mp hv
      cases hd
      exact ⟨T.startTs,rfl,.inr ⟨T,hTb,rfl,rfl,hlive⟩⟩
  · have hord := h.ordered
    rw [writers_append, pairwise_append] at hord ⊢
    obtain ⟨hpre,-,hcross⟩ := hord
    refine ⟨hpre,by simpa [writers, writersOf] using hcreated,?_⟩
    intro u hu w hw
    simp only [writers, flatMap_cons, flatMap_nil, append_nil, writersOf,
      Option.toList_some, mem_cons, not_mem_nil, or_false] at hw
    rcases hw with rfl | rfl
    · exact hcross u hu _ (by simp [writers, writersOf])
    · exact before_last ht h hcreated u hu

lemma ordered_nil : Ordered tm begun ([] : Chain α) := ⟨by simp,by simp,List.Pairwise.nil⟩

lemma ordered_base (committed : α) : Ordered tm begun [.fresh committed 0 0] where
  created v hv := by
    obtain rfl := mem_singleton.mp hv
    exact .inl ⟨rfl,rfl⟩
  deleted v hv d hd := by
    obtain rfl := mem_singleton.mp hv
    cases hd
  ordered := pairwise_singleton _ _

end


section
variable {s : State α}

lemma init_inv : Inv (init : State α) where
  timeline := timeline_new
  ordered _ := ordered_nil
  known := by simp [init]
  recorded := by simp [init]

lemma Inv.write (h : Inv s) {store : VersionStore α} {key : Bytes}
    (hchain : ∀ l, chain store l = if l = key then c else chain s.store l)
    (hc : Ordered s.tm s.begun c) (hsub : ∀ u ∈ writers (chain s.store key), u ∈ writers c) :
    Inv { s with store := store } where
  timeline := h.timeline
  ordered l := by
    show Ordered s.tm s.begun (chain store l)
    rw [hchain]
    split
    · exact hc
    · exact h.ordered l
  known := h.known
  recorded w hw hlive := by
    show w.1 ∈ writers (chain store w.2)
    have hin := h.recorded w hw hlive
    rw [hchain]
    split
    · rename_i heq
      exact hsub w.1 (heq ▸ hin)
    · exact hin

lemma Inv.wrote (h : Inv s) (hT : T ∈ s.begun) {key : Bytes}
    (hin : T.id ∈ writers (chain s.store key)) : Inv { s with wrote := (T.id,key)::s.wrote } where
  timeline := h.timeline
  ordered := h.ordered
  known w hw := by
    rcases mem_cons.mp hw with rfl | hw
    · exact ⟨T,hT,rfl⟩
    · exact h.known w hw
  recorded w hw hlive := by
    rcases mem_cons.mp hw with rfl | hw
    · exact hin
    · exact h.recorded w hw hlive

lemma Inv.begin (h : Inv s) (isolation : IsolationLevel) : Inv { s with
      tm := (s.tm.begin isolation).1
      begun := s.begun++[begunTxn s.tm isolation] } := by
  have hlive : ∀ T ∈ s.begun,
      (s.tm.begin isolation).1.live T.id = true ↔ s.tm.live T.id = true := by
    intro T hT
    rw [live, live, isActive, isActive, begin_lookup, if_neg (h.timeline.id_lt T hT).ne]
    rfl
  constructor
  · exact timeline_begin h.timeline isolation
  · intro key
    refine (h.ordered key).later (fun T hT => by simp [hT]) (fun u cts hc => hc) ?_
    intro u hu hl
    rw [live, Bool.or_eq_true] at hl ⊢
    refine hl.imp (fun hact => ?_) id
    rw [isActive, begin_lookup]
    split
    · rfl
    · exact hact
  · intro w hw
    obtain ⟨T,hT,hid⟩ := h.known w hw
    exact ⟨T,by simp [hT],hid⟩
  · intro w hw hl
    obtain ⟨T,hT,hid⟩ := h.known w hw
    rw [← hid] at hl ⊢
    rw [hid]
    exact h.recorded w hw (hid ▸ (hlive T hT).mp hl)

lemma Inv.committed (h : Inv s) (hT : s.tm.activeTxns.lookup T.id = some T) {cts : Timestamp} (he : Ended s.tm tm T.id (some cts)) :
    Inv { s with tm := tm } := by
  obtain ⟨-,-,hcom⟩ := he.clock
  have hlive : ∀ u, tm.live u = true ↔ s.tm.live u = true := by
    intro u
    rw [(live_committed hT he u).1]
  refine ⟨timeline_committed h.timeline hT he,fun key => ?_,h.known,?_⟩
  · refine (h.ordered key).later (fun _ hU => hU) (fun u c hc => ?_) (fun u _ => (hlive u).mpr)
    rw [hcom, lookup_insert_eq, if_neg]
    · exact hc
    · rintro rfl
      rw [h.timeline.committed_inactive _ c hc] at hT
      cases hT
  · intro w hw hl
    exact h.recorded w hw ((hlive w.1).mp hl)

lemma Inv.aborted (h : Inv s) (hT : s.tm.activeTxns.lookup T.id = some T) (he : Ended s.tm tm T.id none) :
    Inv { s with tm := tm, store := rollbackTxn s.store T.id } := by
  obtain ⟨-,hcom⟩ := he.clock
  have hlive : ∀ u, tm.live u = true ↔ s.tm.live u = true ∧ u ≠ T.id := by
    intro u
    rw [(live_aborted h.timeline hT he u).1, Bool.and_eq_true, decide_eq_true_eq, and_comm]
  refine ⟨timeline_aborted h.timeline he,fun key => ?_,h.known,?_⟩
  · show Ordered tm s.begun (chain (rollbackTxn s.store T.id) key)
    rw [chain_rollback]
    refine ((h.ordered key).rollback T.id).later (fun _ hU => hU) (fun u c hc => ?_) ?_
    · rw [hcom]
      exact hc
    · intro u hu hl
      refine (hlive u).mpr ⟨hl,?_⟩
      rintro rfl
      exact not_writer_rollback _ _ hu
  · intro w hw hl
    obtain ⟨hl,hne⟩ := (hlive w.1).mp hl
    show w.1 ∈ writers (chain (rollbackTxn s.store T.id) w.2)
    rw [chain_rollback]
    exact writer_rollback h.timeline (h.ordered w.2) hT (h.recorded w hw hl) hne

variable {s' : State α}

lemma Inv.update (h : Inv s) (hT : s.tm.activeTxns.lookup T.id = some T) (key : Bytes)
    (tuple : α) (hs : step s (.tryUpdate T.id key tuple) = some s') : Inv s' := by
  obtain ⟨hTb,-,-⟩ := h.timeline.active_begun _ T hT
  simp only [step, hT, Option.bind_eq_bind, Option.bind_some] at hs
  rw [tryUpdate] at hs
  by_cases hc : (chain s.store key).getLast?.any (fun latest =>
      deleterActive latest T.id T.snapshotActive ||
        conflicts latest T.id T.startTs T.snapshotActive) = true
  · rw [if_pos hc] at hs
    cases hs
    exact h
  rw [if_neg hc] at hs
  cases hs
  have hpass : ∀ latest, (chain s.store key).getLast? = some latest →
      (deleterActive latest T.id T.snapshotActive ||
        conflicts latest T.id T.startTs T.snapshotActive) = false := by
    intro latest hlatest
    rw [hlatest] at hc
    simpa using hc
  have hord := (h.ordered key).update h.timeline hT tuple hpass
  have hpush : Inv { s with store := insert s.store key tuple T.id T.startTs } := by
    refine h.write (fun l => chain_insert s.store key l _) hord (fun u hu => ?_)
    rw [writers_append]
    exact mem_append_left _ hu
  refine hpush.wrote hTb ?_
  show T.id ∈ writers (chain (insert s.store key tuple T.id T.startTs) key)
  rw [chain_push, writers_append]
  exact mem_append_right _ (by simp [writers, writersOf, VersionedTuple.fresh])

lemma Inv.delete (h : Inv s) (hT : s.tm.activeTxns.lookup T.id = some T) (key : Bytes) (hs : step s (.tryDelete T.id key) = some s') : Inv s' := by
  obtain ⟨hTb,-,-⟩ := h.timeline.active_begun _ T hT
  simp only [step, hT, Option.bind_eq_bind, Option.bind_some] at hs
  rcases tryDelete_cases s.store key T.id T.startTs T.startTs T.snapshotActive with
    ⟨r,hr,hne⟩ | ⟨pre,latest,hchain,hother,hpass,hr⟩
  · rw [hr] at hs
    cases r with
    | error err =>
      cases hs
      exact h
    | ok b =>
      cases b with
      | true => exact absurd rfl hne
      | false =>
        cases hs
        exact h
  · rw [hr] at hs
    cases hs
    have hord := Ordered.delete h.timeline (hchain ▸ h.ordered key) hT hpass
    have hsub : ∀ u ∈ writers (chain s.store key), u ∈ writers
        (pre++[{ latest with deletedBy := some T.id, deletedTs := some T.startTs }]) := by
      intro u hu
      rw [hchain, writers_append, mem_append] at hu
      rw [writers_append, mem_append]
      refine hu.imp_right (fun hu => ?_)
      simp only [writers, flatMap_cons, flatMap_nil, append_nil, writersOf,
        Option.toList_some, mem_cons, Option.mem_toList, not_mem_nil, or_false] at hu ⊢
      exact hu.imp_right (fun hd => by simpa [deletedByOther, hd] using hother)
    refine (h.write (fun l => chain_insert s.store key l _) hord hsub).wrote hTb ?_
    show T.id ∈ writers (chain (AList.insert key _ s.store) key)
    rw [chain_insert, if_pos rfl, writers_append]
    exact mem_append_right _ (by simp [writers, writersOf])

lemma step_inv {a : Step α} (h : Inv s) (hs : step s a = some s') : Inv s' := by
  cases a with
  | begin isolation =>
    cases hs
    exact h.begin isolation
  | ensureBase key committed =>
    cases hs
    show Inv { s with store := ensureBase s.store key committed }
    rw [ensureBase]
    split
    · rename_i hnil
      refine h.write (fun l => chain_insert s.store key l _) (ordered_base committed) ?_
      rw [hnil]
      exact fun u hu => absurd hu not_mem_nil
    · exact h
  | tryUpdate txn key tuple =>
    cases hT : s.tm.activeTxns.lookup txn with
    | none => simp [step, hT] at hs
    | some T =>
      obtain ⟨-,rfl,-⟩ := h.timeline.active_begun txn T hT
      exact h.update hT key tuple hs
  | tryDelete txn key =>
    cases hT : s.tm.activeTxns.lookup txn with
    | none => simp [step, hT] at hs
    | some T =>
      obtain ⟨-,rfl,-⟩ := h.timeline.active_begun txn T hT
      exact h.delete hT key hs
  | commit txn =>
    cases hT : s.tm.activeTxns.lookup txn with
    | none => simp [step, hT] at hs
    | some T =>
      obtain ⟨-,rfl,-⟩ := h.timeline.active_begun txn T hT
      simp only [step, hT, Option.bind_eq_bind, Option.bind_some] at hs
      rcases commit_ended h.timeline hT with ⟨cts,hok,he⟩ | ⟨herr,he⟩
      · rw [show s.tm.commit T.id = ((s.tm.commit T.id).1,.ok cts) from Prod.ext rfl hok] at hs
        cases hs
        exact h.committed hT he
      · rw [show s.tm.commit T.id = ((s.tm.commit T.id).1,.error .serializationConflict) from
          Prod.ext rfl herr] at hs
        cases hs
        exact h.aborted hT he
  | abort txn =>
    cases hT : s.tm.activeTxns.lookup txn with
    | none => simp [step, hT] at hs
    | some T =>
      obtain ⟨-,rfl,-⟩ := h.timeline.active_begun txn T hT
      simp only [step, hT, Option.bind_eq_bind, Option.bind_some] at hs
      cases hs
      exact h.aborted hT (abort_ended hT)

lemma run_inv {as : List (Step α)} (h : Inv s) (hr : run s as = some s') : Inv s' := by
  induction as generalizing s with
  | nil =>
    cases hr
    exact h
  | cons a as ih =>
    obtain ⟨s1,hs,hr⟩ := Option.bind_eq_some_iff.mp hr
    exact ih (step_inv h hs) hr

end

lemma writers_comparable {begun : List Transaction} {ws : List TxnId}
    (h : ws.Pairwise (Before tm begun)) {u w : TxnId} (hu : u ∈ ws) (hw : w ∈ ws) (hne : u ≠ w) :
    Before tm begun u w ∨ Before tm begun w u := by
  induction ws with
  | nil => cases hu
  | cons x ws ih =>
    obtain ⟨hx,hws⟩ := pairwise_cons.mp h
    rcases mem_cons.mp hu with rfl | hu'
    · rcases mem_cons.mp hw with rfl | hw'
      · exact absurd rfl hne
      · exact .inl (hx w hw')
    · rcases mem_cons.mp hw with rfl | hw'
      · exact .inr (hx u hu')
      · exact ih hws hu' hw'

lemma Inv.committed_before {s : State α} (h : Inv s) {T U : Transaction} (hT : T ∈ s.begun)
    (hU : U ∈ s.begun) (hne : T.id ≠ U.id) (hb : Before s.tm s.begun T.id U.id) :
    s.tm.committedBefore T.id U = true := by
  rcases hb with heq | h0 | ⟨W,hW,hid,hb⟩
  · exact absurd heq hne
  · exact absurd h0 (h.timeline.id_pos T hT).ne'
  · rw [← h.timeline.unique W hW U hU hid]
    exact hb

/-- Two transactions that overlap and have both written a key do not both
commit. -/
theorem overlapping_writers_not_both_committed (steps : List (Step α)) (s : State α)
    (hrun : run init steps = some s) (T U : Transaction) (hT : T ∈ s.begun) (hU : U ∈ s.begun)
    (hne : T.id ≠ U.id) (hover : Overlap s.tm T U) (key : Bytes)
    (hwT : (T.id,key) ∈ s.wrote) (hwU : (U.id,key) ∈ s.wrote) :
    ¬ (s.tm.isCommitted T.id = true ∧ s.tm.isCommitted U.id = true) := by
  rintro ⟨hcT,hcU⟩
  have h : Inv s := run_inv init_inv hrun
  have hinT := h.recorded _ hwT (by simp [live, hcT])
  have hinU := h.recorded _ hwU (by simp [live, hcU])
  rcases writers_comparable (h.ordered key).ordered hinT hinU hne with hb | hb
  · have := h.committed_before hT hU hne hb
    rw [hover.1] at this
    cases this
  · have := h.committed_before hU hT (Ne.symm hne) hb
    rw [hover.2] at this
    cases this

/-- In every history a snapshot shows, of the other transactions that have not been
aborted, exactly those that had committed before it was taken; and the writers of a
key come one after another, each having committed before the next one began. -/
theorem snapshot_shows_committed (steps : List (Step α)) (s : State α)
    (hrun : run init steps = some s) : (∀ R ∈ s.begun, ∀ T ∈ s.begun, s.tm.live T.id = true →
      T.id ≠ R.id → ((T.id ∉ R.snapshotActive ∧ T.startTs ≤ R.startTs) ↔
        s.tm.committedBefore T.id R = true)) ∧
    ∀ key, (writers (chain s.store key)).Pairwise (Before s.tm s.begun) := by
  have h : Inv s := run_inv init_inv hrun
  exact ⟨fun R hR T hT hlive hne => h.timeline.sees_iff hR hT hlive hne,
    fun key => (h.ordered key).ordered⟩

/-- Transactions 1 and 2 overlap and both update a key, the second one after
the first has been rolled back. -/
def rolledBackWriter : List (Step ℕ) :=
  [.begin .repeatableRead, .begin .repeatableRead, .ensureBase [7] 10, .tryUpdate 1 [7] 11,
    .abort 1, .tryUpdate 2 [7] 12, .tryDelete 2 [7], .commit 2]

theorem rolled_back_writer_not_committed :
    ∃ s, run init rolledBackWriter = some s ∧ s.tm.isCommitted 2 = true ∧
      ¬ (s.tm.isCommitted 1 = true ∧ s.tm.isCommitted 2 = true) :=
  ⟨_,rfl,by decide,overlapping_writers_not_both_committed rolledBackWriter _ rfl
    ⟨1,.repeatableRead,1,.active,[]⟩ ⟨2,.repeatableRead,2,.active,[1]⟩ (by decide)
    (by decide) (by decide) ⟨by decide,by decide⟩ [7] (by decide) (by decide)⟩

theorem writers_beside_rollback : ∃ s, run init rolledBackWriter = some s ∧
    (writers (chain s.store [7])).Pairwise (Before s.tm s.begun) :=
  ⟨_,rfl,(snapshot_shows_committed rolledBackWriter _ rfl).2 [7]⟩

end ByteDB.WriteConflicts
