import ByteDB.Runs
import ByteDB.Timeline
import ByteDB.VersionStore

/-!
# Histories of one key

Transactions write one key of a version store, and commit or abort. A reader
should get the effect of its own last write, and without one the effect of
the last write that was committed before it began. Deletes are where the
code departs from this: they mark the last version only, and a transaction
still sees a version of its own that it has deleted.
-/

set_option autoImplicit false

namespace ByteDB.VersionHistory
open ByteDB.Assoc ByteDB.VersionStore ByteDB.TransactionManager List

variable {α : Type}

/-- A write that succeeded; without a value it was a delete. The base is a
write of transaction 0. -/
structure Write (α : Type) where
  txn : TxnId
  value : Option α
  deriving DecidableEq, Repr

def Write.effect : Write α → ReadResult α
  | ⟨_,some v⟩ => .visible v
  | ⟨_,none⟩ => .tombstone

/-- The manager and the store, with the transactions begun so far and the
successful writes, the oldest first. -/
structure State (α : Type) where
  tm : TransactionManager
  store : VersionStore α
  begun : List Transaction
  writes : List (Write α)

inductive Step (α : Type) where
  | begin (isolation : IsolationLevel)
  | ensureBase (committed : α)
  | insert (txn : TxnId) (tuple : α)
  | tryUpdate (txn : TxnId) (tuple : α)
  | tryDelete (txn : TxnId)
  | commit (txn : TxnId)
  | abort (txn : TxnId)
  deriving DecidableEq, Repr

def init : State α where
  tm := .new
  store := .new
  begun := []
  writes := []

/-- One call on the key. A transaction passes its start timestamp and the
active list of its begin. A call by a transaction that is not active is no
step, and neither is `ensure_base` on a key that has versions. -/
def step (key : Bytes) (s : State α) : Step α → Option (State α)
  | .begin isolation =>
    some { s with
      tm := (s.tm.begin isolation).1
      begun := s.begun++[begunTxn s.tm isolation] }
  | .ensureBase committed =>
    if chain s.store key = [] then
      some { s with
        store := ensureBase s.store key committed
        writes := ⟨0,some committed⟩::s.writes }
    else none
  | .insert txn tuple => do
    let T ← s.tm.activeTxns.lookup txn
    some { s with
      store := VersionStore.insert s.store key tuple txn T.startTs
      writes := s.writes++[⟨txn,some tuple⟩] }
  | .tryUpdate txn tuple => do
    let T ← s.tm.activeTxns.lookup txn
    match tryUpdate s.store key tuple txn T.startTs T.startTs T.snapshotActive with
    | (store,.ok _) => some { s with store := store, writes := s.writes++[⟨txn,some tuple⟩] }
    | (store,.error _) => some { s with store := store }
  | .tryDelete txn => do
    let T ← s.tm.activeTxns.lookup txn
    match tryDelete s.store key txn T.startTs T.startTs T.snapshotActive with
    | (store,.ok true) => some { s with store := store, writes := s.writes++[⟨txn,none⟩] }
    | (store,_) => some { s with store := store }
  | .commit txn => do
    let _ ← s.tm.activeTxns.lookup txn
    match s.tm.commit txn with
    | (tm,.ok _) => some { s with tm := tm }
    | (tm,.error _) => some { s with tm := tm, store := rollbackTxn s.store txn }
  | .abort txn => do
    let _ ← s.tm.activeTxns.lookup txn
    some { s with tm := (s.tm.abort txn).1, store := rollbackTxn s.store txn }

def run (key : Bytes) : State α → List (Step α) → Option (State α) := Runs.run (step key)

def expected (s : State α) (T : Transaction) : Option (Write α) :=
  match (s.writes.filter (fun w => w.txn = T.id)).getLast? with
  | some w => some w
  | none =>
    (s.writes.filter (fun w => w.txn = 0 ∨ s.tm.committedBefore w.txn T)).getLast?

/-- Every active reader gets the effect of the write it should get; where
there is none, no version is visible. -/
def ReadsRight (key : Bytes) (s : State α) : Prop :=
  ∀ id T, s.tm.activeTxns.lookup id = some T →
    match expected s T with
    | some w => lookupForRead s.store key id T.startTs T.snapshotActive = w.effect
    | none => ∀ v, lookupForRead s.store key id T.startTs T.snapshotActive ≠ .visible v

/-- The version was deleted by `T`, or by a transaction that `T` may see. -/
def endedFor (T : Transaction) (v : VersionedTuple α) : Bool :=
  v.deletedBy = some T.id ∨
    (v.deletedBy.any (· ∉ T.snapshotActive) ∧ v.deletedTs.any (· ≤ T.startTs))

def marks (T : Transaction) (latest : VersionedTuple α) : Bool :=
  !deletedByOther latest T.id && !conflicts latest T.id T.startTs T.snapshotActive

/-- A delete is clean when it ends the last version that its transaction
sees: the version it marks is not its own, and all versions before it have
been ended for it. -/
def Clean (key : Bytes) (s : State α) : Step α → Prop
  | .tryDelete txn => ∀ T pre latest, s.tm.activeTxns.lookup txn = some T →
      chain s.store key = pre++[latest] → marks T latest = true →
      latest.createdBy ≠ txn ∧ ∀ v ∈ pre, endedFor T v = true
  | _ => True

/-! Any set of transactions that is closed under what its members could see has a
view of the chain. The invariant says that every such view shows the last write of
the set; the snapshot of an active reader is one of these views. -/

def visibleIn (S : TxnId → Bool) (v : VersionedTuple α) : Bool :=
  S v.createdBy && !v.deletedBy.any S

def readIn (S : TxnId → Bool) (c : Chain α) : Option α :=
  ((c.filter (visibleIn S)).map VersionedTuple.data).getLast?

def lastIn (S : TxnId → Bool) (ws : List (Write α)) : Option α :=
  (ws.filter (fun w => S w.txn)).getLast?.bind Write.value

/-- A set of transactions that may be a view: with a transaction it has all
that committed before it began. -/
structure View (tm : TransactionManager) (begun : List Transaction) (S : TxnId → Bool) : Prop where
  zero : S 0 = true
  live : ∀ T ∈ begun, S T.id = true → tm.live T.id = true
  down : ∀ R ∈ begun, S R.id = true → ∀ u, tm.committedBefore u R = true → S u = true

structure Stamped (tm : TransactionManager) (begun : List Transaction)
    (v : VersionedTuple α) : Prop where
  created : (v.createdBy = 0 ∧ v.createdTs = 0) ∨
    ∃ T ∈ begun, T.id = v.createdBy ∧ T.startTs = v.createdTs ∧ tm.live T.id = true
  deleted : ∀ d, v.deletedBy = some d →
    ∃ D ∈ begun, D.id = d ∧ v.deletedTs = some D.startTs ∧ tm.live d = true ∧
      (v.createdBy = 0 ∨ tm.committedBefore v.createdBy D = true)

/-- What was committed before a transaction began was written before it wrote. -/
def Late (tm : TransactionManager) (begun : List Transaction) (ws : List (Write α)) : Prop :=
  ws.Pairwise (fun w w' => ∀ T ∈ begun, T.id = w.txn →
    w'.txn ≠ 0 ∧ tm.committedBefore w'.txn T = false)

structure Inv (key : Bytes) (s : State α) : Prop where
  timeline : Timeline s.tm s.begun
  stamped : ∀ v ∈ chain s.store key, Stamped s.tm s.begun v
  known : ∀ w ∈ s.writes, w.txn = 0 ∨ ∃ T ∈ s.begun, T.id = w.txn
  grounded : ∀ w ∈ s.writes, (w.txn = 0 ∨ s.tm.live w.txn = true) → ∃ v ∈ chain s.store key,
    v.createdBy = 0 ∨ s.tm.isCommitted v.createdBy = true ∨ v.createdBy = w.txn
  late : Late s.tm s.begun s.writes
  views : ∀ S, View s.tm s.begun S → readIn S (chain s.store key) = lastIn S s.writes

lemma init_inv (key : Bytes) : Inv key (init : State α) where
  timeline := timeline_new
  stamped := by simp [init, VersionStore.new, chain]
  known := by simp [init]
  grounded := by simp [init]
  late := List.Pairwise.nil
  views := fun S _ => rfl

section
variable {key : Bytes} {s : State α} {id : TxnId} {R : Transaction}

def viewOf (s : State α) (R : Transaction) (u : TxnId) : Bool :=
  u = R.id ∨ u = 0 ∨ s.tm.committedBefore u R

lemma committed_of_before {tm : TransactionManager} {u : TxnId}
    (h : tm.committedBefore u R = true) : tm.isCommitted u = true := by
  rw [committedBefore] at h
  rw [isCommitted]
  cases hc : tm.committedTxns.lookup u with
  | none => simp [hc] at h
  | some cts => rfl

lemma Inv.active_uncommitted (h : Inv key s) (hR : s.tm.activeTxns.lookup id = some R) :
    s.tm.isCommitted id = false := by
  rw [isCommitted]
  cases hc : s.tm.committedTxns.lookup id with
  | none => rfl
  | some cts => simp [h.timeline.committed_inactive id cts hc] at hR

lemma view_of_view (h : Inv key s) (hR : s.tm.activeTxns.lookup id = some R) :
    View s.tm s.begun (viewOf s R) := by
  obtain ⟨hmem,rfl,-⟩ := h.timeline.active_begun id R hR
  constructor
  · simp [viewOf]
  · intro T hT hS
    simp only [viewOf, decide_eq_true_eq] at hS
    rcases hS with hS | hS | hS
    · rw [hS]
      simp [live, isActive, hR]
    · exact absurd hS (h.timeline.id_pos T hT).ne'
    · simp [live, committed_of_before hS]
  intro T hT hS u hu
  simp only [viewOf, decide_eq_true_eq] at hS ⊢
  rcases hS with hS | hS | hS
  · rw [h.timeline.unique T hT R hmem hS] at hu
    exact .inr (.inr hu)
  · exact absurd hS (h.timeline.id_pos T hT).ne'
  right; right
  rw [committedBefore, Option.any_eq_true] at hu hS ⊢
  obtain ⟨cu,hcu,hlt⟩ := hu
  obtain ⟨ct,hct,hlt'⟩ := hS
  obtain ⟨U,hU,hid,hst⟩ := h.timeline.committed_begun _ ct hct
  rw [h.timeline.unique U hU T hT hid] at hst
  refine ⟨cu,hcu,?_⟩
  simp only [decide_eq_true_eq] at hlt hlt' ⊢
  exact hlt.trans (hst.trans hlt')

lemma Inv.sees_created (h : Inv key s) (hR : R ∈ s.begun) {v : VersionedTuple α}
    (hv : Stamped s.tm s.begun v) (hne : v.createdBy ≠ R.id) :
    (v.createdBy ∉ R.snapshotActive ∧ v.createdTs ≤ R.startTs) ↔ viewOf s R v.createdBy = true := by
  simp only [viewOf, decide_eq_true_eq, hne, false_or]
  rcases hv.created with ⟨hc,hts⟩ | ⟨T,hT,hid,hts,hlive⟩
  · rw [hc, hts]
    refine ⟨fun _ => .inl rfl,fun _ => ⟨?_,Nat.zero_le _⟩⟩
    intro hin
    obtain ⟨U,hU,hid,-⟩ := h.timeline.snapshot_begun R hR 0 hin
    exact (h.timeline.id_pos U hU).ne' hid
  · rw [← hid, ← hts, h.timeline.sees_iff hR hT hlive (hid ▸ hne)]
    have hpos := (h.timeline.id_pos T hT).ne'
    simp [hpos]

/-- The code's visibility test, for a version that came about without a
transaction deleting its own. -/
lemma Inv.visible_iff (h : Inv key s) (hR : s.tm.activeTxns.lookup id = some R)
    {v : VersionedTuple α} (hv : Stamped s.tm s.begun v) :
    isVisible v id R.startTs R.snapshotActive = visibleIn (viewOf s R) v := by
  obtain ⟨hmem,rfl,-⟩ := h.timeline.active_begun id R hR
  by_cases hc : v.createdBy = R.id
  · have hnone : v.deletedBy = none := by
      cases hd : v.deletedBy with
      | none => rfl
      | some d =>
        obtain ⟨D,-,-,-,-,hcb⟩ := hv.deleted d hd
        rcases hcb with h0 | hcb
        · exact absurd (hc.symm.trans h0) (h.timeline.id_pos R hmem).ne'
        · have := committed_of_before hcb
          rw [hc, h.active_uncommitted hR] at this
          exact absurd this (by simp)
    simp [isVisible, visibleIn, viewOf, hc, hnone]
  have hsees := h.sees_created hmem hv hc
  rw [isVisible, if_neg hc, visibleIn]
  by_cases hs : viewOf s R v.createdBy = true
  · obtain ⟨hin,hts⟩ := hsees.mpr hs
    rw [if_neg hin, if_neg (not_lt.mpr hts), hs]
    cases hd : v.deletedBy with
    | none => rfl
    | some d =>
      obtain ⟨D,hD,rfl,hdts,hlive,-⟩ := hv.deleted d hd
      by_cases hdr : D.id = R.id
      · simp [viewOf, hdr]
      have hiff := h.timeline.sees_iff hmem hD hlive hdr
      have hpos := (h.timeline.id_pos D hD).ne'
      by_cases hda : D.id ∈ R.snapshotActive
      · have hcb : s.tm.committedBefore D.id R = false := by
          rw [Bool.eq_false_iff]
          exact fun hcb => (hiff.mpr hcb).1 hda
        simp [hdr, hda, viewOf, hpos, hcb]
      · by_cases hle : D.startTs ≤ R.startTs
        · have hcb := hiff.mp ⟨hda,hle⟩
          simp [hdr, hda, hdts, hle, viewOf, hcb]
        · have hcb : s.tm.committedBefore D.id R = false := by
            rw [Bool.eq_false_iff]
            exact fun hcb => hle (hiff.mpr hcb).2
          simp [hdr, hda, hdts, hle, viewOf, hpos, hcb]
  · have hs' := Bool.eq_false_iff.mpr hs
    rw [hs']
    by_cases hin : v.createdBy ∈ R.snapshotActive
    · rw [if_pos hin]
      rfl
    · rw [if_neg hin, if_pos]
      · rfl
      · by_contra hts
        exact hs (hsees.mp ⟨hin,not_lt.mp hts⟩)

lemma first_visible_eq (c : Chain α) (p : VersionedTuple α → Bool) :
    (c.reverse.find? p).map VersionedTuple.data =
      ((c.filter p).map VersionedTuple.data).getLast? := by
  rw [getLast?_map, getLast?_eq_head?_reverse, ← filter_reverse, head?_filter]

lemma last_own {β : Type} (p q : β → Bool) (ws : List β)
    (h : ws.Pairwise (fun a b => p a = true → q b = false)) :
    (ws.filter (fun w => p w || q w)).getLast? =
      (ws.filter p).getLast?.or (ws.filter q).getLast? := by
  induction ws using reverseRecOn with
  | nil => rfl
  | append_singleton ws a ih =>
    obtain ⟨hws,-,ha⟩ := pairwise_append.mp h
    rw [filter_append, filter_append, filter_append]
    cases hp : p a with
    | true => simp [hp]
    | false =>
      cases hq : q a with
      | false => simpa [hp, hq] using ih hws
      | true =>
        have hnone : ws.filter p = [] := by
          apply filter_eq_nil_iff.mpr
          intro w hw hpw
          simp [ha w hw a (by simp) hpw] at hq
        simp [hp, hq, hnone]

lemma Inv.expected_eq (h : Inv key s) (hR : R ∈ s.begun) :
    (s.writes.filter (fun w => viewOf s R w.txn)).getLast? = expected s R := by
  have hlast := last_own (fun w : Write α => decide (w.txn = R.id))
    (fun w => decide (w.txn = 0 ∨ s.tm.committedBefore w.txn R = true)) s.writes (by
      refine h.late.imp ?_
      intro w w' hw hown
      obtain ⟨h0,hcb⟩ := hw R hR (of_decide_eq_true hown).symm
      simp [h0, hcb])
  have hfilter : s.writes.filter (fun w => viewOf s R w.txn) =
      s.writes.filter (fun w => decide (w.txn = R.id) ||
        decide (w.txn = 0 ∨ s.tm.committedBefore w.txn R = true)) := by
    apply filter_congr
    intro w _
    simp [viewOf, Bool.decide_or]
  rw [hfilter, hlast, expected]
  cases (s.writes.filter (fun w => decide (w.txn = R.id))).getLast? <;> rfl

lemma Inv.read_eq (h : Inv key s) (hR : s.tm.activeTxns.lookup id = some R) :
    firstVisible (chain s.store key) id R.startTs R.snapshotActive =
      (expected s R).bind Write.value := by
  obtain ⟨hmem,-,-⟩ := h.timeline.active_begun id R hR
  have hviews := h.views (viewOf s R) (view_of_view h hR)
  rw [lastIn, h.expected_eq hmem] at hviews
  rw [firstVisible, first_visible_eq, ← hviews, readIn]
  congr 2
  apply filter_congr
  intro v hv
  exact h.visible_iff hR (h.stamped v hv)

lemma Inv.reads_right (h : Inv key s) : ReadsRight key s := by
  intro id R hR
  obtain ⟨hmem,hid,-⟩ := h.timeline.active_begun id R hR
  have hread := h.read_eq hR
  cases he : expected s R with
  | none =>
    intro v
    rw [he] at hread
    by_cases hc : chain s.store key = []
    · simp [lookupForRead, readChain, hc]
    · simp [lookupForRead, readChain, hc, hread]
  | some w =>
    have hw : w ∈ s.writes.filter (fun w => viewOf s R w.txn) := by
      apply mem_of_mem_getLast?
      rw [h.expected_eq hmem, he]
      rfl
    obtain ⟨hws,hview⟩ := mem_filter.mp hw
    have hlive : w.txn = 0 ∨ s.tm.live w.txn = true := by
      rcases h.known w hws with h0 | ⟨T,hT,hTw⟩
      · exact .inl h0
      · exact .inr (hTw ▸ (view_of_view h hR).live T hT (hTw ▸ hview))
    obtain ⟨v,hv,-⟩ := h.grounded w hws hlive
    have hne : chain s.store key ≠ [] := ne_nil_of_mem hv
    rw [he] at hread
    obtain ⟨txn,value⟩ := w
    cases value with
    | none | some => simp [lookupForRead, readChain, hne, hread, Write.effect]

end

/-! Each step of a history of clean deletes keeps the invariant, so every read in it
is right. The shortest history with another delete gets a read wrong. -/

variable {key : Bytes} {s : State α} {tm : TransactionManager} {begun : List Transaction}

lemma View.active_ne_zero (h : Timeline tm begun) {id : TxnId} {T : Transaction}
    (hT : tm.activeTxns.lookup id = some T) : id ≠ 0 := by
  obtain ⟨hmem,rfl,-⟩ := h.active_begun id T hT
  exact (h.id_pos T hmem).ne'

variable {S : TxnId → Bool}

section
variable {id : TxnId} {T : Transaction}

lemma Inv.push_late (h : Inv key s) (hT : s.tm.activeTxns.lookup id = some T)
    (value : Option α) : Late s.tm s.begun (s.writes++[⟨id,value⟩]) := by
  refine pairwise_append.mpr ⟨h.late,pairwise_singleton _ _,?_⟩
  intro w _ w' hw' U _ _
  obtain rfl := mem_singleton.mp hw'
  refine ⟨View.active_ne_zero h.timeline hT,?_⟩
  rw [Bool.eq_false_iff]
  intro hcb
  have := committed_of_before hcb
  rw [h.active_uncommitted hT] at this
  exact absurd this (by simp)

lemma Inv.push_known (h : Inv key s) (hT : s.tm.activeTxns.lookup id = some T) (value : Option α) :
    ∀ w ∈ s.writes++[⟨id,value⟩], w.txn = 0 ∨ ∃ T ∈ s.begun, T.id = w.txn := by
  obtain ⟨hmem,hid,-⟩ := h.timeline.active_begun id T hT
  intro w hw
  rcases mem_append.mp hw with hw | hw
  · exact h.known w hw
  · obtain rfl := mem_singleton.mp hw
    exact .inr ⟨T,hmem,hid⟩

variable {store : VersionStore α}

lemma Inv.push (h : Inv key s) (hT : s.tm.activeTxns.lookup id = some T) (tuple : α)
    (hc : chain store key = chain s.store key++[.fresh tuple id T.startTs]) :
    Inv key { s with store := store, writes := s.writes++[⟨id,some tuple⟩] } := by
  obtain ⟨hmem,hid,-⟩ := h.timeline.active_begun id T hT
  have hlive : s.tm.live id = true := by simp [live, isActive, hT]
  constructor
  case timeline => exact h.timeline
  case stamped =>
    intro v hv
    rw [hc] at hv
    rcases mem_append.mp hv with hv | hv
    · exact h.stamped v hv
    · obtain rfl := mem_singleton.mp hv
      exact ⟨.inr ⟨T,hmem,hid,rfl,hid ▸ hlive⟩,by simp [VersionedTuple.fresh]⟩
  case known => exact h.push_known hT (some tuple)
  case grounded =>
    intro w hw hl
    rw [hc]
    rcases mem_append.mp hw with hw | hw
    · obtain ⟨v,hv,hv'⟩ := h.grounded w hw hl
      exact ⟨v,by simp [hv],hv'⟩
    · obtain rfl := mem_singleton.mp hw
      exact ⟨.fresh tuple id T.startTs,by simp,.inr (.inr rfl)⟩
  case late => exact h.push_late hT (some tuple)
  case views =>
    intro S hS
    have hv := h.views S hS
    rw [hc]
    simp only [readIn, lastIn, filter_append] at hv ⊢
    by_cases hSid : S id = true
    · simp [visibleIn, VersionedTuple.fresh, hSid]
    · simpa [visibleIn, VersionedTuple.fresh, hSid] using hv

variable {latest : VersionedTuple α}

section
variable (h : Inv key s) (hT : s.tm.activeTxns.lookup id = some T)
include h hT

lemma Inv.marks_seen (hl : Stamped s.tm s.begun latest) (hm : marks T latest = true)
    (hown : latest.createdBy ≠ id) : (latest.deletedBy = none ∨ latest.deletedBy = some id) ∧
      (latest.createdBy = 0 ∨ s.tm.committedBefore latest.createdBy T = true) := by
  obtain ⟨hmem,rfl,-⟩ := h.timeline.active_begun id T hT
  simp only [marks, deletedByOther, conflicts, Bool.and_eq_true, Bool.not_eq_true',
    decide_eq_false_iff_not, not_or, not_and] at hm
  obtain ⟨hd,hact,hts,-⟩ := hm
  constructor
  · cases hdel : latest.deletedBy with
    | none => exact .inl rfl
    | some d => exact .inr (by simpa [hdel] using hd)
  · have hview := (h.sees_created hmem hl hown).mp ⟨hact hown,not_lt.mp (hts hown)⟩
    simpa [viewOf, hown] using hview

lemma Inv.ended_invisible (hS : View s.tm s.begun S) (hid : S id = true) {v : VersionedTuple α}
    (hv : Stamped s.tm s.begun v) (he : endedFor T v = true) : visibleIn S v = false := by
  obtain ⟨hmem,rfl,-⟩ := h.timeline.active_begun id T hT
  simp only [endedFor, decide_eq_true_eq, Option.any_eq_true] at he
  rcases he with he | ⟨⟨d,hd,hin⟩,ts,hts,hle⟩
  · simp [visibleIn, he, hid]
  obtain ⟨D,hD,rfl,hdts,hlive,-⟩ := hv.deleted d hd
  have hSd : S D.id = true := by
    by_cases heq : D.id = T.id
    · exact heq ▸ hid
    apply hS.down T hmem hid
    apply (h.timeline.sees_iff hmem hD hlive heq).mp
    rw [hdts] at hts
    obtain rfl := Option.some.inj hts
    exact ⟨by simpa using hin,by simpa using hle⟩
  simp [visibleIn, hd, hSd]

lemma Inv.mark {pre : Chain α} (hc : chain s.store key = pre++[latest])
    (hm : marks T latest = true) (hown : latest.createdBy ≠ id)
    (hpre : ∀ v ∈ pre, endedFor T v = true) (hc' : chain store key =
      pre++[{ latest with deletedBy := some id, deletedTs := some T.startTs }]) :
    Inv key { s with store := store, writes := s.writes++[⟨id,none⟩] } := by
  obtain ⟨hmem,hid,-⟩ := h.timeline.active_begun id T hT
  have hlive : s.tm.live id = true := by simp [live, isActive, hT]
  have hst : ∀ v ∈ pre++[latest], Stamped s.tm s.begun v := hc ▸ h.stamped
  obtain ⟨hdel,hseen⟩ := h.marks_seen hT (hst latest (by simp)) hm hown
  constructor
  case timeline => exact h.timeline
  case stamped =>
    intro v hv
    rw [hc'] at hv
    rcases mem_append.mp hv with hv | hv
    · exact hst v (by simp [hv])
    · obtain rfl := mem_singleton.mp hv
      refine ⟨(hst latest (by simp)).created,?_⟩
      rintro d ⟨⟩
      exact ⟨T,hmem,hid,rfl,hlive,hseen⟩
  case known => exact h.push_known hT none
  case grounded =>
    intro w hw hl
    rw [hc']
    rcases mem_append.mp hw with hw | hw
    · obtain ⟨v,hv,hv'⟩ := h.grounded w hw hl
      rw [hc] at hv
      rcases mem_append.mp hv with hv | hv
      · exact ⟨v,by simp [hv],hv'⟩
      · obtain rfl := mem_singleton.mp hv
        exact ⟨_,mem_append_right _ (mem_singleton_self _),hv'⟩
    · refine ⟨_,mem_append_right _ (mem_singleton_self _),?_⟩
      exact hseen.imp_right (fun hcb => .inl (committed_of_before hcb))
  case late => exact h.push_late hT none
  case views =>
    intro S hS
    have hv := h.views S hS
    rw [hc] at hv
    rw [hc']
    simp only [readIn, lastIn, filter_append] at hv ⊢
    by_cases hSid : S id = true
    · have hnone : pre.filter (visibleIn S) = [] := by
        apply filter_eq_nil_iff.mpr
        intro v hv
        simp [h.ended_invisible hT hS hSid (hst v (by simp [hv])) (hpre v hv)]
      simp [hnone, visibleIn, hSid]
    · have hsame : visibleIn S { latest with deletedBy := some id, deletedTs := some T.startTs } =
          visibleIn S latest := by
        rcases hdel with hdel | hdel <;> simp [visibleIn, hdel, hSid]
      cases hvis : visibleIn S latest with
      | true | false => simpa [hsame, hvis, hSid] using hv

end

lemma Inv.base (h : Inv key s) (hc : chain s.store key = []) (committed : α) : Inv key { s with
      store := ensureBase s.store key committed
      writes := ⟨0,some committed⟩::s.writes } := by
  have hc' : chain (ensureBase s.store key committed) key = [.fresh committed 0 0] := by
    rw [ensureBase, if_pos hc, chain_insert, if_pos rfl]
  have hdead : ∀ w ∈ s.writes, ¬(w.txn = 0 ∨ s.tm.live w.txn = true) := by
    intro w hw hl
    obtain ⟨v,hv,-⟩ := h.grounded w hw hl
    simp [hc] at hv
  constructor
  case timeline => exact h.timeline
  case stamped =>
    intro v hv
    rw [hc'] at hv
    obtain rfl := mem_singleton.mp hv
    exact ⟨.inl ⟨rfl,rfl⟩,by simp [VersionedTuple.fresh]⟩
  case known =>
    intro w hw
    rcases mem_cons.mp hw with rfl | hw
    · exact .inl rfl
    · exact h.known w hw
  case grounded =>
    intro w hw hl
    rcases mem_cons.mp hw with rfl | hw
    · exact ⟨.fresh committed 0 0,by simp [hc'],.inl rfl⟩
    · exact absurd hl (hdead w hw)
  case late =>
    refine pairwise_cons.mpr ⟨?_,h.late⟩
    intro w _ T hT h0
    exact absurd h0 (h.timeline.id_pos T hT).ne'
  case views =>
    intro S hS
    have hnone : s.writes.filter (fun w => S w.txn) = [] := by
      apply filter_eq_nil_iff.mpr
      intro w hw hSw
      rcases h.known w hw with h0 | ⟨T,hT,hTw⟩
      · exact hdead w hw (.inl h0)
      · exact hdead w hw (.inr (hTw ▸ hS.live T hT (hTw ▸ hSw)))
    rw [hc']
    simp [readIn, lastIn, hnone, visibleIn, VersionedTuple.fresh, hS.zero]

end

section
variable {tm' : TransactionManager} {id : TxnId} {T : Transaction}

lemma Inv.unwritten (h : Inv key s) : ∀ w ∈ s.writes, w.txn ≠ s.tm.nextTxnId := by
  intro w hw hid
  rcases h.known w hw with h0 | ⟨T,hT,hTw⟩
  · exact absurd (h0.symm.trans hid) h.timeline.next_pos.ne
  · exact absurd (hTw.trans hid) (h.timeline.id_lt T hT).ne

lemma Inv.begin (h : Inv key s) (isolation : IsolationLevel) : Inv key { s with
      tm := (s.tm.begin isolation).1
      begun := s.begun++[begunTxn s.tm isolation] } := by
  have hne : ∀ T ∈ s.begun, T.id ≠ s.tm.nextTxnId := fun T hT => (h.timeline.id_lt T hT).ne
  have hold : ∀ T ∈ s.begun, (s.tm.begin isolation).1.live T.id = s.tm.live T.id :=
    fun T hT => live_begin s.tm isolation (hne T hT)
  have hmem : ∀ T ∈ s.begun, T ∈ s.begun++[begunTxn s.tm isolation] := by
    intro T hT
    simp [hT]
  constructor
  case timeline => exact timeline_begin h.timeline isolation
  case stamped =>
    intro v hv
    have hst := h.stamped v hv
    constructor
    · rcases hst.created with h0 | ⟨T,hT,hid,hts,hl⟩
      · exact .inl h0
      · exact .inr ⟨T,hmem T hT,hid,hts,(hold T hT).trans hl⟩
    · intro d hd
      obtain ⟨D,hD,hid,hts,hl,hcb⟩ := hst.deleted d hd
      exact ⟨D,hmem D hD,hid,hts,hid ▸ (hold D hD).trans (hid ▸ hl),hcb⟩
  case known =>
    intro w hw
    exact (h.known w hw).imp_right (fun ⟨T,hT,hid⟩ => ⟨T,hmem T hT,hid⟩)
  case grounded =>
    intro w hw hl
    rw [live_begin s.tm isolation (h.unwritten w hw)] at hl
    exact h.grounded w hw hl
  case late =>
    refine h.late.imp_of_mem ?_
    intro w w' hw _ hlate T hT hid
    rcases mem_append.mp hT with hT | hT
    · exact hlate T hT hid
    · rw [mem_singleton.mp hT] at hid
      exact absurd hid.symm (h.unwritten w hw)
  case views =>
    intro S hS
    refine h.views S ⟨hS.zero,?_,?_⟩
    · exact fun T hT hST => (hold T hT).symm.trans (hS.live T (hmem T hT) hST)
    · exact fun R hR hSR u hu => hS.down R (hmem R hR) hSR u hu

lemma committed_before_ended
    {commit : Option Timestamp} (h : Timeline tm begun) (hT : tm.activeTxns.lookup id = some T)
    (he : Ended tm tm' id commit) (u : TxnId) {R : Transaction} (hR : R ∈ begun) :
    tm'.committedBefore u R = tm.committedBefore u R := by
  have hclock := he.clock
  cases commit with
  | none => rw [committedBefore, committedBefore, hclock.2]
  | some cts =>
    obtain ⟨rfl,-,hcom⟩ := hclock
    rw [committedBefore, committedBefore, hcom, lookup_insert_eq]
    by_cases hu : u = id
    · subst hu
      have hnone : tm.committedTxns.lookup u = none := by
        cases hc : tm.committedTxns.lookup u with
        | none => rfl
        | some c => simp [h.committed_inactive u c hc] at hT
      have hlt := (h.start_lt R hR).le
      simpa [hnone] using hlt
    · rw [if_neg hu]

lemma Inv.commit {cts : Timestamp} (h : Inv key s)
    (hT : s.tm.activeTxns.lookup id = some T) (he : Ended s.tm tm' id (some cts)) :
    Inv key { s with tm := tm' } := by
  have hcb : ∀ u, ∀ R ∈ s.begun, tm'.committedBefore u R = s.tm.committedBefore u R :=
    fun u R hR => committed_before_ended h.timeline hT he u hR
  have hl := fun u => live_committed hT he u
  constructor
  case timeline => exact timeline_committed h.timeline hT he
  case stamped =>
    intro v hv
    have hst := h.stamped v hv
    constructor
    · rcases hst.created with h0 | ⟨T,hT,hid,hts,hlive⟩
      · exact .inl h0
      · exact .inr ⟨T,hT,hid,hts,(hl T.id).1.trans hlive⟩
    · intro d hd
      obtain ⟨D,hD,hid,hts,hlive,hc⟩ := hst.deleted d hd
      exact ⟨D,hD,hid,hts,(hl d).1.trans hlive,by rw [hcb _ D hD]; exact hc⟩
  case known => exact h.known
  case grounded =>
    intro w hw hlive
    rw [(hl w.txn).1] at hlive
    obtain ⟨v,hv,hv'⟩ := h.grounded w hw hlive
    exact ⟨v,hv,hv'.imp_right (fun h' => h'.imp_left (hl v.createdBy).2)⟩
  case late =>
    refine h.late.imp ?_
    intro w w' hlate R hR hid
    rw [hcb _ R hR]
    exact hlate R hR hid
  case views =>
    intro S hS
    refine h.views S ⟨hS.zero,?_,?_⟩
    · exact fun R hR hSR => (hl R.id).1.symm.trans (hS.live R hR hSR)
    · exact fun R hR hSR u hu => hS.down R hR hSR u ((hcb u R hR).trans hu)

lemma read_rollback (hS : S id = false) (c : Chain α) :
    readIn S (rollbackChain id c) = readIn S c := by
  rw [readIn, readIn, rollbackChain]
  congr 1
  induction c with
  | nil => rfl
  | cons v c ih =>
    have hdata : (restore id v).data = v.data ∧ (restore id v).createdBy = v.createdBy := by
      by_cases hd : v.deletedBy = some id <;> simp [restore, hd]
    have hvis : visibleIn S (restore id v) = visibleIn S v := by
      by_cases hd : v.deletedBy = some id
      · simp [restore, visibleIn, hd, hS]
      · simp [restore, hd]
    by_cases hv : v.createdBy = id
    · have hinv : visibleIn S v = false := by simp [visibleIn, hv, hS]
      simpa [hdata.2, hv, hinv] using ih
    · cases hvs : visibleIn S v with
      | true | false => simpa [hdata, hv, hvis, hvs] using ih

lemma Inv.abort (h : Inv key s) (hT : s.tm.activeTxns.lookup id = some T)
    (he : Ended s.tm tm' id none) :
    Inv key { s with tm := tm', store := rollbackTxn s.store id } := by
  have hcb : ∀ u, ∀ R ∈ s.begun, tm'.committedBefore u R = s.tm.committedBefore u R :=
    fun u R hR => committed_before_ended h.timeline hT he u hR
  have hl := fun u => live_aborted h.timeline hT he u
  obtain ⟨hmem,hid,-⟩ := h.timeline.active_begun id T hT
  have hlive : ∀ u, u ≠ id → s.tm.live u = true → tm'.live u = true := by
    intro u hu hlu
    rw [(hl u).1]
    simp [hu, hlu]
  constructor
  case timeline => exact timeline_aborted h.timeline he
  case stamped =>
    intro v' hv'
    rw [chain_rollback, rollbackChain, mem_filter, mem_map] at hv'
    obtain ⟨⟨v,hv,rfl⟩,hne⟩ := hv'
    have hst := h.stamped v hv
    have hcreated (hne : v.createdBy ≠ id) : (v.createdBy = 0 ∧ v.createdTs = 0) ∨
        ∃ U ∈ s.begun, U.id = v.createdBy ∧ U.startTs = v.createdTs ∧ tm'.live U.id = true :=
      hst.created.imp_right (fun ⟨U,hU,hUid,hts,hlu⟩ =>
        ⟨U,hU,hUid,hts,hlive U.id (hUid ▸ hne) hlu⟩)
    by_cases hd : v.deletedBy = some id
    · have hr : restore id v = { v with deletedBy := none, deletedTs := none } := by
        simp [restore, hd]
      rw [hr] at hne ⊢
      exact ⟨hcreated (by simpa using hne),by simp⟩
    · have hr : restore id v = v := by simp [restore, hd]
      rw [hr] at hne ⊢
      refine ⟨hcreated (by simpa using hne),fun d hdd => ?_⟩
      obtain ⟨D,hD,hDid,hts,hld,hc⟩ := hst.deleted d hdd
      have hne' : d ≠ id := by
        rintro rfl
        exact hd hdd
      exact ⟨D,hD,hDid,hts,hlive d hne' hld,by rw [hcb _ D hD]; exact hc⟩
  case known => exact h.known
  case grounded =>
    intro w hw hlw
    have hwid : w.txn ≠ id := by
      rintro hw0
      rcases hlw with h0 | hlw
      · exact View.active_ne_zero h.timeline hT (hw0.symm.trans h0)
      · rw [(hl w.txn).1, hw0] at hlw
        simp at hlw
    have hlw' : w.txn = 0 ∨ s.tm.live w.txn = true := by
      refine hlw.imp_right (fun hlw => ?_)
      rw [(hl w.txn).1] at hlw
      simpa [hwid] using hlw
    obtain ⟨v,hv,hv'⟩ := h.grounded w hw hlw'
    have hcr : (restore id v).createdBy = v.createdBy := by
      by_cases hd : v.deletedBy = some id <;> simp [restore, hd]
    have hvid : v.createdBy ≠ id := by
      rintro heq
      rcases hv' with h0 | hc | hw0
      · exact View.active_ne_zero h.timeline hT (heq.symm.trans h0)
      · rw [heq, h.active_uncommitted hT] at hc
        simp at hc
      · exact hwid (hw0.symm.trans heq)
    refine ⟨restore id v,?_,?_⟩
    · rw [chain_rollback, rollbackChain, mem_filter, mem_map]
      exact ⟨⟨v,hv,rfl⟩,by simpa [hcr] using hvid⟩
    · rw [hcr, (hl v.createdBy).2]
      exact hv'
  case late =>
    refine h.late.imp ?_
    intro w w' hlate R hR hid
    rw [hcb _ R hR]
    exact hlate R hR hid
  case views =>
    intro S hS
    have hSid : S id = false := by
      rw [Bool.eq_false_iff]
      intro hSid
      have hdead := hS.live T hmem (hid ▸ hSid)
      rw [hid, (hl id).1] at hdead
      simp at hdead
    rw [chain_rollback, read_rollback hSid]
    refine h.views S ⟨hS.zero,?_,?_⟩
    · intro R hR hSR
      have hlR := hS.live R hR hSR
      rw [(hl R.id).1, Bool.and_eq_true] at hlR
      exact hlR.2
    · exact fun R hR hSR u hu => hS.down R hR hSR u ((hcb u R hR).trans hu)

end

lemma update_cases (T : Transaction) (id : TxnId) (tuple : α) :
    tryUpdate s.store key tuple id T.startTs T.startTs T.snapshotActive =
        (s.store,.error .writeConflict) ∨
      tryUpdate s.store key tuple id T.startTs T.startTs T.snapshotActive =
        (insert s.store key tuple id T.startTs,.ok ()) := by
  rw [tryUpdate]
  split
  · exact .inl rfl
  · exact .inr rfl

lemma delete_cases (T : Transaction) (id : TxnId) (hid : T.id = id) : (∃ r, r ≠ .ok true ∧
      tryDelete s.store key id T.startTs T.startTs T.snapshotActive = (s.store,r)) ∨
    ∃ pre latest store, chain s.store key = pre++[latest] ∧ marks T latest = true ∧
      chain store key = pre++[{ latest with deletedBy := some id, deletedTs := some T.startTs }] ∧
      tryDelete s.store key id T.startTs T.startTs T.snapshotActive = (store,.ok true) := by
  rcases tryDelete_cases s.store key id T.startTs T.startTs T.snapshotActive with
    ⟨r,hr,hne⟩ | ⟨pre,latest,hchain,hother,hconf,hr⟩
  · exact .inl ⟨r,hne,hr⟩
  · refine .inr ⟨pre,latest,_,hchain,by simp [marks, hid, hother, hconf],?_,hr⟩
    rw [chain_insert, if_pos rfl]

lemma step_inv {a : Step α} {s' : State α} (h : Inv key s) (hclean : Clean key s a)
    (hs : step key s a = some s') : Inv key s' := by
  cases a with
  | begin isolation =>
    obtain rfl := Option.some.inj hs
    exact h.begin isolation
  | ensureBase committed =>
    by_cases hc : chain s.store key = []
    · simp only [step, if_pos hc, Option.some.injEq] at hs
      exact hs ▸ h.base hc committed
    · simp [step, hc] at hs
  | insert id tuple =>
    obtain ⟨T,hT,hs⟩ := Option.bind_eq_some_iff.mp hs
    obtain rfl := Option.some.inj hs
    exact h.push hT tuple (chain_push ..)
  | tryUpdate id tuple =>
    obtain ⟨T,hT,hs⟩ := Option.bind_eq_some_iff.mp hs
    rcases update_cases T id tuple with hu | hu
    · rw [hu] at hs
      obtain rfl := Option.some.inj hs
      exact h
    · rw [hu] at hs
      obtain rfl := Option.some.inj hs
      exact h.push hT tuple (chain_push ..)
  | tryDelete id =>
    obtain ⟨T,hT,hs⟩ := Option.bind_eq_some_iff.mp hs
    obtain ⟨-,hid,-⟩ := h.timeline.active_begun id T hT
    rcases delete_cases T id hid with ⟨r,hr,hd⟩ | ⟨pre,latest,store,hc,hm,hc',hd⟩
    · rw [hd] at hs
      have hs' : s' = s := by
        rcases r with e | (_ | _)
        · exact (Option.some.inj hs).symm
        · exact (Option.some.inj hs).symm
        · exact absurd rfl hr
      exact hs' ▸ h
    · rw [hd] at hs
      obtain rfl := Option.some.inj hs
      obtain ⟨hown,hpre⟩ := hclean T pre latest hT hc hm
      exact h.mark hT hc hm hown hpre hc'
  | commit id =>
    obtain ⟨T,hT,hs⟩ := Option.bind_eq_some_iff.mp hs
    rcases hcm : s.tm.commit id with ⟨tm',r⟩
    rcases commit_ended h.timeline hT with ⟨cts,hr,he⟩ | ⟨hr,he⟩
    · simp only [hcm] at hr he hs
      subst hr
      obtain rfl := Option.some.inj hs
      exact h.commit hT he
    · simp only [hcm] at hr he hs
      subst hr
      obtain rfl := Option.some.inj hs
      exact h.abort hT he
  | abort id =>
    obtain ⟨T,hT,hs⟩ := Option.bind_eq_some_iff.mp hs
    obtain rfl := Option.some.inj hs
    exact h.abort hT (abort_ended hT)

def CleanRun (key : Bytes) (s : State α) : Prop := Runs.Reaches (step key) (Clean key) init s

lemma clean_run_inv (h : CleanRun key s) : Inv key s :=
  Runs.Reaches.invariant (init_inv key) (fun _ _ _ => step_inv) h

/-- In every run of clean deletes every active reader gets the effect of its
own last write, or of the last write committed before it began. -/
theorem clean_deletes_read_right (key : Bytes) (s : State α) (h : CleanRun key s) :
    ReadsRight key s :=
  (clean_run_inv h).reads_right

theorem clean_delete_of_base :
    ∃ s, run [1] (init : State ℕ) [.begin .repeatableRead, .ensureBase 10, .tryDelete 1] =
        some s ∧ CleanRun [1] s ∧ ReadsRight [1] s ∧
      ∃ T, s.tm.activeTxns.lookup 1 = some T ∧
        lookupForRead s.store [1] 1 T.startTs T.snapshotActive = .tombstone := by
  have hinit : CleanRun [1] (init : State ℕ) := .init
  have hbegin : CleanRun [1] _ := .step (.begin .repeatableRead) hinit trivial rfl
  have hbase : CleanRun [1] _ := .step (.ensureBase 10) hbegin trivial rfl
  have hrun : CleanRun [1] _ := .step (.tryDelete 1) hbase (by
    intro T pre latest _ hc _
    have hc : [VersionedTuple.fresh 10 0 0] = pre++[latest] := hc
    cases pre with
    | nil =>
      obtain rfl : _ = latest := by simpa using hc
      exact ⟨by decide,by simp⟩
    | cons v pre => simp at hc) rfl
  exact ⟨_,rfl,hrun,clean_deletes_read_right [1] _ hrun,_,rfl,rfl⟩

/-- A transaction updates a row and deletes it, and still reads it. -/
theorem own_delete_still_read :
    ∃ s, run [1] (init : State ℕ) [.begin .repeatableRead, .ensureBase 10, .tryUpdate 1 20,
      .tryDelete 1] = some s ∧ ¬ReadsRight [1] s := by
  refine ⟨_,rfl,?_⟩
  intro h
  have hread : (ReadResult.visible 20 : ReadResult ℕ) = .tombstone := h 1 _ rfl
  exact absurd hread (by decide)

end ByteDB.VersionHistory
