import ByteDB.Transaction

/-!
# The timeline of the transactions

Timestamps order the begins and the commits of all transactions. What a
transaction remembers of its begin says, together with the timestamps, which
of the others had committed before.
-/

set_option autoImplicit false

namespace ByteDB
open ByteDB.Assoc

namespace TransactionManager

def committedBefore (tm : TransactionManager) (u : TxnId) (R : Transaction) : Bool :=
  (tm.committedTxns.lookup u).any (· < R.startTs)

def live (tm : TransactionManager) (u : TxnId) : Bool := tm.isActive u || tm.isCommitted u

end TransactionManager

open TransactionManager

structure Timeline (tm : TransactionManager) (begun : List Transaction) : Prop where
  active_begun : ∀ id T, tm.activeTxns.lookup id = some T →
    T ∈ begun ∧ T.id = id ∧ T.status = .active
  next_pos : 0 < tm.nextTxnId
  id_pos : ∀ T ∈ begun, 0 < T.id
  id_lt : ∀ T ∈ begun, T.id < tm.nextTxnId
  start_lt : ∀ T ∈ begun, T.startTs < tm.nextTimestamp
  unique : ∀ T ∈ begun, ∀ U ∈ begun, T.id = U.id → T = U
  ordered : ∀ T ∈ begun, ∀ U ∈ begun, T.id < U.id → T.startTs < U.startTs
  committed_begun : ∀ id cts, tm.committedTxns.lookup id = some cts →
    ∃ T ∈ begun, T.id = id ∧ T.startTs < cts
  committed_lt : ∀ id cts, tm.committedTxns.lookup id = some cts → cts < tm.nextTimestamp
  committed_inactive : ∀ id cts, tm.committedTxns.lookup id = some cts →
    tm.activeTxns.lookup id = none
  commit_ne_start : ∀ id cts, tm.committedTxns.lookup id = some cts → ∀ T ∈ begun, cts ≠ T.startTs
  commit_inj : ∀ id id' cts, tm.committedTxns.lookup id = some cts →
    tm.committedTxns.lookup id' = some cts → id = id'
  snapshot_active : ∀ R ∈ begun, ∀ T ∈ begun, tm.activeTxns.lookup T.id = some T →
    (T.id ∈ R.snapshotActive ↔ T.startTs < R.startTs)
  snapshot_committed : ∀ R ∈ begun, ∀ T ∈ begun, ∀ cts, tm.committedTxns.lookup T.id = some cts →
    (T.id ∈ R.snapshotActive ↔ T.startTs < R.startTs ∧ R.startTs < cts)
  snapshot_begun : ∀ R ∈ begun, ∀ id ∈ R.snapshotActive, ∃ T ∈ begun, T.id = id ∧ T.id < R.id

lemma timeline_new : Timeline .new [] := by
  constructor <;> simp [new]

section
variable {tm tm' : TransactionManager} {begun : List Transaction}

lemma Timeline.start_inj (h : Timeline tm begun) {T U : Transaction} (hT : T ∈ begun)
    (hU : U ∈ begun) (hs : T.startTs = U.startTs) : T = U := by
  rcases lt_trichotomy T.id U.id with hlt | heq | hgt
  · exact absurd hs (h.ordered T hT U hU hlt).ne
  · exact h.unique T hT U hU heq
  · exact absurd hs.symm (h.ordered U hU T hT hgt).ne

lemma Timeline.of_ssi (h : Timeline tm begun) (ssi : Map TxnId SsiState)
    (recent : Map TxnId CommittedSsi) :
    Timeline { tm with ssi := ssi, ssiRecent := recent } begun := by
  obtain ⟨h1,h2,h3,h4,h5,h6,h7,h8,h9,h10,h11,h12,h13,h14,h15⟩ := h
  exact ⟨h1,h2,h3,h4,h5,h6,h7,h8,h9,h10,h11,h12,h13,h14,h15⟩

def begunTxn (tm : TransactionManager) (isolation : IsolationLevel) : Transaction where
  id := tm.nextTxnId
  isolation := isolation
  startTs := tm.nextTimestamp
  status := .active
  snapshotActive := tm.activeTxns.keys

lemma begin_lookup (isolation : IsolationLevel) (id : TxnId) :
    (tm.begin isolation).1.activeTxns.lookup id =
      if id = tm.nextTxnId then some (begunTxn tm isolation) else tm.activeTxns.lookup id :=
  lookup_insert_eq ..

lemma Timeline.next_inactive (h : Timeline tm begun) :
    tm.activeTxns.lookup tm.nextTxnId = none := by
  cases hT : tm.activeTxns.lookup tm.nextTxnId with
  | none => rfl
  | some T =>
    obtain ⟨hmem,hid,-⟩ := h.active_begun _ T hT
    exact absurd hid (h.id_lt T hmem).ne

lemma Timeline.next_uncommitted (h : Timeline tm begun) :
    tm.committedTxns.lookup tm.nextTxnId = none := by
  cases hT : tm.committedTxns.lookup tm.nextTxnId with
  | none => rfl
  | some cts =>
    obtain ⟨T,hmem,hid,-⟩ := h.committed_begun _ cts hT
    exact absurd hid (h.id_lt T hmem).ne

variable {T : Transaction}

lemma Timeline.active_keys (h : Timeline tm begun) (hT : T ∈ begun) :
    T.id ∈ tm.activeTxns.keys ↔ tm.activeTxns.lookup T.id = some T := by
  rw [mem_keys_iff]
  constructor
  · rintro ⟨U,hU⟩
    obtain ⟨hmem,hid,-⟩ := h.active_begun _ U hU
    rw [hU, h.unique T hT U hmem hid.symm]
  · intro hT
    exact ⟨T,hT⟩

lemma timeline_begin (h : Timeline tm begun) (isolation : IsolationLevel) :
    Timeline (tm.begin isolation).1 (begun++[begunTxn tm isolation]) := by
  have hmem : ∀ T, T ∈ begun++[begunTxn tm isolation] ↔
      T ∈ begun ∨ T = begunTxn tm isolation := by simp
  have hne : ∀ T ∈ begun, T.id ≠ tm.nextTxnId := fun T hT => (h.id_lt T hT).ne
  have hold : ∀ T ∈ begun, (tm.begin isolation).1.activeTxns.lookup T.id = some T →
      tm.activeTxns.lookup T.id = some T := by
    intro T hT hl
    rwa [begin_lookup, if_neg (hne T hT)] at hl
  constructor
  case active_begun =>
    intro id T hT
    rw [begin_lookup] at hT
    by_cases hid : id = tm.nextTxnId
    · rw [if_pos hid] at hT
      obtain rfl := Option.some.inj hT
      exact ⟨(hmem _).mpr (.inr rfl),hid.symm,rfl⟩
    · rw [if_neg hid] at hT
      obtain ⟨h1,h2⟩ := h.active_begun id T hT
      exact ⟨(hmem _).mpr (.inl h1),h2⟩
  case next_pos => exact Nat.succ_pos _
  case id_pos =>
    intro T hT
    rcases (hmem T).mp hT with hT | rfl
    · exact h.id_pos T hT
    · exact h.next_pos
  case id_lt =>
    intro T hT
    rcases (hmem T).mp hT with hT | rfl
    · exact Nat.lt_succ_of_lt (h.id_lt T hT)
    · exact Nat.lt_succ_self _
  case start_lt =>
    intro T hT
    rcases (hmem T).mp hT with hT | rfl
    · exact Nat.lt_succ_of_lt (h.start_lt T hT)
    · exact Nat.lt_succ_self _
  case unique =>
    intro T hT U hU hid
    rcases (hmem T).mp hT with hT | rfl
    · rcases (hmem U).mp hU with hU | rfl
      · exact h.unique T hT U hU hid
      · exact absurd hid (hne T hT)
    · rcases (hmem U).mp hU with hU | rfl
      · exact absurd hid.symm (hne U hU)
      · rfl
  case ordered =>
    intro T hT U hU hlt
    rcases (hmem T).mp hT with hT | rfl
    · rcases (hmem U).mp hU with hU | rfl
      · exact h.ordered T hT U hU hlt
      · exact h.start_lt T hT
    · rcases (hmem U).mp hU with hU | rfl
      · exact absurd hlt (not_lt.mpr (h.id_lt U hU).le)
      · exact absurd hlt (lt_irrefl _)
  case committed_begun =>
    intro id cts hc
    obtain ⟨T,hT,hid,hlt⟩ := h.committed_begun id cts hc
    exact ⟨T,(hmem T).mpr (.inl hT),hid,hlt⟩
  case committed_lt => exact fun id cts hc => Nat.lt_succ_of_lt (h.committed_lt id cts hc)
  case committed_inactive =>
    intro id cts hc
    have hc : tm.committedTxns.lookup id = some cts := hc
    have hid : id ≠ tm.nextTxnId := by
      rintro rfl
      simp [h.next_uncommitted] at hc
    rw [begin_lookup, if_neg hid]
    exact h.committed_inactive id cts hc
  case commit_ne_start =>
    intro id cts hc T hT
    rcases (hmem T).mp hT with hT | rfl
    · exact h.commit_ne_start id cts hc T hT
    · exact (h.committed_lt id cts hc).ne
  case commit_inj => exact h.commit_inj
  case snapshot_active =>
    intro R hR T hT hact
    rcases (hmem T).mp hT with hT | rfl
    · rcases (hmem R).mp hR with hR | rfl
      · exact h.snapshot_active R hR T hT (hold T hT hact)
      · constructor
        · exact fun _ => h.start_lt T hT
        · exact fun _ => (h.active_keys hT).mpr (hold T hT hact)
    rcases (hmem R).mp hR with hR | rfl
    · constructor
      · intro hin
        obtain ⟨U,hU,hid,-⟩ := h.snapshot_begun R hR _ hin
        exact absurd hid (hne U hU)
      · intro hlt
        exact absurd hlt (not_lt.mpr (h.start_lt R hR).le)
    · constructor
      · intro hin
        obtain ⟨U,hU⟩ := (mem_keys_iff _ _).mp hin
        simp [begunTxn, h.next_inactive] at hU
      · exact fun hlt => absurd hlt (lt_irrefl _)
  case snapshot_committed =>
    intro R hR T hT cts hc
    have hc : tm.committedTxns.lookup T.id = some cts := hc
    have hT : T ∈ begun := by
      rcases (hmem T).mp hT with hT | rfl
      · exact hT
      · simp [begunTxn, h.next_uncommitted] at hc
    rcases (hmem R).mp hR with hR | rfl
    · exact h.snapshot_committed R hR T hT cts hc
    constructor
    · intro hin
      have hin := (h.active_keys hT).mp hin
      simp [h.committed_inactive _ cts hc] at hin
    · rintro ⟨-,hlt⟩
      exact absurd hlt (not_lt.mpr (h.committed_lt _ cts hc).le)
  case snapshot_begun =>
    intro R hR id hin
    rcases (hmem R).mp hR with hR | rfl
    · obtain ⟨U,hU,hid⟩ := h.snapshot_begun R hR id hin
      exact ⟨U,(hmem U).mpr (.inl hU),hid⟩
    · obtain ⟨U,hU⟩ := (mem_keys_iff _ _).mp hin
      obtain ⟨hmemU,rfl,-⟩ := h.active_begun id U hU
      exact ⟨U,(hmem U).mpr (.inl hmemU),rfl,h.id_lt U hmemU⟩

structure Ended (tm tm' : TransactionManager) (id : TxnId) (commit : Option Timestamp) : Prop where
  nextTxnId : tm'.nextTxnId = tm.nextTxnId
  activeTxns : tm'.activeTxns = tm.activeTxns.erase id
  clock : match commit with
    | none => tm'.nextTimestamp = tm.nextTimestamp ∧ tm'.committedTxns = tm.committedTxns
    | some cts => cts = tm.nextTimestamp ∧ tm'.nextTimestamp = tm.nextTimestamp+1 ∧
        tm'.committedTxns = tm.committedTxns.insert id cts

variable {id : TxnId}

lemma Ended.lookup {commit : Option Timestamp} (h : Ended tm tm' id commit) (u : TxnId) :
    tm'.activeTxns.lookup u = if u = id then none else tm.activeTxns.lookup u := by
  rw [h.activeTxns, lookup_erase_eq]

lemma timeline_aborted (h : Timeline tm begun) (he : Ended tm tm' id none) :
    Timeline tm' begun := by
  obtain ⟨hts,hcom⟩ := he.clock
  have hact : ∀ u T, tm'.activeTxns.lookup u = some T → tm.activeTxns.lookup u = some T := by
    intro u T hT
    rw [he.lookup] at hT
    by_cases hu : u = id
    · simp [hu] at hT
    · simpa [hu] using hT
  constructor
  case active_begun => exact fun u T hT => h.active_begun u T (hact u T hT)
  case next_pos => exact he.nextTxnId ▸ h.next_pos
  case id_pos => exact h.id_pos
  case id_lt => exact he.nextTxnId ▸ h.id_lt
  case start_lt => exact hts ▸ h.start_lt
  case unique => exact h.unique
  case ordered => exact h.ordered
  case committed_begun => exact hcom ▸ h.committed_begun
  case committed_lt => exact hts ▸ hcom ▸ h.committed_lt
  case committed_inactive =>
    intro u cts hc
    rw [hcom] at hc
    rw [he.lookup, h.committed_inactive u cts hc, ite_self]
  case commit_ne_start => exact hcom ▸ h.commit_ne_start
  case commit_inj => exact hcom ▸ h.commit_inj
  case snapshot_active =>
    exact fun R hR T hT ha => h.snapshot_active R hR T hT (hact T.id T ha)
  case snapshot_committed => exact hcom ▸ h.snapshot_committed
  case snapshot_begun => exact h.snapshot_begun

lemma timeline_committed {cts : Timestamp}
    (h : Timeline tm begun) (hT : tm.activeTxns.lookup id = some T)
    (he : Ended tm tm' id (some cts)) : Timeline tm' begun := by
  obtain ⟨hcts,hts,hcom⟩ := he.clock
  obtain ⟨hmem,hid,-⟩ := h.active_begun id T hT
  have hact : ∀ u U, tm'.activeTxns.lookup u = some U →
      u ≠ id ∧ tm.activeTxns.lookup u = some U := by
    intro u U hU
    rw [he.lookup] at hU
    by_cases hu : u = id
    · simp [hu] at hU
    · exact ⟨hu,by simpa [hu] using hU⟩
  have hlook : ∀ u c, tm'.committedTxns.lookup u = some c →
      (u = id ∧ c = tm.nextTimestamp) ∨ tm.committedTxns.lookup u = some c := by
    intro u c hc
    rw [hcom, hcts] at hc
    exact (lookup_insert_cases hc).imp_right (·.2)
  have huncommitted : ∀ c, tm.committedTxns.lookup id ≠ some c := by
    intro c hc
    simp [h.committed_inactive id c hc] at hT
  constructor
  case active_begun => exact fun u U hU => h.active_begun u U (hact u U hU).2
  case next_pos => exact he.nextTxnId ▸ h.next_pos
  case id_pos => exact h.id_pos
  case id_lt => exact he.nextTxnId ▸ h.id_lt
  case start_lt =>
    intro U hU
    rw [hts]
    exact Nat.lt_succ_of_lt (h.start_lt U hU)
  case unique => exact h.unique
  case ordered => exact h.ordered
  case committed_begun =>
    intro u c hc
    rcases hlook u c hc with ⟨rfl,rfl⟩ | hc
    · exact ⟨T,hmem,hid,h.start_lt T hmem⟩
    · exact h.committed_begun u c hc
  case committed_lt =>
    intro u c hc
    rw [hts]
    rcases hlook u c hc with ⟨rfl,rfl⟩ | hc
    · exact Nat.lt_succ_self _
    · exact Nat.lt_succ_of_lt (h.committed_lt u c hc)
  case committed_inactive =>
    intro u c hc
    rw [he.lookup]
    rcases hlook u c hc with ⟨rfl,rfl⟩ | hc
    · rw [if_pos rfl]
    · rw [h.committed_inactive u c hc, ite_self]
  case commit_ne_start =>
    intro u c hc U hU
    rcases hlook u c hc with ⟨rfl,rfl⟩ | hc
    · exact (h.start_lt U hU).ne'
    · exact h.commit_ne_start u c hc U hU
  case commit_inj =>
    intro u u' c hc hc'
    rcases hlook u c hc with ⟨rfl,rfl⟩ | hc
    · rcases hlook u' _ hc' with ⟨rfl,-⟩ | hc'
      · rfl
      · exact absurd rfl (h.committed_lt u' _ hc').ne
    · rcases hlook u' c hc' with ⟨rfl,rfl⟩ | hc'
      · exact absurd rfl (h.committed_lt u _ hc).ne
      · exact h.commit_inj u u' c hc hc'
  case snapshot_active =>
    exact fun R hR U hU ha => h.snapshot_active R hR U hU (hact U.id U ha).2
  case snapshot_committed =>
    intro R hR U hU c hc
    rcases hlook U.id c hc with ⟨hu,rfl⟩ | hc
    · obtain rfl := h.unique U hU T hmem (hu.trans hid.symm)
      rw [h.snapshot_active R hR U hU (by rw [hu, hT])]
      exact ⟨fun hlt => ⟨hlt,h.start_lt R hR⟩,fun hlt => hlt.1⟩
    · exact h.snapshot_committed R hR U hU c hc
  case snapshot_begun => exact h.snapshot_begun

lemma commit_ended (h : Timeline tm begun) (hT : tm.activeTxns.lookup id = some T) :
    (∃ cts, (tm.commit id).2 = .ok cts ∧ Ended tm (tm.commit id).1 id (some cts)) ∨
    ((tm.commit id).2 = .error .serializationConflict ∧ Ended tm (tm.commit id).1 id none) := by
  obtain ⟨-,-,hst⟩ := h.active_begun id T hT
  by_cases hd : (tm.ssi.lookup id).any SsiState.isDangerous = true
  · right
    rw [commit, if_pos hd]
    exact ⟨rfl,rfl,rfl,rfl,rfl⟩
  left
  refine ⟨tm.nextTimestamp,?_⟩
  rw [commit, if_neg hd, hT]
  simp only [hst, ne_eq, not_true, if_false]
  cases tm.ssi.lookup id with
  | none | some => exact ⟨rfl,rfl,rfl,rfl,rfl,rfl⟩

lemma abort_ended (hT : tm.activeTxns.lookup id = some T) : Ended tm (tm.abort id).1 id none := by
  rw [abort, hT]
  by_cases hs : (tm.ssi.lookup id).isSome = true
  · rw [if_pos hs]
    exact ⟨rfl,rfl,rfl,rfl⟩
  · rw [if_neg hs]
    exact ⟨rfl,rfl,rfl,rfl⟩

lemma Timeline.sees_iff (h : Timeline tm begun) {R T : Transaction} (hR : R ∈ begun)
    (hT : T ∈ begun) (hlive : tm.live T.id = true) (hne : T.id ≠ R.id) :
    (T.id ∉ R.snapshotActive ∧ T.startTs ≤ R.startTs) ↔ tm.committedBefore T.id R = true := by
  have hstart : T.startTs ≠ R.startTs := fun hs => hne (by rw [h.start_inj hT hR hs])
  rw [committedBefore]
  cases hc : tm.committedTxns.lookup T.id with
  | none =>
    have hact : tm.activeTxns.lookup T.id = some T := by
      apply (h.active_keys hT).mp
      rw [mem_keys_iff, ← Option.isSome_iff_exists]
      simpa [live, isActive, isCommitted, hc] using hlive
    rw [h.snapshot_active R hR T hT hact]
    simp
    grind
  | some cts =>
    have hcs := h.commit_ne_start _ cts hc R hR
    obtain ⟨U,hU,hid,hlt⟩ := h.committed_begun _ cts hc
    obtain rfl := h.unique U hU T hT hid
    rw [h.snapshot_committed R hR U hU cts hc]
    simp
    grind

lemma live_begin (tm : TransactionManager) (isolation : IsolationLevel) {u : TxnId}
    (hu : u ≠ tm.nextTxnId) : (tm.begin isolation).1.live u = tm.live u := by
  have hcom : (tm.begin isolation).1.isCommitted u = tm.isCommitted u := rfl
  rw [live, live, isActive, isActive, begin_lookup, if_neg hu, hcom]

lemma live_committed {cts : Timestamp}
    (hT : tm.activeTxns.lookup id = some T) (he : Ended tm tm' id (some cts)) (u : TxnId) :
    tm'.live u = tm.live u ∧ (tm.isCommitted u = true → tm'.isCommitted u = true) := by
  have hcom := he.clock.2.2
  rw [live, live, isActive, isActive, isCommitted, isCommitted, he.lookup, hcom, lookup_insert_eq]
  by_cases hu : u = id
  · subst hu
    simp [hT]
  · simp [hu]

lemma live_aborted (h : Timeline tm begun)
    (hT : tm.activeTxns.lookup id = some T) (he : Ended tm tm' id none) (u : TxnId) :
    tm'.live u = (decide (u ≠ id) && tm.live u) ∧ tm'.isCommitted u = tm.isCommitted u := by
  have hcom := he.clock.2
  rw [live, live, isActive, isActive, isCommitted, isCommitted, he.lookup, hcom]
  by_cases hu : u = id
  · subst hu
    have hnone : tm.committedTxns.lookup u = none := by
      cases hc : tm.committedTxns.lookup u with
      | none => rfl
      | some c => simp [h.committed_inactive u c hc] at hT
    simp [hnone]
  · simp [hu]

end

end ByteDB
