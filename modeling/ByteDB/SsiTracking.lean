import ByteDB.Runs
import ByteDB.Timeline

/-!
# What a recorded access does to the conflict flags

Flags are raised and never lowered. Every transaction that conflicts with the
access gets its flag, and so does the one that makes it; where this completes
a pivot, one of the two is aborted.
-/

set_option autoImplicit false

namespace ByteDB
open ByteDB.Assoc

variable {s : SsiState}

namespace SsiState

structure Grows (s s' : SsiState) : Prop where
  startTs : s'.startTs = s.startTs
  reads : s'.reads = s.reads
  scanned : s'.scanned = s.scanned
  writes : s'.writes = s.writes
  flag : ∀ side, s.flag side = true → s'.flag side = true
  aborted : s.aborted = true → s'.aborted = true

variable (s)

lemma Grows.refl : Grows s s := ⟨rfl,rfl,rfl,rfl,fun _ h => h,fun h => h⟩

lemma Grows.trans {s1 s2 s3 : SsiState} (h : Grows s1 s2) (h' : Grows s2 s3) : Grows s1 s3 where
  startTs := h'.startTs.trans h.startTs
  reads := h'.reads.trans h.reads
  scanned := h'.scanned.trans h.scanned
  writes := h'.writes.trans h.writes
  flag := fun side hf => h'.flag side (h.flag side hf)
  aborted := fun ha => h'.aborted (h.aborted ha)

lemma raise_grows (side : Side) : Grows s (s.raise side) := by
  cases side <;> constructor <;> simp [raise]
  · intro side
    cases side <;> simp [flag]
  · intro side
    cases side <;> simp [flag]

lemma raise_flag (side : Side) : (s.raise side).flag side = true := by
  cases side <;> rfl

lemma abort_grows : Grows s s.abort := by
  constructor <;> simp [abort]
  intro side
  cases side <;> simp [flag]

lemma abort_pivot_grows : Grows s s.abortPivot := by
  rw [abortPivot]
  split
  · exact abort_grows s
  · exact Grows.refl s

variable (side : Side) (h : s.flag side = true) (h' : s.flag side.opposite = true)
include h h'

variable {s}

lemma pivot_of_flags : s.isPivot = !s.aborted := by
  cases side <;> simp_all [isPivot, flag, Side.opposite]

lemma abort_pivot_aborted : s.abortPivot.aborted = true := by
  rw [abortPivot, pivot_of_flags side h h']
  cases ha : s.aborted <;> simp [abort, ha]

end SsiState

open SsiState TransactionManager

lemma Side.opposite_opposite (side : Side) : side.opposite.opposite = side := by
  cases side <;> rfl

structure MapGrows (m m' : Map TxnId SsiState) : Prop where
  some : ∀ k s, m.lookup k = some s → ∃ s', m'.lookup k = some s' ∧ Grows s s'
  none : ∀ k, m.lookup k = none → m'.lookup k = none

lemma MapGrows.refl (m : Map TxnId SsiState) : MapGrows m m :=
  ⟨fun _ s h => ⟨s,h,Grows.refl s⟩,fun _ h => h⟩

lemma MapGrows.trans {m1 m2 m3 : Map TxnId SsiState} (h : MapGrows m1 m2)
    (h' : MapGrows m2 m3) : MapGrows m1 m3 := by
  constructor
  · intro k s hs
    obtain ⟨s',hs',hg⟩ := h.some k s hs
    obtain ⟨s'',hs'',hg'⟩ := h'.some k s' hs'
    exact ⟨s'',hs'',hg.trans hg'⟩
  · exact fun k hk => h'.none k (h.none k hk)

lemma adjust_grows (m : Map TxnId SsiState) (k : TxnId) {f : SsiState → SsiState}
    (hf : ∀ s, Grows s (f s)) : MapGrows m (adjust m k f) := by
  constructor
  · intro l s hs
    rw [lookup_adjust, hs]
    by_cases hl : l = k
    · exact ⟨f s,by simp [hl],hf s⟩
    · exact ⟨s,by simp [hl],Grows.refl s⟩
  · intro l hl
    rw [lookup_adjust, hl]
    simp

lemma settle_grows (m : Map TxnId SsiState) (me other : TxnId) :
    MapGrows m (settle m me other) := by
  rw [settle]
  split
  · exact adjust_grows m me abort_grows
  · exact adjust_grows m other abort_pivot_grows

variable {hitRecent : CommittedSsi → Bool} {c : CommittedSsi}

section
variable {me : TxnId} {side : Side} {hit : SsiState → Bool}

lemma turn_grows (me : TxnId) (side : Side) (hit : SsiState → Bool) (m : Map TxnId SsiState)
    (oid : TxnId) : MapGrows m (conflictTurn me side hit m oid) := by
  rw [conflictTurn]
  split
  · exact MapGrows.refl m
  · split
    · exact ((adjust_grows m me (fun s => raise_grows s side)).trans
        (adjust_grows _ oid (fun s => raise_grows s side.opposite))).trans (settle_grows _ me oid)
    · exact MapGrows.refl m

/-- What a conflict of `me`, in state `s`, with another in state `o` leaves. -/
structure Clash (side : Side) (s o s' o' : SsiState) : Prop where
  mine : s'.flag side = true
  theirs : o'.flag side.opposite = true
  pivot_me : s.flag side.opposite = true → s'.aborted = true
  pivot_other : o.flag side = true → s'.aborted = true ∨ o'.aborted = true

lemma Clash.grows {s o s1 o1 s2 o2 : SsiState} (h : Clash side s o s1 o1) (hs : Grows s1 s2)
    (ho : Grows o1 o2) : Clash side s o s2 o2 where
  mine := hs.flag side h.mine
  theirs := ho.flag side.opposite h.theirs
  pivot_me := fun hf => hs.aborted (h.pivot_me hf)
  pivot_other := fun hf => (h.pivot_other hf).imp hs.aborted ho.aborted

variable {m : Map TxnId SsiState} {oid : TxnId} {s o : SsiState}

lemma turn_clash (hne : oid ≠ me)
    (hs : m.lookup me = some s) (ho : m.lookup oid = some o) (hhit : hit o = true) :
    ∃ s' o', (conflictTurn me side hit m oid).lookup me = some s' ∧
      (conflictTurn me side hit m oid).lookup oid = some o' ∧ Clash side s o s' o' := by
  rw [conflictTurn, if_neg hne, if_pos (by simp [ho, hhit])]
  have hme : (adjust (adjust m me (·.raise side)) oid (·.raise side.opposite)).lookup me =
      some (s.raise side) := by
    rw [lookup_adjust_ne _ _ hne.symm, lookup_adjust_self, hs]
    rfl
  have hoid : (adjust (adjust m me (·.raise side)) oid (·.raise side.opposite)).lookup oid =
      some (o.raise side.opposite) := by
    rw [lookup_adjust_self, lookup_adjust_ne _ _ hne, ho]
    rfl
  have hflag := raise_flag s side
  have hoflag := raise_flag o side.opposite
  rw [settle, hme, Option.any_some]
  by_cases hp : (s.raise side).isPivot = true
  · rw [if_pos hp]
    refine ⟨(s.raise side).abort,o.raise side.opposite,by simp [hme],?_,?_⟩
    · rw [lookup_adjust_ne _ _ hne, hoid]
    · exact ⟨(abort_grows _).flag side hflag,hoflag,fun _ => rfl,fun _ => .inl rfl⟩
  rw [if_neg hp]
  refine ⟨s.raise side,(o.raise side.opposite).abortPivot,?_,by simp [hoid],?_⟩
  · rw [lookup_adjust_ne _ _ hne.symm, hme]
  refine ⟨hflag,(abort_pivot_grows _).flag _ hoflag,?_,?_⟩
  · intro hf
    rw [pivot_of_flags side hflag ((raise_grows s side).flag _ hf)] at hp
    simpa using hp
  · intro hf
    right
    apply abort_pivot_aborted side.opposite hoflag
    rw [Side.opposite_opposite]
    exact (raise_grows o side.opposite).flag side hf

lemma turns_grow (me : TxnId) (side : Side) (hit : SsiState → Bool) (ks : List TxnId)
    (m : Map TxnId SsiState) : MapGrows m (ks.foldl (conflictTurn me side hit) m) := by
  induction ks generalizing m with
  | nil => exact MapGrows.refl m
  | cons k ks ih => exact (turn_grows me side hit m k).trans (ih _)

lemma turns_clash (hhit : ∀ o o', Grows o o' → hit o' = hit o) {ks : List TxnId} (hk : oid ∈ ks) (hne : oid ≠ me)
    (hs : m.lookup me = some s) (ho : m.lookup oid = some o) (ht : hit o = true) :
    ∃ s' o', (ks.foldl (conflictTurn me side hit) m).lookup me = some s' ∧
      (ks.foldl (conflictTurn me side hit) m).lookup oid = some o' ∧ Clash side s o s' o' := by
  induction ks generalizing m s o with
  | nil => simp at hk
  | cons k ks ih =>
    rw [List.foldl_cons]
    by_cases hok : oid = k
    · subst hok
      obtain ⟨s1,o1,hs1,ho1,hc⟩ := turn_clash hne hs ho ht
      have hg := turns_grow me side hit ks (conflictTurn me side hit m oid)
      obtain ⟨s2,hs2,hgs⟩ := hg.some me s1 hs1
      obtain ⟨o2,ho2,hgo⟩ := hg.some oid o1 ho1
      exact ⟨s2,o2,hs2,ho2,hc.grows hgs hgo⟩
    · have hg := turn_grows me side hit m k
      obtain ⟨s1,hs1,hgs⟩ := hg.some me s hs
      obtain ⟨o1,ho1,hgo⟩ := hg.some oid o ho
      obtain ⟨s2,o2,hs2,ho2,hc⟩ := ih (List.mem_of_ne_of_mem hok hk) hs1 ho1
        ((hhit o o1 hgo).trans ht)
      refine ⟨s2,o2,hs2,ho2,hc.mine,hc.theirs,?_,?_⟩
      · exact fun hf => hc.pivot_me (hgs.flag _ hf)
      · exact fun hf => hc.pivot_other (hgo.flag _ hf)

lemma recent_grows (side : Side) (hitRecent : CommittedSsi → Bool) (s : SsiState) (c : CommittedSsi) :
    Grows s (conflictRecent side hitRecent s c) := by
  rw [conflictRecent]
  split
  · exact (raise_grows s side).trans (abort_pivot_grows _)
  · exact Grows.refl s

lemma recents_grow (side : Side) (hitRecent : CommittedSsi → Bool) (cs : List CommittedSsi)
    (s : SsiState) : Grows s (cs.foldl (conflictRecent side hitRecent) s) := by
  induction cs generalizing s with
  | nil => exact Grows.refl s
  | cons c cs ih => exact (recent_grows side hitRecent s c).trans (ih _)

lemma recents_clash {cs : List CommittedSsi} (hc : c ∈ cs) (hts : s.startTs < c.commitTs) (hh : hitRecent c = true) :
    (cs.foldl (conflictRecent side hitRecent) s).flag side = true ∧ (s.flag side.opposite = true →
        (cs.foldl (conflictRecent side hitRecent) s).aborted = true) := by
  induction cs generalizing s with
  | nil => simp at hc
  | cons d cs ih =>
    rw [List.foldl_cons]
    rcases List.mem_cons.mp hc with rfl | hc
    · have hstep : conflictRecent side hitRecent s c = (s.raise side).abortPivot := by
        rw [conflictRecent, if_pos ⟨hts,hh⟩]
      have hflag : (conflictRecent side hitRecent s c).flag side = true := by
        rw [hstep]
        exact (abort_pivot_grows _).flag side (raise_flag s side)
      have hg := recents_grow side hitRecent cs (conflictRecent side hitRecent s c)
      refine ⟨hg.flag side hflag,?_⟩
      intro hf
      apply hg.aborted
      rw [hstep]
      exact abort_pivot_aborted side (raise_flag s side) ((raise_grows s side).flag _ hf)
    · have hg := recent_grows side hitRecent s d
      obtain ⟨hf,ha⟩ := ih hc (hg.startTs ▸ hts)
      exact ⟨hf,fun hs => ha (hg.flag _ hs)⟩

end

/-- What `ssi_record_read` and `ssi_record_write` do for a transaction in the
state `s`. -/
structure Recorded (tm tm' : TransactionManager) (me : TxnId) (s : SsiState) (side : Side)
    (note : SsiState → SsiState) (hit : SsiState → Bool) (hitRecent : CommittedSsi → Bool) :
    Prop where
  rest : tm' = { tm with ssi := tm'.ssi }
  grows : MapGrows (adjust tm.ssi me note) tm'.ssi
  clash : ∀ oid o, oid ≠ me → tm.ssi.lookup oid = some o → hit o = true →
    ∃ s' o', tm'.ssi.lookup me = some s' ∧ tm'.ssi.lookup oid = some o' ∧ Clash side s o s' o'
  recent : ∀ cid c, tm.ssiRecent.lookup cid = some c → s.startTs < c.commitTs →
    hitRecent c = true → ∃ s', tm'.ssi.lookup me = some s' ∧ s'.flag side = true ∧
      (s.flag side.opposite = true → s'.aborted = true)

structure Notes (note : SsiState → SsiState) : Prop where
  startTs : ∀ s, (note s).startTs = s.startTs
  flag : ∀ s side, (note s).flag side = s.flag side
  aborted : ∀ s, (note s).aborted = s.aborted

variable {tm : TransactionManager}

lemma mem_recent_values {cid : TxnId}
    (h : tm.ssiRecent.lookup cid = some c) : c ∈ tm.recentValues :=
  List.mem_map.mpr ⟨⟨cid,c⟩,AList.mem_lookup_iff.mp h,rfl⟩

variable {me : TxnId}

lemma ssi_record_spec {side : Side} {note : SsiState → SsiState} {hit : SsiState → Bool}
    (hs : tm.ssi.lookup me = some s) (hn : Notes note)
    (hhit : ∀ o o', Grows o o' → hit o' = hit o) :
    Recorded tm (tm.ssiRecord me side note hit hitRecent) me s side note hit hitRecent := by
  rw [ssiRecord, hs]
  have hme : (adjust tm.ssi me note).lookup me = some (note s) := by simp [hs]
  have hturns := turns_grow me side hit (adjust tm.ssi me note).keys (adjust tm.ssi me note)
  have hlast := adjust_grows ((adjust tm.ssi me note).keys.foldl (conflictTurn me side hit)
    (adjust tm.ssi me note)) me (recents_grow side hitRecent tm.recentValues)
  constructor
  case rest => rfl
  case grows => exact hturns.trans hlast
  case clash =>
    intro oid o hne ho ht
    have ho : (adjust tm.ssi me note).lookup oid = some o := by
      rw [lookup_adjust_ne _ _ hne, ho]
    obtain ⟨s1,o1,hs1,ho1,hc⟩ := turns_clash hhit ((mem_keys_iff _ _).mpr ⟨o,ho⟩) hne hme ho ht
    obtain ⟨s2,hs2,hgs⟩ := hlast.some me s1 hs1
    obtain ⟨o2,ho2,hgo⟩ := hlast.some oid o1 ho1
    have hc := hc.grows hgs hgo
    exact ⟨s2,o2,hs2,ho2,hc.mine,hc.theirs,hn.flag s side.opposite ▸ hc.pivot_me, hc.pivot_other⟩
  case recent =>
    intro cid c hc hts hh
    obtain ⟨s1,hs1,hgs⟩ := hturns.some me (note s) hme
    have hts : s1.startTs < c.commitTs := by rwa [hgs.startTs, hn.startTs]
    obtain ⟨hf,ha⟩ := recents_clash (mem_recent_values hc) hts hh
    refine ⟨_,by rw [lookup_adjust_self, hs1]; rfl,hf,fun h => ha (hgs.flag _ ?_)⟩
    rwa [hn.flag]

lemma ssi_record_read_spec (hs : tm.ssi.lookup me = some s) (table : String) (key : Bytes) :
    Recorded tm (tm.ssiRecordRead me table key) me s .outgoing
      (fun me => { me with reads := insert (table,key) me.reads })
      (fun other => (table,key) ∈ other.writes) (fun c => (table,key) ∈ c.writes) := by
  refine ssi_record_spec hs ⟨fun _ => rfl,fun s side => ?_,fun _ => rfl⟩ ?_
  · cases side <;> rfl
  · exact fun o o' hg => by rw [hg.writes]

lemma ssi_record_write_spec (hs : tm.ssi.lookup me = some s) (table : String) (key : Bytes) :
    Recorded tm (tm.ssiRecordWrite me table key) me s .incoming
      (fun me => { me with writes := insert (table,key) me.writes })
      (fun other => (table,key) ∈ other.reads ∨ table ∈ other.scanned)
      (fun c => (table,key) ∈ c.reads ∨ table ∈ c.scanned) := by
  refine ssi_record_spec hs ⟨fun _ => rfl,fun s side => ?_,fun _ => rfl⟩ ?_
  · cases side <;> rfl
  · exact fun o o' hg => by rw [hg.reads, hg.scanned]

end ByteDB

/-! Every read, scan and write is reported to the transaction manager. The log keeps
what was reported, and the dependencies between transactions are read off the log
and the timestamps. What the manager keeps of reads, scans and writes agrees with
the log for every transaction that can still be part of a new conflict. -/

namespace ByteDB.SsiHistory
open ByteDB.Assoc ByteDB.TransactionManager ByteDB.SsiState Option

inductive Access where
  | read (rk : RwKey)
  | scan (table : String)
  | write (rk : RwKey)
  deriving DecidableEq, Repr

structure State where
  tm : TransactionManager
  begun : List Transaction
  log : List (TxnId × Access)

/-- The order in which a loop meets the entries of a hash map is not fixed:
`rehash` permutes them. -/
inductive Step where
  | begin
  | access (txn : TxnId) (a : Access)
  | commit (txn : TxnId)
  | abort (txn : TxnId)
  | rehash (ssi : Map TxnId SsiState) (recent : Map TxnId CommittedSsi)

def init : State where
  tm := .new
  begun := []
  log := []

def record (tm : TransactionManager) (txn : TxnId) : Access → TransactionManager
  | .read rk => tm.ssiRecordRead txn rk.1 rk.2
  | .scan table => tm.ssiRecordPredicate txn table
  | .write rk => tm.ssiRecordWrite txn rk.1 rk.2

/-- A call by a transaction that is not active is no step. -/
def step (s : State) : Step → Option State
  | .begin =>
    some { s with
      tm := (s.tm.begin .serializable).1
      begun := s.begun++[begunTxn s.tm .serializable] }
  | .access txn a => do
    let _ ← s.tm.activeTxns.lookup txn
    some { s with tm := record s.tm txn a, log := s.log++[(txn,a)] }
  | .commit txn => do
    let _ ← s.tm.activeTxns.lookup txn
    some { s with tm := (s.tm.commit txn).1 }
  | .abort txn => do
    let _ ← s.tm.activeTxns.lookup txn
    some { s with tm := (s.tm.abort txn).1 }
  | .rehash ssi recent =>
    if ssi.entries.Perm s.tm.ssi.entries ∧ recent.entries.Perm s.tm.ssiRecent.entries then
      some { s with tm := { s.tm with ssi := ssi, ssiRecent := recent } }
    else none

/-- A scan of a table counts as a read of each of its keys. -/
def Reads (s : State) (T : Transaction) (rk : RwKey) : Prop :=
  (T.id,.read rk) ∈ s.log ∨ (T.id,.scan rk.1) ∈ s.log

def Writes (s : State) (T : Transaction) (rk : RwKey) : Prop := (T.id,.write rk) ∈ s.log

instance (s : State) (T : Transaction) (rk : RwKey) : Decidable (Reads s T rk) :=
  inferInstanceAs (Decidable (_ ∨ _))

instance (s : State) (T : Transaction) (rk : RwKey) : Decidable (Writes s T rk) :=
  inferInstanceAs (Decidable (_ ∈ _))

section
variable (s : State) (T : Transaction)

def committedAt : Option Timestamp := s.tm.committedTxns.lookup T.id

/-- The versions of a key stand in the order of the commits. -/
def WriteWrite (T U : Transaction) : Prop :=
  ∃ rk ct cu, committedAt s T = some ct ∧ committedAt s U = some cu ∧ Writes s T rk ∧
    Writes s U rk ∧ ct < cu

/-- `U` sees what was committed before it began. -/
def WriteRead (T U : Transaction) : Prop :=
  ∃ rk ct cu, committedAt s T = some ct ∧ committedAt s U = some cu ∧ Writes s T rk ∧
    Reads s U rk ∧ ct < U.startTs

/-- `T` does not see what is committed after it began. -/
def ReadWrite (T U : Transaction) : Prop :=
  ∃ rk ct cu, committedAt s T = some ct ∧ committedAt s U = some cu ∧ Reads s T rk ∧
    Writes s U rk ∧ T.startTs < cu

def Depends (T U : Transaction) : Prop := T ∈ s.begun ∧ U ∈ s.begun ∧ T ≠ U ∧
    (WriteWrite s T U ∨ WriteRead s T U ∨ ReadWrite s T U)

def Serializable : Prop := ∀ T, ¬Relation.TransGen (Depends s) T T

def WritersApart : Prop :=
  ∀ T ∈ s.begun, ∀ U ∈ s.begun, ∀ rk ct cu, T ≠ U → committedAt s T = some ct →
    committedAt s U = some cu → Writes s T rk → Writes s U rk → ct < U.startTs ∨ cu < T.startTs

def Concurrent (T U : Transaction) : Prop := (∀ ct, committedAt s T = some ct → U.startTs < ct) ∧
    ∀ cu, committedAt s U = some cu → T.startTs < cu

def Conflict (T U : Transaction) : Prop :=
  T ≠ U ∧ Concurrent s T U ∧ ∃ rk, Reads s T rk ∧ Writes s U rk

def Standing : Prop := T ∈ s.begun ∧ ((∃ ct, committedAt s T = some ct) ∨
    ∃ st, s.tm.ssi.lookup T.id = some st ∧ st.aborted = false)

def ReadOnly : Prop := (∃ ct, committedAt s T = some ct) ∧ ∀ rk, ¬Writes s T rk

def CommittedBefore (ts : Timestamp) : Prop := ∃ ct, committedAt s T = some ct ∧ ct < ts

/-- An access is clean when the flags can account for the conflicts that it
brings.

A scan is not compared with the writes made before it. A read has no way to
flag a committed transaction `U` as a pivot, which matters if one that `U`
conflicts with committed before `U`. A committed transaction `V` that wrote
nothing is forgotten, which matters if the pivot conflicts with one that
committed before `V` began. -/
def Clean : Step → Prop
  | .access txn a => ∀ X, s.tm.activeTxns.lookup txn = some X → Standing s X →
    match a with
    | .scan table => ∀ U rk, Standing s U → U ≠ X → Concurrent s X U → Writes s U rk → rk.1 ≠ table
    | .read rk => ∀ U cu, Standing s U → committedAt s U = some cu → X.startTs < cu →
        Writes s U rk → (∀ V, Standing s V → Conflict s U V → ¬CommittedBefore s V cu) ∧
        ∀ V, Standing s V → ReadOnly s V → Conflict s V X → ¬cu < V.startTs
    | .write rk => ∀ V, Standing s V → ReadOnly s V → Concurrent s V X → Reads s V rk →
        ∀ U, Standing s U → Conflict s X U → ¬CommittedBefore s U V.startTs
  | _ => True

end

def covers (reads : Finset RwKey) (scanned : Finset String) (writes : Finset RwKey) : Access → Prop
  | .read rk => rk ∈ reads
  | .scan table => table ∈ scanned
  | .write rk => rk ∈ writes

def noted (a : Access) (st : SsiState) : SsiState :=
  match a with
  | .read rk => { st with reads := insert rk st.reads }
  | .scan table => { st with scanned := insert table st.scanned }
  | .write rk => { st with writes := insert rk st.writes }

lemma noted_covers (a b : Access) (st : SsiState) :
    covers (noted a st).reads (noted a st).scanned (noted a st).writes b ↔
      covers st.reads st.scanned st.writes b ∨ b = a := by
  cases a <;> cases b <;> simp [noted, covers, or_comm]

/-- The manager's sets agree with the log: for every active transaction, and
for those committed since some active one began. -/
structure Tracked (s : State) : Prop where
  timeline : Timeline s.tm s.begun
  log_begun : ∀ e ∈ s.log, e.1 < s.tm.nextTxnId
  ssi_active : ∀ id, (∃ st, s.tm.ssi.lookup id = some st) ↔ ∃ T, s.tm.activeTxns.lookup id = some T
  start : ∀ id T st, s.tm.activeTxns.lookup id = some T → s.tm.ssi.lookup id = some st →
    st.startTs = T.startTs
  entry : ∀ id st, s.tm.ssi.lookup id = some st →
    ∀ a, covers st.reads st.scanned st.writes a ↔ (id,a) ∈ s.log
  recent : ∀ id ct rk, s.tm.committedTxns.lookup id = some ct → (id,.write rk) ∈ s.log →
    ∀ X, s.tm.activeTxns.lookup X.id = some X → X.startTs < ct →
    ∃ c, s.tm.ssiRecent.lookup id = some c ∧ c.commitTs = ct ∧
      ∀ a, covers c.reads c.scanned c.writes a ↔ (id,a) ∈ s.log

lemma tracked_init : Tracked init := by
  constructor
  case timeline => exact timeline_new
  all_goals simp [init, TransactionManager.new]

variable {tm : TransactionManager} {st : SsiState}

lemma record_grows {txn : TxnId} (hst : tm.ssi.lookup txn = some st) (a : Access) :
    record tm txn a = { tm with ssi := (record tm txn a).ssi } ∧
      MapGrows (adjust tm.ssi txn (noted a)) (record tm txn a).ssi := by
  cases a with
  | read rk =>
    have hr := ssi_record_read_spec hst rk.1 rk.2
    exact ⟨hr.rest,hr.grows⟩
  | scan table =>
    have hr : record tm txn (.scan table) =
        { tm with ssi := adjust tm.ssi txn (noted (.scan table)) } := by
      rw [record, ssiRecordPredicate, hst]
      rfl
    rw [hr]
    exact ⟨rfl,MapGrows.refl _⟩
  | write rk =>
    have hr := ssi_record_write_spec hst rk.1 rk.2
    exact ⟨hr.rest,hr.grows⟩

section
variable {s : State}

lemma Tracked.fresh (h : Tracked s) (a : Access) : (s.tm.nextTxnId,a) ∉ s.log :=
  fun ha => lt_irrefl _ (h.log_begun _ ha)

lemma tracked_begin (h : Tracked s) : Tracked { s with
      tm := (s.tm.begin .serializable).1
      begun := s.begun++[begunTxn s.tm .serializable] } := by
  have hssi : ∀ u, (s.tm.begin .serializable).1.ssi.lookup u =
      if u = s.tm.nextTxnId then some (SsiState.new s.tm.nextTimestamp)
      else s.tm.ssi.lookup u := fun u => lookup_insert_eq ..
  have hact : ∀ u, (s.tm.begin .serializable).1.activeTxns.lookup u =
      if u = s.tm.nextTxnId then some (begunTxn s.tm .serializable)
      else s.tm.activeTxns.lookup u := fun u => begin_lookup ..
  constructor
  case timeline => exact timeline_begin h.timeline .serializable
  case log_begun => exact fun e he => Nat.lt_succ_of_lt (h.log_begun e he)
  case ssi_active =>
    intro u
    rw [hssi, hact]
    by_cases hu : u = s.tm.nextTxnId
    · simp [hu]
    · simp [hu, h.ssi_active u]
  case start =>
    intro u T st hT hst
    rw [hssi] at hst
    rw [hact] at hT
    by_cases hu : u = s.tm.nextTxnId
    · rw [if_pos hu] at hst hT
      obtain rfl := some.inj hst
      obtain rfl := some.inj hT
      rfl
    · rw [if_neg hu] at hst hT
      exact h.start u T st hT hst
  case entry =>
    intro u st hst a
    rw [hssi] at hst
    by_cases hu : u = s.tm.nextTxnId
    · rw [if_pos hu] at hst
      obtain rfl := some.inj hst
      have hno : (u,a) ∉ s.log := hu ▸ h.fresh a
      simp only [hno, iff_false]
      cases a <;> simp [covers, SsiState.new]
    · rw [if_neg hu] at hst
      exact h.entry u st hst a
  case recent =>
    intro u ct rk hct hw X hX hlt
    rw [hact] at hX
    by_cases hu : X.id = s.tm.nextTxnId
    · -- nothing has committed after the new transaction began
      rw [if_pos hu] at hX
      obtain rfl := some.inj hX
      exact absurd hlt (not_lt.mpr (h.timeline.committed_lt u ct hct).le)
    · rw [if_neg hu] at hX
      exact h.recent u ct rk hct hw X hX hlt

lemma tracked_access {txn : TxnId} {X : Transaction} (h : Tracked s)
    (hX : s.tm.activeTxns.lookup txn = some X) (a : Access) :
    Tracked { s with tm := record s.tm txn a, log := s.log++[(txn,a)] } := by
  obtain ⟨st,hst⟩ := (h.ssi_active txn).mpr ⟨X,hX⟩
  obtain ⟨hrest,hgrows⟩ := record_grows hst a
  have hmem : ∀ u b, (u,b) ∈ s.log++[(txn,a)] ↔ (u,b) ∈ s.log ∨ u = txn ∧ b = a := by simp
  -- the states after the access, seen from those before
  have hback : ∀ u su', (record s.tm txn a).ssi.lookup u = some su' →
      ∃ su, s.tm.ssi.lookup u = some su ∧ Grows (if u = txn then noted a su else su) su' := by
    intro u su' hu'
    cases hu : s.tm.ssi.lookup u with
    | none =>
      have : (adjust s.tm.ssi txn (noted a)).lookup u = none := by
        rw [lookup_adjust, hu]
        simp
      rw [hgrows.none u this] at hu'
      cases hu'
    | some su =>
      refine ⟨su,rfl,?_⟩
      obtain ⟨su'',hsu'',hg⟩ := hgrows.some u (if u = txn then noted a su else su) (by
        rw [lookup_adjust, hu]
        split <;> rfl)
      rw [hu'] at hsu''
      rwa [some.inj hsu'']
  rw [hrest]
  constructor
  case timeline => exact h.timeline.of_ssi _ _
  case log_begun =>
    intro e he
    rcases (hmem e.1 e.2).mp he with he | ⟨hu,-⟩
    · exact h.log_begun _ he
    · obtain ⟨hbegun,hid,-⟩ := h.timeline.active_begun txn X hX
      rw [hu, ← hid]
      exact h.timeline.id_lt X hbegun
  case ssi_active =>
    intro u
    refine Iff.trans ?_ (h.ssi_active u)
    constructor
    · rintro ⟨su',hu'⟩
      obtain ⟨su,hsu,-⟩ := hback u su' hu'
      exact ⟨su,hsu⟩
    · rintro ⟨su,hsu⟩
      obtain ⟨su',hsu',-⟩ := hgrows.some u (if u = txn then noted a su else su) (by
        rw [lookup_adjust, hsu]
        split <;> rfl)
      exact ⟨su',hsu'⟩
  case start =>
    intro u T su' hT hu'
    obtain ⟨su,hsu,hg⟩ := hback u su' hu'
    rw [hg.startTs, ← h.start u T su hT hsu]
    split
    · cases a <;> rfl
    · rfl
  case entry =>
    intro u su' hu' b
    obtain ⟨su,hsu,hg⟩ := hback u su' hu'
    rw [hg.reads, hg.scanned, hg.writes, hmem, ← h.entry u su hsu b]
    by_cases hu : u = txn
    · simp only [hu, if_true, true_and]
      exact noted_covers a b su
    · simp [hu]
  case recent =>
    intro u ct rk hct hw Y hY hlt
    have hne : u ≠ txn := by
      rintro rfl
      simp [h.timeline.committed_inactive u ct hct] at hX
    have hlog : ∀ b, (u,b) ∈ s.log++[(txn,a)] ↔ (u,b) ∈ s.log := by simp [hne]
    obtain ⟨c,hc,hcts,hcov⟩ := h.recent u ct rk hct ((hlog _).mp hw) Y hY hlt
    exact ⟨c,hc,hcts,fun b => (hcov b).trans (hlog b).symm⟩

lemma tracked_rehash (h : Tracked s) {ssi : Map TxnId SsiState} {recent : Map TxnId CommittedSsi}
    (hssi : ssi.entries.Perm s.tm.ssi.entries) (hrec : recent.entries.Perm s.tm.ssiRecent.entries) :
    Tracked { s with tm := { s.tm with ssi := ssi, ssiRecent := recent } } := by
  have hssi : ∀ u, ssi.lookup u = s.tm.ssi.lookup u := fun u => AList.perm_lookup hssi
  have hrec : ∀ u, recent.lookup u = s.tm.ssiRecent.lookup u := fun u => AList.perm_lookup hrec
  constructor
  case timeline => exact h.timeline.of_ssi _ _
  case log_begun => exact h.log_begun
  case ssi_active =>
    intro u
    rw [hssi]
    exact h.ssi_active u
  case start =>
    intro u T st hT hst
    rw [hssi] at hst
    exact h.start u T st hT hst
  case entry =>
    intro u st hst
    rw [hssi] at hst
    exact h.entry u st hst
  case recent =>
    intro u ct rk hct hw X hX hlt
    obtain ⟨c,hc,hcov⟩ := h.recent u ct rk hct hw X hX hlt
    exact ⟨c,(hrec u).trans hc,hcov⟩

/-- The end of a serializable transaction: a commit needs that it was not
aborted, and the sets of the others are kept. -/
structure Closed (s : State) (tm' : TransactionManager) (id : TxnId)
    (commit : Option Timestamp) : Prop where
  ended : Ended s.tm tm' id commit
  ssi : ∀ u, tm'.ssi.lookup u = if u = id then none else s.tm.ssi.lookup u
  recent : ∀ u ct rk, tm'.committedTxns.lookup u = some ct → (u,.write rk) ∈ s.log →
    ∀ X, X.id ≠ id → s.tm.activeTxns.lookup X.id = some X → X.startTs < ct →
    ∃ c, tm'.ssiRecent.lookup u = some c ∧ c.commitTs = ct ∧
      ∀ a, covers c.reads c.scanned c.writes a ↔ (u,a) ∈ s.log
  stood : ∀ cts, commit = some cts → ∃ st, s.tm.ssi.lookup id = some st ∧ st.aborted = false

variable {id : TxnId} {T : Transaction}

lemma Tracked.closed {tm' : TransactionManager}
    {commit : Option Timestamp} (h : Tracked s) (hT : s.tm.activeTxns.lookup id = some T)
    (hc : Closed s tm' id commit) : Tracked { s with tm := tm' } := by
  obtain ⟨he,hssi,hrec,-⟩ := hc
  constructor
  case timeline =>
    cases commit with
    | none => exact timeline_aborted h.timeline he
    | some cts => exact timeline_committed h.timeline hT he
  case log_begun => exact fun e hmem => he.nextTxnId ▸ h.log_begun e hmem
  case ssi_active =>
    intro u
    rw [hssi, he.lookup]
    by_cases hu : u = id
    · simp [hu]
    · simp [hu, h.ssi_active u]
  case start =>
    intro u U st hU hst
    rw [hssi] at hst
    rw [he.lookup] at hU
    by_cases hu : u = id
    · simp [hu] at hst
    · rw [if_neg hu] at hst hU
      exact h.start u U st hU hst
  case entry =>
    intro u st hst
    rw [hssi] at hst
    by_cases hu : u = id
    · simp [hu] at hst
    · rw [if_neg hu] at hst
      exact h.entry u st hst
  case recent =>
    intro u ct rk hct hw X hX hlt
    rw [he.lookup] at hX
    by_cases hu : X.id = id
    · simp [hu] at hX
    · rw [if_neg hu] at hX
      exact hrec u ct rk hct hw X hu hX hlt

lemma oldest_le (tm : TransactionManager) {starts : List Timestamp} {ts : Timestamp}
    (h : ts ∈ starts) : tm.oldest starts ≤ ts := by
  rw [oldest]
  cases hm : starts.min? with
  | none => simp [List.min?_eq_none_iff.mp hm] at h
  | some m => exact (List.min?_eq_some_iff.mp hm).2 ts h

lemma gc_keeps {u id : TxnId} {c : CommittedSsi}
    (hst : tm.ssi.lookup u = some st) (hc : tm.ssiRecent.lookup id = some c)
    (hle : st.startTs ≤ c.commitTs) : (gcSsiRecent tm).ssiRecent.lookup id = some c := by
  have hold : tm.oldestActiveSerializableStart ≤ c.commitTs :=
    (oldest_le tm (List.mem_map.mpr ⟨⟨u,st⟩,AList.mem_lookup_iff.mp hst,rfl⟩)).trans hle
  simp [gcSsiRecent, hc, hold]

lemma commit_cases (hT : tm.activeTxns.lookup id = some T) (hact : T.status = .active)
    (hst : tm.ssi.lookup id = some st) : (st.aborted = true ∧ (tm.commit id).1 =
        { tm with ssi := tm.ssi.erase id, activeTxns := tm.activeTxns.erase id }) ∨
      st.aborted = false ∧ (tm.commit id).1 = commitSsi { tm with
          nextTimestamp := tm.nextTimestamp+1
          activeTxns := tm.activeTxns.erase id
          committedTxns := tm.committedTxns.insert id tm.nextTimestamp } id tm.nextTimestamp st := by
  rw [commit, hst, hT]
  cases ha : st.aborted with
  | true => simp [isDangerous, ha]
  | false => simp [isDangerous, ha, hact]

lemma abort_closed (h : Tracked s)
    (hT : s.tm.activeTxns.lookup id = some T) : Closed s (s.tm.abort id).1 id none := by
  obtain ⟨st,hst⟩ := (h.ssi_active id).mpr ⟨T,hT⟩
  have htm : (s.tm.abort id).1 = gcSsiRecent
      { s.tm with ssi := s.tm.ssi.erase id, activeTxns := s.tm.activeTxns.erase id } := by
    simp [TransactionManager.abort, hT, hst]
  constructor
  case ended => exact abort_ended hT
  case ssi =>
    intro u
    rw [htm]
    exact lookup_erase_eq ..
  case recent =>
    intro u ct rk hct hw X hne hX hlt
    rw [htm] at hct ⊢
    obtain ⟨c,hc,rfl,hcov⟩ := h.recent u ct rk hct hw X hX hlt
    obtain ⟨su,hsu⟩ := (h.ssi_active X.id).mpr ⟨X,hX⟩
    have hkeep : (s.tm.ssi.erase id).lookup X.id = some su := by
      rw [lookup_erase_eq, if_neg hne, hsu]
    refine ⟨c,gc_keeps hkeep hc ?_,rfl,hcov⟩
    rw [h.start _ X su hX hsu]
    exact hlt.le
  case stood => simp

lemma commit_closed (h : Tracked s) (hT : s.tm.activeTxns.lookup id = some T) :
    ∃ commit, Closed s (s.tm.commit id).1 id commit := by
  obtain ⟨st,hst⟩ := (h.ssi_active id).mpr ⟨T,hT⟩
  obtain ⟨-,-,hact⟩ := h.timeline.active_begun id T hT
  rcases commit_cases hT hact hst with ⟨-,htm⟩ | ⟨ha,htm⟩
  · refine ⟨none,?_,?_,?_,by simp⟩
    · rw [htm]
      exact ⟨rfl,rfl,rfl,rfl⟩
    · intro u
      rw [htm]
      exact lookup_erase_eq ..
    · intro u ct rk hct hw X _ hX hlt
      rw [htm] at hct ⊢
      exact h.recent u ct rk hct hw X hX hlt
  refine ⟨some s.tm.nextTimestamp,?_,?_,?_,fun _ _ => ⟨st,hst,ha⟩⟩
  · rw [htm]
    exact ⟨rfl,rfl,rfl,rfl,rfl⟩
  · intro u
    rw [htm]
    exact lookup_erase_eq ..
  intro u ct rk hct hw X hne hX hlt
  rw [htm] at hct ⊢
  obtain ⟨su,hsu⟩ := (h.ssi_active X.id).mpr ⟨X,hX⟩
  have hkeep : (s.tm.ssi.erase id).lookup X.id = some su := by
    rw [lookup_erase_eq, if_neg hne, hsu]
  have hstart : su.startTs < ct := by rwa [h.start _ X su hX hsu]
  suffices hc : ∃ c, (if st.writes = ∅ then s.tm.ssiRecent else s.tm.ssiRecent.insert id
      ⟨s.tm.nextTimestamp,st.reads,st.scanned,st.writes⟩).lookup u = some c ∧
      c.commitTs = ct ∧ ∀ a, covers c.reads c.scanned c.writes a ↔ (u,a) ∈ s.log by
    obtain ⟨c,hc,rfl,hcov⟩ := hc
    exact ⟨c,gc_keeps hkeep hc hstart.le,rfl,hcov⟩
  rcases lookup_insert_cases hct with ⟨rfl,rfl⟩ | ⟨hu,hct⟩
  · have hne : st.writes ≠ ∅ := Finset.ne_empty_of_mem (((h.entry u st hst) (.write rk)).mpr hw)
    exact ⟨_,by rw [if_neg hne, lookup_insert_eq, if_pos rfl],rfl,h.entry u st hst⟩
  · obtain ⟨c,hc,hcov⟩ := h.recent u ct rk hct hw X hX hlt
    refine ⟨c,?_,hcov⟩
    split
    · exact hc
    · rw [lookup_insert_eq, if_neg hu, hc]

end

end ByteDB.SsiHistory
