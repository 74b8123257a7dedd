import ByteDB.SerializationGraph
import ByteDB.SsiTracking

/-!
# Clean histories are serializable

A pivot is a transaction with a conflict coming in and one going out, as a
cycle of dependencies needs it. While every access is clean the flags account
for all conflicts between standing transactions, so that one of the three
transactions around a pivot is always aborted in time.
-/

set_option autoImplicit false

namespace ByteDB.SsiHistory
open ByteDB.Assoc ByteDB.TransactionManager ByteDB.SsiState Option

/-- The dangerous part of a cycle: `j` commits before `u`, and if `i` only
reads, before `i` begins. -/
structure Pivot (s : State) (i u j : Transaction) : Prop where
  standing_left : Standing s i
  standing : Standing s u
  standing_right : Standing s j
  left : Conflict s i u
  right : Conflict s u j
  first : ∀ cu, committedAt s u = some cu → CommittedBefore s j cu
  early : ReadOnly s i → CommittedBefore s j i.startTs

structure Safe (s : State) : Prop where
  tracked : Tracked s
  out_flag : ∀ u j st, u ∈ s.begun → s.tm.ssi.lookup u.id = some st → st.aborted = false →
    Standing s j → Conflict s u j → st.flag .outgoing = true
  in_flag : ∀ i u st, u ∈ s.begun → s.tm.ssi.lookup u.id = some st → st.aborted = false →
    Standing s i → Conflict s i u → st.flag .incoming = true ∨ ReadOnly s i
  no_pivot : ∀ i u j, ¬Pivot s i u j

lemma safe_init : Safe init where
  tracked := tracked_init
  out_flag := by simp [init]
  in_flag := by simp [init]
  no_pivot := fun _ _ _ hp => by simpa [init] using hp.standing.1

section
variable {s : State} {T U : Transaction}

lemma Conflict.left_logged (h : Conflict s T U) : ∃ a, (T.id,a) ∈ s.log := by
  obtain ⟨-,-,rk,hr | hr,-⟩ := h
  · exact ⟨_,hr⟩
  · exact ⟨_,hr⟩

lemma Conflict.right_logged (h : Conflict s T U) : ∃ a, (U.id,a) ∈ s.log := by
  obtain ⟨-,-,rk,-,hw⟩ := h
  exact ⟨_,hw⟩

lemma Tracked.uncommitted (h : Tracked s) (hT : s.tm.activeTxns.lookup T.id = some T) :
    committedAt s T = none := by
  cases hc : committedAt s T with
  | none => rfl
  | some ct =>
    rw [h.timeline.committed_inactive _ ct hc] at hT
    cases hT

lemma Tracked.active (h : Tracked s) {st : SsiState} (hT : T ∈ s.begun)
    (hst : s.tm.ssi.lookup T.id = some st) :
    s.tm.activeTxns.lookup T.id = some T ∧ committedAt s T = none := by
  obtain ⟨T',hT'⟩ := (h.ssi_active T.id).mp ⟨st,hst⟩
  have hact := (h.timeline.active_keys hT).mp ((mem_keys_iff _ _).mpr ⟨T',hT'⟩)
  exact ⟨hact,h.uncommitted hact⟩

lemma Tracked.not_readOnly (h : Tracked s) {st : SsiState} (hT : T ∈ s.begun)
    (hst : s.tm.ssi.lookup T.id = some st) : ¬ReadOnly s T := by
  rintro ⟨⟨ct,hct⟩,-⟩
  rw [(h.active hT hst).2] at hct
  cases hct

lemma Tracked.clock (h : Tracked s) {ct : Timestamp} (hc : committedAt s T = some ct) :
    ct < s.tm.nextTimestamp :=
  h.timeline.committed_lt _ ct hc

end

lemma Safe.quiet {s s' : State} (h : Safe s) (h' : Tracked s') (hlog : s'.log = s.log)
    (hkept : ∀ T ct, committedAt s T = some ct → committedAt s' T = some ct)
    (hnew : ∀ T ct, committedAt s' T = some ct →
      committedAt s T = some ct ∨ ct = s.tm.nextTimestamp)
    (hstand : ∀ T a, (T.id,a) ∈ s.log → Standing s' T → Standing s T)
    (hssi : ∀ T ∈ s.begun, ∀ st, s'.tm.ssi.lookup T.id = some st →
      s.tm.ssi.lookup T.id = some st) : Safe s' := by
  have hconf : ∀ T U, Conflict s' T U → Conflict s T U := by
    rintro T U ⟨hne,⟨h1,h2⟩,rk,hr,hw⟩
    rw [Reads, hlog] at hr
    rw [Writes, hlog] at hw
    exact ⟨hne,⟨fun ct hc => h1 ct (hkept T ct hc),fun cu hc => h2 cu (hkept U cu hc)⟩,rk, hr,hw⟩
  have hleft : ∀ T U, Conflict s' T U → Standing s' T → Standing s T := by
    intro T U hc
    obtain ⟨a,ha⟩ := (hconf T U hc).left_logged
    exact hstand T a ha
  have hright : ∀ T U, Conflict s' T U → Standing s' U → Standing s U := by
    intro T U hc
    obtain ⟨a,ha⟩ := (hconf T U hc).right_logged
    exact hstand U a ha
  have hro : ∀ T, ReadOnly s T → ReadOnly s' T := by
    rintro T ⟨⟨ct,hc⟩,hw⟩
    refine ⟨⟨ct,hkept T ct hc⟩,fun rk => ?_⟩
    rw [Writes, hlog]
    exact hw rk
  have hbefore : ∀ T ts, ts ≤ s.tm.nextTimestamp → CommittedBefore s' T ts →
      CommittedBefore s T ts := by
    rintro T ts hts ⟨ct,hc,hlt⟩
    rcases hnew T ct hc with hc | rfl
    · exact ⟨ct,hc,hlt⟩
    · exact absurd hlt (not_lt.mpr hts)
  constructor
  case tracked => exact h'
  case out_flag =>
    intro u j st hu hst ha hj hc
    have hus := hleft u j hc ⟨hu,.inr ⟨st,hst,ha⟩⟩
    exact h.out_flag u j st hus.1 (hssi u hus.1 st hst) ha (hright u j hc hj) (hconf u j hc)
  case in_flag =>
    intro i u st hu hst ha hi hc
    have hus := hright i u hc ⟨hu,.inr ⟨st,hst,ha⟩⟩
    exact (h.in_flag i u st hus.1 (hssi u hus.1 st hst) ha (hleft i u hc hi)
      (hconf i u hc)).imp_right (hro i)
  case no_pivot =>
    intro i u j hp
    have hi := hleft i u hp.left hp.standing_left
    refine h.no_pivot i u j ⟨hi,hleft u j hp.right hp.standing,
      hright u j hp.right hp.standing_right,hconf i u hp.left,hconf u j hp.right,?_,?_⟩
    · intro cu hcu
      exact hbefore j cu (h.tracked.clock hcu).le (hp.first cu (hkept u cu hcu))
    · intro hr
      exact hbefore j _ (h.tracked.timeline.start_lt i hi.1).le (hp.early (hro i hr))

lemma safe_begin {s : State} (h : Safe s) :
    Safe { s with
      tm := (s.tm.begin .serializable).1
      begun := s.begun++[begunTxn s.tm .serializable] } := by
  have hssi : ∀ u, (s.tm.begin .serializable).1.ssi.lookup u =
      if u = s.tm.nextTxnId then some (new s.tm.nextTimestamp)
      else s.tm.ssi.lookup u := fun u => lookup_insert_eq ..
  have hold : ∀ T ∈ s.begun, T.id ≠ s.tm.nextTxnId := fun T hT =>
    (h.tracked.timeline.id_lt T hT).ne
  refine h.quiet (tracked_begin h.tracked) rfl (fun _ _ hc => hc) (fun _ _ hc => .inl hc) ?_ ?_
  · rintro T a ha ⟨hT,hs⟩
    have hid : T.id ≠ s.tm.nextTxnId := by
      intro hid
      exact h.tracked.fresh a (hid ▸ ha)
    have hT : T ∈ s.begun := by
      rcases List.mem_append.mp hT with hT | hT
      · exact hT
      · exact absurd (congrArg Transaction.id (List.mem_singleton.mp hT)) hid
    refine ⟨hT,hs.imp_right ?_⟩
    rintro ⟨st,hst,hab⟩
    rw [hssi, if_neg hid] at hst
    exact ⟨st,hst,hab⟩
  · intro T hT st hst
    rwa [hssi, if_neg (hold T hT)] at hst

lemma safe_closed {s : State} {tm' : TransactionManager} {id : TxnId} {X : Transaction}
    {commit : Option Timestamp} (h : Safe s) (hX : s.tm.activeTxns.lookup id = some X)
    (hc : Closed s tm' id commit) : Safe { s with tm := tm' } := by
  obtain ⟨hXb,rfl,-⟩ := h.tracked.timeline.active_begun id X hX
  have hcom : ∀ u, tm'.committedTxns.lookup u = s.tm.committedTxns.lookup u ∨
      u = X.id ∧ ∃ cts, commit = some cts ∧ cts = s.tm.nextTimestamp ∧
        tm'.committedTxns.lookup u = some cts := by
    intro u
    have hclock := hc.ended.clock
    cases commit with
    | none => exact .inl (by rw [hclock.2])
    | some cts =>
      obtain ⟨hcts,-,hins⟩ := hclock
      rw [hins, lookup_insert_eq]
      by_cases hu : u = X.id
      · exact .inr ⟨hu,cts,rfl,hcts,by simp [hu]⟩
      · exact .inl (by simp [hu])
  have hssi : ∀ u st, tm'.ssi.lookup u = some st → s.tm.ssi.lookup u = some st := by
    intro u st hst
    rw [hc.ssi] at hst
    by_cases hu : u = X.id
    · simp [hu] at hst
    · rwa [if_neg hu] at hst
  refine h.quiet (h.tracked.closed hX hc) rfl ?_ ?_ ?_ ?_
  · intro T ct hct
    rcases hcom T.id with heq | ⟨hT,-⟩
    · exact heq.trans hct
    · rw [committedAt, hT, ← committedAt, h.tracked.uncommitted hX] at hct
      cases hct
  · intro T ct hct
    rcases hcom T.id with heq | ⟨-,cts,-,hcts,hlook⟩
    · exact .inl (heq.symm.trans hct)
    · exact .inr ((Option.some.inj (hct.symm.trans hlook)).trans hcts)
  · rintro T a - ⟨hT,⟨ct,hct⟩ | ⟨st,hst,hab⟩⟩
    · rcases hcom T.id with heq | ⟨hid,cts,hcts,-⟩
      · exact ⟨hT,.inl ⟨ct,heq.symm.trans hct⟩⟩
      · rw [Standing, hid]
        exact ⟨hT,.inr (hc.stood cts hcts)⟩
    · exact ⟨hT,.inr ⟨st,hssi T.id st hst,hab⟩⟩
  · exact fun T _ st hst => hssi T.id st hst

lemma safe_rehash {s : State} (h : Safe s) {ssi : Map TxnId SsiState}
    {recent : Map TxnId CommittedSsi} (hssi : ssi.entries.Perm s.tm.ssi.entries)
    (hrec : recent.entries.Perm s.tm.ssiRecent.entries) :
    Safe { s with tm := { s.tm with ssi := ssi, ssiRecent := recent } } := by
  have hlook : ∀ u, ssi.lookup u = s.tm.ssi.lookup u := fun u => AList.perm_lookup hssi
  refine h.quiet (tracked_rehash h.tracked hssi hrec) rfl (fun _ _ hc => hc)
    (fun _ _ hc => .inl hc) ?_ (fun T _ st hst => hlook T.id ▸ hst)
  rintro T a - ⟨hT,hs⟩
  refine ⟨hT,hs.imp_right ?_⟩
  rintro ⟨st,hst,hab⟩
  exact ⟨st,hlook T.id ▸ hst,hab⟩

/-! A clean access flags every conflict it brings, or dooms a transaction of each
pivot. The committed transactions of a history of clean accesses are therefore
serializable. A scan after a write is where the code misses a conflict. -/

def accessed (s : State) (X : Transaction) (a : Access) : State :=
  { s with tm := record s.tm X.id a, log := s.log++[(X.id,a)] }

section
variable {s : State} {X T U : Transaction} {a : Access} {st : SsiState}

lemma accessed_log (s : State) (T X : Transaction) (a b : Access) :
    (T.id,b) ∈ (accessed s X a).log ↔ (T.id,b) ∈ s.log ∨ T.id = X.id ∧ b = a := by
  simp [accessed]

section
variable (hst : s.tm.ssi.lookup X.id = some st)
include hst

lemma accessed_committed (T : Transaction) : committedAt (accessed s X a) T = committedAt s T := by
  rw [committedAt, accessed, (record_grows hst a).1]
  rfl

lemma accessed_before {su' : SsiState} (hsu' : (accessed s X a).tm.ssi.lookup T.id = some su') :
    ∃ su, s.tm.ssi.lookup T.id = some su ∧ (∀ side, su.flag side = true → su'.flag side = true) ∧
      (su'.aborted = false → su.aborted = false) := by
  have hg := (record_grows hst a).2
  have hnote : ∀ su side, (noted a su).flag side = su.flag side := by
    intro su side
    cases a <;> cases side <;> rfl
  have hab : ∀ su, (noted a su).aborted = su.aborted := by
    intro su
    cases a <;> rfl
  cases hsu : s.tm.ssi.lookup T.id with
  | none =>
    have hnone : (adjust s.tm.ssi X.id (noted a)).lookup T.id = none := by
      rw [lookup_adjust, hsu]
      simp
    rw [accessed, hg.none T.id hnone] at hsu'
    cases hsu'
  | some su =>
    obtain ⟨su'',hsu'',hg⟩ := hg.some T.id (if T.id = X.id then noted a su else su) (by
      rw [lookup_adjust, hsu]
      split <;> rfl)
    obtain rfl := some.inj (hsu''.symm.trans hsu')
    refine ⟨su,rfl,fun side hf => hg.flag side ?_,fun ha => ?_⟩
    · split
      · rwa [hnote]
      · exact hf
    · by_contra hsa
      have hsa : su.aborted = true := by simpa using hsa
      have := hg.aborted (by split <;> simp [hab, hsa])
      simp [ha] at this

lemma accessed_standing (h : Standing (accessed s X a) T) : Standing s T := by
  obtain ⟨hT,⟨ct,hct⟩ | ⟨su',hsu',hab⟩⟩ := h
  · rw [accessed_committed hst] at hct
    exact ⟨hT,.inl ⟨ct,hct⟩⟩
  · obtain ⟨su,hsu,-,hg⟩ := accessed_before hst hsu'
    exact ⟨hT,.inr ⟨su,hsu,hg hab⟩⟩

lemma accessed_concurrent : Concurrent (accessed s X a) T U ↔ Concurrent s T U := by
  rw [Concurrent, accessed_committed hst, accessed_committed hst, Concurrent]

lemma accessed_before_iff (ts : Timestamp) :
    CommittedBefore (accessed s X a) T ts ↔ CommittedBefore s T ts := by
  rw [CommittedBefore, accessed_committed hst, CommittedBefore]

end

lemma accessed_read_only (h : Tracked s) (hst : s.tm.ssi.lookup X.id = some st)
    (hX : X ∈ s.begun) (hT : T ∈ s.begun) : ReadOnly (accessed s X a) T ↔ ReadOnly s T := by
  rw [ReadOnly, accessed_committed hst, ReadOnly]
  refine and_congr_right ?_
  rintro ⟨ct,hct⟩
  refine forall_congr' (fun rk => ?_)
  have hne : T.id ≠ X.id := by
    intro hid
    obtain rfl := h.timeline.unique T hT X hX hid
    rw [(h.active hX hst).2] at hct
    cases hct
  rw [Writes, accessed_log, Writes]
  simp [hne]

lemma Safe.accessed (h : Safe s) (hX : s.tm.activeTxns.lookup X.id = some X)
    (hst : s.tm.ssi.lookup X.id = some st) (New : Transaction → Transaction → Prop)
    (hnew : ∀ T U, T ∈ s.begun → U ∈ s.begun → Conflict (accessed s X a) T U →
      Conflict s T U ∨ New T U)
    (hin : ∀ i u su', New i u → Standing (accessed s X a) i → Standing (accessed s X a) u →
      (accessed s X a).tm.ssi.lookup u.id = some su' → su'.flag .incoming = true ∨ ReadOnly s i)
    (hout : ∀ u j su', New u j → Standing (accessed s X a) u → Standing (accessed s X a) j →
      (accessed s X a).tm.ssi.lookup u.id = some su' → su'.flag .outgoing = true)
    (hleft : ∀ i u j, New i u → Conflict s u j ∨ New u j → ¬Pivot (accessed s X a) i u j)
    (hright : ∀ i u j, Conflict s i u → New u j → ¬Pivot (accessed s X a) i u j) :
    Safe (accessed s X a) := by
  have hXb := (h.tracked.timeline.active_begun _ X hX).1
  have hro : ∀ T ∈ s.begun, ReadOnly (SsiHistory.accessed s X a) T ↔ ReadOnly s T :=
    fun T hT => accessed_read_only h.tracked hst hXb hT
  constructor
  case tracked => exact tracked_access h.tracked hX a
  case out_flag =>
    intro u j su' hu hsu' hab hj hc
    rcases hnew u j hu hj.1 hc with hc | hc
    · obtain ⟨su,hsu,hf,hg⟩ := accessed_before hst hsu'
      exact hf _ (h.out_flag u j su hu hsu (hg hab) (accessed_standing hst hj) hc)
    · exact hout u j su' hc ⟨hu,.inr ⟨su',hsu',hab⟩⟩ hj hsu'
  case in_flag =>
    intro i u su' hu hsu' hab hi hc
    rw [hro i hi.1]
    rcases hnew i u hi.1 hu hc with hc | hc
    · obtain ⟨su,hsu,hf,hg⟩ := accessed_before hst hsu'
      exact (h.in_flag i u su hu hsu (hg hab) (accessed_standing hst hi) hc).imp_left (hf _)
    · exact hin i u su' hc hi ⟨hu,.inr ⟨su',hsu',hab⟩⟩ hsu'
  case no_pivot =>
    intro i u j hp
    have hi := hp.standing_left
    have hu := hp.standing
    have hj := hp.standing_right
    rcases hnew i u hi.1 hu.1 hp.left with hiu | hiu
    · rcases hnew u j hu.1 hj.1 hp.right with huj | huj
      · refine h.no_pivot i u j ⟨accessed_standing hst hi,accessed_standing hst hu,
          accessed_standing hst hj,hiu,huj,fun cu hcu => ?_,fun hr => ?_⟩
        · exact (accessed_before_iff hst cu).mp (hp.first cu ((accessed_committed hst u).trans hcu))
        · exact (accessed_before_iff hst _).mp (hp.early ((hro i hi.1).mpr hr))
      · exact hright i u j hiu huj hp
    · exact hleft i u j hiu (hnew u j hu.1 hj.1 hp.right) hp

/-- The two transactions of a new conflict, when both are still standing: they
have their flags, and neither has become a pivot by it. -/
structure Meets (s : State) (X U : Transaction) (a : Access) (st : SsiState) (side : Side) :
    Prop where
  mine : ∃ st', (accessed s X a).tm.ssi.lookup X.id = some st' ∧ st'.flag side = true
  clear : st.flag side.opposite = false
  theirs : ∀ su, s.tm.ssi.lookup U.id = some su → su.flag side = false ∧
    ∃ su', (accessed s X a).tm.ssi.lookup U.id = some su' ∧ su'.flag side.opposite = true

lemma recorded_meets (h : Tracked s) (hXb : X ∈ s.begun)
    (hst : s.tm.ssi.lookup X.id = some st) {side : Side} {note : SsiState → SsiState}
    {hit : SsiState → Bool} {hitRecent : CommittedSsi → Bool}
    (hr : Recorded s.tm (accessed s X a).tm X.id st side note hit hitRecent)
    (hX : Standing (accessed s X a) X) (hU : Standing (accessed s X a) U) (hne : U ≠ X)
    (hhit : ∀ su, s.tm.ssi.lookup U.id = some su → hit su = true)
    (hrec : ∀ cu, committedAt s U = some cu →
      ∃ c, s.tm.ssiRecent.lookup U.id = some c ∧ st.startTs < c.commitTs ∧ hitRecent c = true) :
    Meets s X U a st side := by
  have hid : U.id ≠ X.id := fun hid => hne (h.timeline.unique U hU.1 X hXb hid)
  have hup : ∀ {T : Transaction} {sT : SsiState}, Standing (accessed s X a) T →
      (accessed s X a).tm.ssi.lookup T.id = some sT → sT.aborted = false := by
    rintro T sT ⟨hT,⟨ct,hct⟩ | ⟨sT',hsT',hab⟩⟩ hsT
    · obtain ⟨su,hsu,-⟩ := accessed_before hst hsT
      rw [accessed_committed hst, (h.active hT hsu).2] at hct
      cases hct
    · rwa [some.inj (hsT.symm.trans hsT')]
  rcases (accessed_standing hst hU).2 with ⟨cu,hcu⟩ | ⟨su,hsu,-⟩
  · obtain ⟨c,hc,hlt,hh⟩ := hrec cu hcu
    obtain ⟨st',hst',hf,hab⟩ := hr.recent U.id c hc hlt hh
    refine ⟨⟨st',hst',hf⟩,?_,fun su hsu => ?_⟩
    · by_contra hopp
      have := hab (by simpa using hopp)
      simp [hup hX hst'] at this
    · rw [(h.active hU.1 hsu).2] at hcu
      cases hcu
  · obtain ⟨st',su',hst',hsu',hc⟩ := hr.clash U.id su hid hsu (hhit su hsu)
    refine ⟨⟨st',hst',hc.mine⟩,?_,fun su2 hsu2 => ?_⟩
    · by_contra hopp
      have := hc.pivot_me (by simpa using hopp)
      simp [hup hX hst'] at this
    · obtain rfl := some.inj (hsu.symm.trans hsu2)
      refine ⟨?_,su',hsu',hc.theirs⟩
      by_contra hf
      have := hc.pivot_other (by simpa using hf)
      simp [hup hX hst', hup hU hsu'] at this

lemma accessed_reads (h : Tracked s) (hT : T ∈ s.begun) (hX : X ∈ s.begun) {rk : RwKey}
    (hr : Reads (accessed s X a) T rk) :
    Reads s T rk ∨ T = X ∧ (a = .read rk ∨ a = .scan rk.1) := by
  rw [Reads, accessed_log, accessed_log] at hr
  rcases hr with (hr | ⟨hid,ha⟩) | hr | ⟨hid,ha⟩
  · exact .inl (.inl hr)
  · exact .inr ⟨h.timeline.unique T hT X hX hid,.inl ha.symm⟩
  · exact .inl (.inr hr)
  · exact .inr ⟨h.timeline.unique T hT X hX hid,.inr ha.symm⟩

lemma accessed_writes (h : Tracked s) (hT : T ∈ s.begun) (hX : X ∈ s.begun) {rk : RwKey}
    (hw : Writes (accessed s X a) T rk) : Writes s T rk ∨ T = X ∧ a = .write rk := by
  rw [Writes, accessed_log] at hw
  rcases hw with hw | ⟨hid,ha⟩
  · exact .inl hw
  · exact .inr ⟨h.timeline.unique T hT X hX hid,ha.symm⟩

variable (h : Safe s) (hX : s.tm.activeTxns.lookup X.id = some X)
include h hX

lemma safe_scan (table : String)
    (hclean : Standing s X → ∀ U rk, Standing s U → U ≠ X → Concurrent s X U →
      Writes s U rk → rk.1 ≠ table) : Safe (accessed s X (.scan table)) := by
  obtain ⟨st,hst⟩ := (h.tracked.ssi_active X.id).mpr ⟨X,hX⟩
  have hXb := (h.tracked.timeline.active_begun _ X hX).1
  let New (T U : Transaction) : Prop := T = X ∧ U ≠ X ∧ Concurrent s X U ∧
    ∃ rk, Writes s U rk ∧ rk.1 = table
  have hnone : ∀ T U, Standing (accessed s X (.scan table)) T →
      Standing (accessed s X (.scan table)) U → ¬New T U := by
    rintro T U hT hU ⟨rfl,hne,hc,rk,hw,ht⟩
    exact hclean (accessed_standing hst hT) U rk (accessed_standing hst hU) hne hc hw ht
  refine h.accessed hX hst New ?_ ?_ ?_ ?_ ?_
  · rintro T U hT hU ⟨hne,hc,rk,hr,hw⟩
    rw [accessed_concurrent hst] at hc
    have hwU : Writes s U rk := (accessed_writes h.tracked hU hXb hw).resolve_right (by simp)
    rcases accessed_reads h.tracked hT hXb hr with hr | ⟨rfl,ha | ha⟩
    · exact .inl ⟨hne,hc,rk,hr,hwU⟩
    · cases ha
    · exact .inr ⟨rfl,hne.symm,hc,rk,hwU,(Access.scan.inj ha).symm⟩
  · exact fun i u _ hn hi hu _ => absurd hn (hnone i u hi hu)
  · exact fun u j _ hn hu hj _ => absurd hn (hnone u j hu hj)
  · exact fun i u j hn _ hp => hnone i u hp.standing_left hp.standing hn
  · exact fun i u j _ hn hp => hnone u j hp.standing hp.standing_right hn

lemma safe_read (rk : RwKey)
    (hclean : Standing s X → ∀ U cu, Standing s U → committedAt s U = some cu →
      X.startTs < cu → Writes s U rk →
      (∀ V, Standing s V → Conflict s U V → ¬CommittedBefore s V cu) ∧
      ∀ V, Standing s V → ReadOnly s V → Conflict s V X → ¬cu < V.startTs) :
    Safe (accessed s X (.read rk)) := by
  obtain ⟨st,hst⟩ := (h.tracked.ssi_active X.id).mpr ⟨X,hX⟩
  have hXb := (h.tracked.timeline.active_begun _ X hX).1
  have hstart := h.tracked.start X.id X st hX hst
  let New (T U : Transaction) : Prop := T = X ∧ U ≠ X ∧ Concurrent s X U ∧ Writes s U rk
  have hmeet : ∀ U, New X U → Standing (accessed s X (.read rk)) X →
      Standing (accessed s X (.read rk)) U → Meets s X U (.read rk) st .outgoing := by
    rintro U ⟨-,hne,hc,hw⟩ hXs hU
    refine recorded_meets h.tracked hXb hst (ssi_record_read_spec hst rk.1 rk.2) hXs hU hne ?_ ?_
    · exact fun su hsu => decide_eq_true ((h.tracked.entry U.id su hsu (.write rk)).mpr hw)
    · intro cu hcu
      have hlt := hc.2 cu hcu
      obtain ⟨c,hcl,hcts,hcov⟩ := h.tracked.recent U.id cu rk hcu hw X hX hlt
      exact ⟨c,hcl,by rwa [hstart, hcts],decide_eq_true ((hcov (.write rk)).mpr hw)⟩
  refine h.accessed hX hst New ?_ ?_ ?_ ?_ ?_
  · rintro T U hT hU ⟨hne,hc,rk',hr,hw⟩
    rw [accessed_concurrent hst] at hc
    have hwU : Writes s U rk' := (accessed_writes h.tracked hU hXb hw).resolve_right (by simp)
    rcases accessed_reads h.tracked hT hXb hr with hr | ⟨rfl,ha | ha⟩
    · exact .inl ⟨hne,hc,rk',hr,hwU⟩
    · obtain rfl := Access.read.inj ha
      exact .inr ⟨rfl,hne.symm,hc,hwU⟩
    · cases ha
  · rintro i u su' hn hi hu hsu'
    obtain rfl := hn.1
    obtain ⟨su,hsu,-⟩ := accessed_before hst hsu'
    obtain ⟨-,su2,hsu2,hf⟩ := (hmeet u hn hi hu).theirs su hsu
    rw [hsu'] at hsu2
    exact .inl ((some.inj hsu2) ▸ hf)
  · rintro u j su' hn hu hj hsu'
    obtain rfl := hn.1
    obtain ⟨st',hst',hf⟩ := (hmeet j hn hu hj).mine
    rw [hsu'] at hst'
    exact (some.inj hst') ▸ hf
  · -- the new conflict leads into the pivot
    rintro i u j hn huj hp
    obtain rfl := hn.1
    have hus := accessed_standing hst hp.standing
    have huj : Conflict s u j := huj.resolve_right (fun hn' => hn.2.1 hn'.1)
    have hj := accessed_standing hst hp.standing_right
    rcases hus.2 with ⟨cu,hcu⟩ | ⟨su,hsu,hab⟩
    · refine (hclean (accessed_standing hst hp.standing_left) u cu hus hcu
        (hn.2.2.1.2 cu hcu) hn.2.2.2).1 j hj huj ?_
      exact (accessed_before_iff hst cu).mp (hp.first cu ((accessed_committed hst u).trans hcu))
    · have hf := h.out_flag u j su hus.1 hsu hab hj huj
      have := ((hmeet u hn hp.standing_left hp.standing).theirs su hsu).1
      simp [hf] at this
  · -- the new conflict leads out of the pivot
    rintro i u j hiu hn hp
    obtain rfl := hn.1
    have hi := accessed_standing hst hp.standing_left
    obtain ⟨hu,⟨cu,hcu⟩ | ⟨su,hsu,hab⟩⟩ := accessed_standing hst hp.standing
    · rw [(h.tracked.active hXb hst).2] at hcu
      cases hcu
    obtain rfl := some.inj (hst.symm.trans hsu)
    rcases h.in_flag i u st hu hst hab hi hiu with hf | hro
    · have := (hmeet j hn hp.standing hp.standing_right).clear
      simp [Side.opposite, hf] at this
    · obtain ⟨cj,hcj,hlt⟩ := (accessed_before_iff hst _).mp
        (hp.early ((accessed_read_only h.tracked hst hXb hi.1).mpr hro))
      exact (hclean ⟨hu,.inr ⟨st,hst,hab⟩⟩ j cj (accessed_standing hst hp.standing_right) hcj
        (hn.2.2.1.2 cj hcj) hn.2.2.2).2 i hi hro hiu hlt

lemma safe_write (rk : RwKey)
    (hclean : Standing s X → ∀ V, Standing s V → ReadOnly s V → Concurrent s V X →
      Reads s V rk → ∀ U, Standing s U → Conflict s X U → ¬CommittedBefore s U V.startTs) :
    Safe (accessed s X (.write rk)) := by
  obtain ⟨st,hst⟩ := (h.tracked.ssi_active X.id).mpr ⟨X,hX⟩
  have hXb := (h.tracked.timeline.active_begun _ X hX).1
  have hstart := h.tracked.start X.id X st hX hst
  let New (T U : Transaction) : Prop := U = X ∧ T ≠ X ∧ Concurrent s T X ∧ Reads s T rk
  have hmeet : ∀ T, New T X → Standing (accessed s X (.write rk)) X →
      Standing (accessed s X (.write rk)) T → ¬ReadOnly s T →
      Meets s X T (.write rk) st .incoming := by
    rintro T ⟨-,hne,hc,hr⟩ hXs hT hro
    refine recorded_meets h.tracked hXb hst (ssi_record_write_spec hst rk.1 rk.2) hXs hT hne ?_ ?_
    · intro su hsu
      have hcov := h.tracked.entry T.id su hsu
      exact decide_eq_true (hr.imp (hcov (.read rk)).mpr (hcov (.scan rk.1)).mpr)
    intro ct hct
    have hlt := hc.1 ct hct
    obtain ⟨rk',hw⟩ : ∃ rk', Writes s T rk' := by
      by_contra hno
      exact hro ⟨⟨ct,hct⟩,not_exists.mp hno⟩
    obtain ⟨c,hcl,hcts,hcov⟩ := h.tracked.recent T.id ct rk' hct hw X hX hlt
    exact ⟨c,hcl,by rwa [hstart, hcts],
      decide_eq_true (hr.imp (hcov (.read rk)).mpr (hcov (.scan rk.1)).mpr)⟩
  refine h.accessed hX hst New ?_ ?_ ?_ ?_ ?_
  · rintro T U hT hU ⟨hne,hc,rk',hr,hw⟩
    rw [accessed_concurrent hst] at hc
    have hrT : Reads s T rk' := (accessed_reads h.tracked hT hXb hr).resolve_right (by simp)
    rcases accessed_writes h.tracked hU hXb hw with hw | ⟨rfl,ha⟩
    · exact .inl ⟨hne,hc,rk',hrT,hw⟩
    · obtain rfl := Access.write.inj ha
      exact .inr ⟨rfl,hne,hc,hrT⟩
  · rintro i u su' hn hi hu hsu'
    obtain rfl := hn.1
    by_cases hro : ReadOnly s i
    · exact .inr hro
    · obtain ⟨st',hst',hf⟩ := (hmeet i hn hu hi hro).mine
      rw [hsu'] at hst'
      exact .inl ((some.inj hst') ▸ hf)
  · rintro u j su' hn hu hj hsu'
    obtain rfl := hn.1
    obtain ⟨su,hsu,-⟩ := accessed_before hst hsu'
    have hro := h.tracked.not_readOnly hu.1 hsu
    obtain ⟨-,su2,hsu2,hf⟩ := (hmeet u hn hj hu hro).theirs su hsu
    rw [hsu'] at hsu2
    exact (some.inj hsu2) ▸ hf
  · -- the new conflict leads into the pivot
    rintro i u j hn huj hp
    obtain rfl := hn.1
    have huj : Conflict s u j := huj.resolve_right (fun hn' => hp.right.1 hn'.1.symm)
    have hi := accessed_standing hst hp.standing_left
    have hj := accessed_standing hst hp.standing_right
    obtain ⟨hu,⟨cu,hcu⟩ | ⟨su,hsu,hab⟩⟩ := accessed_standing hst hp.standing
    · rw [(h.tracked.active hXb hst).2] at hcu
      cases hcu
    obtain rfl := some.inj (hst.symm.trans hsu)
    by_cases hro : ReadOnly s i
    · refine hclean ⟨hu,.inr ⟨st,hst,hab⟩⟩ i hi hro hn.2.2.1 hn.2.2.2 j hj huj ?_
      exact (accessed_before_iff hst _).mp
        (hp.early ((accessed_read_only h.tracked hst hXb hi.1).mpr hro))
    · have hf := h.out_flag u j st hu hst hab hj huj
      have := (hmeet i hn hp.standing hp.standing_left hro).clear
      simp [Side.opposite, hf] at this
  · -- the new conflict leads out of the pivot, to a transaction not yet committed
    rintro i u j hiu hn hp
    obtain rfl := hn.1
    have hlate : ∀ ts, ¬CommittedBefore (accessed s j (.write rk)) j ts := by
      rintro ts ⟨cj,hcj,-⟩
      rw [accessed_committed hst, (h.tracked.active hXb hst).2] at hcj
      cases hcj
    have hi := accessed_standing hst hp.standing_left
    obtain ⟨hu,⟨cu,hcu⟩ | ⟨su,hsu,hab⟩⟩ := accessed_standing hst hp.standing
    · exact hlate cu (hp.first cu ((accessed_committed hst u).trans hcu))
    have hro := h.tracked.not_readOnly hu hsu
    rcases h.in_flag i u su hu hsu hab hi hiu with hf | hr
    · have := ((hmeet u hn hp.standing_right hp.standing hro).theirs su hsu).1
      simp [hf] at this
    · exact hlate _ (hp.early ((accessed_read_only h.tracked hst hXb hi.1).mpr hr))

end

lemma step_safe {s s' : State} (a : Step) (h : Safe s) (hclean : Clean s a)
    (hs : step s a = some s') : Safe s' := by
  cases a with
  | begin =>
    obtain rfl := some.inj hs
    exact safe_begin h
  | access txn a =>
    obtain ⟨X,hX,hs⟩ := bind_eq_some_iff.mp hs
    obtain rfl := some.inj hs
    obtain ⟨-,rfl,-⟩ := h.tracked.timeline.active_begun txn X hX
    have hclean := hclean X hX
    cases a with
    | read rk => exact safe_read h hX rk hclean
    | scan table => exact safe_scan h hX table hclean
    | write rk => exact safe_write h hX rk hclean
  | commit txn =>
    obtain ⟨X,hX,hs⟩ := bind_eq_some_iff.mp hs
    obtain rfl := some.inj hs
    obtain ⟨commit,hc⟩ := commit_closed h.tracked hX
    exact safe_closed h hX hc
  | abort txn =>
    obtain ⟨X,hX,hs⟩ := bind_eq_some_iff.mp hs
    obtain rfl := some.inj hs
    exact safe_closed h hX (abort_closed h.tracked hX)
  | rehash ssi recent =>
    rw [step] at hs
    split at hs
    · rename_i hperm
      obtain rfl := some.inj hs
      exact safe_rehash h hperm.1 hperm.2
    · cases hs

def CleanRun (s : State) : Prop := Runs.Reaches step Clean init s

lemma clean_run_safe {s : State} (h : CleanRun s) : Safe s :=
  Runs.Reaches.invariant safe_init (fun _ a _ => step_safe a) h

section
variable {s : State} {T U : Transaction}

lemma Safe.starts_before (h : Safe s) (hT : T ∈ s.begun) {ct : Timestamp}
    (hct : committedAt s T = some ct) : T.startTs < ct := by
  obtain ⟨T',hT',hid,hlt⟩ := h.tracked.timeline.committed_begun _ ct hct
  rwa [h.tracked.timeline.unique T hT T' hT' hid.symm]

lemma Depends.committed (h : Depends s T U) :
    ∃ ct cu, committedAt s T = some ct ∧ committedAt s U = some cu := by
  obtain ⟨-,-,-,⟨_,ct,cu,h1,h2,-⟩ | ⟨_,ct,cu,h1,h2,-⟩ | ⟨_,ct,cu,h1,h2,-⟩⟩ := h
  · exact ⟨ct,cu,h1,h2⟩
  · exact ⟨ct,cu,h1,h2⟩
  · exact ⟨ct,cu,h1,h2⟩

lemma Safe.serializable (h : Safe s) (hw : WritersApart s) : Serializable s := by
  let commit (T : Transaction) : Timestamp := (committedAt s T).getD 0
  let withTime (T U : Transaction) : Prop := commit T < U.startTs
  let against (T U : Transaction) : Prop := Depends s T U ∧ ReadWrite s T U
  have hkind : ∀ T U, Depends s T U → withTime T U ∨ against T U := by
    rintro T U ⟨hT,hU,hne,⟨rk,ct,cu,hct,hcu,hwT,hwU,hlt⟩ | ⟨rk,ct,cu,hct,hcu,hwT,hrU,hlt⟩ | hrw⟩
    · left
      simp only [withTime, commit, hct, getD_some]
      rcases hw T hT U hU rk ct cu hne hct hcu hwT hwU with hlt' | hlt'
      · exact hlt'
      · exact absurd ((h.starts_before hT hct).trans hlt) (not_lt.mpr hlt'.le)
    · left
      simpa only [withTime, commit, hct, getD_some] using hlt
    · exact .inr ⟨⟨hT,hU,hne,.inr (.inr hrw)⟩,hrw⟩
  have hagainst : ∀ T U, against T U → T.startTs < commit U := by
    rintro T U ⟨-,rk,ct,cu,-,hcu,-,-,hlt⟩
    simpa only [commit, hcu, getD_some] using hlt
  have hstart : ∀ T U, Depends s T U → U.startTs < commit U := by
    intro T U hd
    obtain ⟨ct,cu,-,hcu⟩ := hd.committed
    simpa only [commit, hcu, getD_some] using h.starts_before hd.2.1 hcu
  have hdistinct : ∀ T U, Depends s T U → commit T ≠ commit U := by
    intro T U hd heq
    obtain ⟨ct,cu,hct,hcu⟩ := hd.committed
    simp only [commit, hct, hcu, getD_some] at heq
    subst heq
    exact hd.2.2.1 (h.tracked.timeline.unique T hd.1 U hd.2.1
      (h.tracked.timeline.commit_inj _ _ ct hct hcu))
  intro T hcycle
  obtain ⟨t0,t1,t2,t3,h01,⟨h12,rk,c1,c2,hc1,hc2,hr1,hw2,hlt12⟩,
      ⟨h23,rk',c2',c3,hc2',hc3,hr2,hw3,hlt23⟩,hle0,hle1,hle2⟩ :=
    SerializationGraph.pivot_of_cycle Transaction.startTs commit withTime against hkind
      (fun _ _ hlt => hlt) hagainst hstart hdistinct hcycle
  obtain rfl := some.inj (hc2.symm.trans hc2')
  obtain ⟨hb1,hb2,hne12,-⟩ := h12
  obtain ⟨-,hb3,hne23,-⟩ := h23
  simp only [commit, hc1, hc2, hc3, getD_some] at hle0 hle1 hle2
  have hs3 := h.starts_before hb3 hc3
  refine h.no_pivot t1 t2 t3 ⟨⟨hb1,.inl ⟨c1,hc1⟩⟩,⟨hb2,.inl ⟨c2,hc2⟩⟩,
    ⟨hb3,.inl ⟨c3,hc3⟩⟩,⟨hne12,⟨?_,?_⟩,rk,hr1,hw2⟩,⟨hne23,⟨?_,?_⟩,rk',hr2,hw3⟩, ?_,?_⟩
  · simpa [hc1] using hlt23.trans_le hle1
  · simpa [hc2] using hlt12
  · simpa [hc2] using hs3.trans hle2
  · simpa [hc3] using hlt23
  · intro cu hcu
    obtain rfl := some.inj (hc2.symm.trans hcu)
    exact ⟨c3,hc3,hle2⟩
  -- a transaction that only reads has nothing but a write-read dependency before it
  rintro ⟨-,hno⟩
  obtain ⟨-,-,-,⟨k,_,_,-,-,-,hk,-⟩ | ⟨_,c0,_,hc0,-,-,-,hlt⟩ | ⟨k,_,_,-,-,-,hk,-⟩⟩ := h01
  · exact absurd hk (hno k)
  · simp only [hc0, getD_some] at hle0
    exact ⟨c3,hc3,hle0.trans_lt hlt⟩
  · exact absurd hk (hno k)

end

/-- The transactions committed in a history of clean accesses are
serializable, if concurrent writers of one key do not both commit. -/
theorem clean_accesses_serializable (s : State) (h : CleanRun s) (hw : WritersApart s) :
    Serializable s :=
  (clean_run_safe h).serializable hw

lemma writers_apart_of_log {s : State} (hid : ∀ T ∈ s.begun, ∀ U ∈ s.begun, T.id = U.id → T = U)
    (hlog : ∀ e ∈ s.log, ∀ e' ∈ s.log, e.2 = e'.2 → e.1 = e'.1 ∨ e.2 = .scan "t") :
    WritersApart s := by
  intro T hT U hU rk ct cu hne _ _ hwT hwU
  rcases hlog _ hwT _ hwU rfl with heq | hscan
  · exact absurd (hid T hT U hU heq) hne
  · cases hscan

theorem crossed_reads_serializable :
    ∃ s, Runs.run step init [.begin, .begin, .access 1 (.read ("t",[2])),
        .access 1 (.write ("t",[1])), .access 2 (.read ("t",[1])),
        .access 2 (.write ("t",[2])), .commit 1, .commit 2] = some s ∧
      CleanRun s ∧ WritersApart s ∧ Serializable s ∧
      s.tm.isCommitted 1 = true ∧ s.tm.isCommitted 2 = false := by
  have hread : ∀ {s : State} (txn : TxnId) (rk : RwKey), s.tm.committedTxns = ∅ →
      Clean s (.access txn (.read rk)) := by
    intro s txn rk h X _ _ U cu _ hcu
    simp [committedAt, h] at hcu
  have hwrite : ∀ {s : State} (txn : TxnId) (rk : RwKey), s.tm.committedTxns = ∅ →
      Clean s (.access txn (.write rk)) := by
    rintro s txn rk h X _ _ V _ ⟨⟨cv,hcv⟩,-⟩
    simp [committedAt, h] at hcv
  have h0 : CleanRun init := .init
  have h1 : CleanRun _ := .step .begin h0 trivial rfl
  have h2 : CleanRun _ := .step .begin h1 trivial rfl
  have h3 : CleanRun _ := .step (.access 1 (.read ("t",[2]))) h2 (hread _ _ rfl) rfl
  have h4 : CleanRun _ := .step (.access 1 (.write ("t",[1]))) h3 (hwrite _ _ rfl) rfl
  have h5 : CleanRun _ := .step (.access 2 (.read ("t",[1]))) h4 (hread _ _ rfl) rfl
  have h6 : CleanRun _ := .step (.access 2 (.write ("t",[2]))) h5 (hwrite _ _ rfl) rfl
  have h7 : CleanRun _ := .step (.commit 1) h6 trivial rfl
  have h8 : CleanRun _ := .step (.commit 2) h7 trivial rfl
  have hapart := writers_apart_of_log (clean_run_safe h8).tracked.timeline.unique (by decide)
  exact ⟨_,rfl,h8,hapart,clean_accesses_serializable _ h8 hapart,rfl,rfl⟩

/-- Two transactions that write first and then scan the table both commit. -/
theorem write_then_scan_cycle :
    ∃ s, Runs.run step init [.begin, .begin, .access 1 (.write ("t",[1])),
        .access 2 (.write ("t",[2])), .access 1 (.scan "t"), .access 2 (.scan "t"),
        .commit 1, .commit 2] = some s ∧ WritersApart s ∧ ¬Serializable s := by
  refine ⟨_,rfl,writers_apart_of_log (by decide) (by decide),?_⟩
  intro hser
  let T : Transaction := ⟨1,.serializable,1,.active,[]⟩
  let U : Transaction := ⟨2,.serializable,2,.active,[1]⟩
  refine hser T (.tail (b := U) (.single ?_) ?_)
  · exact ⟨by decide,by decide,by decide,Or.inr (Or.inr
      ⟨("t",[2]),3,4,rfl,rfl,by decide,by decide,by decide⟩)⟩
  · exact ⟨by decide,by decide,by decide,Or.inr (Or.inr
      ⟨("t",[1]),4,3,rfl,rfl,by decide,by decide,by decide⟩)⟩

end ByteDB.SsiHistory
