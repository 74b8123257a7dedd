import ByteDB.Engine
import ByteDB.Wal

/-!
# Recovery from the write-ahead log

`recover` collects the numbers of the transactions that committed anywhere in
the log and repeats every change under such a number. The numbers start at 1
again in every run of the server, so a transaction of one run can lend its
commit to a transaction of another.
-/

set_option autoImplicit false

namespace ByteDB
open ByteDB.Wal List LogManager

namespace LogRecord

def txnId : LogRecord → Option TxnId
  | .begin t => some t
  | .insert t _ _ _ => some t
  | .update t _ _ _ _ => some t
  | .delete t _ _ _ => some t
  | .commit t => some t
  | .abort t => some t
  | .checkpoint _ => none

def isChange : LogRecord → Bool
  | .insert .. => true
  | .update .. => true
  | .delete .. => true
  | _ => false

end LogRecord

structure RecoveryResult where
  redoRecords : List (ℕ × LogRecord)
  undoRecords : List (ℕ × LogRecord)
  committedTxns : Finset TxnId
  abortedTxns : Finset TxnId
  deriving DecidableEq

namespace Recovery

structure Status where
  active : Finset TxnId
  committed : Finset TxnId

def note (s : Status) : LogRecord → Status
  | .begin t => { s with active := insert t s.active }
  | .commit t => { active := s.active.erase t, committed := insert t s.committed }
  | .abort t => { s with active := s.active.erase t }
  | .checkpoint ts => { s with active := ts.toFinset }
  | _ => s

variable (records : List (ℕ × LogRecord))

def statusOf : Status := records.foldl (fun s r => note s r.2) ⟨∅,∅⟩

def changedBy (txns : Finset TxnId) (r : LogRecord) : Bool :=
  match r.txnId with
  | none => false
  | some t => t ∈ txns && r.isChange

def analyzeRecords : RecoveryResult :=
  let s := statusOf records
  { redoRecords := records.filter (fun r => changedBy s.committed r.2)
    undoRecords := records.reverse.filter (fun r => changedBy s.active r.2)
    committedTxns := s.committed
    abortedTxns := s.active }

variable (fmt : Format LogRecord) (lm : LogManager)

def recoverInner (target : Option ℕ) : Except WalError (RecoveryResult × LogManager) := do
  let (all,lm) ← lm.readAllRecords fmt
  let records := match target with
    | some t => all.filter (fun r => r.1 ≤ t)
    | none => all
  .ok (analyzeRecords records,lm)

def recover : Except WalError (RecoveryResult × LogManager) := recoverInner fmt lm none

def recoverToLsn (target : ℕ) : Except WalError (RecoveryResult × LogManager) :=
  recoverInner fmt lm (some target)

lemma mem_committed_foldl (s : Status) (t : TxnId) :
    t ∈ (records.foldl (fun s r => note s r.2) s).committed ↔
      t ∈ s.committed ∨ LogRecord.commit t ∈ records.map Prod.snd := by
  induction records generalizing s with
  | nil => simp
  | cons r records ih =>
    obtain ⟨lsn,r⟩ := r
    rw [foldl_cons, ih, map_cons, mem_cons]
    cases r with
    | commit t' =>
      simp only [note, Finset.mem_insert, LogRecord.commit.injEq]
      tauto
    | begin | abort | checkpoint | insert | update | delete => simp [note]

lemma mem_committed (t : TxnId) :
    t ∈ (statusOf records).committed ↔ LogRecord.commit t ∈ records.map Prod.snd := by
  rw [statusOf, mem_committed_foldl]
  simp

section

/-- What a server writes whose next transaction has the number `next`: each
transaction begins once, changes rows while it is active, and ends once. -/
inductive Writes : ℕ → List TxnId → List LogRecord → Prop
  | nil {next : ℕ} {active : List TxnId} : Writes next active []
  | begin {next : ℕ} {active : List TxnId} {rest : List LogRecord}
      (h : Writes (next+1) (next::active) rest) : Writes next active (.begin next::rest)
  | change {next : ℕ} {active : List TxnId} {r : LogRecord} {t : TxnId} {rest : List LogRecord}
      (hr : r.isChange = true) (ht : r.txnId = some t) (hactive : t ∈ active)
      (h : Writes next active rest) : Writes next active (r::rest)
  | commit {next : ℕ} {active : List TxnId} {t : TxnId} {rest : List LogRecord}
      (hactive : t ∈ active) (h : Writes next (active.erase t) rest) :
      Writes next active (.commit t::rest)
  | abort {next : ℕ} {active : List TxnId} {t : TxnId} {rest : List LogRecord}
      (hactive : t ∈ active) (h : Writes next (active.erase t) rest) :
      Writes next active (.abort t::rest)
  | checkpoint {next : ℕ} {active : List TxnId} {rest : List LogRecord} (ts : List TxnId)
      (h : Writes next active rest) : Writes next active (.checkpoint ts::rest)

/-- The records of one run of a server, which may stop at any point. -/
structure ServerRun where
  records : List LogRecord
  writes : Writes 1 [] records

variable {next : ℕ} {active : List TxnId} {rs : List LogRecord}

lemma Writes.begin_ge (h : Writes next active rs) {t : TxnId} (ht : .begin t ∈ rs) : next ≤ t := by
  induction h with
  | nil => cases ht
  | begin h ih =>
    rcases mem_cons.mp ht with heq | hrest
    · cases heq
      exact le_rfl
    · exact Nat.le_of_succ_le (ih hrest)
  | change hr htxn hactive h ih =>
    rcases mem_cons.mp ht with heq | hrest
    · subst heq
      cases hr
    · exact ih hrest
  | commit _ _ ih | abort _ _ ih | checkpoint _ _ ih =>
    exact ih ((mem_cons.mp ht).resolve_left (by simp))

/-- The active transactions have different numbers that were given out. -/
def Given (next : ℕ) (active : List TxnId) : Prop := active.Nodup ∧ ∀ t ∈ active, t < next

lemma Given.begin (h : Given next active) : Given (next+1) (next::active) := by
  refine ⟨nodup_cons.mpr ⟨fun hmem => lt_irrefl _ (h.2 next hmem),h.1⟩,fun t ht => ?_⟩
  rcases mem_cons.mp ht with rfl | ht
  · exact Nat.lt_succ_self _
  · exact (h.2 t ht).trans (Nat.lt_succ_self _)

lemma Given.erase (h : Given next active) (t : TxnId) : Given next (active.erase t) :=
  ⟨h.1.erase t,fun t' ht' => h.2 t' (mem_of_mem_erase ht')⟩

lemma Writes.enclosed (h : Writes next active rs) (hg : Given next active) {i : ℕ}
    {r : LogRecord} (hi : rs[i]? = some r) (hr : r.isChange = true) {t : TxnId}
    (ht : r.txnId = some t) :
    (t ∈ active ∨ .begin t ∈ rs.take i) ∧ (.commit t ∈ rs → .commit t ∈ rs.drop (i+1)) := by
  induction h generalizing i with
  | nil => cases hi
  | begin h ih =>
    cases i with
    | zero =>
      cases hi
      cases hr
    | succ i =>
      obtain ⟨hbegin,hcommit⟩ := ih hg.begin hi
      refine ⟨?_,fun hmem => hcommit ((mem_cons.mp hmem).resolve_left (by simp))⟩
      rcases hbegin with hactive | hbegin
      · rcases mem_cons.mp hactive with rfl | hactive
        · exact .inr (mem_cons_self ..)
        · exact .inl hactive
      · exact .inr (mem_cons_of_mem _ hbegin)
  | change hr' ht' hactive h ih =>
    cases i with
    | zero =>
      cases hi
      cases ht.symm.trans ht'
      refine ⟨.inl hactive,fun hmem => (mem_cons.mp hmem).resolve_left ?_⟩
      rintro rfl
      cases hr
    | succ i =>
      obtain ⟨hbegin,hcommit⟩ := ih hg hi
      refine ⟨hbegin.imp_right (mem_cons_of_mem _),fun hmem =>
        hcommit ((mem_cons.mp hmem).resolve_left ?_)⟩
      rintro rfl
      cases hr'
  | @commit next active t' rest hactive h ih =>
    cases i with
    | zero =>
      cases hi
      cases hr
    | succ i =>
      obtain ⟨hbegin,hcommit⟩ := ih (hg.erase t') hi
      refine ⟨hbegin.imp mem_of_mem_erase (mem_cons_of_mem _),fun hmem => ?_⟩
      rcases mem_cons.mp hmem with heq | hmem
      · -- the transaction has ended and its number is not given out again
        cases heq
        rcases hbegin with hstill | hagain
        · exact absurd hstill (hg.1.not_mem_erase)
        · have hge := h.begin_ge (mem_of_mem_take hagain)
          have hlt := hg.2 t hactive
          exact absurd hlt (not_lt.mpr hge)
      · exact hcommit hmem
  | @abort next active t' rest hactive h ih =>
    cases i with
    | zero =>
      cases hi
      cases hr
    | succ i =>
      obtain ⟨hbegin,hcommit⟩ := ih (hg.erase t') hi
      exact ⟨hbegin.imp mem_of_mem_erase (mem_cons_of_mem _),fun hmem =>
        hcommit ((mem_cons.mp hmem).resolve_left (by simp))⟩
  | checkpoint ts h ih =>
    cases i with
    | zero =>
      cases hi
      cases hr
    | succ i =>
      obtain ⟨hbegin,hcommit⟩ := ih hg hi
      exact ⟨hbegin.imp_right (mem_cons_of_mem _),fun hmem =>
        hcommit ((mem_cons.mp hmem).resolve_left (by simp))⟩

end

section

def enclosed (run : List LogRecord) (i : ℕ) (r : LogRecord) : Bool :=
  match r.txnId with
  | none => false
  | some t => r.isChange && (run.take i).contains (.begin t) && (run.drop (i+1)).contains (.commit t)

structure Entry where
  run : ServerRun
  place : ℕ
  lsn : ℕ
  record : LogRecord

def entriesOf (lsn : ℕ) (run : ServerRun) : List Entry := run.records.zipIdx.map (fun x =>
    { run := run, place := x.2, lsn := lsn+x.2+1, record := x.1 })

def entries : ℕ → List ServerRun → List Entry
  | _, [] => []
  | lsn, run::runs => entriesOf lsn run++entries (lsn+run.records.length) runs

variable (runs : List ServerRun)

def logOf : List LogRecord := runs.flatMap ServerRun.records

def committedChanges : List (ℕ × LogRecord) :=
  ((entries 0 runs).filter (fun x => enclosed x.run.records x.place x.record)).map
    (fun x => (x.lsn,x.record))

/-- A transaction that changed rows commits in its run if its number commits at all. -/
def OwnCommits : Prop :=
  ∀ run ∈ runs, ∀ r ∈ run.records, r.isChange = true → ∀ t, r.txnId = some t →
    .commit t ∈ logOf runs → .commit t ∈ run.records

lemma entries_numbered (lsn : ℕ) (runs : List ServerRun) :
    (entries lsn runs).map (fun x => (x.lsn,x.record)) =
      ((logOf runs).zipIdx lsn).map (fun x => (x.2+1,x.1)) := by
  induction runs generalizing lsn with
  | nil => rfl
  | cons run runs ih =>
    have hshift : run.records.zipIdx lsn = run.records.zipIdx.map (fun x => (x.1,lsn+x.2)) := by
      rw [zipIdx_eq_map_add]
    have hlog : logOf (run::runs) = run.records++logOf runs := flatMap_cons
    rw [entries, map_append, ih, hlog, zipIdx_append, map_append, entriesOf,
      map_map, hshift, map_map]
    rfl

lemma mem_entries {lsn : ℕ} {runs : List ServerRun} {x : Entry} (h : x ∈ entries lsn runs) :
    x.run ∈ runs ∧ x.run.records[x.place]? = some x.record := by
  induction runs generalizing lsn with
  | nil => cases h
  | cons run runs ih =>
    rw [entries, mem_append] at h
    rcases h with h | h
    · obtain ⟨⟨r,i⟩,hmem,rfl⟩ := mem_map.mp h
      exact ⟨mem_cons_self ..,by simpa using mem_zipIdx_iff_getElem?.mp hmem⟩
    · obtain ⟨hrun,hplace⟩ := ih h
      exact ⟨mem_cons_of_mem _ hrun,hplace⟩

lemma entries_mem {lsn : ℕ} {runs : List ServerRun} {run : ServerRun} (hrun : run ∈ runs)
    {i : ℕ} {r : LogRecord} (hr : run.records[i]? = some r) :
    ∃ x ∈ entries lsn runs, x.run = run ∧ x.place = i ∧ x.record = r := by
  induction runs generalizing lsn with
  | nil => cases hrun
  | cons run' runs ih =>
    rcases mem_cons.mp hrun with rfl | hrun
    · refine ⟨⟨run,i,lsn+i+1,r⟩,mem_append_left _ ?_,rfl,rfl,rfl⟩
      exact mem_map.mpr ⟨(r,i),mem_zipIdx_iff_getElem?.mpr (by simpa using hr),rfl⟩
    · obtain ⟨x,hx,hfacts⟩ := @ih (lsn+run'.records.length) hrun
      exact ⟨x,mem_append_right _ hx,hfacts⟩

lemma enclosed_iff {run : ServerRun} {i : ℕ} {r : LogRecord} (hi : run.records[i]? = some r)
    {t : TxnId} (ht : r.txnId = some t) :
    enclosed run.records i r = true ↔ r.isChange = true ∧ .commit t ∈ run.records := by
  rw [enclosed, ht]
  simp only [Bool.and_eq_true, contains_iff_mem]
  constructor
  · rintro ⟨⟨hr,-⟩,hcommit⟩
    exact ⟨hr,mem_of_mem_drop hcommit⟩
  · rintro ⟨hr,hcommit⟩
    obtain ⟨hbegin,hlater⟩ := run.writes.enclosed ⟨nodup_nil,by simp⟩ hi hr ht
    exact ⟨⟨hr,hbegin.resolve_left (by simp)⟩,hlater hcommit⟩

lemma changedBy_iff {txns : Finset TxnId} {r : LogRecord} {t : TxnId} (ht : r.txnId = some t) :
    changedBy txns r = true ↔ r.isChange = true ∧ t ∈ txns := by
  rw [changedBy, ht]
  simp only [Bool.and_eq_true, decide_eq_true_eq]
  tauto

lemma filter_agree {α : Type} {p q : α → Bool} {xs : List α} (h : ∀ x ∈ xs, q x → p x)
    (hlen : (xs.filter p).length = (xs.filter q).length) : ∀ x ∈ xs, p x → q x := by
  have hsub : xs.filter q = (xs.filter p).filter q := by
    rw [filter_filter]
    refine filter_congr (fun x hx => ?_)
    cases hq : q x with
    | false => simp
    | true => simp [h x hx hq]
  intro x hx hp
  rw [hsub] at hlen
  have hall := filter_eq_self.mp (filter_sublist.eq_of_length hlen.symm)
  exact hall x (mem_filter.mpr ⟨hx,hp⟩)

lemma numbered_records (rs : List LogRecord) : (numbered rs).map Prod.snd = rs := by
  rw [numbered, map_map]
  exact zipIdx_map_fst 0 rs

lemma mem_committed_log {rs : List LogRecord} {t : TxnId} :
    t ∈ (statusOf (numbered rs)).committed ↔ .commit t ∈ rs := by
  rw [mem_committed, numbered_records]

lemma redo_entries :
    (analyzeRecords (numbered (logOf runs))).redoRecords = ((entries 0 runs).filter (fun x =>
        changedBy (statusOf (numbered (logOf runs))).committed x.record)).map
        (fun x => (x.lsn,x.record)) := by
  have hlog : numbered (logOf runs) =
      (entries 0 runs).map (fun x => (x.lsn,x.record)) := (entries_numbered 0 runs).symm
  rw [analyzeRecords]
  generalize (statusOf (numbered (logOf runs))).committed = txns
  rw [hlog, filter_map]
  rfl

lemma redo_agrees_iff :
    (analyzeRecords (numbered (logOf runs))).redoRecords = committedChanges runs ↔
      OwnCommits runs := by
  rw [redo_entries, committedChanges]
  have himp : ∀ x ∈ entries 0 runs, enclosed x.run.records x.place x.record →
      changedBy (statusOf (numbered (logOf runs))).committed x.record := by
    intro x hx henclosed
    obtain ⟨hrun,hplace⟩ := mem_entries hx
    cases ht : x.record.txnId with
    | none =>
      rw [enclosed, ht] at henclosed
      cases henclosed
    | some t =>
      obtain ⟨hr,hcommit⟩ := (enclosed_iff hplace ht).mp henclosed
      exact (changedBy_iff ht).mpr
        ⟨hr,mem_committed_log.mpr (mem_flatMap.mpr ⟨x.run,hrun,hcommit⟩)⟩
  constructor
  · intro heq run hrun r hr hchange t ht hcommit
    have hlen := congrArg length heq
    rw [length_map, length_map] at hlen
    obtain ⟨i,hi⟩ := getElem?_of_mem hr
    obtain ⟨x,hx,rfl,rfl,rfl⟩ := @entries_mem 0 runs run hrun i r hi
    have henclosed := filter_agree himp hlen x hx
      ((changedBy_iff ht).mpr ⟨hchange,mem_committed_log.mpr hcommit⟩)
    exact ((enclosed_iff hi ht).mp henclosed).2
  · intro hown
    congr 1
    refine filter_congr (fun x hx => ?_)
    rw [Bool.eq_iff_iff]
    refine ⟨fun hchanged => ?_,himp x hx⟩
    obtain ⟨hrun,hplace⟩ := mem_entries hx
    cases ht : x.record.txnId with
    | none =>
      rw [changedBy, ht] at hchanged
      cases hchanged
    | some t =>
      obtain ⟨hr,hcommit⟩ := (changedBy_iff ht).mp hchanged
      exact (enclosed_iff hplace ht).mpr ⟨hr,hown x.run hrun x.record
        (mem_of_getElem? hplace) hr t ht (mem_committed_log.mp hcommit)⟩

def oneInsert (ending : List LogRecord) (h : Writes 2 [1] ending) : ServerRun where
  records := .begin 1::.insert 1 2 0 [7]::ending
  writes := .begin (.change rfl rfl (by decide) h)

def secondInsert : ServerRun where
  records := [.begin 1, .commit 1, .begin 2, .insert 2 2 0 [8]]
  writes := .begin (.commit (by decide) (.begin (.change rfl rfl (by decide) .nil)))

/-- The records of the runs below, by their place in a table. -/
def knownRecords : List LogRecord :=
  [.begin 1, .insert 1 2 0 [7], .commit 1, .begin 2, .insert 2 2 0 [8]]

def knownFormat : Format LogRecord where
  serialize r := [UInt8.ofNat (knownRecords.idxOf r)]
  deserialize data := match data with
    | [b] => knownRecords[b.toNat]?
    | _ => none
  crc _ := 0

def walWith : LogManager :=
  LogManager.opened (frames knownFormat 0 (logOf runs)) (logOf runs).length

def committedRuns : List ServerRun :=
  [oneInsert [.commit 1] (.commit (by decide) .nil), secondInsert]

def unfinishedRuns : List ServerRun := [oneInsert [] .nil, secondInsert]

end

end Recovery

end ByteDB
