import ByteDB.Runs
import ByteDB.Wal

/-!
# Group commit

Threads append records to the write-ahead log and ask that it be flushed through
a number. One of those that find the number not yet flushed leads: it reads the
last number that has been given out, flushes and syncs the file with the lock of
the writer, and publishes the number it has read. The others wait for it. A call
is cut into its accesses to the shared numbers and flags and its sections with a
lock.
-/

set_option autoImplicit false

namespace ByteDB.GroupCommit
open ByteDB.Wal

variable {R ι : Type}

inductive Phase (R : Type) where
  | idle
  /-- `append` with the lock of the writer, after it has taken its number. -/
  | appending (r : R)
  | calling (target : ℕ)
  | contending (target : ℕ)
  /-- Another thread leads; this one is going to look at the number again. -/
  | following (target : ℕ)
  /-- With the lock of the condition variable, after it has found the number too small. -/
  | checked (target : ℕ)
  | waiting (target : ℕ)
  | leading (target : ℕ)
  | snapped (target snapshot : ℕ)
  | synced (target snapshot : ℕ)
  | stored (target : ℕ)
  | cleared (target : ℕ)
  /-- The flush has failed. -/
  | spoiled (target : ℕ)
  | spoiledCleared (target : ℕ)
  /-- Before the last access, with the lock of the condition variable or without. -/
  | passing (target : ℕ) (locked : Bool)
  | returned (target lsn : ℕ)
  | failed
  deriving DecidableEq, Repr

structure State (R ι : Type) where
  currentLsn : ℕ
  flushedLsn : ℕ
  flushing : Bool
  writer : Option ι
  cvLock : Option ι
  file : Bytes
  buffer : Bytes
  /-- What the file held when the last sync that has finished began. -/
  durable : Bytes
  /-- The records that have been written, in the order of their numbers. -/
  log : List R
  phase : ι → Phase R
  /-- The last number that had been given out when the call of a thread began. -/
  seen : ι → ℕ

/-- A log manager on a file with `initial` records. -/
def opened (initial : ℕ) (file : Bytes) : State R ι where
  currentLsn := initial
  flushedLsn := initial
  flushing := false
  writer := none
  cvLock := none
  file := file
  buffer := []
  durable := []
  log := []
  phase := fun _ => .idle
  seen := fun _ => 0

inductive Action (R ι : Type) where
  | append (who : ι) (r : R)
  /-- The frame goes to the buffered writer, which passes bytes on to the file. -/
  | write (who : ι) (spill : ℕ)
  | flushThrough (who : ι) (target : ℕ)
  | flush (who : ι)
  | check (who : ι)
  | contend (who : ι)
  | recheck (who : ι)
  | wait (who : ι)
  | snapshot (who : ι)
  | sync (who : ι) (fails : Bool)
  | store (who : ι)
  | clear (who : ι)
  | notify (who : ι)
  | load (who : ι)

def Phase.ready : Phase R → Bool
  | .idle | .returned _ _ | .failed => true
  | _ => false

def Phase.wake : Phase R → Phase R
  | .waiting target => .following target
  | p => p

section
variable [DecidableEq ι] (fmt : Format R) (s : State R ι)

def State.go (who : ι) (p : Phase R) : State R ι :=
  { s with phase := Function.update s.phase who p }

def State.call (who : ι) (target : ℕ) : State R ι :=
  { s.go who (.calling target) with seen := Function.update s.seen who s.currentLsn }

def State.notifyAll : State R ι := { s with phase := fun w => (s.phase w).wake }

def step : Action R ι → Option (State R ι)
  | .append who r =>
    if !(s.phase who).ready then none
    else if maxLogRecordSize < (fmt.serialize r).length then some (s.go who .failed)
    else if s.writer.isSome then none
    else some { s.go who (.appending r) with
      currentLsn := s.currentLsn+1
      writer := some who }
  | .write who spill =>
    match s.phase who with
    | .appending r =>
      let bytes := s.buffer++frame fmt (s.currentLsn-1) r
      some { s.go who .idle with
        file := s.file++bytes.take spill
        buffer := bytes.drop spill
        log := s.log++[r]
        writer := none }
    | _ => none
  | .flushThrough who target => if (s.phase who).ready then some (s.call who target) else none
  | .flush who => if (s.phase who).ready then some (s.call who s.currentLsn) else none
  | .check who =>
    match s.phase who with
    | .calling target =>
      some (s.go who (if target ≤ s.flushedLsn then .passing target false else .contending target))
    | _ => none
  | .contend who =>
    match s.phase who with
    | .contending target =>
      if s.flushing then some (s.go who (.following target))
      else some { s.go who (.leading target) with flushing := true }
    | _ => none
  | .recheck who =>
    match s.phase who, s.cvLock with
    | .following target, none =>
      some { s.go who (if target ≤ s.flushedLsn then .passing target true else .checked target) with
        cvLock := some who }
    | _, _ => none
  | .wait who =>
    match s.phase who with
    | .checked target => some { s.go who (.waiting target) with cvLock := none }
    | _ => none
  | .snapshot who =>
    match s.phase who with
    | .leading target => some (s.go who (.snapped target s.currentLsn))
    | _ => none
  | .sync who fails =>
    match s.phase who, s.writer with
    | .snapped target snapshot, none =>
      if fails then some (s.go who (.spoiled target))
      else some { s.go who (.synced target snapshot) with
        file := s.file++s.buffer
        buffer := []
        durable := s.file++s.buffer }
    | _, _ => none
  | .store who =>
    match s.phase who with
    | .synced target snapshot => some { s.go who (.stored target) with flushedLsn := snapshot }
    | _ => none
  | .clear who =>
    match s.phase who with
    | .stored target => some { s.go who (.cleared target) with flushing := false }
    | .spoiled target => some { s.go who (.spoiledCleared target) with flushing := false }
    | _ => none
  | .notify who =>
    match s.phase who, s.cvLock with
    | .cleared target, none =>
      some { s.notifyAll.go who (.passing target true) with cvLock := some who }
    | .spoiledCleared _, none => some (s.notifyAll.go who .failed)
    | _, _ => none
  | .load who =>
    match s.phase who with
    | .passing target locked =>
      some { s.go who (.returned target s.flushedLsn) with
        cvLock := if locked then none else s.cvLock }
    | _ => none

inductive Step (s : State R ι) : Action R ι → State R ι → Prop where
  | refuse {who : ι} {r : R} (hready : (s.phase who).ready = true) :
      Step s (.append who r) (s.go who .failed)
  | append {who : ι} {r : R} (hready : (s.phase who).ready = true) (hfree : s.writer = none) :
      Step s (.append who r) { s.go who (.appending r) with
        currentLsn := s.currentLsn+1
        writer := some who }
  | write {who : ι} {r : R} (spill : ℕ) (h : s.phase who = .appending r) :
      Step s (.write who spill) { s.go who .idle with
        file := s.file++(s.buffer++frame fmt (s.currentLsn-1) r).take spill
        buffer := (s.buffer++frame fmt (s.currentLsn-1) r).drop spill
        log := s.log++[r]
        writer := none }
  | flushThrough {who : ι} (target : ℕ) (hready : (s.phase who).ready = true) :
      Step s (.flushThrough who target) (s.call who target)
  | flush {who : ι} (hready : (s.phase who).ready = true) :
      Step s (.flush who) (s.call who s.currentLsn)
  | pass {who : ι} {target : ℕ} (h : s.phase who = .calling target)
      (hle : target ≤ s.flushedLsn) : Step s (.check who) (s.go who (.passing target false))
  | miss {who : ι} {target : ℕ} (h : s.phase who = .calling target) :
      Step s (.check who) (s.go who (.contending target))
  | follow {who : ι} {target : ℕ} (h : s.phase who = .contending target)
      (hflag : s.flushing = true) : Step s (.contend who) (s.go who (.following target))
  | lead {who : ι} {target : ℕ} (h : s.phase who = .contending target)
      (hflag : s.flushing = false) :
      Step s (.contend who) { s.go who (.leading target) with flushing := true }
  | arrive {who : ι} {target : ℕ} (h : s.phase who = .following target)
      (hle : target ≤ s.flushedLsn) :
      Step s (.recheck who) { s.go who (.passing target true) with cvLock := some who }
  | look {who : ι} {target : ℕ} (h : s.phase who = .following target) :
      Step s (.recheck who) { s.go who (.checked target) with cvLock := some who }
  | wait {who : ι} {target : ℕ} (h : s.phase who = .checked target) :
      Step s (.wait who) { s.go who (.waiting target) with cvLock := none }
  | snapshot {who : ι} {target : ℕ} (h : s.phase who = .leading target) :
      Step s (.snapshot who) (s.go who (.snapped target s.currentLsn))
  | spoil {who : ι} {target snapshot : ℕ} (h : s.phase who = .snapped target snapshot) :
      Step s (.sync who true) (s.go who (.spoiled target))
  | sync {who : ι} {target snapshot : ℕ} (h : s.phase who = .snapped target snapshot)
      (hfree : s.writer = none) :
      Step s (.sync who false) { s.go who (.synced target snapshot) with
        file := s.file++s.buffer
        buffer := []
        durable := s.file++s.buffer }
  | store {who : ι} {target snapshot : ℕ} (h : s.phase who = .synced target snapshot) :
      Step s (.store who) { s.go who (.stored target) with flushedLsn := snapshot }
  | clear {who : ι} {target : ℕ} (h : s.phase who = .stored target) :
      Step s (.clear who) { s.go who (.cleared target) with flushing := false }
  | clearSpoiled {who : ι} {target : ℕ} (h : s.phase who = .spoiled target) :
      Step s (.clear who) { s.go who (.spoiledCleared target) with flushing := false }
  | notify {who : ι} {target : ℕ} (h : s.phase who = .cleared target) :
      Step s (.notify who) { s.notifyAll.go who (.passing target true) with cvLock := some who }
  | notifySpoiled {who : ι} {target : ℕ} (h : s.phase who = .spoiledCleared target) :
      Step s (.notify who) (s.notifyAll.go who .failed)
  | load {who : ι} {target : ℕ} {locked : Bool} (h : s.phase who = .passing target locked) :
      Step s (.load who) { s.go who (.returned target s.flushedLsn) with
        cvLock := if locked then none else s.cvLock }

lemma step_cases {s s' : State R ι} {a : Action R ι} (h : step fmt s a = some s') :
    Step fmt s a s' := by
  revert h
  fun_cases step fmt s a with
  | case2 who r hready =>
    rintro ⟨⟩
    exact .refuse (by simpa using hready)
  | case4 who r hready _ hfree =>
    rintro ⟨⟩
    exact .append (by simpa using hready) (by simpa using hfree)
  | case5 who spill r hphase =>
    rintro ⟨⟩
    exact .write spill hphase
  | case7 who target hready =>
    rintro ⟨⟩
    exact .flushThrough target hready
  | case9 who hready =>
    rintro ⟨⟩
    exact .flush hready
  | case11 who target hphase =>
    rintro ⟨⟩
    split
    · exact .pass hphase ‹_›
    · exact .miss hphase
  | case13 who target hphase hflag =>
    rintro ⟨⟩
    exact .follow hphase hflag
  | case14 who target hphase hflag =>
    rintro ⟨⟩
    exact .lead hphase (by simpa using hflag)
  | case16 who target _ hphase =>
    rintro ⟨⟩
    split
    · exact .arrive hphase ‹_›
    · exact .look hphase
  | case18 who target hphase =>
    rintro ⟨⟩
    exact .wait hphase
  | case20 who target hphase =>
    rintro ⟨⟩
    exact .snapshot hphase
  | case22 who target snapshot _ hphase =>
    rintro ⟨⟩
    exact .spoil hphase
  | case23 who fails target snapshot hfree hphase hfails =>
    rintro ⟨⟩
    obtain rfl : fails = false := by simpa using hfails
    exact .sync hphase hfree
  | case25 who target snapshot hphase =>
    rintro ⟨⟩
    exact .store hphase
  | case27 who target hphase =>
    rintro ⟨⟩
    exact .clear hphase
  | case28 who target hphase =>
    rintro ⟨⟩
    exact .clearSpoiled hphase
  | case30 who target _ hphase =>
    rintro ⟨⟩
    exact .notify hphase
  | case31 who target _ hphase =>
    rintro ⟨⟩
    exact .notifySpoiled hphase
  | case33 who target locked hphase =>
    rintro ⟨⟩
    exact .load hphase
  | _ => nofun

end

/-! There is one leader while the flag is set. The number it has read is covered by
its sync, since an appender takes its number with the lock of the writer, so what is
published is durable. A thread that has lost the race for the flag is served by the
leader only if the leader reads a number that is large enough. -/

open List Function

variable [DecidableEq ι] {fmt : Format R} {p : Phase R} {phase : ι → Phase R} {who : ι}
  {s s' : State R ι} {a : Action R ι}

def Phase.leads : Phase R → Bool
  | .leading _ | .snapped _ _ | .synced _ _ | .stored _ | .spoiled _ => true
  | _ => false

structure Led (s : State R ι) : Prop where
  flag : s.flushing = true ↔ ∃ who, (s.phase who).leads = true
  one : ∀ who who', (s.phase who).leads = true → (s.phase who').leads = true → who = who'

lemma leads_ready (h : p.ready = true) : p.leads = false := by
  cases p with
  | idle | returned | failed => rfl
  | _ => cases h

lemma leads_wake (p : Phase R) : p.wake.leads = p.leads := by
  cases p with
  | _ => rfl

lemma leads_update (h : p.leads = (phase who).leads) (w : ι) :
    (update phase who p w).leads = (phase w).leads := by
  by_cases hw : w = who
  · subst hw
    rw [update_self, h]
  · rw [update_of_ne hw]

omit [DecidableEq ι] in
lemma Led.same (h : Led s) (hflag : s'.flushing = s.flushing)
    (hphase : ∀ w, (s'.phase w).leads = (s.phase w).leads) : Led s' := by
  constructor
  · simp only [hflag, hphase]
    exact h.flag
  · simp only [hphase]
    exact h.one

lemma led_step (h : Led s) (hs : Step fmt s a s') : Led s' := by
  -- a leader that sets the flag is the only one, and so was one that clears it
  have hlead : ∀ {who : ι} {p : Phase R}, s.flushing = false → p.leads = true →
      Led ({ s.go who p with flushing := true } : State R ι) := by
    intro who p hflag hp
    have hself : ∀ w, (update s.phase who p w).leads = true → w = who := by
      intro w hw
      by_contra hne
      rw [update_of_ne hne] at hw
      rw [h.flag.mpr ⟨w,hw⟩] at hflag
      cases hflag
    refine ⟨⟨fun _ => ⟨who,?_⟩,fun _ => rfl⟩,fun w w' hw hw' => ?_⟩
    · show (update s.phase who p who).leads = true
      rw [update_self]
      exact hp
    · exact (hself w hw).trans (hself w' hw').symm
  have hclear : ∀ {who : ι} {p : Phase R}, (s.phase who).leads = true → p.leads = false →
      Led ({ s.go who p with flushing := false } : State R ι) := by
    intro who p hlead hp
    have hnone : ∀ w, (update s.phase who p w).leads ≠ true := by
      intro w hw
      by_cases heq : w = who
      · rw [heq, update_self, hp] at hw
        cases hw
      · rw [update_of_ne heq] at hw
        exact heq (h.one w who hw hlead)
    exact ⟨⟨nofun,fun ⟨w,hw⟩ => absurd hw (hnone w)⟩,fun w _ hw => absurd hw (hnone w)⟩
  cases hs with
  | lead hphase hflag => exact hlead hflag rfl
  | clear hphase | clearSpoiled hphase => exact hclear (by rw [hphase]; rfl) rfl
  | refuse hready | append hready => exact h.same rfl (leads_update (leads_ready hready).symm)
  | write spill hphase => exact h.same rfl (leads_update (by rw [hphase]; rfl))
  | flushThrough _ hready | flush hready =>
    exact h.same rfl (leads_update (leads_ready hready).symm)
  | pass hphase | miss hphase | follow hphase | arrive hphase | look hphase | wait hphase
  | snapshot hphase | spoil hphase | sync hphase | store hphase =>
    exact h.same rfl (leads_update (by rw [hphase]; rfl))
  | notify hphase | notifySpoiled hphase =>
    refine h.same rfl (fun w => (leads_update ?_ w).trans (leads_wake _))
    show _ = (s.phase _).wake.leads
    rw [hphase]
    rfl
  | load hphase => exact h.same rfl (leads_update (by rw [hphase]; rfl))

section

/-- The records up to this number have been written to the file before a sync
that has finished. The records of the file as it was opened need no sync until a
new one is asked for. -/
def Durable (fmt : Format R) (initial : ℕ) (file₀ : Bytes) (log : List R) (durable : Bytes)
    (n : ℕ) : Prop :=
  n ≤ initial+log.length ∧
    (initial < n → file₀++frames fmt initial (log.take (n-initial)) <+: durable)

/-- What a thread knows in a phase, of the numbers and of what is durable. The
target of its call had been given out if it is at most `seen`. -/
def PhaseOk (current flushed : ℕ) (D : ℕ → Prop) (seen : ℕ) : Phase R → Prop
  | .snapped target snapshot =>
    flushed ≤ snapshot ∧ snapshot ≤ current ∧ (target ≤ seen → target ≤ snapshot)
  | .synced target snapshot =>
    flushed ≤ snapshot ∧ D snapshot ∧ (target ≤ seen → target ≤ snapshot)
  | .stored target | .cleared target | .passing target _ | .returned target _ =>
    target ≤ seen → target ≤ flushed
  | _ => True

structure Kept (fmt : Format R) (initial : ℕ) (file₀ : Bytes) (s : State R ι) : Prop where
  led : Led s
  bytes : s.file++s.buffer = file₀++frames fmt initial s.log
  durable : s.durable <+: s.file
  number : s.currentLsn = initial+s.log.length+(if s.writer.isSome then 1 else 0)
  writer : ∀ w r, s.phase w = .appending r → s.writer = some w
  flushed : Durable fmt initial file₀ s.log s.durable s.flushedLsn
  seen : ∀ w, s.seen w ≤ s.currentLsn
  phases : ∀ w, PhaseOk s.currentLsn s.flushedLsn (Durable fmt initial file₀ s.log s.durable)
    (s.seen w) (s.phase w)

variable {initial : ℕ} {file₀ : Bytes}

omit [DecidableEq ι] in
lemma PhaseOk.mono {current current' flushed flushed' seen : ℕ} {D D' : ℕ → Prop}
    (h : PhaseOk current flushed D seen p) (hcurrent : current ≤ current')
    (hflushed : flushed ≤ flushed') (hD : ∀ n, D n → D' n)
    (hlead : p.leads = true → flushed' = flushed) : PhaseOk current' flushed' D' seen p := by
  cases p with
  | snapped target snapshot =>
    obtain ⟨hle,hsnap,htarget⟩ := h
    exact ⟨hlead rfl ▸ hle,hsnap.trans hcurrent,htarget⟩
  | synced target snapshot =>
    obtain ⟨hle,hsnap,htarget⟩ := h
    exact ⟨hlead rfl ▸ hle,hD _ hsnap,htarget⟩
  | stored | cleared | passing | returned => exact fun hseen => (h hseen).trans hflushed
  | _ => trivial

lemma phases_update {current flushed : ℕ} {D : ℕ → Prop} {seen : ι → ℕ} (h : ∀ w, w ≠ who → PhaseOk current flushed D (seen w) (phase w))
    (hp : PhaseOk current flushed D (seen who) p) (w : ι) :
    PhaseOk current flushed D (seen w) (update phase who p w) := by
  by_cases hw : w = who
  · rw [hw, update_self]
    exact hp
  · rw [update_of_ne hw]
    exact h w hw

lemma appending_update {writer : Option ι}
    (h : ∀ w r, phase w = .appending r → writer = some w) (hp : ∀ r, p ≠ .appending r) (w : ι)
    (r : R) (hw : update phase who p w = .appending r) : writer = some w := by
  by_cases heq : w = who
  · rw [heq, update_self] at hw
    exact absurd hw (hp r)
  · rw [update_of_ne heq] at hw
    exact h w r hw

lemma appending_of_wake {r : R} (h : p.wake = .appending r) : p = .appending r := by
  cases p with
  | waiting target => cases h
  | _ => exact h

lemma phaseOk_wake {current flushed seen : ℕ} {D : ℕ → Prop}
    (h : PhaseOk current flushed D seen p) : PhaseOk current flushed D seen p.wake := by
  cases p with
  | waiting target => trivial
  | _ => exact h

variable {log : List R} {n : ℕ}

lemma Durable.write {durable : Bytes} (h : Durable fmt initial file₀ log durable n) (r : R) :
    Durable fmt initial file₀ (log++[r]) durable n := by
  obtain ⟨hle,hcut⟩ := h
  refine ⟨by simp; omega,fun hlt => ?_⟩
  rw [take_append_of_le_length (by omega)]
  exact hcut hlt

lemma Durable.sync {durable durable' : Bytes}
    (h : Durable fmt initial file₀ log durable n) (hmore : durable <+: durable') :
    Durable fmt initial file₀ log durable' n :=
  ⟨h.1,fun hlt => (h.2 hlt).trans hmore⟩

lemma frames_grow {rs ss : List R} (h : rs <+: ss) (prev : ℕ) :
    frames fmt prev rs <+: frames fmt prev ss := by
  obtain ⟨rest,rfl⟩ := h
  rw [frames_append]
  exact prefix_append _ _

lemma durable_all (hn : n ≤ initial+log.length) :
    Durable fmt initial file₀ log (file₀++frames fmt initial log) n :=
  ⟨hn,fun _ => (prefix_append_right_inj file₀).mpr (frames_grow (List.take_prefix _ _) initial)⟩

lemma kept_step (h : Kept fmt initial file₀ s)
    (hs : Step fmt s a s') : Kept fmt initial file₀ s' := by
  have hled : Led s' := led_step h.led hs
  have hothers : ∀ who w, w ≠ who → PhaseOk s.currentLsn s.flushedLsn
      (Durable fmt initial file₀ s.log s.durable) (s.seen w) (s.phase w) := fun _ w _ => h.phases w
  have hcurrent : s.flushedLsn ≤ s.currentLsn := by
    have hle := h.flushed.1
    rw [h.number]
    omega
  -- a step that only moves on
  have hmove : ∀ {who : ι} {p : Phase R} {cv : Option ι} {flag : Bool},
      Led ({ s.go who p with cvLock := cv, flushing := flag } : State R ι) →
      (∀ r, p ≠ .appending r) →
      PhaseOk s.currentLsn s.flushedLsn (Durable fmt initial file₀ s.log s.durable) (s.seen who) p →
      Kept fmt initial file₀ ({ s.go who p with cvLock := cv, flushing := flag } : State R ι) := by
    intro who p cv flag hled hp hok
    exact ⟨hled,h.bytes,h.durable,h.number,appending_update h.writer hp,h.flushed,h.seen,
      phases_update (hothers who) hok⟩
  have hcall : ∀ {who : ι} {target : ℕ}, Led (s.call who target) →
      Kept fmt initial file₀ (s.call who target) := by
    intro who target hled
    have hseen : ∀ w, (s.call who target).seen w ≤ s.currentLsn := by
      intro w
      show update s.seen who s.currentLsn w ≤ s.currentLsn
      by_cases hw : w = who
      · rw [hw, update_self]
      · rw [update_of_ne hw]
        exact h.seen w
    refine ⟨hled,h.bytes,h.durable,h.number,appending_update h.writer nofun,h.flushed,hseen,
      phases_update (fun w hw => ?_) trivial⟩
    rw [show (s.call who target).seen w = s.seen w from update_of_ne hw ..]
    exact h.phases w
  have hok : ∀ {w : ι} {q : Phase R}, s.phase w = q → PhaseOk s.currentLsn s.flushedLsn
      (Durable fmt initial file₀ s.log s.durable) (s.seen w) q := fun hq => hq ▸ h.phases _
  cases hs with
  | refuse hready => exact hmove hled nofun trivial
  | @append who r hready hfree =>
    have hnumber := h.number
    rw [hfree] at hnumber
    refine ⟨hled,h.bytes,h.durable,?_,fun w r' hw => ?_,h.flushed,
      fun w => (h.seen w).trans (Nat.le_succ _),phases_update (fun w _ => ?_) trivial⟩
    · show s.currentLsn+1 = initial+s.log.length+1
      rw [hnumber]
      rfl
    · by_cases heq : w = who
      · rw [heq]
      · have hold : s.phase w = .appending r' := (update_of_ne heq ..).symm.trans hw
        have hwriter := h.writer w r' hold
        rw [hfree] at hwriter
        cases hwriter
    · exact (h.phases w).mono (Nat.le_succ _) le_rfl (fun _ hn => hn) (fun _ => rfl)
  | @write who r spill hphase =>
    have hwriter := h.writer who r hphase
    have hnumber := h.number
    rw [hwriter] at hnumber
    have hprev : s.currentLsn-1 = initial+s.log.length := by
      rw [hnumber]
      rfl
    refine ⟨hled,?_,h.durable.trans (prefix_append _ _),?_,fun w r' hw => ?_,
      h.flushed.write r,h.seen,phases_update (fun w _ => ?_) trivial⟩
    · show s.file++_++_ = _
      rw [append_assoc, take_append_drop, ← append_assoc, h.bytes, hprev,
        frames_append, append_assoc]
      show _ = file₀++(frames fmt initial s.log++(frame fmt (initial+s.log.length) r++[]))
      rw [append_nil]
    · show s.currentLsn = initial+(s.log++[r]).length+0
      rw [hnumber, length_append]
      rfl
    · by_cases heq : w = who
      · rw [heq] at hw
        have hidle := (update_self ..).symm.trans hw
        cases hidle
      · have hold : s.phase w = .appending r' := (update_of_ne heq ..).symm.trans hw
        exact absurd (Option.some.inj ((h.writer w r' hold).symm.trans hwriter)) heq
    · exact (h.phases w).mono le_rfl le_rfl (fun _ hn => hn.write r) (fun _ => rfl)
  | flushThrough | flush => exact hcall hled
  | pass hphase hle => exact hmove hled nofun (fun _ => hle)
  | miss | follow | lead => exact hmove hled nofun trivial
  | arrive hphase hle => exact hmove hled nofun (fun _ => hle)
  | look | wait => exact hmove hled nofun trivial
  | snapshot hphase => exact hmove hled nofun ⟨hcurrent,le_rfl,fun hle => hle.trans (h.seen _)⟩
  | spoil hphase => exact hmove hled nofun trivial
  | @sync who target snapshot hphase hfree =>
    have hnumber := h.number
    rw [hfree] at hnumber
    obtain ⟨hle,hsnap,htarget⟩ := hok hphase
    have hmore : s.durable <+: s.file++s.buffer := h.durable.trans (prefix_append _ _)
    refine ⟨hled,?_,prefix_refl _,h.number,appending_update h.writer nofun,
      h.flushed.sync hmore,h.seen,phases_update (fun w _ => ?_) ⟨hle,?_,htarget⟩⟩
    · show s.file++s.buffer++[] = _
      rw [append_nil, h.bytes]
      rfl
    · exact (h.phases w).mono le_rfl le_rfl (fun _ hn => hn.sync hmore) (fun _ => rfl)
    · -- nobody is appending, so every number that was given out has been written
      show Durable fmt initial file₀ s.log (s.file++s.buffer) snapshot
      rw [h.bytes]
      exact durable_all (hsnap.trans (le_of_eq hnumber))
  | @store who target snapshot hphase =>
    obtain ⟨hle,hdurable,htarget⟩ := hok hphase
    refine ⟨hled,h.bytes,h.durable,h.number,appending_update h.writer nofun,hdurable,h.seen,
      phases_update (fun w hw => ?_) htarget⟩
    refine (h.phases w).mono le_rfl hle (fun _ hn => hn) (fun hlead => ?_)
    exact absurd (h.led.one w who hlead (by rw [hphase]; rfl)) hw
  | clear hphase =>
    have hstored := hok hphase
    exact hmove hled nofun hstored
  | clearSpoiled hphase => exact hmove hled nofun trivial
  | notify hphase =>
    have hcleared := hok hphase
    exact ⟨hled,h.bytes,h.durable,h.number,
      appending_update (fun w r hw => h.writer w r (appending_of_wake hw)) nofun,h.flushed,h.seen,
      phases_update (fun w _ => phaseOk_wake (h.phases w)) hcleared⟩
  | notifySpoiled hphase =>
    exact ⟨hled,h.bytes,h.durable,h.number,
      appending_update (fun w r hw => h.writer w r (appending_of_wake hw)) nofun,h.flushed,h.seen,
      phases_update (fun w _ => phaseOk_wake (h.phases w)) trivial⟩
  | load hphase =>
    have hpassing := hok hphase
    exact hmove hled nofun hpassing

omit [DecidableEq ι] in
lemma kept_opened (initial : ℕ) (file₀ : Bytes) :
    Kept fmt initial file₀ (opened initial file₀ : State R ι) where
  led := ⟨⟨nofun,fun ⟨_,hw⟩ => by cases hw⟩,nofun⟩
  bytes := rfl
  durable := nil_prefix
  number := rfl
  writer := nofun
  flushed := ⟨le_rfl,fun hlt => absurd hlt (lt_irrefl _)⟩
  seen _ := Nat.zero_le _
  phases _ := trivial

lemma flushed_step (h : Kept fmt initial file₀ s)
    (hs : Step fmt s a s') : s.flushedLsn ≤ s'.flushedLsn := by
  cases hs with
  | @store who target snapshot hphase =>
    have hok := h.phases who
    rw [hphase] at hok
    exact hok.1
  | _ => exact le_rfl

/-- In every run without failing flushes the number that is published never
decreases, and when a call has returned for a number that had been given out, the
records up to it have been written to the file before a sync that has finished. -/
theorem flushed_durable (fmt : Format R) (initial : ℕ) (file₀ : Bytes) (s : State R ι)
    (h : Runs.Reaches (step fmt) (fun _ a => ∀ who, a ≠ .sync who true) (opened initial file₀) s) :
    (∀ a s', (∀ who, a ≠ .sync who true) → step fmt s a = some s' → s.flushedLsn ≤ s'.flushedLsn) ∧
    ∀ who target lsn, s.phase who = .returned target lsn → initial < target →
      target ≤ s.seen who → target ≤ initial+s.log.length ∧
        file₀++frames fmt initial (s.log.take (target-initial)) <+: s.durable := by
  have hkept : Kept fmt initial file₀ s := h.invariant (kept_opened initial file₀)
    (fun _ _ _ hs _ hstep => kept_step hs (step_cases fmt hstep))
  refine ⟨fun a s' _ hstep => flushed_step hkept (step_cases fmt hstep),?_⟩
  intro who target lsn hphase hnew hseen
  have hok := hkept.phases who
  rw [hphase] at hok
  have hle : target ≤ s.flushedLsn := hok hseen
  obtain ⟨hwritten,hdurable⟩ := hkept.flushed
  refine ⟨hle.trans hwritten,List.IsPrefix.trans ?_ (hdurable (hnew.trans_le hle))⟩
  rw [prefix_append_right_inj]
  exact frames_grow (take_prefix_take_left (by omega)) initial

end

/-- The target of a thread that has lost the race for the flag. -/
def Phase.follows : Phase R → Option ℕ
  | .following target | .checked target | .waiting target => some target
  | _ => none

/-- A leader in this phase is going to publish at least the target. -/
def Covers (current : ℕ) : Phase R → ℕ → Prop
  | .leading _, target => target ≤ current
  | .snapped _ snapshot, target => target ≤ snapshot
  | .synced _ snapshot, target => target ≤ snapshot
  | _, _ => False

/-- A thread loses the race only to a leader that is going to publish its target or
has done so, and a flush fails only when nobody relies on it. -/
def Timely (s : State R ι) : Action R ι → Prop
  | .contend who => ∀ target, s.phase who = .contending target →
      ∀ l, (s.phase l).leads = true → Covers s.currentLsn (s.phase l) target ∨ target ≤ s.flushedLsn
  | .sync _ true => ∀ w target, (s.phase w).follows = some target → target ≤ s.flushedLsn
  | _ => True

structure Served (s : State R ι) : Prop where
  led : Led s
  covered : ∀ w target, (s.phase w).follows = some target →
    target ≤ s.flushedLsn ∨ ∃ l, Covers s.currentLsn (s.phase l) target

lemma leads_of_covers {current target : ℕ} (h : Covers current p target) : p.leads = true := by
  cases p with
  | leading | snapped | synced => rfl
  | _ => cases h

lemma follows_wake (p : Phase R) : p.wake.follows = p.follows := by
  cases p with
  | _ => rfl

lemma covers_wake {current target : ℕ} (h : Covers current p target) :
    Covers current p.wake target := by
  cases p with
  | waiting t => cases h
  | _ => exact h

lemma Covers.mono {current current' target : ℕ} (h : Covers current p target)
    (hle : current ≤ current') : Covers current' p target := by
  cases p with
  | leading t => exact le_trans h hle
  | _ => exact h

lemma Served.go (h : Served s) (hled : Led s') (hself : s'.phase who = p)
    (hothers : ∀ w, w ≠ who → s'.phase w = s.phase w ∨ s'.phase w = (s.phase w).wake)
    (hcurrent : s.currentLsn ≤ s'.currentLsn) (hflushed : s.flushedLsn ≤ s'.flushedLsn)
    (hfollow : ∀ target, p.follows = some target → (s.phase who).follows = some target)
    (hlead : ∀ target, Covers s.currentLsn (s.phase who) target →
      Covers s'.currentLsn p target ∨ target ≤ s'.flushedLsn) : Served s' := by
  have hold : ∀ w target, (s'.phase w).follows = some target →
      (s.phase w).follows = some target := by
    intro w target hw
    by_cases heq : w = who
    · rw [heq] at hw ⊢
      exact hfollow target (hself ▸ hw)
    rcases hothers w heq with hsame | hwake
    · rw [← hsame]
      exact hw
    · rw [hwake, follows_wake] at hw
      exact hw
  refine ⟨hled,fun w target hw => ?_⟩
  rcases h.covered w target (hold w target hw) with hle | ⟨l,hl⟩
  · exact .inl (hle.trans hflushed)
  by_cases heq : l = who
  · rw [heq] at hl
    rcases hlead target hl with hl | hle
    · exact .inr ⟨who,hself ▸ hl⟩
    · exact .inl hle
  · refine .inr ⟨l,?_⟩
    rcases hothers l heq with hsame | hwake
    · rw [hsame]
      exact hl.mono hcurrent
    · rw [hwake]
      exact covers_wake (hl.mono hcurrent)

lemma served_step (h : Served s)
    (hflushed : s.flushedLsn ≤ s'.flushedLsn) (ht : Timely s a) (hs : Step fmt s a s') :
    Served s' := by
  have hled : Led s' := led_step h.led hs
  have hgo : ∀ {who : ι} {p : Phase R}, s'.phase = update s.phase who p →
      s.currentLsn ≤ s'.currentLsn →
      (∀ target, p.follows = some target → (s.phase who).follows = some target) →
      (∀ target, Covers s.currentLsn (s.phase who) target →
        Covers s'.currentLsn p target ∨ target ≤ s'.flushedLsn) → Served s' := by
    intro who p hphase hcurrent hfollow hlead
    refine h.go hled (by rw [hphase, update_self]) (fun w hw => .inl ?_) hcurrent
      hflushed hfollow hlead
    rw [hphase, update_of_ne hw]
  -- a thread that does not lead and does not fall back
  have hquiet : ∀ {who : ι} {p q : Phase R}, s.phase who = q → q.leads = false →
      s'.phase = update s.phase who p → s.currentLsn ≤ s'.currentLsn →
      (∀ target, p.follows = some target → q.follows = some target) → Served s' := by
    intro who p q hq hno hphase hcurrent hfollow
    refine hgo hphase hcurrent (hq ▸ hfollow) (fun target hc => ?_)
    rw [hq] at hc
    rw [leads_of_covers hc] at hno
    cases hno
  have hwoken : ∀ {who : ι} {p q : Phase R}, s.phase who = q → q.leads = false →
      s'.phase = update s.notifyAll.phase who p → s.currentLsn ≤ s'.currentLsn →
      p.follows = none → Served s' := by
    intro who p q hq hno hphase hcurrent hfollow
    refine h.go hled (by rw [hphase, update_self]) (fun w hw => .inr ?_) hcurrent
      hflushed (fun target ht => ?_) (fun target hc => ?_)
    · rw [hphase, update_of_ne hw]
      rfl
    · rw [hfollow] at ht
      cases ht
    · rw [hq] at hc
      rw [leads_of_covers hc] at hno
      cases hno
  cases hs with
  | refuse hready => exact hquiet rfl (leads_ready hready) rfl le_rfl nofun
  | append hready hfree => exact hquiet rfl (leads_ready hready) rfl (Nat.le_succ _) nofun
  | write spill hphase => exact hquiet hphase rfl rfl le_rfl nofun
  | flushThrough _ hready | flush hready => exact hquiet rfl (leads_ready hready) rfl le_rfl nofun
  | pass hphase | miss hphase => exact hquiet hphase rfl rfl le_rfl nofun
  | @follow who target hphase hflag =>
    obtain ⟨l,hl⟩ := h.led.flag.mp hflag
    have hne : l ≠ who := by
      rintro rfl
      rw [hphase] at hl
      cases hl
    have hlead : (s.go who (.following target)).phase l = s.phase l := update_of_ne hne ..
    refine ⟨hled,fun w t hw => ?_⟩
    by_cases heq : w = who
    · rw [heq, show (s.go who (.following target)).phase who = .following target from
        update_self ..] at hw
      obtain rfl : target = t := Option.some.inj hw
      rcases ht target hphase l hl with hc | hle
      · exact .inr ⟨l,hlead ▸ hc⟩
      · exact .inl hle
    · rw [show (s.go who (.following target)).phase w = s.phase w from update_of_ne heq ..] at hw
      rcases h.covered w t hw with hle | ⟨l',hl'⟩
      · exact .inl hle
      · obtain rfl : l = l' := h.led.one l l' hl (leads_of_covers hl')
        exact .inr ⟨l,hlead ▸ hl'⟩
  | lead hphase | arrive hphase => exact hquiet hphase rfl rfl le_rfl nofun
  | look hphase | wait hphase => exact hquiet hphase rfl rfl le_rfl (fun _ ht => ht)
  | snapshot hphase =>
    refine hgo rfl le_rfl nofun (fun target hc => .inl ?_)
    rw [hphase] at hc
    exact hc
  | @spoil who target snapshot hphase =>
    refine ⟨hled,fun w t hw => .inl (ht w t ?_)⟩
    by_cases heq : w = who
    · rw [heq, show (s.go who (.spoiled target)).phase who = .spoiled target from
        update_self ..] at hw
      cases hw
    · rwa [show (s.go who (.spoiled target)).phase w = s.phase w from update_of_ne heq ..] at hw
  | sync hphase hfree =>
    refine hgo rfl le_rfl nofun (fun target hc => .inl ?_)
    rw [hphase] at hc
    exact hc
  | store hphase =>
    refine hgo rfl le_rfl nofun (fun target hc => .inr ?_)
    rw [hphase] at hc
    exact hc
  | clear hphase | clearSpoiled hphase =>
    refine hgo rfl le_rfl nofun (fun target hc => ?_)
    rw [hphase] at hc
    cases hc
  | notify hphase | notifySpoiled hphase => exact hwoken hphase rfl rfl le_rfl rfl
  | load hphase => exact hquiet hphase rfl rfl le_rfl nofun

/-- In every run in which threads lose the race only to a leader that serves them,
the flag is set while a thread waits for a number that has not been published, and
another thread leads. -/
theorem waiting_flagged (fmt : Format R) (initial : ℕ) (file₀ : Bytes) (s : State R ι)
    (h : Runs.Reaches (step fmt) Timely (opened initial file₀) s) :
    ∀ who target, s.phase who = .waiting target → s.flushedLsn < target →
      s.flushing = true ∧ ∃ l, l ≠ who ∧ (s.phase l).leads = true := by
  have hopened : Kept fmt initial file₀ (opened initial file₀ : State R ι) :=
    kept_opened initial file₀
  have hboth : Kept fmt initial file₀ s ∧ Served s := by
    refine h.invariant (I := fun s => Kept fmt initial file₀ s ∧ Served s)
      ⟨hopened,hopened.led,nofun⟩ (fun _ _ _ hs ht hstep => ?_)
    have hcases := step_cases fmt hstep
    exact ⟨kept_step hs.1 hcases,served_step hs.2 (flushed_step hs.1 hcases) ht hcases⟩
  intro who target hphase hlt
  have hfollow : (s.phase who).follows = some target := by
    rw [hphase]
    rfl
  rcases hboth.2.covered who target hfollow with hle | ⟨l,hl⟩
  · exact absurd hle (not_le.mpr hlt)
  have hlead := leads_of_covers hl
  refine ⟨hboth.2.led.flag.mpr ⟨l,hlead⟩,l,?_,hlead⟩
  rintro rfl
  rw [hphase] at hlead
  cases hlead

lemma wholeRecords_isPrefix (rs : List R) (n : ℕ) : wholeRecords fmt rs n <+: rs := by
  induction rs generalizing n with
  | nil => exact nil_prefix
  | cons r rs ih =>
    rw [wholeRecords]
    split
    · exact cons_prefix_cons.mpr ⟨rfl,ih _⟩
    · exact nil_prefix

lemma prefix_wholeRecords (rs more : List R) (prev n : ℕ)
    (h : (frames fmt prev rs).length ≤ n) : rs <+: wholeRecords fmt (rs++more) n := by
  induction rs generalizing prev n with
  | nil => exact nil_prefix
  | cons r rs ih =>
    rw [frames, length_append, frame_length] at h
    rw [cons_append, wholeRecords, if_pos (by omega), cons_prefix_cons]
    exact ⟨rfl,ih (prev+1) _ (by omega)⟩

def bare : Format Unit := ⟨fun _ => [],fun _ => some (),fun _ => 0⟩

def leader : List (Action Unit (Fin 2)) :=
  [.append 0 (), .write 0 0, .flushThrough 0 1, .check 0, .contend 0]

def follower : List (Action Unit (Fin 2)) :=
  [.append 1 (), .write 1 0, .flushThrough 1 2, .check 1, .contend 1, .recheck 1, .wait 1]

def finish : List (Action Unit (Fin 2)) :=
  [.sync 0 false, .store 0, .clear 0, .notify 0, .load 0]

def after (actions : List (Action Unit (Fin 2))) : State Unit (Fin 2) :=
  (Runs.run (step bare) (opened 0 []) actions).getD (opened 0 [])

lemma after_reached {P : State Unit (Fin 2) → Action Unit (Fin 2) → Prop}
    {p : State Unit (Fin 2) → Action Unit (Fin 2) → Bool} (hp : ∀ s a, p s a = true → P s a)
    {actions : List (Action Unit (Fin 2))} (h : (Runs.run (fun s a =>
      if p s a then step bare s a else none) (opened 0 []) actions).isSome = true) :
    Runs.Reaches (step bare) P (opened 0 []) (after actions) :=
  .of_isSome hp actions h

def sound : Action Unit (Fin 2) → Bool
  | .sync _ true => false
  | _ => true

lemma not_spoiled_of_sound (_ : State Unit (Fin 2)) (a : Action Unit (Fin 2))
    (h : sound a = true) : ∀ who, a ≠ .sync who true := by
  rintro who rfl
  cases h

def timely (s : State Unit (Fin 2)) : Action Unit (Fin 2) → Bool
  | .contend who =>
    match s.phase who with
    | .contending target => (List.finRange 2).all (fun l =>
        match s.phase l with
        | .leading _ => decide (target ≤ s.currentLsn)
        | p => !p.leads)
    | _ => true
  | .sync _ true => false
  | _ => true

lemma timely_sound (s : State Unit (Fin 2)) (a : Action Unit (Fin 2)) (h : timely s a = true) :
    Timely s a := by
  cases a with
  | contend who =>
    intro target hphase l hl
    rw [timely, hphase] at h
    have hone := all_eq_true.mp h l (mem_finRange l)
    cases hp : s.phase l with
    | leading t =>
      rw [hp] at hone
      have hle : target ≤ s.currentLsn := of_decide_eq_true hone
      exact .inl hle
    | _ =>
      rw [hp] at hone hl
      simp [hl] at hone
  | sync who fails =>
    cases fails with
    | true => cases h
    | false => trivial
  | _ => trivial

theorem finished_durable : (after (leader++.snapshot 0::finish)).phase 0 = .returned 1 1 ∧
    []++frames bare 0 [()] <+: (after (leader++.snapshot 0::finish)).durable := by
  have hphase : (after (leader++.snapshot 0::finish)).phase 0 = .returned 1 1 := by decide +kernel
  have hreach : Runs.Reaches (step bare) (fun _ a => ∀ who, a ≠ .sync who true) (opened 0 [])
      (after (leader++.snapshot 0::finish)) :=
    after_reached not_spoiled_of_sound (by decide +kernel)
  exact ⟨hphase,((flushed_durable bare 0 [] _ hreach).2 0 1 1 hphase (by decide)
    (by decide +kernel)).2⟩

theorem follower_flagged : (after (leader++follower)).phase 1 = .waiting 2 ∧
    (after (leader++follower)).flushing = true := by
  have hphase : (after (leader++follower)).phase 1 = .waiting 2 := by decide +kernel
  exact ⟨hphase,(waiting_flagged bare 0 [] (after (leader++follower))
    (after_reached timely_sound (by decide +kernel)) 1 2 hphase (by decide +kernel)).1⟩

/-- The leader has read the number before the follower appends its record. After
both have gone on the follower waits, and nobody leads. -/
theorem follower_stranded : Runs.Reaches (step bare) (fun _ _ => True) (opened 0 [])
      (after (leader++.snapshot 0::follower++finish++[.recheck 1, .wait 1])) ∧
    (after (leader++.snapshot 0::follower++finish++[.recheck 1, .wait 1])).phase 1 = .waiting 2 ∧
    (after (leader++.snapshot 0::follower++finish++[.recheck 1, .wait 1])).flushedLsn = 1 ∧
    (after (leader++.snapshot 0::follower++finish++[.recheck 1, .wait 1])).flushing = false ∧
    (after (leader++.snapshot 0::follower++finish++[.recheck 1, .wait 1])).phase 0 =
      .returned 1 1 := by
  refine ⟨after_reached (p := fun _ _ => true) (fun _ _ _ => trivial) ?_,?_,?_,?_,?_⟩
  · decide +kernel
  · decide +kernel
  · decide +kernel
  · decide +kernel
  · decide +kernel

end ByteDB.GroupCommit
