import ByteDB.FileTree
import ByteDB.Transaction

/-!
# Restoring a backup

`restore_to` copies the backup into a staging directory beside the target. Only
then it empties the target, entry by entry, and renames the entries of the
staging directory into it. An operation that fails ends the call at once. Before
the first removal the target is as it was; after it nothing brings the removed
entries back.
-/

set_option autoImplicit false

namespace ByteDB.Backup
open ByteDB.Assoc Command FileTree List

def backupManifestMagic : Bytes := [66, 66, 75, 77]

def backupManifestVersion : ℕ := 1

structure BackupManifest where
  sourceDataDir : Bytes
  backupLsn : ℕ
  timestamp : ℕ
  sourceFormatVersion : ℕ
  deriving DecidableEq, Repr

def number (payload : Bytes) (i width : ℕ) : ℕ := LittleEndian.readLe ((payload.drop i).take width)

def parseManifest (crc : Bytes → UInt32) (buf : Bytes) : Except CoreError BackupManifest :=
  if buf.length < 4+4+8+8+4+4+4 then .error (.internal "backup manifest truncated")
  else
    let payload := buf.take (buf.length-4)
    if (crc payload).toNat ≠ number buf (buf.length-4) 4 then
      .error (.internal "backup manifest crc mismatch")
    else if payload.take 4 ≠ backupManifestMagic then
      .error (.internal "backup manifest bad magic")
    else
      let version := number payload 4 4
      if version ≠ backupManifestVersion then
        .error (.internal ("backup manifest unsupported version " ++ toString version))
      else
        let pathLen := number payload 28 4
        if payload.length < 32+pathLen then .error (.internal "backup manifest path truncated")
        else .ok
          { sourceDataDir := (payload.drop 32).take pathLen
            backupLsn := number payload 8 8
            timestamp := number payload 16 8
            sourceFormatVersion := number payload 24 4 }

/-- The name before its last dot, unless that dot is the first character. -/
def fileStem (name : String) : String :=
  let rev := name.toList.reverse
  let stem := ((rev.dropWhile (· ≠ '.')).drop 1).reverse
  if stem = [] then name else String.ofList stem

def fileExtension (name : String) : Option String :=
  if fileStem name = name then none
  else some (String.ofList ((name.toList.reverse.takeWhile (· ≠ '.')).reverse))

def withExtension (name ext : String) : String := fileStem name ++ "." ++ ext

/-- The data directory: a path that ends in a name, or one such as `.` that does not. -/
structure Target where
  parent : Path
  name : Option String

def Target.dir (target : Target) : Path := target.parent++target.name.toList

def Target.staging (target : Target) : Path := target.parent++[match target.name with
    | some name => name ++ ".restore_staging"
    | none => "restore_staging"]

section
variable (plan : Plan) (limit : ℕ)

def copyFile (src parent : Path) (name : String) : Script CoreError Unit := do
  createDirAll plan parent
  copy plan src (parent++[withExtension name "tmp.bkp"])
  rename plan (parent++[withExtension name "tmp.bkp"]) (parent++[name])

/-- There are no paths with more than a number of components. -/
def copyDir : ℕ → Path → Path → Script CoreError Unit
  | 0, _, _ => fail (.inl .nameTooLong)
  | depth+1, src, dst => do
    createDirAll plan dst
    let names ← readDir plan src
    loop (fun _ name => do
      nextEntry plan
      let sub ← get (fun d => isDir d.files (src++[name]))
      if sub then copyDir depth (src++[name]) (dst++[name])
      else if fileExtension name = some "tmp" then pure ()
      else copyFile plan (src++[name]) dst name) () names

def isThere (p : Path) : Script CoreError Bool := get (fun d => (d.files.lookup p).isSome)

def copyAll (backup staging : Path) : Script CoreError Unit := do
  loop (fun _ name => do
    let there ← isThere (backup++[name])
    if there then copyFile plan (backup++[name]) staging name else pure ())
    () ["bytedb.wal", "server.meta"]
  loop (fun _ name => do
    let there ← isThere (backup++[name])
    if there then copyDir plan limit (backup++[name]) (staging++[name]) else pure ())
    () ["snapshots", "databases"]

variable (crc : Bytes → UInt32)

def readManifest (backup : Path) : Script CoreError BackupManifest := do
  let buf ← readFile plan (backup++["manifest.bin"])
  check (fun _ => (parseManifest crc buf).mapError .inr)

def clearStaging (staging : Path) : Script CoreError Unit := do
  let old ← isThere staging
  if old then removeDirAll plan staging else pure ()

/-- The first half of `restore_to`: a copy of the backup in the staging directory. -/
def stage (backup staging : Path) : Script CoreError BackupManifest := do
  let manifest ← readManifest plan crc backup
  clearStaging plan staging
  createDirAll plan staging
  cleaning (copyAll plan limit backup staging) (removeDirAll plan staging)
  pure manifest

def removeEntry (dir : Path) (name : String) : Script CoreError Unit := do
  nextEntry plan
  let sub ← get (fun d => isDir d.files (dir++[name]))
  if sub then removeDirAll plan (dir++[name]) else removeFile plan (dir++[name])

def emptyDir (dir : Path) : Script CoreError Unit := do
  let there ← isThere dir
  if there then do
    let names ← readDir plan dir
    loop (fun _ => removeEntry plan dir) () names
  else createDirAll plan dir

def moveEntry (staging dir : Path) (name : String) : Script CoreError Unit := do
  nextEntry plan
  rename plan (staging++[name]) (dir++[name])

def moveIn (staging dir : Path) : Script CoreError Unit := do
  let names ← readDir plan staging
  loop (fun _ => moveEntry plan staging dir) () names

/-- The second half of `restore_to`: the staged copy takes the place of the target. -/
def replace (staging dir : Path) : Script CoreError Unit := do
  emptyDir plan dir
  moveIn plan staging dir
  ignoring (removeDirAll plan staging)

def restoreTo (backup : Path) (target : Target) :
    Script CoreError BackupManifest := do
  let manifest ← stage plan limit crc backup target.staging
  replace plan target.staging target.dir
  pure manifest

end

section
variable {plan : Plan} {limit : ℕ} {crc : Bytes → UInt32} {Q : Path → Prop} {fs₀ : Files}
  {base : Path}

/-- Whatever is done below a directory leaves the paths in `Q` alone. -/
def Safe (Q : Path → Prop) (fs₀ : Files) (base : Path) : Prop :=
  ∀ p, base <+: p → Grounded Q fs₀ p ∧ ∀ name, Above Q (p++[name])

lemma stays_copyFile (h : Safe Q fs₀ base) (src parent : Path) (name : String)
    (hparent : base <+: parent) : Stays (On (Held Q fs₀)) (copyFile plan src parent name) := by
  obtain ⟨hground,habove⟩ := h parent hparent
  exact stays_bind (stays_createDirAll hground) (fun _ =>
    stays_bind (stays_copy (habove _)) (fun _ => stays_rename (habove _) (habove _)))

lemma stays_copyDir (h : Safe Q fs₀ base) (depth : ℕ) (src dst : Path) (hdst : base <+: dst) :
    Stays (On (Held Q fs₀)) (copyDir plan depth src dst) := by
  induction depth generalizing src dst with
  | zero => exact stays_fail _
  | succ depth ih =>
    refine stays_bind (stays_createDirAll (h dst hdst).1) (fun _ =>
      stays_bind stays_readDir (fun names => stays_loop _ (fun name _ _ => ?_) _))
    refine stays_bind stays_nextEntry (fun _ => stays_bind (stays_get _) (fun sub => ?_))
    split
    · exact ih (src++[name]) (dst++[name]) (hdst.trans (prefix_append _ _))
    · split
      · exact stays_pure _
      · exact stays_copyFile h (src++[name]) dst name hdst

lemma stays_copyAll (h : Safe Q fs₀ base) (backup : Path) :
    Stays (On (Held Q fs₀)) (copyAll plan limit backup base) := by
  refine stays_bind (stays_loop _ (fun name _ _ => ?_) _) (fun _ =>
    stays_loop _ (fun name _ _ => ?_) _)
  · refine stays_bind (stays_get _) (fun there => ?_)
    split
    · exact stays_copyFile h _ base name prefix_rfl
    · exact stays_pure _
  · refine stays_bind (stays_get _) (fun there => ?_)
    split
    · exact stays_copyDir h limit _ _ (prefix_append _ _)
    · exact stays_pure _

lemma stays_stage (h : Safe Q fs₀ base) (hbase : Above Q base) (backup : Path) :
    Stays (On (Held Q fs₀)) (stage plan limit crc backup base) := by
  have hclear : Stays (On (Held Q fs₀)) (clearStaging plan base) := by
    refine stays_bind (stays_get _) (fun old => ?_)
    split
    · exact stays_removeDirAll hbase
    · exact stays_pure _
  exact stays_bind (stays_bind stays_readFile (fun _ => stays_check _)) (fun manifest =>
    stays_bind hclear (fun _ =>
      stays_bind (stays_createDirAll (h base prefix_rfl).1) (fun _ =>
        stays_bind (stays_cleaning (stays_copyAll h backup) (stays_removeDirAll hbase))
          (fun _ => stays_pure _))))

lemma faithful_copyFile (src parent : Path) (name : String) :
    Faithful (fun plan => copyFile plan src parent name) :=
  (faithful_attempt _ _).bind (fun _ =>
    (faithful_attempt _ _).bind (fun _ => faithful_atomically _))

lemma faithful_copyDir (depth : ℕ) (src dst : Path) :
    Faithful (fun plan => copyDir plan depth src dst) := by
  induction depth generalizing src dst with
  | zero => exact faithful_const _
  | succ depth ih =>
    refine (faithful_attempt _ _).bind (fun _ => (faithful_atomically _).bind (fun names =>
      Faithful.loop (fun _ name => ?_) () names))
    refine (faithful_atomically _).bind (fun _ => (faithful_const _).bind (fun sub => ?_))
    cases sub with
    | true => exact ih _ _
    | false =>
      by_cases hext : fileExtension name = some "tmp"
      · simp only [hext]
        exact faithful_const _
      · simp only [hext]
        exact faithful_copyFile _ _ _

lemma faithful_copyAll (limit : ℕ) (backup staging : Path) :
    Faithful (fun plan => copyAll plan limit backup staging) := by
  refine (Faithful.loop (fun _ name => ?_) () _).bind (fun _ => Faithful.loop (fun _ name => ?_) () _)
  · refine (faithful_const _).bind (fun there => ?_)
    cases there with
    | true => exact faithful_copyFile _ _ _
    | false => exact faithful_const _
  · refine (faithful_const _).bind (fun there => ?_)
    cases there with
    | true => exact faithful_copyDir _ _ _
    | false => exact faithful_const _

lemma faithful_stage (limit : ℕ) (crc : Bytes → UInt32) (backup staging : Path) :
    Faithful (fun plan => stage plan limit crc backup staging) := by
  have hclear : Faithful (fun plan => clearStaging plan staging) := by
    refine (faithful_const _).bind (fun old => ?_)
    have hremove : Faithful (fun plan => (removeDirAll plan staging : Script CoreError Unit)) :=
      faithful_attempt _ _
    cases old with
    | true => exact hremove
    | false => exact faithful_const _
  exact ((faithful_atomically _).bind (fun _ => faithful_const _)).bind (fun _ =>
    hclear.bind (fun _ => (faithful_attempt _ _).bind (fun _ =>
      ((faithful_copyAll limit backup staging).cleaning
        (fun plan => removeDirAll plan staging)).bind (fun _ => faithful_const _))))

lemma triple_stage (backup : Path) : Triple (fun _ => True) (stage plan limit crc backup base)
      (fun _ d => d.files.lookup base = some .dir) (fun _ => True) := by
  have hany : ∀ {α : Type} (m : Script CoreError α),
      Triple (fun _ => True) m (fun _ _ => True) (fun _ => True) := by
    intro α m d _
    obtain ⟨err,d',h⟩ | ⟨a,d',h⟩ := fails_or m d
    · rw [h]
      trivial
    · rw [h]
      trivial
  have hcopy : Triple (fun d => d.files.lookup base = some .dir)
      (copyAll plan limit backup base) (fun _ d => d.files.lookup base = some .dir)
      (fun _ => True) := by
    intro d hdir
    have hsafe : Safe (· = base) d.files base := by
      refine fun p hp => ⟨fun q hq _ => ?_,fun name q hq hbelow => ?_⟩
      · rw [hq, hdir]
        rfl
      subst hq
      have hlen := hbelow.length_le
      have hlen' := hp.length_le
      rw [length_append, length_singleton] at hlen
      omega
    have hstays : Stays (On (Held (· = base) d.files)) (copyAll plan limit backup base) :=
      stays_copyAll hsafe backup
    have hheld := hstays d (fun _ _ => rfl)
    cases hcopied : copyAll plan limit backup base d with
    | mk r d' =>
      rw [hcopied] at hheld
      cases r with
      | error err => trivial
      | ok _ => exact (hheld base rfl).trans hdir
  exact triple_bind (hany _) (fun _ => triple_bind (hany _) (fun _ =>
    triple_bind triple_createDirAll (fun _ => triple_bind (triple_cleaning hcopy _) (fun _ =>
      triple_pure _ (fun _ h => h)))))

end

section
variable {plan : Plan} {staging dir : Path}

def Inside (dir q : Path) : Prop := dir <+: q ∧ q ≠ dir

def Apart (staging dir : Path) : Prop := ∀ q, dir <+: q → ¬staging <+: q

lemma Target.apart {target : Target} {name : String} (h : target.name = some name) :
    Apart target.staging target.dir := by
  intro q hdir hstaging
  have hlen : target.dir.length = target.staging.length := by
    simp [Target.dir, Target.staging, h]
  have heq : target.dir = target.staging :=
    (prefix_of_prefix_length_le hdir hstaging hlen.le).eq_of_length hlen
  rw [Target.dir, Target.staging, h] at heq
  have hnames := append_cancel_left heq
  have hname : name = name ++ ".restore_staging" := by simpa using hnames
  have hlength := congrArg String.length hname
  rw [String.length_append] at hlength
  have hsuffix : ".restore_staging".length = 16 := rfl
  omega

lemma inside_append (dir : Path) (name : String) {q : Path} (h : dir++[name] <+: q) :
    Inside dir q := by
  refine ⟨(prefix_append _ _).trans h,?_⟩
  rintro rfl
  have hlen := h.length_le
  rw [length_append, length_singleton] at hlen
  omega

lemma Apart.above (h : Apart staging dir) {p : Path} (hp : staging <+: p) : Above (Inside dir) p :=
  fun q hq hpq => h q hq.1 (hp.trans hpq)

lemma Apart.safe (h : Apart staging dir) (fs₀ : Files) : Safe (Inside dir) fs₀ staging := by
  refine fun p hp => ⟨fun q hq hqp => ?_,fun name => ?_⟩
  · exact absurd hp (h p (hq.1.trans hqp))
  · exact h.above (hp.trans (prefix_append _ _))

def Staged (staging : Path) (fs : Files) : Prop := fs.lookup staging = some .dir

lemma Apart.staged (h : Apart staging dir) (name : String) : ¬dir++[name] <+: staging :=
  fun hp => h staging ((prefix_append _ _).trans hp) prefix_rfl

lemma finishes_nextEntry :
    Finishes plan (Staged staging) (nextEntry plan : Script CoreError Unit) :=
  finishes_atomically (fun fs h => ⟨(),fs,rfl,h⟩)

lemma finishes_removeEntry (h : Apart staging dir) (name : String) :
    Finishes plan (Staged staging) (removeEntry plan dir name) := by
  refine finishes_nextEntry.bind (fun _ => (finishes_get _).bind (fun sub => ?_))
  split
  · refine finishes_attempt (fun fs hfs => ⟨(),_,rfl,?_⟩)
    exact (lookup_removeTree _ _ fs (h.staged name)).trans hfs
  · refine finishes_atomically (fun fs hfs => ⟨(),_,rfl,?_⟩)
    rw [Staged, lookup_erase_eq, if_neg, hfs]
    intro heq
    exact h.staged name (heq ▸ prefix_rfl)

lemma finishes_moveEntry (h : Apart staging dir) (name : String) :
    Finishes plan (Staged staging) (moveEntry plan staging dir name) := by
  refine finishes_nextEntry.bind (fun _ =>
    finishes_atomically (fun fs hfs => ⟨(),_,rfl,?_⟩))
  refine (lookup_moveTree _ _ _ fs (fun hp => ?_) (h.staged name)).trans hfs
  have hlen := hp.length_le
  rw [length_append, length_singleton] at hlen
  omega

lemma finishes_moveIn (h : Apart staging dir) :
    Finishes plan (Staged staging) (moveIn plan staging dir) := by
  have hread : Finishes plan (Staged staging)
      (readDir plan staging : Script CoreError (List String)) := by
    refine finishes_atomically (fun fs hfs => ⟨children fs staging,fs,?_,hfs⟩)
    rw [show fs.lookup staging = some .dir from hfs]
  exact hread.bind (fun names => finishes_loop (finishes_moveEntry h) names)

abbrev Unchanged (dir : Path) (fs₀ fs : Files) : Prop := Held (Inside dir) fs₀ fs

variable {fs₀ : Files} {n : ℕ} {α : Type} {run : Files → Except IoError (α × Files)}
  {Q : α → Disk → Prop}

lemma triple_tried {broken : Fault → Files → Files}
    (hbroken : ∀ fault, plan n = some fault → Unchanged dir fs₀ (broken fault fs₀))
    (hrun : ∀ a fs', run fs₀ = .ok (a,fs') → Q a ⟨fs',n+1⟩) :
    Triple (· = ⟨fs₀,n⟩) (attempt plan broken run : Script CoreError α) Q
      (fun d => Unchanged dir fs₀ d.files) :=
  triple_attempt hbroken (fun _ _ => rfl) hrun

lemma triple_atomic (hrun : ∀ a fs', run fs₀ = .ok (a,fs') → Q a ⟨fs',n+1⟩) :
    Triple (· = ⟨fs₀,n⟩) (atomically plan run : Script CoreError α) Q
      (fun d => Unchanged dir fs₀ d.files) :=
  triple_tried (fun _ _ _ _ => rfl) hrun

lemma triple_nextEntry : Triple (· = ⟨fs₀,n⟩) (nextEntry plan : Script CoreError Unit)
    (fun _ => (· = ⟨fs₀,n+1⟩)) (fun d => Unchanged dir fs₀ d.files) := by
  refine triple_atomic (fun a fs' hrun => ?_)
  cases hrun
  rfl

lemma triple_readDir (p : Path) :
    Triple (· = ⟨fs₀,n⟩) (readDir plan p : Script CoreError (List String))
      (fun names d => d = ⟨fs₀,n+1⟩ ∧ names = children fs₀ p)
      (fun d => Unchanged dir fs₀ d.files) := by
  refine triple_atomic (fun a fs' hrun => ?_)
  split at hrun
  · cases hrun
    exact ⟨rfl,rfl⟩
  · cases hrun
  · cases hrun

lemma finishes_after {m : Script CoreError Unit} (h : Finishes plan (Staged staging) m) :
    Triple (Clear plan (Staged staging)) m (fun _ => Clear plan (Staged staging))
      (fun d => Unchanged dir fs₀ d.files) :=
  h.weaken (fun _ hd => hd) (fun _ _ hd => hd) (fun _ hd => hd.elim)

/-- The entries of the staging directory are renamed. Nothing has changed before
the first rename, and no fault is left after it. -/
lemma triple_moveIn (h : Apart staging dir) (hstaged : Staged staging fs₀)
    (hlater : ∀ k, n+2 < k → plan k = none) :
    Triple (· = ⟨fs₀,n⟩) (moveIn plan staging dir) (fun _ _ => True)
      (fun d => Unchanged dir fs₀ d.files) := by
  refine triple_bind (triple_readDir staging) (fun names => ?_)
  cases names with
  | nil => exact triple_pure () (fun _ _ => trivial)
  | cons name names =>
    have hfirst : Triple (fun d => d = ⟨fs₀,n+1⟩ ∧ name::names = children fs₀ staging)
        (moveEntry plan staging dir name) (fun _ => Clear plan (Staged staging))
        (fun d => Unchanged dir fs₀ d.files) := by
      have hrename : Triple (· = ⟨fs₀,n+1+1⟩)
          (rename plan (staging++[name]) (dir++[name]) : Script CoreError Unit)
          (fun _ => Clear plan (Staged staging)) (fun d => Unchanged dir fs₀ d.files) := by
        refine triple_atomic (fun a fs' hrun => ?_)
        cases hrun
        refine ⟨fun k hk => hlater k (by exact hk),?_⟩
        refine (lookup_moveTree _ _ _ fs₀ (fun hp => ?_) (h.staged name)).trans hstaged
        have hlen := hp.length_le
        rw [length_append, length_singleton] at hlen
        omega
      exact (triple_bind triple_nextEntry (fun _ => hrename)).weaken (fun _ hd => hd.1)
        (fun _ _ hd => hd) (fun _ hd => hd)
    refine triple_bind hfirst (fun _ => ?_)
    exact (finishes_after (finishes_loop (finishes_moveEntry h) names)).weaken (fun _ hd => hd)
      (fun _ _ _ => trivial) (fun _ hd => hd)

def changeAt (fs : Files) (dir : Path) (n : ℕ) : ℕ := n+if children fs dir = [] then 3 else 2

lemma triple_removeFirst (h : Apart staging dir) (hstaged : Staged staging fs₀) (name : String)
    (hlater : ∀ k, n+1 < k → plan k = none)
    (hwhole : ∀ fault, plan (n+1) = some fault → ∀ q, Inside dir q → fault.removed q = false) :
    Triple (· = ⟨fs₀,n⟩) (removeEntry plan dir name) (fun _ => Clear plan (Staged staging))
      (fun d => Unchanged dir fs₀ d.files) := by
  refine triple_bind triple_nextEntry (fun _ => triple_bind
    (triple_get (Q := fun _ d => d = ⟨fs₀,n+1⟩) _ (fun _ hd => hd)) (fun sub => ?_))
  split
  · refine triple_tried (fun fault hfault q hq => ?_) (fun a fs' hrun => ?_)
    · rw [lookup_retain]
      cases fs₀.lookup q with
      | none => rfl
      | some node =>
        refine if_neg (fun hp => ?_)
        rw [hwhole fault hfault q hq] at hp
        cases hp.2
    · cases hrun
      exact ⟨hlater,(lookup_removeTree _ _ fs₀ (h.staged name)).trans hstaged⟩
  · refine triple_atomic (fun a fs' hrun => ?_)
    cases hrun
    refine ⟨hlater,?_⟩
    rw [Staged, lookup_erase_eq, if_neg, hstaged]
    intro heq
    exact h.staged name (heq ▸ prefix_rfl)

/-- The target is as it was and the entries are still to be moved, or no fault is left. -/
def Ready (plan : Plan) (staging dir : Path) (fs₀ : Files) (n : ℕ) (d : Disk) : Prop :=
  (∃ fs, d = ⟨fs,n⟩ ∧ Unchanged dir fs₀ fs ∧ Staged staging fs ∧ ∀ k, n+2 < k → plan k = none) ∨
  Clear plan (Staged staging) d

variable (h : Apart staging dir) (hstaged : Staged staging fs₀)
  (hlater : ∀ k, changeAt fs₀ dir n < k → plan k = none)
  (hwhole : ∀ fault, plan (changeAt fs₀ dir n) = some fault → ∀ q, Inside dir q → fault.removed q = false)
include h hstaged hlater hwhole

lemma triple_emptyDir :
    Triple (· = ⟨fs₀,n⟩) (emptyDir plan dir) (fun _ => Ready plan staging dir fs₀ (n+1))
      (fun d => Unchanged dir fs₀ d.files) := by
  have hlast : ∀ k, n+1+2 < k → plan k = none := by
    intro k hk
    refine hlater k (lt_of_le_of_lt ?_ hk)
    rw [changeAt]
    split
    · rfl
    · omega
  refine triple_bind (triple_get (Q := fun _ d => d = ⟨fs₀,n⟩) _ (fun _ hd => hd)) (fun there => ?_)
  cases there with
  | false =>
    -- what is on the way to the directory is not in it
    have hground : Grounded (Inside dir) fs₀ dir := by
      intro q hq hbelow
      exact absurd (hbelow.eq_of_length_le hq.1.length_le) hq.2
    have hheld : Unchanged dir fs₀ fs₀ := fun _ _ => rfl
    have hcreate : Triple (· = ⟨fs₀,n⟩) (createDirAll plan dir : Script CoreError Unit)
        (fun _ => Ready plan staging dir fs₀ (n+1)) (fun d => Unchanged dir fs₀ d.files) := by
      refine triple_tried (fun fault _ => ?_) (fun a fs' hrun => ?_)
      · refine hheld.makeDirs hground (fun q hq => ?_)
        exact (mem_inits _ _).mp (mem_of_mem_take hq)
      split at hrun
      · cases hrun
      · cases hrun
        refine .inl ⟨_,rfl,hheld.makeDirs hground (fun q hq => (mem_inits _ _).mp hq),?_, hlast⟩
        rw [Staged, lookup_makeDirs _ _ _ (fun _ => by rw [hstaged]; rfl), hstaged]
    exact hcreate
  | true =>
    refine triple_bind (triple_readDir dir) (fun names => ?_)
    cases names with
    | nil =>
      refine triple_pure () (fun d hd => ?_)
      exact .inl ⟨fs₀,hd.1,fun _ _ => rfl,hstaged,hlast⟩
    | cons name names =>
      intro d hd
      obtain ⟨rfl,hnames⟩ := hd
      have hat : changeAt fs₀ dir n = n+1+1 := by
        rw [changeAt, ← hnames]
        rfl
      rw [hat] at hlater hwhole
      have hloop : Triple (· = ⟨fs₀,n+1⟩) (loop (fun _ => removeEntry plan dir) () (name::names))
          (fun _ => Clear plan (Staged staging)) (fun d => Unchanged dir fs₀ d.files) :=
        triple_bind (triple_removeFirst h hstaged name hlater hwhole) (fun _ =>
          finishes_after (finishes_loop (finishes_removeEntry h) names))
      exact (hloop.weaken (fun _ hd => hd) (fun _ _ hd => .inr hd) (fun _ hd => hd)) _ rfl

lemma triple_replace : Triple (· = ⟨fs₀,n⟩) (replace plan staging dir) (fun _ _ => True)
      (fun d => Unchanged dir fs₀ d.files) := by
  have hmove : Triple (Ready plan staging dir fs₀ (n+1)) (moveIn plan staging dir)
      (fun _ _ => True) (fun d => Unchanged dir fs₀ d.files) := by
    rintro d (⟨fs,rfl,hsame,hstaged',hlater'⟩ | hclear)
    · have hmoved := (triple_moveIn h hstaged' hlater').weaken (fun _ hd => hd)
        (fun _ _ hd => hd) (fun d' (hd : Unchanged dir fs d'.files) =>
          (fun q hq => (hd q hq).trans (hsame q hq) : Unchanged dir fs₀ d'.files))
      exact hmoved _ rfl
    · exact ((finishes_after (finishes_moveIn h)).weaken (fun _ hd => hd)
        (fun _ _ _ => trivial) (fun _ hd => hd)) d hclear
  exact triple_bind (triple_emptyDir h hstaged hlater hwhole) (fun _ =>
    triple_bind hmove (fun _ _ _ => trivial))

end

section
variable (plan : Plan) (limit : ℕ) (crc : Bytes → UInt32) (backup : Path) (target : Target)

/-- The number of the operation that changes the target first: staging takes as
many as it takes without faults, and then come the reading of the directory, its
first entry, and the removal of that entry; or the reading of the staging
directory, its first entry and the renaming of that one, if there is nothing to
remove. -/
def firstChange (d : Disk) : ℕ :=
  changeAt d.files target.dir (stage (fun _ => none) limit crc backup target.staging d).2.clock

/-- No operation fails after the first one that changes the target, and if that
one fails, it has removed nothing. -/
def FailsEarly (d : Disk) : Prop :=
  (∀ k, firstChange limit crc backup target d < k → plan k = none) ∧
  ∀ fault, plan (firstChange limit crc backup target d) = some fault →
    ∀ q, Inside target.dir q → fault.removed q = false

lemma changeAt_held {fs fs' : Files} {dir : Path} (h : Unchanged dir fs fs') (n : ℕ) :
    changeAt fs' dir n = changeAt fs dir n := by
  have hmem : ∀ name, name ∈ children fs' dir ↔ name ∈ children fs dir := by
    intro name
    rw [mem_children, mem_children, h _ (inside_append dir name prefix_rfl)]
  have hnil : children fs' dir = [] ↔ children fs dir = [] := by
    rw [eq_nil_iff_forall_not_mem, eq_nil_iff_forall_not_mem]
    simp only [hmem]
  rw [changeAt, changeAt]
  simp only [hnil]

/-- A manifest with a path of no bytes, for a checksum that is always zero. -/
def manifestBytes : Bytes := backupManifestMagic++LittleEndian.le 4 1++List.replicate 28 0

def twoFiles : Disk where
  files := (((((AList.insert ["backup"] .dir ∅).insert
    ["backup", "manifest.bin"] (.file manifestBytes)).insert
    ["backup", "bytedb.wal"] (.file [7])).insert ["data"] .dir).insert
    ["data", "bytedb.wal"] (.file [1])).insert ["data", "server.meta"] (.file [2])
  clock := 0

def failsAt (n : ℕ) : Plan := fun k => if k = n then some ⟨0,fun _ => false⟩ else none

def named : Target := ⟨[],some "data"⟩

def nameless : Target := ⟨["data"],none⟩

end

end ByteDB.Backup
