import ByteDB.Assoc
import ByteDB.Bytes
import ByteDB.Command

/-!
# Scripts of file operations

A tree of files is a map from paths to nodes. Every operation of a script has a
number, and a plan says which operations fail and what a failed one leaves
behind. A script may fail with errors of its own, too.
-/

set_option autoImplicit false

namespace ByteDB.FileTree
open ByteDB.Assoc Command List

abbrev Path := List String

inductive Node where
  | file (data : Bytes)
  | dir
  deriving DecidableEq, Repr

abbrev Files := Map Path Node

/-- What an operation that fails has done: how much it has written or created,
and which paths it has removed. -/
structure Fault where
  written : ℕ
  removed : Path → Bool

abbrev Plan := ℕ → Option Fault

inductive IoError where
  | notFound
  | notADirectory
  | isADirectory
  | nameTooLong
  | failed
  deriving DecidableEq, Repr

structure Disk where
  files : Files
  clock : ℕ

abbrev Script (ε α : Type) := Command Disk (IoError ⊕ ε) α

section

def isDir (fs : Files) (p : Path) : Bool := fs.lookup p = some .dir

def isFile (fs : Files) (p : Path) : Bool :=
  match fs.lookup p with
  | some (.file _) => true
  | _ => false

def children (fs : Files) (p : Path) : List String :=
  fs.keys.filterMap (fun q => if q.dropLast = p then q.getLast? else none)

def removeTree (p : Path) (fs : Files) : Files :=
  retain fs (fun q node => if p <+: q then none else some node)

def makeDirs (ps : List Path) (fs : Files) : Files :=
  ps.foldl (fun fs p => if (fs.lookup p).isSome then fs else fs.insert p .dir) fs

def moveTree (src dst : Path) (fs : Files) : Files :=
  (fs.entries.filter (fun e => src <+: e.1)).foldl
    (fun fs e => fs.insert (dst++e.1.drop src.length) e.2) (removeTree dst (removeTree src fs))

lemma lookup_removeTree (p q : Path) (fs : Files) (h : ¬p <+: q) :
    (removeTree p fs).lookup q = fs.lookup q := by
  rw [removeTree, lookup_retain]
  cases fs.lookup q with
  | none => rfl
  | some node => exact if_neg h

lemma lookup_makeDirs (ps : List Path) (q : Path) (fs : Files)
    (h : q ∈ ps → (fs.lookup q).isSome) : (makeDirs ps fs).lookup q = fs.lookup q := by
  induction ps generalizing fs with
  | nil => rfl
  | cons p ps ih =>
    have hstep : (if (fs.lookup p).isSome then fs else fs.insert p .dir).lookup q =
        fs.lookup q := by
      split
      · rfl
      · rename_i hp
        rw [lookup_insert_eq, if_neg]
        rintro rfl
        exact hp (h mem_cons_self)
    rw [makeDirs, foldl_cons, ← makeDirs, ih, hstep]
    intro hq
    rw [hstep]
    exact h (mem_cons_of_mem _ hq)

variable {fs : Files}

lemma lookup_makeDirs_new {ps : List Path} {q : Path} (hq : q ∈ ps)
    (h : fs.lookup q = none) : (makeDirs ps fs).lookup q = some .dir := by
  induction ps generalizing fs with
  | nil => cases hq
  | cons p ps ih =>
    rw [makeDirs, foldl_cons, ← makeDirs]
    by_cases hp : q = p
    · subst hp
      have hself : (fs.insert q .dir).lookup q = some .dir := AList.lookup_insert fs
      rw [h, if_neg (by simp), lookup_makeDirs, hself]
      exact fun _ => by rw [hself]; rfl
    · refine ih ((mem_cons.mp hq).resolve_left hp) ?_
      split
      · exact h
      · rw [lookup_insert_eq, if_neg hp, h]

lemma lookup_moveTree (src dst q : Path) (fs : Files) (hsrc : ¬src <+: q) (hdst : ¬dst <+: q) :
    (moveTree src dst fs).lookup q = fs.lookup q := by
  have hloop : ∀ (es : List ((_ : Path) × Node)) (fs : Files),
      (es.foldl (fun fs e => fs.insert (dst++e.1.drop src.length) e.2) fs).lookup q =
        fs.lookup q := by
    intro es
    induction es with
    | nil => exact fun _ => rfl
    | cons e es ih =>
      intro fs
      rw [foldl_cons, ih, lookup_insert_eq, if_neg]
      rintro rfl
      exact hdst (prefix_append _ _)
  rw [moveTree, hloop, lookup_removeTree _ _ _ hdst, lookup_removeTree _ _ _ hsrc]

lemma mem_children {p : Path} {name : String} :
    name ∈ children fs p ↔ (fs.lookup (p++[name])).isSome := by
  rw [Option.isSome_iff_exists, ← mem_keys_iff, children, mem_filterMap]
  constructor
  · rintro ⟨q,hq,hname⟩
    split at hname
    · rename_i hp
      rw [← hp, dropLast_append_getLast? name hname]
      exact hq
    · cases hname
  · exact fun hq => ⟨p++[name],hq,by simp⟩

end

section
variable {ε α : Type} (plan : Plan)

/-- One operation: the plan lets it fail, or it does what it can. -/
def attempt (broken : Fault → Files → Files) (run : Files → Except IoError (α × Files)) :
    Script ε α := fun d =>
  match plan d.clock with
  | some fault => (.error (.inl .failed),⟨broken fault d.files,d.clock+1⟩)
  | none =>
    match run d.files with
    | .ok (a,files) => (.ok a,⟨files,d.clock+1⟩)
    | .error err => (.error (.inl err),⟨d.files,d.clock+1⟩)

def atomically (run : Files → Except IoError (α × Files)) : Script ε α :=
  attempt plan (fun _ fs => fs) run

variable (p : Path)

def readFile : Script ε Bytes := atomically plan (fun fs =>
  match fs.lookup p with
  | some (.file data) => .ok (data,fs)
  | some .dir => .error .isADirectory
  | none => .error .notFound)

def createDirAll : Script ε Unit :=
  attempt plan (fun fault fs => makeDirs (p.inits.take fault.written) fs) (fun fs =>
    if p.inits.any (isFile fs) then .error .notADirectory else .ok ((),makeDirs p.inits fs))

def copy (src dst : Path) : Script ε Unit := attempt plan (fun fault fs =>
    match fs.lookup src with
    | some (.file data) => fs.insert dst (.file (data.take fault.written))
    | _ => fs) (fun fs =>
    match fs.lookup src with
    | some (.file data) =>
      if isDir fs dst then .error .isADirectory else .ok ((),fs.insert dst (.file data))
    | some .dir => .error .isADirectory
    | none => .error .notFound)

/-- The path has been listed, so it is there; what is at the other one is replaced. -/
def rename (src dst : Path) : Script ε Unit :=
  atomically plan (fun fs => .ok ((),moveTree src dst fs))

def removeFile : Script ε Unit := atomically plan (fun fs => .ok ((),fs.erase p))

def removeDirAll : Script ε Unit := attempt plan (fun fault fs => retain fs (fun q node =>
    if p <+: q ∧ fault.removed q = true then none else some node)) (fun fs =>
    .ok ((),removeTree p fs))

def readDir : Script ε (List String) := atomically plan (fun fs =>
  match fs.lookup p with
  | some .dir => .ok (children fs p,fs)
  | some (.file _) => .error .notADirectory
  | none => .error .notFound)

def nextEntry : Script ε Unit := atomically plan (fun fs => .ok ((),fs))

end

section
variable {ε α : Type}

def cleaning (m : Script ε α) (clean : Script ε Unit) : Script ε α := fun d =>
  match m d with
  | (.ok a,d) => (.ok a,d)
  | (.error err,d) => (.error err,(clean d).2)

def ignoring (m : Script ε Unit) : Script ε Unit := fun d => (.ok (),(m d).2)

end

section
variable {ε α : Type} {plan : Plan} {P : Files → Prop}

abbrev On (P : Files → Prop) (d : Disk) : Prop := P d.files

variable {run : Files → Except IoError (α × Files)}

lemma stays_attempt {broken : Fault → Files → Files} (hbroken : ∀ fault fs, P fs → P (broken fault fs))
    (hrun : ∀ fs a fs', P fs → run fs = .ok (a,fs') → P fs') :
    Stays (On P) (attempt plan broken run : Script ε α) := by
  intro d hd
  rw [attempt]
  cases plan d.clock with
  | some fault => exact hbroken fault d.files hd
  | none =>
    cases h : run d.files with
    | error err => exact hd
    | ok r => exact hrun d.files r.1 r.2 hd h

lemma stays_atomically (hrun : ∀ fs a fs', P fs → run fs = .ok (a,fs') → P fs') :
    Stays (On P) (atomically plan run : Script ε α) :=
  stays_attempt (fun _ _ h => h) hrun

variable {m : Script ε α}

lemma stays_cleaning {clean : Script ε Unit} (hm : Stays (On P) m)
    (hclean : Stays (On P) clean) : Stays (On P) (cleaning m clean) := by
  intro d hd
  have h := hm d hd
  rw [cleaning]
  cases hmd : m d with
  | mk r d' =>
    rw [hmd] at h
    cases r with
    | ok a => exact h
    | error err =>
      have hc := hclean d' h
      dsimp only
      cases hcd : clean d' with
      | mk r' d'' =>
        rw [hcd] at hc
        cases r' with
        | ok | error => exact hc

lemma triple_cleaning {I : Disk → Prop} {Q : α → Disk → Prop}
    (h : Triple I m Q (fun _ => True)) (clean : Script ε Unit) :
    Triple I (cleaning m clean) Q (fun _ => True) := by
  intro d hd
  have hm := h d hd
  rw [cleaning]
  cases hmd : m d with
  | mk r d' =>
    rw [hmd] at hm
    cases r with
    | ok a => exact hm
    | error err => trivial

variable (Q : Path → Prop)

def Held (fs₀ fs : Files) : Prop := ∀ q, Q q → fs.lookup q = fs₀.lookup q

def Above (p : Path) : Prop := ∀ q, Q q → ¬p <+: q

/-- Those that a new directory needs are there. -/
def Grounded (fs₀ : Files) (p : Path) : Prop := ∀ q, Q q → q <+: p → (fs₀.lookup q).isSome

variable {Q : Path → Prop} {fs₀ : Files} {p : Path} {fs : Files}

lemma Held.makeDirs (h : Held Q fs₀ fs) (hground : Grounded Q fs₀ p)
    {ps : List Path} (hps : ∀ q ∈ ps, q <+: p) : Held Q fs₀ (makeDirs ps fs) := by
  intro q hq
  rw [lookup_makeDirs, h q hq]
  intro hmem
  rw [h q hq]
  exact hground q hq (hps q hmem)

lemma Held.insert (h : Held Q fs₀ fs) (habove : Above Q p) (node : Node) :
    Held Q fs₀ (fs.insert p node) := by
  intro q hq
  rw [lookup_insert_eq, if_neg, h q hq]
  rintro rfl
  exact habove q hq prefix_rfl

lemma stays_createDirAll (hground : Grounded Q fs₀ p) :
    Stays (On (Held Q fs₀)) (createDirAll plan p : Script ε Unit) := by
  refine stays_attempt (fun fault fs h => ?_) (fun fs a fs' h hrun => ?_)
  · refine h.makeDirs hground (fun q hq => ?_)
    exact (mem_inits _ _).mp (mem_of_mem_take hq)
  · split at hrun
    · cases hrun
    · cases hrun
      exact h.makeDirs hground (fun q hq => (mem_inits _ _).mp hq)

lemma triple_createDirAll : Triple (fun _ => True) (createDirAll plan p : Script ε Unit)
    (fun _ d => d.files.lookup p = some .dir) (fun _ => True) := by
  intro d _
  cases h : (createDirAll plan p : Script ε Unit) d with
  | mk r d' =>
  cases r with
  | error err => exact trivial
  | ok u =>
  show d'.files.lookup p = some .dir
  rw [createDirAll, attempt] at h
  cases hplan : plan d.clock with
  | some fault =>
    rw [hplan] at h
    cases h
  | none =>
    rw [hplan] at h
    by_cases hfile : p.inits.any (isFile d.files) = true
    · rw [if_pos hfile] at h
      cases h
    rw [if_neg hfile] at h
    cases h
    have hself : p ∈ p.inits := (mem_inits _ _).mpr prefix_rfl
    cases hp : d.files.lookup p with
    | none => exact lookup_makeDirs_new hself hp
    | some node =>
      cases node with
      | dir =>
        show (makeDirs p.inits d.files).lookup p = some .dir
        rw [lookup_makeDirs _ _ _ (fun _ => by rw [hp]; rfl), hp]
      | file data =>
        refine absurd (any_eq_true.mpr ⟨p,hself,?_⟩) hfile
        rw [isFile, hp]

variable {src dst : Path}

lemma stays_copy (h : Above Q dst) :
    Stays (On (Held Q fs₀)) (copy plan src dst : Script ε Unit) := by
  refine stays_attempt (fun fault fs hfs => ?_) (fun fs a fs' hfs hrun => ?_)
  · split
    · exact hfs.insert h _
    · exact hfs
  split at hrun
  · split at hrun
    · cases hrun
    · cases hrun
      exact hfs.insert h _
  · cases hrun
  · cases hrun

lemma stays_rename (hsrc : Above Q src) (hdst : Above Q dst) :
    Stays (On (Held Q fs₀)) (rename plan src dst : Script ε Unit) := by
  refine stays_atomically (fun fs a fs' hfs hrun => ?_)
  cases hrun
  intro q hq
  rw [lookup_moveTree src dst q fs (hsrc q hq) (hdst q hq)]
  exact hfs q hq

lemma stays_removeDirAll (h : Above Q p) :
    Stays (On (Held Q fs₀)) (removeDirAll plan p : Script ε Unit) := by
  refine stays_attempt (fun fault fs hfs q hq => ?_) (fun fs a fs' hfs hrun q hq => ?_)
  · rw [lookup_retain, hfs q hq]
    cases fs₀.lookup q with
    | none => rfl
    | some node => exact if_neg (fun hp => h q hq hp.1)
  · cases hrun
    rw [lookup_removeTree p q fs (h q hq), hfs q hq]

lemma stays_read (h : ∀ fs a fs', run fs = .ok (a,fs') → fs' = fs) :
    Stays (On P) (atomically plan run : Script ε α) := by
  refine stays_atomically (fun fs a fs' hfs hrun => ?_)
  rw [h fs a fs' hrun]
  exact hfs

lemma stays_readFile : Stays (On P) (readFile plan p : Script ε Bytes) := by
  refine stays_read (fun fs a fs' hrun => ?_)
  split at hrun
  · cases hrun
    rfl
  · cases hrun
  · cases hrun

lemma stays_readDir : Stays (On P) (readDir plan p : Script ε (List String)) := by
  refine stays_read (fun fs a fs' hrun => ?_)
  split at hrun
  · cases hrun
    rfl
  · cases hrun
  · cases hrun

lemma stays_nextEntry : Stays (On P) (nextEntry plan : Script ε Unit) :=
  stays_read (fun fs a fs' hrun => by cases hrun; rfl)

end

section
variable {ε α β : Type}

def Faithful (m : Plan → Script ε α) : Prop :=
  ∀ plan d a d', m plan d = (.ok a,d') → m (fun _ => none) d = (.ok a,d')

lemma faithful_const (m : Script ε α) : Faithful (fun _ => m) := fun _ _ _ _ h => h

lemma faithful_attempt (broken : Fault → Files → Files) (run : Files → Except IoError (α × Files)) :
    Faithful (fun plan => (attempt plan broken run : Script ε α)) := by
  intro plan d a d' h
  dsimp only at h ⊢
  rw [attempt] at h ⊢
  cases hplan : plan d.clock with
  | some fault =>
    rw [hplan] at h
    cases h
  | none =>
    rw [hplan] at h
    exact h

lemma faithful_atomically (run : Files → Except IoError (α × Files)) :
    Faithful (fun plan => (atomically plan run : Script ε α)) :=
  faithful_attempt _ _

variable {m : Plan → Script ε α}

lemma Faithful.bind {f : α → Plan → Script ε β} (hm : Faithful m)
    (hf : ∀ a, Faithful (f a)) : Faithful (fun plan => m plan >>= fun a => f a plan) := by
  intro plan d b d' h
  change (m plan >>= fun a => f a plan) d = (.ok b,d') at h
  obtain ⟨err,d₁,herr⟩ | ⟨a,d₁,hok⟩ := fails_or (m plan) d
  · rw [bind_error herr] at h
    cases h
  · rw [bind_ok hok] at h
    exact (bind_ok (hm plan d a d₁ hok)).trans (hf a plan d₁ b d' h)

lemma Faithful.loop {body : β → α → Plan → Script ε β} (h : ∀ b a, Faithful (body b a))
    (b : β) (as : List α) : Faithful (fun plan => loop (fun b a => body b a plan) b as) := by
  induction as generalizing b with
  | nil => exact faithful_const _
  | cons a as ih => exact (h b a).bind ih

lemma Faithful.cleaning (clean : Plan → Script ε Unit)
    (hm : Faithful m) : Faithful (fun plan => cleaning (m plan) (clean plan)) := by
  intro plan d a d' h
  dsimp only at h ⊢
  rw [FileTree.cleaning] at h ⊢
  obtain ⟨err,d₁,herr⟩ | ⟨a',d₁,hok⟩ := fails_or (m plan) d
  · rw [herr] at h
    cases h
  · rw [hok] at h
    rw [hm plan d a' d₁ hok]
    exact h

end

section
variable {ε α : Type} {plan : Plan} {P : Files → Prop}

def Clear (plan : Plan) (P : Files → Prop) (d : Disk) : Prop :=
  (∀ k, d.clock ≤ k → plan k = none) ∧ P d.files

def Finishes (plan : Plan) (P : Files → Prop) (m : Script ε α) : Prop :=
  Triple (Clear plan P) m (fun _ => Clear plan P) (fun _ => False)

variable {run : Files → Except IoError (α × Files)} {broken : Fault → Files → Files}

lemma finishes_attempt (h : ∀ fs, P fs → ∃ a fs', run fs = .ok (a,fs') ∧ P fs') :
    Finishes plan P (attempt plan broken run : Script ε α) := by
  rintro d ⟨hclear,hd⟩
  obtain ⟨a,fs',hrun,hP⟩ := h d.files hd
  rw [attempt, hclear d.clock le_rfl]
  rw [hrun]
  exact ⟨fun k hk => hclear k (Nat.le_of_succ_le hk),hP⟩

lemma finishes_atomically (h : ∀ fs, P fs → ∃ a fs', run fs = .ok (a,fs') ∧ P fs') :
    Finishes plan P (atomically plan run : Script ε α) :=
  finishes_attempt h

lemma triple_attempt {fs₀ : Files} {n : ℕ} {Q : α → Disk → Prop} {F : Disk → Prop}
    (hbroken : ∀ fault, plan n = some fault → F ⟨broken fault fs₀,n+1⟩)
    (hrefused : F ⟨fs₀,n+1⟩) (hrun : ∀ a fs', run fs₀ = .ok (a,fs') → Q a ⟨fs',n+1⟩) :
    Triple (· = ⟨fs₀,n⟩) (attempt plan broken run : Script ε α) Q F := by
  rintro d rfl
  rw [attempt]
  cases hplan : plan n with
  | some fault => exact hbroken fault hplan
  | none =>
    cases h : run fs₀ with
    | error err => exact hrefused
    | ok r => exact hrun r.1 r.2 h

lemma finishes_get (f : Disk → α) : Finishes plan P (get f : Script ε α) :=
  triple_get f (fun _ h => h)

lemma Finishes.bind {β : Type} {m : Script ε α} {f : α → Script ε β} (hm : Finishes plan P m)
    (hf : ∀ a, Finishes plan P (f a)) : Finishes plan P (m >>= f) :=
  triple_bind hm hf

lemma finishes_loop {body : α → Script ε Unit} (h : ∀ a, Finishes plan P (body a))
    (as : List α) : Finishes plan P (loop (fun _ => body) () as) :=
  triple_loop (I := fun _ => Clear plan P) as (fun a _ _ => h a) ()

end

end ByteDB.FileTree
