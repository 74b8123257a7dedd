import ByteDB.Assoc
import ByteDB.Runs

/-!
# The buffer pool

A fixed number of frames hold pages of the disk. A fetch pins the frame of its
page and gives out a guard; the guard changes the page in the frame, and marks
the frame as dirty when it is dropped. A page that is not in the pool is read
from the disk without the lock of the pool, and takes a free frame or the frame
of a page that nobody has pinned. Calls are cut into their sections with the lock
of the pool and their single reads and writes of a page of the disk.
-/

set_option autoImplicit false

namespace ByteDB.BufferPool
open ByteDB.Assoc

variable {P ι : Type}

def lruK : ℕ := 2

def invalidPageId : ℕ := 0

structure Frame (P : Type) where
  page : P
  pageId : ℕ
  pinCount : ℕ
  dirty : Bool
  accessHistory : List ℕ
  accessCount : ℕ

def Frame.empty (blank : P) : Frame P where
  page := blank
  pageId := invalidPageId
  pinCount := 0
  dirty := false
  accessHistory := List.replicate lruK 0
  accessCount := 0

def Frame.recordAccess (f : Frame P) (ts : ℕ) : Frame P :=
  if f.accessCount < lruK then
    { f with
      accessHistory := f.accessHistory.set f.accessCount ts
      accessCount := f.accessCount+1 }
  else { f with accessHistory := f.accessHistory.tail++[ts] }

def Frame.kthOldest (f : Frame P) : ℕ :=
  if f.accessCount < lruK then 0 else f.accessHistory.headD 0

/-- The part of the pool that its lock protects. The end of the vector of free
frames is the head of the list. -/
structure Inner (P : Type) where
  frames : ℕ → Frame P
  numFrames : ℕ
  pageTable : Map ℕ ℕ
  freeFrames : List ℕ
  clock : ℕ

def Inner.new (blank : P) (numFrames : ℕ) : Inner P where
  frames := fun _ => .empty blank
  numFrames := numFrames
  pageTable := ∅
  freeFrames := List.range numFrames
  clock := 0

section
variable (g : Inner P)

def Inner.setFrame (idx : ℕ) (f : Frame P) : Inner P :=
  { g with frames := Function.update g.frames idx f }

/-- One round of the loop of `pick_victim`. -/
def Inner.better (best : Option (ℕ × ℕ × ℕ)) (i : ℕ) : Option (ℕ × ℕ × ℕ) :=
  let f := g.frames i
  if 0 < f.pinCount ∨ f.pageId = invalidPageId then best
  else
    match best with
    | none => some (i,f.kthOldest,f.accessCount)
    | some (j,kth,count) =>
      if f.accessCount < count ∨ (f.accessCount = count ∧ f.kthOldest < kth) then
        some (i,f.kthOldest,f.accessCount)
      else some (j,kth,count)

def Inner.pickVictim : Option ℕ := ((List.range g.numFrames).foldl g.better none).map (·.1)

def Inner.pin (idx : ℕ) : Inner P :=
  let f := g.frames idx
  { g.setFrame idx (Frame.recordAccess { f with pinCount := f.pinCount+1 } (g.clock+1)) with
    clock := g.clock+1 }

/-- `evict_locked`, after the page has been written. -/
def Inner.evictFrame (idx : ℕ) : Inner P :=
  let f := g.frames idx
  { g.setFrame idx { f with
      pageId := invalidPageId
      dirty := false
      pinCount := 0
      accessCount := 0 } with
    pageTable := g.pageTable.erase f.pageId }

/-- The end of `fetch_page` after a miss. -/
def Inner.installPage (idx pageId : ℕ) (page : P) : Inner P := { g.setFrame idx (Frame.recordAccess
      { page := page
        pageId := pageId
        pinCount := 1
        dirty := false
        accessHistory := List.replicate lruK 0
        accessCount := 0 } (g.clock+1)) with
    pageTable := g.pageTable.insert pageId idx
    clock := g.clock+1 }

def Inner.unpin (idx pageId : ℕ) (dirty : Bool) : Inner P :=
  let f := g.frames idx
  if f.pageId = pageId ∧ 0 < f.pinCount then
    g.setFrame idx { f with pinCount := f.pinCount-1, dirty := dirty || f.dirty }
  else g

def Inner.dirties : List (ℕ × P) := (((List.range g.numFrames).map g.frames).filter
    (fun f => f.dirty && f.pageId != invalidPageId)).map (fun f => (f.pageId,f.page))

/-- The last section of `flush_all`. -/
def Inner.clean : Inner P := { g with frames := fun i =>
      let f := g.frames i
      if f.pageId ≠ invalidPageId then { f with dirty := false } else f }

end

section
variable (g : Inner P)

@[simp] lemma setFrame_self (i : ℕ) (f : Frame P) : (g.setFrame i f).frames i = f :=
  Function.update_self ..

lemma setFrame_ne {i j : ℕ} (f : Frame P) (h : j ≠ i) : (g.setFrame i f).frames j = g.frames j :=
  Function.update_of_ne h ..

lemma setFrame_field {α : Type} (get : Frame P → α) {i : ℕ} {f : Frame P}
    (hf : get f = get (g.frames i)) (j : ℕ) :
    get ((g.setFrame i f).frames j) = get (g.frames j) := by
  by_cases hj : j = i
  · subst hj
    rw [setFrame_self, hf]
  · rw [setFrame_ne g f hj]

lemma recordAccess_field {α : Type} (get : Frame P → α)
    (hget : ∀ (f : Frame P) (history : List ℕ) (count : ℕ),
      get { f with accessHistory := history, accessCount := count } = get f)
    (f : Frame P) (ts : ℕ) : get (f.recordAccess ts) = get f := by
  rw [Frame.recordAccess]
  split
  · exact hget f _ _
  · exact hget f _ f.accessCount

lemma pin_field {α : Type} (get : Frame P → α)
    (hget : ∀ (f : Frame P) (n : ℕ) (history : List ℕ) (count : ℕ),
      get { f with pinCount := n, accessHistory := history, accessCount := count } = get f)
    (idx i : ℕ) : get ((g.pin idx).frames i) = get (g.frames i) :=
  setFrame_field g get ((recordAccess_field get
    (fun f history count => hget f f.pinCount history count) _ _).trans (hget _ _ _ _)) i

@[simp] lemma pin_pageId (idx i : ℕ) : ((g.pin idx).frames i).pageId = (g.frames i).pageId :=
  pin_field g Frame.pageId (fun _ _ _ _ => rfl) idx i

@[simp] lemma pin_page (idx i : ℕ) : ((g.pin idx).frames i).page = (g.frames i).page :=
  pin_field g Frame.page (fun _ _ _ _ => rfl) idx i

@[simp] lemma pin_dirty (idx i : ℕ) : ((g.pin idx).frames i).dirty = (g.frames i).dirty :=
  pin_field g Frame.dirty (fun _ _ _ _ => rfl) idx i

lemma pin_pinCount (idx i : ℕ) : ((g.pin idx).frames i).pinCount =
    if i = idx then (g.frames i).pinCount+1 else (g.frames i).pinCount := by
  show ((g.setFrame idx _).frames i).pinCount = _
  split
  · rename_i hi
    subst hi
    rw [setFrame_self]
    exact recordAccess_field Frame.pinCount (fun _ _ _ => rfl) _ _
  · rename_i hi
    rw [setFrame_ne g _ hi]

lemma evictFrame_ne {idx i : ℕ} (h : i ≠ idx) : (g.evictFrame idx).frames i = g.frames i :=
  setFrame_ne g _ h

@[simp] lemma evictFrame_pageId (idx : ℕ) :
    ((g.evictFrame idx).frames idx).pageId = invalidPageId := by
  show ((g.setFrame idx _).frames idx).pageId = _
  rw [setFrame_self]

@[simp] lemma evictFrame_pinCount (idx : ℕ) : ((g.evictFrame idx).frames idx).pinCount = 0 := by
  show ((g.setFrame idx _).frames idx).pinCount = _
  rw [setFrame_self]

lemma lookup_evictFrame (idx pageId : ℕ) : (g.evictFrame idx).pageTable.lookup pageId =
    if pageId = (g.frames idx).pageId then none else g.pageTable.lookup pageId :=
  lookup_erase_eq _ _ _

lemma installPage_ne {idx i : ℕ} (pageId : ℕ) (page : P) (h : i ≠ idx) :
    (g.installPage idx pageId page).frames i = g.frames i :=
  setFrame_ne g _ h

lemma installPage_field {α : Type} (get : Frame P → α)
    (hget : ∀ (f : Frame P) (history : List ℕ) (count : ℕ),
      get { f with accessHistory := history, accessCount := count } = get f)
    (idx pageId : ℕ) (page : P) : get ((g.installPage idx pageId page).frames idx) =
      get ⟨page,pageId,1,false,List.replicate lruK 0,0⟩ := by
  show get ((g.setFrame idx _).frames idx) = _
  rw [setFrame_self]
  exact recordAccess_field get hget _ _

section
variable (idx pageId : ℕ) (page : P)

@[simp] lemma installPage_pageId : ((g.installPage idx pageId page).frames idx).pageId = pageId :=
  installPage_field g Frame.pageId (fun _ _ _ => rfl) idx pageId page

@[simp] lemma installPage_pinCount : ((g.installPage idx pageId page).frames idx).pinCount = 1 :=
  installPage_field g Frame.pinCount (fun _ _ _ => rfl) idx pageId page

@[simp] lemma installPage_page : ((g.installPage idx pageId page).frames idx).page = page :=
  installPage_field g Frame.page (fun _ _ _ => rfl) idx pageId page

lemma lookup_installPage (id : ℕ) : (g.installPage idx pageId page).pageTable.lookup id =
      if id = pageId then some idx else g.pageTable.lookup id :=
  lookup_insert_eq _ _ _ _

end

lemma clean_field {α : Type} (get : Frame P → α)
    (hget : ∀ f : Frame P, get { f with dirty := false } = get f) (i : ℕ) :
    get (g.clean.frames i) = get (g.frames i) := by
  show get (if _ then _ else _) = _
  split
  · exact hget _
  · rfl

end

inductive Call (P : Type) where
  | idle
  | missed (pageId : ℕ)
  | loaded (pageId : ℕ) (page : P)
  | guard (idx pageId : ℕ) (dirtied : Bool)
  | writing (copies : List (ℕ × P))

structure State (P ι : Type) where
  inner : Inner P
  disk : ℕ → P
  call : ι → Call P
  /-- Each page with every update that a guard has made to it. -/
  truth : ℕ → P

def opened (blank : P) (numFrames : ℕ) (disk : ℕ → P) : State P ι where
  inner := .new blank (max numFrames 2)
  disk := disk
  call := fun _ => .idle
  truth := disk

inductive Action (P ι : Type) where
  /-- The first section of `fetch_page`. -/
  | fetchPage (who : ι) (pageId : ℕ)
  | readPage (who : ι) (fails : Bool)
  /-- The second section, in which the write of an evicted page may fail. -/
  | install (who : ι) (fails : Bool)
  | pageMut (who : ι) (f : P → P)
  | drop (who : ι)
  | flushPage (pageId : ℕ) (fails : Bool)
  /-- The sections of `flush_all`, with one write for each copy. -/
  | flushAll (who : ι)
  | writePage (who : ι) (fails : Bool)
  | clearDirty (who : ι)

section
variable [DecidableEq ι] (s : State P ι)

def State.go (who : ι) (c : Call P) : State P ι := { s with call := Function.update s.call who c }

/-- The page is in the pool: pin its frame and return a guard. -/
def State.hit (who : ι) (idx pageId : ℕ) : State P ι :=
  { s.go who (.guard idx pageId false) with inner := s.inner.pin idx }

def State.writeDisk (pageId : ℕ) (page : P) : State P ι :=
  { s with disk := Function.update s.disk pageId page }

/-- `evict_locked`; there is no result when the write fails. -/
def State.evictLocked (idx : ℕ) (fails : Bool) : Option (State P ι) :=
  let f := s.inner.frames idx
  if f.pageId = invalidPageId then some s
  else if f.dirty then
    if fails then none
    else some { s.writeDisk f.pageId f.page with inner := s.inner.evictFrame idx }
  else some { s with inner := s.inner.evictFrame idx }

def State.takeFrame (fails : Bool) : Option (State P ι × ℕ) :=
  match s.inner.freeFrames with
  | idx::rest => some ({ s with inner := { s.inner with freeFrames := rest } },idx)
  | [] => do
    let victim ← s.inner.pickVictim
    let s ← s.evictLocked victim fails
    return (s,victim)

def step : Action P ι → Option (State P ι)
  | .fetchPage who pageId =>
    match s.call who with
    | .idle =>
      if pageId = invalidPageId then some s
      else
        match s.inner.pageTable.lookup pageId with
        | some idx => some (s.hit who idx pageId)
        | none => some (s.go who (.missed pageId))
    | _ => none
  | .readPage who fails =>
    match s.call who with
    | .missed pageId =>
      some (s.go who (if fails then .idle else .loaded pageId (s.disk pageId)))
    | _ => none
  | .install who fails =>
    match s.call who with
    | .loaded pageId page =>
      match s.inner.pageTable.lookup pageId with
      | some idx => some (s.hit who idx pageId)
      | none =>
        match s.takeFrame fails with
        | none => some (s.go who .idle)
        | some (s,idx) =>
          some { s.go who (.guard idx pageId false) with
            inner := s.inner.installPage idx pageId page }
    | _ => none
  | .pageMut who f =>
    match s.call who with
    | .guard idx pageId _ =>
      let frame := s.inner.frames idx
      some { s.go who (.guard idx pageId true) with
        inner := s.inner.setFrame idx { frame with page := f frame.page }
        truth := Function.update s.truth pageId (f (s.truth pageId)) }
    | _ => none
  | .drop who =>
    match s.call who with
    | .guard idx pageId dirtied =>
      some { s.go who .idle with inner := s.inner.unpin idx pageId dirtied }
    | _ => none
  | .flushPage pageId fails =>
    match s.inner.pageTable.lookup pageId with
    | some idx =>
      let frame := s.inner.frames idx
      if frame.dirty && !fails then
        some { s.writeDisk pageId frame.page with
          inner := s.inner.setFrame idx { frame with dirty := false } }
      else some s
    | none => some s
  | .flushAll who =>
    match s.call who with
    | .idle => some (s.go who (.writing s.inner.dirties))
    | _ => none
  | .writePage who fails =>
    match s.call who with
    | .writing ((pageId,page)::copies) =>
      if fails then some (s.go who .idle)
      else some ((s.writeDisk pageId page).go who (.writing copies))
    | _ => none
  | .clearDirty who =>
    match s.call who with
    | .writing [] => some { s.go who .idle with inner := s.inner.clean }
    | _ => none

end

/-! The page table, the pins and the free frames agree in every run. A page in the
pool holds every update, and the disk does too once nothing marks the frame as
changed, as long as no image goes into the pool or onto the disk that is older than
what is there, and no mark is removed from a page that is not on the disk. -/

open Function

variable [DecidableEq ι] {c : Call P} {i : ℕ} {s s' : State P ι} {a : Action P ι}
  {s₁ : State P ι} {fails : Bool} {idx : ℕ}

def Call.held : Call P → Option ℕ
  | .guard idx _ _ => some idx
  | _ => none

def Call.changed : Call P → Option ℕ
  | .guard idx _ true => some idx
  | _ => none

def Call.target : Call P → Option ℕ
  | .missed pageId | .loaded pageId _ => some pageId
  | _ => none

lemma changed_of_held (h : c.held = none) : c.changed = none := by
  cases c with
  | guard => cases h
  | _ => rfl

lemma held_of_changed (h : c.changed = some i) : c.held = some i := by
  cases c with
  | guard idx pageId dirtied =>
    cases dirtied with
    | true => exact h
    | false => cases h
  | _ => cases h

def State.evicted (s : State P ι) (idx : ℕ) : State P ι :=
  let f := s.inner.frames idx
  { s with
    inner := s.inner.evictFrame idx
    disk := if f.dirty then Function.update s.disk f.pageId f.page else s.disk }

inductive Step (s : State P ι) : Action P ι → State P ι → Prop where
  | stay {a : Action P ι} : Step s a s
  | move {a : Action P ι} {who : ι} {c : Call P} (hold : (s.call who).held = none)
      (hnew : c.held = none) (hasked : ∀ pageId, c.target = some pageId →
        pageId ≠ invalidPageId ∨ (s.call who).target = some pageId) : Step s a (s.go who c)
  | hit {a : Action P ι} {who : ι} {idx pageId : ℕ} (hold : (s.call who).held = none)
      (hfound : s.inner.pageTable.lookup pageId = some idx) : Step s a (s.hit who idx pageId)
  | install {who : ι} {fails : Bool} {pageId idx : ℕ} {page : P} {s₁ : State P ι}
      (hcall : s.call who = .loaded pageId page) (hmiss : s.inner.pageTable.lookup pageId = none)
      (htake : s.takeFrame fails = some (s₁,idx)) :
      Step s (.install who fails) { s₁.go who (.guard idx pageId false) with
        inner := s₁.inner.installPage idx pageId page }
  | pageMut {who : ι} {f : P → P} {idx pageId : ℕ} {dirtied : Bool}
      (hcall : s.call who = .guard idx pageId dirtied) :
      Step s (.pageMut who f) { s.go who (.guard idx pageId true) with
        inner := s.inner.setFrame idx
          { s.inner.frames idx with page := f (s.inner.frames idx).page }
        truth := Function.update s.truth pageId (f (s.truth pageId)) }
  | drop {who : ι} {idx pageId : ℕ} {dirtied : Bool}
      (hcall : s.call who = .guard idx pageId dirtied) :
      Step s (.drop who) { s.go who .idle with inner := s.inner.unpin idx pageId dirtied }
  | flushPage {pageId idx : ℕ} {fails : Bool}
      (hfound : s.inner.pageTable.lookup pageId = some idx) :
      Step s (.flushPage pageId fails) { s.writeDisk pageId (s.inner.frames idx).page with
        inner := s.inner.setFrame idx { s.inner.frames idx with dirty := false } }
  | writePage {who : ι} {fails : Bool} {pageId : ℕ} {page : P} {copies : List (ℕ × P)}
      (hcall : s.call who = .writing ((pageId,page)::copies)) :
      Step s (.writePage who fails) ((s.writeDisk pageId page).go who (.writing copies))
  | clearDirty {who : ι} (hcall : s.call who = .writing []) :
      Step s (.clearDirty who) { s.go who .idle with inner := s.inner.clean }

lemma step_cases (h : step s a = some s') : Step s a s' := by
  revert h
  fun_cases step s a with
  | case1 | case16 | case17 =>
    rintro ⟨⟩
    exact .stay
  | case2 who pageId hcall _ idx hfound =>
    rintro ⟨⟩
    exact .hit (congrArg Call.held hcall) hfound
  | case3 who pageId hcall hvalid =>
    rintro ⟨⟩
    refine .move (congrArg Call.held hcall) rfl (fun id hid => .inl ?_)
    cases hid
    exact hvalid
  | case5 who fails pageId hcall =>
    rintro ⟨⟩
    have hold : (s.call who).held = none := congrArg Call.held hcall
    have hasked : (s.call who).target = some pageId := congrArg Call.target hcall
    cases fails with
    | true => exact .move hold rfl nofun
    | false => exact .move hold rfl (fun id hid => .inr (hasked.trans hid))
  | case7 who fails pageId page hcall idx hfound =>
    rintro ⟨⟩
    exact .hit (congrArg Call.held hcall) hfound
  | case8 who fails pageId page hcall =>
    rintro ⟨⟩
    exact .move (congrArg Call.held hcall) rfl nofun
  | case9 who fails pageId page hcall hmiss s₁ idx htake =>
    rintro ⟨⟩
    exact .install hcall hmiss htake
  | case11 who f idx pageId dirtied hcall =>
    rintro ⟨⟩
    exact .pageMut hcall
  | case13 who idx pageId dirtied hcall =>
    rintro ⟨⟩
    exact .drop hcall
  | case15 pageId fails idx hfound =>
    rintro ⟨⟩
    exact .flushPage hfound
  | case18 who hcall =>
    rintro ⟨⟩
    exact .move (congrArg Call.held hcall) rfl nofun
  | case20 who pageId page copies hcall =>
    rintro ⟨⟩
    exact .move (congrArg Call.held hcall) rfl nofun
  | case21 who fails pageId page copies hcall =>
    rintro ⟨⟩
    exact .writePage hcall
  | case23 who hcall =>
    rintro ⟨⟩
    exact .clearDirty hcall
  | _ => nofun

omit [DecidableEq ι] in
lemma pickVictim_spec {g : Inner P} (h : g.pickVictim = some i) :
    (g.frames i).pinCount = 0 ∧ (g.frames i).pageId ≠ invalidPageId := by
  have hloop : ∀ (is : List ℕ) (best : Option (ℕ × ℕ × ℕ)), (∀ b, best = some b →
        (g.frames b.1).pinCount = 0 ∧ (g.frames b.1).pageId ≠ invalidPageId) →
      ∀ b, is.foldl g.better best = some b →
        (g.frames b.1).pinCount = 0 ∧ (g.frames b.1).pageId ≠ invalidPageId := by
    intro is
    induction is with
    | nil => exact fun best hbest => hbest
    | cons i is ih =>
      intro best hbest
      refine ih _ (fun b hb => ?_)
      rw [Inner.better.eq_def] at hb
      dsimp only at hb
      split at hb
      · exact hbest b hb
      rename_i hi
      have hi : (g.frames i).pinCount = 0 ∧ (g.frames i).pageId ≠ invalidPageId :=
        ⟨by omega,fun h => hi (.inr h)⟩
      split at hb
      · cases hb
        exact hi
      · split at hb
        · cases hb
          exact hi
        · exact hbest b hb
  obtain ⟨b,hb,rfl⟩ := Option.map_eq_some_iff.mp h
  exact hloop _ none nofun b hb

omit [DecidableEq ι] in
lemma takeFrame_cases (h : s.takeFrame fails = some (s₁,idx)) :
    (∃ rest, s.inner.freeFrames = idx::rest ∧
      s₁ = { s with inner := { s.inner with freeFrames := rest } }) ∨
    (s.inner.freeFrames = [] ∧ (s.inner.frames idx).pinCount = 0 ∧
      (s.inner.frames idx).pageId ≠ invalidPageId ∧ s₁ = s.evicted idx) := by
  rw [State.takeFrame] at h
  split at h
  · rename_i i rest hfree
    cases h
    exact .inl ⟨rest,hfree,rfl⟩
  rename_i hfree
  obtain ⟨victim,hvictim,h⟩ := Option.bind_eq_some_iff.mp h
  obtain ⟨s₂,hevict,h⟩ := Option.bind_eq_some_iff.mp h
  cases h
  obtain ⟨hpin,hid⟩ := pickVictim_spec hvictim
  refine .inr ⟨hfree,hpin,hid,?_⟩
  rw [State.evictLocked] at hevict
  rw [if_neg hid] at hevict
  rw [State.evicted]
  split at hevict
  · rename_i hdirty
    split at hevict
    · cases hevict
    · cases hevict
      rw [if_pos hdirty]
      rfl
  · rename_i hdirty
    cases hevict
    rw [if_neg hdirty]

variable {call : ι → Call P} {who : ι}

section

def Pinned (call : ι → Call P) (i n : ℕ) : Prop :=
  ∃ S : Finset ι, (∀ who, who ∈ S ↔ (call who).held = some i) ∧ n = S.card

omit [DecidableEq ι] in
lemma Pinned.none (h : ∀ who, (call who).held ≠ some i) : Pinned call i 0 :=
  ⟨∅,fun who => ⟨nofun,fun hwho => absurd hwho (h who)⟩,rfl⟩

omit [DecidableEq ι] in
lemma Pinned.unheld (h : Pinned call i 0) (who : ι) : (call who).held ≠ some i := by
  obtain ⟨S,hS,hcard⟩ := h
  intro hwho
  have hmem := (hS who).mpr hwho
  rw [Finset.card_eq_zero.mp hcard.symm] at hmem
  cases hmem

variable {n : ℕ}

lemma Pinned.same (h : Pinned call i n)
    (hc : c.held = some i ↔ (call who).held = some i) : Pinned (update call who c) i n := by
  obtain ⟨S,hS,hcard⟩ := h
  refine ⟨S,fun w => ?_,hcard⟩
  by_cases hw : w = who
  · subst hw
    rw [update_self, hc]
    exact hS w
  · rw [update_of_ne hw]
    exact hS w

lemma Pinned.add (h : Pinned call i n) (hold : (call who).held ≠ some i) (hnew : c.held = some i) :
    Pinned (update call who c) i (n+1) := by
  obtain ⟨S,hS,hcard⟩ := h
  have hnot : who ∉ S := fun hmem => hold ((hS who).mp hmem)
  refine ⟨insert who S,fun w => ?_,?_⟩
  · by_cases hw : w = who
    · subst hw
      simp [hnew]
    · rw [update_of_ne hw, Finset.mem_insert, ← hS w]
      simp [hw]
  · rw [Finset.card_insert_of_notMem hnot, hcard]

lemma Pinned.remove (h : Pinned call i n)
    (hold : (call who).held = some i) (hnew : c.held ≠ some i) :
    0 < n ∧ Pinned (update call who c) i (n-1) := by
  obtain ⟨S,hS,rfl⟩ := h
  have hmem : who ∈ S := (hS who).mpr hold
  refine ⟨Finset.card_pos.mpr ⟨who,hmem⟩,S.erase who,fun w => ?_,?_⟩
  · by_cases hw : w = who
    · subst hw
      simp [hnew]
    · rw [update_of_ne hw, Finset.mem_erase, ← hS w]
      simp [hw]
  · rw [Finset.card_erase_of_mem hmem]

end

variable {inner : Inner P} {disk truth : ℕ → P} {pageId : ℕ} {dirtied : Bool} {page : P}

structure Seated (s : State P ι) : Prop where
  table : ∀ pageId i, s.inner.pageTable.lookup pageId = some i →
    (s.inner.frames i).pageId = pageId ∧ pageId ≠ invalidPageId
  owner : ∀ i, (s.inner.frames i).pageId ≠ invalidPageId →
    s.inner.pageTable.lookup (s.inner.frames i).pageId = some i
  free : ∀ i ∈ s.inner.freeFrames, (s.inner.frames i).pageId = invalidPageId
  nodup : s.inner.freeFrames.Nodup
  asked : ∀ who pageId, (s.call who).target = some pageId → pageId ≠ invalidPageId
  guards : ∀ who i pageId dirtied, s.call who = .guard i pageId dirtied →
    s.inner.pageTable.lookup pageId = some i
  pins : ∀ i, Pinned s.call i (s.inner.frames i).pinCount

omit [DecidableEq ι] in
lemma Seated.unheld (h : Seated s)
    (hi : (s.inner.frames i).pageId = invalidPageId) (who : ι) : (s.call who).held ≠ some i := by
  intro hheld
  cases hcall : s.call who with
  | guard idx pageId dirtied =>
    rw [hcall] at hheld
    cases hheld
    obtain ⟨hid,hvalid⟩ := h.table pageId i (h.guards who i pageId dirtied hcall)
    exact hvalid (hid.symm.trans hi)
  | _ =>
    rw [hcall] at hheld
    cases hheld

omit [DecidableEq ι] in
lemma Seated.refit (h : Seated s) (htable : inner.pageTable = s.inner.pageTable)
    (hfree : inner.freeFrames = s.inner.freeFrames)
    (hid : ∀ i, (inner.frames i).pageId = (s.inner.frames i).pageId)
    (hasked : ∀ who pageId, (call who).target = some pageId → pageId ≠ invalidPageId)
    (hguards : ∀ who i pageId dirtied, call who = .guard i pageId dirtied →
      s.inner.pageTable.lookup pageId = some i)
    (hpins : ∀ i, Pinned call i (inner.frames i).pinCount) :
    Seated ⟨inner,disk,call,truth⟩ where
  table pageId i hfound := by
    rw [htable] at hfound
    rw [hid]
    exact h.table pageId i hfound
  owner i hi := by
    rw [hid] at hi ⊢
    rw [htable]
    exact h.owner i hi
  free i hi := by
    rw [hfree] at hi
    exact (hid i).trans (h.free i hi)
  nodup := by
    rw [hfree]
    exact h.nodup
  asked := hasked
  guards who i pageId dirtied hcall := by
    rw [htable]
    exact hguards who i pageId dirtied hcall
  pins := hpins

omit [DecidableEq ι] in
lemma Seated.repaint (h : Seated s) (htable : inner.pageTable = s.inner.pageTable)
    (hfree : inner.freeFrames = s.inner.freeFrames)
    (hid : ∀ i, (inner.frames i).pageId = (s.inner.frames i).pageId)
    (hpin : ∀ i, (inner.frames i).pinCount = (s.inner.frames i).pinCount)
    (hasked : ∀ who pageId, (call who).target = some pageId → pageId ≠ invalidPageId)
    (hguards : ∀ who i pageId dirtied, call who = .guard i pageId dirtied →
      s.inner.pageTable.lookup pageId = some i)
    (hheld : ∀ who, (call who).held = (s.call who).held) :
    Seated ⟨inner,disk,call,truth⟩ := by
  refine h.refit htable hfree hid hasked hguards (fun i => ?_)
  obtain ⟨S,hS,hcard⟩ := h.pins i
  refine ⟨S,fun who => ?_,(hpin i).trans hcard⟩
  rw [hheld]
  exact hS who

lemma held_update (h : c.held = (call who).held)
    (w : ι) : (update call who c w).held = (call w).held := by
  by_cases hw : w = who
  · subst hw
    rw [update_self, h]
  · rw [update_of_ne hw]

lemma Seated.asked_update (h : Seated s)
    (hc : ∀ pageId, c.target = some pageId → pageId ≠ invalidPageId) (w : ι) (pageId : ℕ)
    (hw : (update s.call who c w).target = some pageId) : pageId ≠ invalidPageId := by
  by_cases hne : w = who
  · rw [hne, update_self] at hw
    exact hc pageId hw
  · rw [update_of_ne hne] at hw
    exact h.asked w pageId hw

lemma Seated.guards_update (h : Seated s) (hc : ∀ i pageId dirtied, c = .guard i pageId dirtied →
      s.inner.pageTable.lookup pageId = some i) (w : ι) (i pageId : ℕ) (dirtied : Bool)
    (hw : update s.call who c w = .guard i pageId dirtied) :
    s.inner.pageTable.lookup pageId = some i := by
  by_cases hne : w = who
  · rw [hne, update_self] at hw
    exact hc i pageId dirtied hw
  · rw [update_of_ne hne] at hw
    exact h.guards w i pageId dirtied hw

lemma held_ne (h : c.held = none) : c.held ≠ some i := by
  rw [h]
  nofun

lemma Seated.hit (h : Seated s)
    (hold : (s.call who).held = none) (hfound : s.inner.pageTable.lookup pageId = some idx) :
    Seated (s.hit who idx pageId) := by
  refine h.refit rfl rfl (pin_pageId s.inner idx) (h.asked_update nofun) (h.guards_update ?_)
    (fun i => ?_)
  · rintro i id dirtied ⟨⟩
    exact hfound
  rw [pin_pinCount]
  split
  · rename_i hi
    subst hi
    exact (h.pins i).add (held_ne hold) rfl
  · rename_i hi
    refine (h.pins i).same ⟨?_,fun hheld => absurd hheld (held_ne hold)⟩
    rintro ⟨⟩
    exact absurd rfl hi

lemma Seated.drop (h : Seated s) (hcall : s.call who = .guard idx pageId dirtied) :
    Seated ({ s.go who .idle with inner := s.inner.unpin idx pageId dirtied } : State P ι) := by
  have hheld : (s.call who).held = some idx := by rw [hcall]; rfl
  have hpins := (h.pins idx).remove (c := .idle) hheld nofun
  have hpage := (h.table pageId idx (h.guards who idx pageId dirtied hcall)).1
  rw [Inner.unpin, if_pos ⟨hpage,hpins.1⟩]
  refine h.refit rfl rfl (setFrame_field s.inner Frame.pageId rfl) (h.asked_update nofun)
    (h.guards_update nofun) (fun i => ?_)
  by_cases hi : i = idx
  · subst hi
    rw [setFrame_self]
    exact hpins.2
  · rw [setFrame_ne s.inner _ hi]
    refine (h.pins i).same ⟨nofun,fun hother => ?_⟩
    cases hheld.symm.trans hother
    exact absurd rfl hi

omit [DecidableEq ι] in
lemma Seated.evicted (h : Seated s) (hpin : (s.inner.frames idx).pinCount = 0)
    (hvalid : (s.inner.frames idx).pageId ≠ invalidPageId) : Seated (s.evicted idx) := by
  have hunheld : ∀ who, (s.call who).held ≠ some idx := by
    have hpins := h.pins idx
    rw [hpin] at hpins
    exact hpins.unheld
  have hfound := h.owner idx hvalid
  -- another frame holds another page
  have hother : ∀ i id, s.inner.pageTable.lookup id = some i → i ≠ idx →
      id ≠ (s.inner.frames idx).pageId := by
    intro i id hi hne heq
    rw [heq, hfound] at hi
    cases hi
    exact hne rfl
  constructor
  · intro id i hi
    replace hi := (lookup_evictFrame s.inner idx id).symm.trans hi
    split at hi
    · cases hi
    rename_i hne
    have hseat := h.table id i hi
    have hi : i ≠ idx := fun heq => hne (by rw [← hseat.1, heq])
    show ((s.inner.evictFrame idx).frames i).pageId = id ∧ _
    rw [evictFrame_ne s.inner hi]
    exact hseat
  · intro i hi
    have hne : i ≠ idx := fun heq => hi (heq ▸ evictFrame_pageId s.inner i)
    replace hi : ((s.inner.evictFrame idx).frames i).pageId ≠ invalidPageId := hi
    show (s.inner.evictFrame idx).pageTable.lookup
      ((s.inner.evictFrame idx).frames i).pageId = some i
    rw [evictFrame_ne s.inner hne] at hi ⊢
    rw [lookup_evictFrame, if_neg (hother i _ (h.owner i hi) hne)]
    exact h.owner i hi
  · intro i hi
    show ((s.inner.evictFrame idx).frames i).pageId = invalidPageId
    by_cases hne : i = idx
    · rw [hne, evictFrame_pageId]
    · rw [evictFrame_ne s.inner hne]
      exact h.free i hi
  · exact h.nodup
  · exact h.asked
  · intro who i id dirtied hcall
    have hi := h.guards who i id dirtied hcall
    have hne : i ≠ idx := by
      intro heq
      refine hunheld who ?_
      rw [← heq, show s.call who = _ from hcall]
      rfl
    show (s.inner.evictFrame idx).pageTable.lookup id = some i
    rw [lookup_evictFrame, if_neg (hother i id hi hne)]
    exact hi
  · intro i
    show Pinned s.call i ((s.inner.evictFrame idx).frames i).pinCount
    by_cases hne : i = idx
    · subst hne
      rw [evictFrame_pinCount]
      exact .none hunheld
    · rw [evictFrame_ne s.inner hne]
      exact h.pins i

omit [DecidableEq ι] in
lemma Seated.takeFrame (h : Seated s) (htake : s.takeFrame fails = some (s₁,idx)) :
    Seated s₁ ∧ (s₁.inner.frames idx).pageId = invalidPageId ∧ idx ∉ s₁.inner.freeFrames ∧
      s₁.call = s.call ∧
      ∀ id, s.inner.pageTable.lookup id = none → s₁.inner.pageTable.lookup id = none := by
  obtain ⟨rest,hfree,rfl⟩ | ⟨hfree,hpin,hvalid,rfl⟩ := takeFrame_cases htake
  · have hnodup := h.nodup
    rw [hfree, List.nodup_cons] at hnodup
    have hmem : ∀ i ∈ rest, i ∈ s.inner.freeFrames := fun i hi => by
      rw [hfree]
      exact List.mem_cons_of_mem _ hi
    exact ⟨⟨h.table,h.owner,fun i hi => h.free i (hmem i hi),hnodup.2,h.asked,h.guards,h.pins⟩,
      h.free idx (by rw [hfree]; exact List.mem_cons_self),hnodup.1,rfl,fun id hid => hid⟩
  · refine ⟨h.evicted hpin hvalid,evictFrame_pageId _ _,?_,rfl,fun id hid => ?_⟩
    · show idx ∉ s.inner.freeFrames
      rw [hfree]
      nofun
    · show (s.inner.evictFrame idx).pageTable.lookup id = none
      rw [lookup_evictFrame, hid]
      split
      · rfl
      · rfl

lemma Seated.installPage (h : Seated s)
    (hempty : (s.inner.frames idx).pageId = invalidPageId) (htaken : idx ∉ s.inner.freeFrames)
    (hold : (s.call who).held = none) (hvalid : pageId ≠ invalidPageId)
    (hmiss : s.inner.pageTable.lookup pageId = none) :
    Seated ({ s.go who (.guard idx pageId false) with
      inner := s.inner.installPage idx pageId page } : State P ι) := by
  have hkept : ∀ id i, s.inner.pageTable.lookup id = some i →
      (s.inner.installPage idx pageId page).pageTable.lookup id = some i := by
    intro id i hi
    rw [lookup_installPage, if_neg, hi]
    rintro rfl
    cases hmiss.symm.trans hi
  constructor
  · intro id i hi
    replace hi := (lookup_installPage s.inner idx pageId page id).symm.trans hi
    split at hi
    · rename_i heq
      cases hi
      exact ⟨(installPage_pageId ..).trans heq.symm,heq ▸ hvalid⟩
    have hseat := h.table id i hi
    have hne : i ≠ idx := fun heq => hseat.2 (by rw [← hseat.1, heq, hempty])
    refine ⟨?_,hseat.2⟩
    show ((s.inner.installPage idx pageId page).frames i).pageId = id
    rw [installPage_ne s.inner pageId page hne]
    exact hseat.1
  · intro i hi
    show (s.inner.installPage idx pageId page).pageTable.lookup
      ((s.inner.installPage idx pageId page).frames i).pageId = some i
    by_cases hne : i = idx
    · rw [hne, installPage_pageId, lookup_installPage, if_pos rfl]
    · replace hi : ((s.inner.installPage idx pageId page).frames i).pageId ≠ invalidPageId := hi
      rw [installPage_ne s.inner pageId page hne] at hi ⊢
      exact hkept _ _ (h.owner i hi)
  · intro i hi
    have hne : i ≠ idx := fun heq => htaken (heq ▸ hi)
    show ((s.inner.installPage idx pageId page).frames i).pageId = _
    rw [installPage_ne s.inner pageId page hne]
    exact h.free i hi
  · exact h.nodup
  · exact h.asked_update nofun
  · intro w i id dirtied hw
    show (s.inner.installPage idx pageId page).pageTable.lookup id = some i
    replace hw : update s.call who _ w = .guard i id dirtied := hw
    by_cases hne : w = who
    · rw [hne, update_self] at hw
      cases hw
      rw [lookup_installPage, if_pos rfl]
    · rw [update_of_ne hne] at hw
      exact hkept id i (h.guards w i id dirtied hw)
  · intro i
    show Pinned (update s.call who _) i ((s.inner.installPage idx pageId page).frames i).pinCount
    by_cases hne : i = idx
    · subst hne
      rw [installPage_pinCount]
      exact (Pinned.none (h.unheld hempty)).add (held_ne hold) rfl
    · rw [installPage_ne s.inner pageId page hne]
      refine (h.pins i).same ⟨?_,fun hheld => absurd hheld (held_ne hold)⟩
      rintro ⟨⟩
      exact absurd rfl hne

lemma seated_step (h : Seated s) (hs : Step s a s') : Seated s' := by
  cases hs with
  | stay => exact h
  | move hold hnew hasked =>
    refine h.repaint rfl rfl (fun _ => rfl) (fun _ => rfl) (h.asked_update (fun id hid => ?_))
      (h.guards_update (fun i id dirtied hc => ?_)) (held_update (hnew.trans hold.symm))
    · obtain hvalid | htarget := hasked id hid
      · exact hvalid
      · exact h.asked _ id htarget
    · rw [hc] at hnew
      cases hnew
  | hit hold hfound => exact h.hit hold hfound
  | @install who fails pageId idx page s₁ hcall hmiss htake =>
    obtain ⟨hseat,hempty,htaken,hsame,hlost⟩ := h.takeFrame htake
    have hold : (s₁.call who).held = none := by rw [hsame, hcall]; rfl
    have hvalid : pageId ≠ invalidPageId := h.asked who pageId (by rw [hcall]; rfl)
    exact hseat.installPage hempty htaken hold hvalid (hlost pageId hmiss)
  | @pageMut who f idx pageId dirtied hcall =>
    refine h.repaint rfl rfl (setFrame_field s.inner Frame.pageId rfl)
      (setFrame_field s.inner Frame.pinCount rfl) (h.asked_update nofun) (h.guards_update ?_)
      (held_update (by rw [hcall]; rfl))
    rintro i id dirtied' ⟨⟩
    exact h.guards who idx pageId dirtied hcall
  | drop hcall => exact h.drop hcall
  | flushPage hfound =>
    exact h.repaint rfl rfl (setFrame_field s.inner Frame.pageId rfl)
      (setFrame_field s.inner Frame.pinCount rfl) h.asked h.guards (fun _ => rfl)
  | writePage hcall =>
    exact h.repaint rfl rfl (fun _ => rfl) (fun _ => rfl) (h.asked_update nofun)
      (h.guards_update nofun) (held_update (show _ = (s.call _).held by rw [hcall]; rfl))
  | clearDirty hcall =>
    exact h.repaint rfl rfl (clean_field s.inner Frame.pageId (fun _ => rfl))
      (clean_field s.inner Frame.pinCount (fun _ => rfl)) (h.asked_update nofun)
      (h.guards_update nofun) (held_update (by rw [hcall]; rfl))

omit [DecidableEq ι] in
lemma seated_opened (blank : P) (numFrames : ℕ) (disk : ℕ → P) :
    Seated (opened blank numFrames disk : State P ι) where
  table := nofun
  owner _ hi := absurd rfl hi
  free _ _ := rfl
  nodup := List.nodup_range
  asked := nofun
  guards := nofun
  pins _ := .none nofun

/-- Whatever reads and writes fail, the pin count of a frame is the number of its
guards, and the page of a guard stays in its frame. -/
theorem guarded_page_stays (blank : P) (numFrames : ℕ) (disk : ℕ → P) {s : State P ι}
    (h : Runs.Reaches step (fun _ _ => True) (opened blank numFrames disk) s) :
    (∀ i, Pinned s.call i (s.inner.frames i).pinCount) ∧
    ∀ who i pageId dirtied, s.call who = .guard i pageId dirtied →
      s.inner.pageTable.lookup pageId = some i ∧ (s.inner.frames i).pageId = pageId ∧
        i ∉ s.inner.freeFrames := by
  have hseat : Seated s := h.invariant (seated_opened blank numFrames disk)
    (fun _ _ _ hs _ hstep => seated_step hs (step_cases hstep))
  refine ⟨hseat.pins,fun who i pageId dirtied hcall => ?_⟩
  have hlook := hseat.guards who i pageId dirtied hcall
  obtain ⟨hpage,hvalid⟩ := hseat.table pageId i hlook
  exact ⟨hlook,hpage,fun hfree => hvalid (hpage.symm.trans (hseat.free i hfree))⟩

def Changing (s : State P ι) (i : ℕ) : Prop := ∃ who, (s.call who).changed = some i

/-- The frames hold every update, and so does the disk where nothing says otherwise. -/
structure Current (s : State P ι) : Prop where
  contents : ∀ pageId i, s.inner.pageTable.lookup pageId = some i →
    (s.inner.frames i).page = s.truth pageId
  clean : ∀ pageId i, s.inner.pageTable.lookup pageId = some i →
    (s.inner.frames i).dirty = false → ¬Changing s i → s.disk pageId = s.truth pageId
  absent : ∀ pageId, s.inner.pageTable.lookup pageId = none → s.disk pageId = s.truth pageId

/-- A page that was read earlier is installed only if the disk still holds it. A
copy that was taken earlier is written only over what it equals, or while the
frame is still marked as changed. The marks are removed from pages that the disk
holds, or that an open guard is going to mark again. -/
def Fresh (s : State P ι) : Action P ι → Prop
  | .install who _ => ∀ pageId page, s.call who = .loaded pageId page →
    s.inner.pageTable.lookup pageId = none → page = s.disk pageId
  | .writePage who _ => ∀ pageId page copies, s.call who = .writing ((pageId,page)::copies) →
    (s.inner.pageTable.lookup pageId = none → page = s.disk pageId) ∧
    (∀ i, s.inner.pageTable.lookup pageId = some i → (s.inner.frames i).dirty = false →
      ¬Changing s i → page = (s.inner.frames i).page)
  | .clearDirty _ => ∀ pageId i, s.inner.pageTable.lookup pageId = some i →
    (s.inner.frames i).dirty = true → ¬Changing s i → s.disk pageId = (s.inner.frames i).page
  | _ => True

lemma changed_update (h : c.changed = (call who).changed) (w : ι) :
    (update call who c w).changed = (call w).changed := by
  by_cases hw : w = who
  · subst hw
    rw [update_self, h]
  · rw [update_of_ne hw]

lemma changing_update (hold : (s.call who).changed ≠ some i) :
    Changing s i → Changing ⟨inner,disk,update s.call who c,truth⟩ i := by
  rintro ⟨w,hw⟩
  have hne : w ≠ who := by
    rintro rfl
    exact hold hw
  refine ⟨w,?_⟩
  show (update s.call who c w).changed = some i
  rw [update_of_ne hne]
  exact hw

omit [DecidableEq ι] in
lemma Current.repaint (h : Current s) (htable : inner.pageTable = s.inner.pageTable)
    (hpage : ∀ i, (inner.frames i).page = (s.inner.frames i).page)
    (hdirty : ∀ i, (inner.frames i).dirty = (s.inner.frames i).dirty)
    (hchanged : ∀ who, (call who).changed = (s.call who).changed) :
    Current ⟨inner,s.disk,call,s.truth⟩ where
  contents pageId i hfound := by
    rw [htable] at hfound
    exact (hpage i).trans (h.contents pageId i hfound)
  clean pageId i hfound hclean hopen := by
    rw [htable] at hfound
    rw [hdirty] at hclean
    refine h.clean pageId i hfound hclean (fun ⟨who,hwho⟩ => hopen ⟨who,?_⟩)
    exact (hchanged who).trans hwho
  absent pageId hmiss := by
    rw [htable] at hmiss
    exact h.absent pageId hmiss

omit [DecidableEq ι] in
lemma Seated.inj (h : Seated s) {id id' i : ℕ}
    (hi : s.inner.pageTable.lookup id = some i) (hi' : s.inner.pageTable.lookup id' = some i) :
    id = id' :=
  (h.table id i hi).1.symm.trans (h.table id' i hi').1

omit [DecidableEq ι] in
lemma Current.evicted (hseat : Seated s) (h : Current s) (hpin : (s.inner.frames idx).pinCount = 0)
    (hvalid : (s.inner.frames idx).pageId ≠ invalidPageId) : Current (s.evicted idx) := by
  have hfound := hseat.owner idx hvalid
  have hopen : ¬Changing s idx := by
    rintro ⟨who,hwho⟩
    have hpins := hseat.pins idx
    rw [hpin] at hpins
    exact hpins.unheld who (held_of_changed hwho)
  have hdisk : ∀ id, id ≠ (s.inner.frames idx).pageId → (s.evicted idx).disk id = s.disk id := by
    intro id hid
    show (if _ then _ else _ : ℕ → P) id = _
    split
    · rw [update_of_ne hid]
    · rfl
  -- a page that is still in the pool was there, and in another frame
  have hrest : ∀ id i, (s.evicted idx).inner.pageTable.lookup id = some i →
      s.inner.pageTable.lookup id = some i ∧ id ≠ (s.inner.frames idx).pageId ∧
      (s.evicted idx).inner.frames i = s.inner.frames i := by
    intro id i hi
    replace hi := (lookup_evictFrame s.inner idx id).symm.trans hi
    split at hi
    · cases hi
    · rename_i hne
      have hi' : i ≠ idx := fun heq => hne ((hseat.table id i hi).1.symm.trans (by rw [heq]))
      exact ⟨hi,hne,evictFrame_ne s.inner hi'⟩
  constructor
  · intro id i hi
    obtain ⟨hi,-,hframe⟩ := hrest id i hi
    rw [hframe]
    exact h.contents id i hi
  · intro id i hi hclean hchanging
    obtain ⟨hi,hne,hframe⟩ := hrest id i hi
    rw [hframe] at hclean
    rw [hdisk id hne]
    exact h.clean id i hi hclean hchanging
  intro id hmiss
  replace hmiss := (lookup_evictFrame s.inner idx id).symm.trans hmiss
  by_cases hid : id = (s.inner.frames idx).pageId
  · subst hid
    show (if _ then _ else _ : ℕ → P) _ = _
    split
    · rw [update_self]
      exact h.contents _ idx hfound
    · rename_i hclean
      exact h.clean _ idx hfound (by simpa using hclean) hopen
  · rw [if_neg hid] at hmiss
    rw [hdisk id hid]
    exact h.absent id hmiss

omit [DecidableEq ι] in
lemma Current.takeFrame (hseat : Seated s) (h : Current s) (htake : s.takeFrame fails = some (s₁,idx)) :
    Current s₁ ∧ s₁.truth = s.truth := by
  obtain ⟨rest,-,rfl⟩ | ⟨-,hpin,hvalid,rfl⟩ := takeFrame_cases htake
  · exact ⟨⟨h.contents,h.clean,h.absent⟩,rfl⟩
  · exact ⟨h.evicted hseat hpin hvalid,rfl⟩

lemma Current.installPage (hseat : Seated s) (h : Current s) (hempty : (s.inner.frames idx).pageId = invalidPageId)
    (hold : (s.call who).held = none) (hmiss : s.inner.pageTable.lookup pageId = none)
    (hpage : page = s.truth pageId) : Current ({ s.go who (.guard idx pageId false) with
      inner := s.inner.installPage idx pageId page } : State P ι) := by
  have hrest : ∀ id i, (s.inner.installPage idx pageId page).pageTable.lookup id = some i →
      (id = pageId ∧ i = idx) ∨ (s.inner.pageTable.lookup id = some i ∧
        (s.inner.installPage idx pageId page).frames i = s.inner.frames i) := by
    intro id i hi
    rw [lookup_installPage] at hi
    split at hi
    · rename_i hid
      cases hi
      exact .inl ⟨hid,rfl⟩
    · obtain ⟨hid,hvalid⟩ := hseat.table id i hi
      have hne : i ≠ idx := fun heq => hvalid (hid.symm.trans (by rw [heq, hempty]))
      exact .inr ⟨hi,installPage_ne s.inner pageId page hne⟩
  constructor
  · intro id i hi
    show ((s.inner.installPage idx pageId page).frames i).page = s.truth id
    obtain ⟨rfl,rfl⟩ | ⟨hi,hframe⟩ := hrest id i hi
    · rw [installPage_page, hpage]
    · rw [hframe]
      exact h.contents id i hi
  · intro id i hi hclean hchanging
    obtain ⟨rfl,rfl⟩ | ⟨hi,hframe⟩ := hrest id i hi
    · exact h.absent id hmiss
    replace hclean : ((s.inner.installPage idx pageId page).frames i).dirty = false := hclean
    rw [hframe] at hclean
    refine h.clean id i hi hclean (fun hopen => hchanging (changing_update ?_ hopen))
    rw [changed_of_held hold]
    nofun
  · intro id hid
    replace hid := (lookup_installPage s.inner idx pageId page id).symm.trans hid
    split at hid
    · cases hid
    · exact h.absent id hid

lemma Current.pageMut (hseat : Seated s) (h : Current s) {f : P → P} (hcall : s.call who = .guard idx pageId dirtied) :
    Current ({ s.go who (.guard idx pageId true) with
      inner := s.inner.setFrame idx { s.inner.frames idx with page := f (s.inner.frames idx).page }
      truth := update s.truth pageId (f (s.truth pageId)) } : State P ι) := by
  have hfound := hseat.guards who idx pageId dirtied hcall
  have hother : ∀ id i, s.inner.pageTable.lookup id = some i → id ≠ pageId → i ≠ idx := by
    rintro id i hi hid rfl
    exact hid (hseat.inj hi hfound)
  constructor
  · intro id i hi
    show ((s.inner.setFrame idx _).frames i).page = update s.truth pageId _ id
    by_cases hid : id = pageId
    · subst hid
      cases hfound.symm.trans hi
      rw [setFrame_self, update_self]
      exact congrArg f (h.contents id idx hfound)
    · rw [setFrame_ne s.inner _ (hother id i hi hid), update_of_ne hid]
      exact h.contents id i hi
  · intro id i hi hclean hchanging
    show s.disk id = update s.truth pageId _ id
    by_cases hid : id = pageId
    · subst hid
      cases hfound.symm.trans hi
      refine absurd ⟨who,?_⟩ hchanging
      show (update s.call who _ who).changed = _
      rw [update_self]
      rfl
    · have hne := hother id i hi hid
      replace hclean : ((s.inner.setFrame idx _).frames i).dirty = false := hclean
      rw [setFrame_ne s.inner _ hne] at hclean
      rw [update_of_ne hid]
      refine h.clean id i hi hclean (fun hopen => hchanging (changing_update ?_ hopen))
      intro hwho
      have hheld := held_of_changed hwho
      rw [hcall] at hheld
      cases hheld
      exact hne rfl
  · intro id hid
    have hne : id ≠ pageId := by
      rintro rfl
      cases hfound.symm.trans hid
    show s.disk id = update s.truth pageId _ id
    rw [update_of_ne hne]
    exact h.absent id hid

lemma Current.drop (hseat : Seated s) (h : Current s) (hcall : s.call who = .guard idx pageId dirtied) :
    Current ({ s.go who .idle with inner := s.inner.unpin idx pageId dirtied } : State P ι) := by
  have hheld : (s.call who).held = some idx := by rw [hcall]; rfl
  have hpins := (hseat.pins idx).remove (c := .idle) hheld nofun
  have hpage := (hseat.table pageId idx (hseat.guards who idx pageId dirtied hcall)).1
  rw [Inner.unpin, if_pos ⟨hpage,hpins.1⟩]
  constructor
  · intro id i hi
    refine Eq.trans ?_ (h.contents id i hi)
    exact setFrame_field s.inner Frame.page (by rfl) i
  · intro id i hi hclean hchanging
    replace hclean : ((s.inner.setFrame idx _).frames i).dirty = false := hclean
    by_cases hne : i = idx
    · subst hne
      rw [setFrame_self] at hclean
      obtain ⟨rfl,hclean⟩ := Bool.or_eq_false_iff.mp hclean
      refine h.clean id i hi hclean (fun hopen => hchanging (changing_update ?_ hopen))
      rw [hcall]
      nofun
    · rw [setFrame_ne s.inner _ hne] at hclean
      refine h.clean id i hi hclean (fun hopen => hchanging (changing_update ?_ hopen))
      intro hwho
      cases hheld.symm.trans (held_of_changed hwho)
      exact hne rfl
  · exact h.absent

omit [DecidableEq ι] in
lemma Current.flushPage (hseat : Seated s) (h : Current s)
    (hfound : s.inner.pageTable.lookup pageId = some idx) :
    Current ({ s.writeDisk pageId (s.inner.frames idx).page with
      inner := s.inner.setFrame idx { s.inner.frames idx with dirty := false } } : State P ι) := by
  have hdisk : update s.disk pageId (s.inner.frames idx).page pageId = s.truth pageId := by
    rw [update_self]
    exact h.contents pageId idx hfound
  constructor
  · intro id i hi
    refine Eq.trans ?_ (h.contents id i hi)
    exact setFrame_field s.inner Frame.page (by rfl) i
  · intro id i hi hclean hchanging
    show update s.disk pageId _ id = s.truth id
    by_cases hid : id = pageId
    · rw [hid, hdisk]
    have hne : i ≠ idx := by
      rintro rfl
      exact hid (hseat.inj hi hfound)
    replace hclean : ((s.inner.setFrame idx _).frames i).dirty = false := hclean
    rw [setFrame_ne s.inner _ hne] at hclean
    rw [update_of_ne hid]
    exact h.clean id i hi hclean hchanging
  · intro id hid
    have hne : id ≠ pageId := by
      rintro rfl
      cases hfound.symm.trans hid
    show update s.disk pageId _ id = s.truth id
    rw [update_of_ne hne]
    exact h.absent id hid

lemma Current.writePage (h : Current s)
    {copies : List (ℕ × P)} (hcall : s.call who = .writing ((pageId,page)::copies))
    (habsent : s.inner.pageTable.lookup pageId = none → page = s.disk pageId)
    (hclean : ∀ i, s.inner.pageTable.lookup pageId = some i →
      (s.inner.frames i).dirty = false → ¬Changing s i → page = (s.inner.frames i).page) :
    Current ((s.writeDisk pageId page).go who (.writing copies)) := by
  constructor
  · exact h.contents
  · intro id i hi hdirty hchanging
    have hopen : ¬Changing s i := by
      refine fun hopen => hchanging (changing_update ?_ hopen)
      show (s.call who).changed ≠ some i
      rw [hcall]
      nofun
    show update s.disk pageId page id = s.truth id
    by_cases hid : id = pageId
    · subst hid
      rw [update_self, hclean i hi hdirty hopen]
      exact h.contents id i hi
    · rw [update_of_ne hid]
      exact h.clean id i hi hdirty hopen
  · intro id hid
    show update s.disk pageId page id = s.truth id
    by_cases hne : id = pageId
    · subst hne
      rw [update_self, habsent hid]
      exact h.absent id hid
    · rw [update_of_ne hne]
      exact h.absent id hid

lemma Current.clearDirty (h : Current s) (hcall : s.call who = .writing [])
    (hdisk : ∀ pageId i, s.inner.pageTable.lookup pageId = some i →
      (s.inner.frames i).dirty = true → ¬Changing s i → s.disk pageId = (s.inner.frames i).page) :
    Current ({ s.go who .idle with inner := s.inner.clean } : State P ι) := by
  constructor
  · intro id i hi
    exact (clean_field s.inner Frame.page (fun _ => rfl) i).trans (h.contents id i hi)
  · intro id i hi _ hchanging
    have hopen : ¬Changing s i := by
      refine fun hopen => hchanging (changing_update ?_ hopen)
      rw [hcall]
      nofun
    cases hdirty : (s.inner.frames i).dirty with
    | false => exact h.clean id i hi hdirty hopen
    | true => exact (hdisk id i hi hdirty hopen).trans (h.contents id i hi)
  · exact h.absent

lemma current_step (hseat : Seated s) (h : Current s)
    (hfresh : Fresh s a) (hs : Step s a s') : Current s' := by
  cases hs with
  | stay => exact h
  | move hold hnew _ =>
    exact h.repaint rfl (fun _ => rfl) (fun _ => rfl)
      (changed_update ((changed_of_held hnew).trans (changed_of_held hold).symm))
  | hit hold hfound =>
    exact h.repaint rfl (pin_page s.inner _) (pin_dirty s.inner _)
      (changed_update (changed_of_held hold).symm)
  | @install who fails pageId idx page s₁ hcall hmiss htake =>
    obtain ⟨hseat₁,hempty,-,hsame,hlost⟩ := hseat.takeFrame htake
    obtain ⟨hcurrent,htruth⟩ := h.takeFrame hseat htake
    have hold : (s₁.call who).held = none := by rw [hsame, hcall]; rfl
    have hpage : page = s₁.truth pageId := by
      rw [htruth, hfresh pageId page hcall hmiss]
      exact h.absent pageId hmiss
    exact hcurrent.installPage hseat₁ hempty hold (hlost pageId hmiss) hpage
  | pageMut hcall => exact h.pageMut hseat hcall
  | drop hcall => exact h.drop hseat hcall
  | flushPage hfound => exact h.flushPage hseat hfound
  | writePage hcall =>
    obtain ⟨habsent,hclean⟩ := hfresh _ _ _ hcall
    exact h.writePage hcall habsent hclean
  | clearDirty hcall => exact h.clearDirty hcall hfresh

omit [DecidableEq ι] in
lemma current_opened (blank : P) (numFrames : ℕ) (disk : ℕ → P) :
    Current (opened blank numFrames disk : State P ι) where
  contents := nofun
  clean := nofun
  absent _ _ := rfl

/-- Every guard shows its page with all the updates that guards have made to it. -/
theorem updates_kept (blank : P) (numFrames : ℕ) (disk : ℕ → P) {s : State P ι}
    (h : Runs.Reaches step Fresh (opened blank numFrames disk) s) {who : ι} {idx pageId : ℕ}
    {dirtied : Bool} (hcall : s.call who = .guard idx pageId dirtied) :
    (s.inner.frames idx).page = s.truth pageId := by
  have hinv : Seated s ∧ Current s := by
    refine h.invariant (I := fun s => Seated s ∧ Current s)
      ⟨seated_opened blank numFrames disk,current_opened blank numFrames disk⟩ ?_
    rintro s a s' ⟨hseat,hcurrent⟩ hfresh hstep
    have hs := step_cases hstep
    exact ⟨seated_step hseat hs,current_step hseat hcurrent hfresh hs⟩
  exact hinv.2.contents pageId idx (hinv.1.guards who idx pageId dirtied hcall)

def numbers : State ℕ Bool := opened 0 2 (fun _ => 0)

def after (actions : List (Action ℕ Bool)) : State ℕ Bool :=
  (Runs.run step numbers actions).getD numbers

def load (who : Bool) (pageId : ℕ) : List (Action ℕ Bool) :=
  [.fetchPage who pageId, .readPage who false, .install who false]

/-- A test of the condition that looks for the open guards nowhere. -/
def freshly (s : State ℕ Bool) : Action ℕ Bool → Bool
  | .install who _ =>
    match s.call who with
    | .loaded pageId page => page == s.disk pageId
    | _ => true
  | .writePage who _ =>
    match s.call who with
    | .writing ((pageId,_)::_) =>
      match s.inner.pageTable.lookup pageId with
      | some i => (s.inner.frames i).dirty
      | none => false
    | _ => true
  | .clearDirty _ => s.inner.pageTable.keys.all (fun pageId =>
    match s.inner.pageTable.lookup pageId with
    | some i => s.disk pageId == (s.inner.frames i).page
    | none => true)
  | _ => true

lemma fresh_of_freshly (s : State ℕ Bool) (a : Action ℕ Bool) (h : freshly s a = true) :
    Fresh s a := by
  cases a with
  | install who fails =>
    intro pageId page hcall _
    rw [freshly, hcall] at h
    exact beq_iff_eq.mp h
  | writePage who fails =>
    intro pageId page copies hcall
    rw [freshly, hcall] at h
    constructor
    · intro hmiss
      dsimp only at h
      rw [hmiss] at h
      cases h
    · intro i hi hclean
      dsimp only at h
      rw [hi] at h
      cases hclean.symm.trans h
  | clearDirty who =>
    intro pageId i hi _ _
    have hmem : pageId ∈ s.inner.pageTable.keys := (mem_keys_iff _ _).mpr ⟨i,hi⟩
    have hpage := List.all_eq_true.mp h pageId hmem
    rw [hi] at hpage
    exact beq_iff_eq.mp hpage
  | _ => trivial

def flushed : List (Action ℕ Bool) :=
  load true 1++[.pageMut true (·+1), .drop true, .flushAll false, .writePage false false,
    .clearDirty false]++load true 2++[.drop true]++load true 3++[.drop true]++load true 1

theorem flushed_kept : ((after flushed).inner.frames 0).page = (after flushed).truth 1 ∧
    (after flushed).truth 1 = 1 := by
  have hreach : Runs.Reaches step Fresh numbers (after flushed) :=
    .of_isSome fresh_of_freshly flushed (by decide +kernel)
  have hcall : (after flushed).call true = .guard 0 1 false := rfl
  exact ⟨updates_kept 0 2 (fun _ => 0) hreach hcall,by decide +kernel⟩

theorem reloaded_page_guarded : 0 ∉ (after flushed).inner.freeFrames :=
  ((guarded_page_stays 0 2 (fun _ => 0) (.of_isSome (p := fun _ _ => true) (fun _ _ _ => trivial)
    flushed (by decide +kernel))).2 true 0 1 false rfl).2.2

/-- The page is read for one call, and then changed and evicted by another. -/
def staleImage : List (Action ℕ Bool) :=
  [.fetchPage false 1, .readPage false false]++load true 1++[.pageMut true (·+1), .drop true]++
    load true 2++[.drop true]++load true 3++[.drop true, .install false false]

/-- The page is changed after `flush_all` has taken its copy. -/
def lateUpdate : List (Action ℕ Bool) :=
  load true 1++[.pageMut true (·+1), .drop true, .flushAll false, .fetchPage true 1,
    .pageMut true (·+1), .drop true, .writePage false false, .clearDirty false]++
    load true 2++[.drop true, .fetchPage true 2, .drop true]++load true 3++[.drop true]++load true 1

theorem update_lost : (Runs.run step numbers staleImage = some (after staleImage) ∧
      (after staleImage).call false = .guard 0 1 false ∧
      ((after staleImage).inner.frames 0).page = 0 ∧ (after staleImage).truth 1 = 1) ∧
    (Runs.run step numbers lateUpdate = some (after lateUpdate) ∧
      (after lateUpdate).call true = .guard 0 1 false ∧
      ((after lateUpdate).inner.frames 0).page = 1 ∧ (after lateUpdate).truth 1 = 2) := by
  refine ⟨⟨Runs.run_getD staleImage ?_,rfl,?_⟩,Runs.run_getD lateUpdate ?_,rfl,?_⟩
  · decide +kernel
  · decide +kernel
  · decide +kernel
  · decide +kernel

end ByteDB.BufferPool
