import ByteDB.Runs
import ByteDB.Transaction

/-!
# The lock manager

For each key the table of locks has holders and a queue of waiters. A call of
`acquire_with_timeout` runs in sections, each with the mutex of the table: the
lock is granted and the call returns, or the call enters the queue and waits, or
it leaves the queue and fails. A release grants the lock to waiters at the front
of the queue.
-/

set_option autoImplicit false

namespace ByteDB
open ByteDB.Assoc

inductive LockMode where
  | shared
  | exclusive
  deriving DecidableEq, Repr

structure LockKey where
  table : String
  key : Bytes
  deriving DecidableEq, Repr

structure Holder where
  txn : TxnId
  mode : LockMode
  deriving DecidableEq, Repr

structure WaitEntry where
  txn : TxnId
  mode : LockMode
  deriving DecidableEq, Repr

structure LockState where
  holders : List Holder
  waiters : List WaitEntry
  deriving DecidableEq, Repr

namespace LockState

def empty : LockState := ⟨[],[]⟩

def isCompatible (s : LockState) (mode : LockMode) (requesting : TxnId) : Bool :=
  if s.holders = [] then true
  else if s.holders.all (fun h => h.txn = requesting) then true
  else
    match mode with
    | .shared => s.holders.all (fun h => h.mode = .shared)
    | .exclusive => false

/-- A transaction that is a holder gets its mode raised, and never lowered. -/
def withHolder (txn : TxnId) (mode : LockMode) : List Holder → List Holder
  | [] => [⟨txn,mode⟩]
  | h::hs =>
    if h.txn = txn then (if mode = .exclusive then { h with mode := .exclusive } else h)::hs
    else h::withHolder txn mode hs

section
variable (s : LockState) (txn : TxnId)

def addHolder (mode : LockMode) : LockState := { s with holders := withHolder txn mode s.holders }

def removeHolder : LockState := { s with holders := s.holders.filter (fun h => h.txn ≠ txn) }

def addWaiter (mode : LockMode) : LockState :=
  if s.waiters.any (fun w => w.txn = txn) then s
  else { s with waiters := s.waiters++[⟨txn,mode⟩] }

def removeWaiter : LockState := { s with waiters := s.waiters.filter (fun w => w.txn ≠ txn) }

end

/-- The waiters at the front of the queue become holders, up to the first one
that cannot. -/
def grantFrom (holders : List Holder) : List WaitEntry → LockState
  | [] => ⟨holders,[]⟩
  | w::ws =>
    if isCompatible ⟨holders,w::ws⟩ w.mode w.txn then grantFrom (withHolder w.txn w.mode holders) ws
    else ⟨holders,w::ws⟩

def grantPending (s : LockState) : LockState := grantFrom s.holders s.waiters

end LockState

abbrev LockTable := Map LockKey LockState

namespace LockTable

variable (locks : LockTable)

def state (key : LockKey) : LockState := (locks.lookup key).getD .empty

/-- The holders that each waiter waits for; the source keeps them in sets, whose
order is not fixed. -/
def waitsFor (txn : TxnId) : List TxnId := (locks.entries.flatMap (fun l =>
    if l.2.waiters.any (fun w => w.txn = txn) then
      (l.2.holders.map (fun h => h.txn)).filter (· ≠ txn)
    else [])).dedup

def participants : List TxnId := (locks.entries.flatMap (fun l =>
    l.2.waiters.map (fun w => w.txn)++l.2.holders.map (fun h => h.txn))).dedup

/-- The loop of `detect_deadlock`: depth first along the edges, and a node that
is on the path is a cycle. -/
def search (edges : TxnId → List TxnId) : ℕ → List TxnId → List TxnId → List TxnId → Bool
  | 0, _, _, _ => false
  | _+1, _, _, [] => false
  | n+1, visited, onPath, node::stack =>
    match (edges node).find? (fun next => next ∉ visited) with
    | some next =>
      if next ∈ onPath then true
      else search edges n visited (next::onPath) (next::node::stack)
    | none => search edges n (node::visited) (onPath.erase node) stack

/-- Every transaction is pushed and popped at most once. -/
def detectDeadlock (starting : TxnId) : Bool :=
  search (waitsFor locks) (2*(participants locks).length+3) [] [starting] [starting]

structure Call where
  txn : TxnId
  key : LockKey
  mode : LockMode
  deriving DecidableEq, Repr

/-- One section of a call, which returns or waits. Whether the timeout has passed
when the clock is read is given. -/
def acquireSection (c : Call) (late : Bool) : LockTable × Option (Except CoreError Unit) :=
  let s := locks.state c.key
  if s.isCompatible c.mode c.txn then
    (locks.insert c.key (s.addHolder c.txn c.mode),some (.ok ()))
  else
    let s := s.addWaiter c.txn c.mode
    let locks := locks.insert c.key s
    if detectDeadlock locks c.txn then
      (locks.insert c.key (s.removeWaiter c.txn),some (.error .deadlock))
    else if late then
      (locks.insert c.key (s.removeWaiter c.txn),some (.error (.lockTimeout c.txn)))
    else (locks,none)

def keepUsed (s : LockState) : Option LockState :=
  if s.holders = [] ∧ s.waiters = [] then none else some s

def release (txn : TxnId) (key : LockKey) : LockTable :=
  retain locks (fun k s => if k = key then keepUsed (s.removeHolder txn).grantPending else some s)

def releaseAll (txn : TxnId) : LockTable :=
  retain locks (fun _ s => keepUsed ((s.removeHolder txn).removeWaiter txn).grantPending)

end LockTable

/-! The search goes along a path of waiting transactions. A transaction is left when
all that it waits for have been left, so those that are left are on no cycle, and a
transaction that is met a second time on the path closes one. -/

namespace LockTable
open List Relation

section

/-- The loop with its rounds counted; `none` if they are too few. -/
def rounds (edges : TxnId → List TxnId) :
    ℕ → List TxnId → List TxnId → List TxnId → Option Bool
  | 0, _, _, _ => none
  | _+1, _, _, [] => some false
  | n+1, visited, onPath, node::stack =>
    match (edges node).find? (fun next => next ∉ visited) with
    | some next =>
      if next ∈ onPath then some true
      else rounds edges n visited (next::onPath) (next::node::stack)
    | none => rounds edges n (node::visited) (onPath.erase node) stack

def Edge (edges : TxnId → List TxnId) (a b : TxnId) : Prop := b ∈ edges a

def Cyclic {α : Type} (r : α → α → Prop) (a : α) : Prop :=
  ∃ b, ReflTransGen r a b ∧ TransGen r b b

/-- The transactions that were left, the last one first. -/
def Settled (edges : TxnId → List TxnId) : List TxnId → Prop
  | [] => True
  | v::vs => (∀ w ∈ edges v, w ∈ vs) ∧ Settled edges vs

variable {edges : TxnId → List TxnId} {a b : TxnId} {visited stack : List TxnId}

lemma Settled.closed (h : Settled edges visited) (ha : a ∈ visited) (hb : b ∈ edges a) :
    b ∈ visited := by
  induction visited with
  | nil => cases ha
  | cons v vs ih =>
    rcases mem_cons.mp ha with rfl | ha
    · exact mem_cons_of_mem _ (h.1 b hb)
    · exact mem_cons_of_mem _ (ih h.2 ha)

lemma Settled.before {v : TxnId} (h : Settled edges (v::visited)) (ha : a ∈ v::visited)
    (hab : TransGen (Edge edges) a b) : b ∈ visited := by
  induction hab with
  | single hb =>
    rcases mem_cons.mp ha with rfl | ha
    · exact h.1 _ hb
    · exact h.2.closed ha hb
  | tail _ hb ih => exact h.2.closed ih hb

lemma Settled.acyclic (h : Settled edges visited) (ha : a ∈ visited) :
    ¬TransGen (Edge edges) a a := by
  intro hcycle
  induction visited with
  | nil => cases ha
  | cons v vs ih => exact ih h.2 (h.before ha hcycle)

lemma Settled.not_cyclic (h : Settled edges visited) (ha : a ∈ visited) :
    ¬Cyclic (Edge edges) a := by
  rintro ⟨b,hab,hcycle⟩
  refine h.acyclic ?_ hcycle
  clear hcycle
  induction hab with
  | refl => exact ha
  | tail _ hb ih => exact h.closed ih hb

lemma path_reaches {node : TxnId} (h : (node::stack).IsChain (fun x y => x ∈ edges y))
    (ha : a ∈ node::stack) : ReflTransGen (Edge edges) a node := by
  induction stack generalizing node with
  | nil =>
    rw [mem_singleton.mp ha]
  | cons next stack ih =>
    rcases mem_cons.mp ha with rfl | ha
    · exact .refl
    · obtain ⟨hedge,hrest⟩ := isChain_cons_cons.mp h
      exact (ih hrest ha).tail hedge

/-- The loop ends, and finds a cycle if there is one. Every round lets the
transactions that were not met, counted twice, and the path become fewer. -/
lemma rounds_cyclic (U : Finset TxnId) (hU : ∀ x y, y ∈ edges x → y ∈ U) {start : TxnId} (n : ℕ)
    (hn : 2*(U \ (visited++stack).toFinset).card+stack.length < n)
    (hpath : stack.IsChain (fun x y => x ∈ edges y)) (hsettled : Settled edges visited)
    (hreach : ∀ x ∈ stack, ReflTransGen (Edge edges) start x) (hstart : start ∈ visited++stack) :
    ∃ found, rounds edges n visited stack stack = some found ∧
      (found = true ↔ Cyclic (Edge edges) start) := by
  induction n generalizing visited stack with
  | zero => omega
  | succ n ih =>
    cases stack with
    | nil =>
      rw [append_nil] at hstart
      exact ⟨false,rfl,by simp [hsettled.not_cyclic hstart]⟩
    | cons node stack =>
      rw [length_cons] at hn
      rw [rounds]
      cases hfind : (edges node).find? (fun next => next ∉ visited) with
      | some next =>
        have hedge : next ∈ edges node := mem_of_find?_eq_some hfind
        have hnew : next ∉ visited := by simpa using find?_some hfind
        have hnode := hreach node (mem_cons_self ..)
        by_cases hon : next ∈ node::stack
        · refine ⟨true,if_pos hon,iff_of_true rfl ⟨node,hnode,?_⟩⟩
          exact TransGen.head' hedge (path_reaches hpath hon)
        · have hfewer : (U \ (visited++next::node::stack).toFinset).card <
              (U \ (visited++node::stack).toFinset).card := by
            apply Finset.card_lt_card
            refine (Finset.ssubset_iff_of_subset ?_).mpr ⟨next,?_,by simp⟩
            · exact Finset.sdiff_subset_sdiff (le_refl _) (by intro; simp; tauto)
            · simpa [hnew] using And.intro (hU node next hedge) (by simpa using hon)
          simp only [if_neg hon]
          apply ih _ (.cons_cons hedge hpath) hsettled _ (by simp at hstart ⊢; tauto)
          · simp only [length_cons]
            omega
          · exact forall_mem_cons.mpr ⟨hnode.tail hedge,hreach⟩
      | none =>
        have hall : ∀ w ∈ edges node, w ∈ visited := by simpa using hfind
        have hsame : (node::visited++stack).toFinset = (visited++node::stack).toFinset := by
          ext x
          simp
        have hleft : Settled edges (node::visited) := ⟨hall,hsettled⟩
        simp only [erase_cons_head]
        refine ih ?_ hpath.of_cons hleft (fun x hx => hreach x (mem_cons_of_mem _ hx))
          (by simp at hstart ⊢; tauto)
        rw [hsame]
        omega

lemma search_of_rounds {n : ℕ} {onPath : List TxnId} {found : Bool}
    (h : rounds edges n visited onPath stack = some found) :
    search edges n visited onPath stack = found := by
  induction n generalizing visited onPath stack with
  | zero => cases h
  | succ n ih =>
    cases stack with
    | nil => exact Option.some.inj h
    | cons node stack =>
      rw [rounds] at h
      rw [search]
      cases hfind : (edges node).find? (fun next => next ∉ visited) with
      | none =>
        rw [hfind] at h
        exact ih h
      | some next =>
        simp only [hfind] at h ⊢
        split at h
        · rename_i hon
          rw [if_pos hon]
          exact Option.some.inj h
        · rename_i hon
          rw [if_neg hon]
          exact ih h

end

/-- A transaction in the queue of a key waits for the others that hold it. -/
def Waits (locks : LockTable) (a b : TxnId) : Prop :=
  ∃ key s, locks.lookup key = some s ∧ (∃ w ∈ s.waiters, w.txn = a) ∧
    (∃ h ∈ s.holders, h.txn = b) ∧ b ≠ a

variable (locks : LockTable)

lemma mem_waitsFor (a b : TxnId) : b ∈ waitsFor locks a ↔ Waits locks a b := by
  rw [waitsFor, mem_dedup, mem_flatMap]
  constructor
  · rintro ⟨l,hl,hb⟩
    split at hb
    · rename_i hw
      refine ⟨l.1,l.2,AList.mem_lookup_iff.mpr hl,by simpa using hw,?_⟩
      simpa using hb
    · cases hb
  · rintro ⟨key,s,hs,hw,hb⟩
    refine ⟨⟨key,s⟩,AList.mem_lookup_iff.mp hs,?_⟩
    rw [if_pos (by simpa using hw)]
    simpa using hb

lemma waits_participants {a b : TxnId} (h : Waits locks a b) : b ∈ participants locks := by
  obtain ⟨key,s,hs,-,⟨x,hx,rfl⟩,-⟩ := h
  rw [participants, mem_dedup, mem_flatMap]
  exact ⟨⟨key,s⟩,AList.mem_lookup_iff.mp hs,mem_append_right _ (mem_map_of_mem hx)⟩

/-- In whatever order the sets are read, the loop ends, and it finds a deadlock
exactly if a cycle of waiting transactions can be reached. -/
theorem deadlock_found_iff (starting : TxnId) :
    (detectDeadlock locks starting = true ↔ Cyclic (Waits locks) starting) ∧
    ∀ edges : TxnId → List TxnId, (∀ a, edges a ~ waitsFor locks a) →
      ∃ n found, rounds edges n [] [starting] [starting] = some found ∧
        (found = true ↔ Cyclic (Waits locks) starting) := by
  have hends : ∀ edges : TxnId → List TxnId, (∀ a, edges a ~ waitsFor locks a) →
      ∃ found, rounds edges (2*(participants locks).length+3) [] [starting] [starting] =
        some found ∧ (found = true ↔ Cyclic (Waits locks) starting) := by
    intro edges hedges
    have hedge : Edge edges = Waits locks := by
      ext a b
      rw [Edge, (hedges a).mem_iff, mem_waitsFor]
    rw [← hedge]
    refine rounds_cyclic (participants locks).toFinset (fun x y hy => ?_) _ ?_ (.singleton _)
      trivial (by simp [ReflTransGen.refl]) (mem_singleton_self _)
    · have hwaits : Waits locks x y := (mem_waitsFor locks x y).mp ((hedges x).mem_iff.mp hy)
      exact mem_toFinset.mpr (waits_participants locks hwaits)
    · have hcard : ((participants locks).toFinset \ ([]++[starting]).toFinset).card ≤
          (participants locks).length :=
        (Finset.card_le_card Finset.sdiff_subset).trans (toFinset_card_le _)
      rw [length_singleton]
      omega
  refine ⟨?_,fun edges hedges => ⟨_,hends edges hedges⟩⟩
  obtain ⟨found,hrounds,hfound⟩ := hends (waitsFor locks) (fun _ => .refl _)
  rw [detectDeadlock, search_of_rounds hrounds]
  exact hfound

end LockTable

/-! Any number of threads call `acquire_with_timeout`, section by section, and
release locks in between. The holders of a key are distinct, an exclusive one is
alone, and a granted lock is held until it is released. A call that is granted its
lock by its own retry stays in the queue, where a later release may find it. -/

open List Function Option

namespace LockState

structure Sound (hs : List Holder) : Prop where
  distinct : (hs.map (fun h => h.txn)).Nodup
  alone : ∀ h ∈ hs, h.mode = .exclusive → ∀ h' ∈ hs, h' = h

def Holds (hs : List Holder) (txn : TxnId) (mode : LockMode) : Prop :=
  ∃ h ∈ hs, h.txn = txn ∧ (mode = .exclusive → h.mode = .exclusive)

variable {h : Holder}

section
variable {hs : List Holder} {txn t : TxnId} {mode m : LockMode}

lemma withHolder_txns (txn : TxnId) (mode : LockMode) (hs : List Holder) :
    (withHolder txn mode hs).map (fun h => h.txn) =
      if txn ∈ hs.map (fun h => h.txn) then hs.map (fun h => h.txn)
      else hs.map (fun h => h.txn)++[txn] := by
  induction hs with
  | nil => rfl
  | cons h hs ih =>
    rw [withHolder]
    by_cases heq : h.txn = txn
    · subst heq
      have hmem : h.txn ∈ (h::hs).map (·.txn) := mem_cons_self
      rw [if_pos rfl, if_pos hmem]
      split
      · rfl
      · rfl
    · have hmem : txn ∈ (h::hs).map (·.txn) ↔ txn ∈ hs.map (·.txn) := by
        rw [map_cons, mem_cons]
        exact or_iff_right (fun hc => heq hc.symm)
      rw [if_neg heq, map_cons, ih]
      by_cases hin : txn ∈ hs.map (·.txn)
      · rw [if_pos hin, if_pos (hmem.mpr hin)]
        rfl
      · rw [if_neg hin, if_neg (fun hc => hin (hmem.mp hc))]
        rfl

lemma mem_withHolder (hh : h ∈ withHolder txn mode hs) : h ∈ hs ∨ h.txn = txn := by
  induction hs with
  | nil => exact .inr (congrArg Holder.txn (mem_singleton.mp hh))
  | cons g gs ih =>
    rw [withHolder] at hh
    split at hh
    · rename_i heq
      rcases mem_cons.mp hh with rfl | hh
      · refine .inr ?_
        split
        · exact heq
        · exact heq
      · exact .inl (mem_cons_of_mem _ hh)
    · rcases mem_cons.mp hh with rfl | hh
      · exact .inl mem_cons_self
      · exact (ih hh).imp (mem_cons_of_mem _) id

lemma mem_withHolder_shared (hh : h ∈ withHolder txn .shared hs) : h ∈ hs ∨ h = ⟨txn,.shared⟩ := by
  induction hs with
  | nil => exact .inr (mem_singleton.mp hh)
  | cons g gs ih =>
    rw [withHolder] at hh
    split at hh
    · rw [if_neg (by decide)] at hh
      exact .inl hh
    · rcases mem_cons.mp hh with rfl | hh
      · exact .inl mem_cons_self
      · exact (ih hh).imp (mem_cons_of_mem _) id

lemma Sound.withHolder (h : Sound hs) {ws : List WaitEntry}
    (hc : isCompatible ⟨hs,ws⟩ mode txn = true) : Sound (withHolder txn mode hs) := by
  have hdistinct : ((LockState.withHolder txn mode hs).map (·.txn)).Nodup := by
    rw [withHolder_txns]
    split
    · exact h.distinct
    · rename_i hnot
      exact nodup_append.mpr ⟨h.distinct,nodup_singleton txn,fun a ha b hb => by
        rw [mem_singleton.mp hb]
        exact fun heq => hnot (heq ▸ ha)⟩
  refine ⟨hdistinct,fun g hg hmode g' hg' => ?_⟩
  by_cases hsame : ∀ g ∈ hs, g.txn = txn
  · -- only the transaction itself holds the lock
    have hown : ∀ g ∈ LockState.withHolder txn mode hs, g.txn = txn := fun g hg =>
      (mem_withHolder hg).elim (hsame g) id
    exact inj_on_of_nodup_map hdistinct hg' hg ((hown g' hg').trans (hown g hg).symm)
  have hsome : hs ≠ [] := fun hnil => hsame (by simp [hnil])
  rw [isCompatible.eq_def, if_neg hsome, if_neg (by simpa using hsame)] at hc
  cases mode with
  | exclusive => cases hc
  | shared =>
    have hshared : ∀ g ∈ hs, g.mode = .shared := by simpa using hc
    rcases mem_withHolder_shared hg with hold | rfl
    · rw [hshared g hold] at hmode
      cases hmode
    · cases hmode

lemma Sound.filter (h : Sound hs) (p : Holder → Bool) : Sound (hs.filter p) where
  distinct := h.distinct.sublist (filter_sublist.map _)
  alone g hg hmode g' hg' := h.alone g (mem_of_mem_filter hg) hmode g' (mem_of_mem_filter hg')

lemma holds_withHolder (hs : List Holder) (txn : TxnId) (mode : LockMode) :
    Holds (withHolder txn mode hs) txn mode := by
  induction hs with
  | nil => exact ⟨⟨txn,mode⟩,mem_cons_self,rfl,id⟩
  | cons h hs ih =>
    rw [withHolder]
    split
    · rename_i heq
      refine ⟨_,mem_cons_self,?_,fun hmode => ?_⟩
      · split
        · exact heq
        · exact heq
      · rw [if_pos hmode]
    · obtain ⟨g,hg,htxn,hmode⟩ := ih
      exact ⟨g,mem_cons_of_mem _ hg,htxn,hmode⟩

lemma Holds.withHolder (h : Holds hs t m) : Holds (withHolder txn mode hs) t m := by
  obtain ⟨g,hg,htxn,hmode⟩ := h
  induction hs with
  | nil => cases hg
  | cons h hs ih =>
    rw [LockState.withHolder]
    rcases mem_cons.mp hg with rfl | hg
    · split
      · refine ⟨_,mem_cons_self,?_,fun hm => ?_⟩
        · split
          · exact htxn
          · exact htxn
        · split
          · rfl
          · exact hmode hm
      · exact ⟨g,mem_cons_self,htxn,hmode⟩
    · split
      · exact ⟨g,mem_cons_of_mem _ hg,htxn,hmode⟩
      · obtain ⟨g',hg',htxn',hmode'⟩ := ih hg
        exact ⟨g',mem_cons_of_mem _ hg',htxn',hmode'⟩

lemma Holds.filter (h : Holds hs t m) (hne : t ≠ txn) :
    Holds (hs.filter (fun h => h.txn ≠ txn)) t m := by
  obtain ⟨g,hg,rfl,hmode⟩ := h
  exact ⟨g,mem_filter.mpr ⟨hg,by simpa using hne⟩,rfl,hmode⟩

end

section
variable {s : LockState} {txn : TxnId} {mode : LockMode}

lemma holders_addWaiter : (s.addWaiter txn mode).holders = s.holders := by
  rw [addWaiter]
  split
  · rfl
  · rfl

lemma mem_addWaiter {w : WaitEntry} (hw : w ∈ (s.addWaiter txn mode).waiters) :
    w ∈ s.waiters ∨ w.txn = txn := by
  rw [addWaiter] at hw
  split at hw
  · exact .inl hw
  · exact (mem_append.mp hw).imp id (fun hnew => congrArg WaitEntry.txn (mem_singleton.mp hnew))

end

section
variable {hs : List Holder} {ws : List WaitEntry} {t : TxnId} {m : LockMode}

lemma Sound.grantFrom (h : Sound hs) (ws : List WaitEntry) : Sound (grantFrom hs ws).holders := by
  induction ws generalizing hs with
  | nil => exact h
  | cons w ws ih =>
    rw [grantFrom]
    split
    · rename_i hc
      exact ih (h.withHolder hc)
    · exact h

lemma Holds.grantFrom (h : Holds hs t m) (ws : List WaitEntry) :
    Holds (grantFrom hs ws).holders t m := by
  induction ws generalizing hs with
  | nil => exact h
  | cons w ws ih =>
    rw [grantFrom]
    split
    · exact ih h.withHolder
    · exact h

lemma waiters_grantFrom (hs : List Holder) (ws : List WaitEntry) :
    (grantFrom hs ws).waiters ⊆ ws := by
  induction ws generalizing hs with
  | nil => exact List.Subset.refl _
  | cons w ws ih =>
    rw [grantFrom]
    split
    · exact fun w' hw' => mem_cons_of_mem w (ih _ hw')
    · exact List.Subset.refl _

lemma holders_grantFrom {hs : List Holder} {ws : List WaitEntry}
    (hh : h ∈ (grantFrom hs ws).holders) : (∃ g ∈ hs, g.txn = h.txn) ∨ ∃ w ∈ ws, w.txn = h.txn := by
  induction ws generalizing hs with
  | nil => exact .inl ⟨h,hh,rfl⟩
  | cons w ws ih =>
    rw [grantFrom] at hh
    split at hh
    · rcases ih hh with ⟨g,hg,htxn⟩ | ⟨w',hw',htxn⟩
      · rcases mem_withHolder hg with hg | hg
        · exact .inl ⟨g,hg,htxn⟩
        · exact .inr ⟨w,mem_cons_self,hg.symm.trans htxn⟩
      · exact .inr ⟨w',mem_cons_of_mem _ hw',htxn⟩
    · exact .inl ⟨h,hh,rfl⟩

end

end LockState

namespace LockTable
variable (locks : LockTable) (k key : LockKey) (txn : TxnId)

lemma state_insert (s : LockState) :
    state (locks.insert key s) k = if k = key then s else locks.state k := by
  rw [state, lookup_insert_eq]
  split
  · rfl
  · rfl

lemma keepUsed_getD (s : LockState) : (keepUsed s).getD .empty = s := by
  rw [keepUsed]
  split
  · rename_i h
    obtain ⟨holders,waiters⟩ := s
    obtain ⟨rfl,rfl⟩ := h
    rfl
  · rfl

lemma state_release : (release locks txn key).state k =
    if k = key then ((locks.state k).removeHolder txn).grantPending else locks.state k := by
  rw [state, state, release, lookup_retain]
  cases locks.lookup k with
  | none =>
    split
    · rfl
    · rfl
  | some s =>
    rw [bind_some, getD_some]
    split
    · exact keepUsed_getD _
    · rfl

lemma state_releaseAll : (releaseAll locks txn).state k =
    (((locks.state k).removeHolder txn).removeWaiter txn).grantPending := by
  rw [state, state, releaseAll, lookup_retain]
  cases locks.lookup k with
  | none => rfl
  | some s => exact keepUsed_getD _

lemma acquireSection_cases (c : Call) (late : Bool) :
    ((locks.state c.key).isCompatible c.mode c.txn = true ∧ acquireSection locks c late =
      (locks.insert c.key ((locks.state c.key).addHolder c.txn c.mode),some (.ok ()))) ∨
    (∃ err, acquireSection locks c late = (locks.insert c.key
      (((locks.state c.key).addWaiter c.txn c.mode).removeWaiter c.txn),some (.error err))) ∨
    acquireSection locks c late =
      (locks.insert c.key ((locks.state c.key).addWaiter c.txn c.mode),none) := by
  rw [acquireSection]
  dsimp only
  split
  · exact .inl ⟨‹_›,rfl⟩
  rw [AList.insert_insert]
  split
  · exact .inr (.inl ⟨_,rfl⟩)
  · split
    · exact .inr (.inl ⟨_,rfl⟩)
    · exact .inr (.inr rfl)

end LockTable

namespace Locking
open LockTable LockState

structure State (ι : Type) where
  locks : LockTable
  calls : ι → Option Call
  /-- The calls that have returned `Ok` and whose lock has not been released since. -/
  granted : List Call

inductive Action (ι : Type) where
  | acquire (who : ι) (c : Call) (late : Bool)
  | retry (who : ι) (late : Bool)
  | release (txn : TxnId) (key : LockKey)
  | releaseAll (txn : TxnId)

variable {ι : Type} [DecidableEq ι]

def start : State ι := ⟨∅,fun _ => none,[]⟩

def runSection (s : State ι) (who : ι) (c : Call) (late : Bool) : State ι :=
  match acquireSection s.locks c late with
  | (locks,none) => ⟨locks,Function.update s.calls who (some c),s.granted⟩
  | (locks,some (.ok _)) => ⟨locks,Function.update s.calls who none,c::s.granted⟩
  | (locks,some (.error _)) => ⟨locks,Function.update s.calls who none,s.granted⟩

def step (s : State ι) : Action ι → Option (State ι)
  | .acquire who c late => if (s.calls who).isNone then some (runSection s who c late) else none
  | .retry who late => (s.calls who).map (fun c => runSection s who c late)
  | .release txn key =>
    some { s with
      locks := LockTable.release s.locks txn key
      granted := s.granted.filter (fun c => ¬ (c.txn = txn ∧ c.key = key)) }
  | .releaseAll txn =>
    some { s with
      locks := LockTable.releaseAll s.locks txn
      granted := s.granted.filter (fun c => c.txn ≠ txn) }

variable {s s' : State ι} {a : Action ι}

/-- A section of a call of a thread, or a release. -/
lemma step_cases (h : step s a = some s') : (∃ who c late, s' = runSection s who c late ∧
      ((a = .acquire who c late ∧ s.calls who = none) ∨
        (a = .retry who late ∧ s.calls who = some c))) ∨
    (∃ txn key, a = .release txn key ∧ s' = { s with
      locks := release s.locks txn key
      granted := s.granted.filter (fun c => ¬ (c.txn = txn ∧ c.key = key)) }) ∨
    ∃ txn, a = .releaseAll txn ∧ s' = { s with
      locks := releaseAll s.locks txn
      granted := s.granted.filter (fun c => c.txn ≠ txn) } := by
  cases a with
  | acquire who c late =>
    rw [step] at h
    split at h
    · rename_i hnone
      exact .inl ⟨who,c,late,(some.inj h).symm,.inl ⟨rfl,isNone_iff_eq_none.mp hnone⟩⟩
    · cases h
  | retry who late =>
    obtain ⟨c,hc,rfl⟩ := map_eq_some_iff.mp h
    exact .inl ⟨who,c,late,rfl,.inr ⟨rfl,hc⟩⟩
  | release txn key => exact .inr (.inl ⟨txn,key,rfl,(some.inj h).symm⟩)
  | releaseAll txn => exact .inr (.inr ⟨txn,rfl,(some.inj h).symm⟩)

structure Safe (s : State ι) : Prop where
  sound : ∀ key, Sound (s.locks.state key).holders
  held : ∀ c ∈ s.granted, Holds (s.locks.state c.key).holders c.txn c.mode

lemma safe_section (h : Safe s) (who : ι) (c : Call) (late : Bool) :
    Safe (runSection s who c late) := by
  -- only a grant changes the holders of the key
  have hidle : ∀ (st : LockState) (calls : ι → Option Call),
      st.holders = (s.locks.state c.key).holders →
      Safe (⟨s.locks.insert c.key st,calls,s.granted⟩ : State ι) := by
    intro st calls hst
    have hsame : ∀ key, (state (s.locks.insert c.key st) key).holders =
        (s.locks.state key).holders := by
      intro key
      rw [state_insert]
      split
      · rename_i heq
        rw [heq, hst]
      · rfl
    refine ⟨fun key => ?_,fun c' hc' => ?_⟩
    · rw [hsame]
      exact h.sound key
    · rw [hsame]
      exact h.held c' hc'
  rw [runSection]
  rcases acquireSection_cases s.locks c late with ⟨hcomp,hrun⟩ | ⟨err,hrun⟩ | hrun
  · rw [hrun]
    refine ⟨fun key => ?_,fun c' hc' => ?_⟩
    · dsimp only
      rw [state_insert]
      split
      · exact (h.sound c.key).withHolder hcomp
      · exact h.sound key
    · dsimp only
      rw [state_insert]
      rcases mem_cons.mp hc' with rfl | hc'
      · rw [if_pos rfl]
        exact holds_withHolder _ _ _
      · split
        · rename_i heq
          exact (heq ▸ h.held c' hc').withHolder
        · exact h.held c' hc'
  · rw [hrun]
    exact hidle _ _ holders_addWaiter
  · rw [hrun]
    exact hidle _ _ holders_addWaiter

lemma safe_step (h : Safe s) (hs : step s a = some s') : Safe s' := by
  rcases step_cases hs with ⟨who,c,late,rfl,-⟩ | ⟨txn,key,-,rfl⟩ | ⟨txn,-,rfl⟩
  · exact safe_section h who c late
  · refine ⟨fun k => ?_,fun c hc => ?_⟩
    · dsimp only
      rw [state_release]
      split
      · exact ((h.sound k).filter _).grantFrom _
      · exact h.sound k
    · obtain ⟨hc,hother⟩ := mem_filter.mp hc
      rw [state_release]
      split
      · rename_i hk
        have hne : c.txn ≠ txn := fun heq => by simp [heq, hk] at hother
        exact ((h.held c hc).filter hne).grantFrom _
      · exact h.held c hc
  · refine ⟨fun k => ?_,fun c hc => ?_⟩
    · dsimp only
      rw [state_releaseAll]
      exact ((h.sound k).filter _).grantFrom _
    · obtain ⟨hc,hother⟩ := mem_filter.mp hc
      rw [state_releaseAll]
      exact ((h.held c hc).filter (by simpa using hother)).grantFrom _

/-- In every run the holders of a key are distinct, an exclusive one is alone, and
who was granted a lock holds it until it is released. -/
theorem locks_held (s : State ι) (h : Runs.Reaches step (fun _ _ => True) start s) :
    (∀ key, ((s.locks.state key).holders.map (fun h => h.txn)).Nodup ∧
      ∀ g ∈ (s.locks.state key).holders, g.mode = .exclusive →
        ∀ g' ∈ (s.locks.state key).holders, g' = g) ∧
    ∀ c ∈ s.granted, ∃ g ∈ (s.locks.state c.key).holders,
      g.txn = c.txn ∧ (c.mode = .exclusive → g.mode = .exclusive) := by
  have hstart : Safe (start : State ι) :=
    ⟨fun _ => ⟨nodup_nil,fun _ hg => absurd hg not_mem_nil⟩,fun _ hc => absurd hc not_mem_nil⟩
  have hsafe : Safe s := h.invariant hstart (fun _ _ _ hs _ hstep => safe_step hs hstep)
  exact ⟨fun key => ⟨(hsafe.sound key).distinct,(hsafe.sound key).alone⟩,hsafe.held⟩

def Calling (s : State ι) (txn : TxnId) (key : LockKey) : Prop :=
  ∃ who c, s.calls who = some c ∧ c.txn = txn ∧ c.key = key

/-- A call of the transaction on the key is in progress, or begins. -/
def CallingDuring (s : State ι) (a : Action ι) (txn : TxnId) (key : LockKey) : Prop :=
  Calling s txn key ∨ ∃ who c late, a = .acquire who c late ∧ c.txn = txn ∧ c.key = key

/-- A call that is granted its lock by a retry has been taken out of the queue
before, or another call of its transaction on the key is in progress. -/
def Dequeued (s : State ι) : Action ι → Prop
  | .retry who _ => ∀ c, s.calls who = some c →
      (s.locks.state c.key).isCompatible c.mode c.txn = true →
      (∃ w ∈ (s.locks.state c.key).waiters, w.txn = c.txn) →
      ∃ other, other ≠ who ∧ ∃ c', s.calls other = some c' ∧ c'.txn = c.txn ∧ c'.key = c.key
  | _ => True

def Queued (s : State ι) : Prop := ∀ key, ∀ w ∈ (s.locks.state key).waiters, Calling s w.txn key

lemma calling_other {locks : LockTable} {granted : List Call} {who other : ι}
    {c : Call} (o : Option Call) (hne : other ≠ who) (hc : s.calls other = some c) :
    Calling (⟨locks,update s.calls who o,granted⟩ : State ι) c.txn c.key :=
  ⟨other,c,(update_of_ne hne ..).trans hc,rfl,rfl⟩

lemma queued_section (h : Queued s) (who : ι) (c : Call) (late : Bool)
    (hc : s.calls who = none ∨ (s.calls who = some c ∧ Dequeued s (.retry who late))) :
    Queued (runSection s who c late) := by
  -- a waiter of another transaction or key has a call that is not this one
  have hothers : ∀ locks granted (o : Option Call) w key,
      w ∈ (s.locks.state key).waiters → ¬ (w.txn = c.txn ∧ key = c.key) →
      Calling (⟨locks,update s.calls who o,granted⟩ : State ι) w.txn key := by
    intro locks granted o w key hw hne
    obtain ⟨other,c',hc',htxn,hkey⟩ := h key w hw
    subst hkey
    rw [← htxn]
    refine calling_other o (fun heq => ?_) hc'
    rw [heq] at hc'
    rcases hc with hnone | ⟨hsome,-⟩
    · rw [hnone] at hc'
      cases hc'
    · obtain rfl : c = c' := some.inj (hsome.symm.trans hc')
      exact hne ⟨htxn.symm,rfl⟩
  rw [runSection]
  rcases acquireSection_cases s.locks c late with ⟨hcomp,hrun⟩ | ⟨err,hrun⟩ | hrun
  · rw [hrun]
    intro key w hw
    have hwait : w ∈ (s.locks.state key).waiters := by
      rw [state_insert] at hw
      split at hw
      · rename_i heq
        rw [heq]
        exact hw
      · exact hw
    by_cases hown : w.txn = c.txn ∧ key = c.key
    · obtain ⟨htxn,rfl⟩ := hown
      rcases hc with hnone | ⟨hsome,hdeq⟩
      · obtain ⟨other,c',hc',htxn',hkey'⟩ := h c.key w hwait
        have hne : other ≠ who := by
          rintro rfl
          rw [hnone] at hc'
          cases hc'
        rw [← htxn', ← hkey']
        exact calling_other none hne hc'
      · obtain ⟨other,hne,c',hc',htxn',hkey'⟩ := hdeq c hsome hcomp ⟨w,hwait,htxn⟩
        rw [htxn, ← htxn', ← hkey']
        exact calling_other none hne hc'
    · exact hothers _ _ none w key hwait hown
  · rw [hrun]
    intro key w hw
    rw [state_insert] at hw
    split at hw
    · rename_i heq
      subst heq
      obtain ⟨hw,hother⟩ := mem_filter.mp hw
      have hne : w.txn ≠ c.txn := by simpa using hother
      have hold : w ∈ (s.locks.state c.key).waiters := (mem_addWaiter hw).resolve_right hne
      exact hothers _ _ none w c.key hold (fun hc => hne hc.1)
    · rename_i hkey
      exact hothers _ _ none w key hw (fun hc => hkey hc.2)
  · rw [hrun]
    intro key w hw
    by_cases hown : w.txn = c.txn ∧ key = c.key
    · exact ⟨who,c,update_self ..,hown.1.symm,hown.2.symm⟩
    refine hothers _ _ _ w key ?_ hown
    rw [state_insert] at hw
    split at hw
    · rename_i heq
      subst heq
      exact (mem_addWaiter hw).resolve_right (fun htxn => hown ⟨htxn,rfl⟩)
    · exact hw

lemma queued_step (h : Queued s) (hd : Dequeued s a) (hs : step s a = some s') : Queued s' := by
  rcases step_cases hs with ⟨who,c,late,rfl,hcall⟩ | ⟨txn,key,-,rfl⟩ | ⟨txn,-,rfl⟩
  · rcases hcall with ⟨rfl,hnone⟩ | ⟨rfl,hsome⟩
    · exact queued_section h who c late (.inl hnone)
    · exact queued_section h who c late (.inr ⟨hsome,hd⟩)
  · intro k w hw
    rw [state_release] at hw
    refine h k w ?_
    split at hw
    · exact waiters_grantFrom _ _ hw
    · exact hw
  · intro k w hw
    rw [state_releaseAll] at hw
    exact h k w (mem_of_mem_filter (waiters_grantFrom _ _ hw))

lemma section_holder {who : ι} {c : Call} {late : Bool} {key : LockKey} {g : Holder}
    (hg : g ∈ ((runSection s who c late).locks.state key).holders) :
    g ∈ (s.locks.state key).holders ∨ (g.txn = c.txn ∧ key = c.key) := by
  have hidle : ∀ st : LockState, st.holders = (s.locks.state c.key).holders →
      g ∈ (state (s.locks.insert c.key st) key).holders → g ∈ (s.locks.state key).holders := by
    intro st hst hg
    rw [state_insert] at hg
    split at hg
    · rename_i heq
      rw [heq, ← hst]
      exact hg
    · exact hg
  rw [runSection] at hg
  rcases acquireSection_cases s.locks c late with ⟨hcomp,hrun⟩ | ⟨err,hrun⟩ | hrun
  · rw [hrun] at hg
    rw [state_insert] at hg
    split at hg
    · rename_i heq
      subst heq
      exact (mem_withHolder hg).imp id (fun htxn => ⟨htxn,rfl⟩)
    · exact .inl hg
  · rw [hrun] at hg
    exact .inl (hidle (((s.locks.state c.key).addWaiter c.txn c.mode).removeWaiter c.txn)
      holders_addWaiter hg)
  · rw [hrun] at hg
    exact .inl (hidle _ holders_addWaiter hg)

lemma new_holder (h : Queued s) (hs : step s a = some s')
    {key : LockKey} {g : Holder} (hg : g ∈ (s'.locks.state key).holders)
    (hnew : ∀ g' ∈ (s.locks.state key).holders, g'.txn ≠ g.txn) : CallingDuring s a g.txn key := by
  have hgrant : ∀ hs' : List Holder, hs' ⊆ (s.locks.state key).holders → ∀ ws : List WaitEntry,
      ws ⊆ (s.locks.state key).waiters → g ∈ (grantFrom hs' ws).holders → Calling s g.txn key := by
    intro hs' hsub ws hws hmem
    rcases holders_grantFrom hmem with ⟨g',hg',htxn⟩ | ⟨w,hw,htxn⟩
    · exact absurd htxn (hnew g' (hsub hg'))
    · rw [← htxn]
      exact h key w (hws hw)
  rcases step_cases hs with ⟨who,c,late,rfl,hcall⟩ | ⟨txn,k,rfl,rfl⟩ | ⟨txn,rfl,rfl⟩
  · have hown : g.txn = c.txn ∧ key = c.key :=
      (section_holder hg).resolve_left (fun hold => hnew g hold rfl)
    rcases hcall with ⟨rfl,-⟩ | ⟨rfl,hsome⟩
    · exact .inr ⟨who,c,late,rfl,hown.1.symm,hown.2.symm⟩
    · exact .inl ⟨who,c,hsome,hown.1.symm,hown.2.symm⟩
  · dsimp only at hg
    rw [state_release] at hg
    split at hg
    · exact .inl (hgrant _ (fun _ hx => mem_of_mem_filter hx) _ (fun _ hx => hx) hg)
    · exact absurd rfl (hnew g hg)
  · dsimp only at hg
    rw [state_releaseAll] at hg
    exact .inl (hgrant _ (fun _ hx => mem_of_mem_filter hx) _ (fun _ hx => mem_of_mem_filter hx) hg)

/-- In every run in which no call is granted its lock while it is in the queue,
each waiter has a call in progress, and only who has one becomes a holder. -/
theorem waiters_call (s : State ι) (h : Runs.Reaches step Dequeued start s) :
    (∀ key, ∀ w ∈ (s.locks.state key).waiters, Calling s w.txn key) ∧
    ∀ a s', step s a = some s' → ∀ key, ∀ g ∈ (s'.locks.state key).holders,
      (∀ g' ∈ (s.locks.state key).holders, g'.txn ≠ g.txn) → CallingDuring s a g.txn key := by
  have hstart : Queued (start : State ι) := fun _ _ hw => absurd hw not_mem_nil
  have hqueued : Queued s := h.invariant hstart (fun _ _ _ hs hd hstep => queued_step hs hd hstep)
  exact ⟨hqueued,fun a s' hs key g hg hnew => new_holder hqueued hs hg hnew⟩

def row : LockKey := ⟨"t",[1]⟩

def exclusive (txn : TxnId) : Call := ⟨txn,row,.exclusive⟩

def shared (txn : TxnId) : Call := ⟨txn,row,.shared⟩

def waiting : List (Action (Fin 5)) :=
  [.acquire 1 (exclusive 1) false, .acquire 2 (exclusive 2) false]

/-- A reader that is queued behind a writer goes ahead with the reader that holds
the lock, and all locks are released but that of the writer. -/
def overtaking : List (Action (Fin 5)) :=
  [.acquire 1 (exclusive 1) false, .acquire 2 (shared 2) false, .acquire 3 (exclusive 3) false,
    .acquire 4 (shared 4) false, .release 1 row, .retry 2 false, .retry 4 false, .release 2 row,
    .release 4 row, .retry 3 false]

def isRetry : Action (Fin 5) → Bool
  | .retry _ _ => true
  | _ => false

lemma dequeued_of_first (s : State (Fin 5)) (a : Action (Fin 5)) (h : (!isRetry a) = true) :
    Dequeued s a := by
  cases a with
  | retry who late => cases h
  | acquire | release | releaseAll => trivial

def after (actions : List (Action (Fin 5))) : State (Fin 5) :=
  (Runs.run step start actions).getD start

lemma after_reached {actions : List (Action (Fin 5))}
    (h : (Runs.run step (start : State (Fin 5)) actions).isSome) :
    Runs.Reaches step (fun _ _ => True) start (after actions) :=
  Runs.Reaches.of_isSome (p := fun _ _ => true) (fun _ _ _ => trivial) actions h

theorem waiting_held : (exclusive 1) ∈ (after waiting).granted ∧
    ∃ g ∈ ((after waiting).locks.state row).holders,
      g.txn = 1 ∧ (LockMode.exclusive = .exclusive → g.mode = .exclusive) :=
  ⟨by decide +kernel,(locks_held (after waiting) (after_reached (by decide +kernel))).2
    (exclusive 1) (by decide +kernel)⟩

theorem waiting_called : Runs.Reaches step Dequeued start (after waiting) ∧
    Calling (after waiting) 2 row := by
  have hreach : Runs.Reaches step Dequeued start (after waiting) :=
    Runs.Reaches.of_isSome dequeued_of_first waiting (by decide +kernel)
  exact ⟨hreach,(waiters_call (after waiting) hreach).1 row ⟨2,.exclusive⟩ (by decide +kernel)⟩

/-- The reader is still in the queue when all calls have returned, and the release
of the writer makes it a holder. -/
theorem release_grants_unasked : Runs.Reaches step (fun _ _ => True) start (after overtaking) ∧
    (∀ who, (after overtaking).calls who = none) ∧
    (∃ w ∈ ((after overtaking).locks.state row).waiters, w.txn = 4) ∧
    (∀ g ∈ ((after overtaking).locks.state row).holders, g.txn ≠ 4) ∧
    ∃ s', step (after overtaking) (.release 3 row) = some s' ∧
      ∃ g ∈ (s'.locks.state row).holders, g.txn = 4 := by
  refine ⟨after_reached (by decide +kernel),?_,?_,?_,_,rfl,?_⟩
  · decide +kernel
  · decide +kernel
  · decide +kernel
  · decide +kernel

end Locking

end ByteDB
