import ByteDB.BPlusTreeLevels
import ByteDB.Runs

/-!
# Calls of the B+ tree on several threads

A call takes one lock at a time: it reads a node and lets go of it before it
takes the next one, and it changes a node, or the root, only while it has its
lock. A step is what a call does between taking a lock and letting go of it. A
search and a delete let go of the leaf that they have found and take its lock
again; only an insert then looks at the high key once more.
-/

set_option autoImplicit false

namespace ByteDB.BPlusTree
open ByteDB.Slice ByteDB.LinkedLevel Option List Function

inductive Call where
  | search (key : Bytes)
  | delete (key : Bytes)
  | insert (key value : Bytes)
  deriving DecidableEq

namespace Call

def key : Call → Bytes
  | .search key => key
  | .delete key => key
  | .insert key _ => key

def writes : Call → Bool
  | .search _ => false
  | .delete _ => true
  | .insert _ _ => true

def inserts : Call → Bool
  | .insert _ _ => true
  | _ => false

end Call

inductive Outcome where
  | found (value : Option Bytes)
  | deleted (there : Bool)
  | inserted
  | internalError
  deriving DecidableEq

/-- Where a call is. `path` has the lowest of the internal nodes passed first and
is used by an insert only; `root` is the root that it started from. -/
inductive Local where
  | idle
  | begun (call : Call)
  | moving (call : Call) (root : NodeId) (path : List NodeId) (id : NodeId)
  | settled (call : Call) (root : NodeId) (path : List NodeId) (id : NodeId)
  | atLeaf (call : Call) (root : NodeId) (path : List NodeId) (id : NodeId)
  | raising (call : Call) (root : NodeId) (path : List NodeId) (split : Bytes × NodeId)
      (id : NodeId)
  | raised (call : Call) (root : NodeId) (path : List NodeId) (split : Bytes × NodeId) (id : NodeId)
  | crowning (call : Call) (root : NodeId) (split : Bytes × NodeId)
  | waiting (call : Call) (split : Bytes × NodeId) (id : NodeId)
  | waited (call : Call) (split : Bytes × NodeId) (id : NodeId)
  | done (call : Call) (outcome : Outcome)
  deriving DecidableEq

def nextFor (node : BTreeNode) (key : Bytes) : Option NodeId :=
  match node.highKey, node.rightLink with
  | some hk, some next => if hk < key then some next else none
  | _, _ => none

namespace Local

def inProgress : Local → Option Call
  | .idle | .done _ _ => none
  | .begun call | .moving call _ _ _ | .settled call _ _ _ | .atLeaf call _ _ _ => some call
  | .raising call _ _ _ _ | .raised call _ _ _ _ | .crowning call _ _ => some call
  | .waiting call _ _ | .waited call _ _ => some call

def descends : Local → Option Call
  | .begun call | .moving call _ _ _ | .settled call _ _ _ | .atLeaf call _ _ _ => some call
  | _ => none

def offer (call : Call) (root : NodeId) : List NodeId → Bytes × NodeId → Local
  | [], split => .crowning call root split
  | parent::path, split => .raising call root path split parent

def leafStep (t : BPlusTree) (call : Call) (root : NodeId) (path : List NodeId) (id : NodeId)
    (node : BTreeNode) : Option (BPlusTree × Local) :=
  match call with
  | .search key => (searchAt node key).map (fun v => (t,.done call (.found v)))
  | .delete key => (t.deleteAt id node key).map (fun r => (r.1,.done call (.deleted r.2)))
  | .insert key value =>
    match node with
    | .internal _ => some (t,.done call .internalError)
    | .leaf leaf =>
      if (nextFor node key).isSome then some (t,.begun call)
      else
        (t.leafInsertLocked id leaf key value).map (fun r =>
          match r.2 with
          | none => (r.1,.done call .inserted)
          | some split => (r.1,offer call root path split))

def step (t : BPlusTree) : Local → Option (BPlusTree × Local)
  | .idle => none
  | .begun call => some (t,.moving call t.root [] t.root)
  | .moving call root path id => do
    let node ← t.nodes[id]?
    match nextFor node call.key with
    | some next => some (t,.moving call root path next)
    | none => some (t,.settled call root path id)
  | .settled call root path id => do
    match ← t.nodes[id]? with
    | .leaf _ => some (t,.atLeaf call root path id)
    | .internal n =>
      let next ← childFor n call.key
      some (t,.moving call root (id::path) next)
  | .atLeaf call root path id => do
    let node ← t.nodes[id]?
    leafStep t call root path id node
  | .raising call root path split id => do
    let node ← t.nodes[id]?
    match nextFor node split.1 with
    | some next => some (t,.raising call root path split next)
    | none => some (t,.raised call root path split id)
  | .raised call root path split id => do
    match ← t.nodes[id]? with
    | .leaf _ => some (t,.done call .internalError)
    | .internal n =>
      match ← t.internalInsertLocked id n split.1 split.2 with
      | (t,none) => some (t,.done call .inserted)
      | (t,some next) => some (t,offer call root path next)
  | .crowning call root split =>
    if t.root = root then some (t.growRoot split,.done call .inserted)
    else some (t,.waiting call split t.root)
  | .waiting call split id => do
    let node ← t.nodes[id]?
    match nextFor node split.1 with
    | some next => some (t,.waiting call split next)
    | none => some (t,.waited call split id)
  | .waited call split id => do
    match ← t.nodes[id]? with
    | .leaf _ => some (t,.done call .inserted)
    | .internal n =>
      if split.2 ∈ n.children then some (t,.done call .inserted)
      else
        let next ← childFor n split.1
        some (t,.waiting call split next)
  | .done _ _ => none

end Local

structure Threads (ι : Type) where
  tree : BPlusTree
  locals : ι → Local

inductive Action (ι : Type) where
  | call (who : ι) (c : Call)
  | run (who : ι)

namespace Threads
variable {ι : Type} [DecidableEq ι]

def start (order : ℕ) : Threads ι := ⟨BPlusTree.new order,fun _ => .idle⟩

def step (s : Threads ι) : Action ι → Option (Threads ι)
  | .call who c =>
    if (s.locals who).inProgress = none then
      some ⟨s.tree,Function.update s.locals who (.begun c)⟩
    else none
  | .run who =>
    ((s.locals who).step s.tree).map (fun r => ⟨r.1,Function.update s.locals who r.2⟩)

end Threads

variable {i : ℕ} {l : Local}

section

def PointsTo (t : BPlusTree) (leaves : List NodeId) (uppers : List (List NodeId)) (i : ℕ)
    (k : Bytes) (c : NodeId) : Prop :=
  AdmAt t.nodes (Entered (highOf t.nodes) leaves) uppers i k c

def PathOk (leaves : List NodeId) (uppers : List (List NodeId)) : ℕ → List NodeId → Prop
  | _, [] => True
  | i, p::path => InLevel leaves uppers i p ∧ PathOk leaves uppers (i+1) path

def LocalOk (t : BPlusTree) (leaves : List NodeId) (uppers : List (List NodeId)) : Local → Prop
  | .moving call root path id | .settled call root path id =>
    ∃ i, PointsTo t leaves uppers i call.key id ∧ PathOk leaves uppers (i+1) path ∧
      InLevel leaves uppers (i+path.length) root
  | .atLeaf call root path id =>
    Entered (highOf t.nodes) leaves call.key id ∧ PathOk leaves uppers 1 path ∧
      InLevel leaves uppers path.length root
  | .raising _ root path split id | .raised _ root path split id =>
    ∃ i, PointsTo t leaves uppers i split.1 split.2 ∧ InLevel leaves uppers (i+1) id ∧
      PathOk leaves uppers (i+2) path ∧ InLevel leaves uppers (i+1+path.length) root
  | .crowning _ root split =>
    ∃ i, PointsTo t leaves uppers i split.1 split.2 ∧ InLevel leaves uppers i root
  | _ => True

structure Grows (t : BPlusTree) (leaves : List NodeId) (uppers : List (List NodeId))
    (t' : BPlusTree) (leaves' : List NodeId) (uppers' : List (List NodeId)) : Prop where
  points : ∀ i k c, PointsTo t leaves uppers i k c → PointsTo t' leaves' uppers' i k c
  levels : ∀ i, (levelAt leaves uppers i).Sublist (levelAt leaves' uppers' i)

variable {t t' : BPlusTree} {leaves leaves' : List NodeId} {uppers uppers' : List (List NodeId)}

lemma Grows.refl (t : BPlusTree) (leaves : List NodeId) (uppers : List (List NodeId)) :
    Grows t leaves uppers t leaves uppers :=
  ⟨fun _ _ _ h => h,fun _ => List.Sublist.refl _⟩

variable (hg : Grows t leaves uppers t' leaves' uppers')
include hg

lemma Grows.members (i : ℕ) (c : NodeId)
    (h : InLevel leaves uppers i c) : InLevel leaves' uppers' i c :=
  (hg.levels i).subset h

lemma Grows.path {path : List NodeId}
    (h : PathOk leaves uppers i path) : PathOk leaves' uppers' i path := by
  induction path generalizing i with
  | nil => trivial
  | cons p path ih => exact ⟨hg.members i p h.1,ih h.2⟩

lemma Grows.localOk (h : LocalOk t leaves uppers l) : LocalOk t' leaves' uppers' l := by
  cases l with
  | moving call root path id | settled call root path id =>
    obtain ⟨i,hp,hpath,hroot⟩ := h
    exact ⟨i,hg.points i _ _ hp,hg.path hpath,hg.members _ _ hroot⟩
  | atLeaf call root path id =>
    obtain ⟨he,hpath,hroot⟩ := h
    exact ⟨hg.points 0 _ _ he,hg.path hpath,hg.members _ _ hroot⟩
  | raising call root path split id | raised call root path split id =>
    obtain ⟨i,hp,hid,hpath,hroot⟩ := h
    exact ⟨i,hg.points i _ _ hp,hg.members _ _ hid,hg.path hpath,hg.members _ _ hroot⟩
  | crowning call root split =>
    obtain ⟨i,hp,hroot⟩ := h
    exact ⟨i,hg.points i _ _ hp,hg.members _ _ hroot⟩
  | _ => trivial

end

variable {node : BTreeNode}

section
variable {t t' : BPlusTree} {leaves leaves' : List NodeId} {uppers uppers' : List (List NodeId)}
  {m : Bytes → Option Bytes} {call : Call} {root id : NodeId} {path : List NodeId} {l l' : Local}

/-- A step leaves a tree in which no pointer is lost, and its own call with
pointers that it may rely on. Only what it writes is changed in the map. -/
structure Stepped (t : BPlusTree) (leaves : List NodeId) (uppers : List (List NodeId))
    (m : Bytes → Option Bytes) (l : Local) (t' : BPlusTree) (l' : Local) : Prop where
  after : ∃ leaves' uppers' m', TreeInv t' leaves' uppers' ∧
    Enumerates (entries t'.nodes leaves') m' ∧ Grows t leaves uppers t' leaves' uppers' ∧
    LocalOk t' leaves' uppers' l' ∧
    ∀ k, (∀ c, l.inProgress = some c → c.writes = true → c.key ≠ k) → m' k = m k
  progress : l'.inProgress = none ∨ l'.inProgress = l.inProgress

lemma stepped_read (h : TreeInv t leaves uppers) (hm : Enumerates (entries t.nodes leaves) m)
    (hl : LocalOk t leaves uppers l') (hp : l'.inProgress = none ∨ l'.inProgress = l.inProgress) :
    Stepped t leaves uppers m l t l' :=
  ⟨⟨leaves,uppers,m,h,hm,.refl t leaves uppers,hl,fun _ _ => rfl⟩,hp⟩

lemma offer_inProgress (call : Call) (root : NodeId) (path : List NodeId)
    (split : Bytes × NodeId) : (Local.offer call root path split).inProgress = some call := by
  cases path <;> rfl

variable {split : Bytes × NodeId}

lemma offer_ok (hs : PointsTo t leaves uppers i split.1 split.2)
    (hpath : PathOk leaves uppers (i+1) path) (hroot : InLevel leaves uppers (i+path.length) root) :
    LocalOk t leaves uppers (Local.offer call root path split) := by
  cases path with
  | nil => exact ⟨i,hs,hroot⟩
  | cons p path =>
    have hlevel : i+(path.length+1) = i+1+path.length := by omega
    rw [length_cons, hlevel] at hroot
    exact ⟨i,hs,hpath.1,hpath.2,hroot⟩

variable {key : Bytes} {next : NodeId}

lemma nextFor_some (hnode : t.nodes[id]? = some node) (h : nextFor node key = some next) :
    ∃ high, highOf t.nodes id = some high ∧ high < key ∧ linkOf t.nodes id = some next := by
  rw [highOf, linkOf, hnode, bind_some, bind_some]
  rw [nextFor] at h
  split at h
  · next hk next' hhigh hlink =>
    split at h
    · next hlt =>
      cases h
      exact ⟨hk,hhigh,hlt,hlink⟩
    · cases h
  · cases h

lemma entered_leaf (h : TreeInv t leaves uppers) (he : Entered (highOf t.nodes) leaves key id) :
    ∃ pre rest es high link, leaves = pre++id::rest ∧
      (∀ a ∈ pre, ∃ h, highOf t.nodes a = some h ∧ h < key) ∧
      t.nodes[id]? = some (.leaf (packed es high link)) := by
  obtain ⟨pre,rest,rfl,hpre⟩ := he
  obtain ⟨⟨es,high,link,hnode,-⟩,-⟩ := leaves_append h.leavesOk
  exact ⟨pre,rest,es,high,link,rfl,hpre,hnode⟩

variable {es : List (Bytes × Bytes)} {pre rest : List NodeId} {high : Option Bytes}
  {link : Option NodeId}

lemma home_of_entered (h : TreeInv t leaves uppers)
    (hcut : leaves = pre++id::rest) (hpre : ∀ a ∈ pre, ∃ h, highOf t.nodes a = some h ∧ h < key)
    (hnode : t.nodes[id]? = some (.leaf (packed es high link)))
    (hnext : nextFor (.leaf (packed es high link)) key = none) :
    Home t leaves key id pre rest es high link := by
  refine ⟨hcut,hnode,hpre,fun hne => ?_⟩
  have hl := h.linked
  rw [hcut] at hl
  cases rest with
  | nil => exact absurd rfl hne
  | cons b rest =>
    obtain ⟨hlink,hhigh,-⟩ := linked_append hl
    rw [link_of_packed hnode] at hlink
    rw [high_of_packed hnode] at hhigh
    obtain ⟨k,hk⟩ := isSome_iff_exists.mp hhigh
    refine ⟨k,hk,?_⟩
    by_contra hlt
    rw [nextFor] at hnext
    simp [packed, BTreeNode.highKey, BTreeNode.rightLink, hk, hlink, not_le.mp hlt] at hnext

lemma not_in_left (h : TreeInv t leaves uppers) (hcut : leaves = pre++id::rest)
    (hnode : t.nodes[id]? = some (.leaf (packed es high link)))
    (hnext : nextFor (.leaf (packed es high link)) key = some next) :
    Increasing es ∧ ∀ e ∈ es, e.1 < key := by
  obtain ⟨k,hk,hlt,hlink⟩ := nextFor_some hnode hnext
  have hl := h.linked
  rw [hcut] at hl
  obtain ⟨rest',rfl⟩ := link_next hl hlink
  rw [high_of_packed hnode] at hk
  constructor
  · have hi := h.increasing
    rw [hcut, entries_append, entries_cons, entries_at_packed hnode] at hi
    exact (pairwise_append.mp (pairwise_append.mp hi).2.1).1
  · intro e he
    exact ((leaf_bounds (hcut ▸ h.leavesOk) hnode (by simp) hk).1 e he).trans_lt hlt

section
variable (hi : Increasing es) (hlt : ∀ e ∈ es, e.1 < key)
include hi hlt

lemma search_left : binarySearch (es.map Prod.fst) key = some (.error es.length) := by
  rcases entry_search_cases es hi key with ⟨as,v,bs,rfl,-,-,-⟩ | ⟨as,bs,rfl,-,hbs,hb⟩
  · exact absurd (hlt (key,v) (by simp)) (lt_irrefl _)
  · cases bs with
    | nil => simpa using hb
    | cons b bs => exact absurd (hlt b (by simp)) (not_lt.mpr (hbs b (by simp)).le)

lemma search_at_left (high : Option Bytes) (link : Option NodeId) :
    searchAt (.leaf (packed es high link)) key = some none := by
  have hkeys : (packed es high link).keys = es.map Prod.fst := rfl
  simp only [searchAt, hkeys, search_left hi hlt, bind_eq_bind, bind_some]

lemma delete_at_left (high : Option Bytes) (link : Option NodeId) :
    t.deleteAt id (.leaf (packed es high link)) key = some (t,false) := by
  have hkeys : (packed es high link).keys = es.map Prod.fst := rfl
  simp only [deleteAt, hkeys, search_left hi hlt, bind_eq_bind, bind_some]

end

lemma LeafWritten.grows {out : Option (Bytes × NodeId)}
    (hw : LeafWritten t t' leaves leaves' uppers m out) :
    Grows t leaves uppers t' leaves' uppers :=
  ⟨fun _ _ _ => adm_at_mono hw.keeps hw.frame,level_at_lower hw.sublist uppers⟩

variable {k : Bytes}

lemma update_elsewhere (call : Call) {value : Option Bytes}
    (hw : call.writes = true) (hk : ∀ c, some call = some c → c.writes = true → c.key ≠ k) :
    update m call.key value k = m k :=
  update_of_ne (hk call rfl hw).symm ..

/-- The steps of a descent are paid for by the nodes that it has passed. -/
def Spent (leaves : List NodeId) (uppers : List (List NodeId)) (n : ℕ) : Local → Prop
  | .begun _ => n = 0
  | .moving _ _ _ id => ∃ i, InLevel leaves uppers i id ∧ n ≤ 2*visitsBefore leaves uppers i id+1
  | .settled _ _ _ id => ∃ i, InLevel leaves uppers i id ∧ n ≤ 2*visitsBefore leaves uppers i id+2
  | .atLeaf _ _ _ id => ∃ i, InLevel leaves uppers i id ∧ n ≤ 2*visitsBefore leaves uppers i id+3
  | _ => True

variable {n : ℕ}

lemma Spent.mono (h : TreeInv t' leaves' uppers')
    (hg : Grows t leaves uppers t' leaves' uppers') (hs : Spent leaves uppers n l) :
    Spent leaves' uppers' n l := by
  have hvisits : ∀ {i : ℕ} {id : NodeId}, InLevel leaves uppers i id →
      visitsBefore leaves uppers i id ≤ visitsBefore leaves' uppers' i id := fun hid =>
    visits_before_mono h.nodup hg.levels hid
  cases l with
  | begun call => exact hs
  | moving call root path id | settled call root path id | atLeaf call root path id =>
    obtain ⟨i,hid,hn⟩ := hs
    have hle := hvisits hid
    exact ⟨i,hg.members i id hid,by omega⟩
  | _ => trivial

lemma descends_inProgress (h : l.descends = some call) : l.inProgress = some call := by
  cases l with
  | begun c | moving c root path id | settled c root path id | atLeaf c root path id => exact h
  | _ => cases h

lemma spent_le (h : TreeInv t leaves uppers) (hd : l.descends = some call)
    (hs : Spent leaves uppers n l) : n ≤ 2*t.nodes.length+1 := by
  have hvisits : ∀ {i : ℕ} {id : NodeId}, InLevel leaves uppers i id →
      visitsBefore leaves uppers i id < t.nodes.length := fun hid =>
    visits_before_lt h.nodup h.bounded hid
  cases l with
  | begun call =>
    obtain rfl : n = 0 := hs
    exact Nat.zero_le _
  | moving call root path id | settled call root path id | atLeaf call root path id =>
    obtain ⟨i,hid,hn⟩ := hs
    have hlt := hvisits hid
    omega
  | _ => cases hd

variable {c : NodeId}

lemma points_to_level (h : PointsTo t leaves uppers i k c) : InLevel leaves uppers i c := by
  refine in_level_of_adm ?_ h
  rintro k c ⟨pre,post,rfl,-⟩
  simp

lemma points_to_node (h : TreeInv t leaves uppers)
    (hp : PointsTo t leaves uppers i k c) : ∃ node, t.nodes[c]? = some node := by
  have hlt := h.bounded c (in_level_mem (points_to_level hp))
  exact ⟨_,getElem?_eq_getElem hlt⟩

lemma descend_step (h : TreeInv t leaves uppers) (hl : LocalOk t leaves uppers l)
    (hd : l.descends = some call) (hleaf : ∀ root path id, l ≠ .atLeaf call root path id) :
    ∃ l', l.step t = some (t,l') ∧ l'.descends = some call ∧ LocalOk t leaves uppers l' ∧
      ∀ n, Spent leaves uppers n l → Spent leaves uppers (n+1) l' := by
  cases l with
  | begun c =>
    have htop : InLevel leaves uppers uppers.length t.root := in_level_top h.rooted
    have hhead : PointsTo t leaves uppers uppers.length c.key t.root :=
      adm_at_head (entered_steers _ leaves) h.rooted
    refine ⟨_,rfl,hd,⟨uppers.length,hhead,trivial,htop⟩,?_⟩
    rintro n rfl
    exact ⟨uppers.length,htop,by omega⟩
  | moving c root path id =>
    obtain ⟨i,hp,hpath,hroot⟩ := hl
    obtain ⟨node,hnode⟩ := points_to_node h hp
    cases hnext : nextFor node c.key with
    | none =>
      refine ⟨.settled c root path id,by simp [Local.step, hnode, hnext],hd, ⟨i,hp,hpath,hroot⟩,?_⟩
      rintro n ⟨j,hj,hn⟩
      exact ⟨j,hj,by omega⟩
    | some next =>
      obtain ⟨k,hk,hlt,hlink⟩ := nextFor_some hnode hnext
      have hp' : PointsTo t leaves uppers i c.key next :=
        adm_at_next h.uppersOk (fun he => entered_next h.linked he hk hlt hlink) hk hlt hlink hp
      refine ⟨.moving c root path next,by simp [Local.step, hnode, hnext],hd,
        ⟨i,hp',hpath,hroot⟩,?_⟩
      rintro n ⟨j,hj,hn⟩
      have hlt := visits_before_next h.linked h.uppersOk h.nodup hj hlink
      exact ⟨j,in_level_next h.linked h.uppersOk hlink hj,by omega⟩
  | settled c root path id =>
    obtain ⟨i,hp,hpath,hroot⟩ := hl
    have hid := points_to_level hp
    cases i with
    | zero =>
      obtain ⟨pre,rest,es,high,link,-,-,hnode⟩ := entered_leaf h hp
      rw [Nat.zero_add] at hpath hroot
      refine ⟨.atLeaf c root path id,by simp [Local.step, hnode],hd,⟨hp,hpath,hroot⟩,?_⟩
      rintro n ⟨j,hj,hn⟩
      exact ⟨j,hj,by omega⟩
    | succ i =>
      obtain ⟨node,next,hnode,hnext,hadm⟩ := adm_at_child (entered_steers _ leaves) h.uppersOk hp
      have hlevel : i+1+path.length = i+(path.length+1) := by omega
      rw [hlevel] at hroot
      refine ⟨.moving c root (id::path) next,by simp [Local.step, hnode, hnext],hd,
        ⟨i,hadm,⟨hid,hpath⟩,hroot⟩,?_⟩
      rintro n ⟨j,hj,hn⟩
      obtain rfl := in_level_unique h.nodup hj hid
      have hlt := visits_before_down hj next
      exact ⟨i,points_to_level hadm,by omega⟩
  | atLeaf c root path id =>
    cases hd
    exact absurd rfl (hleaf root path id)
  | _ => cases hd

variable (h : TreeInv t leaves uppers) (hm : Enumerates (entries t.nodes leaves) m)
include h hm

lemma stepped_descent (hl : LocalOk t leaves uppers l)
    (hd : l.descends = some call) (hleaf : ∀ root path id, l ≠ .atLeaf call root path id)
    (hstep : l.step t = some (t',l')) : Stepped t leaves uppers m l t' l' := by
  obtain ⟨l1,hl1,hd1,hok,-⟩ := descend_step h hl hd hleaf
  rw [hstep] at hl1
  cases hl1
  refine stepped_read h hm hok (.inr ?_)
  rw [descends_inProgress hd, descends_inProgress hd1]

lemma stepped_leaf (hl : LocalOk t leaves uppers (.atLeaf call root path id))
    (hstep : Local.step t (.atLeaf call root path id) = some (t',l')) :
    Stepped t leaves uppers m (.atLeaf call root path id) t' l' := by
  obtain ⟨node,hnode,hstep⟩ := bind_eq_some_iff.mp hstep
  obtain ⟨he,hpath,hroot⟩ := hl
  obtain ⟨pre,rest,es,high,link,hcut,hpre,hleaf⟩ := entered_leaf h he
  rw [hnode] at hleaf
  cases hleaf
  cases call with
  | search key =>
    obtain ⟨v,-,hv⟩ := map_eq_some_iff.mp hstep
    cases hv
    exact stepped_read h hm trivial (.inl rfl)
  | delete key =>
    obtain ⟨r,hr,hv⟩ := map_eq_some_iff.mp hstep
    cases hv
    cases hnext : nextFor (.leaf (packed es high link)) key with
    | none =>
      have hh : Home t leaves key id pre rest es high link :=
        home_of_entered h hcut hpre hnode hnext
      obtain ⟨t',hd,hw⟩ := delete_at_home h hm hh
      rw [hd] at hr
      cases hr
      exact ⟨⟨leaves,uppers,_,hw.inv,hw.holds,hw.grows,trivial,fun k hk =>
        update_elsewhere (.delete key) rfl hk⟩,.inl rfl⟩
    | some next =>
      obtain ⟨hi,hlt⟩ := not_in_left h hcut hnode hnext
      rw [delete_at_left hi hlt] at hr
      cases hr
      exact stepped_read h hm trivial (.inl rfl)
  | insert key value =>
    cases hnext : nextFor (.leaf (packed es high link)) key with
    | some next =>
      simp only [Local.leafStep, hnext, isSome_some, if_true] at hstep
      cases hstep
      exact stepped_read h hm trivial (.inr rfl)
    | none =>
      simp only [Local.leafStep, hnext, isSome_none, Bool.false_eq_true, if_false] at hstep
      have hh : Home t leaves key id pre rest es high link :=
        home_of_entered h hcut hpre hnode hnext
      obtain ⟨t1,leaves1,out,hins,hw⟩ := leaf_insert_represents value h hm hh
      rw [hins, map_some] at hstep
      have hkeep : ∀ k, (∀ c, some (Call.insert key value) = some c → c.writes = true → c.key ≠ k) →
          update m key (some value) k = m k := fun k hk =>
        update_elsewhere (.insert key value) rfl hk
      cases out with
      | none =>
        cases hstep
        exact ⟨⟨leaves1,uppers,_,hw.inv,hw.holds,hw.grows,trivial,hkeep⟩,.inl rfl⟩
      | some split =>
        cases hstep
        refine ⟨⟨leaves1,uppers,_,hw.inv,hw.holds,hw.grows,?_,hkeep⟩,
          .inr (offer_inProgress _ _ _ _)⟩
        refine offer_ok (i := 0) (hw.offer split rfl) (hw.grows.path hpath) ?_
        rw [Nat.zero_add]
        exact hw.grows.members _ _ hroot

lemma stepped_raising (hl : LocalOk t leaves uppers (.raising call root path split id))
    (hstep : Local.step t (.raising call root path split id) = some (t',l')) :
    Stepped t leaves uppers m (.raising call root path split id) t' l' := by
  obtain ⟨node,hnode,hstep⟩ := bind_eq_some_iff.mp hstep
  obtain ⟨i,hp,hid,hpath,hroot⟩ := hl
  cases hnext : nextFor node split.1 with
  | none =>
    simp only [hnext] at hstep
    cases hstep
    exact stepped_read h hm ⟨i,hp,hid,hpath,hroot⟩ (.inr rfl)
  | some next =>
    simp only [hnext] at hstep
    cases hstep
    obtain ⟨k,-,-,hlink⟩ := nextFor_some hnode hnext
    exact stepped_read h hm ⟨i,hp,in_level_next h.linked h.uppersOk hlink hid,hpath,hroot⟩
      (.inr rfl)

/-- A node of the level above takes the split, also if it is not the parent any more. -/
lemma stepped_raised (hl : LocalOk t leaves uppers (.raised call root path split id))
    (hstep : Local.step t (.raised call root path split id) = some (t',l')) :
    Stepped t leaves uppers m (.raised call root path split id) t' l' := by
  obtain ⟨node,hnode,hstep⟩ := bind_eq_some_iff.mp hstep
  obtain ⟨i,hp,hid,hpath,hroot⟩ := hl
  obtain ⟨hdl,hdu,hdis⟩ := nodup_append.mp h.nodup
  have hbu : ∀ a ∈ uppers.flatten, a < t.nodes.length := fun a ha =>
    h.bounded a (mem_append.mpr (.inr ha))
  obtain ⟨n,t1,uppers1,out,hn,hi,hr⟩ := raise_ok h.uppersOk hdu hbu hid hp
  rw [hnode] at hn
  cases hn
  obtain ⟨hinv,hent,-⟩ := propagated_inv h hr.levels
  have hsame : ∀ a ∈ leaves, t1.nodes[a]? = t.nodes[a]? := fun a ha =>
    hr.levels.frame a (fun hmem => hdis a ha a hmem rfl) (h.bounded a (mem_append.mpr (.inl ha)))
  have hentered : ∀ k c, Entered (highOf t.nodes) leaves k c →
      Entered (highOf t1.nodes) leaves k c := fun k c =>
    entered_congr (fun a ha => high_of_eq (hsame a ha))
  have hg : Grows t leaves uppers t1 leaves uppers1 :=
    ⟨fun j k c hc => adm_at_mono hentered (fun _ _ => rfl) (hr.keeps j k c hc),hr.grows⟩
  simp only [hi, bind_eq_bind, bind_some] at hstep
  cases out with
  | none =>
    cases hstep
    exact ⟨⟨leaves,uppers1,m,hinv,hent ▸ hm,hg,trivial,fun _ _ => rfl⟩,.inl rfl⟩
  | some next =>
    cases hstep
    refine ⟨⟨leaves,uppers1,m,hinv,hent ▸ hm,hg,?_,fun _ _ => rfl⟩, .inr (offer_inProgress _ _ _ _)⟩
    exact offer_ok (adm_at_mono hentered (fun _ _ => rfl) (hr.offer next rfl)) (hg.path hpath)
      (hg.members _ _ hroot)

lemma stepped_crowning (hl : LocalOk t leaves uppers (.crowning call root split))
    (hstep : Local.step t (.crowning call root split) = some (t',l')) :
    Stepped t leaves uppers m (.crowning call root split) t' l' := by
  obtain ⟨i,hp,hroot⟩ := hl
  rw [Local.step] at hstep
  split at hstep
  · next heq =>
    cases hstep
    subst heq
    obtain rfl : i = uppers.length := in_level_unique h.nodup hroot (in_level_top h.rooted)
    obtain ⟨hinv,hent⟩ := grow_root_inv h (adm_at_top hp)
    have hold : ∀ a ∈ leaves++uppers.flatten, (t.growRoot split).nodes[a]? = t.nodes[a]? :=
      fun a ha => getElem?_append_left (h.bounded a ha)
    refine ⟨⟨leaves,_,m,hinv,hent ▸ hm,⟨?_,?_⟩,trivial,fun _ _ => rfl⟩,.inl rfl⟩
    · intro j k c hc
      refine adm_at_append _ (adm_at_mono ?_ ?_ hc)
      · exact fun k c => entered_congr (fun a ha =>
          high_of_eq (hold a (mem_append.mpr (.inl ha))))
      · exact fun a ha => hold a (mem_append.mpr (.inr ha))
    · exact level_at_append leaves _ uppers
  · cases hstep
    exact stepped_read h hm trivial (.inr rfl)

lemma stepped_waiting (hstep : Local.step t (.waiting call split id) = some (t',l')) :
    Stepped t leaves uppers m (.waiting call split id) t' l' := by
  obtain ⟨node,-,hstep⟩ := bind_eq_some_iff.mp hstep
  split at hstep <;> cases hstep
  · exact stepped_read h hm trivial (.inr rfl)
  · exact stepped_read h hm trivial (.inr rfl)

lemma stepped_waited (hstep : Local.step t (.waited call split id) = some (t',l')) :
    Stepped t leaves uppers m (.waited call split id) t' l' := by
  obtain ⟨node,-,hstep⟩ := bind_eq_some_iff.mp hstep
  cases node with
  | leaf _ =>
    cases hstep
    exact stepped_read h hm trivial (.inl rfl)
  | internal n =>
    dsimp only at hstep
    split at hstep
    · cases hstep
      exact stepped_read h hm trivial (.inl rfl)
    · obtain ⟨next,-,hstep⟩ := bind_eq_some_iff.mp hstep
      cases hstep
      exact stepped_read h hm trivial (.inr rfl)

lemma step_ok (hl : LocalOk t leaves uppers l)
    (hstep : l.step t = some (t',l')) : Stepped t leaves uppers m l t' l' := by
  cases l with
  | idle => cases hstep
  | begun call | moving call root path id | settled call root path id =>
    exact stepped_descent h hm hl rfl (by simp) hstep
  | atLeaf call root path id => exact stepped_leaf h hm hl hstep
  | raising call root path split id => exact stepped_raising h hm hl hstep
  | raised call root path split id => exact stepped_raised h hm hl hstep
  | crowning call root split => exact stepped_crowning h hm hl hstep
  | waiting call split id => exact stepped_waiting h hm hstep
  | waited call split id => exact stepped_waited h hm hstep
  | done call outcome => cases hstep

end

section
variable {t : BPlusTree} {leaves : List NodeId} {uppers : List (List NodeId)}
  {m : Bytes → Option Bytes} {call : Call} {root id : NodeId} {path : List NodeId}

/-- What a call should return if its key has the value `v`, and what it should leave. -/
def Answered (v : Bytes) (outcome : Outcome) (t : BPlusTree) : Call → Prop
  | .search _ => outcome = .found (some v)
  | .delete key => outcome = .deleted true ∧ t.search key = some none
  | .insert _ _ => outcome = .inserted

/-- A search or a delete returns from its leaf, and rightly only if the leaf was
not split away from its key. -/
lemma leaf_answers {v : Bytes} (h : TreeInv t leaves uppers)
    (hm : Enumerates (entries t.nodes leaves) m)
    (hl : LocalOk t leaves uppers (.atLeaf call root path id)) (hi : call.inserts = false)
    (hv : m call.key = some v) (hnode : t.nodes[id]? = some node) :
    ∃ t' outcome, Local.step t (.atLeaf call root path id) = some (t',.done call outcome) ∧
      (Answered v outcome t' call ↔ nextFor node call.key = none) := by
  obtain ⟨pre,rest,es,high,link,hcut,hpre,hleaf⟩ := entered_leaf h hl.1
  rw [hnode] at hleaf
  cases hleaf
  cases hnext : nextFor (.leaf (packed es high link)) call.key with
  | none =>
    have hh := home_of_entered h hcut hpre hnode hnext
    cases call with
    | insert key value => cases hi
    | search key =>
      refine ⟨t,.found (m key),?_,by simpa [Answered, Call.key] using hv⟩
      simp only [Local.step, Local.leafStep, hnode, bind_eq_bind, bind_some]
      rw [show searchAt _ key = some (m key) from search_at_home h hm hh, map_some]
    | delete key =>
      obtain ⟨t1,hd,hw⟩ := delete_at_home h hm hh
      refine ⟨t1,.deleted (m key).isSome,?_,?_⟩
      · simp only [Local.step, Local.leafStep, hnode, bind_eq_bind, bind_some]
        rw [show t.deleteAt id _ key = some (t1,(m key).isSome) from hd, map_some]
      have habsent := search_represents key ⟨leaves,uppers,hw.inv,hw.holds⟩
      have hgone : t1.search key = some none := by simpa [Call.key] using habsent
      have hthere : (m key).isSome = true := by
        rw [show m key = some v from hv, isSome_some]
      simp [Answered, hgone, hthere]
  | some next =>
    obtain ⟨hinc,hlt⟩ := not_in_left h hcut hnode hnext
    cases call with
    | insert key value => cases hi
    | search key =>
      refine ⟨t,.found none,?_,by simp [Answered]⟩
      simp only [Local.step, Local.leafStep, hnode, bind_eq_bind, bind_some]
      rw [show searchAt _ key = some none from search_at_left hinc hlt high link, map_some]
    | delete key =>
      refine ⟨t,.deleted false,?_,by simp [Answered]⟩
      simp only [Local.step, Local.leafStep, hnode, bind_eq_bind, bind_some]
      rw [show t.deleteAt id _ key = some (t,false) from delete_at_left hinc hlt high link,
        map_some]

end

section
variable {ι : Type} [DecidableEq ι]

def Action.own (who : ι) : Action ι → Bool
  | .run w => w = who
  | .call _ _ => false

/-- No other call that writes the key begins, and `who` begins no other call. -/
def Apart (who : ι) (key : Bytes) : Action ι → Prop
  | .call w c => w ≠ who ∧ (c.writes = true → c.key ≠ key)
  | .run _ => True

def Sound (s : Threads ι) (leaves : List NodeId) (uppers : List (List NodeId))
    (m : Bytes → Option Bytes) : Prop :=
  TreeInv s.tree leaves uppers ∧ Enumerates (entries s.tree.nodes leaves) m ∧
    ∀ w, LocalOk s.tree leaves uppers (s.locals w)

variable {leaves : List NodeId} {uppers : List (List NodeId)} {m : Bytes → Option Bytes}

lemma sound_update {t : BPlusTree} {locals : ι → Local} (h : TreeInv t leaves uppers)
    (hm : Enumerates (entries t.nodes leaves) m) (hl : ∀ w, LocalOk t leaves uppers (locals w))
    (w : ι) (hw : LocalOk t leaves uppers l) : Sound ⟨t,update locals w l⟩ leaves uppers m := by
  refine ⟨h,hm,fun w' => ?_⟩
  by_cases heq : w' = w
  · rw [heq]
    simp only [update_self]
    exact hw
  · simp only [update_of_ne heq]
    exact hl w'

variable {w : ι} {s : Threads ι} {t' : BPlusTree} {l' : Local}

lemma sound_run (hs : Sound s leaves uppers m) (hstep : (s.locals w).step s.tree = some (t',l')) :
    ∃ leaves' uppers' m', Sound ⟨t',update s.locals w l'⟩ leaves' uppers' m' ∧
      Grows s.tree leaves uppers t' leaves' uppers' ∧
      ∀ k, (∀ c, (s.locals w).inProgress = some c → c.writes = true → c.key ≠ k) → m' k = m k := by
  obtain ⟨h,hm,hl⟩ := hs
  obtain ⟨leaves',uppers',m',h',hm',hg,hl',hk⟩ := (step_ok h hm (hl w) hstep).after
  exact ⟨leaves',uppers',m',sound_update h' hm' (fun w' => hg.localOk (hl w')) w hl',hg,hk⟩

variable {s' : Threads ι}

lemma run_step (h : s.step (.run w) = some s') : ∃ t' l', (s.locals w).step s.tree = some (t',l') ∧
      s' = ⟨t',update s.locals w l'⟩ := by
  obtain ⟨⟨t',l'⟩,hstep,rfl⟩ := map_eq_some_iff.mp h
  exact ⟨t',l',hstep,rfl⟩

lemma call_step {c : Call} (h : s.step (.call w c) = some s') :
    (s.locals w).inProgress = none ∧ s' = ⟨s.tree,update s.locals w (.begun c)⟩ := by
  rw [Threads.step] at h
  split at h
  · next hidle =>
    cases h
    exact ⟨hidle,rfl⟩
  · cases h

lemma reaches_sound {order : ℕ} (ho : 2 ≤ order)
    (h : Runs.Reaches Threads.step (fun _ _ => True) (Threads.start order) s) :
    ∃ leaves uppers m, Sound s leaves uppers m := by
  refine h.invariant (I := fun s => ∃ leaves uppers m, Sound s leaves uppers m) ?_ ?_
  · exact ⟨[0],[],_,new_inv order ho,enumerates_nil,fun _ => trivial⟩
  rintro s a s' ⟨leaves,uppers,m,hs⟩ - hstep
  cases a with
  | call w c =>
    obtain ⟨-,rfl⟩ := call_step hstep
    exact ⟨leaves,uppers,m,sound_update hs.1 hs.2.1 hs.2.2 w trivial⟩
  | run w =>
    obtain ⟨t',l',hl,rfl⟩ := run_step hstep
    obtain ⟨leaves',uppers',m',hs',-⟩ := sound_run hs hl
    exact ⟨leaves',uppers',m',hs'⟩

/-- A call on its way to its leaf, after `n` steps of its own, whose key has the
value `v` and is written by no other call. -/
structure Tracked (who : ι) (c : Call) (v : Bytes) (s : Threads ι) (n : ℕ) : Prop where
  sound : ∃ leaves uppers m, Sound s leaves uppers m ∧ m c.key = some v ∧
    Spent leaves uppers n (s.locals who)
  descends : (s.locals who).descends = some c
  others : ∀ w, w ≠ who → ∀ c', (s.locals w).inProgress = some c' → c'.writes = true →
    c'.key ≠ c.key

variable {who : ι} {c : Call} {v : Bytes} {s s' : Threads ι} {n : ℕ}

lemma tracked_call {c' : Call} (ht : Tracked who c v s n) (ha : Apart who c.key (.call w c')) :
    Tracked who c v ⟨s.tree,update s.locals w (.begun c')⟩ n := by
  obtain ⟨leaves,uppers,m,hs,hv,hn⟩ := ht.sound
  have hwho : update s.locals w (.begun c') who = s.locals who := update_of_ne (Ne.symm ha.1) ..
  have hs' : Sound ⟨s.tree,update s.locals w (.begun c')⟩ leaves uppers m :=
    sound_update hs.1 hs.2.1 hs.2.2 w trivial
  refine ⟨⟨leaves,uppers,m,hs',hv,?_⟩,?_,fun w' hne d hd hw => ?_⟩
  · simp only [hwho]
    exact hn
  · simp only [hwho]
    exact ht.descends
  by_cases heq : w' = w
  · subst heq
    simp only [update_self] at hd
    cases hd
    exact ha.2 hw
  · simp only [update_of_ne heq] at hd
    exact ht.others w' hne d hd hw

lemma tracked_other (ht : Tracked who c v s n)
    (hne : w ≠ who) (hstep : (s.locals w).step s.tree = some (t',l')) :
    Tracked who c v ⟨t',update s.locals w l'⟩ n := by
  obtain ⟨leaves,uppers,m,hs,hv,hn⟩ := ht.sound
  obtain ⟨leaves',uppers',m',hs',hg,hk⟩ := sound_run hs hstep
  have hwho : update s.locals w l' who = s.locals who := update_of_ne (Ne.symm hne) ..
  refine ⟨⟨leaves',uppers',m',hs',?_,?_⟩,?_,fun w' hne' d hd hw => ?_⟩
  · rw [hk c.key (ht.others w hne), hv]
  · simp only [hwho]
    exact hn.mono hs'.1 hg
  · simp only [hwho]
    exact ht.descends
  by_cases heq : w' = w
  · subst heq
    simp only [update_self] at hd
    rcases (step_ok hs.1 hs.2.1 (hs.2.2 w') hstep).progress with hnone | hsame
    · rw [hnone] at hd
      cases hd
    · exact ht.others w' hne' d (hsame ▸ hd) hw
  · simp only [update_of_ne heq] at hd
    exact ht.others w' hne' d hd hw

lemma tracked_own (ht : Tracked who c v s n) (hi : c.inserts = false) :
    (∃ s', s.step (.run who) = some s' ∧ Tracked who c v s' (n+1) ∧
      ∀ root path id, s.locals who ≠ .atLeaf c root path id) ∨
    ∃ s' root path id node outcome, s.step (.run who) = some s' ∧
      s.locals who = .atLeaf c root path id ∧ s.tree.nodes[id]? = some node ∧
      s'.locals who = .done c outcome ∧
      (Answered v outcome s'.tree c ↔ nextFor node c.key = none) := by
  obtain ⟨leaves,uppers,m,hs,hv,hn⟩ := ht.sound
  have hl := hs.2.2 who
  by_cases hat : ∃ root path id, s.locals who = .atLeaf c root path id
  · obtain ⟨root,path,id,hat⟩ := hat
    rw [hat] at hl
    obtain ⟨node,hnode⟩ := points_to_node (i := 0) hs.1 hl.1
    obtain ⟨t',outcome,hstep,hiff⟩ := leaf_answers hs.1 hs.2.1 hl hi hv hnode
    refine .inr ⟨⟨t',update s.locals who (.done c outcome)⟩,root,path,id,node,
      outcome,?_,hat,hnode,update_self ..,hiff⟩
    rw [Threads.step, hat, hstep, map_some]
  have hleaf : ∀ root path id, s.locals who ≠ .atLeaf c root path id :=
    fun root path id heq => hat ⟨root,path,id,heq⟩
  obtain ⟨l',hstep,hdesc,hok,hspent⟩ := descend_step hs.1 hl ht.descends hleaf
  have hown : update s.locals who l' who = l' := update_self ..
  refine .inl ⟨⟨s.tree,update s.locals who l'⟩,?_,⟨?_,?_,?_⟩,hleaf⟩
  · rw [Threads.step, hstep, map_some]
  · refine ⟨leaves,uppers,m,sound_update hs.1 hs.2.1 hs.2.2 who hok,hv,?_⟩
    simp only [hown]
    exact hspent n hn
  · simp only [hown]
    exact hdesc
  · intro w hne d hd hw
    simp only [update_of_ne hne] at hd
    exact ht.others w hne d hd hw

variable {as : List (Action ι)}

lemma returned_stays (hnone : (s.locals who).inProgress = none)
    (hrun : Runs.run Threads.step s as = some s') (ha : ∀ a ∈ as, Apart who c.key a) :
    (s'.locals who).inProgress = none := by
  induction as generalizing s with
  | nil =>
    cases hrun
    exact hnone
  | cons a as ih =>
    obtain ⟨s1,hstep,hrest⟩ := bind_eq_some_iff.mp hrun
    refine ih ?_ hrest (fun b hb => ha b (by simp [hb]))
    cases a with
    | call w c' =>
      obtain ⟨-,rfl⟩ := call_step hstep
      have hne : w ≠ who := (ha (.call w c') (by simp)).1
      simp only [update_of_ne (Ne.symm hne), hnone]
    | run w =>
      obtain ⟨t',l',hl,rfl⟩ := run_step hstep
      by_cases heq : w = who
      · subst heq
        cases hw : s.locals w with
        | idle | done call outcome =>
          rw [hw] at hl
          cases hl
        | _ =>
          rw [hw] at hnone
          cases hnone
      · simp only [update_of_ne (Ne.symm heq), hnone]

lemma run_tracked (hi : c.inserts = false) (ht : Tracked who c v s n)
    (hrun : Runs.run Threads.step s as = some s') (ha : ∀ a ∈ as, Apart who c.key a)
    (hp : (s'.locals who).inProgress = some c) :
    Tracked who c v s' (n+as.countP (Action.own who)) := by
  induction as generalizing s n with
  | nil =>
    cases hrun
    exact ht
  | cons a as ih =>
    obtain ⟨s1,hstep,hrest⟩ := bind_eq_some_iff.mp hrun
    have ha' : ∀ b ∈ as, Apart who c.key b := fun b hb => ha b (by simp [hb])
    cases a with
    | call w c' =>
      obtain ⟨-,rfl⟩ := call_step hstep
      have hown : Action.own who (Action.call w c') = false := rfl
      rw [countP_cons_of_neg (by simp [hown])]
      exact ih (tracked_call ht (ha (.call w c') (by simp))) hrest ha'
    | run w =>
      by_cases heq : w = who
      · subst heq
        rw [countP_cons_of_pos (by simp [Action.own]), Nat.add_comm _ 1, ← Nat.add_assoc]
        rcases tracked_own ht hi with ⟨s2,hs2,ht2,-⟩ | ⟨s2,_,_,_,_,out,hs2,-,-,hdone,-⟩
        · rw [hstep] at hs2
          cases hs2
          exact ih ht2 hrest ha'
        · rw [hstep] at hs2
          cases hs2
          have hnone := returned_stays (c := c) (by rw [hdone]; rfl) hrest ha'
          rw [hnone] at hp
          cases hp
      · obtain ⟨t',l',hl,rfl⟩ := run_step hstep
        rw [countP_cons_of_neg (by simp [Action.own, heq])]
        exact ih (tracked_other ht heq hl) hrest ha'

/-- A search or a delete of a key that is there when it begins, with no other
call that writes the key: after at most two steps for each node of the tree it
returns, and its answer is right exactly if the key does not lie behind the high
key of its leaf when it takes the leaf's lock again. -/
theorem call_answers_iff {order : ℕ} (ho : 2 ≤ order) {s₀ s₁ : Threads ι} {as : List (Action ι)}
    (hreach : Runs.Reaches Threads.step (fun _ _ => True) (Threads.start order) s₀)
    (hthere : s₀.tree.search c.key = some (some v)) (hi : c.inserts = false)
    (hquiet : ∀ w c', (s₀.locals w).inProgress = some c' → c'.writes = true → c'.key ≠ c.key)
    (hcall : s₀.step (.call who c) = some s₁) (hrun : Runs.run Threads.step s₁ as = some s)
    (ha : ∀ a ∈ as, Apart who c.key a) (hp : (s.locals who).inProgress = some c) :
    as.countP (Action.own who) ≤ 2*s.tree.nodes.length+1 ∧
    ∃ s', s.step (.run who) = some s' ∧ ((s'.locals who).inProgress = some c ∨
        ∃ root path id node outcome, s.locals who = .atLeaf c root path id ∧
          s.tree.nodes[id]? = some node ∧ s'.locals who = .done c outcome ∧
          (Answered v outcome s'.tree c ↔ nextFor node c.key = none)) := by
  obtain ⟨leaves,uppers,m,hs⟩ := reaches_sound ho hreach
  have hv : m c.key = some v := by
    have hsearch := search_represents c.key ⟨leaves,uppers,hs.1,hs.2.1⟩
    rw [hthere] at hsearch
    exact (some.inj hsearch).symm
  obtain ⟨hidle,rfl⟩ := call_step hcall
  have hbegun : update s₀.locals who (.begun c) who = .begun c := update_self ..
  have ht₁ : Tracked who c v ⟨s₀.tree,update s₀.locals who (.begun c)⟩ 0 := by
    refine ⟨⟨leaves,uppers,m,sound_update hs.1 hs.2.1 hs.2.2 who trivial,hv,?_⟩,?_,?_⟩
    · simp only [hbegun]
      rfl
    · simp only [hbegun]
      rfl
    · intro w hne d hd hw
      simp only [update_of_ne hne] at hd
      exact hquiet w d hd hw
  have ht := run_tracked hi ht₁ hrun ha hp
  rw [Nat.zero_add] at ht
  constructor
  · obtain ⟨leaves',uppers',m',hs',-,hspent⟩ := ht.sound
    exact spent_le hs'.1 ht.descends hspent
  · rcases tracked_own ht hi with ⟨s',hstep,ht',-⟩ |
      ⟨s',root,path,id,node,outcome,hstep,hat,hnode,hdone,hiff⟩
    · exact ⟨s',hstep,Or.inl (descends_inProgress ht'.descends)⟩
    · exact ⟨s',hstep,Or.inr ⟨root,path,id,node,outcome,hat,hnode,hdone,hiff⟩⟩

end

def after (s : Threads (Fin 2)) (as : List (Action (Fin 2))) : Threads (Fin 2) :=
  (Runs.run Threads.step s as).getD s

def inserting (key : Bytes) : List (Action (Fin 2)) :=
  .call 0 (.insert key key)::List.replicate 4 (.run 0)

def filled : Threads (Fin 2) := after (Threads.start 3) (inserting [1]++inserting [2])

lemma filled_reached : Runs.Reaches Threads.step (fun _ _ => True) (Threads.start 3) filled :=
  Runs.Reaches.of_isSome (p := fun _ _ => true) (fun _ _ _ => trivial)
    (inserting [1]++inserting [2]) (by decide +kernel)

lemma filled_idle : ∀ w, (filled.locals w).inProgress = none := by
  decide +kernel

def entered (c : Call) : Threads (Fin 2) := ⟨filled.tree,Function.update filled.locals 1 (.begun c)⟩

lemma filled_call (c : Call) : filled.step (.call 1 c) = some (entered c) := by
  rw [Threads.step, if_pos (filled_idle 1), entered]

def arrived (c : Call) : Threads (Fin 2) := after (entered c) (List.replicate 3 (.run 1))

theorem search_of_present_answers : ∃ s', (arrived (.search [2])).step (.run 1) = some s' ∧
      s'.locals 1 = .done (.search [2]) (.found (some [2])) := by
  have hat : (arrived (.search [2])).locals 1 = .atLeaf (.search [2]) 0 [] 0 := by decide +kernel
  have hnode : (arrived (.search [2])).tree.nodes[0]?.map (nextFor · [2]) = some none := by
    decide +kernel
  have hreturns : ((arrived (.search [2])).step (.run 1)).map
      (fun s => (s.locals 1).inProgress) = some none := by
    decide +kernel
  have hquiet : ∀ w c', (filled.locals w).inProgress = some c' → c'.writes = true →
      c'.key ≠ (Call.search [2]).key := by
    intro w c' hc'
    rw [filled_idle w] at hc'
    cases hc'
  have hrun : Runs.run Threads.step (entered (.search [2])) (replicate 3 (.run 1)) =
      some (arrived (.search [2])) :=
    Runs.run_getD _ (by decide +kernel)
  obtain ⟨-,s',hstep,h⟩ := call_answers_iff (v := [2]) (by decide) filled_reached
    (by decide +kernel) rfl hquiet (filled_call _) hrun (by simp [Apart]) (by rw [hat]; rfl)
  refine ⟨s',hstep,?_⟩
  rcases h with hp | ⟨root,path,id,node,outcome,hat',hnode',hdone,hiff⟩
  · rw [hstep, map_some, hp] at hreturns
    cases hreturns
  rw [hat] at hat'
  cases hat'
  rw [hnode', map_some] at hnode
  have hanswer : outcome = .found (some [2]) := hiff.mpr (some.inj hnode)
  rw [hdone, hanswer]

/-- The third key splits the leaf while the call does not have its lock. -/
def meanwhile : List (Action (Fin 2)) := List.replicate 3 (.run 1)++(inserting [3]++[.run 1])

lemma meanwhile_apart : ∀ a ∈ meanwhile, Apart 1 [2] a := by
  simp [meanwhile, inserting, Apart, Call.key]

/-- A call begins when the key 2 is there and no call is in progress, other
threads leave the key alone, and the answer is that it is not there. -/
def Misses (c : Call) : Prop := ∃ s₀ s₁ s : Threads (Fin 2), ∃ as outcome,
    Runs.Reaches Threads.step (fun _ _ => True) (Threads.start 3) s₀ ∧
    s₀.tree.search [2] = some (some [2]) ∧ (∀ w, (s₀.locals w).inProgress = none) ∧
    s₀.step (.call 1 c) = some s₁ ∧ Runs.run Threads.step s₁ as = some s ∧
    (∀ a ∈ as, Apart 1 [2] a) ∧ s.locals 1 = .done c outcome ∧
    ¬Answered [2] outcome s.tree c ∧ s.tree.search [2] = some (some [2])

theorem call_misses_moved_key : Misses (.search [2]) ∧ Misses (.delete [2]) := by
  have hthere : filled.tree.search [2] = some (some [2]) := by decide +kernel
  constructor
  · refine ⟨filled,entered _,after (entered _) meanwhile,meanwhile,.found none,filled_reached,
      hthere,filled_idle,filled_call _,Runs.run_getD meanwhile ?_,meanwhile_apart,?_,?_,?_⟩
    · decide +kernel
    · decide +kernel
    · simp [Answered]
    · decide +kernel
  · refine ⟨filled,entered _,after (entered _) meanwhile,meanwhile,.deleted false,
      filled_reached,hthere,filled_idle,filled_call _,Runs.run_getD meanwhile ?_,meanwhile_apart,
      ?_,?_,?_⟩
    · decide +kernel
    · decide +kernel
    · simp [Answered]
    · decide +kernel

end ByteDB.BPlusTree
