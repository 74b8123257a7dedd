import ByteDB.Bytes
import ByteDB.LinkedLevel
import ByteDB.Slice

/-!
# The B+ tree of the indexes

Nodes live in an arena and a shared pointer is the position of its cell, so
that right links and out-of-order children are kept as the code has them.
Every loop follows pointers and carries a fuel that bounds it by the number
of cells; an operation that would panic, return an error or not return is
`none`. One call runs after another here, with no other thread in between.
-/

set_option autoImplicit false

namespace ByteDB
open ByteDB.Slice

abbrev NodeId := ℕ

structure InternalNode where
  keys : List Bytes
  children : List NodeId
  highKey : Option Bytes
  rightLink : Option NodeId
  deriving DecidableEq, Repr

structure LeafNode where
  keys : List Bytes
  values : List Bytes
  highKey : Option Bytes
  rightLink : Option NodeId
  deriving DecidableEq, Repr

inductive BTreeNode where
  | internal (n : InternalNode)
  | leaf (n : LeafNode)
  deriving DecidableEq, Repr

namespace BTreeNode

def highKey : BTreeNode → Option Bytes
  | .internal n => n.highKey
  | .leaf n => n.highKey

def rightLink : BTreeNode → Option NodeId
  | .internal n => n.rightLink
  | .leaf n => n.rightLink

end BTreeNode

structure BPlusTree where
  root : NodeId
  order : ℕ
  len : ℕ
  nodes : List BTreeNode
  deriving DecidableEq, Repr

namespace BPlusTree

def new (order : ℕ) : BPlusTree where
  root := 0
  order := order
  len := 0
  nodes := [.leaf { keys := [], values := [], highKey := none, rightLink := none }]

variable (t : BPlusTree)

def approxLen : ℕ := t.len

def moveRight (t : BPlusTree) (key : Bytes) : ℕ → NodeId → Option NodeId
  | 0, _ => none
  | fuel+1, id =>
    match t.nodes[id]? with
    | none => none
    | some node =>
      match node.highKey, node.rightLink with
      | some hk, some next => if hk < key then moveRight t key fuel next else some id
      | _, _ => some id

variable (id : NodeId)

def moveRightRead (key : Bytes) : Option NodeId := t.moveRight key t.nodes.length id

def moveRightWrite (key : Bytes) : Option NodeId := t.moveRight key t.nodes.length id

def childFor (n : InternalNode) (key : Bytes) : Option NodeId := do
  let idx ← partitionPoint n.keys (· ≤ key)
  n.children[idx]?

/-- The first loop of `insert`: the leaf for the key, and the internal nodes
passed on the way, the root first. -/
def descend (t : BPlusTree) (key : Bytes) : ℕ → NodeId → List NodeId → Option (List NodeId × NodeId)
  | 0, _, _ => none
  | fuel+1, current, path => do
    let current ← t.moveRightWrite current key
    match ← t.nodes[current]? with
    | .leaf _ => some (path,current)
    | .internal n =>
      let next ← childFor n key
      descend t key fuel next (path++[current])

def write (node : BTreeNode) : BPlusTree := { t with nodes := t.nodes.set id node }

def alloc (node : BTreeNode) : BPlusTree := { t with nodes := t.nodes++[node] }

def leafInsertLocked (leaf : LeafNode) (key value : Bytes) :
    Option (BPlusTree × Option (Bytes × NodeId)) := do
  match ← binarySearch leaf.keys key with
  | .ok i =>
    let values ← replaceAt leaf.values i value
    some (t.write id (.leaf { leaf with values := values }),none)
  | .error pos =>
    let keys ← insertAt leaf.keys pos key
    let values ← insertAt leaf.values pos value
    let t := { t with len := t.len+1 }
    if keys.length < t.order then
      some (t.write id (.leaf { leaf with keys := keys, values := values }),none)
    else
      let mid := keys.length/2
      let (leftKeys,rightKeys) ← splitOff keys mid
      let (leftValues,rightValues) ← splitOff values mid
      let splitKey ← rightKeys.head?
      let rightLeaf := t.nodes.length
      let right : LeafNode :=
        { keys := rightKeys, values := rightValues
          highKey := rightKeys.getLast?, rightLink := leaf.rightLink }
      let left : LeafNode :=
        { keys := leftKeys, values := leftValues
          highKey := leftKeys.getLast?, rightLink := some rightLeaf }
      some ((t.write id (.leaf left)).alloc (.leaf right),some (splitKey,rightLeaf))

def internalInsertLocked (n : InternalNode)
    (splitKey : Bytes) (newChild : NodeId) :
    Option (BPlusTree × Option (Bytes × NodeId)) := do
  let idx ← partitionPoint n.keys (· ≤ splitKey)
  let keys ← insertAt n.keys idx splitKey
  let children ← insertAt n.children (idx+1) newChild
  if keys.length < t.order then
    some (t.write id (.internal { n with keys := keys, children := children }),none)
  else
    let mid := keys.length/2
    let promoted ← keys[mid]?
    let (leftKeys,rightKeys) ← splitOff keys (mid+1)
    let (leftChildren,rightChildren) ← splitOff children (mid+1)
    let rightNode := t.nodes.length
    let right : InternalNode :=
      { keys := rightKeys, children := rightChildren
        highKey := n.highKey, rightLink := n.rightLink }
    let left : InternalNode :=
      { keys := leftKeys.dropLast, children := leftChildren
        highKey := some promoted, rightLink := some rightNode }
    some ((t.write id (.internal left)).alloc (.internal right),some (promoted,rightNode))

/-- The second loop of `insert`: hand a split to the parents, the lowest
first, until one of them takes it without splitting. -/
def propagate : BPlusTree → List NodeId → Bytes × NodeId →
    Option (BPlusTree × Option (Bytes × NodeId))
  | t, [], split => some (t,some split)
  | t, parent::rest, split => do
    let parent ← t.moveRightWrite parent split.1
    match ← t.nodes[parent]? with
    | .internal n =>
      match ← t.internalInsertLocked parent n split.1 split.2 with
      | (t,some next) => propagate t rest next
      | (t,none) => some (t,none)
    | .leaf _ => none

/-- The walk of an insert that finds the root replaced: it ends at a node
that has the new child, or at a leaf. -/
def awaitRootChild (t : BPlusTree) (split : Bytes × NodeId) : ℕ → NodeId → Option Unit
  | 0, _ => none
  | fuel+1, current => do
    let current ← t.moveRightWrite current split.1
    match ← t.nodes[current]? with
    | .leaf _ => some ()
    | .internal n =>
      if split.2 ∈ n.children then some ()
      else
        let next ← childFor n split.1
        awaitRootChild t split fuel next

def growRoot (split : Bytes × NodeId) : BPlusTree := { t.alloc (.internal
      { keys := [split.1], children := [t.root,split.2], highKey := none, rightLink := none })
    with root := t.nodes.length }

def insertLoop (key value : Bytes) : ℕ → BPlusTree → Option BPlusTree
  | 0, _ => none
  | fuel+1, t => do
    let (path,current) ← t.descend key t.nodes.length t.root []
    match ← t.nodes[current]? with
    | .internal _ => none
    | .leaf leaf =>
      if leaf.highKey.any (· < key) ∧ leaf.rightLink.isSome then insertLoop key value fuel t
      else
        match ← t.leafInsertLocked current leaf key value with
        | (t',none) => some t'
        | (t',some split) =>
          match ← t'.propagate path.reverse split with
          | (t',none) => some t'
          | (t',some split) =>
            if t'.root = t.root then some (t'.growRoot split)
            else
              let _ ← t'.awaitRootChild split t'.nodes.length t'.root
              some t'

def insert (key value : Bytes) : Option BPlusTree := insertLoop key value (t.nodes.length+1) t

def findLeaf (t : BPlusTree) (key : Bytes) : ℕ → NodeId → Option NodeId
  | 0, _ => none
  | fuel+1, current => do
    let current ← t.moveRightRead current key
    match ← t.nodes[current]? with
    | .leaf _ => some current
    | .internal n =>
      let next ← childFor n key
      findLeaf t key fuel next

section
variable (t : BPlusTree) (key : Bytes)

def findLeafRead : Option NodeId := t.findLeaf key t.nodes.length t.root

def findLeafWrite : Option NodeId := t.findLeafRead key

def search : Option (Option Bytes) := do
  let id ← t.findLeafRead key
  match ← t.nodes[id]? with
  | .internal _ => some none
  | .leaf leaf =>
    match ← binarySearch leaf.keys key with
    | .ok i =>
      let v ← leaf.values[i]?
      some (some v)
    | .error _ => some none

def delete : Option (BPlusTree × Bool) := do
  let id ← t.findLeafWrite key
  match ← t.nodes[id]? with
  | .internal _ => some (t,false)
  | .leaf leaf =>
    match ← binarySearch leaf.keys key with
    | .ok pos =>
      let keys ← removeAt leaf.keys pos
      let values ← removeAt leaf.values pos
      let t := { t with len := t.len-1 }
      some (t.write id (.leaf { leaf with keys := keys, values := values }),true)
    | .error _ => some (t,false)

end

def leftmost (t : BPlusTree) : ℕ → NodeId → Option NodeId
  | 0, _ => none
  | fuel+1, current => do
    match ← t.nodes[current]? with
    | .leaf _ => some current
    | .internal n =>
      let next ← n.children[0]?
      leftmost t fuel next

variable (t : BPlusTree)

def findLeftmostLeaf : Option NodeId := t.leftmost t.nodes.length t.root

/-- The loop of every scan: leaf after leaf along the right links, as long as
the body asks for the next one. -/
def walk {σ : Type} (t : BPlusTree) (body : σ → LeafNode → Option (σ × Bool)) :
    ℕ → Option NodeId → σ → Option σ
  | _, none, s => some s
  | 0, some _, _ => none
  | fuel+1, some id, s => do
    match ← t.nodes[id]? with
    | .internal _ => some s
    | .leaf leaf =>
      match ← body s leaf with
      | (s,true) => walk t body fuel leaf.rightLink s
      | (s,false) => some s

/-- The pairs of a leaf; reading `values[i]` panics when there are fewer
values than keys. -/
def pairs (leaf : LeafNode) : Option (List (Bytes × Bytes)) :=
  if leaf.keys.length ≤ leaf.values.length then some (leaf.keys.zip leaf.values) else none

def startIndex (first : Bool) (leaf : LeafNode) (start : Bytes) : Option ℕ :=
  if first then do
    match ← binarySearch leaf.keys start with
    | .ok i => some i
    | .error i => some i
  else some 0

def rangeBody (start stop : Bytes) (s : List (Bytes × Bytes) × Bool) (leaf : LeafNode) :
    Option ((List (Bytes × Bytes) × Bool) × Bool) := do
  let i ← startIndex s.2 leaf start
  let es ← pairs leaf
  let run := (es.drop i).takeWhile (fun e => e.1 ≤ stop)
  some ((s.1++run,false),run.length = (es.drop i).length)

def rangeScan (start stop : Bytes) : Option (List (Bytes × Bytes)) := do
  let id ← t.findLeafRead start
  let (results,_) ← t.walk (rangeBody start stop) t.nodes.length (some id) ([],true)
  some results

def prefixLoop (p : Bytes) : List (Bytes × Bytes) → List (Bytes × Bytes) × Bool
  | [] => ([],true)
  | e::es =>
    if p.isPrefixOf e.1 then
      let (run,more) := prefixLoop p es
      (e::run,more)
    else if p < e.1 then ([],false)
    else prefixLoop p es

def prefixBody (p : Bytes) (s : List (Bytes × Bytes) × Bool) (leaf : LeafNode) :
    Option ((List (Bytes × Bytes) × Bool) × Bool) := do
  let i ← startIndex s.2 leaf p
  let es ← pairs leaf
  let (run,more) := prefixLoop p (es.drop i)
  some ((s.1++run,false),more)

def scanBody (results : List (Bytes × Bytes)) (leaf : LeafNode) :
    Option (List (Bytes × Bytes) × Bool) := do
  let es ← pairs leaf
  some (results++es,true)

def scanAll : Option (List (Bytes × Bytes)) := do
  let id ← t.findLeftmostLeaf
  t.walk scanBody t.nodes.length (some id) []

def prefixScan (p : Bytes) : Option (List (Bytes × Bytes)) :=
  if p = [] then t.scanAll
  else do
    let id ← t.findLeafRead p
    let (results,_) ← t.walk (prefixBody p) t.nodes.length (some id) ([],true)
    some results

/-- A callback over a list of pairs, stopped by its first `false`. -/
def visit {σ : Type} (f : σ → Bytes → Bytes → σ × Bool) : σ → List (Bytes × Bytes) → σ × Bool
  | s, [] => (s,true)
  | s, e::es =>
    match f s e.1 e.2 with
    | (s,true) => visit f s es
    | (s,false) => (s,false)

def forEach {σ : Type} (t : BPlusTree) (f : σ → Bytes → Bytes → σ × Bool) (s : σ) : Option σ := do
  let id ← t.findLeftmostLeaf
  t.walk (fun s leaf => (pairs leaf).map (visit f s)) t.nodes.length (some id) s

def count : Option ℕ := do
  let id ← t.findLeftmostLeaf
  t.walk (fun n leaf => some (n+leaf.keys.length,true)) t.nodes.length (some id) 0

end BPlusTree

end ByteDB

/-! The arena is cut into levels, the leaves first. Each level is linked to the
right, and every pointer of a node is admissible for its separator in the level
below. A new node needs no pointer from above, so the invariant holds again as soon
as a split is done and before any parent has heard of it. -/

namespace ByteDB.BPlusTree
open ByteDB.Slice ByteDB.LinkedLevel List

variable (nodes : List BTreeNode)

def highOf (id : NodeId) : Option Bytes := nodes[id]?.bind BTreeNode.highKey

def linkOf (id : NodeId) : Option NodeId := nodes[id]?.bind BTreeNode.rightLink

def packed (es : List (Bytes × Bytes)) (high : Option Bytes) (link : Option NodeId) : LeafNode where
  keys := es.map Prod.fst
  values := es.map Prod.snd
  highKey := high
  rightLink := link

def entriesAt (id : NodeId) : List (Bytes × Bytes) :=
  match nodes[id]? with
  | some (.leaf leaf) => leaf.keys.zip leaf.values
  | _ => []

def entries (ids : List NodeId) : List (Bytes × Bytes) := ids.flatMap (entriesAt nodes)

def LeavesOk (nodes : List BTreeNode) : List NodeId → Prop
  | [] => True
  | a::rest =>
    (∃ es high link, nodes[a]? = some (.leaf (packed es high link)) ∧
      (rest ≠ [] → ∀ h, high = some h → (∀ e ∈ es, e.1 ≤ h) ∧ ∀ e ∈ entries nodes rest, h < e.1)) ∧
    LeavesOk nodes rest

/-- What a pointer has to satisfy when it is used for the keys from its
separator on; without a separator it is used for every key. -/
def Admits (adm : Bytes → NodeId → Prop) (lower : List NodeId) : Option Bytes → NodeId → Prop
  | none, c => lower.head? = some c
  | some k, c => adm k c

structure NodeOk (adm : Bytes → NodeId → Prop) (lower : List NodeId) (lo : Option Bytes)
    (n : InternalNode) : Prop where
  sorted : n.keys.Pairwise (· ≤ ·)
  routed : List.Forall₂ (Admits adm lower) (lo::n.keys.map some) n.children

/-- The pointers of a level; what lies in front of the first pointer of a
node begins at the high key of the node before. -/
def LevelOk (nodes : List BTreeNode) (adm : Bytes → NodeId → Prop) (lower : List NodeId) :
    Option Bytes → List NodeId → Prop
  | _, [] => True
  | lo, a::rest =>
    (∃ n, nodes[a]? = some (.internal n) ∧ NodeOk adm lower lo n) ∧
    LevelOk nodes adm lower (highOf nodes a) rest

def UppersOk (nodes : List BTreeNode) :
    (Bytes → NodeId → Prop) → List NodeId → List (List NodeId) → Prop
  | _, _, [] => True
  | adm, lower, ids::more =>
    ids ≠ [] ∧ Linked (highOf nodes) (linkOf nodes) ids ∧ LevelOk nodes adm lower none ids ∧
      UppersOk nodes (Follows (highOf nodes) ids) ids more

def top : List NodeId → List (List NodeId) → List NodeId
  | lower, [] => lower
  | _, ids::more => top ids more

structure TreeInv (t : BPlusTree) (leaves : List NodeId) (uppers : List (List NodeId)) : Prop where
  nonempty : leaves ≠ []
  linked : Linked (highOf t.nodes) (linkOf t.nodes) leaves
  leavesOk : LeavesOk t.nodes leaves
  increasing : Increasing (entries t.nodes leaves)
  uppersOk : UppersOk t.nodes (Entered (highOf t.nodes) leaves) leaves uppers
  nodup : (leaves++uppers.flatten).Nodup
  bounded : ∀ id ∈ leaves++uppers.flatten, id < t.nodes.length
  rooted : (top leaves uppers).head? = some t.root
  order_ge : 2 ≤ t.order
  len_eq : t.len = (entries t.nodes leaves).length

lemma new_inv (order : ℕ) (h : 2 ≤ order) : TreeInv (new order) [0] [] where
  nonempty := by simp
  linked := rfl
  leavesOk := ⟨⟨[],none,none,rfl,fun hne => absurd rfl hne⟩,trivial⟩
  increasing := List.Pairwise.nil
  uppersOk := trivial
  nodup := by simp
  bounded := by simp [new]
  rooted := rfl
  order_ge := h
  len_eq := rfl

section
variable {nodes nodes' : List BTreeNode} {adm adm' : Bytes → NodeId → Prop}
  {lower lower' : List NodeId}

lemma high_of_eq {id : NodeId} (h : nodes'[id]? = nodes[id]?) :
    highOf nodes' id = highOf nodes id := by
  simp [highOf, h]

lemma link_of_eq {id : NodeId} (h : nodes'[id]? = nodes[id]?) :
    linkOf nodes' id = linkOf nodes id := by
  simp [linkOf, h]

lemma entries_append (nodes : List BTreeNode) (xs ys : List NodeId) :
    entries nodes (xs++ys) = entries nodes xs++entries nodes ys := by
  simp [entries]

lemma entries_cons (nodes : List BTreeNode) (a : NodeId) (xs : List NodeId) :
    entries nodes (a::xs) = entriesAt nodes a++entries nodes xs := by
  simp [entries]

variable {a : NodeId} {es : List (Bytes × Bytes)} {high : Option Bytes} {link : Option NodeId}

section
variable (h : nodes[a]? = some (.leaf (packed es high link)))
include h

lemma entries_at_packed : entriesAt nodes a = es := by
  simpa [entriesAt, h, packed] using (zip_of_prod rfl rfl).symm

lemma high_of_packed : highOf nodes a = high := by
  simp [highOf, h, BTreeNode.highKey, packed]

lemma link_of_packed : linkOf nodes a = link := by
  simp [linkOf, h, BTreeNode.rightLink, packed]

end

variable {ids : List NodeId}

lemma entries_congr (h : ∀ a ∈ ids, nodes'[a]? = nodes[a]?) :
    entries nodes' ids = entries nodes ids := by
  induction ids with
  | nil => rfl
  | cons a rest ih =>
    rw [entries_cons, entries_cons, ih (fun x hx => h x (by simp [hx]))]
    simp [entriesAt, h a (by simp)]

lemma leaves_congr (h : ∀ a ∈ ids, nodes'[a]? = nodes[a]?)
    (hl : LeavesOk nodes ids) : LeavesOk nodes' ids := by
  induction ids with
  | nil => trivial
  | cons a rest ih =>
    have hr : ∀ x ∈ rest, nodes'[x]? = nodes[x]? := fun x hx => h x (by simp [hx])
    obtain ⟨⟨es,high,link,ha,hb⟩,hl⟩ := hl
    refine ⟨⟨es,high,link,(h a (by simp)).trans ha,?_⟩,ih hr hl⟩
    rw [entries_congr hr]
    exact hb

lemma linked_of_eq (hs : ∀ a ∈ ids, nodes'[a]? = nodes[a]?)
    (hl : Linked (highOf nodes) (linkOf nodes) ids) : Linked (highOf nodes') (linkOf nodes') ids :=
  linked_congr (fun a ha => high_of_eq (hs a ha)) (fun a ha => link_of_eq (hs a ha)) hl

lemma admits_mono (hhead : lower'.head? = lower.head?) (h : ∀ k c, adm k c → adm' k c)
    (sep : Option Bytes) (c : NodeId) (ha : Admits adm lower sep c) :
    Admits adm' lower' sep c := by
  cases sep with
  | none => exact hhead.trans ha
  | some k => exact h k c ha

variable {lo : Option Bytes}

lemma node_ok_mono (hhead : lower'.head? = lower.head?) (h : ∀ k c, adm k c → adm' k c) {n : InternalNode} (hn : NodeOk adm lower lo n) :
    NodeOk adm' lower' lo n :=
  ⟨hn.sorted,hn.routed.imp (admits_mono hhead h)⟩

lemma level_mono (hhead : lower'.head? = lower.head?) (h : ∀ k c, adm k c → adm' k c) (hs : ∀ a ∈ ids, nodes'[a]? = nodes[a]?)
    (hl : LevelOk nodes adm lower lo ids) : LevelOk nodes' adm' lower' lo ids := by
  induction ids generalizing lo with
  | nil => trivial
  | cons a rest ih =>
    obtain ⟨⟨n,ha,hn⟩,hl⟩ := hl
    have hsa := hs a (by simp)
    refine ⟨⟨n,hsa.trans ha,node_ok_mono hhead h hn⟩,?_⟩
    rw [high_of_eq hsa]
    exact ih (fun x hx => hs x (by simp [hx])) hl

lemma uppers_mono {uppers : List (List NodeId)} (hhead : lower'.head? = lower.head?)
    (h : ∀ k c, adm k c → adm' k c) (hs : ∀ a ∈ uppers.flatten, nodes'[a]? = nodes[a]?)
    (hu : UppersOk nodes adm lower uppers) : UppersOk nodes' adm' lower' uppers := by
  induction uppers generalizing adm adm' lower lower' with
  | nil => trivial
  | cons ids more ih =>
    obtain ⟨hne,hl,hv,hm⟩ := hu
    have hids : ∀ a ∈ ids, nodes'[a]? = nodes[a]? := fun a ha => hs a (by simp [ha])
    refine ⟨hne,linked_of_eq hids hl,level_mono hhead h hids hv,ih rfl ?_ ?_ hm⟩
    · intro k c hc
      exact follows_congr (fun a ha => high_of_eq (hids a ha)) hc
    · intro a ha
      exact hs a (by simp only [flatten_cons, mem_append]; exact .inr ha)

variable {pre post : List NodeId}

lemma level_update (seg : List NodeId) (hs : ∀ x ∈ pre, nodes'[x]? = nodes[x]?)
    (h : ∀ lo, LevelOk nodes adm lower lo (a::post) → LevelOk nodes' adm lower lo (seg++post))
    (hl : LevelOk nodes adm lower lo (pre++a::post)) :
    LevelOk nodes' adm lower lo (pre++(seg++post)) := by
  induction pre generalizing lo with
  | nil => exact h lo hl
  | cons x pre ih =>
    obtain ⟨⟨n,hx,hn⟩,hl⟩ := hl
    have hsx := hs x (by simp)
    refine ⟨⟨n,hsx.trans hx,hn⟩,?_⟩
    rw [high_of_eq hsx]
    exact ih (fun y hy => hs y (by simp [hy])) hl

lemma leaves_update (seg : List NodeId)
    (hs : ∀ x ∈ pre, nodes'[x]? = nodes[x]?) (h : LeavesOk nodes' (seg++post))
    (hlow : ∀ x ∈ pre, ∀ h, highOf nodes x = some h → ∀ e ∈ entries nodes' (seg++post), h < e.1)
    (hl : LeavesOk nodes (pre++a::post)) : LeavesOk nodes' (pre++(seg++post)) := by
  induction pre with
  | nil => exact h
  | cons x pre ih =>
    rw [cons_append] at hl ⊢
    obtain ⟨⟨es,high,link,hx,hb⟩,hl⟩ := hl
    have hpre : ∀ y ∈ pre, nodes'[y]? = nodes[y]? := fun y hy => hs y (by simp [hy])
    refine ⟨⟨es,high,link,(hs x (by simp)).trans hx,?_⟩,
      ih hpre (fun y hy => hlow y (by simp [hy])) hl⟩
    intro _ k hk
    obtain ⟨hes,hrest⟩ := hb (by simp) k hk
    refine ⟨hes,?_⟩
    intro e he
    rw [entries_append, mem_append, entries_congr hpre] at he
    rcases he with he | he
    · exact hrest e (by rw [entries_append]; simp [he])
    · exact hlow x (by simp) k ((high_of_packed hx).trans hk) e he

lemma leaves_append (h : LeavesOk nodes (pre++post)) : LeavesOk nodes post := by
  induction pre with
  | nil => exact h
  | cons a pre ih => exact ih h.2

lemma leaf_bounds {h : Bytes} (hl : LeavesOk nodes (pre++a::post))
    (ha : nodes[a]? = some (.leaf (packed es high link))) (hne : post ≠ [])
    (hh : high = some h) : (∀ e ∈ es, e.1 ≤ h) ∧ ∀ e ∈ entries nodes post, h < e.1 := by
  obtain ⟨⟨es',high',link',ha',hb⟩,-⟩ := leaves_append hl
  have hes : es' = es := (entries_at_packed ha').symm.trans (entries_at_packed ha)
  have hhigh : high' = high := (high_of_packed ha').symm.trans (high_of_packed ha)
  exact hes ▸ hb hne h (hhigh.trans hh)

lemma entries_below {key : Bytes} (hne : post ≠ [])
    (hpre : ∀ x ∈ pre, ∃ h, highOf nodes x = some h ∧ h < key)
    (hl : LeavesOk nodes (pre++post)) : ∀ e ∈ entries nodes pre, e.1 < key := by
  induction pre with
  | nil => simp [entries]
  | cons a pre ih =>
    obtain ⟨⟨es,high,link,ha,hb⟩,hl⟩ := hl
    obtain ⟨h,hh,hk⟩ := hpre a (by simp)
    have hhigh : high = some h := (high_of_packed ha).symm.trans hh
    intro e he
    rw [entries_cons, mem_append, entries_at_packed ha] at he
    rcases he with he | he
    · exact ((hb (by simp [hne]) h hhigh).1 e he).trans_lt hk
    · exact ih (fun x hx => hpre x (by simp [hx])) hl e he

lemma high_below (hne : post ≠ []) (hl : LeavesOk nodes (pre++post)) :
    ∀ x ∈ pre, ∀ h, highOf nodes x = some h → ∀ e ∈ entries nodes post, h < e.1 := by
  induction pre with
  | nil => simp
  | cons a pre ih =>
    rw [cons_append] at hl
    obtain ⟨⟨es,high,link,ha,hb⟩,hl⟩ := hl
    intro x hx h hh e he
    rcases mem_cons.mp hx with rfl | hx
    · have hhigh : high = some h := (high_of_packed ha).symm.trans hh
      exact (hb (by simp [hne]) h hhigh).2 e (by rw [entries_append]; simp [he])
    · exact ih hl x hx h hh e he

end

end ByteDB.BPlusTree
