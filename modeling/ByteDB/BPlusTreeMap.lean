import ByteDB.BPlusTreeSplit

/-!
# The B+ tree as a finite map

A tree represents a map when its leaves, read from left to right, list the
map's pairs. The point operations then act as on the map.
-/

set_option autoImplicit false

namespace ByteDB.BPlusTree
open ByteDB.Slice ByteDB.LinkedLevel List Function Option Prod

def Represents (t : BPlusTree) (m : Bytes → Option Bytes) : Prop :=
  ∃ leaves uppers, TreeInv t leaves uppers ∧ Enumerates (entries t.nodes leaves) m

lemma new_represents (order : ℕ) (h : 2 ≤ order) : Represents (new order) (fun _ => none) :=
  ⟨[0],[],new_inv order h,enumerates_nil⟩

section
variable {t : BPlusTree} {key : Bytes} {leaves : List NodeId} {uppers : List (List NodeId)}
  {id : NodeId} {pre rest : List NodeId} {es : List (Bytes × Bytes)} {high : Option Bytes}
  {link : Option NodeId} {m : Bytes → Option Bytes}

lemma Home.settled (hh : Home t leaves key id pre rest es high link)
    (h : TreeInv t leaves uppers) : ¬(high.any (· < key) = true ∧ link.isSome = true) := by
  rintro ⟨hhigh,hlink⟩
  by_cases hne : rest = []
  · have hl := h.linked
    rw [hh.cut, hne] at hl
    have hnone : linkOf t.nodes id = none := linked_append hl
    rw [link_of_packed hh.node] at hnone
    simp [hnone] at hlink
  · obtain ⟨k,hk,hle⟩ := hh.within hne
    rw [hk, any_some, decide_eq_true_eq] at hhigh
    exact absurd hhigh (not_lt.mpr hle)

section
variable {as bs : List (Bytes × Bytes)} (hh : Home t leaves key id pre rest (as++bs) high link)
include hh

lemma Home.entries_cut :
    entries t.nodes leaves = (entries t.nodes pre++as)++(bs++entries t.nodes rest) := by
  rw [hh.entries_eq]
  simp only [append_assoc]

lemma Home.cut_lt (h : TreeInv t leaves uppers)
    (has : ∀ e ∈ as, e.1 < key) (hbs : ∀ e ∈ bs, key < e.1) :
    (∀ e ∈ entries t.nodes pre++as, e.1 < key) ∧ ∀ e ∈ bs++entries t.nodes rest, key < e.1 := by
  constructor
  · intro e he
    rcases mem_append.mp he with he | he
    · exact hh.left_lt h e he
    · exact has e he
  · intro e he
    rcases mem_append.mp he with he | he
    · exact hbs e he
    · exact hh.right_gt h e he

end

lemma insert_of_leaf {t1 : BPlusTree} {path : List NodeId} {value : Bytes}
    (hh : Home t leaves key id pre rest es high link) (h : TreeInv t leaves uppers)
    (hd : t.descend key t.nodes.length t.root [] = some (path.reverse,id))
    (hi : t.leafInsertLocked id (packed es high link) key value = some (t1,none)) :
    t.insert key value = some t1 := by
  have hs := hh.settled h
  have hs' : ¬((packed es high link).highKey.any (· < key) = true ∧
      (packed es high link).rightLink.isSome = true) := hs
  rw [insert, insertLoop]
  simp only [hd, hh.node, hi, bind_eq_bind, bind_some, if_neg hs']

lemma insert_of_split {t1 : BPlusTree} {path leaves1 : List NodeId} {value : Bytes}
    {s : Bytes × NodeId} (hh : Home t leaves key id pre rest es high link)
    (h : TreeInv t leaves uppers)
    (hd : t.descend key t.nodes.length t.root [] = some (path.reverse,id))
    (hp : List.Forall₂ (· ∈ ·) path uppers)
    (hi : t.leafInsertLocked id (packed es high link) key value = some (t1,some s))
    (h1 : TreeInv t1 leaves1 uppers) (hroot : t1.root = t.root)
    (hs : Entered (highOf t1.nodes) leaves1 s.1 s.2) :
    ∃ t' uppers', t.insert key value = some t' ∧ TreeInv t' leaves1 uppers' ∧
      entries t'.nodes leaves1 = entries t1.nodes leaves1 := by
  have hset : ¬((packed es high link).highKey.any (· < key) = true ∧
      (packed es high link).rightLink.isSome = true) := hh.settled h
  obtain ⟨-,hdu,-⟩ := nodup_append.mp h1.nodup
  obtain ⟨t2,uppers2,out,hprop,hok⟩ := propagate_ok h1.uppersOk hdu
    (fun a ha => h1.bounded a (mem_append.mpr (.inr ha))) hp hs
  obtain ⟨hinv,hent,hoff⟩ := propagated_inv h1 hok
  cases out with
  | none =>
    refine ⟨t2,uppers2,?_,hinv,hent⟩
    rw [insert, insertLoop]
    simp only [hd, hh.node, hi, bind_eq_bind, bind_some, if_neg hset, reverse_reverse, hprop]
  | some s2 =>
    obtain ⟨hginv,hgent⟩ := grow_root_inv hinv (hoff s2 rfl)
    refine ⟨t2.growRoot s2,_,?_,hginv,hgent.trans hent⟩
    rw [insert, insertLoop]
    simp only [hd, hh.node, hi, bind_eq_bind, bind_some, if_neg hset,
      reverse_reverse, hprop, if_pos (hok.root.trans hroot)]

/-- The leaves after one of them was written: they hold `m`, every pointer to a
leaf stays admissible, and `out` is the offer to the parents. -/
structure LeafWritten (t t' : BPlusTree) (leaves leaves' : List NodeId)
    (uppers : List (List NodeId)) (m : Bytes → Option Bytes) (out : Option (Bytes × NodeId)) :
    Prop where
  inv : TreeInv t' leaves' uppers
  holds : Enumerates (entries t'.nodes leaves') m
  root : t'.root = t.root
  keeps : ∀ k c, Entered (highOf t.nodes) leaves k c → Entered (highOf t'.nodes) leaves' k c
  sublist : leaves.Sublist leaves'
  frame : ∀ a ∈ uppers.flatten, t'.nodes[a]? = t.nodes[a]?
  offer : ∀ s, out = some s → Entered (highOf t'.nodes) leaves' s.1 s.2

lemma leaf_rewritten (h : TreeInv t leaves uppers)
    (hh : Home t leaves key id pre rest es high link) (es' : List (Bytes × Bytes)) (n : ℕ)
    (hm : Enumerates (entries t.nodes pre++(es'++entries t.nodes rest)) m)
    (hsub : ∀ e ∈ es', e.1 = key ∨ ∃ e' ∈ es, e'.1 = e.1)
    (hn : n = (entries t.nodes pre++(es'++entries t.nodes rest)).length) :
    LeafWritten t (({ t with len := n } : BPlusTree).write id (.leaf (packed es' high link)))
      leaves leaves uppers m none := by
  obtain ⟨hinv,hent⟩ := rewrite_leaf h hh es' n hm.increasing hsub hn
  exact {
    inv := hinv
    holds := by
      change Enumerates (entries (t.nodes.set id _) leaves) m
      rw [hent]
      exact hm
    root := rfl
    keeps := fun k c => entered_congr (fun a _ => rewrite_high hh h es' a)
    sublist := List.Sublist.refl leaves
    frame := fun a ha => getElem?_set_ne (Ne.symm ((hh.fresh h).2.2.2 a ha))
    offer := by simp }

lemma leaf_insert_represents (value : Bytes) (h : TreeInv t leaves uppers)
    (he : Enumerates (entries t.nodes leaves) m) (hh : Home t leaves key id pre rest es high link) :
    ∃ t' leaves' out, t.leafInsertLocked id (packed es high link) key value = some (t',out) ∧
      LeafWritten t t' leaves leaves' uppers (update m key (some value)) out := by
  have hlen := h.len_eq
  rcases leaf_insert_cases t id es high link key value (hh.increasing h) h.order_ge with
    ⟨as,v,bs,rfl,hi⟩ | ⟨as,bs,rfl,has,hbs,hi⟩
  · rw [hh.entries_cut] at he hlen
    refine ⟨_,leaves,none,hi,leaf_rewritten h hh (as++(key,value)::bs) t.len ?_ ?_ ?_⟩
    · simpa using Enumerates.replace he value
    · intro e hmem
      simp only [mem_append, mem_cons] at hmem
      rcases hmem with hmem | rfl | hmem
      · exact .inr ⟨e,by simp [hmem],rfl⟩
      · exact .inl rfl
      · exact .inr ⟨e,by simp [hmem],rfl⟩
    · simpa using hlen
  rw [hh.entries_cut] at he hlen
  obtain ⟨hlt,hgt⟩ := hh.cut_lt h has hbs
  have he' := Enumerates.put he hlt hgt value
  have hsub : ∀ e ∈ as++(key,value)::bs, e.1 = key ∨ ∃ e' ∈ as++bs, e'.1 = e.1 := by
    intro e hmem
    simp only [mem_append, mem_cons] at hmem
    rcases hmem with hmem | rfl | hmem
    · exact .inr ⟨e,by simp [hmem],rfl⟩
    · exact .inl rfl
    · exact .inr ⟨e,by simp [hmem],rfl⟩
  have hn : t.len+1 = (entries t.nodes pre ++
      ((as++(key,value)::bs)++entries t.nodes rest)).length := by
    simp at hlen ⊢
    omega
  rcases hi with hi | ⟨ls,l,r,rs,hcut,hi⟩
  · exact ⟨_,leaves,none,hi,leaf_rewritten h hh (as++(key,value)::bs) (t.len+1)
      (by simpa using he') hsub hn⟩
  have hall : (entries t.nodes pre++as)++(key,value)::(bs++entries t.nodes rest) =
      entries t.nodes pre++((ls++[l])++(r::rs)++entries t.nodes rest) := by
    rw [← hcut]
    simp
  rw [hall] at he'
  rw [hcut] at hsub hn
  obtain ⟨hinv,hent,hentered,hkeeps⟩ := split_leaf h hh ls rs l r (t.len+1) _
    he'.increasing hsub hn rfl
  obtain ⟨hidlt,-,-,hup⟩ := hh.fresh h
  refine ⟨_,_,_,hi,hinv,hent ▸ he',rfl,hkeeps,?_,?_,?_⟩
  · rw [hh.cut]
    exact List.Sublist.append_left (List.Sublist.cons_cons id (sublist_cons_self _ rest)) pre
  · intro a ha
    have hbound : a < t.nodes.length := h.bounded a (mem_append.mpr (.inr ha))
    change (t.nodes.set id _++_)[a]? = _
    rw [getElem?_append_left (by simpa using hbound), getElem?_set_ne (Ne.symm (hup a ha))]
  · rintro s ⟨⟩
    exact hentered

lemma insert_represents (key value : Bytes) (hm : Represents t m) :
    ∃ t', t.insert key value = some t' ∧ Represents t' (update m key (some value)) := by
  obtain ⟨leaves,uppers,h,he⟩ := hm
  obtain ⟨id,pre,rest,es,high,link,path,hh,hp,hd⟩ := descend_home key h
  obtain ⟨t1,leaves1,out,hi,hw⟩ := leaf_insert_represents value h he hh
  cases out with
  | none => exact ⟨t1,insert_of_leaf hh h hd hi,leaves1,uppers,hw.inv,hw.holds⟩
  | some s =>
    obtain ⟨t',uppers',hins,hinv,hent⟩ :=
      insert_of_split hh h hd hp hi hw.inv hw.root (hw.offer s rfl)
    exact ⟨t',hins,leaves1,uppers',hinv,hent ▸ hw.holds⟩

def searchAt (node : BTreeNode) (key : Bytes) : Option (Option Bytes) := do
  match node with
  | .internal _ => some none
  | .leaf leaf =>
    match ← binarySearch leaf.keys key with
    | .ok i =>
      let v ← leaf.values[i]?
      some (some v)
    | .error _ => some none

lemma search_eq (t : BPlusTree) (key : Bytes) : t.search key = (do
    let id ← t.findLeafRead key
    let node ← t.nodes[id]?
    searchAt node key) := rfl

lemma search_at_home (h : TreeInv t leaves uppers) (he : Enumerates (entries t.nodes leaves) m)
    (hh : Home t leaves key id pre rest es high link) :
    searchAt (.leaf (packed es high link)) key = some (m key) := by
  have hkeys : (packed es high link).keys = es.map fst := rfl
  have hvals : (packed es high link).values = es.map snd := rfl
  rcases entry_search_cases es (hh.increasing h) key with
    ⟨as,v,bs,rfl,-,-,hb⟩ | ⟨as,bs,rfl,has,hbs,hb⟩
  · rw [hh.entries_cut] at he
    simp only [searchAt, hkeys, hvals, hb, bind_eq_bind, bind_some]
    simp [Enumerates.present he]
  · rw [hh.entries_cut] at he
    obtain ⟨hlt,hgt⟩ := hh.cut_lt h has hbs
    simp only [searchAt, hkeys, hb, bind_eq_bind, bind_some, Enumerates.absent he hlt hgt]

lemma search_represents (key : Bytes) (hm : Represents t m) : t.search key = some (m key) := by
  obtain ⟨leaves,uppers,h,he⟩ := hm
  obtain ⟨id,pre,rest,es,high,link,hh,hf⟩ := find_leaf_home key h
  rw [search_eq, hf, bind_eq_bind, bind_some, hh.node, bind_eq_bind,
    bind_some, search_at_home h he hh]

def deleteAt (t : BPlusTree) (id : NodeId) (node : BTreeNode) (key : Bytes) :
    Option (BPlusTree × Bool) := do
  match node with
  | .internal _ => some (t,false)
  | .leaf leaf =>
    match ← binarySearch leaf.keys key with
    | .ok pos =>
      let keys ← removeAt leaf.keys pos
      let values ← removeAt leaf.values pos
      let t := { t with len := t.len-1 }
      some (t.write id (.leaf { leaf with keys := keys, values := values }),true)
    | .error _ => some (t,false)

lemma delete_eq (t : BPlusTree) (key : Bytes) : t.delete key = (do
    let id ← t.findLeafWrite key
    let node ← t.nodes[id]?
    t.deleteAt id node key) := rfl

lemma leaf_untouched (h : TreeInv t leaves uppers) (he : Enumerates (entries t.nodes leaves) m) :
    LeafWritten t t leaves leaves uppers m none :=
  ⟨h,he,rfl,fun _ _ hc => hc,List.Sublist.refl leaves,fun _ _ => rfl,by simp⟩

lemma delete_at_home (h : TreeInv t leaves uppers) (he : Enumerates (entries t.nodes leaves) m)
    (hh : Home t leaves key id pre rest es high link) :
    ∃ t', t.deleteAt id (.leaf (packed es high link)) key = some (t',(m key).isSome) ∧
      LeafWritten t t' leaves leaves uppers (update m key none) none := by
  have hlen := h.len_eq
  have hkeys : (packed es high link).keys = es.map fst := rfl
  have hvals : (packed es high link).values = es.map snd := rfl
  rcases entry_search_cases es (hh.increasing h) key with
    ⟨as,v,bs,rfl,-,-,hb⟩ | ⟨as,bs,rfl,has,hbs,hb⟩
  · rw [hh.entries_cut] at he hlen
    have hk := remove_at_split (as.map fst) (bs.map fst) key
    have hv := remove_at_split (as.map snd) (bs.map snd) v
    rw [length_map] at hk hv
    refine ⟨_,?_,leaf_rewritten h hh (as++bs) (t.len-1) ?_ ?_ ?_⟩
    · rw [map_append, map_cons] at hb hkeys hvals
      rw [deleteAt]
      simp only [hkeys, hvals, hb, bind_eq_bind, bind_some, hk, hv, Enumerates.present he]
      simp [packed]
    · simpa using Enumerates.remove he
    · intro e hmem
      refine .inr ⟨e,?_,rfl⟩
      rcases mem_append.mp hmem with hmem | hmem
      · simp [hmem]
      · simp [hmem]
    · simp at hlen ⊢
      omega
  · have hcut := hh.entries_cut
    obtain ⟨hlt,hgt⟩ := hh.cut_lt h has hbs
    have hnone := Enumerates.absent (hcut ▸ he) hlt hgt
    refine ⟨t,?_,?_⟩
    · simp only [deleteAt, hkeys, hb, bind_eq_bind, bind_some, hnone]
      rfl
    · rw [← hnone, update_eq_self]
      exact leaf_untouched h he

lemma delete_represents (key : Bytes) (hm : Represents t m) :
    ∃ t', t.delete key = some (t',(m key).isSome) ∧ Represents t' (update m key none) := by
  obtain ⟨leaves,uppers,h,he⟩ := hm
  obtain ⟨id,pre,rest,es,high,link,hh,hf⟩ := find_leaf_home key h
  obtain ⟨t',hd,hw⟩ := delete_at_home h he hh
  have hf' : t.findLeafWrite key = some id := hf
  refine ⟨t',?_,leaves,uppers,hw.inv,hw.holds⟩
  rw [delete_eq, hf', bind_eq_bind, bind_some, hh.node, bind_eq_bind, bind_some, hd]

end

end ByteDB.BPlusTree
