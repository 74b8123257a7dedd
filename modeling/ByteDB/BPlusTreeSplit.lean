import ByteDB.BPlusTreeUpdate

/-!
# Handing splits to the parents

A split offers the parents a separator and a pointer that is admissible for
it. A parent that takes the pointer keeps its own pointers admissible, also
when it is full and is split in turn; the offer that is left at the top
becomes a new root.
-/

set_option autoImplicit false

namespace ByteDB.BPlusTree
open ByteDB.Slice ByteDB.LinkedLevel List

variable {c : NodeId} {t : BPlusTree} {adm : Bytes → NodeId → Prop} {n : InternalNode}

section
variable {lower : List NodeId} {lo : Option Bytes}

lemma node_take {k : Bytes} {as bs : List Bytes} (hkeys : n.keys = as++bs) (has : ∀ x ∈ as, x ≤ k)
    (hbs : ∀ x ∈ bs, k < x) (hc : adm k c) (hn : NodeOk adm lower lo n) :
    NodeOk adm lower lo { n with
      keys := as++k::bs
      children := n.children.take (as.length+1)++c::n.children.drop (as.length+1) } := by
  have hsorted := hn.sorted
  have hrouted := hn.routed
  rw [hkeys] at hsorted hrouted
  obtain ⟨ha,hb,hab⟩ := pairwise_append.mp hsorted
  constructor
  · refine pairwise_append.mpr ⟨ha,pairwise_cons.mpr ⟨fun x hx => (hbs x hx).le,hb⟩,?_⟩
    intro a h b hb'
    rcases mem_cons.mp hb' with rfl | hb'
    · exact has a h
    · exact hab a h b hb'
  · have hl := forall₂_take (as.length+1) hrouted
    have hr := forall₂_drop (as.length+1) hrouted
    have htake : (lo::(as++bs).map some).take (as.length+1) = lo::as.map some := by
      simp
    have hdrop : (lo::(as++bs).map some).drop (as.length+1) = bs.map some := by simp
    rw [htake] at hl
    rw [hdrop] at hr
    simpa using rel_append hl (List.Forall₂.cons (a := some k) (b := c) hc hr)

lemma node_split {as bs : List Bytes} {p : Bytes}
    (hkeys : n.keys = as++p::bs) (hn : NodeOk adm lower lo n)
    (hk : Option Bytes) (rl : Option NodeId) :
    NodeOk adm lower lo ⟨as,n.children.take (as.length+1),hk,rl⟩ ∧ NodeOk adm lower (some p)
      ⟨bs,n.children.drop (as.length+1),n.highKey,n.rightLink⟩ := by
  have hsorted := hn.sorted
  have hrouted := hn.routed
  rw [hkeys] at hsorted hrouted
  obtain ⟨ha,hb,-⟩ := pairwise_append.mp hsorted
  have hl := forall₂_take (as.length+1) hrouted
  have hr := forall₂_drop (as.length+1) hrouted
  have htake : (lo::(as++p::bs).map some).take (as.length+1) = lo::as.map some := by
    simp
  have hdrop : (lo::(as++p::bs).map some).drop (as.length+1) = some p::bs.map some := by
    simp
  rw [htake] at hl
  rw [hdrop] at hr
  exact ⟨⟨ha,hl⟩,⟨(pairwise_cons.mp hb).2,hr⟩⟩

lemma internal_insert_cases {k : Bytes} (id : NodeId) (hok : NodeOk adm lower lo n) (hc : adm k c) :
    (∃ n', n'.highKey = n.highKey ∧ n'.rightLink = n.rightLink ∧
      (∀ lo, NodeOk adm lower lo n → NodeOk adm lower lo n') ∧
      t.internalInsertLocked id n k c = some (t.write id (.internal n'),none)) ∨
    ∃ l r p, l.highKey = some p ∧ l.rightLink = some t.nodes.length ∧
      r.highKey = n.highKey ∧ r.rightLink = n.rightLink ∧
      (∀ lo, NodeOk adm lower lo n → NodeOk adm lower lo l ∧ NodeOk adm lower (some p) r) ∧
      t.internalInsertLocked id n k c =
        some ((t.write id (.internal l)).alloc (.internal r),some (p,t.nodes.length)) := by
  obtain ⟨as,bs,hkeys,has,hbs,hp⟩ := partition_point_cases n.keys hok.sorted k
  have hlen : n.keys.length+1 = n.children.length := by simpa using hok.routed.length_eq
  have hik : insertAt n.keys as.length k = some (as++k::bs) := by
    rw [hkeys]
    exact insert_at_split as bs k
  have hic : insertAt n.children (as.length+1) c =
      some (n.children.take (as.length+1)++c::n.children.drop (as.length+1)) := by
    rw [insertAt, if_pos]
    rw [← hlen, hkeys, length_append]
    omega
  have htake : ∀ lo, NodeOk adm lower lo n → NodeOk adm lower lo { n with
      keys := as++k::bs
      children := n.children.take (as.length+1)++c::n.children.drop (as.length+1) } :=
    fun lo hn => node_take hkeys has hbs hc hn
  have hclen : (n.children.take (as.length+1)++c::n.children.drop (as.length+1)).length =
      (as++k::bs).length+1 := by
    rw [hkeys] at hlen
    simp at hlen ⊢
    omega
  generalize n.children.take (as.length+1)++c::n.children.drop (as.length+1) = children
    at hic htake hclen
  by_cases hfull : (as++k::bs).length < t.order
  · left
    refine ⟨{ n with keys := as++k::bs, children := children },rfl,rfl,htake,?_⟩
    have hfull' : as.length+(bs.length+1) < t.order := by simpa using hfull
    simp [internalInsertLocked, hp, hik, hic, hfull']
  right
  have hpos : (as++k::bs).length/2 < (as++k::bs).length := by
    have : 0 < (as++k::bs).length := by simp
    omega
  have hfull' : ¬ as.length+(bs.length+1) < t.order := by simpa using hfull
  generalize hall : as++k::bs = all at hik htake hclen hfull hpos
  obtain ⟨xs,p,ys,hcut,hxs⟩ : ∃ xs p ys, all = xs++p::ys ∧ xs.length = all.length/2 :=
    ⟨all.take (all.length/2),all.get ⟨all.length/2,hpos⟩,all.drop (all.length/2+1),
      by simp,by simp; omega⟩
  refine ⟨⟨xs,children.take (xs.length+1),some p,some t.nodes.length⟩,
    ⟨ys,children.drop (xs.length+1),n.highKey,n.rightLink⟩,p,rfl,rfl,rfl,rfl,?_,?_⟩
  · intro lo hn
    exact node_split (n := { n with keys := all, children := children }) hcut (htake lo hn) _ _
  have hle : xs.length+1 ≤ children.length := by omega
  have hget : all[xs.length]? = some p := by simp [hcut]
  have hsplit : splitOff all (xs.length+1) = some (xs++[p],ys) := by
    simp [splitOff, hcut, take_append]
  simp [internalInsertLocked, hp, hik, hic, hfull, ← hxs, hget, hsplit]
  simp [splitOff, hle]

end

/-- A level after one of its nodes has taken an offer: `ids'` are its nodes
and `out` is the offer that it makes in turn. -/
structure Taken (t t' : BPlusTree) (adm : Bytes → NodeId → Prop) (lower ids ids' : List NodeId)
    (out : Option (Bytes × NodeId)) : Prop where
  root : t'.root = t.root
  order : t'.order = t.order
  len : t'.len = t.len
  frame : ∀ a, a ∉ ids → a < t.nodes.length → t'.nodes[a]? = t.nodes[a]?
  grows : t.nodes.length ≤ t'.nodes.length
  nodup : ids'.Nodup
  fresh : ∀ a ∈ ids', a ∈ ids ∨ t.nodes.length ≤ a
  bounded : ∀ a ∈ ids', a < t'.nodes.length
  head : ids'.head? = ids.head?
  linked : Linked (highOf t'.nodes) (linkOf t'.nodes) ids'
  level : LevelOk t'.nodes adm lower none ids'
  keeps : ∀ k c, Follows (highOf t.nodes) ids k c → Follows (highOf t'.nodes) ids' k c
  offer : ∀ s, out = some s → Follows (highOf t'.nodes) ids' s.1 s.2

variable {nodes : List BTreeNode} {s : Bytes × NodeId}

section
variable {lower pre rest : List NodeId} {id : NodeId}

lemma high_of_internal (h : nodes[id]? = some (.internal n)) : highOf nodes id = n.highKey := by
  simp [highOf, h, BTreeNode.highKey]

lemma link_of_internal (h : nodes[id]? = some (.internal n)) : linkOf nodes id = n.rightLink := by
  simp [linkOf, h, BTreeNode.rightLink]

section
variable (hl : Linked (highOf t.nodes) (linkOf t.nodes) (pre++id::rest))
  (hv : LevelOk t.nodes adm lower none (pre++id::rest)) (hd : (pre++id::rest).Nodup)
  (hb : ∀ x ∈ pre++id::rest, x < t.nodes.length) (hn : t.nodes[id]? = some (.internal n))
include hl hv hd hb hn

lemma taken_in_place {n' : InternalNode}
    (hhigh : n'.highKey = n.highKey) (hlink : n'.rightLink = n.rightLink)
    (hok : ∀ lo, NodeOk adm lower lo n → NodeOk adm lower lo n') :
    Taken t (t.write id (.internal n')) adm lower (pre++id::rest) (pre++id::rest) none := by
  have hlt := hb id (by simp)
  have hsame : ∀ a, a ≠ id → (t.write id (.internal n')).nodes[a]? = t.nodes[a]? :=
    fun a ha => getElem?_set_ne ha.symm
  have hat : (t.write id (.internal n')).nodes[id]? = some (.internal n') := getElem?_set_self hlt
  have hne : ∀ x ∈ pre++rest, x ≠ id := by grind
  have hsr : ∀ x ∈ rest, (t.write id (.internal n')).nodes[x]? = t.nodes[x]? :=
    fun x hx => hsame x (hne x (by simp [hx]))
  have hhighs : ∀ a, highOf (t.write id (.internal n')).nodes a = highOf t.nodes a := by
    intro a
    by_cases ha : a = id
    · rw [ha, high_of_internal hat, high_of_internal hn, hhigh]
    · exact high_of_eq (hsame a ha)
  have hlinks : ∀ a, linkOf (t.write id (.internal n')).nodes a = linkOf t.nodes a := by
    intro a
    by_cases ha : a = id
    · rw [ha, link_of_internal hat, link_of_internal hn, hlink]
    · exact link_of_eq (hsame a ha)
  exact {
    root := rfl
    order := rfl
    len := rfl
    frame := fun a ha _ => hsame a (by rintro rfl; simp at ha)
    grows := by simp [write]
    nodup := hd
    fresh := fun a ha => .inl ha
    bounded := by simpa [write] using hb
    head := rfl
    linked := linked_congr (fun a _ => hhighs a) (fun a _ => hlinks a) hl
    level := by
      refine level_update [id] (fun x hx => hsame x (hne x (by simp [hx]))) ?_ hv
      rintro lo ⟨⟨n0,hn0,hok0⟩,hr⟩
      obtain rfl : n0 = n := by simpa [hn] using hn0.symm
      refine ⟨⟨n',hat,hok lo hok0⟩,?_⟩
      rw [hhighs]
      exact level_mono rfl (fun _ _ h => h) hsr hr
    keeps := fun k c => follows_congr (fun a _ => hhighs a)
    offer := by simp }

lemma taken_split {l r : InternalNode} {p : Bytes}
    (hlh : l.highKey = some p) (hll : l.rightLink = some t.nodes.length)
    (hrh : r.highKey = n.highKey) (hrl : r.rightLink = n.rightLink)
    (hok : ∀ lo, NodeOk adm lower lo n → NodeOk adm lower lo l ∧ NodeOk adm lower (some p) r) :
    Taken t ((t.write id (.internal l)).alloc (.internal r)) adm lower (pre++id::rest)
      (pre++id::t.nodes.length::rest) (some (p,t.nodes.length)) := by
  have hlt := hb id (by simp)
  generalize ht : (t.write id (.internal l)).alloc (.internal r) = t'
  have hnodes : t'.nodes = t.nodes.set id (.internal l)++[.internal r] := by rw [← ht]; rfl
  have hsame : ∀ a, a ≠ id → a < t.nodes.length → t'.nodes[a]? = t.nodes[a]? := by
    intro a ha hb
    rw [hnodes, getElem?_append_left (by simpa using hb), getElem?_set_ne ha.symm]
  have hL : t'.nodes[id]? = some (.internal l) := by
    rw [hnodes, getElem?_append_left (by simpa using hlt), getElem?_set_self hlt]
  have hR : t'.nodes[t.nodes.length]? = some (.internal r) := by simp [hnodes]
  have hne : ∀ x ∈ pre++rest, x ≠ id := by grind
  have hsp : ∀ x ∈ pre, t'.nodes[x]? = t.nodes[x]? := fun x hx =>
    hsame x (hne x (by simp [hx])) (hb x (by simp [hx]))
  have hsr : ∀ x ∈ rest, t'.nodes[x]? = t.nodes[x]? := fun x hx =>
    hsame x (hne x (by simp [hx])) (hb x (by simp [hx]))
  have hnew : t.nodes.length ∉ (pre++[id])++rest :=
    fun hmem => lt_irrefl _ (hb _ (by simpa using hmem))
  exact {
    root := by rw [← ht]; rfl
    order := by rw [← ht]; rfl
    len := by rw [← ht]; rfl
    frame := fun a ha hlt => hsame a (by rintro rfl; simp at ha) hlt
    grows := by simp [hnodes]
    nodup := by
      have hd' := nodup_middle.mpr (nodup_cons.mpr ⟨hnew,by simpa using hd⟩)
      simpa using hd'
    fresh := by
      intro a ha
      by_cases hnew : a = t.nodes.length
      · exact .inr hnew.ge
      · exact .inl (by simp at ha ⊢; tauto)
    bounded := by
      intro a ha
      rw [hnodes, length_append, length_set, length_singleton]
      by_cases hnew : a = t.nodes.length
      · exact hnew ▸ Nat.lt_succ_self _
      · exact Nat.lt_succ_of_lt (hb a (by simp at ha ⊢; tauto))
    head := by cases pre <;> rfl
    linked := by
      refine linked_split (fun x hx => ⟨high_of_eq (hsp x hx),link_of_eq (hsp x hx)⟩)
        (fun x hx => ⟨high_of_eq (hsr x hx),link_of_eq (hsr x hx)⟩) ?_ ?_ ?_ ?_ hl
      · rw [link_of_internal hL, hll]
      · rw [high_of_internal hL, hlh]
        rfl
      · rw [link_of_internal hR, link_of_internal hn, hrl]
      · intro hne
        obtain ⟨k,hk⟩ := linked_high hl hne
        rw [high_of_internal hR, hrh, ← high_of_internal hn, hk]
        rfl
    level := by
      refine level_update [id,t.nodes.length] hsp ?_ hv
      rintro lo ⟨⟨n0,hn0,hok0⟩,hr⟩
      obtain rfl : n0 = n := by simpa [hn] using hn0.symm
      obtain ⟨hokl,hokr⟩ := hok lo hok0
      refine ⟨⟨l,hL,hokl⟩,⟨r,hR,?_⟩,?_⟩
      · rw [high_of_internal hL, hlh]
        exact hokr
      · rw [high_of_internal hR, hrh, ← high_of_internal hn]
        exact level_mono rfl (fun _ _ h => h) hsr hr
    keeps := by
      intro k c hc
      refine follows_split (fun x hx => high_of_eq (hsp x hx))
        (fun x hx => high_of_eq (hsr x hx)) ?_ hc
      rw [high_of_internal hR, hrh, high_of_internal hn]
    offer := by
      rintro s ⟨⟩
      refine ⟨pre++[id],rest,by simp,?_⟩
      intro a ha
      obtain rfl : id = a := by simpa using ha
      exact ⟨p,(high_of_internal hL).trans hlh,le_refl p⟩ }

end

section
variable {ids : List NodeId} (hl : Linked (highOf t.nodes) (linkOf t.nodes) ids)
  (hv : LevelOk t.nodes adm lower none ids) (hd : ids.Nodup) (hb : ∀ x ∈ ids, x < t.nodes.length)
include hl hv hd hb

lemma node_take_offer {id : NodeId} (hid : id ∈ ids) (hs : adm s.1 s.2) :
    ∃ n t' ids' out, t.nodes[id]? = some (.internal n) ∧
      t.internalInsertLocked id n s.1 s.2 = some (t',out) ∧ Taken t t' adm lower ids ids' out ∧
      ids.Sublist ids' := by
  obtain ⟨pre,rest,rfl⟩ := append_of_mem hid
  obtain ⟨n,hn,hok⟩ := level_at hv
  rcases internal_insert_cases (t := t) id hok hs with
    ⟨n',hh,hl',hok',hi⟩ | ⟨l,r,p,hlh,hll,hrh,hrl,hok',hi⟩
  · exact ⟨n,_,_,_,hn,hi,taken_in_place hl hv hd hb hn hh hl' hok',List.Sublist.refl _⟩
  · refine ⟨n,_,_,_,hn,hi,taken_split hl hv hd hb hn hlh hll hrh hrl hok',?_⟩
    exact List.Sublist.append_left (List.Sublist.cons_cons id (sublist_cons_self _ rest)) pre

/-- One turn of the second loop of `insert`. -/
lemma level_take (hc : c ∈ ids) (hs : adm s.1 s.2) :
    ∃ id n t' ids' out, t.moveRightWrite c s.1 = some id ∧ t.nodes[id]? = some (.internal n) ∧
      t.internalInsertLocked id n s.1 s.2 = some (t',out) ∧
      Taken t t' adm lower ids ids' out := by
  obtain ⟨id,hid,hm⟩ := move_right_mem s.1 hl hd hb hc
  obtain ⟨n,t',ids',out,hn,hi,htaken,-⟩ := node_take_offer hl hv hd hb hid hs
  exact ⟨id,n,t',ids',out,hm,hn,hi,htaken⟩

end

end

/-- An offer that no level has taken yet is admissible at the top. -/
def Offered (nodes : List BTreeNode) :
    (Bytes → NodeId → Prop) → List (List NodeId) → Bytes × NodeId → Prop
  | adm, [], s => adm s.1 s.2
  | _, ids::more, s => Offered nodes (Follows (highOf nodes) ids) more s

structure Propagated (t t' : BPlusTree) (adm : Bytes → NodeId → Prop) (lower : List NodeId)
    (uppers uppers' : List (List NodeId)) (out : Option (Bytes × NodeId)) : Prop where
  root : t'.root = t.root
  order : t'.order = t.order
  len : t'.len = t.len
  frame : ∀ a, a ∉ uppers.flatten → a < t.nodes.length → t'.nodes[a]? = t.nodes[a]?
  grows : t.nodes.length ≤ t'.nodes.length
  nodup : uppers'.flatten.Nodup
  fresh : ∀ a ∈ uppers'.flatten, a ∈ uppers.flatten ∨ t.nodes.length ≤ a
  bounded : ∀ a ∈ uppers'.flatten, a < t'.nodes.length
  head : (top lower uppers').head? = (top lower uppers).head?
  uppersOk : UppersOk t'.nodes adm lower uppers'
  offer : ∀ s, out = some s → Offered t'.nodes adm uppers' s

variable {uppers : List (List NodeId)}

lemma offered_mono {adm adm' : Bytes → NodeId → Prop} (h : ∀ k c, adm k c → adm' k c)
    (ho : Offered nodes adm uppers s) : Offered nodes adm' uppers s := by
  cases uppers with
  | nil => exact h s.1 s.2 ho
  | cons ids more => exact ho

lemma top_head {lower lower' : List NodeId}
    (h : lower'.head? = lower.head?) : (top lower' uppers).head? = (top lower uppers).head? := by
  cases uppers with
  | nil => exact h
  | cons ids more => rfl


lemma propagated_refl {lower : List NodeId} (hu : UppersOk t.nodes adm lower uppers)
    (hd : uppers.flatten.Nodup) (hb : ∀ a ∈ uppers.flatten, a < t.nodes.length) :
    Propagated t t adm lower uppers uppers none where
  root := rfl
  order := rfl
  len := rfl
  frame := fun _ _ _ => rfl
  grows := le_refl _
  nodup := hd
  fresh := fun _ ha => .inl ha
  bounded := hb
  head := rfl
  uppersOk := hu
  offer := by simp

lemma propagated_cons {t t1 t2 : BPlusTree}
    {lower ids ids' : List NodeId} {more more' : List (List NodeId)}
    {out1 out : Option (Bytes × NodeId)} (hd : (ids++more.flatten).Nodup)
    (hb : ∀ a ∈ ids++more.flatten, a < t.nodes.length) (hne : ids ≠ [])
    (htk : Taken t t1 adm lower ids ids' out1)
    (hp : Propagated t1 t2 (Follows (highOf t1.nodes) ids') ids' more more' out) :
    Propagated t t2 adm lower (ids::more) (ids'::more') out := by
  obtain ⟨-,-,hdis⟩ := nodup_append.mp hd
  have hout : ∀ a ∈ ids', a ∉ more.flatten := by
    intro a ha hm
    rcases htk.fresh a ha with h | h
    · exact hdis a h a hm rfl
    · exact absurd (hb a (mem_append.mpr (.inr hm))) (not_lt.mpr h)
  have hids : ∀ a ∈ ids', t2.nodes[a]? = t1.nodes[a]? := fun a ha =>
    hp.frame a (hout a ha) (htk.bounded a ha)
  have hfollows : ∀ k c, Follows (highOf t1.nodes) ids' k c → Follows (highOf t2.nodes) ids' k c :=
    fun k c => follows_congr (fun a ha => high_of_eq (hids a ha))
  exact {
    root := hp.root.trans htk.root
    order := hp.order.trans htk.order
    len := hp.len.trans htk.len
    frame := by
      intro a ha hlt
      rw [flatten_cons, mem_append, not_or] at ha
      rw [hp.frame a ha.2 (hlt.trans_le htk.grows), htk.frame a ha.1 hlt]
    grows := htk.grows.trans hp.grows
    nodup := by
      refine nodup_append.mpr ⟨htk.nodup,hp.nodup,?_⟩
      rintro a ha b hb' rfl
      rcases hp.fresh a hb' with h | h
      · exact hout a ha h
      · exact absurd (htk.bounded a ha) (not_lt.mpr h)
    fresh := by
      intro a ha
      rw [flatten_cons, mem_append] at ha ⊢
      rcases ha with ha | ha
      · exact (htk.fresh a ha).imp_left .inl
      · exact (hp.fresh a ha).imp .inr htk.grows.trans
    bounded := by
      intro a ha
      rw [flatten_cons, mem_append] at ha
      rcases ha with ha | ha
      · exact (htk.bounded a ha).trans_le hp.grows
      · exact hp.bounded a ha
    head := hp.head.trans (top_head htk.head)
    uppersOk := by
      refine ⟨?_,linked_of_eq hids htk.linked,level_mono rfl (fun _ _ h => h) hids htk.level,
        uppers_mono rfl hfollows (fun _ _ => rfl) hp.uppersOk⟩
      rintro rfl
      exact hne (head?_eq_none_iff.mp htk.head.symm)
    offer := by
      intro s hs
      rw [Offered]
      exact offered_mono hfollows (hp.offer s hs) }

lemma propagate_ok {lower path : List NodeId}
    (hu : UppersOk t.nodes adm lower uppers) (hd : uppers.flatten.Nodup)
    (hb : ∀ a ∈ uppers.flatten, a < t.nodes.length)
    (hp : List.Forall₂ (· ∈ ·) path uppers) (hs : adm s.1 s.2) :
    ∃ t' uppers' out, t.propagate path s = some (t',out) ∧
      Propagated t t' adm lower uppers uppers' out := by
  induction hp generalizing t adm lower s with
  | nil => exact ⟨t,[],some s,rfl,by constructor <;> simp [top, UppersOk, Offered, hs]⟩
  | @cons c ids path more hc hp ih =>
    obtain ⟨hne,hl,hv,hm⟩ := hu
    rw [flatten_cons] at hd hb
    obtain ⟨hdi,hdm,hdis⟩ := nodup_append.mp hd
    obtain ⟨id,n,t1,ids',out,hmv,hn,hi,htk⟩ := level_take hl hv hdi
      (fun x hx => hb x (by simp [hx])) hc hs
    have hbm : ∀ a ∈ more.flatten, a < t.nodes.length := fun a ha =>
      hb a (mem_append.mpr (.inr ha))
    have hu1 := uppers_mono htk.head htk.keeps
        (fun a ha => htk.frame a (fun hmem => hdis a hmem a ha rfl) (hbm a ha)) hm
    have hb1 : ∀ a ∈ more.flatten, a < t1.nodes.length := fun a ha =>
      (hbm a ha).trans_le htk.grows
    cases out with
    | none =>
      refine ⟨t1,ids'::more,none,by simp [propagate, hmv, hn, hi],?_⟩
      exact propagated_cons hd hb hne htk (propagated_refl hu1 hdm hb1)
    | some next =>
      obtain ⟨t2,more',out,hprop,hok⟩ := ih hu1 hdm hb1 (htk.offer next rfl)
      refine ⟨t2,ids'::more',out,by simp [propagate, hmv, hn, hi, hprop],?_⟩
      exact propagated_cons hd hb hne htk hok

lemma uppers_grow {nodes nodes' : List BTreeNode} {lower : List NodeId} {root id : NodeId}
    (hu : UppersOk nodes adm lower uppers) (ho : Offered nodes adm uppers s)
    (hr : (top lower uppers).head? = some root) (hs : ∀ a ∈ uppers.flatten, nodes'[a]? = nodes[a]?)
    (hid : nodes'[id]? = some (.internal ⟨[s.1],[root,s.2],none,none⟩)) :
    UppersOk nodes' adm lower (uppers++[[id]]) := by
  induction uppers generalizing adm lower with
  | nil =>
    refine ⟨by simp,link_of_internal hid,⟨⟨_,hid,⟨pairwise_singleton _ _,?_⟩⟩,trivial⟩,
      trivial⟩
    exact .cons hr (.cons ho .nil)
  | cons ids more ih =>
    obtain ⟨hne,hl,hv,hm⟩ := hu
    have hids : ∀ a ∈ ids, nodes'[a]? = nodes[a]? := fun a ha => hs a (by simp [ha])
    have hmore := ih hm ho hr (fun a ha =>
      hs a (by simp only [flatten_cons, mem_append]; exact .inr ha))
    refine ⟨hne,linked_of_eq hids hl,level_mono rfl (fun _ _ h => h) hids hv,?_⟩
    exact uppers_mono rfl (fun k c => follows_congr (fun a ha => high_of_eq (hids a ha)))
      (fun _ _ => rfl) hmore

lemma top_append (lower ids : List NodeId) (uppers : List (List NodeId)) :
    top lower (uppers++[ids]) = ids := by
  induction uppers generalizing lower with
  | nil => rfl
  | cons _ more ih => exact ih _

section
variable {t t' : BPlusTree} {leaves : List NodeId} {uppers uppers' : List (List NodeId)}
  {out : Option (Bytes × NodeId)}

lemma propagated_inv (h : TreeInv t leaves uppers)
    (hp : Propagated t t' (Entered (highOf t.nodes) leaves) leaves uppers uppers' out) :
    TreeInv t' leaves uppers' ∧ entries t'.nodes leaves = entries t.nodes leaves ∧
      ∀ s, out = some s → Offered t'.nodes (Entered (highOf t'.nodes) leaves) uppers' s := by
  obtain ⟨hdl,-,hdis⟩ := nodup_append.mp h.nodup
  have hbl : ∀ a ∈ leaves, a < t.nodes.length := fun a ha =>
    h.bounded a (mem_append.mpr (.inl ha))
  have hsame : ∀ a ∈ leaves, t'.nodes[a]? = t.nodes[a]? := fun a ha =>
    hp.frame a (fun hm => hdis a ha a hm rfl) (hbl a ha)
  have hentered : ∀ k c, Entered (highOf t.nodes) leaves k c →
      Entered (highOf t'.nodes) leaves k c :=
    fun k c => entered_congr (fun a ha => high_of_eq (hsame a ha))
  have hentries := entries_congr hsame
  refine ⟨?_,hentries,fun s hs => offered_mono hentered (hp.offer s hs)⟩
  exact {
    nonempty := h.nonempty
    linked := linked_of_eq hsame h.linked
    leavesOk := leaves_congr hsame h.leavesOk
    increasing := hentries ▸ h.increasing
    uppersOk := uppers_mono rfl hentered (fun _ _ => rfl) hp.uppersOk
    nodup := by
      refine nodup_append.mpr ⟨hdl,hp.nodup,?_⟩
      rintro a ha b hb rfl
      rcases hp.fresh a hb with hm | hm
      · exact hdis a ha a hm rfl
      · exact absurd (hbl a ha) (not_lt.mpr hm)
    bounded := by
      intro a ha
      rcases mem_append.mp ha with ha | ha
      · exact (hbl a ha).trans_le hp.grows
      · exact hp.bounded a ha
    rooted := by
      rw [hp.head, hp.root]
      exact h.rooted
    order_ge := hp.order ▸ h.order_ge
    len_eq := by
      rw [hp.len, hentries]
      exact h.len_eq }

lemma grow_root_inv (h : TreeInv t leaves uppers)
    (ho : Offered t.nodes (Entered (highOf t.nodes) leaves) uppers s) :
    TreeInv (t.growRoot s) leaves (uppers++[[t.nodes.length]]) ∧
      entries (t.growRoot s).nodes leaves = entries t.nodes leaves := by
  have hold : ∀ a, a < t.nodes.length → (t.growRoot s).nodes[a]? = t.nodes[a]? :=
    fun a ha => getElem?_append_left ha
  have hbl : ∀ a ∈ leaves, a < t.nodes.length := fun a ha =>
    h.bounded a (mem_append.mpr (.inl ha))
  have hsame : ∀ a ∈ leaves, (t.growRoot s).nodes[a]? = t.nodes[a]? := fun a ha =>
    hold a (hbl a ha)
  have hentries := entries_congr hsame
  have hflat : leaves++(uppers++[[t.nodes.length]]).flatten =
      (leaves++uppers.flatten)++[t.nodes.length] := by simp
  refine ⟨?_,hentries⟩
  exact {
    nonempty := h.nonempty
    linked := linked_of_eq hsame h.linked
    leavesOk := leaves_congr hsame h.leavesOk
    increasing := hentries ▸ h.increasing
    uppersOk := by
      have hu := uppers_grow h.uppersOk ho h.rooted
        (fun a ha => hold a (h.bounded a (mem_append.mpr (.inr ha))))
        (show (t.growRoot s).nodes[t.nodes.length]? = _ by simp [growRoot, alloc])
      exact uppers_mono rfl (fun k c => entered_congr (fun a ha => high_of_eq (hsame a ha)))
        (fun _ _ => rfl) hu
    nodup := by
      rw [hflat]
      refine nodup_append.mpr ⟨h.nodup,nodup_singleton _,?_⟩
      rintro a ha b hb rfl
      exact absurd (h.bounded a ha) (not_lt.mpr (mem_singleton.mp hb).ge)
    bounded := by
      rw [hflat]
      intro a ha
      have hlen : (t.growRoot s).nodes.length = t.nodes.length+1 := by simp [growRoot, alloc]
      rw [hlen]
      rcases mem_append.mp ha with ha | ha
      · exact Nat.lt_succ_of_lt (h.bounded a ha)
      · exact (mem_singleton.mp ha) ▸ Nat.lt_succ_self _
    rooted := by
      rw [top_append]
      rfl
    order_ge := h.order_ge
    len_eq := by
      rw [hentries]
      exact h.len_eq }

end

end ByteDB.BPlusTree
