import ByteDB.BPlusTree

/-!
# Finding the leaf of a key

A descent enters every level at an admissible pointer and moves right from
there. It ends at the leaf whose pairs, with what lies to the left and to the
right of it, cut the entries of the tree at the key.
-/

set_option autoImplicit false

namespace ByteDB.BPlusTree
open ByteDB.Slice ByteDB.LinkedLevel List Prod

/-- How pointers into a level are used: for every key from the separator on,
and the first node for all of them. -/
structure Steers (adm : Bytes → NodeId → Prop) (lower : List NodeId) : Prop where
  mono : ∀ k l c, k ≤ l → adm k c → adm l c
  head : ∀ k c, lower.head? = some c → adm k c

lemma entered_steers (high : NodeId → Option Bytes) (ids : List NodeId) :
    Steers (Entered high ids) ids where
  mono := fun _ _ _ h hc => entered_mono h hc
  head := by
    intro k c hc
    obtain ⟨rest,rfl⟩ := head?_eq_some_iff.mp hc
    exact entered_head k c rest

lemma follows_steers (high : NodeId → Option Bytes) (ids : List NodeId) :
    Steers (Follows high ids) ids where
  mono := fun _ _ _ h hc => follows_mono h hc
  head := by
    intro k c hc
    obtain ⟨rest,rfl⟩ := head?_eq_some_iff.mp hc
    exact follows_head k c rest

section
variable {ids : List NodeId} {uppers : List (List NodeId)} {t : BPlusTree} {leaves : List NodeId}

lemma length_le_of_nodup {n : ℕ} (hd : ids.Nodup) (hb : ∀ id ∈ ids, id < n) : ids.length ≤ n := by
  have hsub : ids ⊆ range n := fun id hid => mem_range.mpr (hb id hid)
  simpa using (hd.subperm hsub).length_le

variable {adm : Bytes → NodeId → Prop} {lower : List NodeId} {nodes : List BTreeNode}
  {root : NodeId}

section
variable (key : Bytes)

lemma move_right_succ (fuel : ℕ) {id : NodeId} (hid : id < t.nodes.length) :
    t.moveRight key (fuel+1) id =
      match highOf t.nodes id, linkOf t.nodes id with
      | some hk, some next => if hk < key then t.moveRight key fuel next else some id
      | _, _ => some id := by
  have hnode := getElem?_eq_getElem hid
  cases hhigh : (t.nodes[id]).highKey with
  | none => simp [moveRight, highOf, linkOf, hnode, hhigh]
  | some hk =>
    cases hlink : (t.nodes[id]).rightLink with
    | none | some => simp [moveRight, highOf, linkOf, hnode, hhigh, hlink]

variable {c : NodeId} {fuel : ℕ}

lemma move_right_from {post : List NodeId} (hl : Linked (highOf t.nodes) (linkOf t.nodes) (c::post))
    (hb : ∀ x ∈ c::post, x < t.nodes.length) (hf : (c::post).length ≤ fuel) :
    ∃ pre id rest, c::post = pre++id::rest ∧ t.moveRight key fuel c = some id ∧
      (∀ x ∈ pre, ∃ h, highOf t.nodes x = some h ∧ h < key) ∧
      (rest ≠ [] → ∃ h, highOf t.nodes id = some h ∧ key ≤ h) := by
  induction post generalizing c fuel with
  | nil =>
    obtain ⟨fuel,rfl⟩ : ∃ n, fuel = n+1 := ⟨fuel-1,by simp at hf; omega⟩
    refine ⟨[],c,[],rfl,?_,by simp,by simp⟩
    have hlink : linkOf t.nodes c = none := hl
    rw [move_right_succ key fuel (hb c (by simp)), hlink]
    cases highOf t.nodes c <;> rfl
  | cons d post ih =>
    obtain ⟨fuel,rfl⟩ : ∃ n, fuel = n+1 := ⟨fuel-1,by simp at hf; omega⟩
    obtain ⟨hlink,hhigh,hrest⟩ := hl
    obtain ⟨h,hh⟩ := Option.isSome_iff_exists.mp hhigh
    rw [move_right_succ key fuel (hb c (by simp)), hlink, hh]
    by_cases hlt : h < key
    · obtain ⟨pre,id,rest,hcut,hm,hpre,hin⟩ :=
        ih hrest (fun x hx => hb x (by simp [mem_cons.mp hx])) (by simpa using hf)
      refine ⟨c::pre,id,rest,by rw [hcut]; rfl,by simpa [hlt] using hm,?_,hin⟩
      intro x hx
      rcases mem_cons.mp hx with rfl | hx
      · exact ⟨h,hh,hlt⟩
      · exact hpre x hx
    · exact ⟨[],c,d::post,rfl,by simp [hlt],by simp,fun _ => ⟨h,hh,not_lt.mp hlt⟩⟩

section
variable (hl : Linked (highOf t.nodes) (linkOf t.nodes) ids) (hd : ids.Nodup)
  (hb : ∀ x ∈ ids, x < t.nodes.length)
include hl hd hb

lemma move_right_mem (hc : c ∈ ids) : ∃ id ∈ ids, t.moveRightWrite c key = some id := by
  obtain ⟨as,bs,rfl⟩ := append_of_mem hc
  have hlen := length_le_of_nodup hd hb
  obtain ⟨pre,id,rest,hcut,hm,-⟩ := move_right_from key (linked_append hl)
    (fun x hx => hb x (by simp only [mem_append]; exact .inr hx))
    (by simp at hlen ⊢; omega : (c::bs).length ≤ t.nodes.length)
  refine ⟨id,?_,hm⟩
  rw [hcut]
  simp

/-- On an upper level the pointer that is found still follows a high key that
is at most the key. -/
lemma move_right_follows (hc : Follows (highOf t.nodes) ids key c) :
    ∃ id, t.moveRightWrite c key = some id ∧ Follows (highOf t.nodes) ids key id := by
  obtain ⟨as,bs,rfl,has⟩ := hc
  have hlen := length_le_of_nodup hd hb
  obtain ⟨pre,id,rest,hcut,hm,hpre,-⟩ := move_right_from key (linked_append hl)
    (fun x hx => hb x (by simp only [mem_append]; exact .inr hx))
    (by simp at hlen ⊢; omega : (c::bs).length ≤ t.nodes.length)
  refine ⟨id,hm,as++pre,rest,by rw [hcut, append_assoc],?_⟩
  intro x hx
  cases hp : pre.getLast? with
  | none =>
    obtain rfl := getLast?_eq_none_iff.mp hp
    exact has x (by simpa using hx)
  | some y =>
    obtain rfl : y = x := by simpa [getLast?_append, hp] using hx
    obtain ⟨h,hh,hlt⟩ := hpre y (mem_of_mem_getLast? hp)
    exact ⟨h,hh,hlt.le⟩

end

variable {lo : Option Bytes} {n : InternalNode}

lemma child_for_admits (hst : Steers adm lower)
    (hn : NodeOk adm lower lo n) (hlo : ∀ h ∈ lo, h ≤ key) :
    ∃ c, childFor n key = some c ∧ adm key c := by
  obtain ⟨as,bs,hkeys,has,-,hp⟩ := partition_point_cases n.keys hn.sorted key
  obtain ⟨hlen,hget⟩ := forall₂_iff_get.mp hn.routed
  have hi : as.length < (lo::n.keys.map some).length := by simp [hkeys]
  have hc : as.length < n.children.length := hlen ▸ hi
  have hadm := hget as.length hi hc
  have hmem : (lo::n.keys.map some).get ⟨as.length,hi⟩ ∈ lo::as.map some := by
    have happ : lo::n.keys.map some = (lo::as.map some)++bs.map some := by simp [hkeys]
    have hlt : as.length < (lo::as.map some).length := by simp
    rw [get_eq_getElem, getElem_of_eq happ, getElem_append_left hlt]
    exact getElem_mem hlt
  refine ⟨n.children.get ⟨as.length,hc⟩,by simp [childFor, hp, hc],?_⟩
  cases hs : (lo::n.keys.map some).get ⟨as.length,hi⟩ with
  | none =>
    rw [hs] at hadm
    exact hst.head key _ hadm
  | some k =>
    rw [hs] at hadm hmem
    refine hst.mono k key _ ?_ hadm
    rcases mem_cons.mp hmem with h | h
    · exact hlo k h.symm
    · obtain ⟨x,hx,hxk⟩ := mem_map.mp h
      exact Option.some.inj hxk ▸ has x hx

lemma level_at {lower pre rest : List NodeId} {a : NodeId}
    (hl : LevelOk nodes adm lower lo (pre++a::rest)) : ∃ n, nodes[a]? = some (.internal n) ∧
      NodeOk adm lower (if pre = [] then lo else pre.getLast?.bind (highOf nodes)) n := by
  induction pre generalizing lo with
  | nil => exact hl.1
  | cons x pre ih =>
    obtain ⟨n,hn,hok⟩ := ih hl.2
    refine ⟨n,hn,?_⟩
    cases pre with
    | nil => simpa using hok
    | cons y pre => simpa [getLast?_cons_cons] using hok

lemma level_step (hst : Steers adm lower) (hl : Linked (highOf t.nodes) (linkOf t.nodes) ids)
    (hv : LevelOk t.nodes adm lower none ids) (hd : ids.Nodup)
    (hb : ∀ x ∈ ids, x < t.nodes.length) (hc : Follows (highOf t.nodes) ids key c) :
    ∃ id n next, id ∈ ids ∧ t.moveRightWrite c key = some id ∧
      t.nodes[id]? = some (.internal n) ∧ childFor n key = some next ∧ adm key next := by
  obtain ⟨id,hm,pre,post,rfl,hpre⟩ := move_right_follows key hl hd hb hc
  obtain ⟨n,hn,hok⟩ := level_at hv
  obtain ⟨next,hnext,hadm⟩ := child_for_admits key hst hok (by
    intro h hh
    split at hh
    · simp at hh
    · obtain ⟨a,ha,hah⟩ := Option.bind_eq_some_iff.mp hh
      obtain ⟨k,hk,hle⟩ := hpre a ha
      exact Option.some.inj (hk.symm.trans hah) ▸ hle)
  exact ⟨id,n,next,by simp,hm,hn,hnext,hadm⟩

lemma descend_internal {c id next : NodeId} {p : List NodeId}
    (hm : t.moveRightWrite c key = some id) (hn : t.nodes[id]? = some (.internal n))
    (hc : childFor n key = some next) :
    t.descend key (fuel+1) c p = t.descend key fuel next (p++[id]) := by
  simp [descend, hm, hn, hc]

/-- A descent from the root to the level below the given ones. The path holds
one node of each, the lowest first. -/
lemma descend_to (hst : Steers adm lower)
    (hu : UppersOk t.nodes adm lower uppers) (hd : uppers.flatten.Nodup)
    (hb : ∀ id ∈ uppers.flatten, id < t.nodes.length)
    (hr : (top lower uppers).head? = some root) (fuel : ℕ) :
    ∃ c path, adm key c ∧ List.Forall₂ (· ∈ ·) path uppers ∧
      t.descend key (fuel+uppers.length) root [] = t.descend key fuel c path.reverse := by
  induction uppers generalizing adm lower fuel with
  | nil => exact ⟨root,[],hst.head key root hr,.nil,rfl⟩
  | cons ids more ih =>
    obtain ⟨-,hl,hv,hm⟩ := hu
    rw [flatten_cons] at hd hb
    obtain ⟨hdi,hdm,-⟩ := nodup_append.mp hd
    obtain ⟨c,path,hc,hpath,hdesc⟩ := ih (follows_steers _ ids) hm hdm
      (fun id h => hb id (by simp only [mem_append]; exact .inr h)) hr (fuel+1)
    obtain ⟨id,n,next,hid,hmv,hn,hnext,hadm⟩ := level_step key hst hl hv hdi
      (fun x hx => hb x (by simp [hx])) hc
    refine ⟨next,id::path,hadm,.cons hid hpath,?_⟩
    rw [length_cons, show fuel+(more.length+1) = fuel+1+more.length by omega, hdesc,
      descend_internal key hmv hn hnext, reverse_cons]

lemma find_leaf_eq (fuel : ℕ) (c : NodeId) (p : List NodeId) :
    t.findLeaf key fuel c = (t.descend key fuel c p).map Prod.snd := by
  induction fuel generalizing c p with
  | zero => rfl
  | succ fuel ih =>
    cases hm : t.moveRight key t.nodes.length c with
    | none => simp [findLeaf, descend, moveRightRead, moveRightWrite, hm]
    | some id =>
      cases hn : t.nodes[id]? with
      | none => simp [findLeaf, descend, moveRightRead, moveRightWrite, hm, hn]
      | some node =>
        cases node with
        | leaf leaf => simp [findLeaf, descend, moveRightRead, moveRightWrite, hm, hn]
        | internal n =>
          cases hc : childFor n key with
          | none => simp [findLeaf, descend, moveRightRead, moveRightWrite, hm, hn, hc]
          | some next =>
            simpa [findLeaf, descend, moveRightRead, moveRightWrite, hm, hn, hc] using
              ih next (p++[id])

end

lemma uppers_length
    (hu : UppersOk nodes adm lower uppers) : uppers.length ≤ uppers.flatten.length := by
  induction uppers generalizing adm lower with
  | nil => simp
  | cons ids more ih =>
    have hpos := length_pos_iff.mpr hu.1
    have hmore := ih hu.2.2.2
    simp only [length_cons, flatten_cons, length_append]
    omega


lemma TreeInv.levels_lt {t : BPlusTree}
    (h : TreeInv t leaves uppers) : uppers.length < t.nodes.length := by
  have hlen := length_le_of_nodup h.nodup h.bounded
  have hup := uppers_length h.uppersOk
  have hpos := length_pos_iff.mpr h.nonempty
  rw [length_append] at hlen
  omega

/-- The leaf that a key belongs to, at its place among the leaves. -/
structure Home (t : BPlusTree) (leaves : List NodeId) (key : Bytes) (id : NodeId)
    (pre rest : List NodeId) (es : List (Bytes × Bytes)) (high : Option Bytes)
    (link : Option NodeId) : Prop where
  cut : leaves = pre++id::rest
  node : t.nodes[id]? = some (.leaf (packed es high link))
  above : ∀ x ∈ pre, ∃ h, highOf t.nodes x = some h ∧ h < key
  within : rest ≠ [] → ∃ h, high = some h ∧ key ≤ h

section
variable (key : Bytes)

lemma descend_home (h : TreeInv t leaves uppers) :
    ∃ id pre rest es high link path, Home t leaves key id pre rest es high link ∧
      List.Forall₂ (· ∈ ·) path uppers ∧
      t.descend key t.nodes.length t.root [] = some (path.reverse,id) := by
  obtain ⟨fuel,hfuel⟩ : ∃ n, t.nodes.length = n+1+uppers.length :=
    ⟨t.nodes.length-1-uppers.length,by have := h.levels_lt; omega⟩
  obtain ⟨hdl,hdu,-⟩ := nodup_append.mp h.nodup
  obtain ⟨c,path,⟨as,bs,hcut,has⟩,hpath,hdesc⟩ := descend_to key
    (entered_steers _ leaves) h.uppersOk hdu
    (fun id hid => h.bounded id (by simp only [mem_append]; exact .inr hid)) h.rooted (fuel+1)
  have hbl : ∀ x ∈ as++c::bs, x < t.nodes.length :=
    fun x hx => h.bounded x (by simp only [mem_append, hcut]; exact .inl (by simpa using hx))
  have hlen := length_le_of_nodup (hcut ▸ hdl) hbl
  obtain ⟨pre,id,rest,hcut',hm,hpre,hin⟩ := move_right_from key (linked_append (hcut ▸ h.linked))
    (fun x hx => hbl x (by simp only [mem_append]; exact .inr hx))
    (by simp at hlen ⊢; omega : (c::bs).length ≤ t.nodes.length)
  have hleaves : leaves = (as++pre)++id::rest := by rw [hcut, hcut', append_assoc]
  obtain ⟨⟨es,high,link,hnode,-⟩,-⟩ := leaves_append (hleaves ▸ h.leavesOk)
  have hhigh : highOf t.nodes id = high := high_of_packed hnode
  refine ⟨id,as++pre,rest,es,high,link,path,⟨hleaves,hnode,?_,hhigh ▸ hin⟩,hpath,?_⟩
  · intro x hx
    rcases mem_append.mp hx with hx | hx
    · exact has x hx
    · exact hpre x hx
  · have hmw : t.moveRightWrite c key = some id := hm
    rw [hfuel, hdesc]
    simp [descend, hmw, hnode]

lemma find_leaf_home (h : TreeInv t leaves uppers) :
    ∃ id pre rest es high link, Home t leaves key id pre rest es high link ∧
      t.findLeafRead key = some id := by
  obtain ⟨id,pre,rest,es,high,link,path,hh,-,hd⟩ := descend_home key h
  refine ⟨id,pre,rest,es,high,link,hh,?_⟩
  rw [findLeafRead, find_leaf_eq _ _ _ [], hd]
  rfl

variable {key} {id : NodeId} {pre rest : List NodeId} {es : List (Bytes × Bytes)}
  {high : Option Bytes} {link : Option NodeId}

lemma Home.entries_eq (hh : Home t leaves key id pre rest es high link) :
    entries t.nodes leaves = entries t.nodes pre++(es++entries t.nodes rest) := by
  rw [hh.cut, entries_append, entries_cons, entries_at_packed hh.node]

variable (hh : Home t leaves key id pre rest es high link) (h : TreeInv t leaves uppers)
include hh h

lemma Home.left_lt : ∀ e ∈ entries t.nodes pre, e.1 < key :=
  entries_below (by simp) hh.above (hh.cut ▸ h.leavesOk)

lemma Home.right_gt : ∀ e ∈ entries t.nodes rest, key < e.1 := by
  intro e he
  have hne : rest ≠ [] := by
    rintro rfl
    simp [entries] at he
  obtain ⟨k,hk,hle⟩ := hh.within hne
  exact hle.trans_lt ((leaf_bounds (hh.cut ▸ h.leavesOk) hh.node hne hk).2 e he)

lemma Home.increasing : Increasing es := by
  have hi := h.increasing
  rw [hh.entries_eq] at hi
  exact (pairwise_append.mp (pairwise_append.mp hi).2.1).1

end

lemma leftmost_to (hu : UppersOk t.nodes adm lower uppers)
    (hr : (top lower uppers).head? = some root) (fuel : ℕ) :
    ∃ c, lower.head? = some c ∧ t.leftmost (fuel+uppers.length) root = t.leftmost fuel c := by
  induction uppers generalizing adm lower fuel with
  | nil => exact ⟨root,hr,rfl⟩
  | cons ids more ih =>
    obtain ⟨-,-,hv,hm⟩ := hu
    obtain ⟨a,ha,hstep⟩ := ih hm hr (fuel+1)
    obtain ⟨rest,rfl⟩ := head?_eq_some_iff.mp ha
    obtain ⟨⟨n,hn,hok⟩,-⟩ := hv
    obtain ⟨c,cs,hc,-,hcs⟩ := forall₂_cons_left_iff.mp hok.routed
    refine ⟨c,hc,?_⟩
    rw [length_cons, show fuel+(more.length+1) = fuel+1+more.length by omega, hstep]
    simp [leftmost, hn, hcs]

lemma find_leftmost (h : TreeInv t leaves uppers) :
    ∃ c rest, leaves = c::rest ∧ t.findLeftmostLeaf = some c := by
  obtain ⟨fuel,hfuel⟩ : ∃ n, t.nodes.length = n+1+uppers.length :=
    ⟨t.nodes.length-1-uppers.length,by have := h.levels_lt; omega⟩
  obtain ⟨c,hc,hl⟩ := leftmost_to h.uppersOk h.rooted (fuel+1)
  obtain ⟨rest,rfl⟩ := head?_eq_some_iff.mp hc
  obtain ⟨⟨es,high,link,hnode,-⟩,-⟩ := h.leavesOk
  refine ⟨c,rest,rfl,?_⟩
  rw [findLeftmostLeaf, hfuel, hl]
  simp [leftmost, hnode]

end

/-! A write changes the home of its key, and a full leaf is cut in two. From then on
the invariant holds again; handing the cut to the parents and adding a root only add
pointers, whether or not a parent is the one that the path of the descent remembers.
-/

lemma leaf_insert_cases (t : BPlusTree) (id : NodeId) (es : List (Bytes × Bytes))
    (high : Option Bytes) (link : Option NodeId) (key value : Bytes) (hi : Increasing es)
    (ho : 2 ≤ t.order) : (∃ as v bs, es = as++(key,v)::bs ∧
      t.leafInsertLocked id (packed es high link) key value =
        some (t.write id (.leaf (packed (as++(key,value)::bs) high link)),none)) ∨
    ∃ as bs, es = as++bs ∧ (∀ e ∈ as, e.1 < key) ∧ (∀ e ∈ bs, key < e.1) ∧
      (t.leafInsertLocked id (packed es high link) key value =
        some (({ t with len := t.len+1 } : BPlusTree).write id
          (.leaf (packed (as++(key,value)::bs) high link)),none) ∨
      ∃ ls l r rs, as++(key,value)::bs = (ls++[l])++r::rs ∧
        t.leafInsertLocked id (packed es high link) key value =
          some ((({ t with len := t.len+1 } : BPlusTree).write id
              (.leaf (packed (ls++[l]) (some l.1) (some t.nodes.length)))).alloc
            (.leaf (packed (r::rs) ((r::rs).getLast?.map fst) link)),
            some (r.1,t.nodes.length))) := by
  rcases entry_search_cases es hi key with
    ⟨as,v,bs,rfl,-,-,hb⟩ | ⟨as,bs,rfl,has,hbs,hb⟩
  · left
    have hv := replace_at_split (as.map snd) (bs.map snd) v value
    refine ⟨as,v,bs,rfl,?_⟩
    simp only [map_append, map_cons, length_map] at hb hv
    simp [leafInsertLocked, packed, hb, hv]
  right
  refine ⟨as,bs,rfl,has,hbs,?_⟩
  have hk := insert_at_split (as.map fst) (bs.map fst) key
  have hv := insert_at_split (as.map snd) (bs.map snd) value
  simp only [map_append, length_map] at hb hk hv
  by_cases hlen : (as++(key,value)::bs).length < t.order
  · left
    have hlen' : as.length+(bs.length+1) < t.order := by simpa using hlen
    simp [leafInsertLocked, packed, hb, hk, hv, hlen']
  right
  have hlen' : ¬ as.length+(bs.length+1) < t.order := by simpa using hlen
  have hmid : (as.length+(bs.length+1))/2 ≤ as.length+(bs.length+1) := by omega
  have hkeys : as.map fst++key::bs.map fst = (as++(key,value)::bs).map fst := by simp
  have hvals : as.map snd++value::bs.map snd = (as++(key,value)::bs).map snd := by simp
  have hcount : (as++(key,value)::bs).length = as.length+(bs.length+1) := by simp
  generalize as++(key,value)::bs = all at hkeys hvals hcount
  obtain ⟨ls,l,hl⟩ : ∃ ls l, all.take ((as.length+(bs.length+1))/2) = ls++[l] := by
    apply (eq_nil_or_concat' _).resolve_left
    intro hnil
    have hzero := congrArg length hnil
    rw [length_take, hcount, length_nil] at hzero
    omega
  obtain ⟨r,rs,hr⟩ : ∃ r rs, all.drop ((as.length+(bs.length+1))/2) = r::rs := by
    apply exists_cons_of_ne_nil
    intro hnil
    have hzero := congrArg length hnil
    rw [length_drop, hcount, length_nil] at hzero
    omega
  have hlast : (r.1::rs.map fst).getLast? = (r::rs).getLast?.map fst := by
    rw [← getLast?_map]
    rfl
  refine ⟨ls,l,r,rs,by rw [← hl, ← hr, take_append_drop],?_⟩
  simp [leafInsertLocked, packed, hb, hk, hv, hlen', splitOff, hkeys, hvals, hcount,
    ← map_take, ← map_drop, hl, hr, hmid, hlast]

section
variable {t : BPlusTree} {key : Bytes} {leaves : List NodeId} {uppers : List (List NodeId)}
  {id : NodeId} {pre rest : List NodeId} {es : List (Bytes × Bytes)} {high : Option Bytes}
  {link : Option NodeId}

lemma Home.bounds (hh : Home t leaves key id pre rest es high link)
    (h : TreeInv t leaves uppers) {k : Bytes} (hk : k = key ∨ ∃ e ∈ es, e.1 = k) :
    (∀ x ∈ pre, ∃ l, highOf t.nodes x = some l ∧ l < k) ∧
      (rest ≠ [] → ∀ l, high = some l → k ≤ l) := by
  rcases hk with rfl | ⟨e,he,rfl⟩
  · refine ⟨hh.above,?_⟩
    intro hne l hl
    obtain ⟨l',hl',hle⟩ := hh.within hne
    exact Option.some.inj (hl'.symm.trans hl) ▸ hle
  constructor
  · intro x hx
    obtain ⟨l,hl,-⟩ := hh.above x hx
    refine ⟨l,hl,high_below (by simp) (hh.cut ▸ h.leavesOk) x hx l hl e ?_⟩
    rw [entries_cons, entries_at_packed hh.node]
    simp [he]
  · intro hne l hl
    exact (leaf_bounds (hh.cut ▸ h.leavesOk) hh.node hne hl).1 e he

lemma Home.fresh (hh : Home t leaves key id pre rest es high link) (h : TreeInv t leaves uppers) :
    id < t.nodes.length ∧ (∀ x ∈ pre, x ≠ id) ∧ (∀ x ∈ rest, x ≠ id) ∧
      ∀ x ∈ uppers.flatten, x ≠ id := by
  have hd := h.nodup
  rw [hh.cut] at hd
  refine ⟨h.bounded id (by simp [hh.cut]),?_,?_,?_⟩ <;> grind

lemma rewrite_leaf (h : TreeInv t leaves uppers)
    (hh : Home t leaves key id pre rest es high link) (es' : List (Bytes × Bytes)) (n : ℕ)
    (hi : Increasing (entries t.nodes pre++(es'++entries t.nodes rest)))
    (hsub : ∀ e ∈ es', e.1 = key ∨ ∃ e' ∈ es, e'.1 = e.1)
    (hn : n = (entries t.nodes pre++(es'++entries t.nodes rest)).length) :
    TreeInv (({ t with len := n } : BPlusTree).write id (.leaf (packed es' high link)))
      leaves uppers ∧
    entries (t.nodes.set id (.leaf (packed es' high link))) leaves =
      entries t.nodes pre++(es'++entries t.nodes rest) := by
  obtain ⟨hlt,hpre,hrest,hup⟩ := hh.fresh h
  have hsame : ∀ a, a ≠ id → (t.nodes.set id (.leaf (packed es' high link)))[a]? = t.nodes[a]? :=
    fun a ha => getElem?_set_ne ha.symm
  have hat : (t.nodes.set id (.leaf (packed es' high link)))[id]? =
      some (.leaf (packed es' high link)) := getElem?_set_self hlt
  generalize hnodes : t.nodes.set id (.leaf (packed es' high link)) = nodes' at hsame hat
  have hhigh : ∀ a ∈ leaves, highOf nodes' a = highOf t.nodes a := by
    intro a _
    by_cases ha : a = id
    · rw [ha, high_of_packed hat, high_of_packed hh.node]
    · exact high_of_eq (hsame a ha)
  have hlink : ∀ a ∈ leaves, linkOf nodes' a = linkOf t.nodes a := by
    intro a _
    by_cases ha : a = id
    · rw [ha, link_of_packed hat, link_of_packed hh.node]
    · exact link_of_eq (hsame a ha)
  have hcr := entries_congr (fun a ha => hsame a (hrest a ha))
  have hentries : entries nodes' leaves = entries t.nodes pre++(es'++entries t.nodes rest) := by
    rw [hh.cut, entries_append, entries_cons, entries_at_packed hat, hcr,
      entries_congr (fun a ha => hsame a (hpre a ha))]
  have hleaves : LeavesOk nodes' leaves := by
    have hl := h.leavesOk
    rw [hh.cut] at hl ⊢
    apply leaves_update [id] (fun x hx => hsame x (hpre x hx)) _ _ hl
    · rw [singleton_append]
      refine ⟨⟨es',high,link,hat,?_⟩,
        leaves_congr (fun a ha => hsame a (hrest a ha)) (leaves_append hl).2⟩
      intro hne k hk
      refine ⟨fun e he => (hh.bounds h (hsub e he)).2 hne k hk,?_⟩
      rw [hcr]
      exact (leaf_bounds hl hh.node hne hk).2
    · intro x hx k hk e he
      rw [singleton_append, entries_cons, entries_at_packed hat, hcr] at he
      rcases mem_append.mp he with he | he
      · obtain ⟨l,hl,hlt⟩ := (hh.bounds h (hsub e he)).1 x hx
        exact Option.some.inj (hl.symm.trans hk) ▸ hlt
      · exact high_below (by simp) hl x hx k hk e (by simp [entries_cons, he])
  refine ⟨?_,hentries⟩
  simp only [write, hnodes]
  exact {
    nonempty := h.nonempty
    linked := linked_congr hhigh hlink h.linked
    leavesOk := hleaves
    increasing := hentries ▸ hi
    uppersOk := uppers_mono rfl (fun k c hc => entered_congr hhigh hc)
      (fun a ha => hsame a (hup a ha)) h.uppersOk
    nodup := h.nodup
    bounded := by
      rw [← hnodes, length_set]
      exact h.bounded
    rooted := h.rooted
    order_ge := h.order_ge
    len_eq := hentries ▸ hn }

lemma rewrite_high (hh : Home t leaves key id pre rest es high link)
    (h : TreeInv t leaves uppers) (es' : List (Bytes × Bytes)) (a : NodeId) :
    highOf (t.nodes.set id (.leaf (packed es' high link))) a = highOf t.nodes a := by
  by_cases ha : a = id
  · rw [ha, high_of_packed (getElem?_set_self (hh.fresh h).1), high_of_packed hh.node]
  · exact high_of_eq (getElem?_set_ne (Ne.symm ha))

/-- The home is cut in two. The new leaf is reached from the old one, and may
be entered from its first key on; pointers to the old leaves stay admissible. -/
lemma split_leaf (h : TreeInv t leaves uppers)
    (hh : Home t leaves key id pre rest es high link) (ls rs : List (Bytes × Bytes))
    (l r : Bytes × Bytes) (n : ℕ) (t' : BPlusTree)
    (hi : Increasing (entries t.nodes pre++((ls++[l])++(r::rs)++entries t.nodes rest)))
    (hsub : ∀ e ∈ (ls++[l])++(r::rs), e.1 = key ∨ ∃ e' ∈ es, e'.1 = e.1)
    (hn : n = (entries t.nodes pre++((ls++[l])++(r::rs)++entries t.nodes rest)).length)
    (ht : t' = (({ t with len := n } : BPlusTree).write id
        (.leaf (packed (ls++[l]) (some l.1) (some t.nodes.length)))).alloc
      (.leaf (packed (r::rs) ((r::rs).getLast?.map fst) link))) :
    TreeInv t' (pre++id::t.nodes.length::rest) uppers ∧
    entries t'.nodes (pre++id::t.nodes.length::rest) =
      entries t.nodes pre++((ls++[l])++(r::rs)++entries t.nodes rest) ∧
    Entered (highOf t'.nodes) (pre++id::t.nodes.length::rest) r.1 t.nodes.length ∧
    ∀ k c, Entered (highOf t.nodes) leaves k c →
      Entered (highOf t'.nodes) (pre++id::t.nodes.length::rest) k c := by
  obtain ⟨hlt,hpre,hrest,hup⟩ := hh.fresh h
  obtain ⟨ms,m,hm⟩ := (eq_nil_or_concat' (r::rs)).resolve_left (by simp)
  have hlast : (r::rs).getLast?.map fst = some m.1 := by simp [hm]
  have hnodes : t'.nodes = t.nodes.set id
      (.leaf (packed (ls++[l]) (some l.1) (some t.nodes.length))) ++
        [.leaf (packed (r::rs) (some m.1) link)] := by
    rw [ht, hlast]
    rfl
  have hsame : ∀ a, a ≠ id → a < t.nodes.length → t'.nodes[a]? = t.nodes[a]? := by
    intro a ha hb
    rw [hnodes, getElem?_append_left (by simpa using hb), getElem?_set_ne ha.symm]
  have hL : t'.nodes[id]? = some (.leaf (packed (ls++[l]) (some l.1) (some t.nodes.length))) := by
    rw [hnodes, getElem?_append_left (by simpa using hlt), getElem?_set_self hlt]
  have hR : t'.nodes[t.nodes.length]? = some (.leaf (packed (r::rs) (some m.1) link)) := by
    simp [hnodes]
  have hbound : ∀ a ∈ pre++rest, a < t.nodes.length ∧ a ≠ id := by
    intro a ha
    rcases mem_append.mp ha with ha | ha
    · exact ⟨h.bounded a (by simp [hh.cut, ha]),hpre a ha⟩
    · exact ⟨h.bounded a (by simp [hh.cut, ha]),hrest a ha⟩
  have hsp : ∀ a ∈ pre, t'.nodes[a]? = t.nodes[a]? := fun a ha =>
    hsame a (hpre a ha) (hbound a (by simp [ha])).1
  have hsr : ∀ a ∈ rest, t'.nodes[a]? = t.nodes[a]? := fun a ha =>
    hsame a (hrest a ha) (hbound a (by simp [ha])).1
  have hcr := entries_congr hsr
  have hentries : entries t'.nodes (pre++id::t.nodes.length::rest) =
      entries t.nodes pre++((ls++[l])++(r::rs)++entries t.nodes rest) := by
    rw [entries_append, entries_cons, entries_cons, entries_at_packed hL, entries_at_packed hR,
      hcr, entries_congr hsp]
    simp only [append_assoc]
  obtain ⟨-,hi',-⟩ := pairwise_append.mp hi
  obtain ⟨hi',-,hgt⟩ := pairwise_append.mp hi'
  obtain ⟨hils,hirs,hlr⟩ := pairwise_append.mp hi'
  have hl := h.leavesOk
  rw [hh.cut] at hl
  have hleaves : LeavesOk t'.nodes (pre++id::t.nodes.length::rest) := by
    apply leaves_update [id,t.nodes.length] hsp _ _ hl
    · rw [cons_append, singleton_append]
      refine ⟨⟨ls++[l],some l.1,_,hL,?_⟩,⟨r::rs,some m.1,link,hR,?_⟩,
        leaves_congr hsr (leaves_append hl).2⟩
      · rintro - k ⟨⟩
        constructor
        · intro e he
          rcases mem_append.mp he with he | he
          · exact ((pairwise_append.mp hils).2.2 e he l (by simp)).le
          · exact (mem_singleton.mp he) ▸ le_refl _
        · intro e he
          rw [entries_cons, entries_at_packed hR, hcr] at he
          rcases mem_append.mp he with he | he
          · exact hlr l (by simp) e he
          · exact hgt l (by simp) e he
      · rintro - k ⟨⟩
        rw [hcr]
        refine ⟨?_,hgt m (by simp [hm])⟩
        intro e he
        rw [hm] at he hirs
        rcases mem_append.mp he with he | he
        · exact ((pairwise_append.mp hirs).2.2 e he m (by simp)).le
        · exact (mem_singleton.mp he) ▸ le_refl _
    · intro x hx k hk e he
      rw [cons_append, singleton_append, entries_cons, entries_cons,
        entries_at_packed hL, entries_at_packed hR, hcr, ← append_assoc] at he
      rcases mem_append.mp he with he | he
      · obtain ⟨k',hk',hlt⟩ := (hh.bounds h (hsub e he)).1 x hx
        exact Option.some.inj (hk'.symm.trans hk) ▸ hlt
      · exact high_below (by simp) hl x hx k hk e (by simp [entries_cons, he])
  have hcut : rest ≠ [] → ∀ k, highOf t.nodes id = some k →
      (∃ l', highOf t'.nodes id = some l' ∧ l' ≤ k) ∧
        ∃ r', highOf t'.nodes t.nodes.length = some r' ∧ r' ≤ k := by
    intro hne k hk
    rw [high_of_packed hh.node] at hk
    exact ⟨⟨l.1,high_of_packed hL,(hh.bounds h (hsub l (by simp))).2 hne k hk⟩,
      m.1,high_of_packed hR,(hh.bounds h (hsub m (by simp [hm]))).2 hne k hk⟩
  have hkeeps : ∀ k c, Entered (highOf t.nodes) leaves k c →
      Entered (highOf t'.nodes) (pre++id::t.nodes.length::rest) k c := by
    intro k c hc
    rw [hh.cut] at hc
    exact entered_split (fun x hx => high_of_eq (hsp x hx)) (fun x hx => high_of_eq (hsr x hx))
      hcut hc
  refine ⟨?_,hentries,?_,hkeeps⟩
  · exact {
      nonempty := by simp
      linked := by
        refine linked_split (fun x hx => ⟨high_of_eq (hsp x hx),link_of_eq (hsp x hx)⟩)
          (fun x hx => ⟨high_of_eq (hsr x hx),link_of_eq (hsr x hx)⟩) (link_of_packed hL)
          ?_ ?_ ?_ (hh.cut ▸ h.linked)
        · rw [high_of_packed hL]
          rfl
        · rw [link_of_packed hR, link_of_packed hh.node]
        · rw [high_of_packed hR]
          exact fun _ => rfl
      leavesOk := hleaves
      increasing := hentries ▸ hi
      uppersOk := by
        refine uppers_mono ?_ hkeeps ?_ h.uppersOk
        · rw [hh.cut]
          cases pre <;> rfl
        · intro a ha
          exact hsame a (hup a ha) (h.bounded a (mem_append.mpr (.inr ha)))
      nodup := by
        have hd := h.nodup
        have hb := h.bounded
        rw [hh.cut] at hd hb
        have hnew : t.nodes.length ∉ (pre++[id])++(rest++uppers.flatten) := by
          intro hmem
          exact lt_irrefl _ (hb _ (by simpa using hmem))
        have hd' := nodup_middle.mpr (nodup_cons.mpr ⟨hnew,by simpa using hd⟩)
        simpa using hd'
      bounded := by
        have hb := h.bounded
        rw [hh.cut] at hb
        intro a ha
        rw [hnodes, length_append, length_set, length_singleton]
        by_cases hnew : a = t.nodes.length
        · exact hnew ▸ Nat.lt_succ_self _
        · exact Nat.lt_succ_of_lt (hb a (by simp at ha ⊢; tauto))
      rooted := by
        rw [ht]
        have hr := h.rooted
        rw [hh.cut] at hr
        cases uppers with
        | nil => cases pre <;> exact hr
        | cons ids more => exact hr
      order_ge := ht ▸ h.order_ge
      len_eq := by
        rw [hentries, ← hn, ht]
        rfl }
  · refine ⟨pre++[id],rest,by simp,?_⟩
    intro x hx
    rcases mem_append.mp hx with hx | hx
    · rw [high_of_eq (hsp x hx)]
      exact (hh.bounds h (hsub r (by simp))).1 x hx
    · rw [mem_singleton.mp hx]
      exact ⟨l.1,high_of_packed hL,hlr l (by simp) r (by simp)⟩

end

end ByteDB.BPlusTree
