import ByteDB.BPlusTreeMap

/-!
# Levels while other calls are at work

Levels are counted from the leaves. A call that has let go of a node holds a
pointer that is admissible in its level, and keeps it: later splits only add
nodes to the right and levels at the top. An offer may be taken by any node of
the level above, also by one that was split since the call found it.
-/

set_option autoImplicit false

namespace ByteDB.BPlusTree
open ByteDB.Slice ByteDB.LinkedLevel List

variable {lower lower' : List NodeId} {uppers : List (List NodeId)} {i : ℕ} {k : Bytes}
  {t : BPlusTree} {adm : Bytes → NodeId → Prop} {lower : List NodeId} {c d : NodeId}
  {s : Bytes × NodeId}

section

def AdmAt (nodes : List BTreeNode) :
    (Bytes → NodeId → Prop) → List (List NodeId) → ℕ → Bytes → NodeId → Prop
  | adm, _, 0, k, c => adm k c
  | _, [], _+1, _, _ => False
  | _, ids::more, i+1, k, c => AdmAt nodes (Follows (highOf nodes) ids) more i k c
termination_by structural _ _ i => i

def levelAt : List NodeId → List (List NodeId) → ℕ → List NodeId
  | lower, _, 0 => lower
  | _, [], _+1 => []
  | _, ids::more, i+1 => levelAt ids more i
termination_by structural _ _ i => i

def InLevel (lower : List NodeId) (uppers : List (List NodeId)) (i : ℕ) (c : NodeId) : Prop :=
  c ∈ levelAt lower uppers i

variable {nodes nodes' : List BTreeNode} {adm adm' : Bytes → NodeId → Prop} {c : NodeId}

lemma adm_at_mono (h : ∀ k c, adm k c → adm' k c)
    (hs : ∀ a ∈ uppers.flatten, nodes'[a]? = nodes[a]?) (hc : AdmAt nodes adm uppers i k c) :
    AdmAt nodes' adm' uppers i k c := by
  induction uppers generalizing adm adm' i with
  | nil =>
    cases i with
    | zero => exact h k c hc
    | succ i => exact hc
  | cons ids more ih =>
    cases i with
    | zero => exact h k c hc
    | succ i =>
      refine ih ?_ ?_ hc
      · intro k c
        exact follows_congr (fun a ha => high_of_eq (hs a (by simp [ha])))
      · intro a ha
        exact hs a (by rw [flatten_cons, mem_append]; exact .inr ha)

lemma adm_at_append (ids : List NodeId) (hc : AdmAt nodes adm uppers i k c) :
    AdmAt nodes adm (uppers++[ids]) i k c := by
  induction uppers generalizing adm i with
  | nil =>
    cases i with
    | zero => exact hc
    | succ i => exact hc.elim
  | cons ids' more ih =>
    cases i with
    | zero => exact hc
    | succ i => exact ih hc

lemma not_in_level_over {i : ℕ} (hc : InLevel lower [] (i+1) c) : False :=
  not_mem_nil hc

lemma level_at_append (lower ids : List NodeId) (uppers : List (List NodeId)) (i : ℕ) :
    (levelAt lower uppers i).Sublist (levelAt lower (uppers++[ids]) i) := by
  induction uppers generalizing lower i with
  | nil =>
    cases i with
    | zero => exact List.Sublist.refl lower
    | succ i => exact nil_sublist _
  | cons ids' more ih =>
    cases i with
    | zero => exact List.Sublist.refl lower
    | succ i => exact ih ids' i

lemma level_at_lower (h : lower.Sublist lower') (uppers : List (List NodeId)) (i : ℕ) :
    (levelAt lower uppers i).Sublist (levelAt lower' uppers i) := by
  cases i with
  | zero => exact h
  | succ i =>
    cases uppers with
    | nil | cons => exact List.Sublist.refl _

lemma in_level_mem (hc : InLevel lower uppers i c) : c ∈ lower++uppers.flatten := by
  induction uppers generalizing lower i with
  | nil =>
    cases i with
    | zero => exact mem_append.mpr (.inl hc)
    | succ i => exact (not_in_level_over hc).elim
  | cons ids more ih =>
    cases i with
    | zero => exact mem_append.mpr (.inl hc)
    | succ i => exact mem_append.mpr (.inr (ih hc))

lemma in_level_unique {j : ℕ} (hd : (lower++uppers.flatten).Nodup)
    (hi : InLevel lower uppers i c) (hj : InLevel lower uppers j c) : i = j := by
  induction uppers generalizing lower i j with
  | nil =>
    cases i with
    | succ i => exact (not_in_level_over hi).elim
    | zero =>
      cases j with
      | zero => rfl
      | succ j => exact (not_in_level_over hj).elim
  | cons ids more ih =>
    obtain ⟨-,hdm,hdis⟩ := nodup_append.mp hd
    cases i with
    | zero =>
      cases j with
      | zero => rfl
      | succ j => exact absurd rfl (hdis c hi c (in_level_mem hj))
    | succ i =>
      cases j with
      | zero => exact absurd rfl (hdis c hj c (in_level_mem hi))
      | succ j => rw [ih hdm hi hj]

lemma in_level_top {root : NodeId} (h : (top lower uppers).head? = some root) :
    InLevel lower uppers uppers.length root := by
  induction uppers generalizing lower with
  | nil => exact mem_of_mem_head? h
  | cons ids more ih => exact ih h

lemma adm_at_top (h : AdmAt nodes adm uppers uppers.length s.1 s.2) :
    Offered nodes adm uppers s := by
  induction uppers generalizing adm with
  | nil => exact h
  | cons ids more ih => exact ih h

lemma adm_at_head {root : NodeId} (hst : Steers adm lower)
    (h : (top lower uppers).head? = some root) : AdmAt nodes adm uppers uppers.length k root := by
  induction uppers generalizing adm lower with
  | nil => exact hst.head k root h
  | cons ids more ih => exact ih (follows_steers _ ids) h

lemma in_level_of_adm (h : ∀ k c, adm k c → c ∈ lower) (hc : AdmAt nodes adm uppers i k c) :
    InLevel lower uppers i c := by
  induction uppers generalizing adm lower i with
  | nil =>
    cases i with
    | zero => exact h k c hc
    | succ i => exact hc.elim
  | cons ids more ih =>
    cases i with
    | zero => exact h k c hc
    | succ i =>
      refine ih ?_ hc
      rintro k c ⟨pre,post,rfl,-⟩
      simp

end

variable {nodes : List BTreeNode} {ids : List NodeId}

section

lemma link_next {pre post : List NodeId}
    (hl : Linked (highOf nodes) (linkOf nodes) (pre++c::post)) (hlink : linkOf nodes c = some d) :
    ∃ post', post = d::post' := by
  have hc := linked_append hl
  cases post with
  | nil =>
    have hnone : linkOf nodes c = none := hc
    rw [hnone] at hlink
    cases hlink
  | cons b post =>
    have hb : linkOf nodes c = some b := hc.1
    rw [hlink] at hb
    cases hb
    exact ⟨post,rfl⟩

variable {h : Bytes}

lemma entered_next
    (hl : Linked (highOf nodes) (linkOf nodes) ids) (hc : Entered (highOf nodes) ids k c)
    (hhigh : highOf nodes c = some h) (hlt : h < k) (hlink : linkOf nodes c = some d) :
    Entered (highOf nodes) ids k d := by
  obtain ⟨pre,post,rfl,hpre⟩ := hc
  obtain ⟨post',rfl⟩ := link_next hl hlink
  refine ⟨pre++[c],post',by simp,?_⟩
  intro a ha
  rcases mem_append.mp ha with ha | ha
  · exact hpre a ha
  · rw [mem_singleton.mp ha]
    exact ⟨h,hhigh,hlt⟩

lemma follows_next
    (hl : Linked (highOf nodes) (linkOf nodes) ids) (hc : Follows (highOf nodes) ids k c)
    (hhigh : highOf nodes c = some h) (hlt : h < k) (hlink : linkOf nodes c = some d) :
    Follows (highOf nodes) ids k d := by
  obtain ⟨pre,post,rfl,-⟩ := hc
  obtain ⟨post',rfl⟩ := link_next hl hlink
  refine ⟨pre++[c],post',by simp,?_⟩
  intro a ha
  obtain rfl : c = a := by simpa using ha
  exact ⟨h,hhigh,hlt.le⟩

lemma adm_at_next (hu : UppersOk t.nodes adm lower uppers)
    (hlow : adm k c → adm k d) (hhigh : highOf t.nodes c = some h) (hlt : h < k)
    (hlink : linkOf t.nodes c = some d) (hc : AdmAt t.nodes adm uppers i k c) :
    AdmAt t.nodes adm uppers i k d := by
  induction uppers generalizing adm lower i with
  | nil =>
    cases i with
    | zero => exact hlow hc
    | succ i => exact hc
  | cons ids more ih =>
    cases i with
    | zero => exact hlow hc
    | succ i =>
      obtain ⟨-,hl,-,hm⟩ := hu
      exact ih hm (fun hf => follows_next hl hf hhigh hlt hlink) hc

lemma in_level_next (hl : Linked (highOf t.nodes) (linkOf t.nodes) lower)
    (hu : UppersOk t.nodes adm lower uppers) (hlink : linkOf t.nodes c = some d)
    (hc : InLevel lower uppers i c) : InLevel lower uppers i d := by
  have hnext : ∀ ids : List NodeId, Linked (highOf t.nodes) (linkOf t.nodes) ids → c ∈ ids →
      d ∈ ids := by
    intro ids hl hc
    obtain ⟨pre,post,rfl⟩ := append_of_mem hc
    obtain ⟨post',rfl⟩ := link_next hl hlink
    simp
  induction uppers generalizing adm lower i with
  | nil =>
    cases i with
    | zero => exact hnext lower hl hc
    | succ i => exact (not_in_level_over hc).elim
  | cons ids more ih =>
    cases i with
    | zero => exact hnext lower hl hc
    | succ i =>
      obtain ⟨-,hli,-,hm⟩ := hu
      exact ih hli hm hc

lemma adm_at_child (hst : Steers adm lower) (hu : UppersOk t.nodes adm lower uppers)
    (hc : AdmAt t.nodes adm uppers (i+1) k c) :
    ∃ n next, t.nodes[c]? = some (.internal n) ∧ childFor n k = some next ∧
      AdmAt t.nodes adm uppers i k next := by
  induction uppers generalizing adm lower i with
  | nil => exact hc.elim
  | cons ids more ih =>
    obtain ⟨-,-,hv,hm⟩ := hu
    cases i with
    | succ i => exact ih (follows_steers _ ids) hm hc
    | zero =>
      obtain ⟨pre,post,rfl,hpre⟩ : Follows (highOf t.nodes) ids k c := hc
      obtain ⟨n,hn,hok⟩ := level_at hv
      have hlo : ∀ h ∈ (if pre = [] then none else pre.getLast?.bind (highOf t.nodes)), h ≤ k := by
        intro h hh
        split at hh
        · simp at hh
        · obtain ⟨a,ha,hah⟩ := Option.bind_eq_some_iff.mp hh
          obtain ⟨k',hk',hle⟩ := hpre a ha
          exact Option.some.inj (hk'.symm.trans hah) ▸ hle
      obtain ⟨next,hnext,hadm⟩ := child_for_admits k hst hok hlo
      exact ⟨n,next,hn,hnext,hadm⟩

end

section
variable {uppers uppers' : List (List NodeId)}

/-- The nodes that come before a node when levels are read from the top, each
from left to right. -/
def visitsBefore (lower : List NodeId) (uppers : List (List NodeId)) (i : ℕ) (c : NodeId) : ℕ :=
  (uppers.drop i).flatten.length + (levelAt lower uppers i).idxOf c

lemma flatten_drop_succ (lower : List NodeId) (uppers : List (List NodeId)) (i : ℕ) :
    (uppers.drop i).flatten.length =
      (levelAt lower uppers (i+1)).length + (uppers.drop (i+1)).flatten.length := by
  induction uppers generalizing lower i with
  | nil => simp [levelAt]
  | cons ids more ih =>
    cases i with
    | zero =>
      cases more with
      | nil | cons => simp [levelAt]
    | succ i => exact ih ids i

lemma visits_before_down (hc : InLevel lower uppers (i+1) c) (d : NodeId) :
    visitsBefore lower uppers (i+1) c < visitsBefore lower uppers i d := by
  have hlt := idxOf_lt_length_iff.mpr hc
  have hdrop := flatten_drop_succ lower uppers i
  rw [visitsBefore, visitsBefore]
  omega

lemma idx_of_next {pre post : List NodeId} (hd : (pre++c::d::post).Nodup) :
    (pre++c::d::post).idxOf c < (pre++c::d::post).idxOf d := by
  obtain ⟨-,hcd,hdis⟩ := nodup_append.mp hd
  have hc : c ∉ pre := fun hmem => hdis c hmem c (by simp) rfl
  have hdp : d ∉ pre := fun hmem => hdis d hmem d (by simp) rfl
  have hne : c ≠ d := fun heq => (nodup_cons.mp hcd).1 (by simp [heq])
  rw [idxOf_append_of_notMem hc, idxOf_append_of_notMem hdp, idxOf_cons_self, idxOf_cons_ne _ hne]
  omega

lemma level_linked {adm : Bytes → NodeId → Prop}
    (hl : Linked (highOf nodes) (linkOf nodes) lower) (hu : UppersOk nodes adm lower uppers)
    (hc : InLevel lower uppers i c) :
    Linked (highOf nodes) (linkOf nodes) (levelAt lower uppers i) := by
  induction uppers generalizing adm lower i with
  | nil =>
    cases i with
    | zero => exact hl
    | succ i => exact (not_in_level_over hc).elim
  | cons ids more ih =>
    cases i with
    | zero => exact hl
    | succ i =>
      obtain ⟨-,hli,-,hm⟩ := hu
      exact ih hli hm hc

lemma level_nodup (hd : (lower++uppers.flatten).Nodup) (i : ℕ) :
    (levelAt lower uppers i).Nodup := by
  induction uppers generalizing lower i with
  | nil =>
    cases i with
    | zero => exact (nodup_append.mp hd).1
    | succ i => exact nodup_nil
  | cons ids more ih =>
    cases i with
    | zero => exact (nodup_append.mp hd).1
    | succ i => exact ih (nodup_append.mp hd).2.1 i

lemma idx_of_sublist {as bs : List NodeId} (h : as.Sublist bs) (hd : bs.Nodup) (hc : c ∈ as) :
    as.idxOf c ≤ bs.idxOf c := by
  induction h with
  | slnil => exact le_refl _
  | cons b h ih =>
    obtain ⟨hb,hd⟩ := nodup_cons.mp hd
    have hne : b ≠ c := fun heq => hb (h.subset (heq ▸ hc))
    rw [idxOf_cons_ne _ hne]
    exact (ih hd hc).trans (Nat.le_succ _)
  | cons_cons b h ih =>
    obtain ⟨hb,hd⟩ := nodup_cons.mp hd
    by_cases heq : b = c
    · rw [heq, idxOf_cons_self]
      exact Nat.zero_le _
    · have hmem : c ∈ _ := (mem_cons.mp hc).resolve_left (Ne.symm heq)
      rw [idxOf_cons_ne _ heq, idxOf_cons_ne _ heq]
      exact Nat.succ_le_succ (ih hd hmem)

lemma level_at_drop (lower : List NodeId) (uppers : List (List NodeId)) (i j : ℕ) :
    levelAt lower uppers (i+j) = levelAt (levelAt lower uppers i) (uppers.drop i) j := by
  induction i generalizing lower uppers with
  | zero => rw [Nat.zero_add, drop_zero, levelAt]
  | succ i ih =>
    rw [Nat.add_right_comm]
    cases uppers with
    | nil => cases j <;> simp [levelAt]
    | cons ids more => exact ih ids more

lemma levels_length_le (h : ∀ i, (levelAt lower uppers i).Sublist (levelAt lower' uppers' i)) :
    uppers.flatten.length ≤ uppers'.flatten.length := by
  induction uppers generalizing lower lower' uppers' with
  | nil => exact Nat.zero_le _
  | cons ids more ih =>
    have hids := (h 1).length_le
    cases uppers' with
    | nil =>
      have hempty : ∀ i, (levelAt ids more i).Sublist (levelAt [] [] i) := by
        intro i
        cases i with
        | zero => exact h 1
        | succ i => exact h (i+2)
      have hmore := ih hempty
      simp only [levelAt, length_nil] at hids
      rw [flatten_cons, length_append]
      omega
    | cons ids' more' =>
      have hmore : more.flatten.length ≤ more'.flatten.length := ih (fun i => h (i+1))
      simp only [levelAt] at hids
      rw [flatten_cons, length_append, flatten_cons, length_append]
      omega

lemma visits_before_mono (hd : (lower'++uppers'.flatten).Nodup)
    (h : ∀ i, (levelAt lower uppers i).Sublist (levelAt lower' uppers' i))
    (hc : InLevel lower uppers i c) :
    visitsBefore lower uppers i c ≤ visitsBefore lower' uppers' i c := by
  have habove : ∀ j, (levelAt (levelAt lower uppers i) (uppers.drop i) j).Sublist
      (levelAt (levelAt lower' uppers' i) (uppers'.drop i) j) := by
    intro j
    rw [← level_at_drop, ← level_at_drop]
    exact h (i+j)
  exact Nat.add_le_add (levels_length_le habove) (idx_of_sublist (h i) (level_nodup hd i) hc)

lemma visits_before_next {adm : Bytes → NodeId → Prop}
    (hl : Linked (highOf nodes) (linkOf nodes) lower) (hu : UppersOk nodes adm lower uppers)
    (hd : (lower++uppers.flatten).Nodup) (hc : InLevel lower uppers i c)
    (hlink : linkOf nodes c = some d) :
    visitsBefore lower uppers i c < visitsBefore lower uppers i d := by
  have hli := level_linked hl hu hc
  have hdi := level_nodup hd i
  obtain ⟨pre,post,hcut⟩ := append_of_mem (show c ∈ levelAt lower uppers i from hc)
  rw [hcut] at hli hdi
  obtain ⟨post',rfl⟩ := link_next hli hlink
  rw [visitsBefore, visitsBefore, hcut]
  exact Nat.add_lt_add_left (idx_of_next hdi) _

lemma visits_before_lt {n : ℕ} (hd : (lower++uppers.flatten).Nodup)
    (hb : ∀ a ∈ lower++uppers.flatten, a < n) (hc : InLevel lower uppers i c) :
    visitsBefore lower uppers i c < n := by
  have htotal : lower.length+uppers.flatten.length ≤ n := by
    have hle := List.Subperm.length_le (hd.subperm (fun a ha => mem_range.mpr (hb a ha)))
    rwa [length_append, length_range] at hle
  have hzero : ∀ i, InLevel lower uppers i c →
      visitsBefore lower uppers i c < lower.length+uppers.flatten.length := by
    intro i hc
    have hlt := idxOf_lt_length_iff.mpr hc
    cases i with
    | zero =>
      simp only [visitsBefore, levelAt, drop_zero] at hlt ⊢
      omega
    | succ i =>
      have hdrop := flatten_drop_succ lower uppers i
      have hsub := ((drop_sublist i uppers).flatten).length_le
      rw [visitsBefore]
      omega
  exact (hzero i hc).trans_le htotal

end

lemma taken_refl (hl : Linked (highOf t.nodes) (linkOf t.nodes) ids)
    (hv : LevelOk t.nodes adm lower none ids) (hd : ids.Nodup)
    (hb : ∀ a ∈ ids, a < t.nodes.length) : Taken t t adm lower ids ids none where
  root := rfl
  order := rfl
  len := rfl
  frame := fun _ _ _ => rfl
  grows := le_refl _
  nodup := hd
  fresh := fun _ ha => .inl ha
  bounded := hb
  head := rfl
  linked := hl
  level := hv
  keeps := fun _ _ h => h
  offer := by simp

structure Raised (t t' : BPlusTree) (adm : Bytes → NodeId → Prop) (lower : List NodeId)
    (uppers uppers' : List (List NodeId)) (i : ℕ) (out : Option (Bytes × NodeId)) : Prop where
  levels : Propagated t t' adm lower uppers uppers' none
  keeps : ∀ j k c, AdmAt t.nodes adm uppers j k c → AdmAt t'.nodes adm uppers' j k c
  grows : ∀ j, (levelAt lower uppers j).Sublist (levelAt lower uppers' j)
  offer : ∀ s, out = some s → AdmAt t'.nodes adm uppers' (i+1) s.1 s.2

lemma raise_ok {i : ℕ} {id : NodeId}
    (hu : UppersOk t.nodes adm lower uppers) (hd : uppers.flatten.Nodup)
    (hb : ∀ a ∈ uppers.flatten, a < t.nodes.length) (hid : InLevel lower uppers (i+1) id)
    (hs : AdmAt t.nodes adm uppers i s.1 s.2) :
    ∃ n t' uppers' out, t.nodes[id]? = some (.internal n) ∧
      t.internalInsertLocked id n s.1 s.2 = some (t',out) ∧
      Raised t t' adm lower uppers uppers' i out := by
  induction uppers generalizing adm lower i with
  | nil => exact (not_in_level_over hid).elim
  | cons ids more ih =>
    obtain ⟨hne,hl,hv,hm⟩ := hu
    rw [flatten_cons] at hd hb
    obtain ⟨hdi,hdm,hdis⟩ := nodup_append.mp hd
    have hbi : ∀ a ∈ ids, a < t.nodes.length := fun a ha =>
      hb a (mem_append.mpr (.inl ha))
    have hbm : ∀ a ∈ more.flatten, a < t.nodes.length := fun a ha =>
      hb a (mem_append.mpr (.inr ha))
    cases i with
    | zero =>
      obtain ⟨n,t',ids',out,hn,hi,htk,hsub⟩ := node_take_offer hl hv hdi hbi hid hs
      have hframe : ∀ a ∈ more.flatten, t'.nodes[a]? = t.nodes[a]? := fun a ha =>
        htk.frame a (fun hmem => hdis a hmem a ha rfl) (hbm a ha)
      have hu' := uppers_mono htk.head htk.keeps hframe hm
      refine ⟨n,t',ids'::more,out,hn,hi,?_,?_,?_,htk.offer⟩
      · exact propagated_cons hd hb hne htk
          (propagated_refl hu' hdm (fun a ha => (hbm a ha).trans_le htk.grows))
      · intro j k c hc
        cases j with
        | zero => exact hc
        | succ j =>
          show AdmAt t'.nodes (Follows (highOf t'.nodes) ids') more j k c
          exact adm_at_mono htk.keeps hframe hc
      · intro j
        cases j with
        | zero => exact List.Sublist.refl lower
        | succ j => exact level_at_lower hsub more j
    | succ i =>
      obtain ⟨n,t',more',out,hn,hi,hr⟩ := ih hm hdm hbm hid hs
      have hsame : ∀ a ∈ ids, t'.nodes[a]? = t.nodes[a]? := fun a ha =>
        hr.levels.frame a (fun hmem => hdis a ha a hmem rfl) (hbi a ha)
      have hfollows : ∀ k c, Follows (highOf t.nodes) ids k c →
          Follows (highOf t'.nodes) ids k c := fun k c =>
        follows_congr (fun a ha => high_of_eq (hsame a ha))
      refine ⟨n,t',ids::more',out,hn,hi,?_,?_,?_,?_⟩
      · exact propagated_cons hd hb hne (taken_refl hl hv hdi hbi) hr.levels
      · intro j k c hc
        cases j with
        | zero => exact hc
        | succ j =>
          show AdmAt t'.nodes (Follows (highOf t'.nodes) ids) more' j k c
          exact adm_at_mono hfollows (fun _ _ => rfl) (hr.keeps j k c hc)
      · intro j
        cases j with
        | zero => exact List.Sublist.refl lower
        | succ j => exact hr.grows j
      · intro s' hs'
        show AdmAt t'.nodes (Follows (highOf t'.nodes) ids) more' (i+1) s'.1 s'.2
        exact adm_at_mono hfollows (fun _ _ => rfl) (hr.offer s' hs')

end ByteDB.BPlusTree
