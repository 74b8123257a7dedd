import Mathlib

/-!
# Levels of a B-link structure

A level is a list of nodes in the order of their right links. Each node but
the last has a high key, and a key that enters the level is carried to the
right past every node whose high key is below it. A pointer into the level
may therefore lag behind the node that a key belongs to. At the lowest level
it must never be ahead of it, so every node in front of the pointer has a
smaller high key. Further up only the node just in front counts: its high
key is the lower bound of the pointers that are found behind it.
-/

set_option autoImplicit false

namespace ByteDB.LinkedLevel
open List

variable {ι K : Type*}

def Linked (high : ι → Option K) (link : ι → Option ι) : List ι → Prop
  | [] => True
  | [a] => link a = none
  | a::b::rest => link a = some b ∧ (high a).isSome ∧ Linked high link (b::rest)

variable {high high' : ι → Option K} {link link' : ι → Option ι} {ids : List ι}

lemma linked_congr (hh : ∀ a ∈ ids, high' a = high a)
    (hl : ∀ a ∈ ids, link' a = link a) (h : Linked high link ids) :
    Linked high' link' ids := by
  induction ids with
  | nil => trivial
  | cons a rest ih =>
    have hi := ih (fun x hx => hh x (by simp [hx])) (fun x hx => hl x (by simp [hx]))
    cases rest with
    | nil => exact (hl a (by simp)).trans h
    | cons b rest =>
      rw [Linked, hh a (by simp), hl a (by simp)]
      exact ⟨h.1,h.2.1,hi h.2.2⟩

variable {pre post : List ι}

lemma linked_append (h : Linked high link (pre++post)) : Linked high link post := by
  induction pre with
  | nil => exact h
  | cons a pre ih =>
    apply ih
    cases hp : pre++post with
    | nil => trivial
    | cons b rest =>
      rw [cons_append, hp] at h
      exact h.2.2

variable {a b : ι}

lemma linked_split (hpre : ∀ x ∈ pre, high' x = high x ∧ link' x = link x)
    (hpost : ∀ x ∈ post, high' x = high x ∧ link' x = link x)
    (ha : link' a = some b) (hah : (high' a).isSome) (hb : link' b = link a)
    (hbh : post ≠ [] → (high' b).isSome)
    (h : Linked high link (pre++a::post)) : Linked high' link' (pre++a::b::post) := by
  induction pre with
  | nil =>
    refine ⟨ha,hah,?_⟩
    cases post with
    | nil =>
      change link' b = none
      rw [hb]
      exact h
    | cons c post =>
      obtain ⟨hac,-,hr⟩ := h
      exact ⟨hb.trans hac,hbh (by simp),
        linked_congr (fun x hx => (hpost x hx).1) (fun x hx => (hpost x hx).2) hr⟩
  | cons x pre ih =>
    have hx := hpre x (by simp)
    have hi := ih (fun y hy => hpre y (by simp [hy]))
    cases pre with
    | nil | cons =>
      obtain ⟨h1,h2,h3⟩ := h
      exact ⟨hx.2.trans h1,hx.1 ▸ h2,hi h3⟩

lemma linked_high (h : Linked high link (pre++a::post))
    (hne : post ≠ []) : ∃ k, high a = some k := by
  have ha := linked_append h
  cases post with
  | nil => exact absurd rfl hne
  | cons b post => exact Option.isSome_iff_exists.mp ha.2.1

variable [LinearOrder K]

def Entered (high : ι → Option K) (ids : List ι) (k : K) (c : ι) : Prop :=
  ∃ pre post, ids = pre++c::post ∧ ∀ a ∈ pre, ∃ h, high a = some h ∧ h < k

def Follows (high : ι → Option K) (ids : List ι) (k : K) (c : ι) : Prop :=
  ∃ pre post, ids = pre++c::post ∧ ∀ a ∈ pre.getLast?, ∃ h, high a = some h ∧ h ≤ k

lemma entered_head (k : K) (c : ι) (rest : List ι) : Entered high (c::rest) k c :=
  ⟨[],rest,rfl,by simp⟩

lemma follows_head (k : K) (c : ι) (rest : List ι) : Follows high (c::rest) k c :=
  ⟨[],rest,rfl,by simp⟩

variable {c : ι}

lemma entered_mono {k l : K} (hkl : k ≤ l) (he : Entered high ids k c) : Entered high ids l c := by
  obtain ⟨pre,post,hids,hpre⟩ := he
  refine ⟨pre,post,hids,?_⟩
  intro a ha
  obtain ⟨x,hx,hk⟩ := hpre a ha
  exact ⟨x,hx,hk.trans_le hkl⟩

lemma follows_mono {k l : K} (hkl : k ≤ l) (he : Follows high ids k c) : Follows high ids l c := by
  obtain ⟨pre,post,hids,hpre⟩ := he
  refine ⟨pre,post,hids,?_⟩
  intro a ha
  obtain ⟨x,hx,hk⟩ := hpre a ha
  exact ⟨x,hx,hk.trans hkl⟩

variable {k : K}

lemma entered_congr (h : ∀ a ∈ ids, high' a = high a)
    (he : Entered high ids k c) : Entered high' ids k c := by
  obtain ⟨pre,post,rfl,hpre⟩ := he
  refine ⟨pre,post,rfl,?_⟩
  intro a ha
  rw [h a (by simp [ha])]
  exact hpre a ha

lemma follows_congr (h : ∀ a ∈ ids, high' a = high a)
    (he : Follows high ids k c) : Follows high' ids k c := by
  obtain ⟨pre,post,rfl,hpre⟩ := he
  refine ⟨pre,post,rfl,?_⟩
  intro a ha
  rw [h a (by simp [mem_of_mem_getLast? ha])]
  exact hpre a ha

lemma cut_cases {pre post as bs : List ι} (h : pre++a::post = as++c::bs) :
    (∃ mid, pre = as++c::mid ∧ bs = mid++a::post) ∨ (pre = as ∧ a = c ∧ post = bs) ∨
    (∃ mid, as = pre++a::mid ∧ post = mid++c::bs) := by
  rcases append_eq_append_iff.mp h with ⟨mid,has,hpost⟩ | ⟨mid,hpre,hbs⟩
  · cases mid with
    | nil =>
      obtain ⟨rfl,rfl⟩ := cons.inj hpost
      exact .inr (.inl ⟨by simpa using has.symm,rfl,rfl⟩)
    | cons x mid =>
      obtain ⟨rfl,rfl⟩ := cons.inj hpost
      exact .inr (.inr ⟨mid,has,rfl⟩)
  · cases mid with
    | nil =>
      obtain ⟨rfl,rfl⟩ := cons.inj hbs
      exact .inr (.inl ⟨by simpa using hpre,rfl,rfl⟩)
    | cons x mid =>
      obtain ⟨rfl,rfl⟩ := cons.inj hbs
      exact .inl ⟨mid,hpre,rfl⟩

variable (hpre : ∀ x ∈ pre, high' x = high x) (hpost : ∀ x ∈ post, high' x = high x)
include hpre hpost

/-- A node `b` linked in behind `a` keeps every pointer into the lowest level
when the two high keys that replace the one of `a` are at most as large. -/
lemma entered_split (hcut : post ≠ [] → ∀ h, high a = some h →
      (∃ l, high' a = some l ∧ l ≤ h) ∧ ∃ r, high' b = some r ∧ r ≤ h)
    (he : Entered high (pre++a::post) k c) : Entered high' (pre++a::b::post) k c := by
  obtain ⟨as,bs,hids,has⟩ := he
  rcases cut_cases hids with ⟨mid,rfl,rfl⟩ | ⟨rfl,rfl,rfl⟩ | ⟨mid,rfl,rfl⟩
  · refine ⟨as,mid++a::b::post,by simp,?_⟩
    intro x hx
    rw [hpre x (by simp [hx])]
    exact has x hx
  · refine ⟨pre,b::post,rfl,?_⟩
    intro x hx
    rw [hpre x hx]
    exact has x hx
  refine ⟨pre++a::b::mid,bs,by simp,?_⟩
  obtain ⟨h,hah,hk⟩ := has a (by simp)
  obtain ⟨⟨l,hl,hlh⟩,r,hr,hrh⟩ := hcut (by simp) h hah
  intro x hx
  simp only [mem_append, mem_cons] at hx
  rcases hx with hx | rfl | rfl | hx
  · rw [hpre x hx]
    exact has x (by simp [hx])
  · exact ⟨l,hl,hlh.trans_lt hk⟩
  · exact ⟨r,hr,hrh.trans_lt hk⟩
  · rw [hpost x (by simp [hx])]
    exact has x (by simp [hx])

/-- Further up `b` only has to take over the high key of `a`. -/
lemma follows_split (hb : high' b = high a)
    (he : Follows high (pre++a::post) k c) : Follows high' (pre++a::b::post) k c := by
  obtain ⟨as,bs,hids,has⟩ := he
  rcases cut_cases hids with ⟨mid,rfl,rfl⟩ | ⟨rfl,rfl,rfl⟩ | ⟨mid,rfl,rfl⟩
  · refine ⟨as,mid++a::b::post,by simp,?_⟩
    intro x hx
    rw [hpre x (by simp [mem_of_mem_getLast? hx])]
    exact has x hx
  · refine ⟨pre,b::post,rfl,?_⟩
    intro x hx
    rw [hpre x (mem_of_mem_getLast? hx)]
    exact has x hx
  refine ⟨pre++a::b::mid,bs,by simp,?_⟩
  intro x hx
  cases hm : mid.getLast? with
  | none =>
    obtain rfl := getLast?_eq_none_iff.mp hm
    obtain rfl : b = x := by simpa using hx
    rw [hb]
    exact has a (by simp)
  | some y =>
    obtain rfl : y = x := by simpa [getLast?_cons, hm] using hx
    rw [hpost y (by simp [mem_of_mem_getLast? hm])]
    exact has y (by simp [getLast?_cons, hm])

end ByteDB.LinkedLevel
