import ByteDB.Assoc

/-!
# The free space map

The pages with free space are kept in buckets by the share of the page that is
free, which is computed in 64 bits.
-/

set_option autoImplicit false

namespace ByteDB

structure FreeSpaceMap where
  pageSize : ℕ
  pages : Assoc.Map UInt32 ℕ
  buckets : Fin 16 → List UInt32

namespace FreeSpaceMap
open Assoc List Function

def new (pageSize : ℕ) : FreeSpaceMap := ⟨pageSize,∅,fun _ => []⟩

def bucketIndex (pageSize freeBytes : ℕ) : Fin 16 :=
  if pageSize = 0 then 0 else ⟨min (freeBytes*16%2^64/max pageSize 1) 15,by omega⟩

section
variable (m : FreeSpaceMap)

def swapRemove (l : List UInt32) (pos : ℕ) : List UInt32 :=
  (l.set pos (l.getLastD 0)).dropLast

def leave (buckets : Fin 16 → List UInt32) (idx : Fin 16) (pageId : UInt32) :
    Fin 16 → List UInt32 :=
  match (buckets idx).idxOf? pageId with
  | some pos => update buckets idx (swapRemove (buckets idx) pos)
  | none => buckets

def push (buckets : Fin 16 → List UInt32) (idx : Fin 16) (pageId : UInt32) :
    Fin 16 → List UInt32 :=
  update buckets idx (buckets idx++[pageId])

def record (pageId : UInt32) (freeBytes : ℕ) : FreeSpaceMap :=
  let newIdx := bucketIndex m.pageSize freeBytes
  { m with
    pages := m.pages.insert pageId freeBytes
    buckets := match m.pages.lookup pageId with
      | some oldFree =>
        let oldIdx := bucketIndex m.pageSize oldFree
        if oldIdx ≠ newIdx then push (leave m.buckets oldIdx pageId) newIdx pageId else m.buckets
      | none => push m.buckets newIdx pageId }

def forget (pageId : UInt32) : FreeSpaceMap :=
  match m.pages.lookup pageId with
  | some free =>
    { m with
      pages := m.pages.erase pageId
      buckets := leave m.buckets (bucketIndex m.pageSize free) pageId }
  | none => m

def findWithAtLeast (needed : ℕ) : Option UInt32 :=
  ((finRange 16).filter (bucketIndex m.pageSize needed ≤ ·)).findSome? (fun idx =>
    (m.buckets idx).reverse.find? (fun id => (m.pages.lookup id).any (needed ≤ ·)))

end

inductive Call where
  | record (pageId : UInt32) (freeBytes : ℕ)
  | forget (pageId : UInt32)

def call (m : FreeSpaceMap) : Call → FreeSpaceMap
  | .record pageId freeBytes => m.record pageId freeBytes
  | .forget pageId => m.forget pageId

def recorded (r : UInt32 → Option ℕ) : Call → UInt32 → Option ℕ
  | .record pageId freeBytes,id => if id = pageId then some freeBytes else r id
  | .forget pageId,id => if id = pageId then none else r id

lemma count_swapRemove {l : List UInt32} {pos : ℕ} (h : pos < l.length) (x : UInt32) :
    (swapRemove l pos).count x = l.count x-if l[pos] = x then 1 else 0 := by
  obtain rfl | ⟨l,last,rfl⟩ := l.eq_nil_or_concat'
  · cases h
  · rw [swapRemove, getLastD_concat, set_append]
    by_cases hpos : pos < l.length
    · have hx : l[pos] = x → 0 < l.count x := fun e => count_pos_iff.2 (e ▸ getElem_mem hpos)
      simp only [if_pos hpos, dropLast_concat, count_set hpos, getElem_append_left hpos,
        count_append, count_singleton, beq_iff_eq]
      split_ifs <;> grind
    · have hlast : pos = l.length := by grind
      subst hlast
      simp [count_append, count_singleton]

variable {m : FreeSpaceMap} (buckets : Fin 16 → List UInt32) (idx : Fin 16) (id : UInt32)

lemma count_leave (j : Fin 16) (x : UInt32) : (leave buckets idx id j).count x =
    (buckets j).count x-if j = idx ∧ x = id then 1 else 0 := by
  cases h : (buckets idx).idxOf? id with
  | some pos =>
    obtain ⟨hpos,hid,-⟩ := idxOf?_eq_some_iff.1 h
    by_cases hj : j = idx
    · subst hj
      simp [leave, h, count_swapRemove hpos, hid, eq_comm]
    · simp [leave, h, hj]
  | none =>
    have := count_eq_zero.2 (idxOf?_eq_none_iff.1 h)
    rw [leave, h]
    split_ifs with he
    · rw [he.1, he.2, this]
    · rfl

lemma count_push (j : Fin 16) (x : UInt32) : (push buckets idx id j).count x =
    (buckets j).count x+if j = idx ∧ x = id then 1 else 0 := by
  by_cases hj : j = idx
  · subst hj
    simp [push, count_singleton, eq_comm (a := id)]
  · simp [push, hj]

/-- Every page that is known is in the bucket of its free space, once, and in
no other. -/
structure Filed (r : UInt32 → Option ℕ) (m : FreeSpaceMap) : Prop where
  pages : ∀ id, m.pages.lookup id = r id
  buckets : ∀ id idx, (m.buckets idx).count id =
    if (r id).map (bucketIndex m.pageSize) = some idx then 1 else 0

lemma call_filed {r : UInt32 → Option ℕ} (h : Filed r m) : ∀ c, Filed (recorded r c) (m.call c)
  | .record id free => by
    refine ⟨fun x => ?_,fun x j => ?_⟩
    · rw [call, record, recorded, lookup_insert_eq, h.pages]
    · have hx := h.buckets x j
      simp only [call, record, recorded, h.pages]
      cases hold : r id with
      | some old =>
        by_cases hne : bucketIndex m.pageSize old = bucketIndex m.pageSize free
        · simp only [hne, ne_eq, not_true_eq_false, if_false]
          grind
        · simp only [ne_eq, hne, not_false_eq_true, if_true, count_push, count_leave]
          grind
      | none =>
        simp only [count_push]
        grind
  | .forget id => by
    rw [call, forget, h.pages]
    split
    · refine ⟨fun x => ?_,fun x j => ?_⟩
      · rw [recorded, lookup_erase_eq, h.pages]
      · have hx := h.buckets x j
        rw [recorded, count_leave]
        grind
    · refine ⟨fun x => ?_,fun x j => ?_⟩ <;> grind [recorded, h.pages x, h.buckets x]

lemma bucketIndex_mono (pageSize : ℕ) {n free : ℕ} (h : n ≤ free) (hf : free < 2^59) :
    bucketIndex pageSize n ≤ bucketIndex pageSize free := by
  rw [bucketIndex, bucketIndex]
  split
  · exact le_rfl
  · refine Fin.mk_le_mk.2 (min_le_min_right _ (Nat.div_le_div_right ?_))
    rw [Nat.mod_eq_of_lt (by omega), Nat.mod_eq_of_lt (by omega)]
    exact Nat.mul_le_mul_right _ h

lemma find_some {r : UInt32 → Option ℕ} (h : Filed r m) {needed : ℕ}
    (hf : m.findWithAtLeast needed = some id) : ∃ free, r id = some free ∧ needed ≤ free := by
  obtain ⟨idx,-,hi⟩ := exists_of_findSome?_eq_some hf
  have := find?_some hi
  rw [h.pages] at this
  cases hr : r id with
  | none => simp [hr] at this
  | some free => exact ⟨free,rfl,by simpa [hr] using this⟩

lemma find_none {r : UInt32 → Option ℕ} (h : Filed r m) {needed free : ℕ}
    (hf : m.findWithAtLeast needed = none) (hid : r id = some free) (hb : free < 2^59) :
    free < needed := by
  by_contra hle
  have hmono := bucketIndex_mono m.pageSize (not_lt.1 hle) hb
  have hmem : id ∈ m.buckets (bucketIndex m.pageSize free) := by
    rw [← count_pos_iff, h.buckets, hid]
    simp
  have hall := findSome?_eq_none_iff.1 hf _ (mem_filter.2 ⟨mem_finRange _,decide_eq_true hmono⟩)
  have := find?_eq_none.1 hall id (mem_reverse.2 hmem)
  rw [h.pages, hid] at this
  exact this (decide_eq_true (not_lt.1 hle))

lemma foldl_filed (pageSize : ℕ) (calls : List Call) :
    Filed (calls.foldl recorded (fun _ => none)) (calls.foldl call (new pageSize)) := by
  induction calls using reverseRecOn with
  | nil => exact ⟨fun _ => rfl,fun _ _ => rfl⟩
  | append_singleton calls c ih =>
    rw [foldl_concat, foldl_concat]
    exact call_filed ih c

lemma recorded_mem {calls : List Call} {free : ℕ}
    (h : calls.foldl recorded (fun _ => none) id = some free) : .record id free ∈ calls := by
  induction calls using reverseRecOn with
  | nil => cases h
  | append_singleton calls c ih =>
    rw [foldl_concat] at h
    cases c <;> grind [recorded]

/-- A search finds a page with enough space if there is one. -/
theorem free_space_found (pageSize : ℕ) (calls : List Call) (needed : ℕ)
    (hc : ∀ id free, Call.record id free ∈ calls → free < 2^59) :
    (∀ id, (calls.foldl call (new pageSize)).findWithAtLeast needed = some id →
      ∃ free, calls.foldl recorded (fun _ => none) id = some free ∧ needed ≤ free) ∧
    ((calls.foldl call (new pageSize)).findWithAtLeast needed = none →
      ∀ id free, calls.foldl recorded (fun _ => none) id = some free → free < needed) ∧
    ∀ id free, calls.foldl recorded (fun _ => none) id = some free → ∃ idx, ∀ j,
      ((calls.foldl call (new pageSize)).buckets j).count id = if j = idx then 1 else 0 := by
  have h := foldl_filed pageSize calls
  refine ⟨fun id => find_some id h,fun hf id free hid =>
    find_none id h hf hid (hc id free (recorded_mem id hid)),fun id free hid => ?_⟩
  refine ⟨bucketIndex (calls.foldl call (new pageSize)).pageSize free,fun j => ?_⟩
  rw [h.buckets, hid]
  simp [eq_comm]

theorem larger_page_found : ∃ free,
    [Call.record 1 100,.record 2 9000,.record 2 4000].foldl recorded (fun _ => none) 2 =
      some free ∧ 500 ≤ free :=
  (free_space_found 8192 [.record 1 100,.record 2 9000,.record 2 4000] 500 (by grind)).1 2
    (by decide +kernel)

end FreeSpaceMap

end ByteDB
