import Mathlib

/-!
# Cycles of dependencies under snapshot reads

Every node has a start and a commit time. An edge that goes with the time
runs from a commit to a later start; an edge against it only says that its
source started before its target committed. A cycle then holds two edges of
the second kind in a row, and they lead to the node that commits first.
-/

set_option autoImplicit false

namespace ByteDB.SerializationGraph
open Relation

variable {ι : Type*} {R : ι → ι → Prop}

/-- Two steps back on a cycle from a node that commits first, and one more. -/
lemma before_first_commit (commit : ι → ℕ) {a : ι} (h : TransGen R a a) :
    ∃ t0 t1 t2 t3, R t0 t1 ∧ R t1 t2 ∧ R t2 t3 ∧ commit t3 ≤ commit t0 ∧
      commit t3 ≤ commit t1 ∧ commit t3 ≤ commit t2 := by
  have hback : ∀ x, TransGen R a x ∧ TransGen R x a →
      ∃ y, (TransGen R a y ∧ TransGen R y a) ∧ R y x := by
    rintro x ⟨hax,hxa⟩
    obtain ⟨y,hay,hyx⟩ := TransGen.tail'_iff.mp hax
    exact ⟨y,⟨h.trans_left hay,TransGen.head hyx hxa⟩,hyx⟩
  obtain ⟨t3,h3,hmin⟩ := (measure commit).wf.has_min {x | TransGen R a x ∧ TransGen R x a} ⟨a,h,h⟩
  obtain ⟨t2,h2,h23⟩ := hback t3 h3
  obtain ⟨t1,h1,h12⟩ := hback t2 h2
  obtain ⟨t0,h0,h01⟩ := hback t1 h1
  exact ⟨t0,t1,t2,t3,h01,h12,h23,not_lt.mp (hmin t0 h0),not_lt.mp (hmin t1 h1),
    not_lt.mp (hmin t2 h2)⟩

lemma pivot_of_cycle (start commit : ι → ℕ) (withTime against : ι → ι → Prop)
    (hR : ∀ i j, R i j → withTime i j ∨ against i j) (hw : ∀ i j, withTime i j → commit i < start j)
    (ha : ∀ i j, against i j → start i < commit j)
    (hsc : ∀ i j, R i j → start j < commit j) (hne : ∀ i j, R i j → commit i ≠ commit j)
    {a : ι} (h : TransGen R a a) :
    ∃ t0 t1 t2 t3, R t0 t1 ∧ against t1 t2 ∧ against t2 t3 ∧ commit t3 ≤ commit t0 ∧
      commit t3 ≤ commit t1 ∧ commit t3 < commit t2 := by
  obtain ⟨t0,t1,t2,t3,h01,h12,h23,hle0,hle1,hle2⟩ := before_first_commit commit h
  have hlt := hsc t2 t3 h23
  have hag : against t2 t3 := by
    rcases hR t2 t3 h23 with ht | ht
    · have := hw t2 t3 ht
      omega
    · exact ht
  have hst := ha t2 t3 hag
  have hag' : against t1 t2 := by
    rcases hR t1 t2 h12 with ht | ht
    · have := hw t1 t2 ht
      omega
    · exact ht
  have := hne t2 t3 h23
  exact ⟨t0,t1,t2,t3,h01,hag',hag,hle0,hle1,by omega⟩

end ByteDB.SerializationGraph
