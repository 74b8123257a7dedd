import ByteDB.OrderedMap

/-!
# Lists of the entries of a map

A list of entries lists a map if its keys are distinct and its members are
the entries of the map. One map laid over another is listed in two ways.
-/

set_option autoImplicit false

namespace ByteDB
open List Option

structure Lists {K V : Type} (es : List (K × V)) (f : K → Option V) : Prop where
  nodup : (es.map Prod.fst).Nodup
  mem : ∀ k v, (k,v) ∈ es ↔ f k = some v

lemma OrderedMap.lists {K V : Type} [LinearOrder K] (m : OrderedMap K V) :
    Lists m.entries m.lookup where
  nodup := pairwise_map.mpr (m.sorted.imp ne_of_lt)
  mem := m.entries_mem_iff

namespace Lists
variable {K V W : Type} {es : List (K × V)} {f : K → Option V}

lemma perm {es' : List (K × V)} (h : Lists es f) (h' : Lists es' f) : es.Perm es' := by
  refine (perm_ext_iff_of_nodup (h.nodup.of_map _) (h'.nodup.of_map _)).mpr ?_
  rintro ⟨k,v⟩
  rw [h.mem, h'.mem]

lemma mem_keys (h : Lists es f) (k : K) : k ∈ es.map Prod.fst ↔ ∃ v, f k = some v := by
  constructor
  · intro hmem
    obtain ⟨⟨l,v⟩,hl,rfl⟩ := mem_map.mp hmem
    exact ⟨v,(h.mem l v).mp hl⟩
  · rintro ⟨v,hv⟩
    exact mem_map_of_mem ((h.mem k v).mpr hv)

lemma lookup_eq [BEq K] [LawfulBEq K] (h : Lists es f) (k : K) : es.lookup k = f k := by
  cases hl : es.lookup k with
  | some v =>
    have hmem : (k,v) ∈ es := by
      obtain ⟨as,bs,rfl,-⟩ := lookup_eq_some_iff.mp hl
      simp
    exact ((h.mem k v).mp hmem).symm
  | none =>
    cases hf : f k with
    | none => rfl
    | some v =>
      have hnot := lookup_eq_none_iff.mp hl _ ((h.mem k v).mpr hf)
      simp at hnot

section
variable {A : Type}

section
variable (h : K → A → Option V) (es : List (K × A))
include h

def keyed : List (K × V) :=
  es.filterMap (fun e => (h e.1 e.2).map (fun v => (e.1,v)))

lemma keyed_keys : ((keyed h es).map Prod.fst).Sublist (es.map Prod.fst) := by
  induction es with
  | nil => exact List.Sublist.slnil
  | cons e es ih =>
    rw [keyed, filterMap_cons, map_cons]
    cases h e.1 e.2 with
    | none => exact ih.cons e.1
    | some v => exact ih.cons_cons e.1

lemma mem_keyed (k : K) (v : V) : (k,v) ∈ keyed h es ↔ ∃ a, (k,a) ∈ es ∧ h k a = some v := by
  rw [keyed, mem_filterMap]
  constructor
  · rintro ⟨⟨l,a⟩,hl,hv⟩
    obtain ⟨w,hw,heq⟩ := map_eq_some_iff.mp hv
    cases heq
    exact ⟨a,hl,hw⟩
  · rintro ⟨a,ha,hv⟩
    exact ⟨(k,a),ha,by simp [hv]⟩

end

lemma filterMap_keyed {B : Type} (h : K → A → Option V) (es : List (K × A)) (p : K → Bool)
    (keep : V → Option B) :
    ((keyed h es).filter (fun e => p e.1)).filterMap (fun e => keep e.2) =
      es.filterMap (fun e => if p e.1 then (h e.1 e.2).bind keep else none) := by
  rw [keyed, filterMap_filter, filterMap_filterMap]
  refine filterMap_congr (fun e _ => ?_)
  cases h e.1 e.2 with
  | none => simp
  | some v => rfl

end

lemma filter_key [DecidableEq K] (h : Lists es f) (k : K) :
    es.filter (fun e => e.1 = k) = ((f k).map (fun v => (k,v))).toList := by
  have hperm : (es.filter (fun e => e.1 = k)).Perm ((f k).map (fun v => (k,v))).toList := by
    refine (perm_ext_iff_of_nodup ((h.nodup.of_map _).filter _) ?_).mpr ?_
    · cases f k with
      | none => exact nodup_nil
      | some v => exact nodup_singleton _
    rintro ⟨l,v⟩
    rw [mem_filter, h.mem, decide_eq_true_iff]
    constructor
    · rintro ⟨hl,rfl⟩
      simp [hl]
    intro hl
    cases hk : f k with
    | none => simp [hk] at hl
    | some w =>
      simp only [hk, map_some, toList_some, mem_singleton, Prod.mk.injEq] at hl
      obtain ⟨rfl,rfl⟩ := hl
      exact ⟨hk,rfl⟩
  cases hk : f k with
  | none =>
    rw [hk] at hperm
    exact hperm.eq_nil
  | some v =>
    rw [hk] at hperm
    exact perm_singleton.mp hperm

section
variable {top : List (K × Option W)} {g : K → Option (Option W)}

/-- A map with the entries of another one in place of its own; these may also
say that there is no value. -/
def merged (f : K → Option V) (g : K → Option (Option W)) (enc : W → V) (k : K) : Option V :=
  (g k).elim (f k) (Option.map enc)

lemma overlay [DecidableEq K] (hf : Lists es f) (hg : Lists top g) (enc : W → V) :
    Lists (es.filter (fun e => e.1 ∉ top.map Prod.fst)++keyed (fun _ o => o.map enc) top)
      (merged f g enc) where
  nodup := by
    rw [map_append, nodup_append']
    refine ⟨hf.nodup.sublist (filter_sublist.map _),hg.nodup.sublist (keyed_keys ..),?_⟩
    intro k hk hk'
    obtain ⟨⟨l,v⟩,hl,rfl⟩ := mem_map.mp hk
    have hnot := (mem_filter.mp hl).2
    rw [decide_eq_true_iff] at hnot
    exact hnot ((keyed_keys ..).subset hk')
  mem := by
    intro k v
    rw [mem_append, mem_filter, mem_keyed, hf.mem, decide_eq_true_iff, hg.mem_keys, merged]
    constructor
    · rintro (⟨hv,hk⟩ | ⟨o,ho,hv⟩)
      · rw [eq_none_iff_forall_ne_some.mpr (fun o ho => hk ⟨o,ho⟩)]
        exact hv
      · rw [(hg.mem k o).mp ho]
        exact hv
    · intro hv
      cases ho : g k with
      | none =>
        rw [ho] at hv
        exact .inl ⟨hv,nofun⟩
      | some o =>
        rw [ho] at hv
        exact .inr ⟨o,(hg.mem k o).mpr ho,hv⟩

lemma overlay_each (hf : Lists es f) (hg : Lists top g) (enc : W → V) :
    Lists (keyed (fun k v => (g k).elim (some v) (Option.map enc)) es ++
      keyed (fun k o => if f k = none then o.map enc else none) top) (merged f g enc) where
  nodup := by
    rw [map_append, nodup_append']
    refine ⟨hf.nodup.sublist (keyed_keys ..),hg.nodup.sublist (keyed_keys ..),?_⟩
    intro k hk hk'
    obtain ⟨⟨l,v⟩,hl,rfl⟩ := mem_map.mp hk
    obtain ⟨⟨m,w⟩,hm,heq⟩ := mem_map.mp hk'
    obtain ⟨a,ha,-⟩ := (mem_keyed _ _ _ _).mp hl
    obtain ⟨o,-,ho⟩ := (mem_keyed _ _ _ _).mp hm
    cases heq
    rw [(hf.mem _ _).mp ha, if_neg nofun] at ho
    cases ho
  mem := by
    intro k v
    rw [mem_append, mem_keyed, mem_keyed, merged]
    simp only [hf.mem, hg.mem]
    constructor
    · rintro (⟨a,ha,hv⟩ | ⟨o,ho,hv⟩)
      · cases ho : g k with
        | none =>
          rw [ho] at hv
          exact ha.trans hv
        | some o =>
          rw [ho] at hv
          exact hv
      · rw [ho]
        split at hv
        · exact hv
        · cases hv
    · intro hv
      cases ho : g k with
      | none =>
        rw [ho] at hv
        exact .inl ⟨v,hv,rfl⟩
      | some o =>
        rw [ho] at hv
        cases hk : f k with
        | some a => exact .inl ⟨a,rfl,hv⟩
        | none => exact .inr ⟨o,rfl,by rw [if_pos rfl]; exact hv⟩

end

end Lists

end ByteDB
