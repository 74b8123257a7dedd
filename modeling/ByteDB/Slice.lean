import Mathlib

/-!
# Slices, and sorted runs of keyed entries

Vector operations that panic when an index is out of range return `none`
here, and so does a search whose result the standard library leaves
unspecified because the slice is not sorted. A run is a list of keyed
entries in strictly increasing key order; it enumerates a finite map.
-/

set_option autoImplicit false

namespace ByteDB.Slice
open List Function

section
variable {α : Type*}

section
variable (xs : List α) (i : ℕ)

def insertAt (x : α) : Option (List α) :=
  if i ≤ xs.length then some (xs.take i++x :: xs.drop i) else none

def removeAt : Option (List α) :=
  if i < xs.length then some (xs.eraseIdx i) else none

def replaceAt (x : α) : Option (List α) :=
  if i < xs.length then some (xs.set i x) else none

def splitOff : Option (List α × List α) :=
  if i ≤ xs.length then some (xs.take i,xs.drop i) else none

end

/-- The length of the leading part that satisfies `p`. The slice has to be
partitioned by `p`: no later element may satisfy it. -/
def partitionPoint (xs : List α) (p : α → Bool) : Option ℕ :=
  if (xs.dropWhile p).all (fun x => !p x) then some (xs.takeWhile p).length else none

lemma insert_at_split (as bs : List α) (x : α) :
    insertAt (as++bs) as.length x = some (as++x::bs) := by
  simp [insertAt]

lemma remove_at_split (as bs : List α) (x : α) :
    removeAt (as++x::bs) as.length = some (as++bs) := by
  simp [removeAt, eraseIdx_append_of_length_le]

lemma replace_at_split (as bs : List α) (x y : α) :
    replaceAt (as++x::bs) as.length y = some (as++y::bs) := by
  simp [replaceAt]

end

section
variable {K : Type*} [LinearOrder K] (xs : List K)

def binarySearch (k : K) : Option (Except ℕ ℕ) :=
  if xs.Pairwise (· < ·) then
    let i := (xs.takeWhile (· < k)).length
    if xs[i]? = some k then some (.ok i) else some (.error i)
  else none

lemma take_while_lt (k : K) : ∀ x ∈ xs.takeWhile (· < k), x < k := by
  intro x hx
  simpa using mem_takeWhile_imp hx

lemma drop_while_ge (hs : xs.Pairwise (· < ·)) (k : K) : ∀ x ∈ xs.dropWhile (· < k), k ≤ x := by
  induction xs with
  | nil => simp
  | cons a xs ih =>
    obtain ⟨ha,hr⟩ := pairwise_cons.mp hs
    by_cases h : a < k
    · simpa [dropWhile_cons, h] using ih hr
    intro x hx
    rw [dropWhile_cons_of_neg (by simpa using h)] at hx
    rcases mem_cons.mp hx with rfl | hx
    · exact not_lt.mp h
    · exact (not_lt.mp h).trans (ha x hx).le

lemma binary_search_cases (hs : xs.Pairwise (· < ·)) (k : K) :
    (∃ as bs, xs = as++k::bs ∧ (∀ x ∈ as, x < k) ∧ (∀ x ∈ bs, k < x) ∧
      binarySearch xs k = some (.ok as.length)) ∨
    (∃ as bs, xs = as++bs ∧ (∀ x ∈ as, x < k) ∧ (∀ x ∈ bs, k < x) ∧
      binarySearch xs k = some (.error as.length)) := by
  have hcut : xs.takeWhile (· < k)++xs.dropWhile (· < k) = xs := takeWhile_append_dropWhile
  have hlt := take_while_lt xs k
  have hge := drop_while_ge xs hs k
  have hat : xs[(xs.takeWhile (· < k)).length]? = (xs.dropWhile (· < k)).head? := by
    conv_lhs => rw [← hcut]
    rw [getElem?_append_right (by simp [hcut])]
    simp [hcut, head?_eq_getElem?]
  cases hd : xs.dropWhile (· < k) with
  | nil =>
    right
    refine ⟨xs.takeWhile (· < k),[],by simpa [hd] using hcut.symm,hlt,by simp,?_⟩
    simp [binarySearch, hs, hat, hd]
  | cons b bs =>
    rw [hd] at hcut hge
    have hbs : ∀ x ∈ bs, b < x := by
      rw [← hcut] at hs
      exact (pairwise_cons.mp (pairwise_append.mp hs).2.1).1
    rcases (hge b (by simp)).lt_or_eq with hb | hb
    · right
      refine ⟨xs.takeWhile (· < k),b::bs,hcut.symm,hlt,?_,?_⟩
      · intro x hx
        rcases mem_cons.mp hx with rfl | hx
        · exact hb
        · exact hb.trans (hbs x hx)
      · simp [binarySearch, hs, hat, hd, hb.ne']
    · left
      subst hb
      exact ⟨xs.takeWhile (· < k),bs,hcut.symm,hlt,hbs,by simp [binarySearch, hs, hat, hd]⟩

lemma partition_point_cases (hs : xs.Pairwise (· ≤ ·)) (k : K) :
    ∃ as bs, xs = as++bs ∧ (∀ x ∈ as, x ≤ k) ∧ (∀ x ∈ bs, k < x) ∧
      partitionPoint xs (· ≤ k) = some as.length := by
  have hgt : ∀ x ∈ xs.dropWhile (· ≤ k), k < x := by
    induction xs with
    | nil => simp
    | cons a xs ih =>
      obtain ⟨ha,hr⟩ := pairwise_cons.mp hs
      by_cases h : a ≤ k
      · simpa [dropWhile_cons, h] using ih hr
      intro x hx
      rw [dropWhile_cons_of_neg (by simpa using h)] at hx
      rcases mem_cons.mp hx with rfl | hx
      · exact not_le.mp h
      · exact (not_le.mp h).trans_le (ha x hx)
  refine ⟨xs.takeWhile (· ≤ k),xs.dropWhile (· ≤ k),takeWhile_append_dropWhile.symm,?_,hgt,?_⟩
  · intro x hx
    simpa using mem_takeWhile_imp hx
  · rw [partitionPoint, if_pos]
    simpa using hgt

end

section
variable {K V : Type*} [LinearOrder K]

def Increasing (es : List (K × V)) : Prop := es.Pairwise (fun a b => a.1 < b.1)

/-- `es` lists the pairs of the map `m`, each once, in increasing key order. -/
structure Enumerates (es : List (K × V)) (m : K → Option V) : Prop where
  increasing : Increasing es
  mem_iff : ∀ k v, (k,v) ∈ es ↔ m k = some v

lemma enumerates_nil : Enumerates ([] : List (K × V)) (fun _ => none) := ⟨List.Pairwise.nil,by simp⟩

lemma increasing_cut (as bs : List (K × V)) (k : K) (v : V)
    (ha : Increasing as) (hb : Increasing bs) (hak : ∀ e ∈ as, e.1 < k) (hbk : ∀ e ∈ bs, k < e.1) :
    Increasing (as++(k,v)::bs) := by
  refine pairwise_append.mpr ⟨ha,pairwise_cons.mpr ⟨hbk,hb⟩,?_⟩
  intro a h b hb'
  rcases mem_cons.mp hb' with rfl | hb'
  · exact hak a h
  · exact (hak a h).trans (hbk b hb')

lemma entry_search_cases (es : List (K × V)) (hi : Increasing es) (k : K) :
    (∃ as v bs, es = as++(k,v)::bs ∧ (∀ e ∈ as, e.1 < k) ∧ (∀ e ∈ bs, k < e.1) ∧
      binarySearch (es.map Prod.fst) k = some (.ok as.length)) ∨
    (∃ as bs, es = as++bs ∧ (∀ e ∈ as, e.1 < k) ∧ (∀ e ∈ bs, k < e.1) ∧
      binarySearch (es.map Prod.fst) k = some (.error as.length)) := by
  have hs : (es.map Prod.fst).Pairwise (· < ·) := pairwise_map.mpr hi
  rcases binary_search_cases (es.map Prod.fst) hs k with
    ⟨as,bs,hcut,has,hbs,hb⟩ | ⟨as,bs,hcut,has,hbs,hb⟩
  · obtain ⟨xs,ys,rfl,rfl,hys⟩ := map_eq_append_iff.mp hcut
    obtain ⟨⟨x,v⟩,zs,rfl,rfl,rfl⟩ := map_eq_cons_iff.mp hys
    left
    exact ⟨xs,v,zs,rfl,fun e he => has e.1 (mem_map_of_mem he),
      fun e he => hbs e.1 (mem_map_of_mem he),by simpa using hb⟩
  · obtain ⟨xs,ys,rfl,rfl,rfl⟩ := map_eq_append_iff.mp hcut
    right
    exact ⟨xs,ys,rfl,fun e he => has e.1 (mem_map_of_mem he),
      fun e he => hbs e.1 (mem_map_of_mem he),by simpa using hb⟩

variable {as bs : List (K × V)} {m : K → Option V} {k : K}

lemma Enumerates.absent (h : Enumerates (as++bs) m)
    (hak : ∀ e ∈ as, e.1 < k) (hbk : ∀ e ∈ bs, k < e.1) : m k = none := by
  by_contra hne
  obtain ⟨v,hv⟩ := Option.ne_none_iff_exists'.mp hne
  rcases mem_append.mp ((h.mem_iff k v).mpr hv) with hm | hm
  · exact lt_irrefl _ (hak _ hm)
  · exact lt_irrefl _ (hbk _ hm)

lemma Enumerates.present {v : V} (h : Enumerates (as++(k,v)::bs) m) : m k = some v :=
  (h.mem_iff k v).mp (by simp)

lemma Enumerates.put [DecidableEq K] (h : Enumerates (as++bs) m)
    (hak : ∀ e ∈ as, e.1 < k) (hbk : ∀ e ∈ bs, k < e.1) (v : V) :
    Enumerates (as++(k,v)::bs) (update m k (some v)) := by
  obtain ⟨ha,hb,-⟩ := pairwise_append.mp h.increasing
  refine ⟨increasing_cut as bs k v ha hb hak hbk,?_⟩
  intro x w
  by_cases hx : x = k
  · subst hx
    have hna : ∀ w, (x,w) ∉ as := fun w hm => lt_irrefl _ (hak _ hm)
    have hnb : ∀ w, (x,w) ∉ bs := fun w hm => lt_irrefl _ (hbk _ hm)
    simp [hna, hnb, eq_comm]
  · rw [update_of_ne hx, ← h.mem_iff]
    simp [hx]

lemma Enumerates.remove [DecidableEq K] {w : V} (h : Enumerates (as++(k,w)::bs) m) :
    Enumerates (as++bs) (update m k none) := by
  obtain ⟨ha,hb,hab⟩ := pairwise_append.mp h.increasing
  obtain ⟨hkb,hb⟩ := pairwise_cons.mp hb
  refine ⟨pairwise_append.mpr ⟨ha,hb,fun a h b hb' => hab a h b (by simp [hb'])⟩,?_⟩
  intro x u
  by_cases hx : x = k
  · subst hx
    have hna : ∀ u, (x,u) ∉ as := fun u hm => lt_irrefl _ (hab _ hm (x,w) (by simp))
    have hnb : ∀ u, (x,u) ∉ bs := fun u hm => lt_irrefl x (hkb (x,u) hm)
    simp [hna, hnb]
  · rw [update_of_ne hx, ← h.mem_iff]
    simp [hx]

lemma Enumerates.replace [DecidableEq K] {w : V} (h : Enumerates (as++(k,w)::bs) m) (v : V) :
    Enumerates (as++(k,v)::bs) (update m k (some v)) := by
  have hk := h.increasing
  obtain ⟨-,hb,hab⟩ := pairwise_append.mp hk
  have hr := h.remove.put (fun e he => hab e he (k,w) (by simp)) (pairwise_cons.mp hb).1 v
  simpa using hr

lemma Enumerates.filter {es : List (K × V)} (h : Enumerates es m) (p : K → Prop) [DecidablePred p] :
    Enumerates (es.filter (fun e => p e.1)) (fun k => if p k then m k else none) := by
  refine ⟨List.Pairwise.filter _ h.increasing,?_⟩
  intro k v
  by_cases hp : p k <;> simp [hp, h.mem_iff]

lemma take_while_filter {es : List (K × V)} (hi : Increasing es) (stop : K) :
    es.takeWhile (fun e => e.1 ≤ stop) = es.filter (fun e => e.1 ≤ stop) := by
  induction es with
  | nil => rfl
  | cons e es ih =>
    obtain ⟨he,hi⟩ := pairwise_cons.mp hi
    by_cases hle : e.1 ≤ stop
    · simp [hle, ih hi]
    have hnone : es.filter (fun e => e.1 ≤ stop) = [] := by
      apply filter_eq_nil_iff.mpr
      intro x hx
      simpa using (not_le.mp hle).trans (he x hx)
    simp [hle, hnone]

lemma Enumerates.length_eq {es : List (K × V)} (h : Enumerates es m) :
    es.length = {x | (m x).isSome}.ncard := by
  have hkeys : {x | (m x).isSome} = ↑(es.map Prod.fst).toFinset := by
    ext x
    simp [Option.isSome_iff_exists, h.mem_iff]
  have hnodup : (es.map Prod.fst).Nodup := (pairwise_map.mpr h.increasing).imp fun h => h.ne
  rw [hkeys, Set.ncard_coe_finset, toFinset_card_of_nodup hnodup, length_map]

end

end ByteDB.Slice
