import ByteDB.Engine

/-!
# Secondary indexes and the rows they are about

An index maps the encoded values of a row, followed by the key of the row, to
that key. Two rows get two entries only if the encodings of the values in a
column end where they should, and an entry is where the index looks for it
only if values that compare as equal have one encoding.
-/

set_option autoImplicit false

namespace ByteDB
open Codec List Function Option OrderedMap
variable {V : Type} [Codec V]

abbrev RowMap (V : Type) := Bytes → Option (List V)

structure KeyColumn (K : Option V → Prop) : Prop where
  full : ¬ K none
  alike : ∀ v w, K (some v) → K (some w) → same v w = true → okey v = okey w
  free : ∀ v w r r', K (some v) → K (some w) → okey v++r = okey w++r' → okey v = okey w

namespace SecondaryIndex

def Matches (rows : RowMap V) (sec : SecondaryIndex) : Prop := ∀ c p, sec.tree.lookup c = some p ↔
    ∃ row kv, rows p = some row ∧ sec.keyValues row = some kv ∧ c = composite kv p

/-- The index is not unique, is about columns it can be about and has the
entries of the rows. -/
structure Exact (K : ℕ → Option V → Prop) (rows : RowMap V) (sec : SecondaryIndex) : Prop where
  plain : sec.unique = false
  columns : ∀ i ∈ sec.columns, KeyColumn (K i)
  entries : Matches rows sec

section
variable {K : ℕ → Option V → Prop} {columns : List ℕ} {row row' : List V}

lemma value_of_column (hK : ∀ i ∈ columns, KeyColumn (K i)) (hrow : ∀ i, K i row[i]?) {i : ℕ}
    (hi : i ∈ columns) : ∃ v, row[i]? = some v ∧ K i (some v) := by
  have h := hrow i
  cases hv : row[i]? with
  | none =>
    rw [hv] at h
    exact absurd h (hK i hi).full
  | some v =>
    rw [hv] at h
    exact ⟨v,rfl,h⟩

lemma project_cons {i : ℕ} {v : V} (hv : row[i]? = some v) (columns : List ℕ) :
    project row (i::columns) = v::project row columns := by
  rw [project, filterMap_cons, hv]
  rfl

lemma project_length (hK : ∀ i ∈ columns, KeyColumn (K i)) (hrow : ∀ i, K i row[i]?) :
    (project row columns).length = columns.length := by
  induction columns with
  | nil => rfl
  | cons i columns ih =>
    obtain ⟨v,hv,-⟩ := value_of_column hK hrow (mem_cons_self ..)
    rw [project_cons hv, length_cons, length_cons, ih (fun j hj => hK j (mem_cons_of_mem _ hj))]

lemma keyValues_eq {sec : SecondaryIndex} (hK : ∀ i ∈ sec.columns, KeyColumn (K i))
    (hrow : ∀ i, K i row[i]?) : sec.keyValues row = some (project row sec.columns) := by
  rw [keyValues, if_pos (project_length hK hrow)]

variable (hK : ∀ i ∈ columns, KeyColumn (K i)) (hrow : ∀ i, K i row[i]?) (hrow' : ∀ i, K i row'[i]?)
include hK hrow hrow'

lemma composite_free {p q : Bytes}
    (h : composite (project row columns) p = composite (project row' columns) q) :
    keyPrefix (project row columns) = keyPrefix (project row' columns) ∧ p = q := by
  induction columns with
  | nil => exact ⟨rfl,h⟩
  | cons i columns ih =>
    obtain ⟨v,hv,hKv⟩ := value_of_column hK hrow (mem_cons_self ..)
    obtain ⟨w,hw,hKw⟩ := value_of_column hK hrow' (mem_cons_self ..)
    rw [project_cons hv, project_cons hw] at h ⊢
    simp only [composite, keyPrefix, flatMap_cons, append_assoc] at h ⊢
    have hhead := (hK i (mem_cons_self ..)).free v w _ _ hKv hKw h
    rw [hhead] at h ⊢
    obtain ⟨htail,hpq⟩ := ih (fun j hj => hK j (mem_cons_of_mem _ hj)) (append_cancel_left h)
    exact ⟨congrArg _ htail,hpq⟩

lemma keyPrefix_alike (h : sameValues (project row columns) (project row' columns) = true) :
    keyPrefix (project row columns) = keyPrefix (project row' columns) := by
  induction columns with
  | nil => rfl
  | cons i columns ih =>
    obtain ⟨v,hv,hKv⟩ := value_of_column hK hrow (mem_cons_self ..)
    obtain ⟨w,hw,hKw⟩ := value_of_column hK hrow' (mem_cons_self ..)
    rw [project_cons hv, project_cons hw] at h ⊢
    rw [sameValues, Bool.and_eq_true] at h
    simp only [keyPrefix, flatMap_cons]
    rw [(hK i (mem_cons_self ..)).alike v w hKv hKw h.1]
    exact congrArg _ (ih (fun j hj => hK j (mem_cons_of_mem _ hj)) h.2)

end

section
variable {K : ℕ → Option V → Prop} {rows : RowMap V} {sec : SecondaryIndex} {k : Bytes}
  {row : List V}

def Fit (K : ℕ → Option V → Prop) (rows : RowMap V) : Prop :=
  ∀ p row, rows p = some row → ∀ i, K i row[i]?

lemma exact_iff (hK : ∀ i ∈ sec.columns, KeyColumn (K i)) (hfit : Fit K rows) :
    Matches rows sec ↔ ∀ c p, sec.tree.lookup c = some p ↔
      ∃ row, rows p = some row ∧ c = composite (project row sec.columns) p := by
  refine forall_congr' (fun c => forall_congr' (fun p => ?_))
  refine iff_congr Iff.rfl ⟨?_,?_⟩
  · rintro ⟨row,kv,hrow,hkv,hc⟩
    rw [keyValues_eq hK (hfit p row hrow)] at hkv
    cases hkv
    exact ⟨row,hrow,hc⟩
  · rintro ⟨row,hrow,hc⟩
    exact ⟨row,_,hrow,keyValues_eq hK (hfit p row hrow),hc⟩

lemma Fit.change {o : Option (List V)} (hfit : Fit K rows)
    (ho : ∀ row, o = some row → ∀ i, K i row[i]?) : Fit K (update rows k o) := by
  intro p row' hp
  rw [update_apply] at hp
  split at hp
  · exact ho row' hp
  · exact hfit p row' hp

lemma Fit.update (hfit : Fit K rows) (hrow : ∀ i, K i row[i]?) :
    Fit K (Function.update rows k (some row)) :=
  hfit.change (fun _ h => some.inj h ▸ hrow)

lemma Fit.remove (hfit : Fit K rows) : Fit K (Function.update rows k none) := hfit.change nofun

lemma Exact.change {o : Option (List V)} {tree : OrderedMap Bytes Bytes} (h : Exact K rows sec)
    (hfit : Fit K rows) (hrow : ∀ i, K i row[i]?) (hold : ∀ r, rows k = some r → r = row)
    (hnew : ∀ r, o = some r → r = row)
    (htree : ∀ c, tree.lookup c = if c = composite (project row sec.columns) k then
      o.map (fun _ => k) else sec.tree.lookup c) :
    Exact K (update rows k o) { sec with tree := tree } := by
  have hfit' : Fit K (update rows k o) := hfit.change (fun r hr => hnew r hr ▸ hrow)
  refine ⟨h.plain,h.columns,(exact_iff (by exact h.columns) hfit').mpr (fun c p => ?_)⟩
  show tree.lookup c = some p ↔
    ∃ row', update rows k o p = some row' ∧ c = composite (project row' sec.columns) p
  rw [htree]
  by_cases hc : c = composite (project row sec.columns) k
  · rw [if_pos hc]
    constructor
    · intro hp
      obtain ⟨r,hr,rfl⟩ := map_eq_some_iff.mp hp
      exact ⟨r,(update_self ..).trans hr,hnew r hr ▸ hc⟩
    · rintro ⟨row',hrow',hc'⟩
      obtain rfl := (composite_free h.columns hrow (hfit' p row' hrow') (hc.symm.trans hc')).2
      rw [update_self] at hrow'
      rw [hrow']
      rfl
  · rw [if_neg hc, (exact_iff h.columns hfit).mp h.entries c p]
    refine exists_congr (fun row' => and_congr_left (fun hc' => ?_))
    rw [update_apply]
    split
    · rename_i hp
      subst hp
      exact iff_of_false (fun hr => hc (hold row' hr ▸ hc')) (fun hr => hc (hnew row' hr ▸ hc'))
    · exact Iff.rfl

lemma Exact.put (h : Exact K rows sec) (hfit : Fit K rows) (hrow : ∀ i, K i row[i]?)
    (hk : rows k = none) :
    Exact K (update rows k (some row)) (sec.put (project row sec.columns) k) :=
  h.change hfit hrow (fun r hr => by rw [hk] at hr; cases hr) (fun _ h => (some.inj h).symm)
    (fun c => by simp [lookup_insert])

lemma Exact.remove (h : Exact K rows sec) (hfit : Fit K rows) (hk : rows k = some row) :
    Exact K (update rows k none) (sec.remove (project row sec.columns) k) :=
  h.change hfit (hfit k row hk) (fun r hr => some.inj (hr.symm.trans hk)) nofun
    (fun c => by simp [lookup_erase])

lemma Exact.keep {new : List V} (h : Exact K rows sec) (hfit : Fit K rows)
    (hk : rows k = some row) (hnew : ∀ i, K i new[i]?)
    (hsame : keyPrefix (project row sec.columns) = keyPrefix (project new sec.columns)) :
    Exact K (update rows k (some new)) sec := by
  refine ⟨h.plain,h.columns,(exact_iff h.columns (hfit.update hnew)).mpr (fun c p => ?_)⟩
  rw [(exact_iff h.columns hfit).mp h.entries c p]
  by_cases hp : p = k
  · rw [hp, hk, update_self]
    constructor
    · rintro ⟨row',hrow',hc⟩
      cases hrow'
      exact ⟨new,rfl,by rw [hc, composite, composite, hsame]⟩
    · rintro ⟨row',hrow',hc⟩
      cases hrow'
      exact ⟨row,rfl,by rw [hc, composite, composite, hsame]⟩
  · rw [update_of_ne hp]

lemma update_none (hk : rows k = none) : update rows k none = rows := by
  rw [← hk, update_eq_self]

end

end SecondaryIndex

namespace Engine
open SecondaryIndex

section
variable {K : ℕ → Option V → Prop} {rows : RowMap V} {secs : List SecondaryIndex} {k : Bytes}
  {old new : List V} (h : ∀ sec ∈ secs, Exact K rows sec) (hfit : Fit K rows)
include h hfit

lemma insertSecondaries_exact (hnew : ∀ i, K i new[i]?) (hk : rows k = none) :
    (insertSecondaries new k secs).2 = .ok () ∧ ∀ sec ∈ (insertSecondaries new k secs).1,
        Exact K (update rows k (some new)) sec := by
  induction secs with
  | nil => exact ⟨rfl,nofun⟩
  | cons sec secs ih =>
    have hsec := h sec (mem_cons_self ..)
    obtain ⟨hok,hrest⟩ := ih (fun s hs => h s (mem_cons_of_mem _ hs))
    have hplain : sec.refuses (project new sec.columns) k = false := by
      rw [refuses, hsec.plain]
      rfl
    rw [insertSecondaries, keyValues_eq hsec.columns hnew]
    dsimp only
    rw [hplain]
    refine ⟨hok,fun s hs => ?_⟩
    rcases mem_cons.mp hs with rfl | hs
    · exact hsec.put hfit hnew hk
    · exact hrest s hs

lemma deleteSecondaries_exact (hk : rows k = some old) :
    ∀ sec ∈ deleteSecondaries old k secs, Exact K (update rows k none) sec := by
  intro sec hsec
  obtain ⟨s,hs,rfl⟩ := mem_map.mp hsec
  have hexact := h s hs
  rw [keyValues_eq hexact.columns (hfit k old hk)]
  exact hexact.remove hfit hk

lemma updateSecondaries_exact (hk : rows k = some old) (hnew : ∀ i, K i new[i]?) :
    (updateSecondaries old new k secs).2 = .ok () ∧ ∀ sec ∈ (updateSecondaries old new k secs).1,
        Exact K (Function.update rows k (some new)) sec := by
  induction secs with
  | nil => exact ⟨rfl,nofun⟩
  | cons sec secs ih =>
    have hsec := h sec (mem_cons_self ..)
    have hold := hfit k old hk
    obtain ⟨hok,hrest⟩ := ih (fun s hs => h s (mem_cons_of_mem _ hs))
    rw [updateSecondaries, keyValues_eq hsec.columns hold, keyValues_eq hsec.columns hnew]
    dsimp only
    split
    · rename_i hsame
      refine ⟨hok,fun s hs => ?_⟩
      rcases mem_cons.mp hs with rfl | hs
      · exact hsec.keep hfit hk hnew (keyPrefix_alike hsec.columns hold hnew hsame)
      · exact hrest s hs
    have hplain : (sec.remove (project old sec.columns) k).refuses
        (project new sec.columns) k = false := by
      rw [refuses, SecondaryIndex.remove, hsec.plain]
      rfl
    rw [hplain]
    refine ⟨hok,fun s hs => ?_⟩
    rcases mem_cons.mp hs with rfl | hs
    · have hgone := (hsec.remove hfit hk).put hfit.remove hnew (Function.update_self ..)
      rw [Function.update_idem] at hgone
      exact hgone
    · exact hrest s hs

end

section
variable {K : ℕ → Option V → Prop}

lemma foldlM_exact {decode : Bytes → Option (List V)} {es : List (Bytes × Bytes)}
    (hes : es.Pairwise (fun a b => a.1 < b.1)) {sec sec' : SecondaryIndex} {rows : RowMap V}
    (h : Exact K rows sec) (hfit : Fit K rows) (hnew : ∀ x ∈ es, rows x.1 = none)
    (hdecode : ∀ x ∈ es, (decode x.2).bind sec.keyValues =
      (decodeRow x.2 : Option (List V)).bind sec.keyValues)
    (hrows : ∀ x ∈ es, ∀ row : List V, decodeRow x.2 = some row → ∀ i, K i row[i]?)
    (hbuild : es.foldlM (buildStep decode) sec = .ok sec') :
    Exact K (fun p => ((find p es).bind decodeRow).or (rows p)) sec' ∧
      sec'.columns = sec.columns := by
  induction es generalizing sec rows with
  | nil =>
    cases hbuild
    exact ⟨h,rfl⟩
  | cons x es ih =>
    obtain ⟨k,data⟩ := x
    obtain ⟨hlt,hes⟩ := pairwise_cons.mp hes
    rw [foldlM_cons] at hbuild
    have hk : rows k = none := hnew (k,data) (mem_cons_self ..)
    have hkes : find k es = none := find_of_lt hlt
    have hstep : buildStep decode sec (k,data) = .ok ((decodeRow data : Option (List V)).elim sec
          fun row => sec.put (project row sec.columns) k) := by
      rw [buildStep, hdecode (k,data) (mem_cons_self ..)]
      cases hdec : (decodeRow data : Option (List V)) with
      | none => rfl
      | some row =>
        have hrow := hrows (k,data) (mem_cons_self ..) row hdec
        rw [bind_some, keyValues_eq h.columns hrow]
        dsimp only
        rw [refuses, h.plain]
        rfl
    rw [hstep] at hbuild
    replace hbuild : es.foldlM (buildStep decode) ((decodeRow data : Option (List V)).elim sec
          fun row => sec.put (project row sec.columns) k) = .ok sec' := hbuild
    cases hdec : (decodeRow data : Option (List V)) with
    | none =>
      rw [hdec] at hbuild
      obtain ⟨hexact,hcols⟩ := ih hes h hfit (fun x hx => hnew x (mem_cons_of_mem _ hx))
        (fun x hx => hdecode x (mem_cons_of_mem _ hx))
        (fun x hx => hrows x (mem_cons_of_mem _ hx)) hbuild
      refine ⟨?_,hcols⟩
      have hsame : (fun p => ((find p ((k,data)::es)).bind decodeRow).or (rows p)) =
          (fun p => ((find p es).bind decodeRow).or (rows p) : RowMap V) := by
        funext p
        rw [find]
        split
        · rename_i hp
          rw [hp, hkes, hk, bind_some, hdec]
          rfl
        · rfl
      rw [hsame]
      exact hexact
    | some row =>
      rw [hdec] at hbuild
      have hrow := hrows (k,data) (mem_cons_self ..) row hdec
      have hput := h.put hfit hrow hk
      have hfree : ∀ x ∈ es, update rows k (some row) x.1 = none := by
        intro x hx
        rw [update_of_ne (hlt x hx).ne']
        exact hnew x (mem_cons_of_mem _ hx)
      obtain ⟨hexact,hcols⟩ := ih hes hput (hfit.update hrow) hfree
        (fun x hx => hdecode x (mem_cons_of_mem _ hx))
        (fun x hx => hrows x (mem_cons_of_mem _ hx)) hbuild
      refine ⟨?_,hcols⟩
      have hsame : (fun p => ((find p ((k,data)::es)).bind decodeRow).or (rows p)) =
          (fun p => ((find p es).bind decodeRow).or (update rows k (some row) p) : RowMap V) := by
        funext p
        rw [find]
        split
        · rename_i hp
          rw [hp, hkes, update_self, bind_some, hdec]
          rfl
        · rename_i hp
          rw [update_of_ne hp]
      rw [hsame]
      exact hexact

end

end Engine

end ByteDB
