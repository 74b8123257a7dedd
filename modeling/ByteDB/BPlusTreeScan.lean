import ByteDB.BPlusTreeMap

/-!
# Scans of the B+ tree

Every scan walks the leaves along their right links with a loop over the
pairs of each leaf. The loops can be cut anywhere, so a scan does what its
loop does on the entries of the tree as one list.
-/

set_option autoImplicit false

namespace ByteDB.BPlusTree
open ByteDB.Slice ByteDB.LinkedLevel List

def visitLeaves {σ : Type} (run : σ → List (Bytes × Bytes) → σ × Bool) :
    σ → List (List (Bytes × Bytes)) → σ
  | s, [] => s
  | s, es::ess =>
    match run s es with
    | (s,true) => visitLeaves run s ess
    | (s,false) => s

section
variable {leaves : List NodeId} {uppers : List (List NodeId)} {es : List (Bytes × Bytes)}
  {key : Bytes} {id : NodeId} {pre rest : List NodeId} {high : Option Bytes} {link : Option NodeId}

section
variable {t : BPlusTree} {σ : Type} {body : σ → LeafNode → Option (σ × Bool)}
  {run : σ → List (Bytes × Bytes) → σ × Bool}

lemma walk_eq
    (hbody : ∀ s es high link, Increasing es → body s (packed es high link) = some (run s es))
    {c : NodeId} {post : List NodeId} {fuel : ℕ}
    (hl : Linked (highOf t.nodes) (linkOf t.nodes) (c::post)) (hv : LeavesOk t.nodes (c::post))
    (hi : Increasing (entries t.nodes (c::post))) (hf : (c::post).length ≤ fuel) (s : σ) :
    t.walk body fuel (some c) s = some (visitLeaves run s ((c::post).map (entriesAt t.nodes))) := by
  induction post generalizing c fuel s with
  | nil =>
    obtain ⟨fuel,rfl⟩ : ∃ n, fuel = n+1 := ⟨fuel-1,by simp at hf; omega⟩
    obtain ⟨⟨es,high,link,hc,-⟩,-⟩ := hv
    have hlink : (packed es high link).rightLink = none := (link_of_packed hc).symm.trans hl
    rw [entries_cons, entries_at_packed hc] at hi
    rw [map_singleton, entries_at_packed hc, walk]
    simp only [hc, Option.bind_eq_bind, Option.bind_some, hlink,
      hbody s es high link (pairwise_append.mp hi).1]
    rcases hr : run s es with ⟨s',_ | _⟩
    · simp [visitLeaves, hr]
    · simp [visitLeaves, hr, walk]
  | cons d post ih =>
    obtain ⟨fuel,rfl⟩ : ∃ n, fuel = n+1 := ⟨fuel-1,by simp at hf; omega⟩
    obtain ⟨⟨es,high,link,hc,-⟩,hv⟩ := hv
    have hlink : (packed es high link).rightLink = some d := (link_of_packed hc).symm.trans hl.1
    rw [entries_cons, entries_at_packed hc] at hi
    obtain ⟨hie,hir,-⟩ := pairwise_append.mp hi
    rw [map_cons, entries_at_packed hc, walk]
    simp only [hc, Option.bind_eq_bind, Option.bind_some, hlink, hbody s es high link hie]
    rcases hr : run s es with ⟨s',_ | _⟩
    · simp [visitLeaves, hr]
    · simpa [visitLeaves, hr] using ih hl.2.2 hv hir (by simpa using hf) s'

lemma pairs_packed (es : List (Bytes × Bytes)) (high : Option Bytes) (link : Option NodeId) :
    pairs (packed es high link) = some es := by
  simpa [pairs, packed] using (zip_of_prod rfl rfl).symm

lemma walk_all (h : TreeInv t leaves uppers) (body : σ → LeafNode → Option (σ × Bool))
    (run : σ → List (Bytes × Bytes) → σ × Bool)
    (hbody : ∀ s es high link, Increasing es → body s (packed es high link) = some (run s es))
    (s : σ) : (do let id ← t.findLeftmostLeaf; t.walk body t.nodes.length (some id) s) =
      some (visitLeaves run s (leaves.map (entriesAt t.nodes))) := by
  obtain ⟨c,rest,rfl,hc⟩ := find_leftmost h
  have hlen := length_le_of_nodup (nodup_append.mp h.nodup).1
    (fun a ha => h.bounded a (mem_append.mpr (.inl ha)))
  simp only [hc, Option.bind_eq_bind, Option.bind_some]
  exact walk_eq hbody h.linked h.leavesOk h.increasing hlen s

lemma walk_home (h : TreeInv t leaves uppers) (hh : Home t leaves key id pre rest es high link)
    (hbody : ∀ s es high link, Increasing es → body s (packed es high link) = some (run s es))
    (s : σ) : t.walk body t.nodes.length (some id) s =
      some (visitLeaves run s (es::rest.map (entriesAt t.nodes))) := by
  have hlen := length_le_of_nodup (nodup_append.mp h.nodup).1
    (fun a ha => h.bounded a (mem_append.mpr (.inl ha)))
  have hi := h.increasing
  rw [hh.cut, entries_append] at hi
  rw [hh.cut, length_append] at hlen
  have hw := walk_eq hbody (linked_append (hh.cut ▸ h.linked))
    (leaves_append (hh.cut ▸ h.leavesOk)) (pairwise_append.mp hi).2.1
    (by omega : (id::rest).length ≤ t.nodes.length) s
  rw [hw, map_cons, entries_at_packed hh.node]

end

section

variable {σ : Type}

lemma visit_append (f : σ → Bytes → Bytes → σ × Bool) (s : σ) (xs ys : List (Bytes × Bytes)) :
    visit f s (xs++ys) = if (visit f s xs).2 then visit f (visit f s xs).1 ys
      else visit f s xs := by
  induction xs generalizing s with
  | nil => rfl
  | cons e xs ih =>
    rw [cons_append, visit, visit]
    rcases f s e.1 e.2 with ⟨s',_ | _⟩
    · rfl
    · exact ih s'

lemma visit_leaves_visit (f : σ → Bytes → Bytes → σ × Bool) (s : σ)
    (ess : List (List (Bytes × Bytes))) :
    visitLeaves (visit f) s ess = (visit f s ess.flatten).1 := by
  induction ess generalizing s with
  | nil => rfl
  | cons es ess ih =>
    rw [visitLeaves, flatten_cons, visit_append]
    rcases visit f s es with ⟨s',_ | _⟩
    · rfl
    · exact ih s'

lemma visit_leaves_append (acc : List (Bytes × Bytes)) (ess : List (List (Bytes × Bytes))) :
    visitLeaves (fun acc es => (acc++es,true)) acc ess = acc++ess.flatten := by
  induction ess generalizing acc with
  | nil => simp [visitLeaves]
  | cons es ess ih => simp [visitLeaves, ih]

lemma visit_leaves_count (n : ℕ) (ess : List (List (Bytes × Bytes))) :
    visitLeaves (fun n es => (n+es.length,true)) n ess = n+ess.flatten.length := by
  induction ess generalizing n with
  | nil => simp [visitLeaves]
  | cons es ess ih => simp [visitLeaves, ih, Nat.add_assoc]

structure Cuttable (loop : List (Bytes × Bytes) → List (Bytes × Bytes) × Bool) : Prop where
  nil : loop [] = ([],true)
  append : ∀ xs ys, loop (xs++ys) =
    if (loop xs).2 then ((loop xs).1++(loop ys).1,(loop ys).2) else loop xs

def runFrom (start : Bytes) (loop : List (Bytes × Bytes) → List (Bytes × Bytes) × Bool)
    (s : List (Bytes × Bytes) × Bool) (es : List (Bytes × Bytes)) :
    (List (Bytes × Bytes) × Bool) × Bool :=
  let r := loop (if s.2 then es.filter (fun e => start ≤ e.1) else es)
  ((s.1++r.1,false),r.2)

variable {loop : List (Bytes × Bytes) → List (Bytes × Bytes) × Bool}

lemma visit_leaves_loop (hc : Cuttable loop) (start : Bytes) (acc : List (Bytes × Bytes))
    (ess : List (List (Bytes × Bytes))) :
    (visitLeaves (runFrom start loop) (acc,false) ess).1 = acc++(loop ess.flatten).1 := by
  induction ess generalizing acc with
  | nil => simp [visitLeaves, hc.nil]
  | cons es ess ih =>
    rw [visitLeaves, flatten_cons, hc.append]
    rcases hl : loop es with ⟨run,_ | _⟩
    · simp [runFrom, hl]
    · simp [runFrom, hl, ih]

lemma visit_leaves_from (hc : Cuttable loop) (start : Bytes) (es : List (Bytes × Bytes))
    (ess : List (List (Bytes × Bytes))) : (visitLeaves (runFrom start loop) ([],true) (es::ess)).1 =
      (loop (es.filter (fun e => start ≤ e.1)++ess.flatten)).1 := by
  rw [visitLeaves, hc.append]
  rcases hl : loop (es.filter (fun e => start ≤ e.1)) with ⟨run,_ | _⟩
  · simp [runFrom, hl]
  · simp [runFrom, hl, visit_leaves_loop hc]

lemma start_index_packed (first : Bool) (es : List (Bytes × Bytes)) (high : Option Bytes)
    (link : Option NodeId) (start : Bytes) (hi : Increasing es) :
    ∃ i, startIndex first (packed es high link) start = some i ∧
      es.drop i = if first then es.filter (fun e => start ≤ e.1) else es := by
  have hkeys : (packed es high link).keys = es.map Prod.fst := rfl
  cases first with
  | false => exact ⟨0,rfl,rfl⟩
  | true =>
    simp only [startIndex, if_true, hkeys, Option.bind_eq_bind]
    rcases entry_search_cases es hi start with
      ⟨as,v,bs,rfl,has,hbs,hb⟩ | ⟨as,bs,rfl,has,hbs,hb⟩
    · refine ⟨as.length,by rw [hb]; rfl,?_⟩
      have hnone : as.filter (fun e => start ≤ e.1) = [] :=
        filter_eq_nil_iff.mpr (by simpa using has)
      have hall : bs.filter (fun e => start ≤ e.1) = bs :=
        filter_eq_self.mpr (fun e he => by simpa using (hbs e he).le)
      rw [filter_append, hnone, filter_cons, hall]
      simp
    · refine ⟨as.length,by rw [hb]; rfl,?_⟩
      have hnone : as.filter (fun e => start ≤ e.1) = [] :=
        filter_eq_nil_iff.mpr (by simpa using has)
      have hall : bs.filter (fun e => start ≤ e.1) = bs :=
        filter_eq_self.mpr (fun e he => by simpa using (hbs e he).le)
      rw [filter_append, hnone, hall]
      simp

def rangeLoop (stop : Bytes) (es : List (Bytes × Bytes)) : List (Bytes × Bytes) × Bool :=
  (es.takeWhile (fun e => e.1 ≤ stop),(es.takeWhile (fun e => e.1 ≤ stop)).length = es.length)

lemma range_loop_cuttable (stop : Bytes) : Cuttable (rangeLoop stop) where
  nil := rfl
  append := by
    intro xs ys
    have hpre : xs.takeWhile (fun e => e.1 ≤ stop) <+: xs := takeWhile_prefix _
    by_cases hall : (xs.takeWhile (fun e => e.1 ≤ stop)).length = xs.length
    · simp [rangeLoop, takeWhile_append, hpre.eq_of_length hall]
    · have hlt : (xs.takeWhile (fun e => e.1 ≤ stop)).length ≠ xs.length+ys.length := by
        have := hpre.length_le
        omega
      simp [rangeLoop, takeWhile_append, hall, hlt]

lemma prefix_loop_cuttable (p : Bytes) : Cuttable (prefixLoop p) where
  nil := rfl
  append := by
    intro xs ys
    induction xs with
    | nil => rfl
    | cons e xs ih =>
      rw [cons_append, prefixLoop, prefixLoop, ih]
      by_cases hp : p.isPrefixOf e.1 = true
      · rcases prefixLoop p xs with ⟨run,_ | _⟩ <;> simp [hp]
      · by_cases hlt : p < e.1
        · simp [hp, hlt]
        · simp [hp, hlt]

lemma range_body_packed (start stop : Bytes) (s : List (Bytes × Bytes) × Bool)
    (es : List (Bytes × Bytes)) (high : Option Bytes) (link : Option NodeId) (hi : Increasing es) :
    rangeBody start stop s (packed es high link) = some (runFrom start (rangeLoop stop) s es) := by
  obtain ⟨i,hidx,hdrop⟩ := start_index_packed s.2 es high link start hi
  simp only [rangeBody, hidx, pairs_packed, Option.bind_eq_bind, Option.bind_some, hdrop]
  rfl

lemma prefix_body_packed (p : Bytes) (s : List (Bytes × Bytes) × Bool)
    (es : List (Bytes × Bytes)) (high : Option Bytes) (link : Option NodeId) (hi : Increasing es) :
    prefixBody p s (packed es high link) = some (runFrom p (prefixLoop p) s es) := by
  obtain ⟨i,hidx,hdrop⟩ := start_index_packed s.2 es high link p hi
  simp only [prefixBody, hidx, pairs_packed, Option.bind_eq_bind, Option.bind_some, hdrop]
  rfl

lemma range_loop_filter (hi : Increasing es) (start stop : Bytes) :
    (rangeLoop stop (es.filter (fun e => start ≤ e.1))).1 =
      es.filter (fun e => start ≤ e.1 ∧ e.1 ≤ stop) := by
  rw [rangeLoop, take_while_filter (List.Pairwise.filter _ hi), filter_filter]
  apply filter_congr
  intro e _
  simp [Bool.and_comm]

/-- Among the keys from the prefix on, those with the prefix come first. -/
lemma prefix_loop_filter (hi : Increasing es) (p : Bytes)
    (hp : ∀ e ∈ es, p ≤ e.1) : (prefixLoop p es).1 = es.filter (fun e => p <+: e.1) := by
  induction es with
  | nil => rfl
  | cons e es ih =>
    obtain ⟨he,hi⟩ := pairwise_cons.mp hi
    have ih := ih hi (fun x hx => hp x (by simp [hx]))
    by_cases hpe : p <+: e.1
    · simp [prefixLoop, hpe, ih]
    have hlt : p < e.1 := by
      refine lt_of_le_of_ne (hp e (by simp)) ?_
      intro heq
      exact hpe (heq ▸ prefix_refl p)
    have hnone : es.filter (fun e => p <+: e.1) = [] := by
      apply filter_eq_nil_iff.mpr
      intro x hx hpx
      exact hpe (Bytes.prefix_of_between (by simpa using hpx) hlt.le (he x hx).le)
    simp [prefixLoop, hpe, hlt, hnone]

end

section
variable {t : BPlusTree} {m : Bytes → Option Bytes}

lemma Home.from_key (hh : Home t leaves key id pre rest es high link)
    (h : TreeInv t leaves uppers) :
    es.filter (fun e => key ≤ e.1)++(rest.map (entriesAt t.nodes)).flatten =
      (entries t.nodes leaves).filter (fun e => key ≤ e.1) := by
  have hleft : (entries t.nodes pre).filter (fun e => key ≤ e.1) = [] :=
    filter_eq_nil_iff.mpr (by simpa using hh.left_lt h)
  have hright : (entries t.nodes rest).filter (fun e => key ≤ e.1) = entries t.nodes rest :=
    filter_eq_self.mpr (fun e he => by simpa using (hh.right_gt h e he).le)
  rw [hh.entries_eq, filter_append, filter_append, hleft, hright]
  simp [entries, flatMap]

lemma scan_all_eq (h : TreeInv t leaves uppers) : t.scanAll = some (entries t.nodes leaves) := by
  have hw := walk_all h scanBody (fun acc es => (acc++es,true))
    (fun s es high link _ => by simp [scanBody, pairs_packed]) []
  rw [visit_leaves_append] at hw
  rw [scanAll, hw]
  simp [entries, flatMap]

lemma scan_all_represents (hm : Represents t m) : ∃ es, t.scanAll = some es ∧ Enumerates es m ∧
      ∀ (σ : Type) (f : σ → Bytes → Bytes → σ × Bool) (s : σ),
        t.forEach f s = some (visit f s es).1 := by
  obtain ⟨leaves,uppers,h,he⟩ := hm
  refine ⟨_,scan_all_eq h,he,?_⟩
  intro σ f s
  have hw := walk_all h (fun s leaf => (pairs leaf).map (visit f s)) (visit f)
    (fun s es high link _ => by simp [pairs_packed]) s
  rw [visit_leaves_visit] at hw
  rw [forEach, hw]
  simp [entries, flatMap]

lemma count_represents (hm : Represents t m) :
    t.count = some {k | (m k).isSome}.ncard ∧ t.approxLen = {k | (m k).isSome}.ncard := by
  obtain ⟨leaves,uppers,h,he⟩ := hm
  have hw := walk_all h (fun n leaf => some (n+leaf.keys.length,true))
    (fun n es => (n+es.length,true)) (fun s es high link _ => by simp [packed]) 0
  rw [visit_leaves_count] at hw
  constructor
  · rw [count, hw, ← he.length_eq]
    simp [entries, flatMap]
  · rw [approxLen, h.len_eq, he.length_eq]

lemma range_scan_represents (hm : Represents t m) (start stop : Bytes) :
    ∃ es, t.rangeScan start stop = some es ∧
      Enumerates es (fun k => if start ≤ k ∧ k ≤ stop then m k else none) := by
  obtain ⟨leaves,uppers,h,he⟩ := hm
  obtain ⟨id,pre,rest,es,high,link,hh,hf⟩ := find_leaf_home start h
  have hw := walk_home h hh (fun s es high link hi =>
    range_body_packed start stop s es high link hi) ([],true)
  have hv := visit_leaves_from (range_loop_cuttable stop) start es (rest.map (entriesAt t.nodes))
  rw [hh.from_key h, range_loop_filter h.increasing] at hv
  refine ⟨_,?_,he.filter (fun k => start ≤ k ∧ k ≤ stop)⟩
  simp only [rangeScan, hf, hw, Option.bind_eq_bind, Option.bind_some, hv]

lemma prefix_scan_represents (hm : Represents t m) (p : Bytes) : ∃ es, t.prefixScan p = some es ∧
      Enumerates es (fun k => if p <+: k then m k else none) := by
  obtain ⟨leaves,uppers,h,he⟩ := hm
  refine ⟨_,?_,he.filter (fun k => p <+: k)⟩
  by_cases hp : p = []
  · rw [prefixScan, if_pos hp, scan_all_eq h]
    simp [hp]
  obtain ⟨id,pre,rest,es,high,link,hh,hf⟩ := find_leaf_home p h
  have hw := walk_home h hh (fun s es high link hi =>
    prefix_body_packed p s es high link hi) ([],true)
  have hv := visit_leaves_from (prefix_loop_cuttable p) p es (rest.map (entriesAt t.nodes))
  have hfilter : ((entries t.nodes leaves).filter (fun e => p ≤ e.1)).filter
      (fun e => p <+: e.1) = (entries t.nodes leaves).filter (fun e => p <+: e.1) := by
    rw [filter_filter]
    apply filter_congr
    intro e _
    by_cases hpe : p <+: e.1
    · simp [hpe, Bytes.le_of_prefix hpe]
    · simp [hpe]
  rw [hh.from_key h, prefix_loop_filter (List.Pairwise.filter _ h.increasing) p
    (fun e hmem => by simpa using (mem_filter.mp hmem).2), hfilter] at hv
  rw [prefixScan, if_neg hp]
  simp only [hf, hw, Option.bind_eq_bind, Option.bind_some, hv]

end

end

/-! A history of inserts and deletes determines a finite map: a key has the value of
its last insert unless a delete came later. -/

inductive Op where
  | insert (key value : Bytes)
  | delete (key : Bytes)
  deriving DecidableEq, Repr

def Op.key : Op → Bytes
  | .insert key _ => key
  | .delete key => key

def Op.value : Op → Option Bytes
  | .insert _ value => some value
  | .delete _ => none

def contents (ops : List Op) (key : Bytes) : Option Bytes :=
  (ops.filter (fun op => op.key = key)).getLast?.bind Op.value

def apply (t : BPlusTree) : Op → Option BPlusTree
  | .insert key value => t.insert key value
  | .delete key => (t.delete key).map Prod.fst

def run (t : BPlusTree) : List Op → Option BPlusTree
  | [] => some t
  | op::ops => do
    let t ← t.apply op
    run t ops

lemma contents_append (ops : List Op) (op : Op) :
    contents (ops++[op]) = Function.update (contents ops) op.key op.value := by
  funext key
  by_cases h : key = op.key
  · subst h
    simp [contents]
  · simp [contents, Function.update_of_ne h, Ne.symm h]

lemma run_append (t : BPlusTree) (ops rest : List Op) :
    t.run (ops++rest) = (t.run ops).bind (fun t => t.run rest) := by
  induction ops generalizing t with
  | nil => rfl
  | cons op ops ih =>
    cases h : t.apply op with
    | none => simp [run, h]
    | some t' => simp [run, h, ih]

lemma apply_represents {t : BPlusTree} {m : Bytes → Option Bytes} (hm : Represents t m) (op : Op) :
    ∃ t', t.apply op = some t' ∧ Represents t' (Function.update m op.key op.value) := by
  cases op with
  | insert key value => exact insert_represents key value hm
  | delete key =>
    obtain ⟨t',ht,hm'⟩ := delete_represents key hm
    exact ⟨t',by simp [apply, ht],hm'⟩

lemma run_represents (order : ℕ) (h : 2 ≤ order) (ops : List Op) :
    ∃ t, (new order).run ops = some t ∧ Represents t (contents ops) := by
  induction ops using List.reverseRecOn with
  | nil => exact ⟨new order,rfl,new_represents order h⟩
  | append_singleton ops op ih =>
    obtain ⟨t,ht,hm⟩ := ih
    obtain ⟨t',ht',hm'⟩ := apply_represents hm op
    refine ⟨t',by simp [run_append, ht, run, ht'],?_⟩
    rw [contents_append]
    exact hm'

/-- After any history on a new tree of order at least two, every operation
returns, and it returns what the map of the history says. -/
theorem history_refines_map (order : ℕ) (h : 2 ≤ order) (ops : List Op) :
    ∃ t, (new order).run ops = some t ∧ (∀ k, t.search k = some (contents ops k)) ∧
      (∀ k, ∃ t', t.delete k = some (t',(contents ops k).isSome)) ∧
      (∃ es, t.scanAll = some es ∧ Enumerates es (contents ops) ∧
        ∀ (σ : Type) (f : σ → Bytes → Bytes → σ × Bool) (s : σ),
          t.forEach f s = some (visit f s es).1) ∧
      (∀ a b, ∃ es, t.rangeScan a b = some es ∧
        Enumerates es (fun k => if a ≤ k ∧ k ≤ b then contents ops k else none)) ∧
      (∀ p, ∃ es, t.prefixScan p = some es ∧
        Enumerates es (fun k => if p <+: k then contents ops k else none)) ∧
      t.count = some {k | (contents ops k).isSome}.ncard ∧
      t.approxLen = {k | (contents ops k).isSome}.ncard := by
  obtain ⟨t,ht,hm⟩ := run_represents order h ops
  refine ⟨t,ht,fun k => search_represents k hm,?_,scan_all_represents hm,
    range_scan_represents hm,prefix_scan_represents hm,count_represents hm⟩
  intro k
  obtain ⟨t',ht',-⟩ := delete_represents k hm
  exact ⟨t',ht'⟩

theorem history_refines_map_order_two :
    2 ≤ 2 ∧ ∃ t, (new 2).run [.insert [1] [10], .insert [3] [30], .insert [2] [20],
      .delete [3]] = some t ∧ t.search [2] = some (some [20]) ∧ t.search [3] = some none := by
  obtain ⟨t,ht,hs,-⟩ := history_refines_map 2 (le_refl 2)
    [.insert [1] [10], .insert [3] [30], .insert [2] [20], .delete [3]]
  exact ⟨le_refl 2,t,ht,hs [2],hs [3]⟩

end ByteDB.BPlusTree
