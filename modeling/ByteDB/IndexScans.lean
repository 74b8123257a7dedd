import ByteDB.AlterTable
import ByteDB.BPlusTreeScan
import ByteDB.OrderKeys
import ByteDB.ScanFilters

/-!
# Lookups in a secondary index

An index that is not unique keeps a set of entries, each the values of the
indexed columns and the key of a row. What it finds under given values, or
between two bounds, is read off the encodings in its tree.
-/

set_option autoImplicit false

namespace ByteDB.Tuple
open List
open Value (compareBytes)

namespace IndexTree
variable {J : Type}

abbrev Entry (J : Type) := List (Value J) × Bytes

inductive Call (J : Type) where
  | insert (entry : Entry J)
  | remove (entry : Entry J)

def Call.entry : Call J → Entry J
  | .insert e => e
  | .remove e => e

section
variable (lib : Libraries J)

def composite (e : Entry J) : Bytes := okeys lib e.1++e.2

def Call.op : Call J → BPlusTree.Op
  | .insert e => .insert (composite lib e) e.2
  | .remove e => .delete (composite lib e)

def run (calls : List (Call J)) : Option BPlusTree :=
  (BPlusTree.new 128).run (calls.map (Call.op lib))

def lookupEq (tree : BPlusTree) (colValues : List (Value J)) : Option (List Bytes) :=
  (tree.prefixScan (okeys lib colValues)).map (List.map Prod.snd)

/-- Bytes `0xFF` are popped, and the last of the others is raised by one. -/
def prefixSuccessor (p : Bytes) : Option Bytes :=
  match p.reverse.dropWhile (fun b => b = 0xFF) with
  | [] => none
  | b::bs => some ((b+1)::bs).reverse

def lookupRange (tree : BPlusTree) (lo hi : Option (Value J)) : Option (List Bytes) :=
  let start := lo.elim [] (fun v => okeys lib [v])
  let stop := hi.elim [0xFF] (fun v => (prefixSuccessor (okeys lib [v])).getD [0xFF])
  (tree.rangeScan start stop).map (List.map Prod.snd)

end

def present (calls : List (Call J)) : Set (Entry J) := calls.foldl (fun s c => match c with
    | .insert e => insert e s
    | .remove e => s \ {e}) ∅

/-- The keys below `q` are those below `p` and those that `p` begins. -/
def Bounds (p q : Bytes) : Prop := ∀ x : Bytes, x < q ↔ x < p ∨ p <+: x

lemma Bounds.cons {p q : Bytes} (h : Bounds p q) (a : UInt8) : Bounds (a::p) (a::q) := by
  intro x
  cases x with
  | nil => simp
  | cons b x =>
    simp [cons_lt_cons_iff, cons_prefix_cons, h x]
    grind

lemma below_or_begins {fs : Bytes} (hfs : ∀ f ∈ fs, f = 0xFF) (x : Bytes) : x < fs ∨ fs <+: x := by
  induction fs generalizing x with
  | nil => simp
  | cons f fs ih =>
    cases x with
    | nil => simp
    | cons c x =>
      have hf : f = 0xFF := hfs f (mem_cons_self ..)
      have hc : c ≤ f := hf ▸ UInt8.le_iff_toNat_le.mpr (Nat.le_of_lt_succ c.toNat_lt)
      have ih := ih (fun g hg => hfs g (mem_cons_of_mem _ hg)) x
      simp only [cons_lt_cons_iff, cons_prefix_cons]
      rcases hc.lt_or_eq with hlt | rfl
      · exact .inl (.inl hlt)
      · exact ih.imp (fun h => .inr ⟨rfl,h⟩) (fun h => ⟨rfl,h⟩)

lemma bounds_last {b : UInt8} (hb : b ≠ 0xFF) {fs : Bytes} (hfs : ∀ f ∈ fs, f = 0xFF) :
    Bounds (b::fs) [b+1] := by
  intro x
  cases x with
  | nil => simp
  | cons c x =>
    have hb : b.toNat ≠ 255 := fun h => hb (UInt8.toNat_inj.mp h)
    have hlt : b.toNat < 256 := b.toNat_lt
    have hstep : c < b+1 ↔ c < b ∨ c = b := by
      rw [UInt8.lt_iff_toNat_lt, UInt8.lt_iff_toNat_lt, ← UInt8.toNat_inj, UInt8.toNat_add]
      simp
      omega
    have hall := below_or_begins hfs x
    simp only [cons_lt_cons_iff, cons_prefix_cons, not_lt_nil, and_false, or_false, hstep]
    grind

lemma prefixSuccessor_bounds {p q : Bytes} (h : prefixSuccessor p = some q) : Bounds p q := by
  rw [prefixSuccessor] at h
  split at h
  · cases h
  rename_i b bs hdrop
  cases h
  have hsplit := takeWhile_append_dropWhile (p := fun b => decide (b = 0xFF)) (l := p.reverse)
  have hfs : ∀ f ∈ p.reverse.takeWhile (fun b => b = 0xFF), f = 0xFF :=
    fun f hf => by simpa using mem_takeWhile_imp hf
  have hb : b ≠ 0xFF := by
    have := head?_dropWhile_not (fun b => decide (b = 0xFF)) p.reverse
    rw [hdrop] at this
    simpa using this
  rw [hdrop] at hsplit
  generalize p.reverse.takeWhile (fun b => decide (b = 0xFF)) = fs at hsplit hfs
  have hp : p = bs.reverse++b::fs.reverse := by
    rw [← p.reverse_reverse, ← hsplit]
    simp
  rw [hp, reverse_cons]
  generalize bs.reverse = u
  induction u with
  | nil => exact bounds_last hb (fun f hf => hfs f (mem_reverse.mp hf))
  | cons a u ih => exact ih.cons a

section
variable {lib : Libraries J} {types : List DataType}

/-- The values have the types of the columns, and the key is not empty. -/
def Fine (types : List DataType) (e : Entry J) : Prop := List.Forall₂ HasType types e.1 ∧ e.2 ≠ []

lemma comparable_of_types (htypes : ∀ t ∈ types, t ∈ orderTypes) {a b : List (Value J)}
    (ha : List.Forall₂ HasType types a) (hb : List.Forall₂ HasType types b) :
    List.Forall₂ Comparable a b := by
  induction ha generalizing b with
  | nil =>
    cases hb
    exact .nil
  | cons hv _ ih =>
    cases hb with
    | cons hw hb =>
      exact .cons ⟨_,htypes _ (mem_cons_self ..),hv,hw⟩
        (ih (fun t ht => htypes t (mem_cons_of_mem _ ht)) hb)

lemma composite_inj (htypes : ∀ t ∈ types, t ∈ orderTypes) {e e' : Entry J}
    (he : Fine types e) (he' : Fine types e') (h : composite lib e = composite lib e') : e = e' := by
  have hlen : e.1.length = e'.1.length := he.1.length_eq.symm.trans he'.1.length_eq
  have htake : e'.1.take e.1.length = e'.1 := by rw [hlen, take_length]
  have hprefix := (okeys_prefix_iff lib hlen.le
    (htake.symm ▸ comparable_of_types htypes he.1 he'.1) e'.2).mp ⟨e.2,h⟩
  rw [htake] at hprefix
  rw [composite, composite, hprefix] at h
  exact Prod.ext hprefix.symm (append_cancel_left h)

structure Mirrors (lib : Libraries J) (types : List DataType) (s : Set (Entry J))
    (m : Bytes → Option Bytes) : Prop where
  fine : ∀ e ∈ s, Fine types e
  entries : ∀ k v, m k = some v ↔ ∃ e ∈ s, composite lib e = k ∧ e.2 = v

lemma present_append (calls : List (Call J)) (c : Call J) : present (calls++[c]) = match c with
      | .insert e => insert e (present calls)
      | .remove e => present calls \ {e} := by
  rw [present, foldl_append]
  rfl

lemma mirrors_present (lib : Libraries J) (htypes : ∀ t ∈ types, t ∈ orderTypes) (calls : List (Call J))
    (hcalls : ∀ c ∈ calls, Fine types c.entry) :
    Mirrors lib types (present calls) (BPlusTree.contents (calls.map (Call.op lib))) := by
  induction calls using reverseRecOn with
  | nil => exact ⟨fun e he => he.elim,fun k v => by simp [BPlusTree.contents, present]⟩
  | append_singleton calls c ih =>
    obtain ⟨hfine,hmap⟩ := ih (fun c hc => hcalls c (mem_append_left _ hc))
    have hc := hcalls c (by simp)
    rw [map_append, map_singleton, BPlusTree.contents_append, present_append]
    have hkey : ∀ e ∈ present calls, composite lib e = composite lib c.entry ↔ e = c.entry :=
      fun e he => ⟨composite_inj htypes (hfine e he) hc,congrArg _⟩
    cases c with
    | insert e =>
      refine ⟨fun e' he' => he'.elim (fun h => h ▸ hc) (hfine e'),fun k v => ?_⟩
      rw [Function.update_apply]
      split
      · rename_i hk
        subst hk
        constructor
        · intro h
          exact ⟨e,.inl rfl,rfl,Option.some.inj h⟩
        · rintro ⟨e',rfl | he',hk,rfl⟩
          · rfl
          · rw [(hkey e' he').mp hk]
            rfl
      · rename_i hk
        rw [hmap]
        constructor
        · rintro ⟨e',he',h⟩
          exact ⟨e',.inr he',h⟩
        · rintro ⟨e',rfl | he',h⟩
          · exact absurd h.1.symm hk
          · exact ⟨e',he',h⟩
    | remove e =>
      refine ⟨fun e' he' => hfine e' he'.1,fun k v => ?_⟩
      rw [Function.update_apply]
      split
      · rename_i hk
        refine iff_of_false (fun h => by cases h) ?_
        rintro ⟨e',he',h⟩
        exact he'.2 ((hkey e' he'.1).mp (h.1.trans hk))
      · rename_i hk
        rw [hmap]
        constructor
        · rintro ⟨e',he',h⟩
          exact ⟨e',⟨he',fun heq => hk (heq ▸ h.1.symm)⟩,h⟩
        · rintro ⟨e',he',h⟩
          exact ⟨e',he'.1,h⟩

def Lists {α : Type} (xs : List α) (s : Set α) : Prop := xs.Nodup ∧ ∀ x, x ∈ xs ↔ x ∈ s

lemma Mirrors.listed (htypes : ∀ t ∈ types, t ∈ orderTypes) {s : Set (Entry J)}
    {m : Bytes → Option Bytes} (h : Mirrors lib types s m) {C : Bytes → Prop} [DecidablePred C]
    {D : Entry J → Prop} (hCD : ∀ e ∈ s, C (composite lib e) ↔ D e) {es : List (Bytes × Bytes)}
    (hes : Slice.Enumerates es (fun k => if C k then m k else none)) :
    ∃ ls, Lists ls {e ∈ s | D e} ∧ es.map Prod.snd = ls.map Prod.snd := by
  have hmem : ∀ x, x ∈ es ↔ ∃ e ∈ s, D e ∧ (composite lib e,e.2) = x := by
    rintro ⟨k,v⟩
    rw [hes.mem_iff]
    constructor
    · intro hkv
      split at hkv
      · obtain ⟨e,he,rfl,rfl⟩ := (h.entries k v).mp hkv
        exact ⟨e,he,(hCD e he).mp ‹_›,rfl⟩
      · cases hkv
    · rintro ⟨e,he,hD,heq⟩
      cases heq
      rw [if_pos ((hCD e he).mpr hD), h.entries]
      exact ⟨e,he,rfl,rfl⟩
  choose! f hf using fun x hx => (hmem x).mp hx
  have hback : (es.map f).map (fun e => (composite lib e,e.2)) = es := by
    rw [map_map]
    exact (map_congr_left (fun x hx => (hf x hx).2.2)).trans (map_id es)
  have hnodup : es.Nodup :=
    List.Pairwise.imp (fun hlt heq => hlt.ne (congrArg Prod.fst heq)) hes.increasing
  refine ⟨es.map f,⟨List.Nodup.of_map _ (hback.symm ▸ hnodup),fun e => ?_⟩,?_⟩
  · constructor
    · intro he
      obtain ⟨x,hx,rfl⟩ := mem_map.mp he
      exact ⟨(hf x hx).1,(hf x hx).2.1⟩
    · rintro ⟨he,hD⟩
      have hx := (hmem _).mpr ⟨e,he,hD,rfl⟩
      obtain ⟨he',-,heq⟩ := hf _ hx
      have hsame := composite_inj htypes (h.fine _ he') (h.fine e he) (congrArg Prod.fst heq)
      exact mem_map.mpr ⟨_,hx,hsame⟩
  · nth_rewrite 1 [← hback]
    rw [map_map]
    rfl

end

section
variable {lib : Libraries J} {t : DataType} {ts : List DataType} {e : Entry J}

def Between (lo hi : Option (Value J)) (v : Value J) : Prop :=
  (∀ l ∈ lo, l.cmpFast v ≠ .gt) ∧ ∀ h ∈ hi, v.cmpFast h ≠ .gt

lemma prefix_iff (htypes : ∀ u ∈ t::ts, u ∈ orderTypes) (he : Fine (t::ts) e)
    {vs : List (Value J)} (hvs : List.Forall₂ HasType ((t::ts).take vs.length) vs) :
    okeys lib vs <+: composite lib e ↔ e.1.take vs.length = vs := by
  refine okeys_prefix_iff lib ?_ ?_ e.2
  · have hlen := hvs.length_eq
    have hlen' := he.1.length_eq
    rw [length_take] at hlen
    omega
  · exact comparable_of_types (fun u hu => htypes u (mem_of_mem_take hu)) hvs (forall₂_take _ he.1)

lemma okey_head (lib : Libraries J) (v : Value J) : ∃ b r, encodeOkey lib v = b::r ∧ b < 0xFF := by
  rw [encodeOkey]
  split
  · exact ⟨0,[],rfl,by decide⟩
  · exact ⟨1,_,rfl,by decide⟩

/-- The first byte is not `0xFF`, so there is a successor. -/
lemma okey_successor (lib : Libraries J) (v : Value J) :
    ∃ q, prefixSuccessor (okeys lib [v]) = some q := by
  obtain ⟨b,r,hokey,hb⟩ := okey_head lib v
  rw [prefixSuccessor]
  split
  · rename_i hnil
    have hall := dropWhile_eq_nil_iff.mp hnil b (by simp [okeys, hokey])
    exact absurd (of_decide_eq_true hall) hb.ne
  · exact ⟨_,rfl⟩

lemma lower_iff {l v : Value J} (h : Comparable l v) (r : Bytes) :
    okeys lib [l] ≤ encodeOkey lib v++r ↔ l.cmpFast v ≠ .gt := by
  have hnil : compareBytes [] r ≠ .gt := by cases r <;> nofun
  rw [← compareBytes_le, okeys, flatMap_singleton, ← append_nil (encodeOkey lib l),
    compare_okey lib _ _ h]
  cases l.cmpFast v <;> simp [hnil]

section
variable {v u : Value J} (h : Comparable v u)
include h

lemma begins_iff (r : Bytes) : okeys lib [u] <+: encodeOkey lib v++r ↔ v.cmpFast u = .eq := by
  obtain ⟨t,ht,hv,hu⟩ := h
  simp [okeys, List.IsPrefix, okey_cancel lib ⟨t,ht,hu,hv⟩, cmpFast_eq ⟨t,ht,hv,hu⟩, eq_comm]

lemma before_iff (r : Bytes) : encodeOkey lib v++r < okeys lib [u] ↔ v.cmpFast u = .lt := by
  have hnil : ¬ compareBytes r [] = .lt := fun hr => not_lt_nil r (compareBytes_lt.mp hr)
  rw [← compareBytes_lt, okeys, flatMap_singleton, ← append_nil (encodeOkey lib u),
    compare_okey lib _ _ h, Ordering.then_eq_lt]
  simp [hnil]

lemma below_iff (r : Bytes) {q : Bytes} (hq : prefixSuccessor (okeys lib [u]) = some q) :
    encodeOkey lib v++r < q ↔ v.cmpFast u ≠ .gt := by
  rw [prefixSuccessor_bounds hq, before_iff h, begins_iff h]
  cases v.cmpFast u <;> simp

/-- The range is closed, but the bound itself is never a key. -/
lemma upper_iff {r : Bytes} (hr : r ≠ []) {q : Bytes}
    (hq : prefixSuccessor (okeys lib [u]) = some q) :
    encodeOkey lib v++r ≤ q ↔ v.cmpFast u ≠ .gt := by
  refine ⟨fun hle => (below_iff h [] hq).mp ?_,fun hne => ((below_iff h r hq).mpr hne).le⟩
  rw [append_nil]
  refine lt_of_lt_of_le (lt_of_le_of_ne (Bytes.le_of_prefix (prefix_append _ r)) ?_) hle
  simpa using hr

end

lemma range_iff (htypes : ∀ u ∈ t::ts, u ∈ orderTypes) (he : Fine (t::ts) e)
    {lo hi : Option (Value J)} (hlo : ∀ v ∈ lo, HasType t v) (hhi : ∀ v ∈ hi, HasType t v) :
    lo.elim [] (fun v => okeys lib [v]) ≤ composite lib e ∧ composite lib e ≤
        hi.elim [0xFF] (fun v => (prefixSuccessor (okeys lib [v])).getD [0xFF]) ↔
      ∃ v ∈ e.1.head?, Between lo hi v := by
  obtain ⟨vs,p⟩ := e
  obtain ⟨hvs,hp⟩ := he
  cases hvs with
  | @cons _ v _ vs hv _ =>
    have ht := htypes t (mem_cons_self ..)
    have hkey : composite lib (v::vs,p) = encodeOkey lib v++(okeys lib vs++p) := by
      simp [composite, okeys]
    have hr : okeys lib vs++p ≠ [] := by simpa using fun _ => hp
    simp only [head?_cons, Option.mem_some, exists_eq_left', Between, hkey]
    refine and_congr ?_ ?_
    · cases lo with
      | none => simp [Bytes.nil_le]
      | some l => simpa using lower_iff ⟨t,ht,hlo l rfl,hv⟩ _
    cases hi with
    | none =>
      obtain ⟨b,s,hokey,hb⟩ := okey_head lib v
      simp [hokey, Bytes.cons_le_cons, hb]
    | some u =>
      obtain ⟨q,hq⟩ := okey_successor lib u
      simpa [hq] using upper_iff ⟨t,ht,hv,hhi u rfl⟩ hr hq

/-- After any calls the index finds the entries that are present and begin with
the given values, and those whose first value lies between the bounds. -/
theorem lookups_exact (lib : Libraries J) (t : DataType) (ts : List DataType)
    (htypes : ∀ u ∈ t::ts, u ∈ orderTypes) (calls : List (Call J))
    (hcalls : ∀ c ∈ calls, Fine (t::ts) c.entry) :
    ∃ tree, run lib calls = some tree ∧ (∀ vs, List.Forall₂ HasType ((t::ts).take vs.length) vs →
        ∃ es, Lists es {e ∈ present calls | e.1.take vs.length = vs} ∧
          lookupEq lib tree vs = some (es.map Prod.snd)) ∧
      ∀ lo hi, (∀ v ∈ lo, HasType t v) → (∀ v ∈ hi, HasType t v) →
        ∃ es, Lists es {e ∈ present calls | ∃ v ∈ e.1.head?, Between lo hi v} ∧
          lookupRange lib tree lo hi = some (es.map Prod.snd) := by
  obtain ⟨tree,hrun,hrep⟩ := BPlusTree.run_represents 128 (by omega) (calls.map (Call.op lib))
  have hmirror := mirrors_present lib htypes calls hcalls
  refine ⟨tree,hrun,fun vs hvs => ?_,fun lo hi hlo hhi => ?_⟩
  · obtain ⟨es,hscan,hes⟩ := BPlusTree.prefix_scan_represents hrep (okeys lib vs)
    obtain ⟨ls,hls,hmap⟩ := hmirror.listed htypes
      (fun e he => prefix_iff htypes (hmirror.fine e he) hvs) hes
    exact ⟨ls,hls,by rw [lookupEq, hscan, Option.map_some, hmap]⟩
  obtain ⟨es,hscan,hes⟩ := BPlusTree.range_scan_represents hrep
    (lo.elim [] (fun v => okeys lib [v]))
    (hi.elim [0xFF] (fun v => (prefixSuccessor (okeys lib [v])).getD [0xFF]))
  obtain ⟨ls,hls,hmap⟩ := hmirror.listed htypes
    (fun e he => range_iff htypes (hmirror.fine e he) hlo hhi) hes
  refine ⟨ls,hls,?_⟩
  rw [lookupRange]
  exact (congrArg _ hscan).trans (congrArg some hmap)

theorem lookup_of_text : Fine [.text] (([.text "b"],[1]) : Entry Unit) ∧
    ∃ tree, ∃ es : List (Entry Unit), run sampleLibraries [.insert ([.text "b"],[1])] = some tree ∧
      lookupEq sampleLibraries tree [.text "b"] = some (es.map Prod.snd) ∧
        (([.text "b"],[1]) : Entry Unit) ∈ es := by
  have hfine : Fine [.text] (([.text "b"],[1]) : Entry Unit) := ⟨.cons (.inr rfl) .nil,by simp⟩
  obtain ⟨tree,hrun,heq,-⟩ := lookups_exact sampleLibraries .text [] (by decide)
    [.insert ([.text "b"],[1])] (by simpa [Call.entry] using hfine)
  obtain ⟨es,hes,hlook⟩ := heq [.text "b"] (.cons (.inr rfl) .nil)
  exact ⟨hfine,tree,es,hrun,hlook,(hes.2 _).mpr ⟨.inl rfl,rfl⟩⟩

end

end IndexTree

/-! The planner chooses a conjunct of the filter that compares the first column of
an index with a literal. The literal is cast to the type of the column, the index
gives keys, and the rows of these keys are filtered once more. -/

open ByteDB.Ast IndexTree Executor Option

section
variable {Q J : Type}

structure IndexInfo where
  name : String
  columns : List String

structure IndexScan where
  indexName : String
  column : String
  op : BinOp
  value : LiteralValue

def indexOps : List BinOp := [.eq, .lt, .lte, .gt, .gte]

def collectConjuncts : Expr Q → List (Expr Q)
  | .binaryOp left .and right => collectConjuncts left++collectConjuncts right
  | expr => [expr]

def asColOpLiteral : Expr Q → Option (String × BinOp × LiteralValue)
  | .binaryOp left op right =>
    if op ∈ indexOps then
      match left, right with
      | .literal l, c => (columnName c).map (fun name => (name,flipOp op,l))
      | c, .literal l => (columnName c).map (fun name => (name,op,l))
      | _, _ => none
    else none
  | _ => none

/-- The first equality that an index serves, or else the first range. -/
def findIndexPredicate (pred : Expr Q) (idxs : List IndexInfo) : Option IndexScan :=
  let found := (collectConjuncts pred).filterMap (fun c => do
    let (column,op,value) ← asColOpLiteral c
    let ix ← idxs.find? (fun i => i.columns.head? = some column)
    some ⟨ix.name,column,op,value⟩)
  (found.find? (fun s => s.op = .eq)).or found.head?

lemma conjuncts_hold (ex : Expressions Q J) {row : List (Value J)} {schema : Schema (Value J)}
    {pred : Expr Q} (h : evalPredicate ex pred row schema = true) :
    ∀ c ∈ collectConjuncts pred, evalPredicate ex c row schema = true := by
  fun_induction collectConjuncts pred with
  | case1 left right ihl ihr =>
    have hboth : evalPredicate ex left row schema = true ∧
        evalPredicate ex right row schema = true := by
      simp only [evalPredicate, evalPredicateTri] at h ⊢
      revert h
      rcases evalPredicateTri ex row schema left with _ | _ | _ <;>
        rcases evalPredicateTri ex row schema right with _ | _ | _ <;> simp
    intro c hc
    exact (mem_append.mp hc).elim (ihl hboth.1 c) (ihr hboth.2 c)
  | case2 expr => simpa using h

lemma asColOpLiteral_some {e : Expr Q} {name : String} {op : BinOp} {l : LiteralValue}
    (h : asColOpLiteral e = some (name,op,l)) :
    ∃ first c op', e = comparison first c op' l ∧ columnName c = some name ∧
      op = sided first op' ∧ op ∈ indexOps ∧ isComparison op' = true := by
  have hsided : ∀ first (op : BinOp), op ∈ indexOps →
      sided first op ∈ indexOps ∧ isComparison op = true := by
    intro first op
    cases first <;> cases op <;> decide
  rw [asColOpLiteral.eq_def] at h
  split at h
  · split at h
    · split at h
      · obtain ⟨n,hn,heq⟩ := map_eq_some_iff.mp h
        cases heq
        exact ⟨true,_,_,rfl,hn,rfl,hsided true _ ‹_›⟩
      · obtain ⟨n,hn,heq⟩ := map_eq_some_iff.mp h
        cases heq
        exact ⟨false,_,_,rfl,hn,rfl,hsided false _ ‹_›⟩
      · cases h
    · cases h
  · cases h

lemma findIndexPredicate_some {pred : Expr Q} {idxs : List IndexInfo} {s : IndexScan}
    (h : findIndexPredicate pred idxs = some s) :
    (∃ e ∈ collectConjuncts pred, asColOpLiteral e = some (s.column,s.op,s.value)) ∧
      ∃ ix ∈ idxs, ix.columns.head? = some s.column ∧ ix.name = s.indexName := by
  have hmem := (or_eq_some_iff.mp h).elim mem_of_find?_eq_some (fun h => mem_of_mem_head? h.2)
  obtain ⟨e,he,hs⟩ := mem_filterMap.mp hmem
  obtain ⟨⟨column,op,value⟩,hcol,hs⟩ := bind_eq_some_iff.mp hs
  obtain ⟨ix,hix,heq⟩ := bind_eq_some_iff.mp hs
  cases heq
  exact ⟨⟨e,he,hcol⟩,ix,mem_of_find?_eq_some hix,by simpa using find?_some hix,rfl⟩

end

section
variable {J : Type}

structure Casts (J : Type) where
  parse : DataType → String → Option (Value J)
  toText : Value J → String
  truncate : BitVec 64 → BitVec 64

def castValue (casts : Casts J) (val : Value J) (target : DataType) : Value J :=
  match target, val with
  | .int64, .float64 f => .int64 (casts.truncate f)
  | .int64, .bool b => .int64 (if b then 1 else 0)
  | .float64, .int64 n => .float64 (F64.ofInt64 n)
  | .text, .null => .null
  | .text, .text s => .text s
  | .text, v => .text (casts.toText v)
  | .bool, .int64 n => .bool (n != 0)
  | .bool, .text s =>
    if s.toLower ∈ ["true", "t", "1", "yes"] then .bool true
    else if s.toLower ∈ ["false", "f", "0", "no"] then .bool false
    else .null
  | .timestamp, .int64 n => .timestamp n
  | .decimal, .int64 n => .decimal (n.signExtend 128) 0
  | .decimal, .float64 f => (casts.parse .decimal (casts.toText (.float64 f))).getD .null
  | .bytes, .text s => .bytes (utf8 s)
  | .json, v => v
  | t, .text s => (casts.parse t s).getD .null
  | t, v => if v.dataType = some t then v else .null

def keyTypes : List DataType := [.bool, .int64, .text, .bytes, .timestamp, .date, .uuid]

def plainLiteral : LiteralValue → Bool
  | .integer _ | .string _ | .bool _ => true
  | _ => false

/-- Only a literal of the type of the column compares with its values, and the
cast leaves it as it is. -/
lemma satisfied_cast (casts : Casts J) {t : DataType} (ht : t ∈ keyTypes) {v : Value J}
    (hv : HasType t v) {l : LiteralValue} (hl : plainLiteral l = true) {op : BinOp}
    (h : Satisfies op v (literalValue l) = true) :
    castValue casts (evalExprSimple l) t = literalValue l ∧ HasType t (literalValue l : Value J) ∧
      opHolds op (some (v.cmpFast (literalValue l))) = true := by
  have hnone : opHolds op none = false := by cases op <;> rfl
  rcases hv with rfl | hv
  · cases h
  cases v <;> cases hv <;> (try exact absurd ht (by decide)) <;> cases l <;> (try cases hl) <;>
    simp_all [Satisfies, Value.compare, literalValue, evalExprSimple, castValue, Value.cmpFast,
      HasType, Value.dataType, Value.isNull]

end

section
variable {Q J E : Type} (x : Executor Q J) (casts : Casts J) (td : TableData (Value J) E)

def indexInfos : List IndexInfo := td.secondaryIndexes.map (fun s =>
    ⟨s.name,s.columns.filterMap (fun i => (td.schema.columns[i]?).map Column.name)⟩)

namespace Executor

def inRange (lo hi : Option (Value J)) (key : Bytes) : Bool :=
  let start := lo.elim [] (fun v => okeys x.lib [v])
  let stop := hi.elim [0xFF] (fun v => (prefixSuccessor (okeys x.lib [v])).getD [0xFF])
  start ≤ key ∧ key ≤ stop

def lookupRange (sec : SecondaryIndex) (lo hi : Option (Value J)) : List Bytes :=
  (sec.tree.entries.filter (fun e => x.inRange lo hi e.1)).map Prod.snd

def indexKeys (sec : SecondaryIndex) (op : BinOp) (probe : Value J) : Option (List Bytes) :=
  letI := x.codec
  match op with
  | .eq => some (sec.lookupEq [probe])
  | .lt | .lte => some (x.lookupRange sec none (some probe))
  | .gt | .gte => some (x.lookupRange sec (some probe) none)
  | _ => none

def keptAt (filter : Option (Expr Q)) (pk : Bytes) : Option (List (Value J)) :=
  (td.index.lookup pk).bind (x.keepRow td.schema filter)

def execIndexScan (s : IndexScan) (filter : Option (Expr Q)) (limit : Option ℕ) :
    List (List (Value J)) :=
  let seq := x.scanCommitted td filter limit
  match td.secondaryIndexes.find? (fun i => i.name = s.indexName),
      (td.schema.columnIndex s.column).bind (td.schema.columns[·]?) with
  | some sec, some c =>
    let probe := castValue casts (evalExprSimple s.value) c.dataType
    if c.dataType = .decimal ∨ c.dataType = .json ∨ probe.isNull then seq
    else
      match x.indexKeys sec s.op probe with
      | none => seq
      | some pks => upTo limit (pks.filterMap (x.keptAt td filter))
  | _, _ => seq

def accepted (pred : Expr Q) : List (List (Value J)) :=
  (td.index.entries.map Prod.snd).filterMap (x.keepRow td.schema (some pred))

end Executor

/-- The rows hold values of the declared types, and the indexes hold exactly the
entry of each row. -/
structure Indexed : Prop where
  typed : ∀ e ∈ td.index.entries, ∀ row, x.decodeRow e.2 = some row →
    row.length ≤ td.schema.columns.length ∧
      ∀ i c, td.schema.columns[i]? = some c → HasType c.dataType (valueAt row i)
  entries : ∀ sec ∈ td.secondaryIndexes, ∀ k pk, (k,pk) ∈ sec.tree.entries ↔
    ∃ data row, (pk,data) ∈ td.index.entries ∧ x.decodeRow data = some row ∧
      k = okeys x.lib (project row sec.columns)++pk

variable {x td}

lemma indexKeys_eq (sec : SecondaryIndex) {op : BinOp} (hop : op ∈ indexOps) (probe : Value J) :
    ∃ P : Bytes → Bool, x.indexKeys sec op probe =
        some ((sec.tree.entries.filter (fun e => P e.1)).map Prod.snd) ∧
      ∀ v r, Comparable v probe → opHolds op (some (v.cmpFast probe)) = true →
        P (encodeOkey x.lib v++r) = true := by
  have hrange : ∀ v r, Comparable v probe →
      (v.cmpFast probe ≠ .gt → x.inRange none (some probe) (encodeOkey x.lib v++r) = true) ∧
      (v.cmpFast probe ≠ .lt → x.inRange (some probe) none (encodeOkey x.lib v++r) = true) := by
    intro v r hcomp
    obtain ⟨q,hq⟩ := okey_successor x.lib probe
    obtain ⟨b,s,hokey,hb⟩ := okey_head x.lib v
    refine ⟨fun hne => decide_eq_true ⟨Bytes.nil_le _,?_⟩,fun hne => decide_eq_true ⟨?_,?_⟩⟩
    · simpa [hq] using ((below_iff hcomp r hq).mpr hne).le
    · exact not_lt.mp (fun hlt => hne ((before_iff hcomp r).mp hlt))
    · simp [hokey, Bytes.cons_le_cons, hb]
  have hopen : ∀ o o', opHolds op (some o) = true → opHolds op (some o') = false → o ≠ o' := by
    rintro o _ ho ho' rfl
    cases ho.symm.trans ho'
  simp only [indexOps, mem_cons, not_mem_nil, or_false] at hop
  rcases hop with rfl | rfl | rfl | rfl | rfl
  · refine ⟨_,rfl,fun v r hcomp hholds => isPrefixOf_iff_prefix.mpr ((begins_iff hcomp r).mpr ?_)⟩
    cases h : v.cmpFast probe <;> simp_all [opHolds]
  · exact ⟨_,rfl,fun v r hcomp hholds => (hrange v r hcomp).1 (hopen _ _ hholds rfl)⟩
  · exact ⟨_,rfl,fun v r hcomp hholds => (hrange v r hcomp).1 (hopen _ _ hholds rfl)⟩
  · exact ⟨_,rfl,fun v r hcomp hholds => (hrange v r hcomp).2 (hopen _ _ hholds rfl)⟩
  · exact ⟨_,rfl,fun v r hcomp hholds => (hrange v r hcomp).2 (hopen _ _ hholds rfl)⟩

lemma chosen_index (hcolumns : (td.schema.columns.map Column.name).Nodup)
    (hindexes : (td.secondaryIndexes.map SecondaryIndex.name).Nodup) {pred : Expr Q}
    {s : IndexScan} (hs : findIndexPredicate pred (indexInfos td) = some s) :
    ∃ sec ∈ td.secondaryIndexes, ∃ i,
      td.secondaryIndexes.find? (fun j => j.name = s.indexName) = some sec ∧
      td.schema.columnIndex s.column = some i ∧
      ∀ row : List (Value J), row.length ≤ td.schema.columns.length → ∀ v, row[i]? = some v →
        (project row sec.columns).head? = some v := by
  obtain ⟨-,ix,hix,hhead,hname⟩ := findIndexPredicate_some hs
  obtain ⟨sec,hsec,rfl⟩ := mem_map.mp hix
  rw [head?_filterMap, findSome?_eq_some_iff] at hhead
  obtain ⟨as,i,bs,hsplit,hi,hout⟩ := hhead
  have hget : td.schema.columnNames[i]? = some s.column := (getElem?_map ..).trans hi
  refine ⟨sec,hsec,i,?_,(Schema.columnIndex_eq_some_iff ..).mpr ⟨hget,fun j hj => ?_⟩,?_⟩
  · cases hfind : td.secondaryIndexes.find? (fun j => j.name = s.indexName) with
    | none => exact absurd (decide_eq_true hname) (find?_eq_none.mp hfind sec hsec)
    | some sec' =>
      have hname' : sec'.name = s.indexName := by simpa using find?_some hfind
      rw [inj_on_of_nodup_map hindexes (mem_of_find?_eq_some hfind) hsec (hname'.trans hname.symm)]
  · exact ((getElem?_inj (List.getElem?_eq_some_iff.mp hj).1 hcolumns).mp (hj.trans hget.symm)).le
  intro row hlen v hv
  have hnone : ∀ j ∈ as, row[j]? = none := by
    intro j hj
    have := getElem?_eq_none_iff.mp (map_eq_none_iff.mp (hout j hj))
    exact getElem?_eq_none (hlen.trans this)
  rw [project, head?_filterMap, findSome?_eq_some_iff]
  exact ⟨as,i,bs,hsplit,hv,hnone⟩

lemma filterMap_perm {α β : Type} {f : α → Option β} {as bs : List α} (ha : as.Nodup)
    (hb : bs.Nodup) (h : ∀ a b, f a = some b → (a ∈ as ↔ a ∈ bs)) :
    (as.filterMap f).Perm (bs.filterMap f) := by
  have hsome : ∀ cs : List α, (cs.filter (fun a => (f a).isSome)).filterMap f = cs.filterMap f := by
    intro cs
    rw [filterMap_filter]
    exact filterMap_congr (fun a _ => by cases f a <;> rfl)
  rw [← hsome as, ← hsome bs]
  refine List.Perm.filterMap f ((perm_ext_iff_of_nodup (ha.filter _) (hb.filter _)).mpr fun a => ?_)
  rw [mem_filter, mem_filter]
  refine and_congr_left (fun hf => ?_)
  obtain ⟨b,hb⟩ := isSome_iff_exists.mp hf
  exact h a b hb

/-- `CREATE TABLE t (id INT PRIMARY KEY, a INT)` with an index on `a`, and then
another column; the row is `(1, 7, 5)`. -/
def indexedRow : StoredRow Unit where
  key := encodeValue sampleLibraries (.int64 1)
  cells := [.inline (.int64 1), .inline (.int64 7), .inline (.int64 5)]

def indexedTable (added : String) : TableData (Value Unit) Unit where
  schema := ⟨"t",[sampleColumn "id" .int64 true, sampleColumn "a" .int64 false,
    sampleColumn added .int64 false],[],[]⟩
  index := ⟨[(indexedRow.key,rowBytes sampleLibraries indexedRow.cells)],pairwise_singleton _ _⟩
  versionStore := VersionStore.new
  checkExprs := []
  sequences := ∅
  secondaryIndexes := [⟨"ix",[1],false,
    ⟨[(okeys sampleLibraries [.int64 7]++indexedRow.key,indexedRow.key)],pairwise_singleton _ _⟩⟩]

def sampleCasts : Casts Unit := ⟨fun _ _ => none,fun _ => "",id⟩

lemma indexedTable_rows (added : String) : Indexed sampleExecutor (indexedTable added) := by
  have hrow : sampleExecutor.decodeRow (rowBytes sampleLibraries indexedRow.cells) =
    some [.int64 1, .int64 7, .int64 5] := by rfl
  constructor
  · intro e he row hdec
    cases mem_singleton.mp he
    cases hrow.symm.trans hdec
    refine ⟨le_rfl,fun i c hc => .inr ?_⟩
    match i, hc with
    | 0, rfl | 1, rfl | 2, rfl => rfl
  · intro sec hsec k pk
    cases mem_singleton.mp hsec
    constructor
    · intro h
      cases mem_singleton.mp h
      exact ⟨_,_,mem_singleton_self _,hrow,rfl⟩
    · rintro ⟨data,row,hdata,hdec,rfl⟩
      cases mem_singleton.mp hdata
      cases hrow.symm.trans hdec
      exact mem_singleton_self _

def aAbove : Expr Unit := comparison false (.column "a") .gt (.integer 5)

/-- `WHERE a = 5`; after `ALTER TABLE t ADD COLUMN a INT` the index is that of the
first column `a`. -/
def aEqual : Expr Unit := comparison false (.column "a") .eq (.integer 5)

end

end ByteDB.Tuple
