import ByteDB.AlterTable
import ByteDB.HashJoin

/-!
# Names of columns in joins

Aliases are replaced by the names of their tables, and the columns of a join
are named after the tables. A qualified column is found if the tables are
different ones. The columns of a join condition are looked for without their
qualifiers, first in the order in which they are written.
-/

set_option autoImplicit false

namespace ByteDB.Tuple
open ByteDB.Ast ByteDB.Assoc Executor List

structure Source where
  table : String
  asName : Option String
  columns : List String

def Source.name (s : Source) : String := s.asName.getD s.table

section

def aliasMap (sources : List Source) : Map String String :=
  sources.foldl (fun m s => s.asName.elim m (fun a => m.insert a s.table)) ∅

variable {Q : Type} (onSelect : Q → Q) (m : Map String String)

mutual

/-- The rewriting of subqueries is given. -/
def rewriteExprAliases : Expr Q → Expr Q
  | .qualifiedColumn table col => .qualifiedColumn ((m.lookup table).getD table) col
  | .binaryOp left op right => .binaryOp (rewriteExprAliases left) op (rewriteExprAliases right)
  | .unaryOp op expr => .unaryOp op (rewriteExprAliases expr)
  | .function name args => .function name (rewriteList args)
  | .isNull expr => .isNull (rewriteExprAliases expr)
  | .isNotNull expr => .isNotNull (rewriteExprAliases expr)
  | .inList expr list => .inList (rewriteExprAliases expr) (rewriteList list)
  | .between expr low high =>
    .between (rewriteExprAliases expr) (rewriteExprAliases low) (rewriteExprAliases high)
  | .case operand whenClauses elseResult =>
    .case (rewriteOption operand) (rewritePairs whenClauses) (rewriteOption elseResult)
  | .cast expr dataType => .cast (rewriteExprAliases expr) dataType
  | .subquery select => .subquery (onSelect select)
  | .exists select => .exists (onSelect select)
  | .inSubquery expr select => .inSubquery (rewriteExprAliases expr) (onSelect select)
  | expr => expr

def rewriteList : List (Expr Q) → List (Expr Q)
  | [] => []
  | expr::exprs => rewriteExprAliases expr::rewriteList exprs

def rewriteOption : Option (Expr Q) → Option (Expr Q)
  | none => none
  | some expr => some (rewriteExprAliases expr)

def rewritePairs : List (Expr Q × Expr Q) → List (Expr Q × Expr Q)
  | [] => []
  | (w,t)::rest => (rewriteExprAliases w,rewriteExprAliases t)::rewritePairs rest

end

lemma aliasMap_name {sources : List Source} (hnames : (sources.map Source.name).Nodup)
    {s : Source} (hs : s ∈ sources) : ((aliasMap sources).lookup s.name).getD s.name = s.table := by
  have hother (sources : List Source) {n : String} (hn : n ∉ sources.map Source.name) :
      (aliasMap sources).lookup n = none := by
    induction sources using List.reverseRecOn with
    | nil => rfl
    | append_singleton sources u ih =>
      rw [map_append, mem_append, not_or, map_singleton, mem_singleton] at hn
      rw [aliasMap, foldl_append, ← aliasMap]
      cases hu : u.asName with
      | none => simpa [hu] using ih hn.1
      | some a =>
        have hne : n ≠ a := by simpa [Source.name, hu] using hn.2
        simpa [hu, lookup_insert_eq, hne] using ih hn.1
  induction sources using List.reverseRecOn with
  | nil => cases hs
  | append_singleton sources u ih =>
    rw [map_append, map_singleton, nodup_append_comm, singleton_append, nodup_cons] at hnames
    rw [aliasMap, foldl_append, ← aliasMap]
    rcases mem_append.mp hs with hs | hs
    · have hne : s.name ≠ u.name := fun heq => hnames.1 (heq ▸ mem_map_of_mem hs)
      cases hu : u.asName with
      | none => simpa [hu] using ih hnames.2 hs
      | some a =>
        have hne : s.name ≠ a := by simpa [Source.name, hu] using hne
        simpa [hu, lookup_insert_eq, hne] using ih hnames.2 hs
    · obtain rfl := mem_singleton.mp hs
      cases hu : s.asName with
      | none =>
        have hname : s.name = s.table := by rw [Source.name, hu, Option.getD_none]
        simp [hu, hother sources hnames.1, hname]
      | some a =>
        obtain rfl : s.name = a := by rw [Source.name, hu, Option.getD_some]
        simp [hu]

end

def joinedColumns : List Source → List String
  | [] => []
  | [s] => s.columns
  | s₀::s₁::rest =>
    rest.foldl (fun cols s => prefixed none cols++prefixed (some s.table) s.columns)
      (prefixed (some s₀.table) s₀.columns++prefixed (some s₁.table) s₁.columns)

/-- The column of a name, or else of the name behind any qualifier. -/
def findColIdx (names : List String) (name : String) : Option ℕ :=
  (position names name).or (names.findIdx? (fun c => ('.'::name.toList) <:+ c.toList))

def selectedIndex {Q : Type} (names : List String) : Expr Q → Option ℕ
  | .column name => some ((findColIdx names name).getD 0)
  | .qualifiedColumn table name =>
    some (((position names (table ++ "." ++ name)).or (findColIdx names name)).getD 0)
  | _ => none

def cells (sources : List Source) : List (Source × String) :=
  sources.flatMap (fun s => s.columns.map (fun c => (s,c)))

def Undotted (s : Source) : Prop := '.' ∉ s.table.toList ∧ ∀ c ∈ s.columns, '.' ∉ c.toList

lemma mem_cells {sources : List Source} {p : Source × String} :
    p ∈ cells sources ↔ p.1 ∈ sources ∧ p.2 ∈ p.1.columns := by
  obtain ⟨s,c⟩ := p
  simp [cells]

lemma joinedColumns_eq (s0 s1 : Source) (rest : List Source) : joinedColumns (s0::s1::rest) =
      (cells (s0::s1::rest)).map (fun p => p.1.table ++ "." ++ p.2) := by
  rw [joinedColumns]
  induction rest using List.reverseRecOn with
  | nil => simp [cells, prefixed, Function.comp_def]
  | append_singleton rest s ih =>
    rw [foldl_append, foldl_cons, foldl_nil, ih]
    simp [cells, prefixed, Function.comp_def]

lemma dotted_toList (t c : String) : (t ++ "." ++ c).toList = t.toList++ '.'::c.toList := by
  simp

lemma dotted_inj {t t' c c' : String} (ht : '.' ∉ t.toList) (hc : '.' ∉ c.toList)
    (h : t ++ "." ++ c = t' ++ "." ++ c') : t = t' ∧ c = c' := by
  have hlist := congrArg String.toList h
  rw [dotted_toList, dotted_toList, append_cons_inj_of_notMem ht hc] at hlist
  exact ⟨String.toList_inj.mp hlist.1,String.toList_inj.mp hlist.2.2⟩

section
variable {J : Type} {sources : List Source} {s : Source} {c : String}
  (hplain : ∀ s ∈ sources, Undotted s) (htables : (sources.map Source.table).Nodup)
  (hs : s ∈ sources)
include hplain htables hs

lemma cell_unique {p : Source × String} (hp : p ∈ cells sources)
    (h : p.1.table ++ "." ++ p.2 = s.table ++ "." ++ c) : p = (s,c) := by
  obtain ⟨hp1,hp2⟩ := mem_cells.mp hp
  obtain ⟨htable,hcol⟩ := dotted_inj (hplain p.1 hp1).1 ((hplain p.1 hp1).2 p.2 hp2) h
  exact Prod.ext (inj_on_of_nodup_map htables hp1 hs htable) hcol

lemma value_at (value : String → String → Value J) {i : ℕ}
    (hi : ((cells sources).map (fun p => p.1.table ++ "." ++ p.2))[i]? =
      some (s.table ++ "." ++ c)) :
    valueAt ((cells sources).map (fun p => value p.1.name p.2)) i = value s.name c := by
  rw [getElem?_map, Option.map_eq_some_iff] at hi
  obtain ⟨p,hp,hname⟩ := hi
  obtain rfl := cell_unique hplain htables hs (mem_of_getElem? hp) hname
  simp [valueAt, getElem?_map, hp]

end

lemma columnNames_result {J : Type} (names : List String) :
    (resultSchema names : Schema (Value J)).columnNames = names := by
  simp [resultSchema, Schema.columnNames, Function.comp_def]

lemma undotted_not_joined {sources : List Source} {c : String} (hc : '.' ∉ c.toList) :
    c ∉ (cells sources).map (fun p => p.1.table ++ "." ++ p.2) := by
  intro hmem
  obtain ⟨p,-,rfl⟩ := mem_map.mp hmem
  rw [dotted_toList] at hc
  simp at hc

lemma sidePosition_eq {cols : List String} {x : String} (hx : '.' ∉ x.toList) :
    sidePosition cols x = if x ∈ cols then some (cols.idxOf x) else none := by
  have hsays (c : String) : saysColumn x c = decide (c = x) := by
    refine decide_eq_decide.mpr ⟨fun h => h.resolve_right (fun hsuffix => ?_),.inl⟩
    exact hx (hsuffix.subset (mem_cons_self ..))
  rw [sidePosition]
  induction cols with
  | nil => rfl
  | cons c cols ih =>
    rw [findIdx?_cons, hsays]
    by_cases hcx : c = x
    · simp [hcx]
    · simp [hcx, Ne.symm hcx, ih]

lemma keyPositions_eq {leftCols rightCols : List String} {x y : String} (hx : '.' ∉ x.toList)
    (hy : '.' ∉ y.toList) : keyPositions leftCols rightCols x y =
      if x ∈ leftCols ∧ y ∈ rightCols then some (leftCols.idxOf x,rightCols.idxOf y) else none := by
  rw [keyPositions, sidePosition_eq hx, sidePosition_eq hy]
  by_cases hl : x ∈ leftCols <;> by_cases hr : y ∈ rightCols <;> simp [hl, hr]

section
variable {J Q : Type} (ex : Expressions Q J) (onSelect : Q → Q)

def qualified (sources : List Source) (s : Source) (c : String) : Expr Q :=
  rewriteExprAliases onSelect (aliasMap sources) (.qualifiedColumn s.name c)

end

end ByteDB.Tuple
