import ByteDB.Predicates

/-!
# Correlated subqueries

Before a subquery is executed for an outer row, the columns that are qualified
by the outer table are replaced by literals. The statements are trees of
selects; `Query L n` has those with selects nested less than `n` deep. One
traversal replaces qualified columns in a select and all selects in it, and
another lists them, each with the place where it stands: whether
`rewrite_select_correlated` gets there (it enters neither window functions nor
CTEs), and the names of the tables that the FROM and JOIN around it introduce.
-/

set_option autoImplicit false

namespace ByteDB.Correlation
open ByteDB.Ast ByteDB.Tuple List

section

inductive SelectItem (X : Type) where
  | star
  | expr (expr : X) (name : Option String)

inductive FromClause (Q : Type) where
  | table (name : String)
  | subquery (select : Q)
  | none

structure JoinClause (X : Type) where
  joinType : JoinType
  table : String
  aliasName : Option String
  condition : X

structure OrderItem (X : Type) where
  expr : X
  ascending : Bool
  nullsFirst : Option Bool

structure Cte (Q : Type) where
  name : String
  query : Q

/-- A SELECT with expressions `X` and selects `Q` in it. -/
structure SelectStmt (X Q : Type) where
  columns : List (SelectItem X)
  distinct : Bool
  source : FromClause Q
  sourceAlias : Option String
  joins : List (JoinClause X)
  whereClause : Option X
  groupBy : List X
  having : Option X
  orderBy : List (OrderItem X)
  limit : Option ℕ
  offset : Option ℕ
  ctes : List (Cte Q)

variable {X Y Q R : Type}

def SelectItem.expr? : SelectItem X → Option X
  | .star => none
  | .expr e _ => some e

def SelectItem.map (f : X → Y) : SelectItem X → SelectItem Y
  | .star => .star
  | .expr e name => .expr (f e) name

def FromClause.query? : FromClause Q → Option Q
  | .subquery q => some q
  | _ => Option.none

def FromClause.map (f : Q → R) : FromClause Q → FromClause R
  | .table name => .table name
  | .subquery q => .subquery (f q)
  | .none => .none

namespace SelectStmt

def map (f : X → Y) (derived cte : Q → R) (s : SelectStmt X Q) : SelectStmt Y R where
  columns := s.columns.map (SelectItem.map f)
  distinct := s.distinct
  source := s.source.map derived
  sourceAlias := s.sourceAlias
  joins := s.joins.map (fun j => ⟨j.joinType,j.table,j.aliasName,f j.condition⟩)
  whereClause := s.whereClause.map f
  groupBy := s.groupBy.map f
  having := s.having.map f
  orderBy := s.orderBy.map (fun o => ⟨f o.expr,o.ascending,o.nullsFirst⟩)
  limit := s.limit
  offset := s.offset
  ctes := s.ctes.map (fun c => ⟨c.name,cte c.query⟩)

def exprs (s : SelectStmt X Q) : List X :=
  s.columns.filterMap SelectItem.expr?++s.whereClause.toList++s.joins.map (·.condition) ++
    s.groupBy++s.having.toList++s.orderBy.map (·.expr)

def tables (s : SelectStmt X Q) : List String := (match s.source with
    | .table name => [name]
    | _ => [])++s.sourceAlias.toList ++
    s.joins.flatMap (fun j => j.table::j.aliasName.toList)

lemma map_eq_iff {f f' : X → Y} {g g' h h' : Q → R} (s : SelectStmt X Q) :
    s.map f g h = s.map f' g' h' ↔
      (∀ e ∈ s.exprs, f e = f' e) ∧ (∀ q, s.source.query? = some q → g q = g' q) ∧
        ∀ c ∈ s.ctes, h c.query = h' c.query := by
  have hitem : ∀ i : SelectItem X, i.map f = i.map f' ↔ ∀ e, i.expr? = some e → f e = f' e := by
    intro i
    cases i <;> simp [SelectItem.map, SelectItem.expr?]
  have hsource : s.source.map g = s.source.map g' ↔ ∀ q, s.source.query? = some q → g q = g' q := by
    cases s.source <;> simp [FromClause.map, FromClause.query?]
  have hoption : ∀ o : Option X, o.map f = o.map f' ↔ ∀ e, o = some e → f e = f' e := by
    intro o
    cases o <;> simp
  simp only [map, mk.injEq, true_and, and_true, map_inj_left, hitem, hsource, hoption, exprs,
    mem_append, mem_filterMap, Option.mem_toList, mem_map, JoinClause.mk.injEq,
    OrderItem.mk.injEq, Cte.mk.injEq]
  grind

lemma map_map {Z S : Type} (f : X → Y) (g h : Q → R) (f' : Y → Z) (g' h' : R → S)
    (s : SelectStmt X Q) : (s.map f g h).map f' g' h' = s.map (f' ∘ f) (g' ∘ g) (h' ∘ h) := by
  have hsource : (s.source.map g).map g' = s.source.map (g' ∘ g) := by
    cases s.source <;> rfl
  have hitem : ∀ i : SelectItem X, (i.map f).map f' = i.map (f' ∘ f) := by
    intro i
    cases i <;> rfl
  simp [map, hsource, hitem]

lemma tables_map (f : X → Y) (g h : Q → R) (s : SelectStmt X Q) :
    (s.map f g h).tables = s.tables := by
  cases hs : s.source <;> simp [tables, map, hs, FromClause.map, flatMap_map]

end SelectStmt

def Query (L : Type) : ℕ → Type
  | 0 => Empty
  | n+1 => SelectStmt (Expr (Query L n) L) (Query L n)

end

section
variable {Q R S L M N : Type}

def children : Expr Q L → List (Expr Q L)
  | .binaryOp left _ right => [left, right]
  | .unaryOp _ expr | .isNull expr | .isNotNull expr | .cast expr _ | .inSubquery expr _ => [expr]
  | .function _ args => args
  | .inList expr list => expr::list
  | .between expr low high => [expr, low, high]
  | .case operand clauses result =>
    operand.toList++clauses.flatMap (fun c => [c.1, c.2])++result.toList
  | .windowFunction _ args partitionBy orderBy => args++partitionBy++orderBy.map Prod.fst
  | _ => []

def isWindow : Expr Q L → Bool
  | .windowFunction .. => true
  | _ => false

lemma sizeOf_pair {A B : Type} [SizeOf A] [SizeOf B] {p : A × B} {ps : List (A × B)}
    (h : p ∈ ps) : sizeOf p.1 < sizeOf ps ∧ sizeOf p.2 < sizeOf ps := by
  have hlt := sizeOf_lt_of_mem h
  obtain ⟨a,b⟩ := p
  simp only [Prod.mk.sizeOf_spec] at hlt
  constructor <;> simp only <;> omega

lemma sizeOf_child {e a : Expr Q L} (h : a ∈ children e) : sizeOf a < sizeOf e := by
  cases e with
  | function name args =>
    rw [children] at h
    have hlt := sizeOf_lt_of_mem h
    simp only [Expr.function.sizeOf_spec]
    omega
  | inList expr list =>
    rw [children] at h
    have hlt := sizeOf_lt_of_mem h
    simp only [Expr.inList.sizeOf_spec, cons.sizeOf_spec] at hlt ⊢
    omega
  | case operand clauses result =>
    simp only [children, mem_append, Option.mem_toList, mem_flatMap] at h
    simp only [Expr.case.sizeOf_spec]
    rcases h with (h | ⟨c,hc,h⟩) | h
    · subst h
      simp
      omega
    · have hlt := sizeOf_pair hc
      simp only [mem_cons, not_mem_nil, or_false] at h
      rcases h with rfl | rfl
      all_goals omega
    · subst h
      simp
      omega
  | windowFunction name args partitionBy orderBy =>
    simp only [children, mem_append, mem_map] at h
    simp only [Expr.windowFunction.sizeOf_spec]
    rcases h with (h | h) | ⟨o,ho,rfl⟩
    · have hlt := sizeOf_lt_of_mem h
      omega
    · have hlt := sizeOf_lt_of_mem h
      omega
    · have hlt := sizeOf_pair ho
      omega
  | _ =>
    simp only [children, mem_cons, not_mem_nil, or_false] at h
    try (rcases h with rfl | rfl | rfl)
    all_goals simp
    all_goals omega

lemma child_induction {P : Expr Q L → Prop} (step : ∀ e, (∀ a ∈ children e, P a) → P e)
    (e : Expr Q L) : P e :=
  step e (fun a _ => child_induction step a)
termination_by sizeOf e
decreasing_by exact sizeOf_child ‹_›

/-- A qualified column or a select in an expression, and whether it stands
outside of window functions. -/
inductive Part (Q : Type) where
  | column (reached : Bool) (table name : String)
  | select (reached : Bool) (query : Q)

def ownParts (reached : Bool) : Expr Q L → List (Part Q)
  | .qualifiedColumn table name => [.column reached table name]
  | .subquery query | .exists query | .inSubquery _ query => [.select reached query]
  | _ => []

def parts (reached : Bool) (e : Expr Q L) : List (Part Q) :=
  ownParts reached e++(children e).attach.flatMap (fun a => parts (reached && !isWindow e) a.1)
termination_by sizeOf e
decreasing_by exact sizeOf_child a.2

lemma parts_eq (reached : Bool) (e : Expr Q L) :
    parts reached e = ownParts reached e++(children e).flatMap (parts (reached && !isWindow e)) := by
  rw [parts]
  simp

lemma mem_parts {reached : Bool} {e : Expr Q L} {p : Part Q} : p ∈ parts reached e ↔
      p ∈ ownParts reached e ∨ ∃ a ∈ children e, p ∈ parts (reached && !isWindow e) a := by
  rw [parts_eq, mem_append, mem_flatMap]

/-- Replace some qualified columns by literals, and the literals and selects. -/
def replace (column : Bool → String → String → Option M) (literal : L → M) (select : Bool → Q → R)
    (reached : Bool) : Expr Q L → Expr R M
  | .literal v => .literal (literal v)
  | .column name => .column name
  | .qualifiedColumn table name =>
    (column reached table name).elim (.qualifiedColumn table name) .literal
  | .binaryOp left op right =>
    .binaryOp (replace column literal select reached left) op
      (replace column literal select reached right)
  | .unaryOp op expr => .unaryOp op (replace column literal select reached expr)
  | .function name args =>
    .function name (args.map (fun a => replace column literal select reached a))
  | .jsonPath path => .jsonPath path
  | .isNull expr => .isNull (replace column literal select reached expr)
  | .isNotNull expr => .isNotNull (replace column literal select reached expr)
  | .inList expr list =>
    .inList (replace column literal select reached expr)
      (list.map (fun a => replace column literal select reached a))
  | .between expr low high =>
    .between (replace column literal select reached expr)
      (replace column literal select reached low) (replace column literal select reached high)
  | .case operand clauses result =>
    .case (match operand with
        | none => none
        | some expr => some (replace column literal select reached expr))
      (clauses.map (fun c => (replace column literal select reached c.1,
        replace column literal select reached c.2)))
      (match result with
        | none => none
        | some expr => some (replace column literal select reached expr))
  | .cast expr dataType => .cast (replace column literal select reached expr) dataType
  | .subquery query => .subquery (select reached query)
  | .inSubquery expr query =>
    .inSubquery (replace column literal select reached expr) (select reached query)
  | .exists query => .exists (select reached query)
  | .windowFunction name args partitionBy orderBy =>
    .windowFunction name (args.map (fun a => replace column literal select false a))
      (partitionBy.map (fun a => replace column literal select false a))
      (orderBy.map (fun o => (replace column literal select false o.1,o.2)))
  | .default => .default
  | .interval text => .interval text
termination_by e => sizeOf e
decreasing_by
  all_goals try have hpair := sizeOf_pair ‹_ ∈ _›
  all_goals try have hmem := sizeOf_lt_of_mem ‹_ ∈ _›
  all_goals simp_wf
  all_goals omega

def Part.Agrees (column column' : Bool → String → String → Option M)
    (select select' : Bool → Q → R) : Part Q → Prop
  | .column reached table name => column reached table name = column' reached table name
  | .select reached query => select reached query = select' reached query

lemma elim_literal_inj {table name : String} {o o' : Option M} :
    o.elim (.qualifiedColumn table name : Expr R M) .literal =
      o'.elim (.qualifiedColumn table name) .literal ↔ o = o' := by
  cases o <;> cases o' <;> simp

lemma replace_eq_iff {column column' : Bool → String → String → Option M} {literal : L → M}
    {select select' : Bool → Q → R} {reached : Bool} (e : Expr Q L) :
    replace column literal select reached e = replace column' literal select' reached e ↔
      ∀ p ∈ parts reached e, p.Agrees column column' select select' := by
  induction e using child_induction generalizing reached with
  | step e ih =>
    have hsplit : (∀ p ∈ parts reached e, p.Agrees column column' select select') ↔
        (∀ p ∈ ownParts reached e, p.Agrees column column' select select') ∧
          ∀ a ∈ children e, replace column literal select (reached && !isWindow e) a =
            replace column' literal select' (reached && !isWindow e) a := by
      constructor
      · intro h
        refine ⟨fun p hp => h p (mem_parts.mpr (.inl hp)),fun a ha => ?_⟩
        exact (ih a ha).mpr (fun p hp => h p (mem_parts.mpr (.inr ⟨a,ha,hp⟩)))
      · rintro ⟨hown,hchildren⟩ p hp
        rcases mem_parts.mp hp with hp | ⟨a,ha,hp⟩
        · exact hown p hp
        · exact (ih a ha).mp (hchildren a ha) p hp
    rw [hsplit]
    clear hsplit ih
    cases e with
    | qualifiedColumn table name =>
      simp [replace, ownParts, children, Part.Agrees, elim_literal_inj]
    | case operand clauses result =>
      cases operand <;> cases result <;> simp [replace, ownParts, children, isWindow] <;> grind
    | inSubquery expr query =>
      simp [replace, ownParts, children, isWindow, Part.Agrees, and_comm]
    | windowFunction name args partitionBy orderBy =>
      simp [replace, ownParts, children, isWindow]
      grind
    | _ => simp [replace, ownParts, children, isWindow, Part.Agrees]

lemma replace_replace (column : Bool → String → String → Option M) (literal : L → M)
    (select : Bool → Q → R) (column' : Bool → String → String → Option N) (literal' : M → N)
    (select' : Bool → R → S) (reached : Bool) (e : Expr Q L) :
    replace column' literal' select' reached (replace column literal select reached e) =
      replace (fun r t c => ((column r t c).map literal').or (column' r t c)) (literal' ∘ literal)
        (fun r q => select' r (select r q)) reached e := by
  induction e using child_induction generalizing reached with
  | step e ih =>
    have hsame := fun a ha => ih a ha reached
    cases e with
    | qualifiedColumn table name =>
      cases h : column reached table name <;> simp [replace, h]
    | case operand clauses result =>
      cases operand <;> cases result <;> simp [replace, children] at hsame ⊢ <;> grind
    | windowFunction name args partitionBy orderBy =>
      have hunder := fun a ha => ih a ha false
      simp [replace, children] at hunder ⊢
      grind
    | _ => simp [replace, children] at hsame ⊢ <;> grind

end

section
variable {L M N : Type}

def selectParts {Q : Type} (reached : Bool) (s : SelectStmt (Expr Q L) Q) : List (Part Q) :=
  s.exprs.flatMap (parts reached)++s.source.query?.toList.map (.select reached) ++
    s.ctes.map (fun c => .select false c.query)

def replaceParts {Q R : Type} (column : Bool → String → String → Option M) (literal : L → M)
    (select : Bool → Q → R) (reached : Bool) (s : SelectStmt (Expr Q L) Q) :
    SelectStmt (Expr R M) R :=
  s.map (replace column literal select reached) (select reached) (select false)

lemma replaceParts_eq_iff {Q R : Type} {column column' : Bool → String → String → Option M}
    {literal : L → M} {select select' : Bool → Q → R} {reached : Bool}
    (s : SelectStmt (Expr Q L) Q) :
    replaceParts column literal select reached s = replaceParts column' literal select' reached s ↔
      ∀ p ∈ selectParts reached s, p.Agrees column column' select select' := by
  rw [replaceParts, replaceParts, SelectStmt.map_eq_iff]
  simp only [replace_eq_iff, selectParts, mem_append, mem_flatMap, mem_map, Option.mem_toList]
  constructor
  · rintro ⟨hexprs,hsource,hctes⟩ p ((⟨e,he,hp⟩ | ⟨q,hq,rfl⟩) | ⟨c,hc,rfl⟩)
    · exact hexprs e he p hp
    · exact hsource q hq
    · exact hctes c hc
  · intro h
    exact ⟨fun e he p hp => h p (.inl (.inl ⟨e,he,hp⟩)),
      fun q hq => h (.select reached q) (.inl (.inr ⟨q,hq,rfl⟩)),
      fun c hc => h (.select false c.query) (.inr ⟨c,hc,rfl⟩)⟩

lemma replaceParts_replaceParts {Q R S : Type} (column : Bool → String → String → Option M)
    (literal : L → M) (select : Bool → Q → R) (column' : Bool → String → String → Option N)
    (literal' : M → N) (select' : Bool → R → S) (reached : Bool) (s : SelectStmt (Expr Q L) Q) :
    replaceParts column' literal' select' reached (replaceParts column literal select reached s) =
      replaceParts (fun r t c => ((column r t c).map literal').or (column' r t c))
        (literal' ∘ literal) (fun r q => select' r (select r q)) reached s := by
  rw [replaceParts, replaceParts, replaceParts, SelectStmt.map_map]
  congr 1
  funext e
  exact replace_replace ..

def introduced {X Q : Type} (s : SelectStmt X Q) : List String := s.tables.map String.toLower

def replaceIn (column : Bool → List String → String → String → Option M) (literal : L → M) :
    (n : ℕ) → Bool → List String → Query L n → Query M n
  | 0, _, _, q => Empty.elim q
  | _+1, reached, around, s =>
    replaceParts (fun r => column r (around++introduced s)) literal
      (fun r => replaceIn column literal _ r (around++introduced s)) reached s

structure Ref where
  reached : Bool
  around : List String
  table : String
  name : String
  deriving DecidableEq

def refs : (n : ℕ) → Bool → List String → Query L n → List Ref
  | 0, _, _, _ => []
  | _+1, reached, around, s => (selectParts reached s).flatMap (fun p =>
    match p with
    | .column r table name => [⟨r,around++introduced s,table,name⟩]
    | .select r query => refs _ r (around++introduced s) query)

lemma replaceIn_eq_iff {column column' : Bool → List String → String → String → Option M}
    {literal : L → M} (n : ℕ) (reached : Bool) (around : List String) (q : Query L n) :
    replaceIn column literal n reached around q = replaceIn column' literal n reached around q ↔
      ∀ r ∈ refs n reached around q,
        column r.reached r.around r.table r.name = column' r.reached r.around r.table r.name := by
  induction n generalizing reached around with
  | zero => exact Empty.elim q
  | succ n ih =>
    rw [refs]
    refine (replaceParts_eq_iff q).trans ?_
    simp only [forall_mem_flatMap]
    refine forall₂_congr (fun p _ => ?_)
    cases p with
    | column r table name => simp [Part.Agrees]
    | select r query => exact ih r _ query

lemma introduced_replaceParts {Q R : Type} (column : Bool → String → String → Option M)
    (literal : L → M) (select : Bool → Q → R) (reached : Bool) (s : SelectStmt (Expr Q L) Q) :
    introduced (replaceParts column literal select reached s) = introduced s := by
  rw [introduced, replaceParts, SelectStmt.tables_map, introduced]

lemma replaceIn_replaceIn (column : Bool → List String → String → String → Option M)
    (literal : L → M) (column' : Bool → List String → String → String → Option N)
    (literal' : M → N) (n : ℕ) (reached : Bool) (around : List String) (q : Query L n) :
    replaceIn column' literal' n reached around (replaceIn column literal n reached around q) =
      replaceIn (fun r a t c => ((column r a t c).map literal').or (column' r a t c))
        (literal' ∘ literal) n reached around q := by
  induction n generalizing reached around with
  | zero => exact Empty.elim q
  | succ n ih =>
    have hscope := introduced_replaceParts (fun r => column r (around++introduced q)) literal
      (fun r => replaceIn column literal n r (around++introduced q)) reached q
    rw [replaceIn, replaceIn, replaceIn]
    refine Eq.trans ?_ ((replaceParts_replaceParts (fun r => column r (around++introduced q))
      literal (fun r => replaceIn column literal n r (around++introduced q))
      (fun r => column' r (around++introduced q)) literal'
      (fun r => replaceIn column' literal' n r (around++introduced q)) reached q).trans ?_)
    · rw [hscope]
    · simp only [ih]

end

section
variable {J : Type} {n : ℕ}

/-- The texts of values that have no literals of their own. -/
structure Texts (J : Type) where
  date : BitVec 32 → String
  timestamp : BitVec 64 → String
  uuid : Uuid → String
  decimal : BitVec 128 → UInt8 → String
  json : J → String

def valueToLiteral (texts : Texts J) : Value J → LiteralValue
  | .int64 n => .integer n
  | .float64 f => .float f
  | .text s => .string s
  | .bool b => .bool b
  | .null => .null
  | .bytes b => .hexBlob b
  | .date d => .string (texts.date d)
  | .timestamp t => .string (texts.timestamp t)
  | .uuid u => .string (texts.uuid u)
  | .decimal m s => .string (texts.decimal m s)
  | .json j => .string (texts.json j)
  | .interval us => .integer us

def outerColumn (schema : Schema (Value J)) (table name : String) : Option ℕ :=
  if schema.tableName ≠ "" ∧ table.toLower = schema.tableName.toLower then
    schema.columnIndex name
  else none

def outerValue (schema : Schema (Value J)) (row : List (Value J)) (table name : String) :
    Option (Value J) :=
  (outerColumn schema table name).map (fun i => (row[i]?).getD .null)

section
variable (texts : Texts J) (schema : Schema (Value J)) (row : List (Value J))
  (q : Query LiteralValue n)

def rewriteSelectCorrelated : Query LiteralValue n := replaceIn (fun reached _ table name =>
    if reached then (outerValue schema row table name).map (valueToLiteral texts) else none)
    id n true [] q

def correlateSubquery : Query LiteralValue n :=
  if schema.tableName = "" then q else rewriteSelectCorrelated texts schema row q

end

def collectScopeTables {L : Type} : (n : ℕ) → Query L n → List String
  | 0, _ => []
  | _+1, s => introduced s++s.ctes.map (fun c => c.name.toLower) ++
    (selectParts true s).flatMap (fun p =>
      match p with
      | .column .. => []
      | .select _ query => collectScopeTables _ query)

def selectQualcolsInScope (scope : List String) (q : Query LiteralValue n) : Bool :=
  (refs n true [] q).all (fun r => scope.contains r.table.toLower)

def subqueryIsConstant (q : Query LiteralValue n) : Bool :=
  selectQualcolsInScope (collectScopeTables n q) q

/-- The rows of a subquery of the statement for one outer row after another,
with what the cache has for it. -/
def evalSubqueryRows {R : Type} (texts : Texts J) (schema : Schema (Value J))
    (run : Query LiteralValue n → R) (q : Query LiteralValue n) :
    Option R → List (List (Value J)) → List R
  | _, [] => []
  | some found, _::rows => found::evalSubqueryRows texts schema run q (some found) rows
  | none, row::rows =>
    let found := run (correlateSubquery texts schema row q)
    found::evalSubqueryRows texts schema run q
      (if subqueryIsConstant q then some found else none) rows

end

section
variable {J : Type} {n : ℕ} {texts : Texts J} {schema : Schema (Value J)} {q : Query LiteralValue n}

/-- No column that the rewriting gets to is one of the outer table. -/
def Uncorrelated (schema : Schema (Value J)) (q : Query LiteralValue n) : Prop :=
  ∀ r ∈ refs n true [] q, r.reached = true → outerColumn schema r.table r.name = none

lemma outerColumn_unnamed (h : schema.tableName = "") (table name : String) :
    outerColumn schema table name = none :=
  if_neg (fun hnamed => hnamed.1 h)

lemma correlate_eq_iff (row row' : List (Value J)) :
    correlateSubquery texts schema row q = correlateSubquery texts schema row' q ↔
      ∀ r ∈ refs n true [] q, r.reached = true →
        (outerValue schema row r.table r.name).map (valueToLiteral texts) =
          (outerValue schema row' r.table r.name).map (valueToLiteral texts) := by
  rw [correlateSubquery, correlateSubquery]
  split
  · rename_i hname
    simp [outerValue, outerColumn_unnamed hname]
  · rw [rewriteSelectCorrelated, rewriteSelectCorrelated, replaceIn_eq_iff]
    refine forall₂_congr (fun r _ => ?_)
    cases r.reached <;> simp

lemma correlate_same_iff :
    (∀ row row', correlateSubquery texts schema row q = correlateSubquery texts schema row' q) ↔
      Uncorrelated schema q := by
  constructor
  · intro h r hr hreached
    cases hi : outerColumn schema r.table r.name with
    | none => rfl
    | some i =>
      -- An empty row and a row of truth values differ in the column.
      have hsame := (correlate_eq_iff [] (replicate (i+1) (.bool true))).mp (h _ _) r hr hreached
      rw [outerValue, outerValue, hi] at hsame
      simp [valueToLiteral] at hsame
  · intro h row row'
    refine (correlate_eq_iff row row').mpr (fun r hr hreached => ?_)
    rw [outerValue, outerValue, h r hr hreached]
    rfl

lemma evalSubqueryRows_same {R : Type} (run : Query LiteralValue n → R)
    (h : ∀ row row', correlateSubquery texts schema row q = correlateSubquery texts schema row' q)
    (rows : List (List (Value J))) (found : Option R)
    (hfound : ∀ f, found = some f → ∀ row, f = run (correlateSubquery texts schema row q)) :
    evalSubqueryRows texts schema run q found rows =
      rows.map (fun row => run (correlateSubquery texts schema row q)) := by
  induction rows generalizing found with
  | nil => rw [evalSubqueryRows, map_nil]
  | cons row rows ih =>
    cases found with
    | some f => rw [evalSubqueryRows, map_cons, ih _ hfound, ← hfound f rfl row]
    | none =>
      rw [evalSubqueryRows, map_cons, ih]
      intro f hf row'
      split at hf
      · cases hf
        rw [h row row']
      · cases hf

/-- For a subquery that is taken to be constant, its statement is the same for
every outer row, and the cached rows are those of every evaluation, exactly if
none of its columns is rewritten; and so it is if no table and no CTE in it has
the outer table's name. -/
theorem constant_subquery_iff (hconstant : subqueryIsConstant q = true) :
    (((∀ row row', correlateSubquery texts schema row q = correlateSubquery texts schema row' q) ∧
        ∀ (R : Type) (run : Query LiteralValue n → R) rows,
          evalSubqueryRows texts schema run q none rows =
            rows.map (fun row => run (correlateSubquery texts schema row q))) ↔
      Uncorrelated schema q) ∧
    (schema.tableName.toLower ∉ collectScopeTables n q → Uncorrelated schema q) := by
  refine ⟨⟨fun h => correlate_same_iff.mp h.1,fun h => ?_⟩,fun hscope r hr _ => ?_⟩
  · have hsame : ∀ row row', correlateSubquery texts schema row q =
        correlateSubquery texts schema row' q := correlate_same_iff.mpr h
    exact ⟨hsame,fun R run rows => evalSubqueryRows_same run hsame rows none nofun⟩
  · have hin := all_eq_true.mp hconstant r hr
    rw [contains_iff_mem] at hin
    refine if_neg (fun houter => hscope ?_)
    rwa [houter.2] at hin

end

section
variable {J : Type} {n : ℕ} {texts : Texts J} {schema : Schema (Value J)} {row : List (Value J)}
  {q : Query LiteralValue n}

/-- The statement with the values of its literals. All that is evaluated of a
literal is its value, so that what evaluates statements is a function of this. -/
def typed (q : Query LiteralValue n) : Query (Value J) n :=
  replaceIn (fun _ _ _ _ => none) literalValue n true [] q

/-- The statement in which the columns of the outer table stand for the values
of the outer row, unless a FROM or JOIN around them introduces the table's name. -/
def inEnvironment (schema : Schema (Value J)) (row : List (Value J))
    (q : Query LiteralValue n) : Query (Value J) n :=
  replaceIn (fun _ around table name =>
    if schema.tableName.toLower ∈ around then none else outerValue schema row table name)
    literalValue n true [] q

def IsLiteral : Value J → Prop
  | .null | .bool _ | .int64 _ | .float64 _ | .text _ | .bytes _ => True
  | _ => False

lemma literal_kept_iff (v : Value J) : literalValue (valueToLiteral texts v) = v ↔ IsLiteral v := by
  cases v <;> simp [valueToLiteral, literalValue, IsLiteral]

/-- A column of the outer table stands where the rewriting gets to, no FROM or
JOIN around it introduces the table's name, and its value is a literal; or the
name is introduced and the rewriting does not get there. -/
def Kept (schema : Schema (Value J)) (row : List (Value J)) (r : Ref) : Prop :=
  ∀ v, outerValue schema row r.table r.name = some v →
    if schema.tableName.toLower ∈ r.around then r.reached = false
    else r.reached = true ∧ IsLiteral v

lemma typed_correlate : (typed (correlateSubquery texts schema row q) : Query (Value J) n) =
      replaceIn (fun reached _ table name => if reached then
          (outerValue schema row table name).map (literalValue ∘ valueToLiteral texts) else none)
        literalValue n true [] q := by
  rw [typed, correlateSubquery]
  split
  · rename_i hname
    refine (replaceIn_eq_iff ..).mpr (fun r _ => ?_)
    simp [outerValue, outerColumn_unnamed hname]
  · rw [rewriteSelectCorrelated, replaceIn_replaceIn]
    congr 1
    funext reached around table name
    cases reached <;> simp

lemma kept_iff (r : Ref) : (if r.reached then
        (outerValue schema row r.table r.name).map (literalValue ∘ valueToLiteral texts)
      else none) =
      (if schema.tableName.toLower ∈ r.around then none
      else outerValue schema row r.table r.name) ↔ Kept schema row r := by
  rw [Kept]
  cases outerValue schema row r.table r.name with
  | none => simp
  | some v =>
    have hlit : literalValue (valueToLiteral texts v) = v ↔ IsLiteral v := literal_kept_iff v
    by_cases haround : schema.tableName.toLower ∈ r.around
    · cases r.reached <;> simp [haround]
    · cases r.reached <;> simp [haround, hlit]

end

def column (name : String) : Column (Value Unit) :=
  { name := name, dataType := .int64, nullable := true, primaryKey := false, unique := false
    autoIncrement := false, default := none, maxLength := none }

def outer : Schema (Value Unit) :=
  { tableName := "t", columns := [column "a", { column "d" with dataType := .date }]
    checkConstraints := [], foreignKeys := [] }

/-- Texts in which every value is `?`, except for the first day. -/
def sampleTexts : Texts Unit where
  date d := if d = 0 then "1970-01-01" else "?"
  timestamp _ := "?"
  uuid _ := "?"
  decimal _ _ := "?"
  json _ := "null"

/-- `SELECT expr FROM source WHERE condition` -/
def selectFrom {Q : Type} (expr : Expr Q) (source : FromClause Q) (condition : Option (Expr Q)) :
    SelectStmt (Expr Q) Q where
  columns := [.expr expr none]
  distinct := false
  source := source
  sourceAlias := none
  joins := []
  whereClause := condition
  groupBy := []
  having := none
  orderBy := []
  limit := none
  offset := none
  ctes := []

def uncorrelated : Query LiteralValue 1 := selectFrom (.qualifiedColumn "u" "b") (.table "u") none

theorem uncorrelated_cached : Uncorrelated outer uncorrelated ∧
      evalSubqueryRows sampleTexts outer id uncorrelated none [[.int64 0], [.int64 1]] =
        [correlateSubquery sampleTexts outer [.int64 0] uncorrelated,
          correlateSubquery sampleTexts outer [.int64 1] uncorrelated] := by
  obtain ⟨hiff,hscope⟩ : _ ∧ (outer.tableName.toLower ∉ _ → Uncorrelated outer uncorrelated) :=
    constant_subquery_iff (by decide +kernel : subqueryIsConstant uncorrelated = true)
  have hnone := hscope (by decide +kernel)
  exact ⟨hnone,(hiff.mpr hnone).2 _ id _⟩

/-- `SELECT u.b FROM u WHERE u.b = t.a AND EXISTS (SELECT t.a FROM t)` -/
def correlated : Query LiteralValue 2 := selectFrom (.qualifiedColumn "u" "b") (.table "u")
    (some (.binaryOp (.binaryOp (.qualifiedColumn "u" "b") .eq (.qualifiedColumn "t" "a")) .and
      (.exists (selectFrom (.qualifiedColumn "t" "a") (.table "t") none))))

/-- The table of the innermost select lets the outer column pass for one of the
subquery. -/
theorem correlated_taken_for_constant : subqueryIsConstant correlated = true ∧
      correlateSubquery sampleTexts outer [.int64 0] correlated ≠
        correlateSubquery sampleTexts outer [.int64 1] correlated ∧
      evalSubqueryRows sampleTexts outer id correlated none [[.int64 0], [.int64 1]] =
        [correlateSubquery sampleTexts outer [.int64 0] correlated,
          correlateSubquery sampleTexts outer [.int64 0] correlated] := by
  have hconstant : subqueryIsConstant correlated = true := by decide +kernel
  refine ⟨hconstant,fun heq => ?_,?_⟩
  · have hmem : (⟨true,["u"],"t","a"⟩ : Ref) ∈ refs 2 true [] correlated := by decide +kernel
    have hsame := (correlate_eq_iff _ _).mp heq _ hmem rfl
    revert hsame
    decide +kernel
  · rw [evalSubqueryRows, if_pos hconstant, evalSubqueryRows, evalSubqueryRows]
    rfl

def outerDate : Query LiteralValue 1 := selectFrom (.qualifiedColumn "t" "d") .none none

/-- The row of a SELECT without FROM, if it selects constants. -/
def constantRow (q : Query (Value Unit) 1) : List (Value Unit) := q.columns.filterMap (fun item =>
    match item with
    | .expr (.literal v) _ => some v
    | _ => none)

end ByteDB.Correlation
