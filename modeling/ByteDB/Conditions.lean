import ByteDB.Predicates

/-!
# Conditions as values and as predicates

`eval_value` computes a value of a condition by rules of its own, which a
select list shows and a CASE tests; a WHERE clause and a CHECK are evaluated
by `eval_predicate_tri`.
-/

set_option autoImplicit false

namespace ByteDB.Tuple
open ByteDB.Ast List

section
variable {Q J : Type} (ex : Expressions Q J) (rows : Q → List (List (Value J)))
  (row : List (Value J)) (schema : Schema (Value J))

def combineValues (op : BinOp) (l r : Value J) : Value J :=
  match op, l, r with
  | .neq, l, r => .bool (!opHolds .eq (l.compare r))
  | .and, .bool a, .bool b => .bool (a && b)
  | .or, .bool a, .bool b => .bool (a || b)
  | .like, .text s, .text pattern => .bool (ex.likeMatch s pattern)
  | .ilike, .text s, .text pattern => .bool (ex.ilikeMatch s pattern)
  | op, l, r => if isComparison op then .bool (opHolds op (l.compare r)) else .null

def found (v : Value J) (items : List (Value J)) : Bool :=
  items.any (fun w => v.compare w == some .eq)

mutual

/-- `eval_value` of a condition. The rows of subqueries, which are not
correlated, and the values of other expressions are given. -/
def evalCondition : Expr Q → Value J
  | .binaryOp left op right =>
    if op ∈ [.plus, .minus, .mul, .div, .mod] then
      evalValue ex (.binaryOp left op right) row schema
    else combineValues ex op (evalCondition left) (evalCondition right)
  | .unaryOp .not expr =>
    match evalCondition expr with
    | .bool b => .bool (!b)
    | _ => .null
  | .isNull expr => .bool (evalCondition expr).isNull
  | .isNotNull expr => .bool (!(evalCondition expr).isNull)
  | .inList expr list => .bool (found (evalCondition expr) (evalConditions list))
  | .between expr low high =>
    .bool (opHolds .gte ((evalCondition expr).compare (evalCondition low)) &&
      opHolds .lte ((evalCondition expr).compare (evalCondition high)))
  | .inSubquery expr select =>
    .bool (found (evalCondition expr) ((rows select).filterMap List.head?))
  | expr => evalValue ex expr row schema

def evalConditions : List (Expr Q) → List (Value J)
  | [] => []
  | expr::exprs => evalCondition expr::evalConditions exprs

end

def Expressions.withConditions : Expressions Q J :=
  { ex with value := fun expr row schema => evalCondition ex rows row schema expr }

/-- `eval_predicate_tri` -/
def tri (expr : Expr Q) : Option Bool := evalPredicateTri (ex.withConditions rows) row schema expr

end

section
variable {Q J : Type} {ex : Expressions Q J} {rows : Q → List (List (Value J))}
  {row : List (Value J)} {schema : Schema (Value J)}

lemma evalValue_withConditions (expr : Expr Q) :
    evalValue (ex.withConditions rows) expr row schema = evalCondition ex rows row schema expr := by
  cases expr with
  | column | qualifiedColumn | literal =>
    rw [evalCondition.eq_def]
    rfl
  | _ => rfl

lemma evalConditions_eq (exprs : List (Expr Q)) :
    evalConditions ex rows row schema exprs = exprs.map (evalCondition ex rows row schema) := by
  induction exprs with
  | nil => rfl
  | cons expr exprs ih => rw [evalConditions, ih, map_cons]

lemma opHolds_eq (c : Option Ordering) : opHolds .eq c = (c == some .eq) := by
  rcases c with _ | _ | _ | _ <;> rfl

lemma compare_null {v w : Value J} (hv : v.isNull = false) (hw : w.isNull = true) :
    (v.compare w == some .eq) = false := by
  cases w with
  | null =>
    cases v with
    | null => cases hv
    | _ => rfl
  | _ => cases hw

/-- An IN list, as `eval_predicate_tri` goes through it. -/
def inValues (v : Value J) (items : List (Value J)) : Option Bool :=
  if v.isNull then none
  else if found v items then some true
  else if items.any Value.isNull then none
  else some false

lemma inList_values (ex : Expressions Q J) (expr : Expr Q) (list : List (Expr Q)) :
    evalPredicateTri ex row schema (.inList expr list) =
      inValues (evalValue ex expr row schema) (list.map (fun w => evalValue ex w row schema)) := by
  rw [evalPredicateTri, inValues]
  cases hv : (evalValue ex expr row schema).isNull with
  | true => simp
  | false =>
    have hfound : ∀ w : Value J, (!w.isNull && (evalValue ex expr row schema).compare w == some .eq) =
        ((evalValue ex expr row schema).compare w == some .eq) := by
      intro w
      cases hw : w.isNull with
      | false => rfl
      | true => exact (compare_null hv hw).symm
    simp only [hfound, found]
    rfl

lemma tri_inList (expr : Expr Q) (list : List (Expr Q)) :
    tri ex rows row schema (.inList expr list) = inValues (evalCondition ex rows row schema expr)
        (list.map (evalCondition ex rows row schema)) := by
  simp only [tri, inList_values, evalValue_withConditions]

variable (ex rows row schema)

/-- Operands that are not NULL, of types that can be compared where they are to
differ, and texts where they are to be alike. -/
def Settled : Expr Q → Prop
  | .binaryOp left op right =>
    let l := evalCondition ex rows row schema left
    let r := evalCondition ex rows row schema right
    match op with
    | .and | .or => Settled left ∧ Settled right
    | .like | .ilike => (∃ s, l = .text s) ∧ ∃ pattern, r = .text pattern
    | .neq => l.isNull = false ∧ r.isNull = false ∧ l.compare r ≠ none
    | .eq | .lt | .gt | .lte | .gte => l.isNull = false ∧ r.isNull = false
    | _ => False
  | .unaryOp .not expr => Settled expr
  | .isNull _ | .isNotNull _ => True
  | .between expr low high =>
    ∀ operand ∈ [expr, low, high], (evalCondition ex rows row schema operand).isNull = false
  | .inList expr list =>
    ∀ operand ∈ expr::list, (evalCondition ex rows row schema operand).isNull = false
  | _ => False

variable {ex rows row schema}

lemma settled_bool {expr : Expr Q} (h : Settled ex rows row schema expr) :
    ∃ b, evalCondition ex rows row schema expr = .bool b ∧ tri ex rows row schema expr = some b := by
  fun_induction Settled ex rows row schema expr with
  | case1 left right ihl ihr | case2 left right ihl ihr =>
    obtain ⟨a,ha,ha'⟩ := ihl h.1
    obtain ⟨b,hb,hb'⟩ := ihr h.2
    rw [tri] at ha' hb' ⊢
    rw [evalPredicateTri, ha', hb']
    simp only [evalCondition, combineValues, ha, hb]
    cases a <;> cases b <;> simp
  | case3 left right l r | case4 left right l r =>
    obtain ⟨⟨s,hs⟩,pattern,hpattern⟩ := h
    simp only [l, r] at hs hpattern
    refine ⟨_,by rw [evalCondition, hs, hpattern]; rfl,?_⟩
    simp only [tri, evalPredicateTri, evalValue_withConditions, hs, hpattern]
    rfl
  | case5 left right l r =>
    obtain ⟨hl,hr,hcmp⟩ := h
    simp only [l, r] at hl hr hcmp
    obtain ⟨o,ho⟩ := Option.ne_none_iff_exists'.mp hcmp
    simp only [evalCondition, combineValues, tri, evalPredicateTri, evalValue_withConditions, hl, hr,
      ho]
    cases o <;> simp [opHolds]
  | case6 left right l r | case7 left right l r | case8 left right l r | case9 left right l r
  | case10 left right l r =>
    simp only [l, r] at h
    simp [evalCondition, combineValues, isComparison, tri, evalPredicateTri,
      evalValue_withConditions, h]
  | case11 | case17 => exact h.elim
  | case12 expr ih =>
    obtain ⟨b,hb,hb'⟩ := ih h
    rw [tri] at hb' ⊢
    exact ⟨!b,by rw [evalCondition, hb],by rw [evalPredicateTri, hb']; rfl⟩
  | case13 expr | case14 expr => simp [evalCondition, tri, evalPredicateTri, evalValue_withConditions]
  | case15 expr low high =>
    simp only [mem_cons, not_mem_nil, or_false, forall_eq_or_imp, forall_eq] at h
    simp only [evalCondition, tri, evalPredicateTri, evalValue_withConditions, h]
    rcases opHolds .gte _ with _ | _ <;> rcases opHolds .lte _ with _ | _ <;> simp
  | case16 expr list =>
    simp only [mem_cons, forall_eq_or_imp] at h
    have hnull : (list.map (evalCondition ex rows row schema)).any Value.isNull = false := by
      simpa using h.2
    rw [tri_inList, evalCondition, evalConditions_eq, inValues, h.1, hnull]
    rcases found _ _ with _ | _ <;> simp

def plain : Expressions Unit Unit := ⟨fun _ _ _ => .null,fun _ _ => false,fun _ _ => false⟩

def oneRow (v : Value Unit) (_ : Unit) : List (List (Value Unit)) := [[v]]

def emptySchema : Schema (Value Unit) := ⟨"t",[],[],[]⟩

def one : Expr Unit := .literal (.integer 1)

/-- A subquery is searched as the list of its values is, exactly if it gives none,
or if the value sought is not NULL and is found or no NULL is in the way. -/
theorem in_subquery_iff (expr : Expr Q) (select : Q) (list : List (Expr Q))
    (hlist : list.map (evalCondition ex rows row schema) = (rows select).filterMap List.head?) :
    (tri ex rows row schema (.inSubquery expr select) =
        (if list = [] then some false else tri ex rows row schema (.inList expr list)) ∧
      tri ex rows row schema (.unaryOp .not (.inSubquery expr select)) =
        (if list = [] then some false else tri ex rows row schema (.inList expr list)).map (!·)) ↔
    list = [] ∨ (evalCondition ex rows row schema expr).isNull = false ∧
      ((∃ w ∈ list, (evalCondition ex rows row schema expr).compare
          (evalCondition ex rows row schema w) = some .eq) ∨
        ∀ w ∈ list, (evalCondition ex rows row schema w).isNull = false) := by
  have hin : tri ex rows row schema (.inSubquery expr select) =
      some (found (evalCondition ex rows row schema expr)
        (list.map (evalCondition ex rows row schema))) := by
    rw [hlist, tri, evalPredicateTri.eq_def]
    dsimp only
    rw [evalValue_withConditions, evalCondition]
    rfl
  have hnot : ∀ o : Option Bool, tri ex rows row schema (.inSubquery expr select) = o →
      tri ex rows row schema (.unaryOp .not (.inSubquery expr select)) = o.map (!·) := by
    rintro o rfl
    rw [tri, evalPredicateTri]
    rfl
  rw [and_iff_left_of_imp (hnot _), hin, tri_inList, inValues]
  by_cases hnil : list = []
  · simp [hnil, found]
  rw [if_neg hnil, or_iff_right hnil]
  cases hv : (evalCondition ex rows row schema expr).isNull with
  | true => simp
  | false =>
    have hmem : found (evalCondition ex rows row schema expr)
        (list.map (evalCondition ex rows row schema)) = true ↔ ∃ w ∈ list,
          (evalCondition ex rows row schema expr).compare (evalCondition ex rows row schema w) =
            some .eq := by
      simp [found]
    rw [← hmem]
    cases found _ _ <;> simp

theorem in_subquery_one : [one].map (evalCondition plain (oneRow (.int64 1)) [] emptySchema) =
        (oneRow (.int64 1) ()).filterMap List.head? ∧
      tri plain (oneRow (.int64 1)) [] emptySchema (.inSubquery one ()) =
        (if [one] = [] then some false
          else tri plain (oneRow (.int64 1)) [] emptySchema (.inList one [one])) :=
  ⟨rfl,((in_subquery_iff one () [one] rfl).mpr
    (.inr ⟨rfl,.inl ⟨one,mem_singleton_self one,rfl⟩⟩)).1⟩

theorem not_in_subquery_true : (oneRow .null ()).filterMap List.head? = [.null] ∧
      tri plain (oneRow .null) [] emptySchema (.unaryOp .not (.inSubquery one ())) = some true ∧
      tri plain (oneRow .null) [] emptySchema (.unaryOp .not (.inList one [.literal .null])) = none :=
  ⟨rfl,rfl,rfl⟩

end

section
variable {Q J : Type} (ex : Expressions Q J) (row : List (Value J)) (schema : Schema (Value J))

lemma inValues_snoc (p x j : Expr Q) (items : List (Value J))
    (hp : evalPredicateTri ex row schema p = inValues (evalValue ex x row schema) items) :
    evalPredicateTri ex row schema (.binaryOp p .or (.binaryOp x .eq j)) =
      inValues (evalValue ex x row schema) (items++[evalValue ex j row schema]) := by
  rw [evalPredicateTri, hp, evalPredicateTri, inValues, inValues]
  generalize evalValue ex x row schema = v
  generalize evalValue ex j row schema = w
  have hfound : found v (items++[w]) = (found v items || v.compare w == some .eq) := by simp [found]
  have hany : (items++[w]).any Value.isNull = (items.any Value.isNull || w.isNull) := by simp
  have hnull := compare_null (v := v) (w := w)
  rw [hfound, hany]
  simp only [opHolds_eq]
  revert hnull
  cases v.isNull <;> cases w.isNull <;> cases v.compare w == some .eq <;> cases found v items <;>
    cases items.any Value.isNull <;> simp

lemma or_chain (x : Expr Q) (list : List (Expr Q)) (p : Expr Q) (items : List (Value J))
    (hp : evalPredicateTri ex row schema p = inValues (evalValue ex x row schema) items) :
    evalPredicateTri ex row schema (list.foldl (fun p j => .binaryOp p .or (.binaryOp x .eq j)) p) =
      inValues (evalValue ex x row schema)
        (items++list.map (fun w => evalValue ex w row schema)) := by
  induction list generalizing p items with
  | nil => simpa using hp
  | cons j list ih =>
    have hnext := ih _ _ (inValues_snoc ex row schema p x j items hp)
    rwa [append_assoc] at hnext

/-- The laws of three-valued logic. -/
theorem three_valued_laws :
    (∀ p q : Expr Q, evalPredicateTri ex row schema (.unaryOp .not (.binaryOp p .and q)) =
      evalPredicateTri ex row schema (.binaryOp (.unaryOp .not p) .or (.unaryOp .not q))) ∧
    (∀ x lo hi : Expr Q, evalPredicateTri ex row schema (.between x lo hi) =
      evalPredicateTri ex row schema (.binaryOp (.binaryOp x .gte lo) .and (.binaryOp x .lte hi))) ∧
    ∀ (x i : Expr Q) (list : List (Expr Q)), evalPredicateTri ex row schema (.inList x (i::list)) =
      evalPredicateTri ex row schema
        (list.foldl (fun p j => .binaryOp p .or (.binaryOp x .eq j)) (.binaryOp x .eq i)) := by
  refine ⟨fun p q => ?_,fun x lo hi => ?_,fun x i list => ?_⟩
  · simp only [evalPredicateTri]
    rcases evalPredicateTri ex row schema p with _ | _ | _ <;>
      rcases evalPredicateTri ex row schema q with _ | _ | _ <;> rfl
  · simp only [evalPredicateTri]
    cases (evalValue ex x row schema).isNull <;> cases (evalValue ex lo row schema).isNull <;>
      cases (evalValue ex hi row schema).isNull <;> cases opHolds .gte _ <;>
        cases opHolds .lte _ <;> rfl
  rw [inList_values]
  refine (or_chain ex row schema x list _ [evalValue ex i row schema] ?_).symm
  have hnull := compare_null (v := evalValue ex x row schema) (w := evalValue ex i row schema)
  rw [evalPredicateTri, inValues, found]
  simp only [any_cons, any_nil, Bool.or_false, opHolds_eq]
  revert hnull
  cases (evalValue ex x row schema).isNull <;> cases (evalValue ex i row schema).isNull <;>
    cases _ == some Ordering.eq <;> simp

end

end ByteDB.Tuple
