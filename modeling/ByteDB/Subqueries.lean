import ByteDB.Integers

/-!
# Subqueries and the current transaction

A subquery is executed by a call of `execute` of its own, in the transaction
that a cell of the thread names at that time. Every call of `execute` sets the
cell when it begins and clears it when it returns. `run` follows the cell;
`runPassed` is what is meant, with the transaction passed on as an argument.
-/

set_option autoImplicit false

namespace ByteDB.Subquery
open ByteDB.Assoc List

abbrev Answer (V : Type) := Except QueryError (ExecutionResult V)

/-- What a call of `execute` does, up to its answer: it reads and changes the
state, calls `execute` again with its own transaction (for a CTE, a derived
table, a side of a UNION), and evaluates subqueries, one for every outer row.
What follows depends on what has been found. -/
inductive Prog (σ V : Type) where
  | done (r : Answer V)
  | access (f : σ → σ) (k : σ → Prog σ V)
  | execute (body : Prog σ V) (k : Answer V → Prog σ V)
  | subquery (key : ℕ) (constant : Bool) (body : Option TxnId → Prog σ V)
      (k : List (List V) → Prog σ V)

/-- The cells of the thread and the cache. `ran` is no part of the source: the
transactions in which subqueries have been executed. -/
structure Cells (V : Type) where
  currentTxnId : Option TxnId
  depth : ℕ
  cache : Map ℕ (List (List V))
  ran : List (Option TxnId)

section
variable {σ V : Type}

def rowsOf : Answer V → List (List V)
  | .ok (.rows _ rows) => rows
  | _ => []

/-- The beginning of `execute`; at the top level the cache is cleared. -/
def enter (txnId : Option TxnId) (c : Cells V) : Cells V :=
  { c with currentTxnId := txnId, cache := if c.depth = 0 then ∅ else c.cache }

def leave (c : Cells V) : Cells V := { c with currentTxnId := none }

def cached (key depth : ℕ) (cache : Map ℕ (List (List V))) : Option (List (List V)) :=
  if depth = 0 then cache.lookup key else none

def remember (key : ℕ) (constant : Bool) (depth : ℕ) (rows : List (List V))
    (cache : Map ℕ (List (List V))) : Map ℕ (List (List V)) :=
  if depth = 0 ∧ constant then cache.insert key rows else cache

/-- `run_subquery` before its call of `execute`. -/
def deeper (txnId : Option TxnId) (c : Cells V) : Cells V :=
  { c with depth := c.depth+1, ran := c.ran++[txnId] }

/-- `run_subquery` after its call, and the cache of `eval_subquery_rows`. -/
def shallower (key : ℕ) (constant : Bool) (rows : List (List V)) (c : Cells V) : Cells V :=
  { c with depth := c.depth-1, cache := remember key constant (c.depth-1) rows c.cache }

/-- The body of a call of `execute` with the transaction. -/
def run (txnId : Option TxnId) : Prog σ V → Cells V → σ → Answer V × Cells V × σ
  | .done r, c, s => (r,c,s)
  | .access f k, c, s => run txnId (k s) c (f s)
  | .execute body k, c, s =>
    let out := run txnId body (enter txnId c) s
    run txnId (k out.1) (leave out.2.1) out.2.2
  | .subquery key constant body k, c, s =>
    match cached key c.depth c.cache with
    | some rows => run txnId (k rows) c s
    | none =>
      let tid := c.currentTxnId
      let out := run tid (body tid) (enter tid (deeper tid c)) s
      let rows := rowsOf out.1
      run txnId (k rows) (shallower key constant rows (leave out.2.1)) out.2.2

def execute (txnId : Option TxnId) (p : Prog σ V) (c : Cells V) (s : σ) : Answer V × Cells V × σ :=
  let out := run txnId p (enter txnId c) s
  (out.1,leave out.2.1,out.2.2)

def idle (cache : Map ℕ (List (List V))) : Cells V where
  currentTxnId := none
  depth := 0
  cache := cache
  ran := []

end

section
variable {σ V : Type}

/-- `fresh`: no call of `execute` has returned since the body began. `inTime`:
every subquery so far was executed in a fresh body. -/
structure Marks (V : Type) where
  depth : ℕ
  cache : Map ℕ (List (List V))
  fresh : Bool
  inTime : Bool

def Marks.start : Marks V where
  depth := 0
  cache := ∅
  fresh := true
  inTime := true

def Marks.body (m : Marks V) : Marks V :=
  { m with fresh := true, cache := if m.depth = 0 then ∅ else m.cache }

def Marks.deeper (m : Marks V) : Marks V :=
  { m with depth := m.depth+1, inTime := m.inTime && m.fresh }

def Marks.shallower (key : ℕ) (constant : Bool) (rows : List (List V)) (m : Marks V) : Marks V :=
  { m with
    fresh := false
    depth := m.depth-1
    cache := remember key constant (m.depth-1) rows m.cache }

/-- The run in which every call of `execute` gets the transaction. -/
def runPassed (txnId : Option TxnId) : Prog σ V → Marks V → σ → Answer V × Marks V × σ
  | .done r, m, s => (r,m,s)
  | .access f k, m, s => runPassed txnId (k s) m (f s)
  | .execute body k, m, s =>
    let out := runPassed txnId body m.body s
    runPassed txnId (k out.1) { out.2.1 with fresh := false } out.2.2
  | .subquery key constant body k, m, s =>
    match cached key m.depth m.cache with
    | some rows => runPassed txnId (k rows) m s
    | none =>
      let out := runPassed txnId (body txnId) m.deeper.body s
      let rows := rowsOf out.1
      runPassed txnId (k rows) (out.2.1.shallower key constant rows) out.2.2

lemma runPassed_late (txnId : Option TxnId) (p : Prog σ V) (m : Marks V) (s : σ)
    (h : m.inTime = false) : (runPassed txnId p m s).2.1.inTime = false := by
  induction p generalizing m s with
  | done r => exact h
  | access f k ih => exact ih s m (f s) h
  | execute body k ihb ihk =>
    rw [runPassed]
    exact ihk _ _ _ (ihb _ _ h)
  | subquery key constant body k ihb ihk =>
    rw [runPassed]
    split
    · exact ihk _ _ _ h
    · refine ihk _ _ _ (ihb _ _ _ ?_)
      rw [Marks.body, Marks.deeper, h]
      rfl

lemma run_ran (txnId : Option TxnId) (p : Prog σ V) (c : Cells V) (s : σ) {u : Option TxnId}
    (h : u ∈ c.ran) : u ∈ (run txnId p c s).2.1.ran := by
  induction p generalizing txnId c s with
  | done r => exact h
  | access f k ih => exact ih s txnId c (f s) h
  | execute body k ihb ihk =>
    rw [run]
    exact ihk _ _ _ _ (ihb _ _ _ h)
  | subquery key constant body k ihb ihk =>
    rw [run]
    split
    · exact ihk _ _ _ _ h
    · exact ihk _ _ _ _ (ihb _ _ _ _ (mem_append_left _ h))

/-- The cells are those of the run in which the transaction is passed on; the
cell of the thread still has it as long as the body is fresh. -/
structure Agrees (t : TxnId) (c : Cells V) (m : Marks V) : Prop where
  current : c.currentTxnId = if m.fresh then some t else none
  depth : c.depth = m.depth
  cache : c.cache = m.cache
  ran : ∀ u ∈ c.ran, u = some t

variable {t : TxnId} {c : Cells V} {m : Marks V}

lemma Agrees.enter (h : Agrees t c m) : Agrees t (enter (some t) c) m.body where
  current := rfl
  depth := h.depth
  cache := by rw [Subquery.enter, Marks.body, h.depth, h.cache]
  ran := h.ran

lemma Agrees.deeper (h : Agrees t c m) : Agrees t (deeper (some t) c) m.deeper where
  current := h.current
  depth := congrArg (·+1) h.depth
  cache := h.cache
  ran u hu := by
    rcases mem_append.mp hu with hu | hu
    · exact h.ran u hu
    · exact mem_singleton.mp hu

lemma Agrees.shallower (h : Agrees t c m) (key : ℕ) (constant : Bool) (rows : List (List V)) :
    Agrees t (shallower key constant rows (leave c)) (m.shallower key constant rows) where
  current := rfl
  depth := congrArg (·-1) h.depth
  cache := by
    rw [Subquery.shallower, Marks.shallower, leave]
    rw [h.depth, h.cache]
  ran := h.ran

lemma run_agrees (t : TxnId) (p : Prog σ V) (s : σ) (h : Agrees t c m) (htime : m.inTime = true) :
    ((runPassed (some t) p m s).2.1.inTime = true ∧
      (run (some t) p c s).1 = (runPassed (some t) p m s).1 ∧
      (run (some t) p c s).2.2 = (runPassed (some t) p m s).2.2 ∧
      Agrees t (run (some t) p c s).2.1 (runPassed (some t) p m s).2.1) ∨
    ((runPassed (some t) p m s).2.1.inTime = false ∧ none ∈ (run (some t) p c s).2.1.ran) := by
  induction p generalizing c m s with
  | done r => exact .inl ⟨htime,rfl,rfl,h⟩
  | access f k ih => exact ih s (f s) h htime
  | execute body k ihb ihk =>
    rw [run, runPassed]
    rcases ihb s h.enter htime with ⟨ht,hr,hs,ha⟩ | ⟨ht,hlost⟩
    · rw [hr, hs]
      exact ihk _ _ ⟨rfl,ha.depth,ha.cache,ha.ran⟩ ht
    · exact .inr ⟨runPassed_late _ _ _ _ ht,run_ran _ _ _ _ hlost⟩
  | subquery key constant body k ihb ihk =>
    have hcached : cached key c.depth c.cache = cached key m.depth m.cache := by
      rw [h.depth, h.cache]
    rw [run, runPassed, hcached]
    cases cached key m.depth m.cache with
    | some rows => exact ihk rows s h htime
    | none =>
      dsimp only
      cases hfresh : m.fresh with
      | true =>
        rw [h.current, hfresh, if_pos rfl]
        have htime' : m.deeper.inTime = true := by rw [Marks.deeper, htime, hfresh]; rfl
        rcases ihb (some t) s h.deeper.enter htime' with ⟨ht,hr,hs,ha⟩ | ⟨ht,hlost⟩
        · rw [hr, hs]
          exact ihk _ _ (ha.shallower key constant _) ht
        · exact .inr ⟨runPassed_late _ _ _ _ ht,run_ran _ _ _ _ hlost⟩
      | false =>
        rw [h.current, hfresh, if_neg (by simp)]
        refine .inr ⟨runPassed_late _ _ _ _ (runPassed_late _ _ _ _ ?_),
          run_ran _ _ _ _ (run_ran _ _ _ _ ?_)⟩
        · rw [Marks.body, Marks.deeper, hfresh]
          exact Bool.and_false _
        · exact mem_append_right _ (mem_singleton_self none)

end

section
variable {V E : Type} [Codec V]

/-- A condition on a row, with what is done with its value. -/
abbrev Condition (σ V : Type) := List V → (Option Bool → Prog σ V) → Prog σ V

def plain {σ : Type} (f : List V → Option Bool) : Condition σ V := fun row k => k (f row)

def existsRows {σ : Type} (key : ℕ) (constant : Bool)
    (sub : List V → Option TxnId → Prog σ V) : Condition σ V :=
  fun row k => .subquery key constant (sub row) (fun rows => k (some (!rows.isEmpty)))

def filterRows {σ : Type} (cond : Condition σ V) :
    List (List V) → (List (List V) → Prog σ V) → Prog σ V
  | [], k => k []
  | row::rows, k => cond row (fun b => filterRows cond rows (fun kept =>
      k (if b.getD false then row::kept else kept)))

def rowsFor (e : Engine V E) (txnId : Option TxnId) (table : String) : List (List V) :=
  match e.tables.lookup table with
  | none => []
  | some td =>
    match td.readVisibleEntries e.tm txnId with
    | .error _ => []
    | .ok entries => entries.filterMap (fun entry => Codec.decodeRow entry.2)

def select (columns : List String) (table : String) (cond : Condition (Engine V E) V)
    (txnId : Option TxnId) : Prog (Engine V E) V :=
  .access id (fun e => filterRows cond (rowsFor e txnId table) (fun rows =>
    .done (.ok (.rows columns rows))))

end

section
open Integers

/-- Two transactions are active, and the second has inserted the row `(2,2)`
into the empty table `b`. -/
def twoTransactions : Engine Value Expr :=
  Engine.executeAll Expr.evaluator (fun _ => 0)
    (engine (AList.insert "a" (table (schema "a" []) [] [(1,1), (2,2)])
      (AList.insert "b" (table (schema "b" []) [] []) ∅)) none)
    [(.begin none,none), (.begin none,none), (.dml (.insert (insertInto "b" [(2,2)])),some 2)]

def correlated (txnId : Option TxnId) : Prog (Engine Value Expr) Value :=
  select ["id", "v"] "a" (existsRows 0 false (fun row =>
    select ["id", "v"] "b" (plain (fun inner => some (inner.getLast? = row.getLast?))))) txnId

end

end ByteDB.Subquery
