import ByteDB.Integers

/-!
# Tables of a SELECT

The result of a CTE or of a derived table is put into the map of the tables
under its name, and taken out after the main SELECT. A SELECT that fails before
that leaves it there, and a name that a table has already is taken over. The
map is compared with a run that keeps the tables of the map apart from those
that the statement adds.
-/

set_option autoImplicit false

namespace ByteDB.Cte
open List Function

/-- What a statement does with the map of the tables. A table has an identity;
every `put` makes a new one. -/
structure Store (S D : Type) where
  find : S → String → Option (ℕ × D)
  put : String → D → S → S
  remove : String → S → S

/-- The execution of a SELECT, up to its answer: it looks at the tables, gets a
table by its name, and executes SELECTs with their CTEs and derived tables
(also for subqueries and for the sides of set operations). What follows depends
on what has been found. -/
inductive Prog (D R : Type) where
  | done (r : Except QueryError R)
  | look (k : (String → Option (ℕ × D)) → Prog D R)
  | getTable (name : String) (k : Option (ℕ × D) → Prog D R)
  | select (n : ℕ) (names : Fin n → String) (queries : Fin n → Prog D R) (main : Prog D R)
      (k : Except QueryError R → Prog D R)

section
variable {S D R : Type}

/-- The loop over the CTEs: an error ends the statement. -/
def materializeAll (put : String → R → S → S) {n : ℕ} (names : Fin n → String)
    (runs : Fin n → S → Except QueryError R × S) : List (Fin n) → S → Except QueryError Unit × S
  | [], s => (.ok (),s)
  | i::is, s =>
    match runs i s with
    | (.error e,s) => (.error e,s)
    | (.ok r,s) => materializeAll put names runs is (put (names i) r s)

def removeAll (st : Store S D) {n : ℕ} (names : Fin n → String) (s : S) : S :=
  (List.finRange n).foldl (fun s i => st.remove (names i) s) s

variable (st : Store S D) (reload : String → Option D) (materialize : String → R → D)

def run : Prog D R → S → Except QueryError R × S
  | .done r, s => (r,s)
  | .look k, s => run (k (st.find s)) s
  | .getTable name k, s =>
    match st.find s name, reload name with
    | some t, _ => run (k (some t)) s
    | none, none => run (k none) s
    | none, some d =>
      let s := st.put name d s
      run (k (st.find s name)) s
  | .select n names queries main k, s =>
    match materializeAll (fun name r => st.put name (materialize name r)) names
        (fun i => run (queries i)) (List.finRange n) s with
    | (.error e,s) => run (k (.error e)) s
    | (.ok _,s) =>
      let out := run main s
      run (k out.1) (removeAll st names out.2)

end

section
variable {S D R : Type} {st : Store S D} {reload : String → Option D} {materialize : String → R → D}

section
variable {P : S → Prop} {put : String → R → S → S} {n : ℕ} {names : Fin n → String}
  {runs : Fin n → S → Except QueryError R × S}

lemma materializeAll_cons (hput : ∀ name r s, P s → P (put name r s)) (i : Fin n)
    (is : List (Fin n)) {s : S} (hi : P (runs i s).2)
    (hrest : ∀ s, P s → P (materializeAll put names runs is s).2) :
    P (materializeAll put names runs (i::is) s).2 := by
  rw [materializeAll]
  cases hr : runs i s with
  | mk r s' =>
    rw [hr] at hi
    cases r with
    | error e => exact hi
    | ok r => exact hrest _ (hput _ _ _ hi)

lemma materializeAll_invariant (hput : ∀ name r s, P s → P (put name r s))
    (hruns : ∀ i s, P s → P (runs i s).2) (is : List (Fin n)) {s : S} (hs : P s) :
    P (materializeAll put names runs is s).2 := by
  induction is generalizing s with
  | nil => exact hs
  | cons i is ih => exact materializeAll_cons hput i is (hruns i s hs) (fun s hs => ih hs)

end

lemma removeAll_invariant {P : S → Prop} (hremove : ∀ name s, P s → P (st.remove name s))
    {n : ℕ} (names : Fin n → String) {s : S} (hs : P s) : P (removeAll st names s) :=
  foldlRecOn _ _ hs (fun s hs _ _ => hremove _ s hs)

lemma run_invariant {P : S → Prop} (hput : ∀ name d s, P s → P (st.put name d s))
    (hremove : ∀ name s, P s → P (st.remove name s)) (p : Prog D R) {s : S} (hs : P s) :
    P (run st reload materialize p s).2 := by
  induction p generalizing s with
  | done r => exact hs
  | look k ih => exact ih _ hs
  | getTable name k ih =>
    rw [run]
    split
    · exact ih _ hs
    · exact ih _ hs
    · exact ih _ (hput _ _ _ hs)
  | select n names queries main k ihq ihm ihk =>
    have hall : P (materializeAll (fun name r => st.put name (materialize name r)) names
        (fun i => run st reload materialize (queries i)) (finRange n) s).2 :=
      materializeAll_invariant (fun name r s hs => hput _ _ s hs) (fun i s hs => ihq i hs) _ hs
    rw [run]
    split
    · rename_i e s' heq
      rw [heq] at hall
      exact ihk _ hall
    · rename_i u s' heq
      rw [heq] at hall
      exact ihk _ (removeAll_invariant hremove names (ihm hall))

end

section
variable {S S' D R : Type} {st : Store S D} {st' : Store S' D} {reload : String → Option D}
  {materialize : String → R → D}

/-- Two stores of which each operation keeps them related, or else leaves both
of them in states that no operation leads out of. -/
structure Related (st : Store S D) (st' : Store S' D) (Rel : S → S' → Prop) (L : S → Prop)
    (L' : S' → Prop) : Prop where
  find : ∀ s s', Rel s s' → st.find s = st'.find s'
  put : ∀ name d s s', Rel s s' → Rel (st.put name d s) (st'.put name d s') ∨
    L (st.put name d s) ∧ L' (st'.put name d s')
  remove : ∀ name s s', Rel s s' → Rel (st.remove name s) (st'.remove name s') ∨
    L (st.remove name s) ∧ L' (st'.remove name s')
  put_left : ∀ name d s, L s → L (st.put name d s)
  remove_left : ∀ name s, L s → L (st.remove name s)
  put_right : ∀ name d s, L' s → L' (st'.put name d s)
  remove_right : ∀ name s, L' s → L' (st'.remove name s)

variable {Rel : S → S' → Prop} {L : S → Prop} {L' : S' → Prop}

def Together (Rel : S → S' → Prop) (L : S → Prop) (L' : S' → Prop) {α : Type} (o : α × S)
    (o' : α × S') : Prop :=
  o.1 = o'.1 ∧ Rel o.2 o'.2 ∨ L o.2 ∧ L' o'.2

variable {s : S} {s' : S'}

lemma Related.removeAll (h : Related st st' Rel L L') {n : ℕ} (names : Fin n → String) (hs : Rel s s') :
    Rel (removeAll st names s) (removeAll st' names s') ∨
      L (removeAll st names s) ∧ L' (removeAll st' names s') := by
  have hall : ∀ (is : List (Fin n)) s s', (Rel s s' ∨ L s ∧ L' s') →
      Rel (is.foldl (fun s i => st.remove (names i) s) s)
        (is.foldl (fun s i => st'.remove (names i) s) s') ∨
      L (is.foldl (fun s i => st.remove (names i) s) s) ∧
        L' (is.foldl (fun s i => st'.remove (names i) s) s') := by
    intro is
    induction is with
    | nil => exact fun s s' hs => hs
    | cons i is ih =>
      intro s s' hs
      refine ih _ _ ?_
      rcases hs with hs | ⟨hl,hl'⟩
      · exact h.remove _ s s' hs
      · exact .inr ⟨h.remove_left _ s hl,h.remove_right _ s' hl'⟩
  exact hall _ s s' (.inl hs)

lemma Related.materializeAll (h : Related st st' Rel L L') {n : ℕ} (names : Fin n → String)
    {runs : Fin n → S → Except QueryError R × S} {runs' : Fin n → S' → Except QueryError R × S'}
    (hruns : ∀ i s s', Rel s s' → Together Rel L L' (runs i s) (runs' i s'))
    (hleft : ∀ i s, L s → L (runs i s).2) (hright : ∀ i s, L' s → L' (runs' i s).2)
    (is : List (Fin n)) (hs : Rel s s') : Together Rel L L'
      (materializeAll (fun name r => st.put name (materialize name r)) names runs is s)
      (materializeAll (fun name r => st'.put name (materialize name r)) names runs' is s') := by
  have hputs : ∀ name r s, L s → L (st.put name (materialize name r) s) :=
    fun name r s hs => h.put_left _ _ s hs
  have hputs' : ∀ name r s, L' s → L' (st'.put name (materialize name r) s) :=
    fun name r s hs => h.put_right _ _ s hs
  induction is generalizing s s' with
  | nil => exact .inl ⟨rfl,hs⟩
  | cons i is ih =>
    rcases hruns i s s' hs with ⟨heq,hrel⟩ | ⟨hl,hl'⟩
    · rw [Cte.materializeAll, Cte.materializeAll]
      cases hr : runs i s with
      | mk r s1 =>
        cases hr' : runs' i s' with
        | mk r' s1' =>
          rw [hr, hr'] at heq hrel
          cases heq
          cases r with
          | error e => exact .inl ⟨rfl,hrel⟩
          | ok a =>
            rcases h.put (names i) (materialize (names i) a) s1 s1' hrel with hrel | ⟨hl,hl'⟩
            · exact ih hrel
            · exact .inr ⟨materializeAll_invariant hputs hleft is hl,
                materializeAll_invariant hputs' hright is hl'⟩
    · exact .inr ⟨materializeAll_cons hputs i is hl
        (fun s hs => materializeAll_invariant hputs hleft is hs),
        materializeAll_cons hputs' i is hl'
        (fun s hs => materializeAll_invariant hputs' hright is hs)⟩

lemma Related.run (h : Related st st' Rel L L') (p : Prog D R) (hs : Rel s s') :
    Together Rel L L' (run st reload materialize p s) (run st' reload materialize p s') := by
  have hleft : ∀ (p : Prog D R) s, L s → L (Cte.run st reload materialize p s).2 :=
    fun p s hs => run_invariant h.put_left h.remove_left p hs
  have hright : ∀ (p : Prog D R) s, L' s → L' (Cte.run st' reload materialize p s).2 :=
    fun p s hs => run_invariant h.put_right h.remove_right p hs
  induction p generalizing s s' with
  | done r => exact .inl ⟨rfl,hs⟩
  | look k ih =>
    rw [Cte.run, Cte.run, h.find s s' hs]
    exact ih _ hs
  | getTable name k ih =>
    rw [Cte.run, Cte.run, h.find s s' hs]
    split
    · exact ih _ hs
    · exact ih _ hs
    rename_i d _ _
    rcases h.put name d s s' hs with hrel | ⟨hl,hl'⟩
    · dsimp only
      rw [h.find _ _ hrel]
      exact ih _ hrel
    · exact .inr ⟨hleft _ _ hl,hright _ _ hl'⟩
  | select n names queries main k ihq ihm ihk =>
    have hall : Together Rel L L'
        (Cte.materializeAll (fun name r => st.put name (materialize name r)) names
          (fun i => Cte.run st reload materialize (queries i)) (finRange n) s)
        (Cte.materializeAll (fun name r => st'.put name (materialize name r)) names
          (fun i => Cte.run st' reload materialize (queries i)) (finRange n) s') :=
      h.materializeAll names (fun i s s' hs => ihq i hs) (fun i s hl => hleft _ s hl)
        (fun i s hl => hright _ s hl) (finRange n) hs
    rw [Cte.run, Cte.run]
    revert hall
    generalize Cte.materializeAll _ names _ (finRange n) s = o
    generalize Cte.materializeAll _ names _ (finRange n) s' = o'
    obtain ⟨r,s1⟩ := o
    obtain ⟨r',s1'⟩ := o'
    rintro (⟨heq,hrel⟩ | ⟨hl,hl'⟩)
    · cases heq
      cases r with
      | error e => exact ihk _ hrel
      | ok u =>
        dsimp only
        rcases ihm hrel with ⟨hres,hrel⟩ | ⟨hl,hl'⟩
        · rw [hres]
          rcases h.removeAll names hrel with hrel | ⟨hl,hl'⟩
          · exact ihk _ hrel
          · exact .inr ⟨hleft _ _ hl,hright _ _ hl'⟩
        · exact .inr ⟨hleft _ _ (removeAll_invariant h.remove_left names hl),
            hright _ _ (removeAll_invariant h.remove_right names hl')⟩
    · refine .inr ⟨?_,?_⟩
      · cases r with
        | error e => exact hleft _ _ hl
        | ok u => exact hleft _ _ (removeAll_invariant h.remove_left names (hleft _ _ hl))
      · cases r' with
        | error e => exact hright _ _ hl'
        | ok u => exact hright _ _ (removeAll_invariant h.remove_right names (hright _ _ hl'))

end

section
variable {D R : Type}

/-- The map of the tables; the identities that have been given are below `next`. -/
structure Tables (D : Type) where
  find : String → Option (ℕ × D)
  next : ℕ
  given : ∀ name t, find name = some t → t.1 < next

def Tables.put (name : String) (d : D) (m : Tables D) : Tables D where
  find := Function.update m.find name (some (m.next,d))
  next := m.next+1
  given l t h := by
    by_cases hl : l = name
    · subst hl
      rw [Function.update_self] at h
      cases h
      exact Nat.lt_succ_self _
    · rw [Function.update_of_ne hl] at h
      exact (m.given l t h).trans (Nat.lt_succ_self _)

def Tables.remove (name : String) (m : Tables D) : Tables D where
  find := Function.update m.find name none
  next := m.next
  given l t h := by
    by_cases hl : l = name
    · subst hl
      rw [Function.update_self] at h
      cases h
    · rw [Function.update_of_ne hl] at h
      exact m.given l t h

@[simp] lemma Tables.put_find (name l : String) (d : D) (m : Tables D) :
    (m.put name d).find l = if l = name then some (m.next,d) else m.find l :=
  update_apply m.find name (some (m.next,d)) l

@[simp] lemma Tables.remove_find (name l : String) (m : Tables D) :
    (m.remove name).find l = if l = name then none else m.find l :=
  update_apply m.find name none l

def tables (D : Type) : Store (Tables D) D where
  find := Tables.find
  put := Tables.put
  remove := Tables.remove

/-- What a statement adds to a map that stays as it is. `clash`: it has taken
over a name of the map. -/
structure Added (D : Type) where
  find : String → Option (ℕ × D)
  next : ℕ
  clash : Bool

namespace Added

variable (base : Tables D)

def start : Added D where
  find _ := none
  next := base.next
  clash := false

def put (name : String) (d : D) (a : Added D) : Added D where
  find := Function.update a.find name (some (a.next,d))
  next := a.next+1
  clash := a.clash || (base.find name).isSome

def remove (name : String) (a : Added D) : Added D := { a with
    find := Function.update a.find name none
    clash := a.clash || (base.find name).isSome }

@[simp] lemma put_find (name l : String) (d : D) (a : Added D) :
    (a.put base name d).find l = if l = name then some (a.next,d) else a.find l :=
  update_apply a.find name (some (a.next,d)) l

@[simp] lemma remove_find (name l : String) (a : Added D) :
    (a.remove base name).find l = if l = name then none else a.find l :=
  update_apply a.find name none l

end Added

/-- The tables that are added are looked up first. -/
def apart (base : Tables D) : Store (Added D) D where
  find a name := (a.find name).or (base.find name)
  put := Added.put base
  remove := Added.remove base

structure Beside (base m : Tables D) (a : Added D) : Prop where
  find : ∀ name, m.find name = (a.find name).or (base.find name)
  next : m.next = a.next
  later : base.next ≤ m.next
  disjoint : ∀ name, (base.find name).isSome = true → a.find name = none
  clash : a.clash = false

def Lost (base m : Tables D) : Prop := base.next ≤ m.next ∧ ∃ name, (base.find name).isSome = true ∧
    ∀ t, m.find name = some t → base.next ≤ t.1

variable {base m : Tables D}

lemma Lost.put (h : Lost base m) (name : String) (d : D) : Lost base (m.put name d) := by
  obtain ⟨hle,lost,hsome,hnew⟩ := h
  refine ⟨hle.trans (Nat.le_succ _),lost,hsome,fun t ht => ?_⟩
  rw [Tables.put_find] at ht
  split at ht
  · cases ht
    exact hle
  · exact hnew t ht

lemma Lost.remove (h : Lost base m) (name : String) : Lost base (m.remove name) := by
  obtain ⟨hle,lost,hsome,hnew⟩ := h
  refine ⟨hle,lost,hsome,fun t ht => ?_⟩
  rw [Tables.remove_find] at ht
  split at ht
  · cases ht
  · exact hnew t ht

lemma Beside.put {a : Added D} (h : Beside base m a) (name : String)
    (d : D) : Beside base (m.put name d) (a.put base name d) ∨
      Lost base (m.put name d) ∧ (a.put base name d).clash = true := by
  cases hb : (base.find name).isSome with
  | true =>
    refine .inr ⟨⟨h.later.trans (Nat.le_succ _),name,hb,fun t ht => ?_⟩,?_⟩
    · rw [Tables.put_find, if_pos rfl] at ht
      cases ht
      exact h.later
    · rw [Added.put, hb]
      exact Bool.or_true _
  | false =>
    refine .inl ⟨fun l => ?_,congrArg (·+1) h.next,h.later.trans (Nat.le_succ _), fun l hl => ?_,?_⟩
    · rw [Tables.put_find, Added.put_find, h.next]
      split
      · rfl
      · exact h.find l
    · have hne : l ≠ name := by
        rintro rfl
        rw [hb] at hl
        cases hl
      rw [Added.put_find, if_neg hne]
      exact h.disjoint l hl
    · rw [Added.put, hb, h.clash]
      rfl

lemma Beside.remove {a : Added D} (h : Beside base m a) (name : String) :
    Beside base (m.remove name) (a.remove base name) ∨
      Lost base (m.remove name) ∧ (a.remove base name).clash = true := by
  cases hb : (base.find name).isSome with
  | true =>
    refine .inr ⟨⟨h.later,name,hb,fun t ht => ?_⟩,?_⟩
    · rw [Tables.remove_find, if_pos rfl] at ht
      cases ht
    · rw [Added.remove, hb]
      exact Bool.or_true _
  | false =>
    refine .inl ⟨fun l => ?_,h.next,h.later,fun l hl => ?_,?_⟩
    · rw [Tables.remove_find, Added.remove_find]
      split
      · rename_i heq
        rw [heq, Option.none_or]
        exact (Option.not_isSome_iff_eq_none.mp (by simp [hb])).symm
      · exact h.find l
    · rw [Added.remove_find]
      split
      · rfl
      · exact h.disjoint l hl
    · rw [Added.remove, hb, h.clash]
      rfl

lemma tables_apart (base : Tables D) : Related (tables D) (apart base) (Beside base)
    (Lost base) (fun a => a.clash = true) where
  find _ _ h := funext h.find
  put name d _ _ h := h.put name d
  remove name _ _ h := h.remove name
  put_left name d _ h := h.put name d
  remove_left name _ h := h.remove name
  put_right name d a h := by
    change (a.put base name d).clash = true
    rw [Added.put, h]
    rfl
  remove_right name a h := by
    change (a.remove base name).clash = true
    rw [Added.remove, h]
    rfl

end

section
variable {V E : Type} [Codec V]

def cteColumn (name : String) (i : ℕ) : Column V :=
  { name := name, dataType := .text, nullable := true, primaryKey := i = 0, unique := false
    autoIncrement := false, default := none, maxLength := none }

/-- The rows of a CTE as a table; their keys are their numbers. -/
def materializeCte (name : String) (r : List String × List (List V)) : TableData V E where
  schema := .new name (r.1.mapIdx (fun i c => cteColumn c i))
  index := r.2.zipIdx.foldl (fun index row =>
    index.insert (Engine.bigEndian row.2) (serialize row.1)) .empty
  versionStore := .new
  checkExprs := []
  sequences := ∅
  secondaryIndexes := []

def selectAll (name : String) : Prog (TableData V E) (List String × List (List V)) :=
  .getTable name (fun t =>
    match t with
    | none => .done (.error (Engine.tableNotFound name))
    | some (_,td) => .done (.ok (td.schema.columns.map (fun c => c.name),
        td.index.entries.filterMap (fun entry => Codec.decodeRow entry.2))))

/-- `WITH names[0] AS (SELECT * FROM sources[0]), ... SELECT * FROM main` -/
def withCtes {n : ℕ} (names sources : Fin n → String) (main : String) :
    Prog (TableData V E) (List String × List (List V)) :=
  .select n names (fun i => selectAll (sources i)) (selectAll main) .done

end

section
open Integers

def twoTables : Tables (TableData Value Expr) := Tables.put "b" (table (schema "b" []) [] [(2,2)])
    (Tables.put "a" (table (schema "a" []) [] [(1,1)]) ⟨fun _ => none,0,nofun⟩)

def namesAfter (reload : String → Option (TableData Value Expr))
    (p : Prog (TableData Value Expr) (List String × List (List Value))) : List String :=
  ["a", "b", "c", "d"].filter (fun name =>
    ((run (tables _) reload materializeCte p twoTables).2.find name).isSome)

end

end ByteDB.Cte
