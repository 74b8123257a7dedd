import ByteDB.PrimaryKeys
import ByteDB.UniqueRows

/-!
# The declared constraints of a table

INSERT checks NOT NULL, CHECK and UNIQUE on the rows that it completes; UPDATE
makes the same checks without converting the values that it assigns. ON
CONFLICT DO UPDATE and ON DELETE SET NULL check nothing, and a value that
cannot be converted to the type of its column is stored as it is.
-/

set_option autoImplicit false

namespace ByteDB.Engine
open ByteDB.Assoc Command Codec List Option

variable {V E Q : Type} [Codec V] {ev : Evaluator V E Q} {crc : Bytes → UInt32}
  {names : String → Prop} {e : Engine V E} {td : TableData V E}

def Typed (schema : Schema V) (values : List V) : Prop :=
  values.length = schema.columns.length ∧ ∀ c ∈ schema.positions, ∀ v, values[c.2]? = some v →
    isNull v = false → dataType v = some c.1.dataType

def NotNull (schema : Schema V) (values : List V) : Prop :=
  ∀ c ∈ schema.positions, ∀ v, values[c.2]? = some v → isNull v = true → c.1.nullable = true

def Checked (ev : Evaluator V E Q) (d : Schema V × List E) (values : List V) : Prop :=
  ∀ x ∈ d.2, ∀ e txnId, (ev.tri e txnId x values d.1).1.getD true = true

def constraintRule (ev : Evaluator V E Q) : Rule V E := fun d _ values =>
  values.length < 256 ∧ Typed d.1 values ∧ NotNull d.1 values ∧ Checked ev d values

structure Constrained (ev : Evaluator V E Q) (e : Engine V E) (td : TableData V E) : Prop where
  notNull : ∀ k data (values : List V), td.index.lookup k = some data →
    decodeRow data = some values → ∀ c ∈ td.schema.positions, c.1.nullable = false →
      ∃ v, values[c.2]? = some v ∧ isNull v = false
  typed : ∀ k data (values : List V), td.index.lookup k = some data →
    decodeRow data = some values → ∀ c ∈ td.schema.positions, ∀ v, values[c.2]? = some v →
      isNull v = false → dataType v = some c.1.dataType
  checks : ∀ k data (values : List V), td.index.lookup k = some data →
    decodeRow data = some values → ∀ x ∈ td.checkExprs, ∀ txnId,
      (evalCheck ev txnId x values td.schema e).1 = .ok true
  unique : UniqueRows td

lemma mem_positions {schema : Schema V} {c : Column V × ℕ} :
    c ∈ schema.positions ↔ schema.columns[c.2]? = some c.1 := by
  obtain ⟨c,i⟩ := c
  exact mk_mem_zipIdx_iff_getElem?

lemma TableGood.constrained (h : TableGood (constraintRule ev) td) (hu : UniqueRows td) :
    Constrained ev e td where
  notNull k data values hlook hdec c hc hnullable := by
    obtain ⟨-,htyped,hnotNull,-⟩ := h.stored k data values hlook hdec
    have hlt : c.2 < values.length := by
      rw [htyped.1]
      exact (List.getElem?_eq_some_iff.mp (mem_positions.mp hc)).1
    refine ⟨values[c.2],List.getElem?_eq_getElem hlt,?_⟩
    by_contra hnull
    have := hnotNull c hc _ (List.getElem?_eq_getElem hlt) (by simpa using hnull)
    rw [hnullable] at this
    cases this
  typed k data values hlook hdec := (h.stored k data values hlook hdec).2.1.2
  checks k data values hlook hdec x hx txnId :=
    congrArg Except.ok ((h.stored k data values hlook hdec).2.2.2 x hx e txnId)
  unique := hu

section

def Constant (ev : Evaluator V E Q) (x : E) : Prop :=
  ∀ e e' txnId txnId' row schema, (ev.tri e txnId x row schema).1 = (ev.tri e' txnId' x row schema).1

/-- What INSERT takes for a column is converted to its type. -/
def Suitable (schema : Schema V) (values : List V) : Prop := ∀ c ∈ schema.positions, ∀ w,
    Supplied (((resize schema.columns.length values)[c.2]?).getD null) c.1 w → isNull w = false →
      isNull (convert c.1.dataType c.1.maxLength w) = false →
        dataType (convert c.1.dataType c.1.maxLength w) = some c.1.dataType

def AssignsTyped (ev : Evaluator V E Q) (schema : Schema V) (assignments : List (String × E)) :
    Prop :=
  ∀ a ∈ assignments, ∀ c ∈ schema.positions, schema.columnIndex a.1 = some c.2 →
    ∀ e txnId row, Typed schema row → isNull (ev.value e txnId a.2 row schema).1 = false →
      dataType (ev.value e txnId a.2 row schema).1 = some c.1.dataType

structure UpsertSafe (ev : Evaluator V E Q) (d : Schema V × List E)
    (assignments : List (String × E)) : Prop where
  typed : AssignsTyped ev d.1 assignments
  spares : SparesUnique d.1 assignments
  notNull : ∀ a ∈ assignments, ∀ c ∈ d.1.positions, d.1.columnIndex a.1 = some c.2 →
    c.1.nullable = true ∨ ∀ e txnId row, isNull (ev.value e txnId a.2 row d.1).1 = false
  checks : ∀ old new, Typed d.1 old → Checked ev d old → Assigned ev d.1 assignments old new →
    Checked ev d new

structure NullingSafe (ev : Evaluator V E Q) (d : Schema V × List E) (columns : List ℕ) : Prop where
  nullable : ∀ c ∈ d.1.positions, c.2 ∈ columns → c.1.nullable = true
  checks : ∀ row, Typed d.1 row → Checked ev d row → Checked ev d (nulled columns row)

variable {row : List V}

lemma getElem?_set_cases {i j : ℕ} {v w : V} (h : (row.set i v)[j]? = some w) :
    (j = i ∧ w = v) ∨ row[j]? = some w := by
  rw [getElem?_set] at h
  split at h
  · rename_i hij
    split at h
    · exact .inl ⟨hij.symm,(some.inj h).symm⟩
    · cases h
  · exact .inr h

variable {assignments : List (String × E)} {old new : List V}

lemma Assigned.typed
    (h : Assigned ev td.schema assignments old new) (ha : AssignsTyped ev td.schema assignments)
    (hold : Typed td.schema old) : Typed td.schema new := by
  induction h with
  | start => exact hold
  | set a i e txnId _ hmem hi ih =>
    refine ⟨by rw [length_set]; exact ih.1,fun c hc v hv hnull => ?_⟩
    rcases getElem?_set_cases hv with ⟨hci,rfl⟩ | hv
    · exact ha a hmem c hc (hci ▸ hi) e txnId _ ih hnull
    · exact ih.2 c hc v hv hnull

lemma Assigned.notNull
    (h : Assigned ev td.schema assignments old new) (hsafe : UpsertSafe ev (defn td) assignments)
    (hold : NotNull td.schema old) : NotNull td.schema new := by
  induction h with
  | start => exact hold
  | set a i e txnId _ hmem hi ih =>
    intro c hc v hv hnull
    rcases getElem?_set_cases hv with ⟨hci,rfl⟩ | hv
    · rcases hsafe.notNull a hmem c hc (hci ▸ hi) with hnullable | hvalue
      · exact hnullable
      · exact absurd hnull (Bool.eq_false_iff.mp (hvalue e txnId _))
    · exact ih c hc v hv hnull

variable {txnId : Option TxnId}

lemma checked_of_constant (hconst : ∀ x ∈ td.checkExprs, Constant ev x)
    (h : ChecksHold ev txnId td.checkExprs row td.schema) : Checked ev (defn td) row := by
  intro x hx e txnId'
  obtain ⟨e',he'⟩ := h x hx
  rw [hconst x hx e e' txnId' txnId]
  exact he'

lemma InsertFacts.constraints {stmt : InsertStmt E Q} {values : List V} {e0 : Engine V E}
    {p : InsertPlan V} (h : InsertFacts ev txnId stmt td values e0 p)
    (hcols : td.schema.columns.length < 256) (hconst : ∀ x ∈ td.checkExprs, Constant ev x)
    (hgiven : Suitable td.schema values) (k : Bytes) : constraintRule ev (defn td) k p.row := by
  refine ⟨h.prepared.length.symm ▸ hcols,⟨h.prepared.length,?_⟩,?_,
    checked_of_constant hconst h.checks⟩
  · intro c hc v hv hnull
    obtain ⟨w,hw,hwnull,rfl⟩ := (h.prepared.fits c hc v hv).converted hnull
    exact hgiven c hc w hw hwnull hnull
  · exact fun c hc v hv hnull => (h.prepared.fits c hc v hv).null hnull

variable {k : Bytes}

lemma UpdateFacts.constraints {stmt : UpdateStmt E} {entry : Bytes × Bytes} {e0 : Engine V E}
    {p : UpdatePlan V} (h : UpdateFacts ev txnId stmt td e0 entry p)
    (hconst : ∀ x ∈ td.checkExprs, Constant ev x)
    (htyped : AssignsTyped ev td.schema stmt.assignments)
    (hold : constraintRule ev (defn td) k p.old) : constraintRule ev (defn td) k p.new := by
  refine ⟨h.assigned.length.symm ▸ hold.1,h.assigned.typed htyped hold.2.1,?_,
    checked_of_constant hconst h.checks⟩
  intro c hc v hv hnull
  have hpass := find?_eq_none.mp (map_eq_none_iff.mp h.notNull) c hc
  simpa [hv, hnull] using hpass

lemma UpsertSafe.constraints (hsafe : UpsertSafe ev (defn td) assignments)
    (h : Assigned ev td.schema assignments old new) (hold : constraintRule ev (defn td) k old) :
    constraintRule ev (defn td) k new :=
  ⟨h.length.symm ▸ hold.1,h.typed hsafe.typed hold.2.1,h.notNull hsafe hold.2.2.1,
    hsafe.checks old new hold.2.1 hold.2.2.2 h⟩

lemma NullingSafe.constraints (hl : Lawful ev) {columns : List ℕ}
    (hsafe : NullingSafe ev (defn td) columns) (h : constraintRule ev (defn td) k row) :
    constraintRule ev (defn td) k (nulled columns row) := by
  obtain ⟨hlen,htyped,hnotNull,hchecked⟩ := h
  refine ⟨(nulled_length columns row).symm ▸ hlen,⟨?_,?_⟩,?_,hsafe.checks row htyped hchecked⟩
  · rw [nulled_length]
    exact htyped.1
  · exact fun c hc v hv hnull => htyped.2 c hc v (nulled_value hl columns row hv hnull) hnull
  intro c hc v hv hnull
  by_cases hmem : c.2 ∈ columns
  · exact hsafe.nullable c hc hmem
  · rw [nulled_other columns row hmem] at hv
    exact hnotNull c hc v hv hnull

end

/-- The statement, made without a transaction, keeps the constraints. -/
def ConstraintSafe (ev : Evaluator V E Q) (crc : Bytes → UInt32) (names : String → Prop)
    (e : Engine V E) : Statement E Q × Option TxnId → Prop
  | (.ddl (.createTable ct),none) => names ct.name ∧ NoImages e ct.name
  | (.dml (.insert stmt),none) => NoLoad ev crc e stmt.table ∧
      Given ev crc none (cleared e) (fun values => ∀ td, e.tables.lookup stmt.table = some td →
        Suitable td.schema values) (.insert stmt) ∧
      ∀ td, e.tables.lookup stmt.table = some td → PlainUnique td.schema ∧
        td.schema.columns.length < 256 ∧ (∀ x ∈ td.checkExprs, Constant ev x) ∧
        ∀ assignments, stmt.onConflict = some (.doUpdate assignments) →
          UpsertSafe ev (defn td) assignments
  | (.dml (.update stmt),none) => NoLoad ev crc e stmt.table ∧
      ∀ td, e.tables.lookup stmt.table = some td → PlainUnique td.schema ∧
        (∀ x ∈ td.checkExprs, Constant ev x) ∧ AssignsTyped ev td.schema stmt.assignments
  | (.dml (.delete stmt),none) => NoLoad ev crc e stmt.table ∧
      ∀ child td fk, e.tables.lookup child = some td → child ≠ stmt.table →
        fk ∈ td.schema.foreignKeys → fk.refTable = stmt.table → fk.onDelete = .setNull →
          NullingSafe ev (defn td) (fk.columns.filterMap td.schema.columnIndex)
  | _ => False

lemma ConstraintSafe.keeps (hl : Lawful ev) {s : Statement E Q × Option TxnId}
    (h : ConstraintSafe ev crc names e s) :
    Keeps ev crc names (constraintRule ev) (cleared e) s.2 s.1 := by
  rcases s with ⟨_ | _ | _ | _ | _ | (stmt | stmt | stmt) | (ct | _ | _ | _ | _ | _ | _ | _),
    _ | tid⟩ <;> try exact h.elim
  · obtain ⟨hload,hgiven,htable⟩ := h
    refine ⟨hload,_,hgiven,fun td htd => ?_⟩
    obtain ⟨td0,htd0,hdefn⟩ := map_eq_some_iff.mp htd
    obtain ⟨-,hcols,hconst,hupsert⟩ := htable td0 htd0
    have hschema : td0.schema = td.schema := congrArg Prod.fst hdefn
    have hchecks : td0.checkExprs = td.checkExprs := congrArg Prod.snd hdefn
    rw [hschema] at hcols
    rw [hchecks] at hconst
    rw [hdefn] at hupsert
    refine ⟨fun e0 values p hvalues hfacts _ => ?_,fun assignments old new k hconf ha hold => ?_⟩
    · exact hfacts.constraints hcols hconst (hschema ▸ hvalues td0 htd0) _
    · exact (hupsert assignments hconf).constraints ha hold
  · obtain ⟨hload,htable⟩ := h
    refine ⟨hload,fun _ => True,trivial,fun td htd e0 entry p hfacts hold => ?_⟩
    obtain ⟨td0,htd0,hdefn⟩ := map_eq_some_iff.mp htd
    obtain ⟨-,hconst,htyped⟩ := htable td0 htd0
    have hschema : td0.schema = td.schema := congrArg Prod.fst hdefn
    have hchecks : td0.checkExprs = td.checkExprs := congrArg Prod.snd hdefn
    rw [hschema] at htyped
    rw [hchecks] at hconst
    exact hfacts.constraints hconst htyped hold
  · obtain ⟨hload,hnull⟩ := h
    refine ⟨hload,fun _ => True,trivial,?_⟩
    intro child td fk hchild hne hfk href haction k row hrow
    exact (hnull child td fk hchild hne hfk href haction).constraints hl hrow
  · exact h

lemma Lawful.readable (hl : Lawful ev) : Readable ev (constraintRule ev) where
  serialized _ _ row values hrow hdec := by
    rw [hl.serialized row values hrow.1 hdec]
    exact hrow
  spilled _ _ row values e td hrow hdec := by
    rw [hl.spilled row values e td hrow.1 hdec]
    exact hrow

lemma Apart.rebase {b e' : Engine V E} (h : Apart names b e) (ht : e'.tables = e.tables) :
    Apart names e' e' where
  within t td htd := h.within t td (ht ▸ htd)
  defined _ := rfl
  fixed := .refl e'
  bare t td htd := h.bare t td (ht ▸ htd)
  distinct t td htd := h.distinct t td (ht ▸ htd)

lemma Apart.insertEmpty (he : Apart names e e) {ct : CreateTableStmt E} (hname : names ct.name)
    {e' : Engine V E} (ht : e'.tables = e.tables.insert ct.name (emptyTable ev ct)) :
    Apart names e' e' := by
  refine ⟨fun t td htd => ?_,fun _ => rfl,.refl e',fun t td htd => ?_,fun t td htd => ?_⟩
  · rcases lookup_insert_cases (ht ▸ htd) with ⟨rfl,-⟩ | ⟨-,htd⟩
    · exact hname
    · exact he.within t td htd
  · rcases lookup_insert_cases (ht ▸ htd) with ⟨-,rfl⟩ | ⟨-,htd⟩
    · rfl
    · exact he.bare t td htd
  · rcases lookup_insert_cases (ht ▸ htd) with ⟨-,rfl⟩ | ⟨-,htd⟩
    · rintro c - - k k' v v' ⟨data,values,hlook,-⟩
      cases hlook
    · exact he.distinct t td htd

lemma apart_execute (hq : Quiet ev names Still) (hl : Lawful ev) (he : Apart names e e)
    {s : Statement E Q × Option TxnId} (h : ConstraintSafe ev crc names e s) :
    Apart names (execute ev crc s.1 s.2 e).2 (execute ev crc s.1 s.2 e).2 := by
  have hcleared : Apart names (cleared e) (cleared e) := he.rebase rfl
  have hdml : ∀ stmt : Dml E Q, NoLoad ev crc e stmt.table → KeepsApart e stmt →
      Apart names (execute ev crc (.dml stmt) none e).2 (execute ev crc (.dml stmt) none e).2 := by
    intro stmt hload hkeep
    refine ((apart_dml (e := cleared e) hq hl hload ?_).state hcleared).rebase ?_
    · cases stmt with
      | insert | update | delete => exact hkeep
    · exact (alike_raisePending _).tables.trans (alike_settleDeltas none _).tables
  rcases s with ⟨_ | _ | _ | _ | _ | (stmt | stmt | stmt) | (ct | _ | _ | _ | _ | _ | _ | _),
    _ | tid⟩ <;> try exact h.elim
  · obtain ⟨hload,-,htable⟩ := h
    refine hdml (.insert stmt) hload (fun td htd => ?_)
    obtain ⟨hplain,hcols,-,hupsert⟩ := htable td htd
    exact ⟨hplain,hcols,fun assignments hconf => (hupsert assignments hconf).spares⟩
  · exact hdml (.update stmt) h.1 (fun td htd => (h.2 td htd).1)
  · exact hdml (.delete stmt) h.1 trivial
  · have hraised := (alike_raisePending (e := e) (execDdl ev crc (.createTable ct))).tables
    cases redefined_ddl ev crc (cleared e) (.createTable ct) with
    | same h' => exact hcleared.rebase (hraised.trans h'.tables)
    | create h' => exact hcleared.insertEmpty h.1 (hraised.trans h'.tables)

section
open Integers

lemma integers_lawful : Lawful Expr.evaluator where
  serialized row values hlen hdec := some.inj (hdec.symm.trans (Value.decodeRow_serialize row hlen))
  spilled row values _ _ hlen hdec :=
    some.inj (hdec.symm.trans (Value.decodeRow_serialize row hlen))
  short _ _ hdec := Value.decodeRow_length hdec
  readAt data values i hdec := by
    show (Value.decodeRow data).bind (·[i]?) = values[i]?
    rw [show Value.decodeRow data = some values from hdec, bind_some]
  isNull_null := rfl
  same_comm v w := by
    cases v with
    | null => cases w <;> rfl
    | int64 a =>
      cases w with
      | null => rfl
      | int64 b => exact decide_eq_decide.mpr eq_comm

lemma integers_dataType {v : Value} (h : isNull v = false) : dataType v = some .int64 := by
  cases v with
  | null => cases h
  | int64 n => rfl

variable {schema : Schema Value}

lemma integers_suitable (h : ∀ c ∈ schema.columns, c.dataType = .int64)
    (values : List Value) : Suitable schema values := by
  intro c hc w _ _ hnull
  rw [h c.1 (mem_of_getElem? (mem_positions.mp hc))]
  exact integers_dataType hnull

lemma integers_assignsTyped
    (h : ∀ c ∈ schema.columns, c.dataType = .int64) (assignments : List (String × Expr)) :
    AssignsTyped Expr.evaluator schema assignments := by
  intro a _ c hc _ e txnId row _ hnull
  rw [h c.1 (mem_of_getElem? (mem_positions.mp hc))]
  exact integers_dataType hnull

lemma integers_constant (x : Expr) : Constant Expr.evaluator x := fun _ _ _ _ _ _ => rfl

lemma fresh_apart : Apart (fun _ => True) fresh fresh where
  within _ _ _ := trivial
  defined _ := rfl
  fixed := .refl fresh
  bare _ _ htd := by cases htd
  distinct _ _ htd := by cases htd

/-- `CREATE TABLE t (id INT PRIMARY KEY, v INT NOT NULL UNIQUE CHECK (v < 100))` -/
def constrainedTable : CreateTableStmt Expr :=
  { name := "t", checkConstraints := [], foreignKeys := []
    columns := [columnDef "id" true, { columnDef "v" false with
        nullable := false, unique := true
        check := some (.lt (.column "v") (.literal (.int64 100))) }] }

def declared : Engine Value Expr :=
  executeAll Expr.evaluator (fun _ => 0) fresh [(.ddl (.createTable constrainedTable),none)]

def filled : Engine Value Expr := executeAll Expr.evaluator (fun _ => 0) declared
    [(.dml (.insert (insertInto "t" [(1,10), (2,20)])),none)]

/-- `UPDATE t SET v = 11 WHERE id = 1` -/
def revised : Engine Value Expr := executeAll Expr.evaluator (fun _ => 0) filled
    [(.dml (.update (updateOf "t" 11 (equals "id" 1))),none)]

lemma schema_of_map {e : Engine Value Expr} {t : String} {td : TableData Value Expr} (htd : e.tables.lookup t = some td)
    (h : (e.tables.lookup t).map (fun td => td.schema) = some schema) : td.schema = schema := by
  rw [htd] at h
  exact some.inj h

lemma revised_reached : Runs.Reaches (session Expr.evaluator (fun _ => 0))
      (ConstraintSafe Expr.evaluator (fun _ => 0) (fun _ => True)) fresh revised := by
  have hints : ∀ c ∈ (schemaOf Expr.evaluator constrainedTable).columns, c.dataType = .int64 := by
    decide
  have hplain : PlainUnique (schemaOf Expr.evaluator constrainedTable) := by
    show ∀ c ∈ _, _
    decide
  refine .step (s := filled) (.dml (.update (updateOf "t" 11 (equals "id" 1))),none) ?_ ?_ rfl
  · refine .step (s := declared) (.dml (.insert (insertInto "t" [(1,10), (2,20)])),none) ?_ ?_ rfl
    · refine .step (s := fresh) (.ddl (.createTable constrainedTable),none) .init
        ⟨trivial,fun tid k data => ?_⟩ rfl
      simp [undoOf, fresh, engine]
    refine ⟨noLoad_of_disk rfl,?_,fun td htd => ?_⟩
    · rw [Given, After]
      split
      · intro row _ td htd
        rw [schema_of_map htd rfl]
        exact integers_suitable hints row
      · trivial
    · rw [schema_of_map htd rfl]
      exact ⟨hplain,by decide,fun x _ => integers_constant x,fun _ hc => by cases hc⟩
  · refine ⟨noLoad_of_disk rfl,fun td htd => ?_⟩
    rw [schema_of_map htd rfl]
    exact ⟨hplain,fun x _ => integers_constant x,integers_assignsTyped hints _⟩

/-- `INSERT INTO t VALUES (1, 30) ON CONFLICT DO UPDATE SET v = NULL` -/
def upsertNull : InsertStmt Expr Empty :=
  { insertInto "t" [(1,30)] with onConflict := some (.doUpdate [("v",.literal .null)]) }

end

end ByteDB.Engine
