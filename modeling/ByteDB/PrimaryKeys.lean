import ByteDB.Integers
import ByteDB.RuleRuns

/-!
# Rows are stored under their primary keys

The key of a row is computed when the row is inserted. UPDATE, ON CONFLICT DO
UPDATE, ON DELETE SET NULL and ALTER TABLE leave it as it is, so a row stays
under the key of its own primary key as long as they leave the columns of the
primary key alone.
-/

set_option autoImplicit false

namespace ByteDB.Engine
open ByteDB.Assoc Command Codec List

variable {V E Q : Type} [Codec V] {ev : Evaluator V E Q} {crc : Bytes → UInt32}
  {names : String → Prop} {txnId : Option TxnId} {e : Engine V E}

/-- The row is under the bytes of its own primary key. Its number of values
is written in one byte. -/
def keyRule : Rule V E := fun d k values =>
  values.length < 256 ∧ (d.1.primaryKeyColumns ≠ [] → k = keyBytes values d.1.primaryKeyColumns)

/-- Every row of a table with a primary key is stored under its own primary
key, and no two rows have the same. -/
def Keyed (td : TableData V E) : Prop := td.schema.primaryKeyColumns ≠ [] →
    (∀ k data (values : List V), td.index.lookup k = some data → decodeRow data = some values →
      k = keyBytes values td.schema.primaryKeyColumns) ∧
    ∀ k₁ k₂ data₁ data₂ (values₁ values₂ : List V), td.index.lookup k₁ = some data₁ →
      td.index.lookup k₂ = some data₂ → decodeRow data₁ = some values₁ →
      decodeRow data₂ = some values₂ →
      project values₁ td.schema.primaryKeyColumns = project values₂ td.schema.primaryKeyColumns →
      k₁ = k₂

variable {td : TableData V E}

lemma TableGood.keyed (h : TableGood keyRule td) : Keyed td := by
  intro hpk
  have hkey : ∀ k data (values : List V), td.index.lookup k = some data →
      decodeRow data = some values → k = keyBytes values td.schema.primaryKeyColumns :=
    fun k data values hlook hdec => (h.stored k data values hlook hdec).2 hpk
  refine ⟨hkey,fun k1 k2 data1 data2 values1 values2 h1 h2 hdec1 hdec2 hsame => ?_⟩
  rw [hkey k1 data1 values1 h1 hdec1, hkey k2 data2 values2 h2 hdec2, keyBytes, keyBytes, hsame]

variable {d : Schema V × List E} {k : Bytes}

/-- A row that is stored is read back with the same encodings, also when large
values have been moved out of it. -/
structure Faithful (ev : Evaluator V E Q) : Prop where
  serialized : ∀ row values : List V, row.length < 256 →
    decodeRow (serialize row) = some values → values.map encode = row.map encode
  spilled : ∀ (row values : List V) e td, row.length < 256 →
    decodeRow (ev.spill e td (serialize row)) = some values → values.map encode = row.map encode

lemma keyBytes_eq (values : List V) (columns : List ℕ) :
    keyBytes values columns = (columns.filterMap ((values.map encode)[·]?)).flatten := by
  induction columns with
  | nil => rfl
  | cons i columns ih =>
    rw [keyBytes, project] at ih ⊢
    cases hv : values[i]? with
    | none | some => simp [hv, ih]

lemma keyRule_of_encodings {row values : List V}
    (h : keyRule d k row) (hsame : values.map encode = row.map encode) : keyRule d k values := by
  have hlen : values.length = row.length := by simpa using congrArg List.length hsame
  refine ⟨hlen ▸ h.1,fun hpk => ?_⟩
  rw [keyBytes_eq, hsame, ← keyBytes_eq]
  exact h.2 hpk

lemma Faithful.readable (h : Faithful ev) : Readable ev (keyRule (V := V) (E := E)) where
  serialized _ _ row values hrow hdec :=
    keyRule_of_encodings hrow (h.serialized row values hrow.1 hdec)
  spilled _ _ row values e td hrow hdec :=
    keyRule_of_encodings hrow (h.spilled row values e td hrow.1 hdec)

variable {old new : List V}

section

lemma keyRule_of_columns (h : keyRule d k old) (hlen : new.length = old.length)
    (hsame : ∀ i ∈ d.1.primaryKeyColumns, new[i]? = old[i]?) : keyRule d k new := by
  refine ⟨hlen ▸ h.1,fun hpk => ?_⟩
  have hproj : project new d.1.primaryKeyColumns = project old d.1.primaryKeyColumns :=
    filterMap_congr hsame
  rw [keyBytes, hproj, ← keyBytes]
  exact h.2 hpk

lemma primaryKeyColumns_eq (schema schema' : Schema V)
    (h : schema'.columns.map (fun c => c.primaryKey) = schema.columns.map (fun c => c.primaryKey)) :
    schema'.primaryKeyColumns = schema.primaryKeyColumns := by
  have hflags : ∀ s : Schema V, s.primaryKeyColumns =
      (((s.columns.map (·.primaryKey)).zipIdx).filter (fun c => c.1)).map Prod.snd := by
    intro s
    rw [Schema.primaryKeyColumns, Schema.positions, zipIdx_map, filter_map, map_map]
    rfl
  rw [hflags, hflags, h]

lemma primaryKeyColumns_append (name name' : String) (columns rest : List (Column V))
    (h : ∀ c ∈ rest, c.primaryKey = false) : (Schema.new name (columns++rest)).primaryKeyColumns =
      (Schema.new name' columns).primaryKeyColumns := by
  rw [Schema.primaryKeyColumns, Schema.primaryKeyColumns, Schema.positions, Schema.positions]
  have hrest : (rest.zipIdx (0+columns.length)).filter (fun c => c.1.primaryKey) = [] := by
    refine filter_eq_nil_iff.mpr (fun c hc => ?_)
    simp [h c.1 (fst_mem_of_mem_zipIdx hc)]
  show ((columns++rest).zipIdx.filter (fun c => c.1.primaryKey)).map Prod.snd =
    (columns.zipIdx.filter (fun c => c.1.primaryKey)).map Prod.snd
  rw [zipIdx_append, filter_append, hrest, append_nil]

variable {i : ℕ}

lemma mem_primaryKeyColumns {schema : Schema V} {c : Column V}
    (hc : schema.columns[i]? = some c) (hpk : c.primaryKey = true) :
    i ∈ schema.primaryKeyColumns := by
  refine mem_map.mpr ⟨(c,i),mem_filter.mpr ⟨?_,hpk⟩,rfl⟩
  exact mk_mem_zipIdx_iff_getElem?.mpr hc

lemma primaryKeyColumns_eraseIdx (schema : Schema V) (name : String)
    (h : ∀ j ∈ schema.primaryKeyColumns, j < i) :
    (Schema.new name (schema.columns.eraseIdx i)).primaryKeyColumns =
      schema.primaryKeyColumns := by
  have hback : ∀ j c, i ≤ j → schema.columns[j]? = some c → c.primaryKey = false := by
    intro j c hj hc
    by_contra hpk
    have hlt := h j (mem_primaryKeyColumns hc (by simpa using hpk))
    omega
  have hdrop : ∀ n, i ≤ n → ∀ c ∈ schema.columns.drop n, c.primaryKey = false := by
    intro n hn c hc
    obtain ⟨j,hj⟩ := mem_iff_getElem?.mp hc
    rw [getElem?_drop] at hj
    exact hback (n+j) c (by omega) hj
  have hwhole : schema.primaryKeyColumns =
      (Schema.new name (schema.columns.take i)).primaryKeyColumns := by
    rw [← primaryKeyColumns_append name name _ (schema.columns.drop i) (hdrop i le_rfl),
      take_append_drop]
    rfl
  rw [eraseIdx_eq_take_drop_succ,
    primaryKeyColumns_append name name _ _ (hdrop (i+1) (by omega)), hwhole]

end

def SparesKey (schema : Schema V) (assignments : List (String × E)) : Prop :=
  ∀ i ∈ schema.primaryKeyColumns, ¬ Assigns schema assignments i

lemma keyRule_of_assigned {assignments : List (String × E)} (hspares : SparesKey td.schema assignments)
    (ha : Assigned ev td.schema assignments old new) (h : keyRule (defn td) k old) :
    keyRule (defn td) k new :=
  keyRule_of_columns h ha.length (fun i hi => ha.others (hspares i hi))

def AlterSparesKey (schema : Schema V) : AlterTableAction E → Prop
  | .addColumn col => col.primaryKey = false
  | .dropColumn name => ∀ i, schema.columnIndex name = some i →
      ∀ j ∈ schema.primaryKeyColumns, j < i
  | .renameColumn _ _ => True

/-- The statement leaves the primary keys of the rows alone, and a rollback
after it puts no row into a table with another definition. -/
def KeySafe (ev : Evaluator V E Q) (crc : Bytes → UInt32) (names : String → Prop)
    (e : Engine V E) (s : Statement E Q × Option TxnId) : Prop :=
  match s.1 with
  | .begin _ => True
  | .commit => True
  | .rollback => True
  | .query _ => True
  | .useDatabase name => SwitchKeeps ev crc names keyRule e name
  | .dml (.insert stmt) => NoLoad ev crc e stmt.table ∧
      ∀ td, e.tables.lookup stmt.table = some td → td.schema.columns.length < 256 ∧
        ∀ assignments, stmt.onConflict = some (.doUpdate assignments) →
          SparesKey td.schema assignments
  | .dml (.update stmt) => NoLoad ev crc e stmt.table ∧
      ∀ td, e.tables.lookup stmt.table = some td → SparesKey td.schema stmt.assignments
  | .dml (.delete stmt) => NoLoad ev crc e stmt.table ∧
      ∀ child td fk, e.tables.lookup child = some td → child ≠ stmt.table →
        fk ∈ td.schema.foreignKeys → fk.refTable = stmt.table → fk.onDelete = .setNull →
        ∀ i ∈ td.schema.primaryKeyColumns, i ∉ fk.columns.filterMap td.schema.columnIndex
  | .ddl (.createTable ct) => names ct.name ∧ NoImages e ct.name
  | .ddl (.truncate name) => NoLoad ev crc e name
  | .ddl (.alterTable table action) => ∀ td, e.tables.lookup table = some td →
      AlterSparesKey td.schema action
  | .ddl _ => True

lemma alter_keeps_key {action : AlterTableAction E}
    (h : AlterSparesKey td.schema action) {columns : List (Column V)} {keepIndexes : Bool}
    (hcols : alteredColumns td.schema action = .ok (columns,keepIndexes)) :
    (Schema.new td.schema.tableName columns).primaryKeyColumns =
      td.schema.primaryKeyColumns := by
  cases action with
  | addColumn col =>
    cases hcols
    refine (primaryKeyColumns_append _ td.schema.tableName _ _ ?_).trans rfl
    intro c hc
    rw [mem_singleton.mp hc]
    exact h
  | dropColumn name =>
    rw [alteredColumns] at hcols
    cases hi : td.schema.columnIndex name with
    | none =>
      rw [hi] at hcols
      cases hcols
    | some i =>
      rw [hi] at hcols
      dsimp only at hcols
      split at hcols
      · cases hcols
      · cases hcols
        exact primaryKeyColumns_eraseIdx td.schema td.schema.tableName (h i hi)
  | renameColumn oldName newName =>
    rw [alteredColumns] at hcols
    cases hi : td.schema.columnIndex oldName with
    | none =>
      rw [hi] at hcols
      cases hcols
    | some i =>
      rw [hi] at hcols
      cases hcols
      refine primaryKeyColumns_eq _ _ ?_
      show (td.schema.columns.modify i (fun c => { c with name := newName })).map
        (·.primaryKey) = td.schema.columns.map (·.primaryKey)
      refine ext_getElem? (fun j => ?_)
      rw [getElem?_map, getElem?_map, getElem?_modify]
      cases td.schema.columns[j]? with
      | none => rfl
      | some c =>
        show some (if i = j then { c with name := newName } else c).primaryKey = some c.primaryKey
        split
        · rfl
        · rfl

lemma KeySafe.upholds {stmt : Dml E Q} (h : KeySafe ev crc names e (.dml stmt,txnId)) :
    NoLoad ev crc (cleared e) stmt.table ∧
      Upholds ev keyRule txnId (cleared e) (fun _ => True) stmt := by
  cases stmt with
  | insert stmt =>
    refine ⟨h.1,fun td htd => ?_⟩
    obtain ⟨td0,htd0,hdefn⟩ := Option.map_eq_some_iff.mp htd
    have hschema : td0.schema = td.schema := congrArg Prod.fst hdefn
    obtain ⟨hcols,hspares⟩ := h.2 td0 htd0
    rw [hschema] at hcols hspares
    refine ⟨fun e0 values p _ hfacts hnone => ⟨?_,hfacts.key⟩,?_⟩
    · exact hfacts.prepared.length.symm ▸ hcols
    · exact fun assignments old new k hconf ha hold =>
        keyRule_of_assigned (hspares assignments hconf) ha hold
  | update stmt =>
    refine ⟨h.1,fun td htd e0 entry p hfacts hold => ?_⟩
    obtain ⟨td0,htd0,hdefn⟩ := Option.map_eq_some_iff.mp htd
    have hschema : td0.schema = td.schema := congrArg Prod.fst hdefn
    exact keyRule_of_assigned (hschema ▸ h.2 td0 htd0) hfacts.assigned hold
  | delete stmt =>
    refine ⟨h.1,?_⟩
    intro child td fk hchild hne hfk href haction k row hrow
    refine keyRule_of_columns hrow (nulled_length _ _) (fun i hi => nulled_other _ _ ?_)
    exact h.2 child td fk hchild hne hfk href haction i hi

lemma KeySafe.keeps {stmt : Statement E Q} (h : KeySafe ev crc names e (stmt,txnId)) :
    Keeps ev crc names keyRule (cleared e) txnId stmt := by
  cases stmt with
  | begin | commit | rollback | query => trivial
  | useDatabase name => exact h
  | dml stmt =>
    obtain ⟨hload,hup⟩ := h.upholds
    exact ⟨hload,fun _ => True,given_true _,hup⟩
  | ddl stmt =>
    cases stmt with
    | createTable | truncate => exact h
    | alterTable table action =>
      intro td columns keepIndexes htd hcols k row hrow
      have hpk := alter_keeps_key (h td htd) hcols
      refine ⟨hrow.1,fun hne => ?_⟩
      show k = keyBytes row (Schema.new td.schema.tableName columns).primaryKeyColumns
      rw [hpk]
      exact hrow.2 (hpk ▸ hne)
    | dropTable | createIndex | dropIndex | createDatabase | dropDatabase => trivial

/-- In every run whose statements leave the primary keys alone the rows are
under their own primary keys. -/
theorem rows_keyed (ev : Evaluator V E Q) (crc : Bytes → UInt32) (names : String → Prop)
    (hq : Quiet ev names Still) (hf : Faithful ev) {e₀ e : Engine V E}
    (h₀ : Everywhere names keyRule e₀)
    (h : Runs.Reaches (session ev crc) (KeySafe ev crc names) e₀ e) :
    ∀ t td, e.tables.lookup t = some td → Keyed td := by
  have he : Everywhere names keyRule e :=
    everywhere_reaches hq hf.readable (fun _ _ _ hsafe => hsafe.keeps) h₀ h
  exact fun t td htd => (he.sound.tables t td htd).keyed

section
open Integers

lemma integers_still (names : String → Prop) : Quiet Expr.evaluator names Still :=
  integers_quiet names _ (fun e _ => .refl e)

lemma integers_faithful : Faithful Expr.evaluator where
  serialized row values hlen hdec := by
    have hback : decodeRow (serialize row) = some row := Value.decodeRow_serialize row hlen
    rw [Option.some.inj (hdec.symm.trans hback)]
  spilled row values _ _ hlen hdec := by
    have hback : decodeRow (serialize row) = some row := Value.decodeRow_serialize row hlen
    rw [Option.some.inj (hdec.symm.trans hback)]

def fresh : Engine Value Expr := engine ∅ none

lemma fresh_everywhere (G : Rule Value Expr) : Everywhere (fun _ => True) G fresh where
  sound :=
    { within := fun _ _ _ => trivial
      tables := nofun
      images := fun _ _ _ _ _ _ _ _ htd => by cases htd }
  cached _ _ h := by cases h

lemma noLoad_of_disk {name : String} (h : e.disk = none) : NoLoad ev crc e name := by
  intro _ td hr
  rw [reloadTable, h] at hr
  cases hr

def columnDef (name : String) (primaryKey : Bool) : ColumnDef Expr :=
  { name := name, dataType := .int64, maxLength := none, nullable := true, primaryKey := primaryKey
    unique := false, autoIncrement := false, default := none, check := none, references := none
    onDelete := .restrict, onUpdate := .restrict }

def createTable (name : String) : Statement Expr Empty := .ddl (.createTable
    { name := name, columns := [columnDef "id" true, columnDef "v" false], checkConstraints := []
      foreignKeys := [] })

def updateId (name : String) (n : Int64) (condition : Expr) : UpdateStmt Expr :=
  { table := name, assignments := [("id",.literal (.int64 n))], whereClause := some condition
    returning := none }

def created : Engine Value Expr :=
  executeAll Expr.evaluator (fun _ => 0) fresh [(createTable "t",none)]

def inserted : Engine Value Expr := executeAll Expr.evaluator (fun _ => 0) created
    [(.dml (.insert (insertInto "t" [(1,10)])),none)]

def updated : Engine Value Expr := executeAll Expr.evaluator (fun _ => 0) inserted
    [(.dml (.update (updateOf "t" 11 (equals "id" 1))),none)]

lemma updated_reached : Runs.Reaches (session Expr.evaluator (fun _ => 0))
      (KeySafe Expr.evaluator (fun _ => 0) (fun _ => True)) fresh updated := by
  refine .step (s := inserted) (.dml (.update (updateOf "t" 11 (equals "id" 1))),none) ?_ ?_ rfl
  · refine .step (s := created) (.dml (.insert (insertInto "t" [(1,10)])),none) ?_ ?_ rfl
    · refine .step (s := fresh) (createTable "t",none) .init ⟨trivial,fun tid k data => ?_⟩ rfl
      simp [undoOf, fresh, engine]
    · refine ⟨noLoad_of_disk rfl,fun td htd => ?_⟩
      cases htd
      exact ⟨by decide,fun _ hc => by cases hc⟩
  · refine ⟨noLoad_of_disk rfl,fun td htd => ?_⟩
    cases htd
    rintro i hi ⟨a,ha,hindex⟩
    rw [mem_singleton.mp ha] at hindex
    have hkey : i ∈ [0] := hi
    have hcolumn : some 1 = some i := hindex
    rw [mem_singleton.mp hkey] at hcolumn
    cases hcolumn

theorem updated_keyed : (updated.tables.lookup "t").isSome ∧
      ∀ t td, updated.tables.lookup t = some td → Keyed td :=
  ⟨by decide +kernel,rows_keyed Expr.evaluator (fun _ => 0) (fun _ => True) (integers_still _)
    integers_faithful (fresh_everywhere _) updated_reached⟩

/-- `UPDATE t SET id = 2 WHERE id = 1` and `INSERT INTO t VALUES (2, 20)` both
succeed. -/
theorem update_leaves_row_under_old_key :
    (execute Expr.evaluator (fun _ => 0) (.dml (.update (updateId "t" 2 (equals "id" 1)))) none
      inserted).1 = .ok (.modified 1) ∧
    (execute Expr.evaluator (fun _ => 0) (.dml (.insert (insertInto "t" [(2,20)]))) none
      (execute Expr.evaluator (fun _ => 0) (.dml (.update (updateId "t" 2 (equals "id" 1)))) none
        inserted).2).1 = .ok (.modified 1) ∧
    ((executeAll Expr.evaluator (fun _ => 0) inserted
      [(.dml (.update (updateId "t" 2 (equals "id" 1))),none),
        (.dml (.insert (insertInto "t" [(2,20)])),none)]).tables.lookup "t").map
      (fun td => td.index.entries) =
        some [(key 1,serialize (Integers.row 2 10)), (key 2,serialize (Integers.row 2 20))] := by
  refine ⟨?_,?_,?_⟩
  · decide +kernel
  · decide +kernel
  · decide +kernel

end

end ByteDB.Engine
