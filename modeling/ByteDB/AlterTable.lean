import ByteDB.Integers

/-!
# What ALTER TABLE leaves

Rows are lists of values without names, and ALTER TABLE does not rewrite them:
a column is read at the position that its name has in the schema. The new
schema is made of its columns alone, and the catalog on disk keeps the old one.
-/

set_option autoImplicit false

namespace ByteDB
open List Option

namespace Schema
variable {V : Type}

def columnNames (schema : Schema V) : List String := schema.columns.map (fun c => c.name)

lemma columnIndex_append (name : String) (columns : List (Column V)) (c : Column V) (n : String) :
    (Schema.new name (columns++[c])).columnIndex n =
      if c.name = n then some columns.length else (Schema.new name columns).columnIndex n := by
  rw [columnIndex, columnIndex, positions, positions, Schema.new, Schema.new]
  rw [zipIdx_append, zipIdx_singleton, reverse_append, reverse_singleton,
    singleton_append, find?_cons, Nat.zero_add]
  by_cases h : c.name = n
  · rw [if_pos h]
    simp [h]
  · rw [if_neg h]
    simp [h]

/-- A name stands for the last column that has it. -/
lemma columnIndex_eq_some_iff (schema : Schema V) (n : String) (i : ℕ) :
    schema.columnIndex n = some i ↔ schema.columnNames[i]? = some n ∧
      ∀ j, schema.columnNames[j]? = some n → j ≤ i := by
  have hnew : schema.columnIndex n = (Schema.new "" schema.columns).columnIndex n := rfl
  rw [hnew, columnNames]
  induction schema.columns using List.reverseRecOn with
  | nil => exact ⟨fun h => (by cases h),fun ⟨h,_⟩ => (by cases h)⟩
  | append_singleton columns c ih =>
    have hget : ∀ j, ((columns++[c]).map (·.name))[j]? = some n ↔
        (columns.map (·.name))[j]? = some n ∨ j = columns.length ∧ c.name = n := by
      intro j
      rw [map_append, getElem?_append, length_map]
      split
      · rename_i hlt
        exact ⟨.inl,fun h => h.elim id (fun h => absurd h.1 hlt.ne)⟩
      rename_i hge
      have hnone : (columns.map (·.name))[j]? = none := getElem?_eq_none (by simpa using hge)
      rw [hnone, map_singleton, getElem?_singleton]
      constructor
      · intro h
        split at h
        · exact .inr ⟨by omega,some.inj h⟩
        · cases h
      · rintro (h | ⟨hj,hc⟩)
        · cases h
        · rw [if_pos (by omega), hc]
    have hlt : ∀ j, (columns.map (·.name))[j]? = some n → j < columns.length := by
      intro j hj
      have := (List.getElem?_eq_some_iff.mp hj).1
      rwa [List.length_map] at this
    rw [columnIndex_append]
    simp only [hget]
    by_cases hc : c.name = n
    · rw [if_pos hc]
      constructor
      · intro h
        cases h
        refine ⟨.inr ⟨rfl,hc⟩,fun j hj => ?_⟩
        rcases hj with hj | ⟨rfl,-⟩
        · exact (hlt j hj).le
        · exact le_rfl
      · rintro ⟨hi,hmax⟩
        have hle := hmax columns.length (.inr ⟨rfl,hc⟩)
        rcases hi with hi | ⟨rfl,-⟩
        · exact absurd (hlt i hi) hle.not_gt
        · rfl
    · rw [if_neg hc]
      simp only [hc, and_false, or_false]
      exact ih

lemma columnIndex_of_get {schema : Schema V} {n : String} {k : ℕ}
    (h : schema.columnNames[k]? = some n) : ∃ j, schema.columnIndex n = some j ∧ k ≤ j := by
  have hsome : schema.columnIndex n ≠ none := by
    rw [columnNames, getElem?_map] at h
    obtain ⟨c,hc,hname⟩ := map_eq_some_iff.mp h
    rw [columnIndex, Ne, map_eq_none_iff, find?_eq_none]
    intro hno
    refine hno (c,k) ?_ (by simpa using hname)
    rw [mem_reverse, positions, mem_zipIdx_iff_getElem?]
    exact hc
  obtain ⟨j,hj⟩ := ne_none_iff_exists'.mp hsome
  exact ⟨j,hj,((columnIndex_eq_some_iff schema n j).mp hj).2 k h⟩

lemma columnIndex_eraseIdx (schema : Schema V) (name : String) {dropped n : String} {i j : ℕ}
    (hi : schema.columnIndex dropped = some i) (hj : schema.columnIndex n = some j)
    (hne : n ≠ dropped) : (Schema.new name (schema.columns.eraseIdx i)).columnIndex n =
      some (if j < i then j else j-1) := by
  obtain ⟨higet,-⟩ := (columnIndex_eq_some_iff schema dropped i).mp hi
  obtain ⟨hjget,hjmax⟩ := (columnIndex_eq_some_iff schema n j).mp hj
  have hij : j ≠ i := by
    rintro rfl
    rw [higet] at hjget
    exact hne (some.inj hjget).symm
  have hnames : (Schema.new name (schema.columns.eraseIdx i)).columnNames =
      schema.columnNames.eraseIdx i := by
    rw [columnNames, columnNames, eraseIdx_map]
    rfl
  rw [columnIndex_eq_some_iff, hnames, getElem?_eraseIdx]
  refine ⟨?_,fun k hk => ?_⟩
  · by_cases hlt : j < i
    · rw [if_pos hlt, if_pos hlt]
      exact hjget
    · have hpos : j-1+1 = j := by omega
      rw [if_neg hlt, if_neg (by omega), hpos]
      exact hjget
  · rw [getElem?_eraseIdx] at hk
    split at hk
    · have := hjmax k hk
      split
      · exact this
      · omega
    · have := hjmax (k+1) hk
      split
      · omega
      · omega

section
variable (schema : Schema V) (name : String) {old new n : String} {i j : ℕ}

def renamed (new : String) (i : ℕ) (schema : Schema V) : List (Column V) :=
  schema.columns.modify i (fun c => { c with name := new })

lemma renamed_names (new : String) (hi : schema.columnIndex old = some i) (k : ℕ) :
    (Schema.new name (schema.renamed new i)).columnNames[k]? =
      if k = i then some new else schema.columnNames[k]? := by
  obtain ⟨higet,-⟩ := (columnIndex_eq_some_iff schema old i).mp hi
  rw [columnNames, getElem?_map] at higet
  rw [columnNames, columnNames, Schema.new, renamed, getElem?_map, getElem?_map, getElem?_modify]
  obtain ⟨c,hc,-⟩ := map_eq_some_iff.mp higet
  by_cases hk : k = i
  · rw [if_pos hk, hk, hc]
    simp
  rw [if_neg hk]
  cases hget : schema.columns[k]? with
  | none => rfl
  | some c =>
    rw [Option.map_eq_map, Option.map_some, Option.map_some, Option.map_some, if_neg (Ne.symm hk)]

lemma columnIndex_renamed_other (hi : schema.columnIndex old = some i)
    (hj : schema.columnIndex n = some j) (hold : n ≠ old) (hnew : n ≠ new) :
    (Schema.new name (schema.renamed new i)).columnIndex n = some j := by
  obtain ⟨higet,-⟩ := (columnIndex_eq_some_iff schema old i).mp hi
  obtain ⟨hjget,hjmax⟩ := (columnIndex_eq_some_iff schema n j).mp hj
  have hji : j ≠ i := by
    rintro rfl
    rw [higet] at hjget
    exact hold (some.inj hjget).symm
  rw [columnIndex_eq_some_iff, renamed_names schema name new hi, if_neg hji]
  refine ⟨hjget,fun k hk => ?_⟩
  rw [renamed_names schema name new hi] at hk
  split at hk
  · exact absurd (some.inj hk).symm hnew
  · exact hjmax k hk

lemma columnIndex_renamed_new (hi : schema.columnIndex old = some i) :
    (Schema.new name (schema.renamed new i)).columnIndex new =
      some (max i ((schema.columnIndex new).getD 0)) := by
  have hmax : ∀ k, schema.columnNames[k]? = some new → k ≤ (schema.columnIndex new).getD 0 := by
    intro k hk
    obtain ⟨j,hj,hle⟩ := columnIndex_of_get hk
    rw [hj]
    exact hle
  rw [columnIndex_eq_some_iff, renamed_names schema name new hi]
  refine ⟨?_,fun k hk => ?_⟩
  · split
    · rfl
    rename_i hne
    cases hnew : schema.columnIndex new with
    | none =>
      rw [hnew] at hne
      exact absurd (Nat.max_zero i) hne
    | some j =>
      rw [hnew] at hne
      have hij : max i ((some j).getD 0) = j := by
        rw [getD_some] at hne ⊢
        omega
      rw [hij]
      exact ((columnIndex_eq_some_iff schema new j).mp hnew).1
  · rw [renamed_names schema name new hi] at hk
    split at hk
    · rename_i heq
      exact heq ▸ le_max_left _ _
    · exact (hmax k hk).trans (le_max_right _ _)

end

end Schema

namespace AlterTable
open Engine Codec
variable {V E : Type} [Codec V]

def readColumn (schema : Schema V) (row : List V) (name : String) : V :=
  match schema.columnIndex name with
  | none => null
  | some i => row.getD i null

def HasRow (td : TableData V E) (row : List V) : Prop :=
  (∃ entry ∈ td.index.entries, decodeRow entry.2 = some row) ∨
    ∃ key, ∃ v ∈ VersionStore.chain td.versionStore key, v.data = row

def newName : AlterTableAction E → String → Option String
  | .addColumn _, n => some n
  | .dropColumn dropped, n => if n = dropped then none else some n
  | .renameColumn oldName newName, n => some (if n = oldName then newName else n)

/-- The foreign key under the names after the action, unless it mentions a
column that is dropped. -/
def newForeignKey (action : AlterTableAction E) (fk : ForeignKey) : Option ForeignKey :=
  (fk.columns.mapM (newName action)).map (fun columns => { fk with columns := columns })

def reloadedSchema (e : Engine V E) (table : String) : Option (Schema V) :=
  e.disk.bind (fun ds => (ds.listTables.find? (fun t => t.name = table)).map (fun t => t.schema))

/-- What ALTER TABLE is to leave: from `td` to `td'`. -/
structure Keeps (action : AlterTableAction E) (td td' : TableData V E) : Prop where
  rows : ∀ row, HasRow td row → HasRow td' row
  values : ∀ row, HasRow td row → ∀ n i n', td.schema.columnIndex n = some i →
    newName action n = some n' → readColumn td'.schema row n' = readColumn td.schema row n
  added : ∀ col, action = .addColumn col → ∀ row, HasRow td row →
    readColumn td'.schema row col.name = null
  foreignKeys : ∀ fk ∈ td.schema.foreignKeys, ∀ fk', newForeignKey action fk = some fk' →
    fk' ∈ td'.schema.foreignKeys
  checks : ∀ x ∈ td.checkExprs, x ∈ td'.checkExprs

/-- What the values of a row have to be so that they are read as before. -/
def RowFits (schema : Schema V) (row : List V) : AlterTableAction E → Prop
  | .addColumn col => row.getD schema.columns.length null = null ∧
    ∀ i, schema.columnIndex col.name = some i → row.getD i null = null
  | .dropColumn dropped => ∀ i j n, schema.columnIndex dropped = some i → n ≠ dropped →
    schema.columnIndex n = some j → i < j → row.getD (j-1) null = row.getD j null
  | .renameColumn oldName newName => ∀ i j, schema.columnIndex oldName = some i →
    schema.columnIndex newName = some j → row.getD i null = row.getD j null

lemma readColumn_some {schema : Schema V} {n : String} {i : ℕ}
    (h : schema.columnIndex n = some i) (row : List V) :
    readColumn schema row n = row.getD i null := by
  rw [readColumn, h]

/-- The columns of the row are read as before, and a new one as null. -/
def ReadsSame (action : AlterTableAction E) (schema schema' : Schema V) (row : List V) : Prop :=
  (∀ n i n', schema.columnIndex n = some i → newName action n = some n' →
    readColumn schema' row n' = readColumn schema row n) ∧
  ∀ col, action = .addColumn col → readColumn schema' row col.name = null

lemma readsSame_add_iff (schema : Schema V) (name : String) (col : ColumnDef E) (row : List V) :
    ReadsSame (.addColumn col) schema (.new name (schema.columns++[addedColumn col])) row ↔
      RowFits schema row (.addColumn col : AlterTableAction E) := by
  have hindex : ∀ n, (Schema.new name (schema.columns++[addedColumn col])).columnIndex n =
      if col.name = n then some schema.columns.length else schema.columnIndex n :=
    fun n => Schema.columnIndex_append name schema.columns (addedColumn col) n
  have hadded := readColumn_some (by rw [hindex, if_pos rfl]) row
  constructor
  · rintro ⟨hsame,hnull⟩
    have hnew := hnull col rfl
    rw [hadded] at hnew
    refine ⟨hnew,fun i hi => ?_⟩
    have := hsame col.name i col.name hi rfl
    rw [hadded, hnew, readColumn_some hi] at this
    exact this.symm
  · rintro ⟨hnew,hclash⟩
    refine ⟨fun n i n' hi hn' => ?_,fun col' hcol => ?_⟩
    · cases hn'
      by_cases hn : col.name = n
      · subst hn
        rw [hadded, hnew, readColumn_some hi, hclash i hi]
      · rw [readColumn_some hi, readColumn_some (by rw [hindex, if_neg hn, hi])]
    · cases hcol
      rw [hadded, hnew]

lemma readsSame_drop_iff (schema : Schema V) (name : String) {dropped : String} {i : ℕ}
    (hi : schema.columnIndex dropped = some i) (row : List V) :
    ReadsSame (.dropColumn dropped : AlterTableAction E) schema
      (.new name (schema.columns.eraseIdx i)) row ↔
      RowFits schema row (.dropColumn dropped : AlterTableAction E) := by
  have hread : ∀ n j, n ≠ dropped → schema.columnIndex n = some j →
      readColumn (.new name (schema.columns.eraseIdx i)) row n =
        row.getD (if j < i then j else j-1) null :=
    fun n j hne hj => readColumn_some (Schema.columnIndex_eraseIdx schema name hi hj hne) row
  constructor
  · rintro ⟨hsame,-⟩ i' j n hi' hne hj hlt
    cases hi.symm.trans hi'
    have := hsame n j n hj (by rw [newName, if_neg hne])
    rwa [hread n j hne hj, readColumn_some hj, if_neg (by omega)] at this
  intro hfits
  refine ⟨fun n j n' hj hn' => ?_,fun col hcol => (by cases hcol)⟩
  rw [newName] at hn'
  split at hn'
  · cases hn'
  rename_i hne
  cases hn'
  rw [hread n j hne hj, readColumn_some hj]
  split
  · rfl
  rename_i hge
  have hji : j ≠ i := by
    rintro rfl
    have h1 := ((Schema.columnIndex_eq_some_iff schema n j).mp hj).1
    rw [((Schema.columnIndex_eq_some_iff schema dropped j).mp hi).1] at h1
    exact hne (some.inj h1).symm
  exact hfits i j n hi hne hj (by omega)

lemma readsSame_rename_iff (schema : Schema V) (name : String) {old new : String} {i : ℕ}
    (hi : schema.columnIndex old = some i) (row : List V) :
    ReadsSame (.renameColumn old new : AlterTableAction E) schema
      (.new name (schema.renamed new i)) row ↔
      RowFits schema row (.renameColumn old new : AlterTableAction E) := by
  have hnew : readColumn (.new name (schema.renamed new i)) row new =
      row.getD (max i ((schema.columnIndex new).getD 0)) null :=
    readColumn_some (Schema.columnIndex_renamed_new schema name hi) row
  constructor
  · rintro ⟨hsame,-⟩ i' j hi' hj
    cases hi.symm.trans hi'
    have hold := hsame old i new hi (by rw [newName, if_pos rfl])
    have hown := hsame new j new hj (by rw [newName, ite_self])
    rw [hnew, readColumn_some hi] at hold
    rw [hnew, readColumn_some hj] at hown
    exact hold.symm.trans hown
  intro hfits
  -- the later of two columns of one name is read, and both have the same value
  have hmax : row.getD (max i ((schema.columnIndex new).getD 0)) null = row.getD i null := by
    cases hj : schema.columnIndex new with
    | none => rw [getD_none, Nat.max_zero]
    | some j =>
      rw [getD_some]
      rcases max_choice i j with h | h
      · rw [h]
      · rw [h, hfits i j hi hj]
  refine ⟨fun n j n' hj hn' => ?_,fun col hcol => (by cases hcol)⟩
  rw [newName] at hn'
  by_cases hold : n = old
  · subst hold
    rw [if_pos rfl] at hn'
    cases hn'
    cases hi.symm.trans hj
    rw [hnew, hmax, readColumn_some hi]
  · rw [if_neg hold] at hn'
    cases hn'
    by_cases heq : n = new
    · subst heq
      rw [hnew, hmax, readColumn_some hj, hfits i j hi hj]
    · rw [readColumn_some hj,
        readColumn_some (Schema.columnIndex_renamed_other schema name hi hj hold heq)]

/-- The state before in which ALTER TABLE does what it is to do: the rows fit,
every foreign key mentions the dropped column, and the catalog on disk, if there
is one, has the altered schema already. -/
structure Safe (e : Engine V E) (table : String) (action : AlterTableAction E)
    (td : TableData V E) : Prop where
  rows : ∀ row, HasRow td row → RowFits td.schema row action
  foreignKeys : ∀ fk ∈ td.schema.foreignKeys, newForeignKey action fk = none
  catalog : e.disk ≠ none → ∀ columns keepIndexes,
    alteredColumns td.schema action = .ok (columns,keepIndexes) →
    reloadedSchema e table = some (.new td.schema.tableName columns)

lemma readsSame_iff {schema : Schema V} {name : String} {action : AlterTableAction E}
    {columns : List (Column V)} {keepIndexes : Bool}
    (h : alteredColumns schema action = .ok (columns,keepIndexes)) (row : List V) :
    ReadsSame action schema (.new name columns) row ↔ RowFits schema row action := by
  cases action with
  | addColumn col =>
    cases h
    exact readsSame_add_iff schema name col row
  | dropColumn dropped =>
    rw [alteredColumns] at h
    cases hi : schema.columnIndex dropped with
    | none =>
      rw [hi] at h
      cases h
    | some i =>
      rw [hi] at h
      dsimp only at h
      split at h
      · cases h
      · cases h
        exact readsSame_drop_iff schema name hi row
  | renameColumn old new =>
    rw [alteredColumns] at h
    cases hi : schema.columnIndex old with
    | none =>
      rw [hi] at h
      cases h
    | some i =>
      rw [hi] at h
      cases h
      exact readsSame_rename_iff schema name hi row

omit [Codec V] in
lemma find_replaceFirst {table : String} {entry : TableCatalog V} (hname : entry.name = table)
    (catalog : List (TableCatalog V)) {old : TableCatalog V}
    (h : catalog.find? (fun t => t.name = table) = some old) :
    (DiskStore.replaceFirst table entry catalog).find? (fun t => t.name = table) = some entry := by
  induction catalog with
  | nil => cases h
  | cons t ts ih =>
    rw [DiskStore.replaceFirst]
    by_cases ht : t.name = table
    · rw [if_pos ht, find?_cons_of_pos (by simpa using hname)]
    · rw [if_neg ht, find?_cons_of_neg (by simpa using ht)]
      rw [find?_cons_of_neg (by simpa using ht)] at h
      exact ih h

omit [Codec V] in
lemma find_upsertTableIndexes (ds : DiskStore V) (table : String) (indexes : List IndexDef) :
    ((ds.upsertTableIndexes table indexes).listTables.find? (fun t => t.name = table)).map
      (fun t => t.schema) =
    (ds.listTables.find? (fun t => t.name = table)).map (fun t => t.schema) := by
  rw [DiskStore.upsertTableIndexes, DiskStore.listTables, DiskStore.listTables]
  cases hold : ds.catalog.find? (fun t => t.name = table) with
  | none =>
    rw [hold]
  | some old =>
    have hname : { old with indexes := indexes }.name = table := by
      simpa using find?_some hold
    exact congrArg (Option.map (·.schema)) (find_replaceFirst hname ds.catalog hold)

omit [Codec V] in
lemma execAlterTable_ok {e e' : Engine V E} {table : String} {action : AlterTableAction E}
    {r : ExecutionResult V} (h : execAlterTable table action e = (.ok r,e')) :
    ∃ td columns keepIndexes, e.tables.lookup table = some td ∧
      alteredColumns td.schema action = .ok (columns,keepIndexes) ∧
      e'.tables.lookup table = some (withColumns columns keepIndexes td) ∧
      (e'.disk = none ↔ e.disk = none) ∧ reloadedSchema e' table = reloadedSchema e table := by
  rw [execAlterTable] at h
  cases htd : e.tables.lookup table with
  | none =>
    rw [htd] at h
    cases h
  | some td =>
    rw [htd] at h
    dsimp only at h
    cases halt : alteredColumns td.schema action with
    | error err =>
      rw [halt] at h
      cases h
    | ok p =>
      obtain ⟨columns,keepIndexes⟩ := p
      rw [halt] at h
      refine ⟨td,columns,keepIndexes,rfl,halt,?_⟩
      cases keepIndexes with
      | true =>
        cases h
        exact ⟨AList.lookup_insert _,Iff.rfl,rfl⟩
      | false =>
        cases h
        refine ⟨AList.lookup_insert _,?_,?_⟩
        · exact map_eq_none_iff
        · change (e.disk.map (fun ds => ds.upsertTableIndexes table [])).bind _ = e.disk.bind _
          cases e.disk with
          | none => rfl
          | some ds => exact find_upsertTableIndexes ds table []

section
open Integers

def small : Engine Value Expr := engine (AList.insert "t" (table (schema "t" []) [] [(1,5)]) ∅) none

def renameV : AlterTableAction Expr := .renameColumn "v" "w"

lemma small_safe : Safe small "t" renameV (table (schema "t" []) [] [(1,5)]) where
  rows row hrow i j hi hj := by
    have hnone : (schema "t" []).columnIndex "w" = none := by decide
    cases hnone.symm.trans hj
  foreignKeys fk hfk := by cases hfk
  catalog hd := absurd rfl hd

def wideSchema : Schema Value :=
  { tableName := "t"
    columns := [column "id" true, column "v" false, column "w" false]
    checkConstraints := []
    foreignKeys := [⟨["w"],"p",["id"],.restrict,.restrict⟩] }

def wideRow : List Value := [.int64 1, .int64 5, .int64 7]

def wide : Engine Value Expr :=
  engine (AList.insert "t"
    { schema := wideSchema, index := OrderedMap.empty.insert (key 1) (serialize wideRow)
      versionStore := .new, checkExprs := [], sequences := ∅, secondaryIndexes := [] } ∅)
    (some
      { registry := ["default"], defaultDb := "default", catalogs := ∅, tableFiles := ∅
        logFiles := ∅, catalog := [⟨"t",1,wideSchema,[],[]⟩], currentDb := "default" })

end

end AlterTable

end ByteDB
