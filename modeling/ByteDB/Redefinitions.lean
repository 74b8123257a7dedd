import ByteDB.Execute

/-!
# What statements do to the tables

A definition changes one table, forgets one or forgets a database, and a change
of the database keeps the tables of the one that is left. Whatever else they do,
and what the end of any statement does, leaves the tables, the undo images and
the transactions alone.
-/

set_option autoImplicit false

namespace ByteDB.Engine
open ByteDB.Assoc Command

variable {V E Q : Type} {crc : Bytes → UInt32} {e : Engine V E} {ev : Evaluator V E Q}

structure Alike (e e' : Engine V E) : Prop where
  tables : e'.tables = e.tables
  dbTables : e'.dbTables = e.dbTables
  undo : e'.undo = e.undo
  tm : e'.tm = e.tm

lemma Alike.refl (e : Engine V E) : Alike e e := ⟨rfl,rfl,rfl,rfl⟩

lemma alike_onDisk (f : DiskStore V → DiskStore V) (e : Engine V E) : Alike e (onDisk f e) :=
  ⟨rfl,rfl,rfl,rfl⟩

lemma alike_tryDisk {f : DiskStore V → Except CoreError (DiskStore V)} {e e' : Engine V E}
    (h : tryDisk f e = .ok e') : Alike e e' := by
  rw [tryDisk] at h
  split at h
  · cases h
    exact .refl e
  · split at h
    · cases h
    · cases h
      exact ⟨rfl,rfl,rfl,rfl⟩

lemma alike_flushTableToDisk (crc : Bytes → UInt32) (table : String) (e : Engine V E) :
    Alike e (flushTableToDisk crc table e) := by
  rw [flushTableToDisk]
  split
  · exact .refl e
  · exact alike_onDisk _ e

lemma alike_settleDeltas (txnId : Option TxnId) (m : Exec V E (ExecutionResult V)) :
    Alike (m e).2 (settleDeltas crc txnId m e).2 := by
  rw [settleDeltas]
  cases m e with
  | mk r e' =>
    cases r with
    | error err => exact ⟨rfl,rfl,rfl,rfl⟩
    | ok r =>
      change Alike e' (stashOrPersistDeltas crc txnId e')
      cases txnId with
      | none => exact ⟨rfl,rfl,rfl,rfl⟩
      | some tid =>
        rw [stashOrPersistDeltas]
        split
        · exact .refl e'
        · exact ⟨rfl,rfl,rfl,rfl⟩

lemma alike_raisePending (m : Exec V E (ExecutionResult V)) :
    Alike (m { e with pendingSubqueryError := none }).2 (raisePending m e).2 := by
  rw [raisePending]
  cases m { e with pendingSubqueryError := none } with
  | mk r e' =>
    cases r with
    | error err => exact .refl e'
    | ok r =>
      dsimp only
      split
      · exact .refl e'
      · exact ⟨rfl,rfl,rfl,rfl⟩

section
variable [Codec V]

inductive Redefined (ev : Evaluator V E Q) (crc : Bytes → UInt32) (e : Engine V E) :
    Ddl E → Engine V E → Prop where
  | same {stmt : Ddl E} {e' : Engine V E} (h : Alike e e') : Redefined ev crc e stmt e'
  | create {ct : CreateTableStmt E} {e' : Engine V E}
      (h : Alike (setTable ct.name (emptyTable ev ct) e) e') :
      Redefined ev crc e (.createTable ct) e'
  | drop {name : String} {ifExists : Bool} {e' : Engine V E}
      (h : Alike { e with tables := e.tables.erase name } e') :
      Redefined ev crc e (.dropTable name ifExists) e'
  | truncate {name : String} {td : TableData V E} {e₁ e' : Engine V E}
      (hget : getTable ev crc name e = (.ok td,e₁))
      (h : Alike (setTable name (truncated td) e₁) e') : Redefined ev crc e (.truncate name) e'
  | alter {table : String} {action : AlterTableAction E} {td : TableData V E}
      {columns : List (Column V)} {keepIndexes : Bool} {e' : Engine V E}
      (htd : e.tables.lookup table = some td)
      (hcols : alteredColumns td.schema action = .ok (columns,keepIndexes))
      (h : Alike (setTable table (withColumns columns keepIndexes td) e) e') :
      Redefined ev crc e (.alterTable table action) e'
  | createIndex {ci : CreateIndexStmt} {td : TableData V E} {sec : SecondaryIndex}
      {e' : Engine V E} (htd : e.tables.lookup ci.table = some td) (hsec : newIndex td ci = .ok sec)
      (h : Alike (setTable ci.table
        { td with secondaryIndexes := td.secondaryIndexes++[sec] } e) e') :
      Redefined ev crc e (.createIndex ci) e'
  | dropIndex {name table : String} {td : TableData V E} {e' : Engine V E}
      (htd : e.tables.lookup table = some td)
      (h : Alike (setTable table { td with
        secondaryIndexes := td.secondaryIndexes.filter (fun s => s.name ≠ name) } e) e') :
      Redefined ev crc e (.dropIndex name) e'
  | dropDatabase {name : String} {ifExists : Bool} {e' : Engine V E}
      (h : Alike { e with dbTables := e.dbTables.erase name } e') :
      Redefined ev crc e (.dropDatabase name ifExists) e'

lemma getTable_error {name : String} {err : QueryError} {e1 : Engine V E}
    (h : getTable ev crc name e = (.error err,e1)) : e1 = e := by
  rw [getTable] at h
  split at h
  · cases h
  · split at h
    · cases h
      rfl
    · cases h

lemma redefined_truncate (name : String) :
    Redefined ev crc e (.truncate name) (execTruncate ev crc name e).2 := by
  rw [execTruncate]
  cases hget : getTable ev crc name e with
  | mk r e1 =>
    cases r with
    | error err =>
      rw [bind_error hget, getTable_error hget]
      exact .same (.refl e)
    | ok td =>
      rw [bind_ok hget]
      exact .truncate hget (alike_flushTableToDisk crc name _)

lemma redefined_ddl (ev : Evaluator V E Q) (crc : Bytes → UInt32) (e : Engine V E)
    (stmt : Ddl E) : Redefined ev crc e stmt (execDdl ev crc stmt e).2 := by
  have hsame : Redefined ev crc e stmt e := .same (.refl e)
  cases stmt with
  | createTable ct =>
    rw [execDdl, execCreateTable]
    by_cases hin : ct.name ∈ e.database
    · rw [bind_error (by rw [check, if_pos hin])]
      exact hsame
    · rw [bind_ok (by rw [check, if_neg hin])]
      exact .create ⟨rfl,rfl,rfl,rfl⟩
  | dropTable name ifExists =>
    rw [execDdl, execDropTable]
    split
    · exact .drop ⟨rfl,rfl,rfl,rfl⟩
    · split
      · exact hsame
      · exact hsame
  | truncate name => exact redefined_truncate name
  | alterTable table action =>
    rw [execDdl, execAlterTable]
    cases htd : e.tables.lookup table with
    | none => exact hsame
    | some td =>
      dsimp only
      cases hcols : alteredColumns td.schema action with
      | error err => exact hsame
      | ok r =>
        refine .alter htd hcols ?_
        dsimp only
        split
        · exact .refl _
        · exact alike_onDisk _ _
  | createIndex ci =>
    rw [execDdl, execCreateIndex]
    cases htd : e.tables.lookup ci.table with
    | none => exact hsame
    | some td =>
      dsimp only
      cases hsec : newIndex td ci with
      | error err => exact hsame
      | ok sec => exact .createIndex htd hsec (alike_onDisk _ _)
  | dropIndex name =>
    rw [execDdl, execDropIndex]
    split
    · exact hsame
    · rename_i t ht
      exact .dropIndex (AList.mem_lookup_iff.mpr (List.mem_of_find?_eq_some ht)) (alike_onDisk _ _)
  | createDatabase name ifNotExists =>
    rw [execDdl, execCreateDatabase]
    split
    · split
      · exact hsame
      · exact hsame
    · split
      · exact hsame
      · rename_i e' he'
        have h := alike_tryDisk he'
        exact .same ⟨h.tables,h.dbTables,h.undo,h.tm⟩
  | dropDatabase name ifExists =>
    rw [execDdl, execDropDatabase]
    split
    · exact hsame
    split
    · split
      · exact hsame
      · exact hsame
    · split
      · exact hsame
      · rename_i e' he'
        have h := alike_tryDisk he'
        exact .dropDatabase ⟨h.tables,congrArg (AList.erase name) h.dbTables,h.undo,h.tm⟩

end

section
variable [Codec V]

inductive Brought (ev : Evaluator V E Q) (crc : Bytes → UInt32) (e : Engine V E) (name : String) :
    Map String (TableData V E) → Prop where
  | kept {tables : Map String (TableData V E)} (h : e.dbTables.lookup name = some tables) :
      Brought ev crc e name tables
  | none : Brought ev crc e name ∅
  | loaded {ds ds' : DiskStore V} (hmiss : e.dbTables.lookup name = none) (hdisk : e.disk = some ds)
      (hsw : ds.switchDatabase name = .ok ds') :
      Brought ev crc e name (loadTables ev crc ds' ds'.listTables ∅).1

structure Switched (ev : Evaluator V E Q) (crc : Bytes → UInt32) (e : Engine V E) (name : String)
    (e' : Engine V E) : Prop where
  other : name ≠ e.currentDb
  brought : Brought ev crc e name e'.tables
  dbTables : ∀ db tables, e'.dbTables.lookup db = some tables →
    tables = e.tables ∨ e.dbTables.lookup db = some tables
  undo : e'.undo = e.undo
  tm : e'.tm = e.tm

lemma switched (name : String) : (switchToDatabase ev crc name e).2 = e ∨
    Switched ev crc e name (switchToDatabase ev crc name e).2 := by
  have hcached : ∀ db tables, (e.dbTables.insert e.currentDb e.tables).lookup db = some tables →
      tables = e.tables ∨ e.dbTables.lookup db = some tables := by
    exact fun db tables h => (lookup_insert_cases h).imp (·.2) (·.2)
  rw [switchToDatabase]
  split
  · exact .inl rfl
  rename_i hne
  have hother : name ≠ e.currentDb := fun h => hne h.symm
  have hlook : (e.dbTables.insert e.currentDb e.tables).lookup name = e.dbTables.lookup name := by
    rw [lookup_insert_eq, if_neg hother]
  refine .inr ?_
  dsimp only
  rw [hlook]
  cases hname : e.dbTables.lookup name with
  | some tables =>
    refine ⟨hother,.kept hname,fun db tables' htables => ?_,rfl,rfl⟩
    have herase : ((e.dbTables.insert e.currentDb e.tables).erase name).lookup db = some tables' :=
      htables
    obtain ⟨-,herase⟩ := lookup_erase_cases herase
    exact hcached db tables' herase
  | none =>
    cases hdisk : e.disk with
    | none => exact ⟨hother,.none,hcached,rfl,rfl⟩
    | some ds =>
      dsimp only
      cases hsw : ds.switchDatabase name with
      | error err => exact ⟨hother,.none,hcached,rfl,rfl⟩
      | ok ds' =>
        dsimp only
        cases (loadTables ev crc ds' ds'.listTables ∅).2 with
        | error | ok => exact ⟨hother,.loaded hname hdisk hsw,hcached,rfl,rfl⟩

lemma use_switched (ev : Evaluator V E Q) (crc : Bytes → UInt32) (e : Engine V E)
    (name : String) : (execUse ev crc name e).2 = e ∨
    Switched ev crc e name (execUse ev crc name e).2 := by
  rw [execUse]
  refine bind_after (P := fun s => s = e ∨ Switched ev crc e name s) (Q := fun _ s => s = e)
    (.inl rfl) rfl (fun known s _ hs => ?_)
  subst hs
  cases known with
  | false => exact .inl rfl
  | true =>
    exact bind_after (P := fun s' => s' = s ∨ Switched ev crc s name s') (Q := fun _ _ => True)
      (switched name) (by rw [After]; split <;> trivial) (fun _ _ hs _ => hs)

end

end ByteDB.Engine
