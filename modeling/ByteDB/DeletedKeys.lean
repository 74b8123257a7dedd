import ByteDB.Checks
import ByteDB.Integers

/-!
# INSERT over a row that another transaction has deleted

A deleted row is gone from the index at once, while its image waits in the undo
log of the transaction. INSERT looks into the index only, so it refuses the key
for no other reason than it would refuse a new one.
-/

set_option autoImplicit false

namespace ByteDB.Engine
open ByteDB.Assoc Command Codec

variable {V E Q : Type} [Codec V] {ev : Evaluator V E Q} {crc : Bytes → UInt32} {e : Engine V E}
  {names : String → Prop} {txnId : Option TxnId} {stmt : InsertStmt E Q} {td : TableData V E}
  {values : List V}

section
variable {table : String}

lemma fails_checkUnique (refuse : Refusals) (row : List V) (own : Option Bytes) :
    Fails (checkUnique refuse table row own) e ↔ ¬NoDuplicate e table row own := by
  rw [checkUnique, fails_check, NoDuplicate]
  cases (e.tables.lookup table).bind (fun td => uniqueViolation td row own) with
  | none | some => simp

omit [Codec V] in
lemma forM_error {α : Type} {f : α → Except QueryError Unit} {as : List α} :
    (∃ err, as.forM f = .error err) ↔ ∃ a ∈ as, ∃ err, f a = .error err := by
  induction as with
  | nil =>
    refine ⟨?_,?_⟩
    · rintro ⟨err,h⟩
      cases h
    · rintro ⟨a,ha,-⟩
      cases ha
  | cons a as ih =>
    show (∃ err, (f a >>= fun _ => as.forM f) = .error err) ↔ _
    cases hf : f a with
    | error err =>
      refine ⟨fun _ => ⟨a,List.mem_cons_self,err,hf⟩,fun _ => ⟨err,rfl⟩⟩
    | ok u =>
      show (∃ err, as.forM f = .error err) ↔ _
      rw [ih]
      constructor
      · rintro ⟨b,hb,herr⟩
        exact ⟨b,List.mem_cons_of_mem _ hb,herr⟩
      · rintro ⟨b,hb,err,herr⟩
        obtain rfl | hb := List.mem_cons.mp hb
        · cases hf.symm.trans herr
        · exact ⟨b,hb,err,herr⟩

lemma fails_checkForeignKeys (refuse : Refusals) (schema : Schema V) (row : List V) :
    Fails (checkForeignKeys refuse schema row) e ↔ ¬HasParents e schema row := by
  rw [checkForeignKeys, fails_check, forM_error, HasParents]
  push Not
  refine exists_congr (fun fk => and_congr_right (fun _ => ?_))
  cases childValues schema fk row with
  | none => simp
  | some vals =>
    cases e.tables.lookup fk.refTable with
    | none => simp
    | some parent =>
      cases hexists : fkParentExists parent
          (fk.refColumns.filterMap parent.schema.columnIndex) vals with
      | true | false => simp [hexists]

/-- An index has the values of the row under another key. -/
def IndexTaken (row : List V) (pk : Bytes) (sec : SecondaryIndex) : Prop :=
  ∃ kv, sec.keyValues row = some kv ∧ sec.refuses kv pk = true

lemma insertSecondaries_error (row : List V) (pk : Bytes) (secs : List SecondaryIndex) :
    (∃ err, (insertSecondaries row pk secs).2 = .error err) ↔
      ∃ sec ∈ secs, IndexTaken row pk sec := by
  induction secs with
  | nil => simp [insertSecondaries]
  | cons sec secs ih =>
    simp only [List.mem_cons, exists_eq_or_imp]
    rw [insertSecondaries, ← ih]
    cases hkv : sec.keyValues row with
    | none => simp [IndexTaken, hkv]
    | some kv =>
      cases href : sec.refuses kv pk with
      | true | false => simp [IndexTaken, hkv, href]

lemma fails_updateSecondaryIndexesInsert {td : TableData V E}
    (htd : e.tables.lookup table = some td) (row : List V) (pk : Bytes) :
    Fails (updateSecondaryIndexesInsert table row pk) e ↔
      ∃ sec ∈ td.secondaryIndexes, IndexTaken row pk sec := by
  rw [← insertSecondaries_error, updateSecondaryIndexesInsert, Fails, onSecondaries, htd]
  cases h : (insertSecondaries row pk td.secondaryIndexes).2 with
  | ok | error => simp [h]

end

def complete (stmt : InsertStmt E Q) (td : TableData V E) (values : List V) : Exec V E (List V) :=
  loop (prepareColumn stmt.table) (resize td.schema.columns.length values) td.schema.positions

/-- The transaction of the statement cannot write any more. -/
def Unstarted (txnId : Option TxnId) (e : Engine V E) : Prop :=
  ∃ tid, txnId = some tid ∧ ∃ err, TableData.snapshotFor e.tm tid = .error err

/-- The row, once it is completed, is refused for another reason than its key: a
NOT NULL column without a value leaves no row, and a value that has to be unique
is taken, a check is false, a parent is missing, or a unique index has the values. -/
def RowRefused (ev : Evaluator V E Q) (txnId : Option TxnId) (stmt : InsertStmt E Q)
    (td : TableData V E) (values : List V) (e : Engine V E) : Prop :=
  ∀ row e', complete stmt td values e = (.ok row,e') → ¬NoDuplicate e stmt.table row none ∨
    Fails (checkExpressions ev insertRefusals txnId stmt.table td row) e' ∨
    ¬HasParents e td.schema row ∨ Unstarted txnId e ∨
    ∃ sec ∈ td.secondaryIndexes, IndexTaken row (keyBytes row td.schema.primaryKeyColumns) sec

omit [Codec V] in
lemma total_finish (schema : Schema V) (rows : List (List V))
    (returning : Option (Returning E)) : Total (finish ev txnId schema rows returning) := by
  cases returning with
  | none => exact total_pure _
  | some r =>
    cases r with
    | star => exact total_pure _
    | columns cols =>
      have hvalue : ∀ (values row : List V) (c : E × String), Total (do
          let v ← evalValue ev txnId c.1 row schema
          pure (values++[v])) :=
        fun values row c => total_bind (fun _ => fails_of_ok rfl) (fun _ => total_pure _)
      refine total_bind (total_loop (fun out row => ?_) [] rows) (fun _ => total_pure _)
      exact total_bind (total_loop (fun values c => hvalue values row c) [] cols)
        (fun _ => total_pure _)

lemma insertVersion_ok {tid : TxnId} {snap : Snapshot}
    (hsnap : TableData.snapshotFor e.tm tid = .ok snap)
    (htd : e.tables.lookup stmt.table = some td) (slot : ℕ) (schemaOf : TableData V E)
    (plan : InsertPlan V) : ∃ e', insertVersion tid stmt.table slot schemaOf plan e = (.ok (),e') ∧
      ∃ td', e'.tables.lookup stmt.table = some td' ∧
        td'.secondaryIndexes = td.secondaryIndexes := by
  let r := LogRecord.insert tid schemaOf.schema.columns.length slot (serialize plan.row)
  let versions := VersionStore.insert td.versionStore plan.key plan.row tid snap.startTs
  have hwal : walAppend r e = (.ok (),appendWal r e) := rfl
  have hsnapshot : snapshot tid (appendWal r e) = (.ok snap,appendWal r e) :=
    congrArg (·,appendWal r e) hsnap
  have hversions : onVersions stmt.table (fun vs =>
      (VersionStore.insert vs plan.key plan.row tid snap.startTs,Except.ok ())) (appendWal r e) =
      (.ok (),(appendWal r e).onTable stmt.table
        (fun td' => { td' with versionStore := versions })) := by
    have hsame : (appendWal r e).tables.lookup stmt.table = some td := htd
    rw [onVersions, hsame]
  refine ⟨_,(bind_ok hwal).trans ((bind_ok hsnapshot).trans (bind_ok hversions)),
    { td with versionStore := versions },?_,rfl⟩
  show (adjust e.tables stmt.table _).lookup stmt.table = _
  rw [lookup_adjust, if_pos rfl, htd]
  rfl

lemma fails_insertWrite (htd : e.tables.lookup stmt.table = some td) (slot : ℕ)
    (schemaOf : TableData V E) (row : List V) (key : Bytes) :
    Fails (insertWrite ev txnId stmt schemaOf slot ⟨row,key,none,none⟩) e ↔
      Unstarted txnId e ∨ ∃ sec ∈ td.secondaryIndexes, IndexTaken row key sec := by
  have hrest : ∀ u : Unit, Total (do
      recordUndo txnId stmt.table key none
      putRow ev stmt.table key (serialize row)
      pure row : Exec V E (List V)) := by
    intro _
    refine total_bind ?_ (fun _ => total_bind (total_modify _) (fun _ => total_pure _))
    cases txnId with
    | none => exact total_pure _
    | some tid => exact total_modify _
  rw [insertWrite]
  cases txnId with
  | none =>
    have hnone : inTxn none (fun tid => insertVersion tid stmt.table slot schemaOf
      ⟨row,key,none,none⟩) e = (.ok (),e) := rfl
    rw [fails_bind_ok hnone, fails_bind_total hrest, fails_updateSecondaryIndexesInsert htd]
    simp [Unstarted]
  | some tid =>
    cases hsnap : TableData.snapshotFor e.tm tid with
    | error err =>
      have hfails : Fails (insertVersion tid stmt.table slot schemaOf ⟨row,key,none,none⟩) e :=
        (fails_bind_ok rfl).mpr (fails_bind_error ((fails_check _).mpr ⟨err,hsnap⟩))
      exact ⟨fun _ => .inl ⟨tid,rfl,err,hsnap⟩,fun _ => fails_bind_error hfails⟩
    | ok snap =>
      have hstarted : ¬Unstarted (some tid) e := by
        rintro ⟨_,⟨⟩,err,herr⟩
        cases hsnap.symm.trans herr
      obtain ⟨e',hok,td',htd',hsecs⟩ := insertVersion_ok hsnap htd slot schemaOf ⟨row,key,none,none⟩
      have hin : inTxn (some tid) (fun tid => insertVersion tid stmt.table slot schemaOf
        ⟨row,key,none,none⟩) e = (.ok (),e') := hok
      rw [fails_bind_ok hin, fails_bind_total hrest, fails_updateSecondaryIndexesInsert htd', hsecs]
      simp [hstarted]

section
variable {e e₁ : Engine V E}

structure Deletes (e : Engine V E) (tid : TxnId) (table : String) (key : Bytes) : Prop where
  active : (e.tm.activeTxns.lookup tid).isSome
  image : ∃ old, (e.undoOf tid).lookup (table,key) = some (some old)
  resident : (e.tables.lookup table).isSome
  gone : e.content table key = none

omit [Codec V] in
lemma Still.symm (h : Still e e₁) : Still e₁ e where
  table t := (h.table t).symm
  manager := by
    obtain ⟨ssi,hm⟩ := h.manager
    exact ⟨e.tm.ssi,by rw [hm]⟩
  undo := h.undo.symm
  pending := h.pending.symm
  fixed := by
    obtain ⟨h1,h2,h3,h4,h5⟩ := h.fixed
    exact ⟨h1.symm,h2.symm,h3.symm,h4.symm,h5.symm⟩

omit [Codec V] in
lemma Still.unstarted (h : Still e e₁) : Unstarted txnId e₁ ↔ Unstarted txnId e := by
  obtain ⟨ssi,hm⟩ := h.manager
  rw [Unstarted, Unstarted, hm]
  rfl

lemma insertCheck_fresh (txnId : Option TxnId) (hq : Quiet ev names Still) (hw : Within names e)
    (hpk : td.schema.primaryKeyColumns ≠ []) {row : List V}
    (hrow : complete stmt td values e = (.ok row,e₁))
    (hgone : e.content stmt.table (keyBytes row td.schema.primaryKeyColumns) = none) :
    (Fails (insertCheck ev txnId stmt td values) e ∧ (¬NoDuplicate e stmt.table row none ∨
        Fails (checkExpressions ev insertRefusals txnId stmt.table td row) e₁ ∨
        ¬HasParents e td.schema row)) ∨
    ((NoDuplicate e stmt.table row none ∧
        ¬Fails (checkExpressions ev insertRefusals txnId stmt.table td row) e₁ ∧
        HasParents e td.schema row) ∧
      ∃ e₂, Still e e₂ ∧ insertCheck ev txnId stmt td values e =
        (.ok (some ⟨row,keyBytes row td.schema.primaryKeyColumns,none,none⟩),e₂)) := by
  have hsteady : Steady ev (Still e) := (settled_still hw).steady hq
  have hstays : Stays (Still e) (complete stmt td values) :=
    stays_loop _ (fun c _ row => stays_prepareColumn hsteady _ row c) _
  have hstill : Still e e₁ := by
    have h := hstays e (.refl e)
    rw [hrow] at h
    exact h
  have hstart : insertCheck ev txnId stmt td values e = _ := bind_ok hrow
  by_cases hdup : NoDuplicate e stmt.table row none
  · have hunique : checkUnique insertRefusals stmt.table row none e₁ = (.ok (),e₁) := by
      have h : NoDuplicate e₁ stmt.table row none := hdup.still hstill.symm
      rw [checkUnique, check, show (e₁.tables.lookup _).bind _ = none from h]
    obtain hfail | ⟨_,e₂,hchecks⟩ :=
      fails_or (checkExpressions ev insertRefusals txnId stmt.table td row) e₁
    · refine .inl ⟨?_,.inr (.inl hfail)⟩
      rw [Fails, hstart, bind_ok hunique]
      exact fails_bind_error hfail
    have hstill₂ : Still e e₂ := by
      have h := stays_checkExpressions hsteady txnId insertRefusals stmt.table td row e₁ hstill
      rw [hchecks] at h
      exact h
    obtain hfail | ⟨_,e₃,hparents⟩ := fails_or (checkForeignKeys insertRefusals td.schema row) e₂
    · refine .inl ⟨?_,.inr (.inr (fun h => ?_))⟩
      · rw [Fails, hstart, bind_ok hunique, bind_ok hchecks]
        exact fails_bind_error hfail
      · exact (fails_checkForeignKeys _ _ _).mp hfail (h.still hstill₂.symm)
    obtain rfl : e₂ = e₃ := congrArg Prod.snd hparents
    have hhas : HasParents e₂ td.schema row := by
      by_contra h
      exact fails_of_ok hparents ((fails_checkForeignKeys _ _ _).mpr h)
    refine .inr ⟨⟨hdup,fails_of_ok hchecks,hhas.still hstill₂⟩,e₂,hstill₂,?_⟩
    have hkey : keyFor stmt.table td.schema row e₂ =
        (.ok (keyBytes row td.schema.primaryKeyColumns),e₂) := by
      rw [keyFor, if_neg hpk]
      rfl
    have hnone : (Command.get (fun e => e.content stmt.table
        (keyBytes row td.schema.primaryKeyColumns)) : Exec V E (Option Bytes)) e₂ =
        (.ok none,e₂) := by
      rw [Command.get, hstill₂.content, hgone]
    rw [hstart, bind_ok hunique, bind_ok hchecks, bind_ok hparents, bind_ok hkey, bind_ok hnone]
    rfl
  · refine .inl ⟨?_,.inl hdup⟩
    rw [Fails, hstart]
    refine fails_bind_error ((fails_checkUnique _ _ _).mpr (fun h => hdup (h.still hstill)))

lemma fails_insertRow (hq : Quiet ev names Still) (hw : Within names e)
    (htd : e.tables.lookup stmt.table = some td) (hpk : td.schema.primaryKeyColumns ≠ [])
    (hgone : ∀ row e', complete stmt td values e = (.ok row,e') →
      e.content stmt.table (keyBytes row td.schema.primaryKeyColumns) = none) :
    Fails (insertRow ev txnId stmt td [] values) e ↔ RowRefused ev txnId stmt td values e := by
  rw [insertRow, eachRow]
  obtain hfail | ⟨row,e₁,hrow⟩ := fails_or (complete stmt td values) e
  · refine ⟨fun _ row e' hok => absurd hfail (fails_of_ok hok),fun _ => ?_⟩
    exact fails_bind_error (fails_bind_error hfail)
  have hone : RowRefused ev txnId stmt td values e ↔ _ :=
    ⟨fun h => h row e₁ hrow,fun h row' e' hok => by cases hrow.symm.trans hok; exact h⟩
  rw [hone]
  obtain ⟨hfail,hwhy⟩ | ⟨⟨hdup,hchecks,hparents⟩,e₂,hstill,hcheck⟩ :=
    insertCheck_fresh txnId hq hw hpk hrow (hgone row e₁ hrow)
  · refine ⟨fun _ => ?_,fun _ => fails_bind_error hfail⟩
    obtain h | h | h := hwhy
    · exact .inl h
    · exact .inr (.inl h)
    · exact .inr (.inr (.inl h))
  · obtain ⟨td₂,htd₂,hfrozen⟩ := hstill.lookup htd
    have hsecs : td₂.secondaryIndexes = td.secondaryIndexes := congrArg (·.secondaryIndexes) hfrozen
    rw [fails_bind_ok hcheck, fails_bind_total (fun _ => total_pure _), fails_insertWrite htd₂, hsecs,
      hstill.unstarted]
    simp [hdup, hchecks, hparents]

/-- INSERT of a row whose key another transaction has deleted fails exactly when
it would fail without that transaction: the deletion is no reason to refuse it. -/
theorem insert_deleted_iff (ev : Evaluator V E Q) (crc : Bytes → UInt32) (names : String → Prop)
    (hq : Quiet ev names Still) (e e₁ : Engine V E) (hw : Within names e) (tid : TxnId)
    (txnId : Option TxnId) (stmt : InsertStmt E Q) (values : List V) (key : Bytes)
    (td : TableData V E) (hdel : Deletes e tid stmt.table key)
    (hrows : insertRows ev crc txnId stmt e = (.ok [values],e₁))
    (htd : e₁.tables.lookup stmt.table = some td) (hpk : td.schema.primaryKeyColumns ≠ [])
    (hkey : ∀ row e', complete stmt td values e₁ = (.ok row,e') →
      keyBytes row td.schema.primaryKeyColumns = key) :
    Fails (execInsert ev crc txnId stmt) e ↔ RowRefused ev txnId stmt td values e₁ := by
  have hsteady : Steady ev (Still e) := (settled_still hw).steady hq
  have hload : Loads ev crc stmt.table (Still e) := by
    intro e' td' hstill hnone _
    obtain ⟨td₀,htd₀⟩ := Option.isSome_iff_exists.mp hdel.resident
    obtain ⟨td₁,htd₁,-⟩ := hstill.lookup htd₀
    cases hnone.symm.trans htd₁
  have hstill : Still e e₁ := by
    have h := stays_insertRows hsteady txnId stmt hload e (.refl e)
    rw [hrows] at h
    exact h
  have hget : getTable ev crc stmt.table e₁ = (.ok td,e₁) := by
    rw [getTable, htd]
  have hgone : ∀ row e', complete stmt td values e₁ = (.ok row,e') →
      e₁.content stmt.table (keyBytes row td.schema.primaryKeyColumns) = none := by
    intro row e' hrow
    rw [hkey row e' hrow, hstill.content, hdel.gone]
  have hlast : ∀ done, Total (loop (insertRow ev txnId stmt td) done []) := total_pure
  rw [execInsert, fails_bind_ok hrows, fails_bind_ok hget,
    fails_bind_total (fun _ => total_finish _ _ _), loop, fails_bind_total hlast,
    fails_insertRow hq (hstill.within hw) htd hpk hgone]

end

section
open Integers

/-- `DELETE FROM t WHERE id = 1` in the first transaction, with a check `v < 5`. -/
def deleted : Engine Value Expr := executeAll Expr.evaluator (fun _ => 0)
    (engine (AList.insert "t" (table (schema "t" []) [.lt (.column "v") (.literal (.int64 5))]
      [(1,0)]) ∅) none)
    [(.begin none,none), (.dml (.delete (deleteFrom "t" (equals "id" 1))),some 1)]

lemma deletes_deleted : Deletes deleted 1 "t" (key 1) where
  active := by decide +kernel
  image := ⟨serialize (Integers.row 1 0),by decide +kernel⟩
  resident := by decide +kernel
  gone := by decide +kernel

theorem checked_insert_refused : ∃ td, deleted.tables.lookup "t" = some td ∧
      RowRefused Expr.evaluator none (insertInto "t" [(1,9)]) td (Integers.row 1 9) deleted := by
  obtain ⟨td,htd⟩ := Option.isSome_iff_exists.mp deletes_deleted.resident
  have hschema : td.schema = schema "t" [] := by
    have h : (deleted.tables.lookup "t").map (fun td => td.schema) = some (schema "t" []) := by
      decide +kernel
    rw [htd] at h
    exact Option.some.inj h
  have hpk : td.schema.primaryKeyColumns ≠ [] := by
    rw [hschema]
    decide
  have hrows : insertRows Expr.evaluator (fun _ => 0) none (insertInto "t" [(1,9)]) deleted =
      (.ok [Integers.row 1 9],deleted) := by
    have hget : getTable Expr.evaluator (fun _ => 0) "t" deleted = (.ok td,deleted) := by
      rw [getTable, htd]
    rw [insertRows]
    refine (bind_ok hget).trans ?_
    rw [hschema]
    rfl
  have hkey : ∀ row e', complete (insertInto "t" [(1,9)]) td (Integers.row 1 9) deleted =
      (.ok row,e') → keyBytes row td.schema.primaryKeyColumns = key 1 := by
    intro row e' hrow
    have hsame : complete (insertInto "t" [(1,9)]) td (Integers.row 1 9) deleted =
        (.ok (Integers.row 1 9),deleted) := by
      rw [complete, hschema]
      rfl
    cases hsame.symm.trans hrow
    rw [hschema]
    rfl
  have hfails : Fails (execInsert Expr.evaluator (fun _ => 0) none (insertInto "t" [(1,9)]))
      deleted := by
    have h : (execInsert Expr.evaluator (fun _ => 0) none (insertInto "t" [(1,9)]) deleted).1 =
        .error (insertRefusals.check "t") := by decide +kernel
    exact ⟨_,_,Prod.ext h rfl⟩
  exact ⟨td,htd,(insert_deleted_iff Expr.evaluator (fun _ => 0) (fun _ => True)
    (integers_quiet _ _ (fun e _ => .refl e)) deleted deleted (fun _ _ _ => trivial) 1 none
    (insertInto "t" [(1,9)]) (Integers.row 1 9) (key 1) td deletes_deleted hrows htd hpk hkey).mp
    hfails⟩

def reinserted : Engine Value Expr := executeAll Expr.evaluator (fun _ => 0) deleted
    [(.begin none,none), (.dml (.insert (insertInto "t" [(1,3)])),some 2)]

theorem reinsertion_lost : Deletes deleted 1 "t" (key 1) ∧
    (execute Expr.evaluator (fun _ => 0) (.dml (.insert (insertInto "t" [(1,3)]))) (some 2)
      (executeAll Expr.evaluator (fun _ => 0) deleted [(.begin none,none)])).1 = .ok (.modified 1) ∧
    (execute Expr.evaluator (fun _ => 0) .commit (some 2) reinserted).1 = .ok (.ok "COMMIT") ∧
    (executeAll Expr.evaluator (fun _ => 0) reinserted [(.commit,some 2)]).content "t" (key 1) =
      some (serialize (Integers.row 1 3)) ∧
    (executeAll Expr.evaluator (fun _ => 0) reinserted
      [(.commit,some 2), (.rollback,some 1)]).content "t" (key 1) =
      some (serialize (Integers.row 1 0)) :=
  ⟨deletes_deleted,by decide +kernel,by decide +kernel,by decide +kernel,by decide +kernel⟩

end

end ByteDB.Engine
