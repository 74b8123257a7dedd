import ByteDB.Integers
import ByteDB.Redefinitions

/-!
# What a failing statement leaves behind

The rows of a statement are written one after another and an error does not
take back what has been written. A statement that fails leaves the indexes
and version stores alone if no row was written before the one that made it
fail.
-/

set_option autoImplicit false

namespace ByteDB.Engine
open ByteDB.Assoc Command Codec VersionStore

variable {V E Q : Type} [Codec V] {ev : Evaluator V E Q} {crc : Bytes → UInt32}

def SameData (td td' : TableData V E) : Prop :=
  td'.index = td.index ∧ td'.secondaryIndexes = td.secondaryIndexes ∧
    td'.versionStore = td.versionStore

def Untouched (e e' : Engine V E) : Prop :=
  ∀ t td, e.tables.lookup t = some td → ∃ td', e'.tables.lookup t = some td' ∧ SameData td td'

def Kept (names : String → Prop) (e₀ e : Engine V E) : Prop := Untouched e₀ e ∧ Within names e

variable {e e' : Engine V E} {f : TableData V E → TableData V E}

namespace Untouched

lemma refl (e : Engine V E) : Untouched e e := fun _ td h => ⟨td,h,rfl,rfl,rfl⟩

lemma trans {a b c : Engine V E} (hab : Untouched a b) (hbc : Untouched b c) : Untouched a c := by
  intro t td htd
  obtain ⟨td₁,h₁,hi₁,hs₁,hv₁⟩ := hab t td htd
  obtain ⟨td₂,h₂,hi₂,hs₂,hv₂⟩ := hbc t td₁ h₁
  exact ⟨td₂,h₂,hi₂.trans hi₁,hs₂.trans hs₁,hv₂.trans hv₁⟩

lemma of_tables (h : e'.tables = e.tables) : Untouched e e' :=
  fun _ td htd => ⟨td,h ▸ htd,rfl,rfl,rfl⟩

lemma onTable (e : Engine V E) (table : String)
    (hf : ∀ td, e.tables.lookup table = some td → SameData td (f td)) :
    Untouched e (e.onTable table f) := by
  intro t td htd
  by_cases ht : t = table
  · subst ht
    exact ⟨f td,by rw [Engine.onTable, lookup_adjust_self, htd]; rfl,hf td htd⟩
  · exact ⟨td,by rw [Engine.onTable, lookup_adjust_ne _ _ ht, htd],rfl,rfl,rfl⟩

end Untouched

namespace Kept
variable {names : String → Prop} {e₀ e : Engine V E}

lemma of_tables (h : Kept names e₀ e) (ht : e'.tables = e.tables) : Kept names e₀ e' :=
  ⟨h.1.trans (.of_tables ht),fun t td htd => h.2 t td (ht ▸ htd)⟩

lemma onTable (h : Kept names e₀ e) (table : String)
    (hf : ∀ td, e.tables.lookup table = some td → SameData td (f td)) :
    Kept names e₀ (e.onTable table f) :=
  ⟨h.1.trans (.onTable e table hf),h.2.onTable table f⟩

lemma trans (h : Kept names e₀ e) (h' : Kept names e e') : Kept names e₀ e' := ⟨h.1.trans h'.1,h'.2⟩

lemma steady (hq : Quiet ev names (Kept names)) : Steady ev (Kept names e₀) where
  tri e txnId x row schema h := h.trans (hq.tri e txnId x row schema h.2)
  value e txnId x row schema h := h.trans (hq.value e txnId x row schema h.2)
  insertValue e txnId x schema i h := h.trans (hq.insertValue e txnId x schema i h.2)
  select e txnId q h := h.trans (hq.select e txnId q h.2)
  ssi _ _ h := h.of_tables rfl
  sequences _ table _ h := h.onTable table (fun _ _ => ⟨rfl,rfl,rfl⟩)
  rowids _ _ h := h.of_tables rfl

lemma loads {name : String} (hname : names name) : Loads ev crc name (Kept names e₀) := by
  intro e td h hnone _
  refine ⟨fun t td' htd' => ?_,fun t td' htd' => ?_⟩
  · obtain ⟨td₁,h₁,hsame⟩ := h.1 t td' htd'
    have ht : t ≠ name := by
      rintro rfl
      rw [hnone] at h₁
      cases h₁
    exact ⟨td₁,(AList.lookup_insert_ne ht).trans h₁,hsame⟩
  · by_cases ht : t = name
    · exact ht ▸ hname
    · exact h.2 t td' ((AList.lookup_insert_ne ht).symm.trans htd')

end Kept

section
variable {α β γ : Type}

/-- No row is written before the row that makes the statement fail: each row
is passed over, or refused with nothing written, or left as it is. `atEnd` is
about the number of rows gone through when none is refused. -/
def NoWrite (check : α → Exec V E (Option β)) (write : ℕ → β → Exec V E γ)
    (refused idle : β → Engine V E → Prop) (atEnd : ℕ → Prop) : ℕ → List α → Engine V E → Prop
  | n, [], _ => atEnd n
  | n, a::as, e => After (check a) (fun plan e =>
      match plan with
      | none => NoWrite check write refused idle atEnd n as e
      | some plan => refused plan e ∨ (idle plan e ∧
          NoWrite check write refused idle atEnd (n+1) as (write (n % 65536) plan e).2)) e

variable {check : α → Exec V E (Option β)} {write : ℕ → β → Exec V E γ}
  {refused idle : β → Engine V E → Prop} {atEnd : ℕ → Prop} {P : Engine V E → Prop} {a : α}

lemma eachRow_none {done : List γ}
    (h : check a e = (.ok none,e')) : eachRow check write done a e = (.ok done,e') := by
  rw [eachRow, bind_ok h]
  rfl

lemma eachRow_some (write : ℕ → β → Exec V E γ) (done : List γ)
    {plan : β} (h : check a e = (.ok (some plan),e')) : eachRow check write done a e =
      (write (done.length % 65536) plan >>= fun r => pure (done++[r])) e' := by
  rw [eachRow, bind_ok h]

lemma loop_noWrite (hcheck : ∀ a, Stays P (check a)) (hrefused : ∀ plan e n, P e → refused plan e →
      ∃ err e', write n plan e = (.error err,e') ∧ P e')
    (hidle : ∀ plan e n, P e → idle plan e → ∃ r e', write n plan e = (.ok r,e') ∧ P e')
    (as : List α) (done : List γ) (he : P e)
    (h : NoWrite check write refused idle atEnd done.length as e) :
    P (loop (eachRow check write) done as e).2 ∧
      After (loop (eachRow check write) done as) (fun done _ => atEnd done.length) e := by
  induction as generalizing done e with
  | nil => exact ⟨he,h⟩
  | cons a as ih =>
    have hP := hcheck a e he
    rw [NoWrite, After] at h
    rw [After, loop]
    cases hc : check a e with
    | mk r e₁ =>
      rw [hc] at hP h
      rcases r with err | _ | plan
      · have hrow : eachRow check write done a e = (.error err,e₁) := by
          rw [eachRow, bind_error hc]
        rw [bind_error hrow]
        exact ⟨hP,trivial⟩
      · rw [bind_ok (eachRow_none hc)]
        exact ih done hP h
      · have hrow := eachRow_some write done hc
        rcases h with href | ⟨hid,hrest⟩
        · obtain ⟨err,e₂,hw,h₂⟩ := hrefused plan e₁ _ hP href
          rw [bind_error hw] at hrow
          rw [bind_error hrow]
          exact ⟨h₂,trivial⟩
        · obtain ⟨r,e₂,hw,h₂⟩ := hidle plan e₁ (done.length % 65536) hP hid
          rw [bind_ok hw] at hrow
          rw [bind_ok hrow]
          refine ih (done++[r]) h₂ ?_
          rw [List.length_append, List.length_singleton]
          rwa [hw] at hrest

end

section

/-- The version store refuses the change at once: the transaction has no
snapshot, or the key has versions and they are in conflict with it. -/
def VersionRefuses {α : Type} (tid : TxnId) (table : String) (key : Bytes)
    (change : VersionStore (List V) → Snapshot → VersionStore (List V) × Except CoreError α)
    (e : Engine V E) : Prop :=
  match TableData.snapshotFor e.tm tid with
  | .error _ => True
  | .ok snap => ∃ td err, e.tables.lookup table = some td ∧
      VersionStore.chain td.versionStore key ≠ [] ∧ (change td.versionStore snap).2 = .error err

def FirstRefuses (row : List V) (key : Bytes) : List SecondaryIndex → Prop
  | [] => False
  | sec::secs =>
    match sec.keyValues row with
    | none => FirstRefuses row key secs
    | some kv => sec.refuses kv key

def SameKeys (sec : SecondaryIndex) (old new : List V) : Prop :=
  ∀ a b, sec.keyValues old = some a → sec.keyValues new = some b → sameValues a b

/-- To store the row changes nothing: the same bytes are stored already, and
no index sees a difference. -/
def Rewrites (ev : Evaluator V E Q) (table : String) (key : Bytes) (old new : List V)
    (e : Engine V E) : Prop :=
  ∀ td, e.tables.lookup table = some td →
    td.index.lookup key = some (ev.spill e td (serialize new)) ∧
      ∀ sec ∈ td.secondaryIndexes, SameKeys sec old new

def noteUndo (txnId : Option TxnId) (table : String) (key : Bytes) (prev : Option Bytes)
    (e : Engine V E) : Engine V E :=
  match txnId with
  | none => e
  | some tid => withUndo tid table key prev e

def insertRefused (txnId : Option TxnId) (table : String) (plan : InsertPlan V)
    (e : Engine V E) : Prop :=
  plan.update = none ∧
    match txnId with
    | some tid => ∃ err, TableData.snapshotFor e.tm tid = .error err
    | none => ∃ td, e.tables.lookup table = some td ∧
        FirstRefuses plan.row plan.key td.secondaryIndexes

def insertIdle (ev : Evaluator V E Q) (txnId : Option TxnId) (table : String)
    (plan : InsertPlan V) (e : Engine V E) : Prop :=
  ∃ old new, plan.update = some (old,new) ∧
    Rewrites ev table plan.key old new (noteUndo txnId table plan.key plan.existing e)

def updateRefused (txnId : Option TxnId) (table : String) (plan : UpdatePlan V)
    (e : Engine V E) : Prop :=
  ∃ tid, txnId = some tid ∧ VersionRefuses tid table plan.key (fun vs snap =>
    VersionStore.tryUpdate vs plan.key plan.new tid snap.startTs snap.startTs snap.activeTxns) e

def updateIdle (ev : Evaluator V E Q) (txnId : Option TxnId) (table : String)
    (plan : UpdatePlan V) (e : Engine V E) : Prop :=
  txnId = none ∧ Rewrites ev table plan.key plan.old plan.new e

variable (txnId : Option TxnId) (table : String) (plan : DeletePlan V) (e : Engine V E)

def deleteRefused : Prop :=
  plan.targets = [] ∧ ∃ tid, txnId = some tid ∧ VersionRefuses tid table plan.key (fun vs snap =>
      VersionStore.tryDelete vs plan.key tid snap.startTs snap.startTs snap.activeTxns) e

/-- Nothing is done to the row before the end of the statement. -/
def deleteIdle : Prop := txnId = none ∧ plan.targets = [] ∧ ∀ td, e.tables.lookup table = some td →
    deleteSecondaries plan.row plan.key td.secondaryIndexes = td.secondaryIndexes

end

variable {td : TableData V E} {key : Bytes} {old new : List V} {α : Type}

section
variable {e : Engine V E} {table : String}

lemma onTable_self
    (h : ∀ td, e.tables.lookup table = some td → f td = td) : e.onTable table f = e := by
  rw [onTable, adjust_self _ _ _ h]

lemma onVersions_same {r : Except CoreError α}
    {f : VersionStore (List V) → VersionStore (List V) × Except CoreError α}
    (htd : e.tables.lookup table = some td) (hf : f td.versionStore = (td.versionStore,r)) :
    onVersions table f e = ((r.map (fun _ => ())).mapError .core,e) := by
  have hself : e.onTable table (fun t => { t with versionStore := td.versionStore }) = e := by
    refine onTable_self (fun td' htd' => ?_)
    rw [htd] at htd'
    cases htd'
    rfl
  rw [onVersions, htd]
  simp only [hf, hself]
  cases r with
  | ok | error => rfl

variable {f : List SecondaryIndex → List SecondaryIndex × Except CoreError Unit}

lemma onSecondaries_same {r : Except CoreError Unit} (htd : e.tables.lookup table = some td)
    (hf : f td.secondaryIndexes = (td.secondaryIndexes,r)) :
    onSecondaries table f e = (r.mapError (fun err => .execution err.message),e) := by
  have hself :
      e.onTable table (fun t => { t with secondaryIndexes := td.secondaryIndexes }) = e := by
    refine onTable_self (fun td' htd' => ?_)
    rw [htd] at htd'
    cases htd'
    rfl
  rw [onSecondaries, htd]
  simp only [hf, hself]
  cases r with
  | ok | error => rfl

lemma onSecondaries_idle (hf : ∀ td, e.tables.lookup table = some td →
      f td.secondaryIndexes = (td.secondaryIndexes,.ok ())) :
    onSecondaries table f e = (.ok (),e) := by
  cases htd : e.tables.lookup table with
  | none => rw [onSecondaries, htd]
  | some td =>
    rw [onSecondaries_same htd (hf td htd)]
    rfl

variable {secs : List SecondaryIndex}

lemma insertSecondaries_refused {row : List V} (h : FirstRefuses row key secs) :
    ∃ err, insertSecondaries row key secs = (secs,.error err) := by
  induction secs with
  | nil => exact h.elim
  | cons sec secs ih =>
    rw [FirstRefuses] at h
    rw [insertSecondaries]
    cases hk : sec.keyValues row with
    | none =>
      rw [hk] at h
      obtain ⟨err,herr⟩ := ih h
      exact ⟨err,by simp only [herr]⟩
    | some kv =>
      rw [hk] at h
      exact ⟨sec.violated,by simp only [h, if_true]⟩

lemma updateSecondaries_same (h : ∀ sec ∈ secs, SameKeys sec old new) :
    updateSecondaries old new key secs = (secs,.ok ()) := by
  induction secs with
  | nil => rfl
  | cons sec secs ih =>
    have ih := ih (fun s hs => h s (by simp [hs]))
    rw [updateSecondaries]
    cases ho : sec.keyValues old with
    | none => simp only [ih]
    | some a =>
      cases hn : sec.keyValues new with
      | none => simp only [ih]
      | some b => simp only [h sec (by simp) a b ho hn, if_true, ih]

end

section
variable {names : String → Prop} {e₀ e : Engine V E} {tid : TxnId}

omit [Codec V] in
lemma snapshot_error {err : QueryError}
    (h : TableData.snapshotFor e.tm tid = .error err) : snapshot tid e = (.error err,e) :=
  congrArg (·,e) h

omit [Codec V] in
lemma snapshot_ok {snap : Snapshot}
    (h : TableData.snapshotFor e.tm tid = .ok snap) : snapshot tid e = (.ok snap,e) :=
  congrArg (·,e) h

variable {txnId : Option TxnId} {stmt : InsertStmt E Q} {plan : InsertPlan V}

lemma insertWrite_refused (slot : ℕ) (he : Kept names e₀ e)
    (h : insertRefused txnId stmt.table plan e) :
    ∃ err e', insertWrite ev txnId stmt td slot plan e = (.error err,e') ∧ Kept names e₀ e' := by
  obtain ⟨hplan,h⟩ := h
  rw [insertWrite, hplan]
  cases txnId with
  | some tid =>
    obtain ⟨err,hsnap⟩ := h
    let r := LogRecord.insert tid td.schema.columns.length slot (serialize plan.row)
    have hwal : walAppend r e = (.ok (),appendWal r e) := rfl
    have hsnap' : TableData.snapshotFor (appendWal r e).tm tid = .error err := hsnap
    have hversion : insertVersion tid stmt.table slot td plan e = (.error err,appendWal r e) :=
      (bind_ok hwal).trans (bind_error (snapshot_error hsnap'))
    exact ⟨err,appendWal r e,bind_error hversion,he.of_tables rfl⟩
  | none =>
    obtain ⟨td',htd,hfirst⟩ := h
    obtain ⟨err,herr⟩ := insertSecondaries_refused hfirst
    have hnone : inTxn none (fun tid => insertVersion tid stmt.table slot td plan) e =
      (.ok (),e) := rfl
    have hsec := onSecondaries_same htd herr
    exact ⟨_,e,(bind_ok hnone).trans (bind_error hsec),he⟩

variable {table : String}

lemma putRow_rewrites (h : Rewrites ev table key old new e) :
    ∃ e', putRow ev table key (serialize new) e = (.ok (),e') ∧ e'.tables = e.tables := by
  refine ⟨_,rfl,?_⟩
  refine adjust_self _ _ _ (fun td htd => ?_)
  have htd' : e.tables.lookup table = some td := htd
  have hstored := OrderedMap.insert_of_lookup td.index (h td htd').1
  simp only [htd', Option.map_some, Option.getD_some, hstored]

lemma updateSecondaries_rewrites (key : Bytes) (h : ∀ td, e.tables.lookup table = some td →
      ∀ sec ∈ td.secondaryIndexes, SameKeys sec old new) :
    updateSecondaryIndexesUpdate table old new key e = (.ok (),e) :=
  onSecondaries_idle (fun td htd => updateSecondaries_same (h td htd))

lemma insertWrite_idle (slot : ℕ) (he : Kept names e₀ e)
    (h : insertIdle ev txnId stmt.table plan e) :
    ∃ r e', insertWrite ev txnId stmt td slot plan e = (.ok r,e') ∧ Kept names e₀ e' := by
  obtain ⟨old,new,hplan,hsame⟩ := h
  rw [insertWrite, hplan]
  set e₁ := noteUndo txnId stmt.table plan.key plan.existing e with he₁
  have htables : e₁.tables = e.tables := by
    cases txnId with
    | none | some => rfl
  have hundo : recordUndo txnId stmt.table plan.key plan.existing e = (.ok (),e₁) := by
    cases txnId with
    | none | some => rfl
  obtain ⟨e₂,hput,ht₂⟩ := putRow_rewrites hsame
  have hsec := updateSecondaries_rewrites (e := e) plan.key
    (fun td htd => (hsame td (htables ▸ htd)).2)
  refine ⟨new,e₂,?_,he.of_tables (ht₂.trans htables)⟩
  exact (bind_ok hsec).trans ((bind_ok hundo).trans (bind_ok hput))

lemma versions_refused (base : List V)
    {change : VersionStore (List V) → Snapshot → VersionStore (List V) × Except CoreError α}
    (hchange : ∀ vs snap err, (change vs snap).2 = .error err → change vs snap = (vs,.error err))
    (h : VersionRefuses tid table key change e) (next : Exec V E Unit) : ∃ err, (do
      let snap ← snapshot tid
      onVersions table (fun vs => (ensureBase vs key base,Except.ok ()))
      onVersions table (fun vs => change vs snap)
      next) e = (.error err,e) := by
  rw [VersionRefuses] at h
  cases hsnap : TableData.snapshotFor e.tm tid with
  | error err => exact ⟨err,bind_error (snapshot_error hsnap)⟩
  | ok snap =>
    rw [hsnap] at h
    obtain ⟨td,err,htd,hchain,herr⟩ := h
    have hbase : onVersions table
        (fun vs => (ensureBase vs key base,Except.ok ())) e = (.ok (),e) :=
      onVersions_same (r := .ok ()) htd (congrArg (·,_) (ensureBase_of_chain hchain base))
    have hconflict : onVersions table (fun vs => change vs snap) e = (.error (.core err),e) :=
      onVersions_same (r := .error err) htd (hchange td.versionStore snap err herr)
    exact ⟨.core err,(bind_ok (snapshot_ok hsnap)).trans
      ((bind_ok hbase).trans (bind_error hconflict))⟩

lemma updateWrite_refused {stmt : UpdateStmt E}
    {plan : UpdatePlan V} (slot : ℕ) (he : Kept names e₀ e)
    (h : updateRefused txnId stmt.table plan e) :
    ∃ err e', updateWrite ev txnId stmt td slot plan e = (.error err,e') ∧ Kept names e₀ e' := by
  obtain ⟨tid,rfl,h⟩ := h
  obtain ⟨err,herr⟩ := versions_refused plan.old (fun _ _ _ => tryUpdate_error) h (do
      ssiWrite (some tid) stmt.table plan.key
      walAppend (.update tid td.schema.columns.length slot plan.data (serialize plan.new)))
  exact ⟨err,e,bind_error herr,he⟩

lemma updateWrite_idle {stmt : UpdateStmt E} {plan : UpdatePlan V} (slot : ℕ) (he : Kept names e₀ e)
    (h : updateIdle ev txnId stmt.table plan e) :
    ∃ r e', updateWrite ev txnId stmt td slot plan e = (.ok r,e') ∧ Kept names e₀ e' := by
  obtain ⟨rfl,hsame⟩ := h
  obtain ⟨e₂,hput,ht₂⟩ := putRow_rewrites hsame
  have hnone : inTxn none (fun tid => updateVersion tid stmt.table slot td plan) e =
    (.ok (),e) := rfl
  have hsec := updateSecondaries_rewrites (e := e) plan.key (fun td htd => (hsame td htd).2)
  exact ⟨plan.new,e₂,(bind_ok hnone).trans ((bind_ok hsec).trans (bind_ok hput)), he.of_tables ht₂⟩

variable {stmt : DeleteStmt E} {plan : DeletePlan V} (slot : ℕ) (he : Kept names e₀ e)
include he

lemma deleteWrite_refused (h : deleteRefused txnId stmt.table plan e) :
    ∃ err e', deleteWrite ev txnId stmt td slot plan e = (.error err,e') ∧ Kept names e₀ e' := by
  obtain ⟨htargets,tid,rfl,h⟩ := h
  obtain ⟨err,herr⟩ := versions_refused plan.row (fun _ _ _ => tryDelete_error) h (do
      ssiWrite (some tid) stmt.table plan.key
      walAppend (.delete tid td.schema.columns.length slot plan.data))
  refine ⟨err,e,?_,he⟩
  have hcascade : loop (fun _ t => cascade ev (some tid) t) () plan.targets e = (.ok (),e) := by
    rw [htargets]
    rfl
  exact (bind_ok hcascade).trans (bind_error herr)

lemma deleteWrite_idle (h : deleteIdle txnId stmt.table plan e) :
    ∃ r e', deleteWrite ev txnId stmt td slot plan e = (.ok r,e') ∧ Kept names e₀ e' := by
  obtain ⟨rfl,htargets,hsame⟩ := h
  have hcascade : loop (fun _ t => cascade ev none t) () plan.targets e = (.ok (),e) := by
    rw [htargets]
    rfl
  have hnone : inTxn none (fun tid => deleteVersion tid stmt.table slot td plan) e =
    (.ok (),e) := rfl
  have hsec : updateSecondaryIndexesDelete stmt.table plan.row plan.key e = (.ok (),e) :=
    onSecondaries_idle (fun td htd => congrArg (·,_) (hsame td htd))
  exact ⟨_,e,(bind_ok hcascade).trans ((bind_ok hnone).trans (bind_ok hsec)),he⟩

end

section
variable {names : String → Prop} {e₀ e : Engine V E}

def WritesNone (ev : Evaluator V E Q) (crc : Bytes → UInt32) (txnId : Option TxnId) :
    Dml E Q → Engine V E → Prop
  | .insert stmt =>
    After (insertRows ev crc txnId stmt) (fun rows =>
      After (getTable ev crc stmt.table) (fun td =>
        NoWrite (insertCheck ev txnId stmt td) (insertWrite ev txnId stmt td)
          (insertRefused txnId stmt.table) (insertIdle ev txnId stmt.table) (fun _ => True) 0 rows))
  | .update stmt =>
    After (getTable ev crc stmt.table) (fun td =>
      After (candidates ev txnId stmt.table td stmt.whereClause) (fun entries =>
        NoWrite (updateCheck ev txnId stmt td) (updateWrite ev txnId stmt td)
          (updateRefused txnId stmt.table) (updateIdle ev txnId stmt.table) (fun _ => True)
          0 entries))
  | .delete stmt =>
    After (getTable ev crc stmt.table) (fun td =>
      After (candidates ev txnId stmt.table td stmt.whereClause) (fun entries =>
        After (get (fun e => fkRefs e stmt.table td.schema) : Exec V E _) (fun refs =>
          NoWrite (deleteCheck ev txnId stmt td refs) (deleteWrite ev txnId stmt td)
            (deleteRefused txnId stmt.table) (deleteIdle txnId stmt.table) (· = 0) 0 entries)))

section
variable (hq : Quiet ev names (Kept names)) (txnId : Option TxnId)
include hq

lemma insert_kept (stmt : InsertStmt E Q) (hname : names stmt.table) (he : Kept names e₀ e)
    (h : WritesNone ev crc txnId (.insert stmt) e) :
    Kept names e₀ (execInsert ev crc txnId stmt e).2 := by
  have hs : Steady ev (Kept names e₀) := Kept.steady hq
  refine bind_after ((stays_insertRows hs txnId stmt (Kept.loads hname)).state he) h ?_
  intro rows e₁ he₁ h₁
  refine bind_after ((stays_getTable (Kept.loads hname)).state he₁) h₁ ?_
  intro td e₂ he₂ h₂
  obtain ⟨hloop,hend⟩ := loop_noWrite (stays_insertCheck hs txnId stmt td)
    (fun plan e n => insertWrite_refused n) (fun plan e n => insertWrite_idle n) rows [] he₂ h₂
  exact bind_after hloop hend (fun done e₃ he₃ _ => (stays_finish hs txnId _ _ _).state he₃)

lemma update_kept (stmt : UpdateStmt E) (hname : names stmt.table) (he : Kept names e₀ e)
    (h : WritesNone ev crc txnId (.update stmt) e) :
    Kept names e₀ (execUpdate ev crc txnId stmt e).2 := by
  have hs : Steady ev (Kept names e₀) := Kept.steady hq
  refine bind_after ((stays_getTable (Kept.loads hname)).state he) h ?_
  intro td e₁ he₁ h₁
  refine bind_after ((stays_candidates hs txnId _ _ _).state he₁) h₁ ?_
  intro entries e₂ he₂ h₂
  obtain ⟨hloop,hend⟩ := loop_noWrite
    (fun entry => stays_updateCheck hs txnId stmt td entry (fun _ _ _ _ h => h.of_tables rfl))
    (fun plan e n => updateWrite_refused n) (fun plan e n => updateWrite_idle n) entries [] he₂ h₂
  exact bind_after hloop hend (fun done e₃ he₃ _ => (stays_finish hs txnId _ _ _).state he₃)

lemma delete_kept (stmt : DeleteStmt E) (hname : names stmt.table) (he : Kept names e₀ e)
    (h : WritesNone ev crc txnId (.delete stmt) e) :
    Kept names e₀ (execDelete ev crc txnId stmt e).2 := by
  have hs : Steady ev (Kept names e₀) := Kept.steady hq
  refine bind_after ((stays_getTable (Kept.loads hname)).state he) h ?_
  intro td e₁ he₁ h₁
  refine bind_after ((stays_candidates hs txnId _ _ _).state he₁) h₁ ?_
  intro entries e₂ he₂ h₂
  refine bind_after ((stays_get _).state he₂) h₂ ?_
  intro refs e₃ he₃ h₃
  obtain ⟨hloop,hend⟩ := loop_noWrite (fun entry => stays_deleteCheck hs txnId stmt td refs entry
      (fun _ _ _ _ h => h.of_tables rfl))
    (fun plan e n => deleteWrite_refused n) (fun plan e n => deleteWrite_idle n) entries [] he₃ h₃
  refine bind_after hloop hend ?_
  intro done e₄ he₄ hdone
  -- with no row gone through there is nothing to delete at the end
  obtain rfl : done = [] := List.length_eq_zero_iff.mp hdone
  exact (stays_finish hs txnId _ _ _).state he₄

end

lemma Kept.alike (h : Kept names e₀ e) (ha : Alike e e') : Kept names e₀ e' := h.of_tables ha.tables

end

section
open Integers

lemma integers_kept (names : String → Prop) : Quiet Expr.evaluator names (Kept names) :=
  integers_quiet names _ (fun e h => ⟨.refl e,h⟩)

def checked : Engine Value Expr := engine (AList.insert "t" (table (schema "t" [])
    [.lt (.column "v") (.literal (.int64 5))] [(1,0), (2,1)]) ∅) none

def vacant : Engine Value Expr := engine (AList.insert "t" (table (schema "t" []) [] []) ∅) none

end

end ByteDB.Engine
