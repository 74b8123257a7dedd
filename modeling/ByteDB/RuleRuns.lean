import ByteDB.Redefinitions
import ByteDB.Runs
import ByteDB.StoredRows

/-!
# A rule over whole runs

The rows of all tables meet a rule in every state of a run if they meet it at
the start and every statement meets a condition: what it writes meets the
rule, and a table does not change its definition under the rows it has or
that a rollback may put back.
-/

set_option autoImplicit false

namespace ByteDB.Engine
open ByteDB.Assoc Command Codec VersionStore

variable {V E Q : Type} [Codec V] {ev : Evaluator V E Q} {crc : Bytes → UInt32}
  {names : String → Prop} {G : Rule V E} {txnId : Option TxnId} {e : Engine V E}

def TablesGood (names : String → Prop) (G : Rule V E) (tables : Map String (TableData V E)) :
    Prop :=
  ∀ t td, tables.lookup t = some td → names t ∧ TableGood G td

structure Everywhere (names : String → Prop) (G : Rule V E) (e : Engine V E) : Prop where
  sound : Sound names G e
  cached : ∀ db tables, e.dbTables.lookup db = some tables → TablesGood names G tables

def NoImages (e : Engine V E) (table : String) : Prop :=
  ∀ tid k data, (e.undoOf tid).lookup (table,k) ≠ some (some data)

variable {b : Engine V E}

section

lemma Sound.tablesGood (h : Sound names G e) : TablesGood names G e.tables :=
  fun t td htd => ⟨h.within t td htd,h.tables t td htd⟩

lemma TablesGood.sound (h : TablesGood names G e.tables)
    (himages : ∀ tid t k data values td, (e.undoOf tid).lookup (t,k) = some (some data) →
      decodeRow data = some values → e.tables.lookup t = some td → G (defn td) k values) :
    Sound names G e :=
  ⟨fun t td htd => (h t td htd).1,fun t td htd => (h t td htd).2,himages⟩

variable {e' : Engine V E}

lemma Sound.of_tables (h : Sound names G e) (ht : e'.tables = e.tables)
    (hu : ∀ tid r img, (e'.undoOf tid).lookup r = some img → (e.undoOf tid).lookup r = some img) :
    Sound names G e' where
  within t td htd := h.within t td (ht ▸ htd)
  tables t td htd := h.tables t td (ht ▸ htd)
  images tid t k data values td himg hdec htd :=
    h.images tid t k data values td (hu tid (t,k) _ himg) hdec (ht ▸ htd)

lemma Everywhere.of_tables (h : Everywhere names G e)
    (ht : e'.tables = e.tables) (hu : e'.undo = e.undo) (hd : e'.dbTables = e.dbTables) :
    Everywhere names G e' := by
  refine ⟨h.sound.of_tables ht (fun tid r img himg => ?_),?_⟩
  · rwa [undoOf, hu] at himg
  · rw [hd]
    exact h.cached

lemma Alike.everywhere (ha : Alike e e') (h : Everywhere names G e) : Everywhere names G e' :=
  h.of_tables ha.tables ha.undo ha.dbTables

lemma Held.everywhere (hb : Everywhere names G b) (h : Held names G b e) :
    Everywhere names G e := by
  refine ⟨h.sound,?_⟩
  rw [h.fixed.2.2.1]
  exact hb.cached

end

variable {name : String} {td : TableData V E}

section

def NoLoad (ev : Evaluator V E Q) (crc : Bytes → UInt32) (e : Engine V E) (name : String) : Prop :=
  e.tables.lookup name = none → ∀ td, reloadTable ev crc e name ≠ .ok td

lemma getTable_some (h : e.tables.lookup name = some td) : getTable ev crc name e = (.ok td,e) := by
  rw [getTable, h]

lemma getTable_none (h : e.tables.lookup name = none)
    (hload : NoLoad ev crc e name) : ∃ err, getTable ev crc name e = (.error err,e) := by
  rw [getTable, h]
  cases hr : reloadTable ev crc e name with
  | error err => exact ⟨err,rfl⟩
  | ok td => exact absurd hr (hload h td)

variable {t : String}

lemma Held.table (h : Held names G b e) {d : Schema V × List E}
    (hd : defs b t = some d) : ∃ td, e.tables.lookup t = some td ∧ defn td = d := by
  rw [← h.defined t] at hd
  exact Option.map_eq_some_iff.mp hd

lemma Held.noLoad (h : Held names G b e) (hload : NoLoad ev crc b t) : NoLoad ev crc e t := by
  intro hnone td hr
  cases hb : b.tables.lookup t with
  | some td0 =>
    obtain ⟨td',htd',-⟩ := h.table (defs_eq hb)
    rw [hnone] at htd'
    cases htd'
  | none =>
    refine hload hb td ?_
    rwa [reloadTable, h.fixed.1] at hr

lemma Held.loads (hload : NoLoad ev crc b t) : Loads ev crc t (Held names G b) :=
  fun _ td hs hnone hr => absurd hr (hs.noLoad hload hnone td)

end

section

/-- The rows that INSERT, UPDATE or DELETE writes meet the rule if those that
are there do and the values that an INSERT is given have a property. -/
def Upholds (ev : Evaluator V E Q) (G : Rule V E) (txnId : Option TxnId) (e : Engine V E)
    (given : List V → Prop) : Dml E Q → Prop
  | .insert stmt => ∀ td, defs e stmt.table = some (defn td) →
      (∀ e₀ values p, given values → InsertFacts ev txnId stmt td values e₀ p → p.update = none →
        G (defn td) p.key p.row) ∧
      (∀ assignments old new k, stmt.onConflict = some (.doUpdate assignments) →
        Assigned ev td.schema assignments old new → G (defn td) k old → G (defn td) k new)
  | .update stmt => ∀ td, defs e stmt.table = some (defn td) →
      ∀ e₀ entry p, UpdateFacts ev txnId stmt td e₀ entry p →
        G (defn td) entry.1 p.old → G (defn td) entry.1 p.new
  | .delete stmt => ∀ child td fk, e.tables.lookup child = some td → child ≠ stmt.table →
      fk ∈ td.schema.foreignKeys → fk.refTable = stmt.table → fk.onDelete = .setNull →
      ∀ k row, G (defn td) k row →
        G (defn td) k (nulled (fk.columns.filterMap td.schema.columnIndex) row)

def Given (ev : Evaluator V E Q) (crc : Bytes → UInt32) (txnId : Option TxnId) (e : Engine V E)
    (given : List V → Prop) : Dml E Q → Prop
  | .insert stmt => After (insertRows ev crc txnId stmt) (fun rows _ => ∀ row ∈ rows, given row) e
  | .update _ => True
  | .delete _ => True

lemma given_true (stmt : Dml E Q) : Given ev crc txnId e (fun _ => True) stmt := by
  cases stmt with
  | insert stmt =>
    rw [Given, After]
    split
    · exact fun _ _ => trivial
    · trivial
  | update | delete => trivial

variable {table : String}

lemma triple_bind_getTable {α : Type}
    {m : TableData V E → Exec V E α} {P F : Engine V E → Prop} {R : α → Engine V E → Prop}
    (hP : ∀ s, P s → Held names G b s) (hF : ∀ s, P s → F s) (hload : NoLoad ev crc b table)
    (hm : ∀ td0 td, b.tables.lookup table = some td0 → defn td0 = defn td → Triple P (m td) R F) :
    Triple P (getTable ev crc table >>= m) R F := by
  intro s hs
  cases htd : s.tables.lookup table with
  | none =>
    obtain ⟨err,herr⟩ := getTable_none htd ((hP s hs).noLoad hload)
    rw [bind_error herr]
    exact hF s hs
  | some td =>
    rw [bind_ok (getTable_some htd)]
    obtain ⟨td0,htd0,hdefn⟩ := Option.map_eq_some_iff.mp
      (((hP s hs).defined table).symm.trans (defs_eq htd))
    exact hm td0 td htd0 hdefn s hs

lemma held_bind_getTable {α : Type} {m : TableData V E → Exec V E α} (hload : NoLoad ev crc b table)
    (hm : ∀ td, defs b table = some (defn td) → Stays (Held names G b) (m td)) :
    Stays (Held names G b) (getTable ev crc table >>= m) :=
  triple_bind_getTable (fun _ h => h) (fun _ h => h) hload
    (fun _ td htd0 hdefn => hm td ((defs_eq htd0).trans (congrArg some hdefn)))

variable {given : List V → Prop}

lemma held_insert (hq : Quiet ev names Still) (hread : Readable ev G) (he : Sound names G e)
    (stmt : InsertStmt E Q) (hload : NoLoad ev crc e stmt.table) (hgiven : Given ev crc txnId e given (.insert stmt))
    (hup : Upholds ev G txnId e given (.insert stmt)) :
    Held names G e (execInsert ev crc txnId stmt e).2 := by
  have h : Steady ev (Held names G e) := settled_held.steady hq
  refine bind_after (Q := fun rows _ => ∀ row ∈ rows, given row)
    ((stays_insertRows h txnId stmt (Held.loads hload)).state he.held) hgiven ?_
  intro rows s hs hrows
  refine (held_bind_getTable hload (fun td htd => ?_)).state hs
  obtain ⟨hrow,hupdate⟩ := hup td htd
  refine stays_bind (stays_loop rows (fun values hvalues done => ?_) []) (fun done =>
    stays_finish h txnId _ _ _)
  exact stays_insertRow hq hread stmt td values htd
    (fun e0 p => hrow e0 values p (hrows values hvalues)) hupdate done

lemma stays_update (hq : Quiet ev names Still) (hread : Readable ev G)
    (stmt : UpdateStmt E) (hload : NoLoad ev crc e stmt.table)
    (hup : Upholds ev G txnId e given (.update stmt : Dml E Q)) :
    Stays (Held names G e) (execUpdate ev crc txnId stmt) := by
  have h : Steady ev (Held names G e) := settled_held.steady hq
  refine held_bind_getTable hload (fun td htd => ?_)
  refine triple_fact (triple_candidates hq hread stmt.table td stmt.whereClause) ?_
  intro entries hentries
  refine stays_bind (stays_loop entries (fun entry hentry done => ?_) []) (fun done =>
    stays_finish h txnId _ _ _)
  exact stays_updateRow hq hread stmt td htd (hup td htd) entry (hentries entry hentry) done

omit [Codec V] in
lemma fkRefs_mem {schema : Schema V} {fkr : FkRef}
    (h : fkr ∈ fkRefs e table schema) : ∃ td fk, e.tables.lookup fkr.childName = some td ∧
      fkr.childName ≠ table ∧ fk ∈ td.schema.foreignKeys ∧ fk.refTable = table ∧
      fkr.onDelete = fk.onDelete ∧ fkr.parentIdxs = fk.refColumns.filterMap schema.columnIndex ∧
      fkr.childIdxs = fk.columns.filterMap td.schema.columnIndex := by
  rw [fkRefs] at h
  obtain ⟨⟨child,td⟩,hmem,hother⟩ := List.mem_flatMap.mp h
  have htd : e.tables.lookup child = some td := AList.mem_lookup_iff.mpr hmem
  split at hother
  · cases hother
  · rename_i hne
    obtain ⟨fk,hfk,rfl⟩ := List.mem_map.mp hother
    obtain ⟨hfk,href⟩ := List.mem_filter.mp hfk
    exact ⟨td,fk,htd,hne,hfk,of_decide_eq_true href,rfl,rfl,rfl⟩

lemma nullSafe_fkRefs {stmt : DeleteStmt E}
    (hup : Upholds ev G txnId b given (.delete stmt : Dml E Q)) (he : Held names G b e)
    {schema : Schema V} {fkr : FkRef} (hfkr : fkr ∈ fkRefs e stmt.table schema) :
    NullSafe G b fkr.childName fkr.onDelete fkr.childIdxs := by
  intro haction k row hgood d hd
  obtain ⟨child,fk,hchild,hne,hfk,href,honDelete,-,hidxs⟩ := fkRefs_mem hfkr
  obtain ⟨child0,hchild0,hdefn⟩ := Option.map_eq_some_iff.mp
    ((he.defined fkr.childName).symm.trans (defs_eq hchild))
  have hschema : child0.schema = child.schema := congrArg Prod.fst hdefn
  have hsame : d = defn child0 := Option.some.inj (hd.symm.trans (defs_eq hchild0))
  rw [hidxs, ← hschema, hsame]
  refine hup fkr.childName child0 fk hchild0 hne (hschema ▸ hfk) href (honDelete ▸ haction) k row ?_
  exact hgood (defn child0) (defs_eq hchild0)

lemma stays_delete (hq : Quiet ev names Still) (hread : Readable ev G)
    (stmt : DeleteStmt E) (hload : NoLoad ev crc e stmt.table)
    (hup : Upholds ev G txnId e given (.delete stmt : Dml E Q)) :
    Stays (Held names G e) (execDelete ev crc txnId stmt) := by
  have h : Steady ev (Held names G e) := settled_held.steady hq
  refine held_bind_getTable hload (fun td htd => ?_)
  refine triple_fact (triple_candidates hq hread stmt.table td stmt.whereClause) ?_
  intro entries hentries
  refine triple_fact (r := fun refs : List FkRef =>
    ∀ fkr ∈ refs, NullSafe G e fkr.childName fkr.onDelete fkr.childIdxs)
    (triple_get _ (fun s hs => ⟨hs,fun fkr hfkr => nullSafe_fkRefs hup hs hfkr⟩))
    (fun refs hrefs => ?_)
  refine stays_bind (stays_loop entries (fun entry hentry done => ?_) []) (fun done => ?_)
  · exact stays_deleteRowOf hq hread stmt td refs hrefs entry (hentries entry hentry) done
  · exact stays_bind (stays_loop _ (fun key _ _ => stays_deleteRow _ _) ())
      (fun _ => stays_finish h txnId _ _ _)

lemma held_dml (hq : Quiet ev names Still) (hread : Readable ev G) (he : Sound names G e)
    (stmt : Dml E Q) (hload : NoLoad ev crc e stmt.table)
    (hgiven : Given ev crc txnId e given stmt) (hup : Upholds ev G txnId e given stmt) :
    Held names G e (execDml ev crc txnId stmt e).2 := by
  cases stmt with
  | insert stmt => exact held_insert hq hread he stmt hload hgiven hup
  | update stmt => exact (stays_update hq hread stmt hload hup).state he.held
  | delete stmt => exact (stays_delete hq hread stmt hload hup).state he.held

end

section
variable {b : Engine V E}

lemma TableGood.restoreRow (h : TableGood G td) {key : Bytes}
    {prev : Option Bytes} (hprev : ∀ data values, prev = some data →
      decodeRow data = some values → G (defn td) key values) :
    TableGood G (restoreRow key prev td) ∧ defn (restoreRow key prev td) = defn td := by
  have hput : ∀ pv secs, prev = some pv → TableGood G
      { td with index := td.index.insert key pv, secondaryIndexes := secs } := by
    intro pv secs hpv
    refine ⟨fun k data values hlook hdec => ?_,h.versions⟩
    rw [OrderedMap.lookup_insert] at hlook
    split at hlook
    · rename_i hk
      cases hlook
      rw [hk]
      exact hprev pv values hpv hdec
    · exact h.stored k data values hlook hdec
  rw [Engine.restoreRow.eq_def]
  cases td.index.lookup key with
  | none =>
    cases prev with
    | none => exact ⟨h,rfl⟩
    | some pv => exact ⟨hput pv _ rfl,rfl⟩
  | some cur =>
    cases prev with
    | some pv => exact ⟨hput pv _ rfl,rfl⟩
    | none =>
      refine ⟨⟨fun k data values hlook hdec => ?_,h.versions⟩,rfl⟩
      rw [OrderedMap.lookup_erase] at hlook
      split at hlook
      · cases hlook
      · exact h.stored k data values hlook hdec

lemma held_restore (us : List ((_ : RowId) × Option Bytes)) (h : Held names G b e)
    (hus : ∀ u ∈ us, ∀ data values, u.2 = some data → decodeRow data = some values →
      Good G b u.1.1 u.1.2 values) :
    Held names G b { e with tables := us.foldl restoreEntry e.tables } := by
  induction us generalizing e with
  | nil => exact h
  | cons u us ih =>
    have hone : Held names G b (e.onTable u.1.1 (restoreRow u.1.2 u.2)) := by
      have hgood : ∀ td, e.tables.lookup u.1.1 = some td →
          TableGood G (restoreRow u.1.2 u.2 td) ∧ defn (restoreRow u.1.2 u.2 td) = defn td := by
        intro td htd
        refine (h.sound.tables _ td htd).restoreRow (fun data values hdata hdec => ?_)
        exact hus u (by simp) data values hdata hdec _ ((h.defined u.1.1).symm.trans (defs_eq htd))
      refine h.onTable u.1.1 (fun td => ?_) (fun td htd => (hgood td htd).1)
      rw [Engine.restoreRow.eq_def]
      split
      · rfl
      · rfl
      · rfl
      · rfl
    exact ih hone (fun u' hu' => hus u' (by simp [hu']))

lemma held_dropVersions (tid : TxnId) (ts : List String) (h : Held names G b e) :
    Held names G b { e with tables := ts.foldl (dropVersions tid) e.tables } := by
  induction ts generalizing e with
  | nil => exact h
  | cons t ts ih =>
    refine ih (e := e.onTable t (fun td => { td with
      versionStore := rollbackTxn td.versionStore tid })) ?_
    refine h.onTable t (fun _ => rfl) (fun td htd => ?_)
    have htable := h.sound.tables t td htd
    refine ⟨htable.stored,fun k v hv => ?_⟩
    rw [chain_rollback, rollbackChain] at hv
    obtain ⟨w,hw,rfl⟩ := List.mem_map.mp (List.mem_of_mem_filter hv)
    have hdata : (restore tid w).data = w.data := by
      rw [restore]
      split
      · rfl
      · rfl
    rw [hdata]
    exact htable.versions k w hw

lemma Sound.erase_undo (h : Sound names G e) (tid : TxnId) :
    Sound names G { e with undo := e.undo.erase tid } := by
  refine h.of_tables rfl (fun tid' r img himg => ?_)
  rw [undoOf, lookup_erase_eq] at himg
  split at himg
  · cases himg
  · exact himg

lemma everywhere_rollback (he : Everywhere names G e) (tid : TxnId) :
    Everywhere names G (rollbackTxnEffects tid e) := by
  rw [rollbackTxnEffects]
  have he1 : Everywhere names G (e.discardTxnDeltas tid).clearPendingDeltas :=
    he.of_tables rfl rfl rfl
  generalize (e.discardTxnDeltas tid).clearPendingDeltas = e1 at he1 ⊢
  cases hundo : e1.undo.lookup tid with
  | none => exact he1
  | some undo =>
    have hus : ∀ u ∈ undo.entries, ∀ data values, u.2 = some data →
        decodeRow data = some values → Good G e1 u.1.1 u.1.2 values := by
      intro u hu data values hdata hdec
      have himg : (e1.undoOf tid).lookup u.1 = some (some data) := by
        rw [undoOf, hundo, ← hdata]
        exact AList.mem_lookup_iff.mpr hu
      exact he1.sound.held.good_image himg hdec
    have hheld := held_dropVersions tid (undo.entries.map (fun u => u.1.1)).dedup
      (held_restore undo.entries he1.sound.held hus)
    exact ⟨hheld.sound.erase_undo tid,he1.cached⟩

end

section
variable (ev : Evaluator V E Q) (crc : Bytes → UInt32) (names : String → Prop) (G : Rule V E)
  (e : Engine V E) (name : String)

def LoadsGood : Prop := ∀ ds ds', e.disk = some ds → ds.switchDatabase name = .ok ds' →
    TablesGood names G (loadTables ev crc ds' ds'.listTables ∅).1

/-- A change of the database: no transaction would put a row back, and what
comes from disk is good. -/
def SwitchKeeps : Prop := name ≠ e.currentDb → (∀ t, NoImages e t) ∧
    (e.dbTables.lookup name = none → LoadsGood ev crc names G e name)

end

lemma everywhere_use (he : Everywhere names G e) (hkeep : SwitchKeeps ev crc names G e name) :
    Everywhere names G (execUse ev crc name e).2 := by
  rcases use_switched ev crc e name with heq | hsw
  · rw [heq]
    exact he
  obtain ⟨hno,hload⟩ := hkeep hsw.other
  have hbrought : ∀ tables, Brought ev crc e name tables → TablesGood names G tables := by
    intro tables h
    cases h with
    | kept h => exact he.cached name tables h
    | none => exact nofun
    | loaded hmiss hdisk hds => exact hload hmiss _ _ hdisk hds
  refine ⟨(hbrought _ hsw.brought).sound (fun tid t k data values td himg => ?_),fun db tables hdb => ?_⟩
  -- There are no images, so all that matters is the tables.
  · rw [undoOf, hsw.undo] at himg
    exact absurd himg (hno t tid k data)
  · rcases hsw.dbTables db tables hdb with rfl | hdb
    · exact he.sound.tablesGood
    · exact he.cached db tables hdb

/-- A definition that changes no table that has rows, or keeps them good. -/
def DdlKeeps (ev : Evaluator V E Q) (crc : Bytes → UInt32) (names : String → Prop) (G : Rule V E)
    (e : Engine V E) : Ddl E → Prop
  | .createTable ct => names ct.name ∧ NoImages e ct.name
  | .truncate name => NoLoad ev crc e name
  | .alterTable table action => ∀ td columns keepIndexes, e.tables.lookup table = some td →
      alteredColumns td.schema action = .ok (columns,keepIndexes) →
      ∀ k row, G (defn td) k row → G (defn (withColumns columns keepIndexes td)) k row
  | .dropTable _ _ => True
  | .createIndex _ => True
  | .dropIndex _ => True
  | .createDatabase _ _ => True
  | .dropDatabase _ _ => True

lemma everywhere_setTable (he : Everywhere names G e) (hname : names name) (htd : TableGood G td)
    (himages : ∀ tid k data values, (e.undoOf tid).lookup (name,k) = some (some data) →
      decodeRow data = some values → G (defn td) k values) :
    Everywhere names G (setTable name td e) := by
  refine ⟨TablesGood.sound (fun t td' htd' => ?_)
    (fun tid t k data values td' himg hdec htd' => ?_),he.cached⟩
  · rcases lookup_insert_cases htd' with ⟨ht,rfl⟩ | ⟨-,htd'⟩
    · rw [ht]
      exact ⟨hname,htd⟩
    · exact he.sound.tablesGood t td' htd'
  · rcases lookup_insert_cases htd' with ⟨ht,rfl⟩ | ⟨-,htd'⟩
    · rw [ht] at himg
      exact himages tid k data values himg hdec
    · exact he.sound.images tid t k data values td' himg hdec htd'

lemma everywhere_replace (he : Everywhere names G e) {td td' : TableData V E}
    (htd : e.tables.lookup name = some td) (hgood : TableGood G td')
    (hdefn : ∀ k row, G (defn td) k row → G (defn td') k row) :
    Everywhere names G (setTable name td' e) :=
  everywhere_setTable he (he.sound.within name td htd) hgood (fun tid k data values himg hdec =>
      hdefn k values (he.sound.images tid name k data values td himg hdec htd))

lemma tableGood_empty (hindex : td.index = .empty)
    (hversions : td.versionStore = .new) : TableGood G td := by
  refine ⟨fun k data values hlook => ?_,fun k v hv => ?_⟩
  · rw [hindex] at hlook
    cases hlook
  · rw [hversions] at hv
    cases hv

lemma everywhere_erase (he : Everywhere names G e) (name : String) :
    Everywhere names G { e with tables := e.tables.erase name } := by
  refine ⟨TablesGood.sound (fun t td htd => ?_) ?_,he.cached⟩
  · exact he.sound.tablesGood t td (lookup_erase_cases htd).2
  · exact fun tid t k data values td himg hdec htd =>
      he.sound.images tid t k data values td himg hdec (lookup_erase_cases htd).2

lemma getTable_ok (hload : NoLoad ev crc e name)
    {e1 : Engine V E} (h : getTable ev crc name e = (.ok td,e1)) :
    e.tables.lookup name = some td ∧ e1 = e := by
  cases htd : e.tables.lookup name with
  | none =>
    obtain ⟨err,herr⟩ := getTable_none htd hload
    rw [herr] at h
    cases h
  | some td' =>
    rw [getTable_some htd] at h
    cases h
    exact ⟨rfl,rfl⟩

lemma everywhere_ddl (he : Everywhere names G e) {stmt : Ddl E}
    (hkeep : DdlKeeps ev crc names G e stmt) : Everywhere names G (execDdl ev crc stmt e).2 := by
  cases redefined_ddl ev crc e stmt with
  | same h => exact h.everywhere he
  | create h =>
    refine h.everywhere (everywhere_setTable he hkeep.1 (tableGood_empty rfl rfl) ?_)
    exact fun tid k data values himg => absurd himg (hkeep.2 tid k data)
  | drop h => exact h.everywhere (everywhere_erase he _)
  | truncate hget h =>
    obtain ⟨htd,rfl⟩ := getTable_ok hkeep hget
    exact h.everywhere (everywhere_replace he htd (tableGood_empty rfl rfl) (fun _ _ h => h))
  | alter htd hcols h =>
    have hdefn := hkeep _ _ _ htd hcols
    have hgood := he.sound.tables _ _ htd
    refine h.everywhere (everywhere_replace he htd ⟨?_,?_⟩ hdefn)
    · exact fun k data values hlook hdec =>
        hdefn k values (hgood.stored k data values hlook hdec)
    · exact fun k v hv => hdefn k v.data (hgood.versions k v hv)
  | createIndex htd _ h =>
    have hgood := he.sound.tables _ _ htd
    exact h.everywhere (everywhere_replace he htd ⟨hgood.stored,hgood.versions⟩ (fun _ _ h => h))
  | dropIndex htd h =>
    have hgood := he.sound.tables _ _ htd
    exact h.everywhere (everywhere_replace he htd ⟨hgood.stored,hgood.versions⟩ (fun _ _ h => h))
  | dropDatabase h =>
    refine h.everywhere ⟨he.sound.of_tables rfl (fun _ _ _ h => h),fun db tables hdb => ?_⟩
    obtain ⟨-,hdb⟩ := lookup_erase_cases hdb
    exact he.cached db tables hdb

def cleared (e : Engine V E) : Engine V E := { e with pendingSubqueryError := none }

def Keeps (ev : Evaluator V E Q) (crc : Bytes → UInt32) (names : String → Prop) (G : Rule V E)
    (e : Engine V E) (txnId : Option TxnId) : Statement E Q → Prop
  | .begin _ => True
  | .commit => True
  | .rollback => True
  | .query _ => True
  | .useDatabase name => SwitchKeeps ev crc names G e name
  | .dml stmt => NoLoad ev crc e stmt.table ∧ ∃ given, Given ev crc txnId e given stmt ∧
      Upholds ev G txnId e given stmt
  | .ddl stmt => DdlKeeps ev crc names G e stmt

lemma everywhere_commit (he : Everywhere names G e) :
    Everywhere names G (execCommit crc txnId e).2 := by
  cases txnId with
  | none => exact he
  | some tid =>
    rw [execCommit]
    dsimp only
    cases e.tm.commit tid with
    | mk tm r =>
      cases r with
      | ok _ =>
        have herase : Everywhere names G { e with tm := tm, undo := e.undo.erase tid } :=
          ⟨(he.sound.erase_undo tid).of_tables rfl (fun _ _ _ h => h),he.cached⟩
        exact herase.of_tables rfl rfl rfl
      | error err =>
        have htm : Everywhere names G { e with tm := tm } := he.of_tables rfl rfl rfl
        exact (everywhere_rollback htm tid).of_tables rfl rfl rfl

lemma everywhere_execRollback (he : Everywhere names G e) :
    Everywhere names G (execRollback txnId e).2 := by
  cases txnId with
  | none => exact he
  | some tid =>
    have hback := everywhere_rollback he tid
    rw [execRollback]
    dsimp only
    split
    · exact hback.of_tables rfl rfl rfl
    · exact hback.of_tables rfl rfl rfl

section
variable (hq : Quiet ev names Still) (hread : Readable ev G) (he : Everywhere names G e)
  {stmt : Statement E Q}
include hq hread he

lemma everywhere_dispatch (hkeep : Keeps ev crc names G e txnId stmt) :
    Everywhere names G (dispatch ev crc stmt txnId e).2 := by
  cases stmt with
  | begin isolation => exact he.of_tables rfl rfl rfl
  | commit => exact everywhere_commit he
  | rollback => exact everywhere_execRollback he
  | useDatabase name => exact everywhere_use he hkeep
  | query q =>
    have h : Steady ev (Held names G e) := settled_held.steady hq
    refine Held.everywhere he (Stays.state (P := Held names G e) ?_ he.sound.held)
    exact stays_bind (stays_runSelect h txnId q) (fun _ =>
      stays_bind (stays_get _) (fun _ => stays_pure _))
  | dml stmt =>
    obtain ⟨hload,given,hgiven,hup⟩ := hkeep
    exact (alike_settleDeltas txnId _).everywhere
      (Held.everywhere he (held_dml hq hread he.sound stmt hload hgiven hup))
  | ddl stmt => exact everywhere_ddl he hkeep

lemma everywhere_execute (hkeep : Keeps ev crc names G (cleared e) txnId stmt) :
    Everywhere names G (execute ev crc stmt txnId e).2 := by
  have hcleared : Everywhere names G (cleared e) := he.of_tables rfl rfl rfl
  exact (alike_raisePending _).everywhere (everywhere_dispatch hq hread hcleared hkeep)

end

def session (ev : Evaluator V E Q) (crc : Bytes → UInt32) (e : Engine V E)
    (s : Statement E Q × Option TxnId) : Option (Engine V E) :=
  some (execute ev crc s.1 s.2 e).2

lemma Reaches.one {C : Engine V E → Statement E Q × Option TxnId → Prop} {e0 : Engine V E}
    (s : Statement E Q × Option TxnId) (h : Runs.Reaches (session ev crc) C e0 e) (hs : C e s) :
    Runs.Reaches (session ev crc) C e0 (executeAll ev crc e [s]) :=
  .step s h hs rfl

lemma everywhere_reaches (hq : Quiet ev names Still) (hread : Readable ev G)
    {C : Engine V E → Statement E Q × Option TxnId → Prop}
    (hC : ∀ e s, Everywhere names G e → C e s → Keeps ev crc names G (cleared e) s.2 s.1)
    {e0 : Engine V E} (h0 : Everywhere names G e0)
    (h : Runs.Reaches (session ev crc) C e0 e) : Everywhere names G e := by
  refine h.invariant h0 (fun s a s' hs hCa hstep => ?_)
  cases hstep
  exact everywhere_execute hq hread hs (hC s a hs hCa)

end ByteDB.Engine
