import ByteDB.ForeignKeyRuns
import ByteDB.IndexedRows

/-!
# Secondary indexes over whole runs

Statements, rollbacks, the eviction of tables and their reload keep the
entries of the secondary indexes those of the rows, as long as no index is
unique, the columns of the indexes hold what an index can be about, and UPDATE
sees the rows as they are stored.
-/

set_option autoImplicit false

namespace ByteDB.Engine
open ByteDB.Assoc Command Codec SecondaryIndex List Function Option Prod OrderedMap

variable {V E Q : Type} [Codec V] {ev : Evaluator V E Q} {crc : Bytes → UInt32}
  {names : String → Prop} {K : String → ℕ → Option V → Prop} {b e : Engine V E}
  {txnId : Option TxnId}

lemma admitRule_readable (hc : Coded ev) : Readable ev (admitRule K : Rule V E) where
  serialized _ _ row values hrow hdec := by
    rw [hc.serialized row values hrow.1 hdec]
    exact hrow
  spilled _ _ row values e td hrow hdec := by
    rw [hc.spilled row values e td hrow.1 hdec]
    exact hrow

section

def Watched (e : Engine V E) (txnId : Option TxnId) (t : String) : Prop :=
  BareAt e t ∨ ∀ td, e.tables.lookup t = some td → SeesStored e.tm td txnId

lemma suffix_ne {α β : Type} {a : α × β} {rest as : List (α × β)} (h : a::rest <:+ as)
    (hnodup : (as.map fst).Nodup) : ∀ x ∈ rest, x.1 ≠ a.1 := by
  intro x hx heq
  have hsub : ((a::rest).map fst).Nodup := hnodup.sublist (h.sublist.map _)
  rw [map_cons, nodup_cons] at hsub
  exact hsub.1 (heq ▸ mem_map_of_mem hx)

variable {given : List V → Prop}

section
variable (hq : Quiet ev names Still) (hc : Coded ev) (hread : Readable ev (admitRule K))
  (he : Tracked names K e asStored e)
include hq hc hread he

lemma tracked_insert {stmt : InsertStmt E Q} (hload : NoLoad ev crc e stmt.table)
    (hgiven : Given ev crc txnId e given (.insert stmt))
    (hup : Upholds ev (admitRule K) txnId e given (.insert stmt))
    (hfree : BareAt e stmt.table ∨ ∀ td, e.tables.lookup stmt.table = some td →
      td.schema.primaryKeyColumns ≠ []) :
    Tracked names K e asStored (execInsert ev crc txnId stmt e).2 := by
  have h : Steady ev (Tracked names K e asStored) := settled_tracked.steady hq
  refine bind_after (Q := fun rows _ => ∀ row ∈ rows, given row)
    ((stays_insertRows h txnId stmt ?_).state he) hgiven ?_
  · exact fun s td hs hnone hr => absurd hr (hs.1.noLoad hload hnone td)
  intro rows s hs hrows
  refine Stays.state (P := Tracked names K e asStored) ?_ hs
  refine triple_bind_getTable (fun _ h => h.1) (fun _ h => h) hload (fun td0 td htd0 hdefn => ?_)
  have hschema : td0.schema = td.schema := congrArg fst hdefn
  have hdefs : defs e stmt.table = some (defn td) := (defs_eq htd0).trans (congrArg some hdefn)
  obtain ⟨hrow,hupdate⟩ := hup td hdefs
  refine stays_bind (stays_loop rows (fun values hvalues done => ?_) []) (fun done =>
    stays_finish h txnId _ _ _)
  have hheld := stays_insertRow hq hread stmt td values hdefs
    (fun e0 p => hrow e0 values p (hrows values hvalues)) hupdate done
  exact (hheld.pre (fun _ h => h.1)).and
    (tracked_insertRow hq hc hdefs (hfree.symm.imp_left (fun hpk => hschema ▸ hpk td0 htd0)) values
      (fun e0 p => hrow e0 values p (hrows values hvalues)) hupdate done)

lemma tracked_update {stmt : UpdateStmt E} (hload : NoLoad ev crc e stmt.table)
    (hup : Upholds ev (admitRule K) txnId e given (.update stmt : Dml E Q))
    (hsees : Watched e txnId stmt.table) :
    Triple (Still e) (execUpdate ev crc txnId stmt) (fun _ => Tracked names K e asStored)
      (Tracked names K e asStored) := by
  have h : Steady ev (Tracked names K e asStored) := settled_tracked.steady hq
  have hstart : ∀ s, Still e s → Tracked names K e asStored s :=
    fun s hs => settled_tracked.still e s he hs
  refine triple_bind_getTable (fun s hs => (hstart s hs).1) hstart hload
    (fun td0 td htd0 hdefn => ?_)
  have hdefs : defs e stmt.table = some (defn td) := (defs_eq htd0).trans (congrArg some hdefn)
  have hcandidates : Triple (Still e) (candidates ev txnId stmt.table td stmt.whereClause)
      (fun entries s => Still e s ∧ (∀ x ∈ entries, EntryGood (admitRule K) e stmt.table x) ∧
        (BareAt e stmt.table ∨ ((∀ x ∈ entries, e.content stmt.table x.1 = some x.2) ∧
          (entries.map fst).Nodup))) (Tracked names K e asStored) := by
    have hgood : Triple (Still e) (candidates ev txnId stmt.table td stmt.whereClause) _ _ :=
      triple_candidates_still hq hread he.1 stmt.table td stmt.whereClause
    rcases hsees with hbare | hsees
    · exact hgood.weaken (fun _ h => h) (fun _ _ h => ⟨h.1,h.2,.inl hbare⟩) hstart
    · exact ((triple_candidates_sees hq he.1.sound.within htd0 (hsees td0 htd0)
        stmt.whereClause).and hgood).weaken (fun _ h => h)
        (fun _ _ h => ⟨h.1.1,h.2.2,.inr h.1.2⟩) (fun s h => hstart s h.1)
  refine triple_bind hcandidates (fun entries s hs => ?_)
  obtain ⟨hstill,hgood,hcur⟩ := hs
  have hrow : ∀ entry rest done, entry::rest <:+ entries →
      Triple (fun s => Tracked names K e asStored s ∧ Current e stmt.table (entry::rest) s)
        (updateRow ev txnId stmt td done entry)
        (fun _ s => Tracked names K e asStored s ∧ Current e stmt.table rest s)
        (Tracked names K e asStored) := by
    intro entry rest done hsuffix
    have hmem : entry ∈ entries := hsuffix.subset (mem_cons_self ..)
    have hheld := stays_updateRow hq hread stmt td hdefs (hup td hdefs) entry (hgood entry hmem)
      done
    have hahead := tracked_updateRow hq hc hdefs (hup td hdefs) (hgood entry hmem)
      (hcur.imp_right (fun h => suffix_ne hsuffix h.2)) done
    exact ((hheld.pre (fun _ h => h.1.1)).and hahead).weaken
      (fun _ h => h) (fun _ _ h => ⟨⟨h.1,h.2.1⟩,h.2.2⟩) (fun _ h => ⟨h.1,h.2.1⟩)
  refine triple_bind (Q := fun _ => Tracked names K e asStored) ((triple_loop_rest
    (I := fun rest _ s => Tracked names K e asStored s ∧ Current e stmt.table rest s) entries
    hrow []).post (fun _ _ h => h.1))
    (fun done => stays_finish h txnId _ _ _) s ⟨hstart s hstill,?_⟩
  exact hcur.imp_right (fun h x hx => (hstill.content _ _).trans (h.1 x hx))

end

lemma ahead_deletes {t : String} {F : Engine V E → Prop} (keys : List Bytes) :
    Triple (Ahead K b (hidden t keys)) (loop (fun _ key => deleteRow t key) () keys)
      (fun _ => (Ahead K b asStored : Engine V E → Prop)) F := by
  refine (triple_loop_done (I := fun gone _ e => Ahead K b (hidden t keys) e ∧
    ∀ k ∈ gone, e.content t k = none) keys (fun gone key rest _ hsplit => ?_) ()).weaken
    (fun e he => ⟨he,nofun⟩) (fun _ e he => ?_) (fun _ h => h)
  · have hkey : key ∈ keys := by simp [hsplit]
    intro e he
    have hahead : Ahead K b (hidden t keys) (deleteRow t key e).2 := by
      refine (ahead_deleteRow (F := fun _ => False) (fun _ _ => rfl) (fun rows => ?_)) e he.1
      funext p
      rw [hidden_self, hidden_self]
      split
      · rfl
      · rename_i hp
        have hne : p ≠ key := fun heq => hp (heq ▸ hkey)
        exact update_of_ne hne ..
    refine (⟨hahead,fun k hk => ?_⟩ : Ahead K b (hidden t keys) (deleteRow t key e).2 ∧
      ∀ k ∈ gone++[key], (deleteRow t key e).2.content t k = none)
    rw [content_deleteRow]
    split
    · rfl
    · rename_i hne
      refine he.2 k ((mem_append.mp hk).resolve_right (fun h => hne ⟨rfl,?_⟩))
      exact mem_singleton.mp h
  · refine ⟨he.1.defined,he.1.bare,he.1.fits,fun t' td htd => ?_⟩
    have hexact := he.1.entries t' td htd
    by_cases ht : t' = t
    · subst ht
      have hsame : hidden t' keys t' (rowsOf td) = rowsOf td := by
        funext p
        rw [hidden_self]
        split
        · rename_i hp
          rw [rowsOf_lookup htd, he.2 p hp]
          rfl
        · rfl
      rw [hsame] at hexact
      exact hexact
    · rw [hidden_other ht] at hexact
      exact hexact

/-- A DELETE that has to keep secondary indexes has no transaction, and no
foreign key can restrict it. -/
def DeletesWhole (e : Engine V E) (txnId : Option TxnId) (t : String) : Prop :=
  BareAt e t ∨ (txnId = none ∧ ∀ child td fk, e.tables.lookup child = some td → child ≠ t →
    fk ∈ td.schema.foreignKeys → fk.refTable = t → fk.onDelete ≠ .restrict)

variable (hq : Quiet ev names Still) (hc : Coded ev) (hread : Readable ev (admitRule K))
  (he : Tracked names K e asStored e)
include hq hc hread he

lemma tracked_delete {stmt : DeleteStmt E} (hload : NoLoad ev crc e stmt.table)
    (hup : Upholds ev (admitRule K) txnId e given (.delete stmt : Dml E Q))
    (hwhole : DeletesWhole e txnId stmt.table) :
    Triple (Still e) (execDelete ev crc txnId stmt) (fun _ => Tracked names K e asStored)
      (Tracked names K e asStored) := by
  have h : Steady ev (Tracked names K e asStored) := settled_tracked.steady hq
  have hstart : ∀ s, Still e s → Tracked names K e asStored s :=
    fun s hs => settled_tracked.still e s he hs
  refine triple_bind_getTable (fun s hs => (hstart s hs).1) hstart hload
    (fun td0 td htd0 hdefn => ?_)
  have hgood : Triple (Still e) (candidates ev txnId stmt.table td stmt.whereClause) _ _ :=
    triple_candidates_still hq hread he.1 stmt.table td stmt.whereClause
  rcases hwhole with hbare | ⟨rfl,hfree⟩
  · refine triple_bind (hgood.fail hstart) (fun entries s hs => ?_)
    obtain ⟨hstill,hentries⟩ := hs
    refine triple_fact (P := Tracked names K e asStored) (r := fun refs : List FkRef =>
      ∀ fkr ∈ refs, NullSafe (admitRule K) e fkr.childName fkr.onDelete fkr.childIdxs)
      (triple_get _ (fun s hs => ⟨hs,fun fkr hfkr => nullSafe_fkRefs hup hs.1 hfkr⟩))
      (fun refs hrefs => ?_) s (hstart s hstill)
    refine stays_bind (stays_loop entries (fun entry hentry done => ?_) []) (fun done => ?_)
    · exact ((stays_deleteRowOf hq hread stmt td refs hrefs entry (hentries entry hentry)
        done).pre (fun _ h => h.1)).and
        (tracked_deleteRowOf_bare hq hc hread hbare hrefs (hentries entry hentry) done)
    refine stays_bind (stays_loop _ (fun key _ _ => ?_) ()) (fun _ => stays_finish h txnId _ _ _)
    refine ((stays_deleteRow stmt.table key).pre (fun _ h => h.1)).and ?_
    refine (ahead_deleteRow (O := update asStored stmt.table (fun rows =>
      update rows key none)) (fun t' ht => (update_of_ne ht ..).symm)
      (fun rows => by rw [update_self]; rfl)).pre (fun s hs => ?_)
    exact hs.2.of_bare (hs.2.bareAt hbare) (fun t' ht => update_of_ne ht ..)
  refine triple_bind (((triple_candidates_sees hq he.1.sound.within htd0 (sees_none e.tm td0)
    stmt.whereClause).and hgood).fail (fun s h => hstart s h.1)) (fun entries s hs => ?_)
  obtain ⟨⟨hstill,hstored,hnodup⟩,-,hentries⟩ := hs
  refine triple_fact (P := fun s => Tracked names K e asStored s ∧
      Awaits stmt.table entries [] s) (r := fun refs : List FkRef =>
    ∀ fkr ∈ refs, NullSafe (admitRule K) e fkr.childName fkr.onDelete fkr.childIdxs ∧
      fkr.childName ≠ stmt.table ∧ fkr.onDelete ≠ .restrict)
    (triple_get _ (fun s hs => ⟨hs,fun fkr hfkr => ?_⟩)) (fun refs hrefs => ?_) s
    ⟨hstart s hstill,fun x hx => ⟨(hstill.content _ _).trans (hstored x hx),by simp⟩⟩
  · obtain ⟨child,fk,hchild,hne,hfk,href,honDelete,-,-⟩ := fkRefs_mem hfkr
    obtain ⟨child0,hchild0,hdefn'⟩ := map_eq_some_iff.mp
      ((hs.1.1.defined fkr.childName).symm.trans (defs_eq hchild))
    have hschema : child0.schema = child.schema := congrArg fst hdefn'
    refine ⟨nullSafe_fkRefs hup hs.1.1 hfkr,hne,?_⟩
    rw [honDelete]
    exact hfree fkr.childName child0 fk hchild0 hne (hschema ▸ hfk) href
  have hrow : ∀ entry rest done, entry::rest <:+ entries →
      Triple (fun s => Tracked names K e (hidden stmt.table (done.map fst)) s ∧
          Awaits stmt.table (entry::rest) (done.map fst) s)
        (deleteRowOf ev none stmt td refs done entry)
        (fun done s => Tracked names K e (hidden stmt.table (done.map fst)) s ∧
          Awaits stmt.table rest (done.map fst) s) (Tracked names K e asStored) := by
    intro entry rest done hsuffix
    have hmem : entry ∈ entries := hsuffix.subset (mem_cons_self ..)
    have hheld : Stays (Held names (admitRule K) e) (deleteRowOf ev none stmt td refs done entry) :=
      stays_deleteRowOf hq hread stmt td refs (fun fkr hfkr => (hrefs fkr hfkr).1) entry
        (hentries entry hmem) done
    exact ((hheld.pre (fun _ h => h.1.1)).and
      (tracked_deleteRowOf (F := fun _ => False) hq hc hread hrefs (suffix_ne hsuffix hnodup)
        done)).weaken (fun _ h => h) (fun _ _ h => ⟨⟨h.1,h.2.1⟩,h.2.2⟩) (fun _ h => h.2.elim)
  have hlast : ∀ done : List (Bytes × List V),
      Triple (Tracked names K e (hidden stmt.table (done.map fst)))
        (loop (fun _ key => deleteRow stmt.table key) () (done.map fst))
        (fun _ => Tracked names K e asStored) (Tracked names K e asStored) := by
    intro done
    have hheld : Stays (Held names (admitRule K) e)
        (loop (fun _ key => deleteRow stmt.table key) () (done.map fst)) :=
      stays_loop _ (fun key _ _ => stays_deleteRow _ _) ()
    exact (hheld.pre (fun _ h => h.1)).and ((ahead_deletes _).pre (fun _ h => h.2))
  have hnone : hidden (V := V) stmt.table [] = asStored := by
    funext t rows p
    by_cases ht : t = stmt.table
    · rw [ht, hidden_self]
      rfl
    · rw [hidden_other ht]
      rfl
  refine triple_bind (Q := fun done => Tracked names K e (hidden stmt.table (done.map fst)))
    ((triple_loop_rest (I := fun rest done s =>
      Tracked names K e (hidden stmt.table (done.map fst)) s ∧
        Awaits stmt.table rest (done.map fst) s) entries hrow []).weaken (fun s hs => ?_)
      (fun _ _ h => h.1) (fun _ h => h))
    (fun done => triple_bind (hlast done) (fun _ => stays_finish h none _ _ _))
  rw [map_nil, hnone]
  exact hs

lemma tracked_dml {stmt : Dml E Q} (hload : NoLoad ev crc e stmt.table)
    (hgiven : Given ev crc txnId e given stmt) (hup : Upholds ev (admitRule K) txnId e given stmt)
    (hkeep : match stmt with
      | .insert stmt => BareAt e stmt.table ∨ ∀ td, e.tables.lookup stmt.table = some td →
          td.schema.primaryKeyColumns ≠ []
      | .update stmt => Watched e txnId stmt.table
      | .delete stmt => DeletesWhole e txnId stmt.table) :
    Tracked names K e asStored (execDml ev crc txnId stmt e).2 := by
  cases stmt with
  | insert stmt => exact tracked_insert hq hc hread he hload hgiven hup hkeep
  | update stmt => exact (tracked_update hq hc hread he hload hup hkeep).state (.refl e)
  | delete stmt => exact (tracked_delete hq hc hread he hload hup hkeep).state (.refl e)

end

variable {name : String} {td : TableData V E} {tables : Map String (TableData V E)}

section

structure Orderly (K : String → ℕ → Option V → Prop) (td : TableData V E) : Prop where
  fits : Fit (K td.schema.tableName) (rowsOf td)
  entries : ∀ sec ∈ td.secondaryIndexes, Exact (K td.schema.tableName) (rowsOf td) sec

structure OrderlyAll (K : String → ℕ → Option V → Prop) (e : Engine V E) : Prop where
  current : ∀ t td, e.tables.lookup t = some td → Orderly K td
  cached : ∀ db tables, e.dbTables.lookup db = some tables →
    ∀ t td, tables.lookup t = some td → Orderly K td

lemma OrderlyAll.ahead (h : OrderlyAll K e) : Ahead K e asStored e where
  defined _ := rfl
  bare t td td' htd hnone htd' := by
    rw [htd] at htd'
    cases htd'
    exact hnone
  fits t td htd := (h.current t td htd).fits
  entries t td htd := (h.current t td htd).entries

variable {e' : Engine V E}

lemma OrderlyAll.of_tables (h : OrderlyAll K e) (ht : e'.tables = e.tables)
    (hd : e'.dbTables = e.dbTables) : OrderlyAll K e' := by
  refine ⟨?_,?_⟩
  · rw [ht]
    exact h.current
  · rw [hd]
    exact h.cached

lemma Alike.orderly (ha : Alike e e') (h : OrderlyAll K e) : OrderlyAll K e' :=
  h.of_tables ha.tables ha.dbTables

lemma Ahead.orderly (hb : OrderlyAll K b) (h : Tracked names K b asStored e) :
    OrderlyAll K e := by
  refine ⟨fun t td htd => ⟨h.2.fits t td htd,h.2.entries t td htd⟩,?_⟩
  rw [h.1.fixed.2.2.1]
  exact hb.cached

lemma OrderlyAll.setTable (h : OrderlyAll K e)
    (htd : Orderly K td) : OrderlyAll K (Engine.setTable name td e) := by
  refine ⟨fun t td' htd' => ?_,h.cached⟩
  rcases lookup_insert_cases htd' with ⟨-,rfl⟩ | ⟨-,htd'⟩
  · exact htd
  · exact h.current t td' htd'

lemma OrderlyAll.erase (h : OrderlyAll K e) (name : String) :
    OrderlyAll K { e with tables := e.tables.erase name } := by
  refine ⟨fun t td htd => ?_,h.cached⟩
  have herase : (e.tables.erase name).lookup t = some td := htd
  obtain ⟨-,herase⟩ := lookup_erase_cases herase
  exact h.current t td herase

def Legible (td : TableData V E) : Prop :=
  ∀ k data, td.index.lookup k = some data → ∃ row : List V, decodeRow data = some row

lemma Orderly.restoreRow (h : Orderly K td) (hlegible : Legible td)
    {key : Bytes} {prev : Option Bytes} (hprev : ∀ data, prev = some data → ∃ row : List V,
      decodeRow data = some row ∧ ∀ i, K td.schema.tableName i row[i]?) :
    Orderly K (restoreRow key prev td) ∧ Legible (restoreRow key prev td) := by
  have hput : ∀ data row secs, decodeRow data = some row → (∀ i, K td.schema.tableName i row[i]?) →
      (∀ sec ∈ secs, Exact (K td.schema.tableName) (update (rowsOf td) key (some row)) sec) →
      Orderly K { td with index := td.index.insert key data, secondaryIndexes := secs } ∧
        Legible { td with index := td.index.insert key data, secondaryIndexes := secs } := by
    intro data row secs hdec hrow hsecs
    have hrows : rowsOf { td with index := td.index.insert key data, secondaryIndexes := secs } =
        update (rowsOf td) key (some row) := by
      rw [← hdec]
      exact rowsOf_insert td key data
    refine ⟨⟨?_,?_⟩,fun k data' hlook => ?_⟩
    · rw [hrows]
      exact h.fits.update hrow
    · rw [hrows]
      exact hsecs
    rw [lookup_insert] at hlook
    split at hlook
    · cases hlook
      exact ⟨row,hdec⟩
    · exact hlegible k data' hlook
  rw [Engine.restoreRow.eq_def]
  cases hcur : td.index.lookup key with
  | none =>
    have hk : rowsOf td key = none := by
      rw [rowsOf, hcur]
      rfl
    cases prev with
    | none => exact ⟨h,hlegible⟩
    | some pv =>
      obtain ⟨row,hdec,hrow⟩ := hprev pv rfl
      dsimp only
      rw [hdec]
      exact hput pv row _ hdec hrow (insertSecondaries_exact h.entries h.fits hrow hk).2
  | some cur =>
    obtain ⟨old,hold⟩ := hlegible key cur hcur
    have hk : rowsOf td key = some old := by
      rw [rowsOf, hcur]
      exact hold
    cases prev with
    | some pv =>
      obtain ⟨row,hdec,hrow⟩ := hprev pv rfl
      dsimp only
      rw [hold, hdec]
      exact hput pv row _ hdec hrow (updateSecondaries_exact h.entries h.fits hk hrow).2
    | none =>
      dsimp only
      rw [hold]
      have hrows : rowsOf { td with
          secondaryIndexes := deleteSecondaries old key td.secondaryIndexes
          index := td.index.erase key } = update (rowsOf td) key none :=
        rowsOf_erase td key
      refine ⟨⟨?_,?_⟩,fun k data hlook => ?_⟩
      · rw [hrows]
        exact h.fits.remove
      · rw [hrows]
        exact deleteSecondaries_exact h.entries h.fits hk
      · rw [lookup_erase] at hlook
        split at hlook
        · cases hlook
        · exact hlegible k data hlook

def LegibleFor (e : Engine V E) (tid : TxnId) : Prop :=
  (∀ t td, e.tables.lookup t = some td → Legible td) ∧
    ∀ r data, (e.undoOf tid).lookup r = some (some data) → ∃ row : List V, decodeRow data = some row

lemma orderly_restore (us : List ((_ : RowId) × Option Bytes))
    (h : ∀ t td, tables.lookup t = some td → Orderly K td ∧ Legible td)
    (hus : ∀ u ∈ us, ∀ data, u.2 = some data → ∃ row : List V, decodeRow data = some row ∧
      ∀ td, tables.lookup u.1.1 = some td → ∀ i, K td.schema.tableName i row[i]?) :
    ∀ t td, (us.foldl restoreEntry tables).lookup t = some td → Orderly K td := by
  induction us generalizing tables with
  | nil => exact fun t td htd => (h t td htd).1
  | cons u us ih =>
    have hschema : ∀ td : TableData V E, (restoreRow u.1.2 u.2 td).schema = td.schema := by
      intro td
      rw [Engine.restoreRow.eq_def]
      split
      · rfl
      · rfl
      · rfl
      · rfl
    refine ih (fun t td htd => ?_) (fun u' hu' data hdata => ?_)
    · rcases lookup_adjust_cases htd with ⟨ht,td0,htd0,rfl⟩ | ⟨-,htd⟩
      · refine (h t td0 htd0).1.restoreRow (h t td0 htd0).2 (fun data hdata => ?_)
        obtain ⟨row,hdec,hrow⟩ := hus u (mem_cons_self ..) data hdata
        exact ⟨row,hdec,hrow td0 (ht ▸ htd0)⟩
      · exact h t td htd
    · obtain ⟨row,hdec,hrow⟩ := hus u' (mem_cons_of_mem _ hu') data hdata
      refine ⟨row,hdec,fun td htd => ?_⟩
      rcases lookup_adjust_cases htd with ⟨-,td0,htd0,rfl⟩ | ⟨-,htd⟩
      · rw [hschema]
        exact hrow td0 htd0
      · exact hrow td htd

lemma orderly_dropVersions (tid : TxnId) (ts : List String) (h : ∀ t td, tables.lookup t = some td → Orderly K td) :
    ∀ t td, (ts.foldl (dropVersions tid) tables).lookup t = some td → Orderly K td := by
  induction ts generalizing tables with
  | nil => exact h
  | cons t ts ih =>
    refine ih (fun t' td htd => ?_)
    rcases lookup_adjust_cases htd with ⟨-,td0,htd0,rfl⟩ | ⟨-,htd⟩
    · exact ⟨(h t' td0 htd0).fits,(h t' td0 htd0).entries⟩
    · exact h t' td htd

lemma orderly_rollback (h : OrderlyAll K e) (hsound : Sound names (admitRule K) e) {tid : TxnId}
    (hlegible : LegibleFor e tid) : OrderlyAll K (rollbackTxnEffects tid e) := by
  rw [rollbackTxnEffects]
  cases hundo : ((e.discardTxnDeltas tid).clearPendingDeltas).undo.lookup tid with
  | none => exact h.of_tables rfl rfl
  | some undo =>
    refine ⟨orderly_dropVersions tid _ (orderly_restore undo.entries (fun t td htd => ?_)
      (fun u hu data hdata => ?_)),h.cached⟩
    · exact ⟨h.current t td htd,hlegible.1 t td htd⟩
    have himg : (e.undoOf tid).lookup u.1 = some (some data) := by
      rw [undoOf, show e.undo.lookup tid = some undo from hundo, ← hdata]
      exact AList.mem_lookup_iff.mpr hu
    obtain ⟨row,hdec⟩ := hlegible.2 u.1 data himg
    exact ⟨row,hdec,fun td htd =>
      (hsound.images tid u.1.1 u.1.2 data row td himg hdec htd).2⟩

end

section

/-- What a table on disk must be like: its rows can be read and have in every
column what it may hold, and its indexes can be about their columns. -/
structure Loadable (crc : Bytes → UInt32) (K : String → ℕ → Option V → Prop) (ds : DiskStore V)
    (tcat : TableCatalog V) : Prop where
  rows : ∀ entries, ds.loadTableData crc tcat.name = .ok entries → ∀ x ∈ entries,
    ∃ row : List V, decodeRow x.2 = some row ∧ ∀ i, K tcat.schema.tableName i row[i]?
  indexes : ∀ d ∈ tcat.indexes, d.unique = false ∧ ∀ name ∈ d.columns, ∀ i,
    tcat.schema.columnIndex name = some i → KeyColumn (K tcat.schema.tableName i)

lemma fold_insert_mem (entries : List (Bytes × Bytes)) {m : OrderedMap Bytes Bytes}
    {P : Bytes × Bytes → Prop} (hm : ∀ k data, m.lookup k = some data → P (k,data))
    (hentries : ∀ x ∈ entries, P x) :
    ∀ k data, (entries.foldl (fun (m : OrderedMap Bytes Bytes) x => m.insert x.1 x.2) m).lookup k =
      some data → P (k,data) := by
  induction entries generalizing m with
  | nil => exact hm
  | cons x entries ih =>
    refine ih (fun k data hlook => ?_) (fun y hy => hentries y (mem_cons_of_mem _ hy))
    rw [lookup_insert] at hlook
    split at hlook
    · rename_i hk
      cases hlook
      rw [hk]
      exact hentries x (mem_cons_self ..)
    · exact hm k data hlook

variable {J : ℕ → Option V → Prop}

lemma exact_empty {rows : RowMap V} (hrows : ∀ p, rows p = none)
    {sec : SecondaryIndex} (hplain : sec.unique = false) (hempty : sec.tree = .empty)
    (hcols : ∀ i ∈ sec.columns, KeyColumn (J i)) : Exact J rows sec := by
  refine ⟨hplain,hcols,fun c p => ?_⟩
  rw [hempty]
  constructor
  · nofun
  · rintro ⟨row,kv,hrow,-⟩
    rw [hrows] at hrow
    cases hrow

variable {index : OrderedMap Bytes Bytes}

lemma exact_built {decode : Bytes → Option (List V)} {sec sec' : SecondaryIndex} (hplain : sec.unique = false)
    (hempty : sec.tree = .empty) (hcols : ∀ i ∈ sec.columns, KeyColumn (J i))
    (hdecode : ∀ k data, index.lookup k = some data → (decode data).bind sec.keyValues =
      (decodeRow data : Option (List V)).bind sec.keyValues)
    (hrows : ∀ k data (row : List V), index.lookup k = some data → decodeRow data = some row →
      ∀ i, J i row[i]?)
    (hbuild : index.entries.foldlM (buildStep decode) sec = .ok sec') :
    Exact J (fun p => (index.lookup p).bind decodeRow) sec' := by
  have hmem : ∀ x ∈ index.entries, index.lookup x.1 = some x.2 :=
    fun x hx => (entries_mem_iff index x.1 x.2).mp hx
  have hstart : Exact J (fun _ => none) sec := exact_empty (fun _ => rfl) hplain hempty hcols
  obtain ⟨hexact,-⟩ := foldlM_exact index.sorted hstart nofun
    (fun _ _ => rfl) (fun x hx => hdecode x.1 x.2 (hmem x hx))
    (fun x hx row hdec => hrows x.1 x.2 row (hmem x hx) hdec) hbuild
  simp only [or_none] at hexact
  exact hexact

lemma orderly_buildIndexes (hc : Coded ev) {schema : Schema V}
    (hrows : ∀ k data, index.lookup k = some data → ∃ row : List V, decodeRow data = some row ∧
      ∀ i, K schema.tableName i row[i]?) {ds : List IndexDef}
    (hdefs : ∀ d ∈ ds, d.unique = false ∧ ∀ name ∈ d.columns, ∀ i,
      schema.columnIndex name = some i → KeyColumn (K schema.tableName i))
    {secs : List SecondaryIndex}
    (h : buildSecondaryIndexes schema index.entries ds = .ok secs) :
    ∀ sec ∈ secs, Exact (K schema.tableName) (fun p => (index.lookup p).bind decodeRow) sec := by
  induction ds generalizing secs with
  | nil =>
    cases h
    exact nofun
  | cons d ds ih =>
    have ih := fun {secs : List SecondaryIndex} => @ih (fun d' hd' =>
      hdefs d' (mem_cons_of_mem _ hd')) secs
    rw [buildSecondaryIndexes] at h
    split at h
    · exact ih h
    cases hsec : index.entries.foldlM (buildStep (fun data => (decodeColumns data
          (needed (d.columns.filterMap schema.columnIndex)) : Option (List V))))
        ({ name := d.name, columns := d.columns.filterMap schema.columnIndex
           unique := d.unique, tree := .empty } : SecondaryIndex) with
    | error err =>
      rw [hsec] at h
      cases h
    | ok sec =>
      rw [hsec] at h
      cases hsecs : buildSecondaryIndexes schema index.entries ds with
      | error err =>
        rw [hsecs] at h
        cases h
      | ok secs' =>
        rw [hsecs] at h
        cases h
        obtain ⟨hplain,hcols⟩ := hdefs d (mem_cons_self ..)
        have hone : Exact (K schema.tableName) (fun p => (index.lookup p).bind decodeRow) sec := by
          refine exact_built hplain rfl (fun i hi => ?_) (fun k data hlook => ?_)
            (fun k data row hlook hdec => ?_) hsec
          · obtain ⟨name,hname,hi⟩ := mem_filterMap.mp hi
            exact hcols name hname i hi
          · obtain ⟨row,hdec,-⟩ := hrows k data hlook
            obtain ⟨values,hvalues,hsame⟩ := hc.columns data row
              (d.columns.filterMap schema.columnIndex) hdec
            have hproject : project values (d.columns.filterMap schema.columnIndex) =
                project row (d.columns.filterMap schema.columnIndex) :=
              filterMap_congr hsame
            rw [hvalues, hdec, bind_some, bind_some, keyValues, keyValues]
            rw [hproject]
          · obtain ⟨row',hdec',hrow'⟩ := hrows k data hlook
            rw [hdec] at hdec'
            cases hdec'
            exact hrow'
        intro s hs
        rcases mem_cons.mp hs with rfl | hs
        · exact hone
        · exact ih hsecs s hs

lemma orderly_build (hc : Coded ev) {ds : DiskStore V} {tcat : TableCatalog V}
    (hload : Loadable crc K ds tcat) (h : buildTableData ev crc ds tcat = .ok td) :
    Orderly K td ∧ TableGood (admitRule K) td := by
  rw [buildTableData] at h
  cases hentries : ds.loadTableData crc tcat.name with
  | error err =>
    rw [hentries] at h
    cases h
  | ok entries =>
    rw [hentries] at h
    replace h : (do
        let secs ← buildSecondaryIndexes tcat.schema (entries.foldl
          (fun (m : OrderedMap Bytes Bytes) x => m.insert x.1 x.2) .empty).entries tcat.indexes
        Except.ok _ : Except CoreError (TableData V E)) = .ok td := h
    have hrows := fold_insert_mem entries (m := .empty) (P := fun x => ∃ row : List V,
      decodeRow x.2 = some row ∧ ∀ i, K tcat.schema.tableName i row[i]?)
      nofun (hload.rows entries hentries)
    generalize (entries.foldl (fun (m : OrderedMap Bytes Bytes) x => m.insert x.1 x.2) .empty) =
      index at h hrows
    cases hsecs : buildSecondaryIndexes tcat.schema index.entries tcat.indexes with
    | error err =>
      rw [hsecs] at h
      cases h
    | ok secs =>
      rw [hsecs] at h
      cases h
      have hfits : ∀ k data (row : List V), index.lookup k = some data →
          decodeRow data = some row → ∀ i, K tcat.schema.tableName i row[i]? := by
        intro k data row hlook hdec
        obtain ⟨row',hdec',hrow'⟩ := hrows k data hlook
        have hsame := hdec.symm.trans hdec'
        cases hsame
        exact hrow'
      refine ⟨⟨fun p row hp => ?_,orderly_buildIndexes hc hrows hload.indexes hsecs⟩,
        ⟨fun k data row hlook hdec => ⟨hc.short data row hdec,hfits k data row hlook hdec⟩,
          nofun⟩⟩
      obtain ⟨data,hlook,hdec⟩ := bind_eq_some_iff.mp hp
      exact hfits p data row hlook hdec

end

/-- What USE loads from disk: the tables of a database that is not in memory. -/
def LoadsFit (crc : Bytes → UInt32) (names : String → Prop) (K : String → ℕ → Option V → Prop)
    (e : Engine V E) (name : String) : Prop :=
  name ≠ e.currentDb → (∀ t, NoImages e t) ∧ (e.dbTables.lookup name = none →
    ∀ ds ds', e.disk = some ds → ds.switchDatabase name = .ok ds' → ∀ tcat ∈ ds'.listTables,
      names tcat.name ∧ Loadable crc K ds' tcat)

lemma loadTables_fit (hc : Coded ev) {ds : DiskStore V} {list : List (TableCatalog V)}
    (hlist : ∀ tcat ∈ list, names tcat.name ∧ Loadable crc K ds tcat)
    (h : ∀ t td, tables.lookup t = some td → names t ∧ Orderly K td ∧ TableGood (admitRule K) td) :
    ∀ t td, (loadTables ev crc ds list tables).1.lookup t = some td →
      names t ∧ Orderly K td ∧ TableGood (admitRule K) td := by
  induction list generalizing tables with
  | nil => exact h
  | cons tcat list ih =>
    rw [loadTables]
    cases hbuild : buildTableData ev crc ds tcat with
    | error err => exact h
    | ok td =>
      obtain ⟨hname,hload⟩ := hlist tcat (mem_cons_self ..)
      refine ih (fun t ht => hlist t (mem_cons_of_mem _ ht)) (fun t td' htd' => ?_)
      rcases lookup_insert_cases htd' with ⟨ht,rfl⟩ | ⟨-,htd'⟩
      · rw [ht]
        exact ⟨hname,orderly_build hc hload hbuild⟩
      · exact h t td' htd'

lemma LoadsFit.keeps (hc : Coded ev) (h : LoadsFit crc names K e name) :
    SwitchKeeps ev crc names (admitRule K) e name := by
  intro hne
  obtain ⟨himages,hload⟩ := h hne
  refine ⟨himages,fun hmiss ds ds' hdisk hsw t td htd => ?_⟩
  obtain ⟨hname,-,hgood⟩ := loadTables_fit hc (hload hmiss ds ds' hdisk hsw)
    (fun t td h => by cases h) t td htd
  exact ⟨hname,hgood⟩

lemma orderly_use (hc : Coded ev) (he : OrderlyAll K e)
    (hload : LoadsFit crc names K e name) : OrderlyAll K (execUse ev crc name e).2 := by
  rcases use_switched ev crc e name with heq | hsw
  · rw [heq]
    exact he
  have hbrought : ∀ tables, Brought ev crc e name tables →
      ∀ t td, tables.lookup t = some td → Orderly K td := by
    intro tables h
    cases h with
    | kept h => exact he.cached name tables h
    | none => exact nofun
    | loaded hmiss hdisk hds =>
      have hfit := loadTables_fit hc ((hload hsw.other).2 hmiss _ _ hdisk hds)
        (fun t td (h : (∅ : Map String (TableData V E)).lookup t = some td) => by cases h)
      exact fun t td htd => (hfit t td htd).2.1
  refine ⟨hbrought _ hsw.brought,fun db tables hdb => ?_⟩
  rcases hsw.dbTables db tables hdb with rfl | hdb
  · exact he.current
  · exact he.cached db tables hdb

section

/-- CREATE INDEX is not UNIQUE and names columns that an index can be about. -/
def IndexFits (K : String → ℕ → Option V → Prop) (e : Engine V E) (ci : CreateIndexStmt) : Prop :=
  ci.unique = false ∧ ∀ td, e.tables.lookup ci.table = some td → ∀ name ∈ ci.columns, ∀ i,
    td.schema.columnIndex name = some i → KeyColumn (K td.schema.tableName i)

lemma mapM_mem {α β : Type} {f : α → Option β} {as : List α} {bs : List β}
    (h : as.mapM f = some bs) : ∀ b ∈ bs, ∃ a ∈ as, f a = some b := by
  induction as generalizing bs with
  | nil =>
    cases h
    exact nofun
  | cons a as ih =>
    rw [mapM_cons] at h
    obtain ⟨c,hc,h⟩ := bind_eq_some_iff.mp h
    obtain ⟨cs,hcs,h⟩ := bind_eq_some_iff.mp h
    cases h
    intro b hb
    rcases mem_cons.mp hb with rfl | hb
    · exact ⟨a,mem_cons_self ..,hc⟩
    · obtain ⟨a',ha',hf⟩ := ih hcs b hb
      exact ⟨a',mem_cons_of_mem _ ha',hf⟩

lemma exact_newIndex (htd : Orderly K td) {ci : CreateIndexStmt}
    (hplain : ci.unique = false) (hcols : ∀ name ∈ ci.columns, ∀ i,
      td.schema.columnIndex name = some i → KeyColumn (K td.schema.tableName i))
    {sec : SecondaryIndex} (h : newIndex td ci = .ok sec) :
    Exact (K td.schema.tableName) (rowsOf td) sec := by
  rw [newIndex] at h
  split at h
  · cases h
  split at h
  · cases h
  rename_i columns hcolumns
  split at h
  · cases h
  rename_i sec' hbuild
  cases h
  refine exact_built hplain rfl (fun i hi => ?_) (fun _ _ _ => rfl)
    (fun k data row hlook hdec => ?_) hbuild
  · obtain ⟨name,hname,hi⟩ := mapM_mem hcolumns i hi
    exact hcols name hname i hi
  · refine htd.fits k row ?_
    rw [rowsOf, hlook]
    exact hdec

lemma orderly_empty (hindex : td.index = .empty)
    (hsecs : ∀ sec ∈ td.secondaryIndexes, sec.unique = false ∧ sec.tree = .empty ∧
      ∀ i ∈ sec.columns, KeyColumn (K td.schema.tableName i)) : Orderly K td := by
  have hrows : ∀ p, rowsOf td p = none := by
    intro p
    rw [rowsOf, hindex]
    rfl
  refine ⟨fun p row hp => ?_,fun sec hsec => ?_⟩
  · rw [hrows] at hp
    cases hp
  · obtain ⟨hplain,hempty,hcols⟩ := hsecs sec hsec
    exact exact_empty hrows hplain hempty hcols

lemma orderly_truncated (h : Orderly K td) : Orderly K (truncated td) := by
  refine orderly_empty rfl (fun sec hsec => ?_)
  obtain ⟨s,hs,rfl⟩ := mem_map.mp hsec
  exact ⟨(h.entries s hs).plain,rfl,(h.entries s hs).columns⟩

def DdlFits (ev : Evaluator V E Q) (crc : Bytes → UInt32) (names : String → Prop)
    (K : String → ℕ → Option V → Prop) (e : Engine V E) : Ddl E → Prop
  | .createTable ct => names ct.name ∧ NoImages e ct.name
  | .truncate name => NoLoad ev crc e name
  | .createIndex ci => IndexFits K e ci
  | _ => True

variable {stmt : Ddl E}

lemma DdlFits.keeps (h : DdlFits ev crc names K e stmt) :
    DdlKeeps ev crc names (admitRule K) e stmt := by
  cases stmt with
  | createTable | truncate => exact h
  | alterTable table action => exact fun td columns keepIndexes _ _ k row hrow => hrow
  | dropTable | createIndex | dropIndex | createDatabase | dropDatabase => trivial

lemma orderly_ddl (he : OrderlyAll K e)
    (hfits : DdlFits ev crc names K e stmt) : OrderlyAll K (execDdl ev crc stmt e).2 := by
  cases redefined_ddl ev crc e stmt with
  | same h => exact h.orderly he
  | create h =>
    refine h.orderly (he.setTable (orderly_empty rfl (fun sec hsec => ?_)))
    cases hsec
  | drop h => exact h.orderly (he.erase _)
  | truncate hget h =>
    obtain ⟨htd,rfl⟩ := getTable_ok hfits hget
    exact h.orderly (he.setTable (orderly_truncated (he.current _ _ htd)))
  | alter htd _ h =>
    have hold := he.current _ _ htd
    refine h.orderly (he.setTable ⟨hold.fits,fun sec hsec => ?_⟩)
    rw [withColumns] at hsec
    split at hsec
    · exact hold.entries sec hsec
    · cases hsec
  | createIndex htd hsec h =>
    have hold := he.current _ _ htd
    refine h.orderly (he.setTable ⟨hold.fits,fun s hs => ?_⟩)
    rcases mem_append.mp hs with hs | hs
    · exact hold.entries s hs
    · rw [mem_singleton.mp hs]
      exact exact_newIndex hold hfits.1 (hfits.2 _ htd) hsec
  | dropIndex htd h =>
    have hold := he.current _ _ htd
    exact h.orderly (he.setTable ⟨hold.fits,fun s hs => hold.entries s (mem_of_mem_filter hs)⟩)
  | dropDatabase h =>
    refine h.orderly ⟨he.current,fun db tables hdb => ?_⟩
    obtain ⟨-,hdb⟩ := lookup_erase_cases hdb
    exact he.cached db tables hdb

end

section

/-- A table that a foreign key has to do with stays in memory. -/
def fkInvolved (ds : DiskStore V) (name : String) : Bool :=
  ds.listTables.any (fun t => t.schema.foreignKeys.any (fun fk => t.name = name || fk.refTable = name))

/-- `evict_cold_tables` for one of the tables that it may take. -/
def evictTable (name : String) (e : Engine V E) : Engine V E :=
  match e.disk, e.tables.lookup name with
  | some ds, some td =>
    if !fkInvolved ds name && VersionStore.keyCount td.versionStore = 0 then
      { e with tables := e.tables.erase name }
    else e
  | _, _ => e

inductive Event (E Q : Type) where
  | statement (stmt : Statement E Q) (txnId : Option TxnId)
  | evict (name : String)
  | load (name : String)

def happen (ev : Evaluator V E Q) (crc : Bytes → UInt32) (e : Engine V E) :
    Event E Q → Option (Engine V E)
  | .statement stmt txnId => some (execute ev crc stmt txnId e).2
  | .evict name => some (evictTable name e)
  | .load name => some (getTable ev crc name e).2

def DmlFits (e : Engine V E) (txnId : Option TxnId) : Dml E Q → Prop
  | .insert stmt => BareAt e stmt.table ∨ ∀ td, e.tables.lookup stmt.table = some td →
      td.schema.primaryKeyColumns ≠ []
  | .update stmt => Watched e txnId stmt.table
  | .delete stmt => DeletesWhole e txnId stmt.table

/-- The values that are written fit, a rollback can read what it puts back,
and what comes from disk fits. -/
def IndexSafe (ev : Evaluator V E Q) (crc : Bytes → UInt32) (names : String → Prop)
    (K : String → ℕ → Option V → Prop) (e : Engine V E) : Event E Q → Prop
  | .statement .commit txnId => ∀ tid, txnId = some tid → LegibleFor e tid
  | .statement .rollback txnId => ∀ tid, txnId = some tid → LegibleFor e tid
  | .statement (.useDatabase name) _ => LoadsFit crc names K e name
  | .statement (.dml stmt) txnId => DmlFits e txnId stmt ∧
      Keeps ev crc names (admitRule K) (cleared e) txnId (.dml stmt)
  | .statement (.ddl stmt) _ => DdlFits ev crc names K e stmt
  | .load name => e.tables.lookup name = none → names name ∧ NoImages e name ∧
      ∀ ds tcat, e.disk = some ds → tcat ∈ ds.listTables → tcat.name = name → Loadable crc K ds tcat
  | _ => True

variable {stmt : Statement E Q}

lemma IndexSafe.keeps (hc : Coded ev) (h : IndexSafe ev crc names K e (.statement stmt txnId)) :
    Keeps ev crc names (admitRule K) (cleared e) txnId stmt := by
  cases stmt with
  | begin | commit | rollback | query => trivial
  | useDatabase name => exact LoadsFit.keeps (e := cleared e) hc h
  | dml stmt => exact h.2
  | ddl stmt =>
    refine DdlFits.keeps (e := cleared e) ?_
    cases stmt with
    | createTable | truncate | createIndex => exact h
    | alterTable | dropTable | dropIndex | createDatabase | dropDatabase => trivial

structure IndexedAll (names : String → Prop) (K : String → ℕ → Option V → Prop) (e : Engine V E) :
    Prop where
  everywhere : Everywhere names (admitRule K) e
  orderly : OrderlyAll K e

lemma IndexedAll.tracked (h : IndexedAll names K e) : Tracked names K e asStored e :=
  ⟨h.everywhere.sound.held,h.orderly.ahead⟩

lemma orderly_commit (he : IndexedAll names K e)
    (hlegible : ∀ tid, txnId = some tid → LegibleFor e tid) :
    OrderlyAll K (execCommit crc txnId e).2 := by
  cases txnId with
  | none => exact he.orderly
  | some tid =>
    rw [execCommit]
    dsimp only
    cases e.tm.commit tid with
    | mk tm r =>
      cases r with
      | ok _ => exact he.orderly.of_tables rfl rfl
      | error err =>
        have hall : OrderlyAll K { e with tm := tm } := he.orderly.of_tables rfl rfl
        have hsound : Sound names (admitRule K) { e with tm := tm } :=
          he.everywhere.sound.of_tables rfl (fun _ _ _ h => h)
        have hback := orderly_rollback hall hsound (hlegible tid rfl)
        exact hback.of_tables rfl rfl

lemma orderly_execRollback (he : IndexedAll names K e)
    (hlegible : ∀ tid, txnId = some tid → LegibleFor e tid) :
    OrderlyAll K (execRollback txnId e).2 := by
  cases txnId with
  | none => exact he.orderly
  | some tid =>
    have hback := orderly_rollback he.orderly he.everywhere.sound (hlegible tid rfl)
    rw [execRollback]
    dsimp only
    split
    · exact hback.of_tables rfl rfl
    · exact hback.of_tables rfl rfl

section
variable (hq : Quiet ev names Still) (hc : Coded ev) (hread : Readable ev (admitRule K))
  (he : IndexedAll names K e) (h : IndexSafe ev crc names K e (.statement stmt txnId))
include hq hc hread he h

lemma orderly_dispatch (hkeeps : Keeps ev crc names (admitRule K) e txnId stmt) :
    OrderlyAll K (dispatch ev crc stmt txnId e).2 := by
  cases stmt with
  | begin isolation => exact he.orderly.of_tables rfl rfl
  | commit => exact orderly_commit he h
  | rollback => exact orderly_execRollback he h
  | useDatabase name => exact orderly_use hc he.orderly h
  | query q =>
    refine Ahead.orderly he.orderly (Stays.state (P := Tracked names K e asStored) ?_ he.tracked)
    exact stays_bind (stays_runSelect (settled_tracked.steady hq) txnId q) (fun _ =>
      stays_bind (stays_get _) (fun _ => stays_pure _))
  | dml stmt =>
    obtain ⟨hload,given,hgiven,hup⟩ := hkeeps
    refine (alike_settleDeltas txnId _).orderly (Ahead.orderly he.orderly
      (tracked_dml hq hc hread he.tracked hload hgiven hup ?_))
    cases stmt with
    | insert | update | delete => exact h.1
  | ddl stmt => exact orderly_ddl he.orderly h

lemma indexed_execute : IndexedAll names K (execute ev crc stmt txnId e).2 := by
  refine ⟨everywhere_execute hq hread he.everywhere (h.keeps hc),?_⟩
  have hcleared : IndexedAll names K (cleared e) :=
    ⟨he.everywhere.of_tables rfl rfl rfl,he.orderly.of_tables rfl rfl⟩
  have hsafe : IndexSafe ev crc names K (cleared e) (.statement stmt txnId) := by
    cases stmt with
    | begin isolation => trivial
    | commit | rollback => exact h
    | query q => trivial
    | useDatabase name => exact h
    | dml stmt =>
      refine ⟨?_,h.2⟩
      cases stmt with
      | insert | update | delete => exact h.1
    | ddl stmt =>
      cases stmt with
      | createTable | truncate | createIndex => exact h
      | alterTable | dropTable | dropIndex | createDatabase | dropDatabase => trivial
  exact (alike_raisePending _).orderly (orderly_dispatch hq hc hread hcleared hsafe (h.keeps hc))

end

lemma indexed_evict (he : IndexedAll names K e) (name : String) :
    IndexedAll names K (evictTable name e) := by
  rw [evictTable]
  split
  · split
    · exact ⟨everywhere_erase he.everywhere name,he.orderly.erase name⟩
    · exact he
  · exact he

lemma reloadTable_ok (h : reloadTable ev crc e name = .ok td) : ∃ ds tcat, e.disk = some ds ∧
      tcat ∈ ds.listTables ∧ tcat.name = name ∧ buildTableData ev crc ds tcat = .ok td := by
  rw [reloadTable] at h
  split at h
  · cases h
  rename_i ds tcat hfound
  obtain ⟨ds',hdisk,hfind⟩ := bind_eq_some_iff.mp hfound
  obtain ⟨tcat',hfind,hpair⟩ := map_eq_some_iff.mp hfind
  cases hpair
  have hcat := find?_some hfind
  split at h
  · cases h
  · rename_i td' hbuild
    cases h
    exact ⟨ds,tcat,hdisk,mem_of_find?_eq_some hfind,of_decide_eq_true hcat,hbuild⟩

lemma indexed_load (hc : Coded ev) (he : IndexedAll names K e)
    (h : IndexSafe ev crc names K e (.load name : Event E Q)) :
    IndexedAll names K (getTable ev crc name e).2 := by
  rw [getTable]
  cases htd : e.tables.lookup name with
  | some td => exact he
  | none =>
    obtain ⟨hname,himages,hload⟩ := h htd
    cases hr : reloadTable ev crc e name with
    | error err => exact he
    | ok td =>
      obtain ⟨ds,tcat,hdisk,hmem,hcat,hbuild⟩ := reloadTable_ok hr
      obtain ⟨horderly,hgood⟩ := orderly_build hc (hload ds tcat hdisk hmem hcat) hbuild
      have hset : Everywhere names (admitRule K) (setTable name td e) :=
        everywhere_setTable he.everywhere hname hgood
          (fun tid k data values himg => absurd himg (himages tid k data))
      have hall : OrderlyAll K (setTable name td e) := he.orderly.setTable horderly
      exact ⟨hset.of_tables rfl rfl rfl,hall.of_tables rfl rfl⟩

end

section
open Integers

def hasSecond : String → ℕ → Option Value → Prop := fun _ i o => i = 1 → o.isSome = true

lemma hasSecond_iff {d : Schema Value × List Expr} {k : Bytes} {row : List Value} :
    admitRule hasSecond d k row ↔ row.length < 256 ∧ 1 < row.length := by
  refine and_congr_right (fun _ => ⟨fun h => ?_,fun h i hi => ?_⟩)
  · have hsome := h 1 rfl
    rw [isSome_iff_exists] at hsome
    obtain ⟨v,hv⟩ := hsome
    exact (List.getElem?_eq_some_iff.mp hv).1
  · subst hi
    rw [List.getElem?_eq_getElem h]
    rfl

lemma okey_free (v w : Value) (r r' : Bytes) (h : Value.okey v++r = Value.okey w++r') :
    Value.okey v = Value.okey w := by
  have hlen : ∀ n, (bigEndian n).length = 8 := by
    intro n
    rw [bigEndian, length_reverse, LittleEndian.le_length]
  cases v with
  | null =>
    cases w with
    | null => rfl
    | int64 m => exact absurd (cons.inj h).1 (by decide)
  | int64 n =>
    cases w with
    | null => exact absurd (cons.inj h).1 (by decide)
    | int64 m =>
      have htail := (cons.inj h).2
      exact congrArg (cons _) (append_inj_left htail (by rw [hlen, hlen]))

lemma hasSecond_key (t : String) : KeyColumn (hasSecond t 1) where
  full h := by cases h rfl
  alike v w _ _ hsame := by
    cases v with
    | null =>
      cases w with
      | null => rfl
      | int64 m => cases hsame
    | int64 n =>
      cases w with
      | null => cases hsame
      | int64 m => rw [of_decide_eq_true hsame]
  free v w r r' _ _ h := okey_free v w r r' h

lemma fresh_indexed : IndexedAll (fun _ => True) hasSecond fresh where
  everywhere := fresh_everywhere _
  orderly :=
    { current := nofun
      cached := fun _ _ h => by cases h }

def createIndex (unique : Bool) : CreateIndexStmt :=
  { name := "ix", table := "t", columns := ["v"], unique := unique }

def twoRows : Engine Value Expr := executeAll Expr.evaluator (fun _ => 0) created
    [(.dml (.insert (insertInto "t" [(1,10), (2,20)])),none)]

def withIndex (unique : Bool) : Engine Value Expr :=
  executeAll Expr.evaluator (fun _ => 0) twoRows [(.ddl (.createIndex (createIndex unique)),none)]

def reindexed : Engine Value Expr := executeAll Expr.evaluator (fun _ => 0) (withIndex false)
    [(.dml (.update (updateOf "t" 20 (equals "id" 1))),none)]

lemma Reaches.statement {V E Q : Type} [Codec V] {ev : Evaluator V E Q} {crc : Bytes → UInt32}
    {C : Engine V E → Event E Q → Prop} {e0 e : Engine V E} (stmt : Statement E Q)
    (txnId : Option TxnId) (h : Runs.Reaches (happen ev crc) C e0 e)
    (hs : C e (.statement stmt txnId)) :
    Runs.Reaches (happen ev crc) C e0 (executeAll ev crc e [(stmt,txnId)]) :=
  .step (.statement stmt txnId) h hs rfl

def shapeOf (e : Engine Value Expr) (t : String) :
    Option (ℕ × List ℕ × Option ℕ × List ForeignKey) :=
  (e.tables.lookup t).map (fun td => (td.schema.columns.length,td.schema.primaryKeyColumns,
    td.schema.columnIndex "v",td.schema.foreignKeys))

lemma shape_of_lookup {e : Engine Value Expr} {t : String} {td : TableData Value Expr}
    (htd : e.tables.lookup t = some td) (h : shapeOf e t = some (2,[0],some 1,[])) :
    td.schema.columns.length = 2 ∧ td.schema.primaryKeyColumns = [0] ∧
      td.schema.columnIndex "v" = some 1 ∧ td.schema.foreignKeys = [] := by
  rw [shapeOf, htd] at h
  simpa using h

lemma twoRows_reached : Runs.Reaches (happen Expr.evaluator (fun _ => 0))
      (IndexSafe Expr.evaluator (fun _ => 0) (fun _ => True) hasSecond) fresh twoRows := by
  have hshape : shapeOf created "t" = some (2,[0],some 1,[]) := by decide +kernel
  have hcreated : Runs.Reaches (happen Expr.evaluator (fun _ => 0))
      (IndexSafe Expr.evaluator (fun _ => 0) (fun _ => True) hasSecond) fresh created :=
    Reaches.statement (createTable "t") none .init ⟨trivial,noImages_of_undo rfl _⟩
  refine Reaches.statement (.dml (.insert (insertInto "t" [(1,10), (2,20)]))) none hcreated
    ⟨.inr (fun td htd => ?_),noLoad_of_isNone (by decide +kernel),fun _ => True,
      given_true _,fun td htd => ⟨fun e0 values p _ hfacts _ => ?_,nofun⟩⟩
  · rw [(shape_of_lookup htd hshape).2.1]
    simp
  obtain ⟨td0,htd0,hdefn⟩ := map_eq_some_iff.mp htd
  have hschema : td0.schema = td.schema := congrArg fst hdefn
  have hlen := hfacts.prepared.length
  rw [← hschema, (shape_of_lookup htd0 hshape).1] at hlen
  exact hasSecond_iff.mpr ⟨by omega,by omega⟩

lemma reindexed_reached : Runs.Reaches (happen Expr.evaluator (fun _ => 0))
      (IndexSafe Expr.evaluator (fun _ => 0) (fun _ => True) hasSecond) fresh reindexed := by
  have hshape : shapeOf twoRows "t" = some (2,[0],some 1,[]) := by decide +kernel
  have hindex : Runs.Reaches (happen Expr.evaluator (fun _ => 0))
      (IndexSafe Expr.evaluator (fun _ => 0) (fun _ => True) hasSecond) fresh (withIndex false) := by
    refine Reaches.statement (.ddl (.createIndex (createIndex false))) none twoRows_reached
      ⟨rfl,fun td htd name hname i hi => ?_⟩
    have hv : name = "v" := mem_singleton.mp hname
    rw [hv, (shape_of_lookup htd hshape).2.2.1] at hi
    cases hi
    exact hasSecond_key _
  refine Reaches.statement (.dml (.update (updateOf "t" 20 (equals "id" 1)))) none hindex
    ⟨.inr (fun td _ => sees_none _ td),noLoad_of_isNone (by decide +kernel),fun _ => True,
      given_true _,fun td htd e0 entry p hfacts hold => ?_⟩
  have hlen := hfacts.assigned.length
  obtain ⟨hshort,hlong⟩ := hasSecond_iff.mp hold
  exact hasSecond_iff.mpr ⟨by omega,by omega⟩

end

end ByteDB.Engine
