import ByteDB.Checks

/-!
# A rule for all rows of a table

Rows are kept in the primary index, in the version store and as images in the
undo logs, and a statement takes what it writes from there. A rule for the
rows of a table that the rows written meet holds in all these places after
every statement.
-/

set_option autoImplicit false

namespace ByteDB.Engine
open ByteDB.Assoc Command Codec VersionStore List Option Engine

variable {V E Q : Type} [Codec V] {ev : Evaluator V E Q} {crc : Bytes → UInt32}

def defn (td : TableData V E) : Schema V × List E := (td.schema,td.checkExprs)

/-- A rule for the rows of a table and the keys they are under. -/
abbrev Rule (V E : Type) := Schema V × List E → Bytes → List V → Prop

structure TableGood (G : Rule V E) (td : TableData V E) : Prop where
  stored : ∀ k data values, td.index.lookup k = some data → decodeRow data = some values →
    G (defn td) k values
  versions : ∀ k, ∀ v ∈ chain td.versionStore k, G (defn td) k v.data

structure Sound (names : String → Prop) (G : Rule V E) (e : Engine V E) : Prop where
  within : Within names e
  tables : ∀ t td, e.tables.lookup t = some td → TableGood G td
  images : ∀ tid t k data values td, (e.undoOf tid).lookup (t,k) = some (some data) →
    decodeRow data = some values → e.tables.lookup t = some td → G (defn td) k values

def defs (e : Engine V E) (t : String) : Option (Schema V × List E) := (e.tables.lookup t).map defn

variable {e : Engine V E} {t : String} {td : TableData V E}

lemma defs_eq (h : e.tables.lookup t = some td) : defs e t = some (defn td) := by
  rw [defs, h]
  rfl

def Good (G : Rule V E) (b : Engine V E) (t : String) (k : Bytes) (values : List V) : Prop :=
  ∀ d, defs b t = some d → G d k values

/-- A statement that began in the state `b` has come to `e`: the definitions
have not changed. -/
structure Held (names : String → Prop) (G : Rule V E) (b e : Engine V E) : Prop where
  sound : Sound names G e
  defined : ∀ t, defs e t = defs b t
  fixed : Fixed b e

lemma defs_onTable {f : TableData V E → TableData V E} (hdef : ∀ td, defn (f td) = defn td)
    (table : String) : defs (e.onTable table f) t = defs e t := by
  rw [defs, defs, Engine.onTable, lookup_adjust]
  split
  · rw [Option.map_map]
    exact congrArg (Option.map · _) (funext hdef)
  · rfl

variable {e' : Engine V E}

section
variable {names : String → Prop} {G : Rule V E} {b : Engine V E} {td' : TableData V E}

lemma defn_frozen (hf : frozen td' = frozen td) : defn td' = defn td := by
  have h := congrArg (fun td : TableData V E => (td.schema,td.checkExprs)) hf
  exact h

lemma TableGood.frozen (h : TableGood G td) (hf : frozen td' = frozen td) : TableGood G td' := by
  have hdefn : defn td' = defn td := defn_frozen hf
  have hindex := congrArg (fun td : TableData V E => td.index) hf
  have hversions := congrArg (fun td : TableData V E => td.versionStore) hf
  constructor
  · intro k data values hlook
    rw [hdefn]
    exact h.stored k data values (hindex ▸ hlook)
  · intro k v hv
    rw [hdefn]
    exact h.versions k v (hversions ▸ hv)

lemma Still.back (h : Still e e') (htd : e'.tables.lookup t = some td') :
    ∃ td, e.tables.lookup t = some td ∧ frozen td' = frozen td := by
  have ht := h.table t
  rw [htd] at ht
  obtain ⟨td,htd,hf⟩ := map_eq_some_iff.mp ht.symm
  exact ⟨td,htd,hf.symm⟩

lemma sound_still (he : Sound names G e) (h : Still e e') : Sound names G e' where
  within := h.within he.within
  tables t td' htd' := by
    obtain ⟨td,htd,hf⟩ := h.back htd'
    exact (he.tables t td htd).frozen hf
  images tid t k data values td' himg hdec htd' := by
    obtain ⟨td,htd,hf⟩ := h.back htd'
    rw [undoOf, h.undo] at himg
    rw [defn_frozen hf]
    exact he.images tid t k data values td himg hdec htd

lemma settled_held : Settled names (Held names G b) where
  names _ h := h.sound.within
  still e e' h h' := by
    refine ⟨sound_still h.sound h',fun t => ?_,h.fixed.trans h'.fixed⟩
    have ht := congrArg (Option.map defn) (h'.table t)
    rw [Option.map_map, Option.map_map] at ht
    exact Eq.trans ht (h.defined t)

lemma Sound.held (h : Sound names G e) : Held names G e e := ⟨h,fun _ => rfl,.refl e⟩

end

variable {k data : Bytes} {values : List V} {tid : TxnId}

namespace Held
variable {names : String → Prop} {G : Rule V E} {b : Engine V E} {e : Engine V E}

lemma good_stored (h : Held names G b e)
    (hc : e.content t k = some data) (hdec : decodeRow data = some values) :
    Good G b t k values := by
  intro d hd
  rw [content] at hc
  obtain ⟨td,htd,hlook⟩ := bind_eq_some_iff.mp hc
  rw [← h.defined t, defs_eq htd] at hd
  cases hd
  exact (h.sound.tables t td htd).stored k data values hlook hdec

lemma good_version (h : Held names G b e)
    (htd : e.tables.lookup t = some td) {v : VersionedTuple (List V)}
    (hv : v ∈ chain td.versionStore k) : Good G b t k v.data := by
  intro d hd
  rw [← h.defined t, defs_eq htd] at hd
  cases hd
  exact (h.sound.tables t td htd).versions k v hv

lemma of_good (hw : Within names e) (hdef : ∀ t, defs e t = defs b t) (hfixed : Fixed b e)
    (hstored : ∀ t k data values, e.content t k = some data → decodeRow data = some values →
      Good G b t k values)
    (hversions : ∀ t td k, e.tables.lookup t = some td → ∀ v ∈ chain td.versionStore k,
      Good G b t k v.data)
    (himages : ∀ tid t k data values, (e.undoOf tid).lookup (t,k) = some (some data) →
      decodeRow data = some values → Good G b t k values) : Held names G b e := by
  have hS : ∀ t td, e.tables.lookup t = some td → defs b t = some (defn td) :=
    fun t td htd => (hdef t).symm.trans (defs_eq htd)
  refine ⟨⟨hw,fun t td htd => ⟨?_,?_⟩,?_⟩,hdef,hfixed⟩
  · intro k data values hlook hdec
    refine hstored t k data values ?_ hdec _ (hS t td htd)
    rw [content, htd]
    exact hlook
  · exact fun k v hv => hversions t td k htd v hv _ (hS t td htd)
  · exact fun tid t k data values td himg hdec htd =>
      himages tid t k data values himg hdec _ (hS t td htd)

lemma good_image (h : Held names G b e) (himg : (e.undoOf tid).lookup (t,k) = some (some data))
    (hdec : decodeRow data = some values) : Good G b t k values := by
  intro d hd
  rw [← h.defined t] at hd
  obtain ⟨td,htd,rfl⟩ := map_eq_some_iff.mp hd
  exact h.sound.images tid t k data values td himg hdec htd

lemma onTable (h : Held names G b e) (table : String) {f : TableData V E → TableData V E}
    (hdef : ∀ td, defn (f td) = defn td)
    (hgood : ∀ td, e.tables.lookup table = some td → TableGood G (f td)) :
    Held names G b (e.onTable table f) := by
  refine ⟨⟨h.sound.within.onTable table f,fun t td' htd' => ?_,?_⟩,fun t => ?_,h.fixed⟩
  · rcases lookup_adjust_cases htd' with ⟨ht,td,htd,rfl⟩ | ⟨-,htd'⟩
    · exact hgood td (ht ▸ htd)
    · exact h.sound.tables t td' htd'
  · intro tid t k data values td' himg hdec htd'
    rcases lookup_adjust_cases htd' with ⟨ht,td,htd,rfl⟩ | ⟨-,htd'⟩
    · rw [hdef]
      exact h.sound.images tid t k data values td himg hdec (ht ▸ htd)
    · exact h.sound.images tid t k data values td' himg hdec htd'
  · exact (defs_onTable hdef table).trans (h.defined t)

lemma of_tables (h : Held names G b e) (ht : e'.tables = e.tables)
    (hu : e'.undo = e.undo) (hf : Fixed e e') : Held names G b e' := by
  refine ⟨⟨fun t td htd => h.sound.within t td (ht ▸ htd),fun t td htd => ?_,?_⟩,fun t => ?_,
    h.fixed.trans hf⟩
  · exact h.sound.tables t td (ht ▸ htd)
  · intro tid t k data values td himg hdec htd
    rw [undoOf, hu] at himg
    exact h.sound.images tid t k data values td himg hdec (ht ▸ htd)
  · rw [defs, ht]
    exact h.defined t

end Held

lemma UndoMap.lookup_record (m : UndoMap) (table : String) (key : Bytes) (prev : Option Bytes)
    (r : RowId) : (UndoMap.record m table key prev).lookup r =
      if r = (table,key) ∧ m.lookup (table,key) = none then some prev else m.lookup r := by
  rw [UndoMap.record]
  cases hm : m.lookup (table,key) with
  | some img => simp
  | none =>
    rw [if_neg (by simp), lookup_insert_eq]
    simp

lemma undoOf_withUndo (tid tid' : TxnId) (table : String) (key : Bytes) (prev : Option Bytes)
    (e : Engine V E) : (withUndo tid table key prev e).undoOf tid' =
      if tid' = tid then UndoMap.record (e.undoOf tid) table key prev else e.undoOf tid' := by
  rw [undoOf, withUndo, lookup_insert_eq]
  split
  · rfl
  · rfl

variable {table : String} {key : Bytes} {prev : Option Bytes}

lemma image_noted {txnId : Option TxnId} {r : RowId} {img : Option Bytes}
    (h : ((noted txnId table key prev e).undoOf tid).lookup r = some img) :
    (e.undoOf tid).lookup r = some img ∨ (r = (table,key) ∧ img = prev) := by
  cases txnId with
  | none => exact .inl h
  | some tid0 =>
    rw [noted, undoOf_withUndo] at h
    split at h
    · rename_i htid
      rw [UndoMap.lookup_record] at h
      split at h
      · rename_i hr
        cases h
        exact .inr ⟨hr.1,rfl⟩
      · exact .inl (htid ▸ h)
    · exact .inl h

variable {row : List V} {α : Type}

section
variable {names : String → Prop} {G : Rule V E} {b : Engine V E} {txnId : Option TxnId}

structure Readable (ev : Evaluator V E Q) (G : Rule V E) : Prop where
  serialized : ∀ d k row values, G d k row → decodeRow (serialize row) = some values → G d k values
  spilled : ∀ d k row values e td, G d k row → decodeRow (ev.spill e td (serialize row)) =
    some values → G d k values

lemma held_noted (h : Held names G b e)
    (hprev : ∀ data values, prev = some data → decodeRow data = some values →
      Good G b table key values) :
    Held names G b (noted txnId table key prev e) := by
  refine Held.of_good ?_ ?_ ?_ ?_ ?_ ?_
  · exact noted_within h.sound.within
  · intro t
    rw [defs, noted_tables]
    exact h.defined t
  · refine h.fixed.trans ?_
    cases txnId with
    | none | some => exact .refl e
  · intro t k data values hc
    rw [content, noted_tables] at hc
    exact h.good_stored hc
  · intro t td k htd v hv
    rw [noted_tables] at htd
    exact h.good_version htd hv
  · intro tid t k data values himg hdec
    rcases image_noted himg with himg | ⟨hr,rfl⟩
    · exact h.good_image himg hdec
    · cases hr
      exact hprev data values rfl hdec

lemma stays_recordUndo (hprev : ∀ data values, prev = some data → decodeRow data = some values →
      Good G b table key values) :
    Stays (Held names G b) (recordUndo txnId table key prev) := by
  intro e he
  rw [recordUndo_eq]
  exact held_noted he hprev

lemma stays_putRow (hread : Readable ev G) (hgood : Good G b table key row) :
    Stays (Held names G b) (putRow ev table key (serialize row)) := by
  refine stays_modify _ (fun e he => ?_)
  have hlog : ∀ d, Held names G b (logDelta d e) := fun d => he.of_tables rfl rfl (.refl e)
  refine (hlog _).onTable table (fun _ => rfl) (fun td htd => ?_)
  have htd' : e.tables.lookup table = some td := htd
  have hS : defs b table = some (defn td) := (he.defined table).symm.trans (defs_eq htd')
  have htable := he.sound.tables table td htd'
  refine ⟨fun k data values hlook hdec => ?_,htable.versions⟩
  rw [OrderedMap.lookup_insert] at hlook
  split at hlook
  · rename_i hk
    subst hk
    rw [htd'] at hlook
    cases hlook
    exact hread.spilled _ _ row values e td (hgood _ hS) hdec
  · exact htable.stored k data values hlook hdec

lemma stays_deleteRow (table : String) (key : Bytes) :
    Stays (Held names G b) (deleteRow table key) := by
  refine stays_modify _ (fun e he => ?_)
  have hlog : ∀ d, Held names G b (logDelta d e) := fun d => he.of_tables rfl rfl (.refl e)
  refine (hlog _).onTable table (fun _ => rfl) (fun td htd => ?_)
  have htable := he.sound.tables table td htd
  refine ⟨fun k data values hlook hdec => ?_,htable.versions⟩
  rw [OrderedMap.lookup_erase] at hlook
  split at hlook
  · cases hlook
  · exact htable.stored k data values hlook hdec

lemma stays_onSecondaries (table : String)
    (f : List SecondaryIndex → List SecondaryIndex × Except CoreError Unit) :
    Stays (Held names G b) (onSecondaries table f) := by
  intro e he
  rw [onSecondaries]
  cases htd : e.tables.lookup table with
  | none => exact he
  | some td =>
    have hkeep : Held names G b (e.onTable table
        (fun td' => { td' with secondaryIndexes := (f td.secondaryIndexes).1 })) :=
      he.onTable table (fun _ => rfl) (fun td' htd' =>
        ⟨(he.sound.tables table td' htd').stored,(he.sound.tables table td' htd').versions⟩)
    dsimp only
    cases (f td.secondaryIndexes).2 with
    | ok | error => exact hkeep

def KeepsGood {α : Type} (good : Bytes → List V → Prop)
    (f : VersionStore (List V) → VersionStore (List V) × α) : Prop :=
  ∀ vs, (∀ k, ∀ v ∈ chain vs k, good k v.data) → ∀ k, ∀ v ∈ chain (f vs).1 k, good k v.data

lemma stays_onVersions (table : String)
    {f : VersionStore (List V) → VersionStore (List V) × Except CoreError α}
    (hf : ∀ d, defs b table = some d → KeepsGood (G d) f) :
    Stays (Held names G b) (onVersions table f) := by
  intro e he
  rw [onVersions]
  cases htd : e.tables.lookup table with
  | none => exact he
  | some td =>
    have hS : defs b table = some (defn td) := (he.defined table).symm.trans (defs_eq htd)
    have hkeep : Held names G b (e.onTable table
        (fun td' => { td' with versionStore := (f td.versionStore).1 })) := by
      refine he.onTable table (fun _ => rfl) (fun td' htd' => ?_)
      rw [htd] at htd'
      cases htd'
      have htable := he.sound.tables table td htd
      exact ⟨htable.stored,hf _ hS td.versionStore htable.versions⟩
    dsimp only
    cases (f td.versionStore).2 with
    | ok | error => exact hkeep

lemma stays_walAppend (r : LogRecord) : Stays (Held names G b) (walAppend r) :=
  stays_modify _ (fun e he => he.of_tables rfl rfl (.refl e))

end

section
variable {good : Bytes → List V → Prop}

lemma keepsGood_insert (hrow : good key row) (tid : TxnId) (ts : Timestamp) :
    KeepsGood good (fun vs =>
      (VersionStore.insert vs key row tid ts,(Except.ok () : Except CoreError Unit))) := by
  intro vs hvs k v hv
  simp only [VersionStore.insert, chain_insert] at hv
  split at hv
  · rename_i hk
    subst hk
    rcases mem_append.mp hv with hv | hv
    · exact hvs k v hv
    · rw [mem_singleton.mp hv]
      exact hrow
  · exact hvs k v hv

lemma keepsGood_ensureBase (hrow : good key row) :
    KeepsGood good (fun vs => (ensureBase vs key row,(Except.ok () : Except CoreError Unit))) := by
  intro vs hvs k v hv
  simp only [ensureBase] at hv
  split at hv
  · rw [chain_insert] at hv
    split at hv
    · rename_i hk
      subst hk
      rw [mem_singleton.mp hv]
      exact hrow
    · exact hvs k v hv
  · exact hvs k v hv

lemma keepsGood_tryUpdate (hrow : good key row) (tid : TxnId)
    (ts snapshotTs : Timestamp) (active : List TxnId) :
    KeepsGood good (fun vs => tryUpdate vs key row tid ts snapshotTs active) := by
  intro vs hvs k v hv
  simp only [tryUpdate] at hv
  split at hv
  · exact hvs k v hv
  · exact keepsGood_insert hrow tid ts vs hvs k v hv

lemma keepsGood_tryDelete (key : Bytes) (tid : TxnId) (ts snapshotTs : Timestamp)
    (active : List TxnId) :
    KeepsGood good (fun vs => tryDelete vs key tid ts snapshotTs active) := by
  intro vs hvs k v hv
  obtain ⟨w,hw,rfl | rfl⟩ := mem_tryDelete hv
  · exact hvs k v hw
  · exact hvs k w hw

end

section
variable {names : String → Prop} {G : Rule V E} {b : Engine V E} {txnId : Option TxnId}
  {e : Engine V E} {c : Chain α}

lemma firstVisible_mem {ts : Timestamp}
    {active : List TxnId} {data : α} (h : firstVisible c tid ts active = some data) :
    ∃ v ∈ c, v.data = data := by
  rw [firstVisible] at h
  obtain ⟨v,hv,hdata⟩ := map_eq_some_iff.mp h
  exact ⟨v,mem_reverse.mp (mem_of_find?_eq_some hv),hdata⟩

variable {tm : TransactionManager}

lemma readVisibleOne_good (hread : Readable ev G) (h : TableGood G td)
    (hr : td.readVisibleOne tm txnId key = .ok (some data)) (hdec : decodeRow data = some values) :
    G (defn td) key values := by
  have hstored : ∀ d, (Except.ok (td.index.lookup key) : Except QueryError _) = .ok (some d) →
      decodeRow d = some values → G (defn td) key values :=
    fun d hd => h.stored key d values (Except.ok.inj hd)
  revert hr
  fun_cases td.readVisibleOne tm txnId key with
  | case1 | case5 => exact fun hr => hstored data hr hdec
  | case3 tid snap _ t hlook =>
    rintro ⟨⟩
    rw [lookupForRead, readChain] at hlook
    split at hlook
    · cases hlook
    split at hlook
    · rename_i t' ht'
      cases hlook
      obtain ⟨v,hv,rfl⟩ := firstVisible_mem ht'
      exact hread.serialized _ _ _ _ (h.versions key v hv) hdec
    · cases hlook
  | _ => nofun

lemma chain_of_mem {vs : VersionStore α} (h : ⟨k,c⟩ ∈ vs.entries) : chain vs k = c := by
  have hlook : vs.lookup k = some c := AList.mem_lookup_iff.mpr h
  rw [chain, hlook]
  rfl

lemma readVisibleEntries_good (hread : Readable ev G)
    (h : TableGood G td) {entries : List (Bytes × Bytes)}
    (hr : td.readVisibleEntries tm txnId = .ok entries) :
    ∀ entry ∈ entries, ∀ values, decodeRow entry.2 = some values → G (defn td) entry.1 values := by
  have hindex : ∀ entry ∈ td.index.entries, ∀ values, decodeRow entry.2 = some values →
      G (defn td) entry.1 values := by
    intro entry hentry values hdec
    exact h.stored entry.1 entry.2 values
      ((OrderedMap.entries_mem_iff td.index entry.1 entry.2).mp hentry) hdec
  cases txnId with
  | none =>
    rw [TableData.readVisibleEntries] at hr
    cases hr
    exact hindex
  | some tid =>
    rw [TableData.readVisibleEntries] at hr
    split at hr
    · cases hr
      exact hindex
    cases hsnap : TableData.snapshotFor tm tid with
    | error err =>
      rw [hsnap] at hr
      cases hr
    | ok snap =>
      rw [hsnap] at hr
      cases hr
      intro entry hentry values hdec
      rcases mem_append.mp hentry with hentry | hentry
      · exact hindex entry (mem_of_mem_filter hentry) values hdec
      obtain ⟨r,hr,hrow⟩ := mem_filterMap.mp hentry
      obtain ⟨t,ht,rfl⟩ := map_eq_some_iff.mp hrow
      rw [snapshotResolved] at hr
      obtain ⟨x,hx,rfl⟩ := mem_map.mp hr
      obtain ⟨v,hv,rfl⟩ := firstVisible_mem ht
      refine hread.serialized _ _ _ _ (h.versions x.1 v ?_) hdec
      rwa [chain_of_mem hx]

def EntryGood (G : Rule V E) (b : Engine V E) (table : String) (entry : Bytes × Bytes) : Prop :=
  ∀ values, decodeRow entry.2 = some values → Good G b table entry.1 values

lemma Held.table_good (h : Held names G b e) {d : Schema V × List E}
    (hS : defs b table = some d) (td : TableData V E) :
    TableGood G ((e.tables.lookup table).getD td) ∧ defn ((e.tables.lookup table).getD td) = d := by
  rw [← h.defined table] at hS
  obtain ⟨td',htd',rfl⟩ := map_eq_some_iff.mp hS
  rw [htd']
  exact ⟨h.sound.tables table td' htd',rfl⟩

lemma triple_candidates (hq : Quiet ev names Still) (hread : Readable ev G) (table : String)
    (td : TableData V E) (filter : Option E) :
    Triple (Held names G b) (candidates ev txnId table td filter)
      (fun entries e => Held names G b e ∧ ∀ entry ∈ entries, EntryGood G b table entry)
      (Held names G b) := by
  have h : Steady ev (Held names G b) := settled_held.steady hq
  rw [candidates]
  cases tryPkLookup ev filter td.schema with
  | some key =>
    refine triple_bind (stays_ssiRead h txnId table key) (fun _ => ?_)
    refine triple_fact (r := fun found : Option Bytes => ∀ data, found = some data →
      EntryGood G b table (key,data)) (triple_check _ (fun e found he hok => ⟨he,?_⟩)
        (fun _ he => he)) (fun found hfound => triple_pure _ (fun e he => ⟨he,?_⟩))
    · rintro data rfl values hdec d hd
      obtain ⟨hgood,hdefn⟩ := he.table_good hd td
      rw [← hdefn]
      exact readVisibleOne_good hread hgood hok hdec
    · intro entry hentry
      obtain ⟨data,hdata,rfl⟩ := mem_map.mp hentry
      exact hfound data (mem_toList.mp hdata)
  | none =>
    refine triple_bind (stays_ssiPredicate h txnId table) (fun _ => ?_)
    refine triple_check _ (fun e entries he hok => ⟨he,?_⟩) (fun _ he => he)
    intro entry hentry values hdec d hd
    obtain ⟨hgood,hdefn⟩ := he.table_good hd td
    rw [← hdefn]
    exact readVisibleEntries_good hread hgood hok entry hentry values hdec

structure SeesStored (tm : TransactionManager) (td : TableData V E) (txnId : Option TxnId) :
    Prop where
  one : ∀ k data, td.readVisibleOne tm txnId k = .ok (some data) → td.index.lookup k = some data
  entries : ∀ es, td.readVisibleEntries tm txnId = .ok es →
    (∀ x ∈ es, td.index.lookup x.1 = some x.2) ∧ (es.map Prod.fst).Nodup

lemma sees_none (tm : TransactionManager) (td : TableData V E) : SeesStored tm td none := by
  refine ⟨fun k data h => ?_,fun es h => ?_⟩
  · rw [TableData.readVisibleOne] at h
    exact Except.ok.inj h
  rw [TableData.readVisibleEntries] at h
  cases h
  refine ⟨fun x hx => (OrderedMap.entries_mem_iff td.index x.1 x.2).mp hx,?_⟩
  rw [List.Nodup, pairwise_map]
  exact td.index.sorted.imp (·.ne)

lemma Still.reads (h : Still b e) {td0 : TableData V E}
    (htd0 : b.tables.lookup table = some td0) (td : TableData V E) :
    (∀ k, ((e.tables.lookup table).getD td).readVisibleOne e.tm txnId k =
      td0.readVisibleOne b.tm txnId k) ∧
    ((e.tables.lookup table).getD td).readVisibleEntries e.tm txnId =
      td0.readVisibleEntries b.tm txnId := by
  obtain ⟨td',htd',hf⟩ := h.lookup htd0
  obtain ⟨ssi,htm⟩ := h.manager
  have hframe := congrArg (fun td : TableData V E => (td.index,td.versionStore)) hf
  obtain ⟨hindex,hversions⟩ : td'.index = td0.index ∧ td'.versionStore = td0.versionStore :=
    Prod.mk.inj hframe
  rw [htd', getD_some, htm]
  refine ⟨fun k => ?_,?_⟩
  · cases txnId with
    | none => rw [TableData.readVisibleOne, TableData.readVisibleOne, hindex]
    | some tid =>
      rw [TableData.readVisibleOne, TableData.readVisibleOne, hindex, hversions]
      rfl
  · cases txnId with
    | none => rw [TableData.readVisibleEntries, TableData.readVisibleEntries, hindex]
    | some tid =>
      rw [TableData.readVisibleEntries, TableData.readVisibleEntries, hindex, hversions]
      rfl

lemma triple_candidates_sees (hq : Quiet ev names Still) (hw : Within names b) {td0 td : TableData V E}
    (htd0 : b.tables.lookup table = some td0) (hsees : SeesStored b.tm td0 txnId)
    (filter : Option E) : Triple (Still b) (candidates ev txnId table td filter)
      (fun entries e => Still b e ∧ (∀ x ∈ entries, b.content table x.1 = some x.2) ∧
        (entries.map Prod.fst).Nodup) (Still b) := by
  have h : Steady ev (Still b) := (settled_still hw).steady hq
  have hcontent : ∀ k, b.content table k = td0.index.lookup k := by
    intro k
    rw [content, htd0]
    rfl
  rw [candidates]
  cases tryPkLookup ev filter td.schema with
  | some key =>
    refine triple_bind (stays_ssiRead h txnId table key) (fun _ => ?_)
    refine triple_fact (r := fun found : Option Bytes => ∀ data, found = some data →
      b.content table key = some data) (triple_check _ (fun e found he hok => ⟨he,?_⟩)
      (fun _ he => he)) (fun found hfound => triple_pure _ (fun e he => ⟨he,?_,?_⟩))
    · rintro data rfl
      rw [(he.reads htd0 td).1] at hok
      rw [hcontent]
      exact hsees.one key data hok
    · intro x hx
      obtain ⟨data,hdata,rfl⟩ := mem_map.mp hx
      exact hfound data (mem_toList.mp hdata)
    · cases found with
      | none | some => simp
  | none =>
    refine triple_bind (stays_ssiPredicate h txnId table) (fun _ => ?_)
    refine triple_check _ (fun e entries he hok => ⟨he,?_⟩) (fun _ he => he)
    rw [(he.reads htd0 td).2] at hok
    obtain ⟨hstored,hnodup⟩ := hsees.entries entries hok
    exact ⟨fun x hx => (hcontent x.1).trans (hstored x hx),hnodup⟩

lemma triple_candidates_still (hq : Quiet ev names Still) (hread : Readable ev G)
    (hb : Held names G b b) (table : String) (td : TableData V E) (filter : Option E) :
    Triple (Still b) (candidates ev txnId table td filter)
      (fun entries e => Still b e ∧ ∀ x ∈ entries, EntryGood G b table x) (Still b) := by
  have hstill := stays_candidates ((settled_still hb.sound.within).steady hq) txnId table td filter
  have hgood : Triple (Held names G b) (candidates ev txnId table td filter) _ _ :=
    triple_candidates hq hread table td filter
  exact (hstill.and (hgood.pre (fun s hs => settled_held.still b s hb hs))).weaken (fun _ h => h) (fun _ _ h => ⟨h.1,h.2.2⟩) (fun _ h => h.1)

end

section
variable {names : String → Prop} {P : Engine V E → Prop} {α β γ : Type} {e : Engine V E}

lemma triple_local {m : Exec V E α} {R : α → Engine V E → Prop} (hP : Settled names P)
    (h : ∀ e0, P e0 → Triple (Still e0) m (fun a e => Still e0 e ∧ R a e) (Still e0)) :
    Triple P m (fun a e => P e ∧ R a e) P := by
  intro e he
  have hm := h e he e (.refl e)
  revert hm
  cases m e with
  | mk r e' =>
    cases r with
    | error err => exact fun hs => hP.still _ _ he hs
    | ok a => exact fun hs => ⟨hP.still _ _ he hs.1,hs.2⟩

variable {m : Exec V E (Option β)}

lemma triple_noted {R : β → Engine V E → Prop} (hP : Settled names P)
    (note : Engine V E → Engine V E) (hnote : ∀ e, P e → P (note e))
    (h : ∀ e0, P e0 → Triple (Still e0) m
      (Passed e0 (note e0) (fun p => ∀ e, Still (note e0) e → R p e)) (Still (note e0))) :
    Triple P m (fun plan e => P e ∧ ∀ p, plan = some p → R p e) P := by
  intro e he
  have hm := h e he e (.refl e)
  revert hm
  cases m e with
  | mk r e' =>
    cases r with
    | error err => exact fun hs => hP.still _ _ (hnote e he) hs
    | ok plan =>
      cases plan with
      | none => exact fun hs => ⟨hP.still _ _ he hs,nofun⟩
      | some p =>
        intro hs
        refine ⟨hP.still _ _ (hnote e he) hs.1,fun p' hp' => ?_⟩
        cases hp'
        exact hs.2 e' hs.1

lemma Passed.imp {before after : Engine V E} {R R' : β → Prop} (h : ∀ p, R p → R' p)
    {plan : Option β} (hs : Passed before after R plan e) : Passed before after R' plan e := by
  cases plan with
  | none => exact hs
  | some p => exact ⟨hs.1,h p hs.2⟩

variable {R : β → Prop}

lemma triple_passed (hP : Settled names P)
    (note : Engine V E → Engine V E) (hnote : ∀ e, P e → P (note e))
    (h : ∀ e0, P e0 → Triple (Still e0) m (Passed e0 (note e0) R) (Still (note e0))) :
    Triple P m (fun plan e => P e ∧ ∀ p, plan = some p → R p) P :=
  triple_noted (R := fun p _ => R p) hP note hnote (fun e0 he0 => (h e0 he0).post (fun _ _ hs => hs.imp (fun _ hp _ _ => hp)))

variable {check : α → Exec V E (Option β)} {write : ℕ → β → Exec V E γ} {a : α}

lemma triple_eachRow {P' : Engine V E → Prop} {R : β → Engine V E → Prop}
    (hcheck : Triple P (check a) (fun plan e => P e ∧ ∀ p, plan = some p → R p e) P)
    (hwrite : ∀ n p, Triple (fun e => P e ∧ R p e) (write n p) (fun _ => P') P')
    (hP : ∀ e, P e → P' e) (done : List γ) :
    Triple P (eachRow check write done a) (fun _ => P') P' := by
  refine triple_bind (hcheck.fail hP) (fun plan => ?_)
  cases plan with
  | none => exact triple_pure done (fun e he => hP e he.1)
  | some p =>
    refine triple_bind ((hwrite _ p).pre (fun e he => ⟨he.1,he.2 p rfl⟩)) (fun r => stays_pure _)

lemma stays_eachRow (hcheck : Triple P (check a) (fun plan e => P e ∧ ∀ p, plan = some p → R p) P)
    (hwrite : ∀ n p, R p → Stays P (write n p)) (done : List γ) :
    Stays P (eachRow check write done a) :=
  triple_eachRow (R := fun p _ => R p) hcheck (fun n p e he => hwrite n p he.2 e he.1)
    (fun _ h => h) done

end

section
variable {names : String → Prop} {G : Rule V E} {b : Engine V E} {txnId : Option TxnId}

structure InsertGood (G : Rule V E) (b : Engine V E) (table : String)
    (p : InsertPlan V) : Prop where
  row : p.update = none → Good G b table p.key p.row
  update : ∀ old new, p.update = some (old,new) → Good G b table p.key new
  existing : ∀ data, p.existing = some data → EntryGood G b table (p.key,data)

lemma good_of_rule {td : TableData V E} {table : String} (hS : defs b table = some (defn td))
    {k : Bytes} {row : List V} (h : G (defn td) k row) : Good G b table k row := by
  intro d hd
  rw [hS] at hd
  cases hd
  exact h

lemma stays_snapshot {P : Engine V E → Prop} (tid : TxnId) :
    Stays P (snapshot (V := V) (E := E) tid) :=
  stays_check _

section
variable (hq : Quiet ev names Still) (hread : Readable ev G)
include hq hread

lemma stays_insertWrite (stmt : InsertStmt E Q) (td : TableData V E) (slot : ℕ) (p : InsertPlan V)
    (hp : InsertGood G b stmt.table p) :
    Stays (Held names G b) (insertWrite ev txnId stmt td slot p) := by
  have h : Steady ev (Held names G b) := settled_held.steady hq
  have himage : ∀ data values, p.existing = some data → decodeRow data = some values →
      Good G b stmt.table p.key values := fun data values hex hdec => hp.existing data hex values hdec
  rw [insertWrite]
  cases hupd : p.update with
  | some u =>
    refine stays_bind (stays_onSecondaries _ _) (fun _ => stays_bind (stays_recordUndo himage) ?_)
    exact fun _ => stays_bind (stays_putRow hread (hp.update u.1 u.2 hupd)) (fun _ => stays_pure _)
  | none =>
    have hrow := hp.row hupd
    refine stays_bind ?_ (fun _ => stays_bind (stays_onSecondaries _ _) (fun _ => ?_))
    · cases txnId with
      | none => exact stays_pure ()
      | some tid =>
        refine stays_bind (stays_walAppend _) (fun _ => stays_bind (stays_snapshot tid) ?_)
        intro snap
        refine stays_bind (stays_onVersions _ (fun d hd => ?_)) (fun _ => stays_ssiWrite h _ _ _)
        exact keepsGood_insert (hrow d hd) tid snap.startTs
    · refine stays_bind (stays_recordUndo himage) (fun _ => ?_)
      exact stays_bind (stays_putRow hread hrow) (fun _ => stays_pure _)

lemma stays_insertRow (stmt : InsertStmt E Q) (td : TableData V E) (values : List V)
    (hS : defs b stmt.table = some (defn td))
    (hrow : ∀ e0 p, InsertFacts ev txnId stmt td values e0 p → p.update = none →
      G (defn td) p.key p.row)
    (hupdate : ∀ assignments old new k, stmt.onConflict = some (.doUpdate assignments) →
      Assigned ev td.schema assignments old new → G (defn td) k old → G (defn td) k new)
    (done : List (List V)) :
    Stays (Held names G b) (insertRow ev txnId stmt td done values) := by
  refine stays_eachRow (R := InsertGood G b stmt.table)
    (triple_local (R := fun plan _ => ∀ p, plan = some p → InsertGood G b stmt.table p)
      settled_held (fun e0 he0 => ?_))
    (fun n p hp => stays_insertWrite hq hread stmt td n p hp) done
  refine (triple_insertCheck hq he0.sound.within stmt td values).post (fun plan e hs => ⟨hs.1,fun p hp => ?_⟩)
  have hfacts := hs.2 p hp
  have hexisting : ∀ data, p.existing = some data → EntryGood G b stmt.table (p.key,data) := by
    intro data hdata values hdec
    rw [hfacts.existing] at hdata
    exact he0.good_stored hdata hdec
  refine ⟨fun hnone => good_of_rule hS (hrow e0 p hfacts hnone),fun old new hupd => ?_,hexisting⟩
  obtain ⟨data,assignments,hdata,hdec,hconf,hassigned⟩ := hfacts.update old new hupd
  exact good_of_rule hS (hupdate assignments old new p.key hconf hassigned
    (hexisting data hdata old hdec _ hS))

lemma stays_updateWrite (stmt : UpdateStmt E) (td : TableData V E) (slot : ℕ) (p : UpdatePlan V)
    (hold : Good G b stmt.table p.key p.old) (hnew : Good G b stmt.table p.key p.new) :
    Stays (Held names G b) (updateWrite ev txnId stmt td slot p) := by
  have h : Steady ev (Held names G b) := settled_held.steady hq
  refine stays_bind ?_ (fun _ => stays_bind (stays_onSecondaries _ _) (fun _ =>
    stays_bind (stays_putRow hread hnew) (fun _ => stays_pure _)))
  cases txnId with
  | none => exact stays_pure ()
  | some tid =>
    refine stays_bind (stays_snapshot tid) (fun snap => ?_)
    refine stays_bind (stays_onVersions _ (fun d hd => keepsGood_ensureBase (hold d hd))) ?_
    intro _
    refine stays_bind (stays_onVersions _ (fun d hd => keepsGood_tryUpdate (hnew d hd) _ _ _ _)) ?_
    exact fun _ => stays_bind (stays_ssiWrite h _ _ _) (fun _ => stays_walAppend _)

lemma stays_updateRow
    (stmt : UpdateStmt E) (td : TableData V E) (hS : defs b stmt.table = some (defn td))
    (hupdate : ∀ e0 entry p, UpdateFacts ev txnId stmt td e0 entry p →
      G (defn td) entry.1 p.old → G (defn td) entry.1 p.new)
    (entry : Bytes × Bytes) (hentry : EntryGood G b stmt.table entry) (done : List (List V)) :
    Stays (Held names G b) (updateRow ev txnId stmt td done entry) := by
  refine stays_eachRow (R := fun p => Good G b stmt.table p.key p.old ∧
      Good G b stmt.table p.key p.new)
    (triple_passed settled_held (noted txnId stmt.table entry.1 (some entry.2))
      (fun e he => held_noted he (fun data values hdata hdec => ?_)) (fun e0 he0 => ?_))
    (fun n p hp => stays_updateWrite hq hread stmt td n p hp.1 hp.2) done
  · cases hdata
    exact hentry values hdec
  refine (triple_updateCheck hq he0.sound.within stmt td entry).post (fun plan e hs => ?_)
  cases plan with
  | none => exact hs
  | some p =>
    refine ⟨hs.1,?_⟩
    show Good G b stmt.table p.key p.old ∧ Good G b stmt.table p.key p.new
    rw [hs.2.key]
    exact ⟨hentry _ hs.2.old,good_of_rule hS (hupdate e0 entry p hs.2 (hentry _ hs.2.old _ hS))⟩

end

def nulled (columns : List ℕ) (row : List V) : List V :=
  columns.foldl (fun (row : List V) i => row.set i null) row

lemma nulled_length (columns : List ℕ) (row : List V) :
    (nulled columns row).length = row.length := by
  induction columns generalizing row with
  | nil => rfl
  | cons i columns ih =>
    rw [nulled, foldl_cons, ← nulled, ih, length_set]

variable {i : ℕ}

lemma nulled_other (columns : List ℕ) (row : List V) (hi : i ∉ columns) :
    (nulled columns row)[i]? = row[i]? := by
  induction columns generalizing row with
  | nil => rfl
  | cons j columns ih =>
    rw [mem_cons, not_or] at hi
    rw [nulled, foldl_cons, ← nulled, ih _ hi.2, getElem?_set_ne (Ne.symm hi.1)]

lemma nulled_null (columns : List ℕ) (row : List V) (hi : i ∈ columns) {v : V}
    (hv : (nulled columns row)[i]? = some v) : v = null := by
  induction columns generalizing row with
  | nil => cases hi
  | cons j columns ih =>
    by_cases hmem : i ∈ columns
    · exact ih (row.set j null) hmem hv
    have hij : i = j := (mem_cons.mp hi).resolve_right hmem
    have hother : (nulled columns (row.set j null))[i]? = (row.set j null)[i]? :=
      nulled_other columns _ hmem
    have hset : (row.set j null)[i]? = some v := hother.symm.trans hv
    rw [hij, getElem?_set_self'] at hset
    obtain ⟨_,-,hnull⟩ := map_eq_some_iff.mp hset
    exact hnull.symm

/-- The rule allows what the foreign key does to the rows of its table. -/
def NullSafe (G : Rule V E) (b : Engine V E) (child : String)
    (action : FkAction) (columns : List ℕ) : Prop :=
  action = .setNull → ∀ k row, Good G b child k row → Good G b child k (nulled columns row)

lemma triple_content (table : String) (key : Bytes) :
    Triple (Held names G b) (get (fun e => e.content table key) : Exec V E (Option Bytes))
      (fun prev e => Held names G b e ∧ ∀ data values, prev = some data →
        decodeRow data = some values → Good G b table key values) (Held names G b) := by
  refine triple_get _ (fun e he => ⟨he,fun data values hdata hdec => ?_⟩)
  exact he.good_stored hdata hdec

lemma stays_unindex (table : String) (key : Bytes) (prev : Option Bytes) :
    Stays (Held names G b) (unindex table key prev) := by
  rw [unindex]
  split
  · exact stays_pure ()
  · exact stays_onSecondaries _ _

lemma stays_cascade (hread : Readable ev G) (t : Target)
    (hnull : NullSafe G b t.childName t.action t.childIdxs) :
    Stays (Held names G b) (cascade ev txnId t) := by
  rw [cascade]
  cases haction : t.action with
  | restrict => exact stays_pure ()
  | cascade =>
    refine triple_fact (triple_content t.childName t.key) (fun prev hprev => ?_)
    exact stays_bind (stays_unindex _ _ _) (fun _ =>
      stays_bind (stays_recordUndo hprev) (fun _ => stays_deleteRow _ _))
  | setNull =>
    refine triple_fact (triple_content t.childName t.key) (fun prev hprev => ?_)
    cases prev with
    | none => exact stays_pure ()
    | some data =>
      dsimp only
      cases hdec : (decodeRow data : Option (List V)) with
      | none => exact stays_pure ()
      | some old =>
        refine stays_bind (stays_onSecondaries _ _) (fun _ => stays_bind (stays_recordUndo ?_) ?_)
        · exact fun data' values hd => hprev data' values hd
        · intro _
          exact stays_putRow hread (hnull haction t.key old (hprev data old rfl hdec))

lemma cascadeTargets_iff {refs : List FkRef}
    {targets : List Target} (h : cascadeTargets e refs row = .ok targets) (t : Target) :
    t ∈ targets ↔ ∃ fkr ∈ refs, ∃ ts, targetsOf e row fkr = .ok ts ∧ t ∈ ts := by
  rw [cascadeTargets] at h
  cases hout : refs.mapM (targetsOf e row) with
  | error err =>
    rw [hout] at h
    cases h
  | ok out =>
    rw [hout] at h
    cases h
    obtain ⟨hleft,hright⟩ := mapM_ok hout
    rw [mem_flatten]
    constructor
    · rintro ⟨ts,hts,ht⟩
      obtain ⟨fkr,hfkr,hok⟩ := hright ts hts
      exact ⟨fkr,hfkr,ts,hok,ht⟩
    · rintro ⟨fkr,hfkr,ts,hok,ht⟩
      obtain ⟨ts',hts',hok'⟩ := hleft fkr hfkr
      rw [hok] at hok'
      cases hok'
      exact ⟨ts,hts',ht⟩

lemma targetsOf_mem {fkr : FkRef} {ts : List Target}
    (h : targetsOf e row fkr = .ok ts) {t : Target} (ht : t ∈ ts) :
    t.childName = fkr.childName ∧ t.action = fkr.onDelete ∧ t.childIdxs = fkr.childIdxs ∧
      fkr.onDelete ≠ .restrict := by
  rw [targetsOf] at h
  split at h
  · cases h
    cases ht
  dsimp only at h
  split at h
  · cases h
    cases ht
  split at h
  · cases h
  rename_i hrestrict
  cases h
  obtain ⟨c,hc,rfl⟩ := mem_map.mp ht
  refine ⟨rfl,rfl,rfl,fun heq => hrestrict ⟨heq,?_⟩⟩
  exact ne_nil_of_mem hc

variable (hq : Quiet ev names Still) (hread : Readable ev G) (stmt : DeleteStmt E)
  (td : TableData V E)
include hq hread

lemma stays_deleteWrite (slot : ℕ) (p : DeletePlan V) (hrow : Good G b stmt.table p.key p.row)
    (hnull : ∀ t ∈ p.targets, NullSafe G b t.childName t.action t.childIdxs) :
    Stays (Held names G b) (deleteWrite ev txnId stmt td slot p) := by
  have h : Steady ev (Held names G b) := settled_held.steady hq
  refine stays_bind (stays_loop _ (fun t ht _ => stays_cascade hread t (hnull t ht)) _) (fun _ => ?_)
  refine stays_bind ?_ (fun _ => stays_bind (stays_onSecondaries _ _) (fun _ => stays_pure _))
  cases txnId with
  | none => exact stays_pure ()
  | some tid =>
    refine stays_bind (stays_snapshot tid) (fun snap => ?_)
    refine stays_bind (stays_onVersions _ (fun d hd => keepsGood_ensureBase (hrow d hd))) ?_
    intro _
    refine stays_bind (stays_onVersions _ (fun d hd => keepsGood_tryDelete _ _ _ _ _)) ?_
    exact fun _ => stays_bind (stays_ssiWrite h _ _ _) (fun _ => stays_walAppend _)

lemma stays_deleteRowOf (refs : List FkRef)
    (hnull : ∀ fkr ∈ refs, NullSafe G b fkr.childName fkr.onDelete fkr.childIdxs)
    (entry : Bytes × Bytes) (hentry : EntryGood G b stmt.table entry)
    (done : List (Bytes × List V)) :
    Stays (Held names G b) (deleteRowOf ev txnId stmt td refs done entry) := by
  refine stays_eachRow (R := fun p => Good G b stmt.table p.key p.row ∧
      ∀ t ∈ p.targets, NullSafe G b t.childName t.action t.childIdxs)
    (triple_passed settled_held (noted txnId stmt.table entry.1 (some entry.2))
      (fun e he => held_noted he (fun data values hdata hdec => ?_)) (fun e0 he0 => ?_))
    (fun n p hp => stays_deleteWrite hq hread stmt td n p hp.1 hp.2) done
  · cases hdata
    exact hentry values hdec
  refine (triple_deleteCheck hq he0.sound.within stmt td refs entry).post (fun plan e hs => ?_)
  cases plan with
  | none => exact hs
  | some p =>
    refine ⟨hs.1,?_,fun t ht => ?_⟩
    · rw [hs.2.key]
      exact hentry _ hs.2.row
    · obtain ⟨fkr,hfkr,ts,hok,hmem⟩ := (cascadeTargets_iff hs.2.targets t).mp ht
      obtain ⟨hname,haction,hidxs,-⟩ := targetsOf_mem hok hmem
      rw [hname, haction, hidxs]
      exact hnull fkr hfkr

end

end ByteDB.Engine
