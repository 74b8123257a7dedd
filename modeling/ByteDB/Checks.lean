import ByteDB.Steady

/-!
# What the checks of a statement establish

A row that INSERT, UPDATE or DELETE goes on to write has passed its checks in
a state whose tables are those that the write finds.
-/

set_option autoImplicit false

namespace ByteDB.Engine
open ByteDB.Assoc Command Codec List Option

variable {V E Q : Type} [Codec V] {ev : Evaluator V E Q} {crc : Bytes → UInt32}
  {names : String → Prop} {P : Engine V E → Prop} {txnId : Option TxnId}

def frozen (td : TableData V E) : TableData V E := { td with sequences := ∅ }

/-- `e'` differs from `e` only in counters and conflict flags. -/
structure Still (e e' : Engine V E) : Prop where
  table : ∀ t, (e'.tables.lookup t).map frozen = (e.tables.lookup t).map frozen
  manager : ∃ ssi, e'.tm = { e.tm with ssi := ssi }
  undo : e'.undo = e.undo
  pending : e'.pending = e.pending
  fixed : Fixed e e'

variable {e e' : Engine V E} {t : String} {α : Type}

namespace Still

lemma refl (e : Engine V E) : Still e e := ⟨fun _ => rfl,⟨e.tm.ssi,rfl⟩,rfl,rfl,.refl e⟩

lemma trans {a b c : Engine V E} (h : Still a b) (h' : Still b c) : Still a c where
  table t := (h'.table t).trans (h.table t)
  manager := by
    obtain ⟨ssi,hm⟩ := h.manager
    obtain ⟨ssi',hm'⟩ := h'.manager
    exact ⟨ssi',by rw [hm', hm]⟩
  undo := h'.undo.trans h.undo
  pending := h'.pending.trans h.pending
  fixed := h.fixed.trans h'.fixed

lemma of_tables (ht : e'.tables = e.tables)
    (hm : ∃ ssi, e'.tm = { e.tm with ssi := ssi }) (hu : e'.undo = e.undo)
    (hp : e'.pending = e.pending) (hf : Fixed e e') : Still e e' :=
  ⟨fun t => by rw [ht],hm,hu,hp,hf⟩

lemma onTable (e : Engine V E) (table : String) {f : TableData V E → TableData V E}
    (hf : ∀ td, frozen (f td) = frozen td) : Still e (e.onTable table f) where
  table t := by
    rw [Engine.onTable, lookup_adjust]
    split
    · rename_i ht
      subst ht
      cases e.tables.lookup t with
      | none => rfl
      | some td => exact congrArg some (hf td)
    · rfl
  manager := ⟨e.tm.ssi,rfl⟩
  undo := rfl
  pending := rfl
  fixed := .refl e

lemma bind_table (h : Still e e') (t : String)
    (f : TableData V E → Option α) (hf : ∀ td, f (frozen td) = f td) :
    (e'.tables.lookup t).bind f = (e.tables.lookup t).bind f := by
  have hfrozen : ∀ o : Option (TableData V E), o.bind f = (o.map frozen).bind f := by
    intro o
    cases o with
    | none => rfl
    | some td => exact (hf td).symm
  rw [hfrozen, hfrozen (e.tables.lookup t), h.table]

lemma content (h : Still e e') (t : String) (key : Bytes) : e'.content t key = e.content t key :=
  h.bind_table t _ (fun _ => rfl)

lemma lookup (h : Still e e') {td : TableData V E} (htd : e.tables.lookup t = some td) :
    ∃ td', e'.tables.lookup t = some td' ∧ frozen td' = frozen td := by
  have ht := h.table t
  rw [htd] at ht
  exact map_eq_some_iff.mp ht

lemma lookup_none (h : Still e e')
    (htd : e.tables.lookup t = none) : e'.tables.lookup t = none := by
  have ht := h.table t
  rw [htd] at ht
  exact map_eq_none_iff.mp ht

lemma within (h : Still e e') (hw : Within names e) : Within names e' := by
  intro t td htd
  have ht := h.table t
  rw [htd] at ht
  obtain ⟨td₀,htd₀,-⟩ := map_eq_some_iff.mp ht.symm
  exact hw t td₀ htd₀

end Still

/-- `P` does not see counters and conflict flags, and implies that the tables
have these names. -/
structure Settled (names : String → Prop) (P : Engine V E → Prop) : Prop where
  names : ∀ e, P e → Within names e
  still : ∀ e e', P e → Still e e' → P e'


lemma Settled.steady (h : Settled names P) (hq : Quiet ev names Still) : Steady ev P where
  tri e txnId x row schema he := h.still _ _ he (hq.tri e txnId x row schema (h.names e he))
  value e txnId x row schema he := h.still _ _ he (hq.value e txnId x row schema (h.names e he))
  insertValue e txnId x schema i he :=
    h.still _ _ he (hq.insertValue e txnId x schema i (h.names e he))
  select e txnId q he := h.still _ _ he (hq.select e txnId q (h.names e he))
  ssi e ssi he := h.still _ _ he (.of_tables rfl ⟨ssi,rfl⟩ rfl rfl (.refl e))
  sequences e table _ he := h.still _ _ he (.onTable e table (fun _ => rfl))
  rowids e _ he := h.still _ _ he (.of_tables rfl ⟨e.tm.ssi,rfl⟩ rfl rfl (.refl e))

lemma settled_still {e₀ : Engine V E} (hw : Within names e₀) : Settled names (Still e₀) where
  names _ h := h.within hw
  still _ _ h h' := h.trans h'

section
variable (txnId : Option TxnId) (table : String) (key : Bytes) (prev : Option Bytes)
  (e : Engine V E)

def noted : Engine V E :=
  match txnId with
  | none => e
  | some tid => withUndo tid table key prev e

lemma recordUndo_eq :
    recordUndo txnId table key prev e = (.ok (),noted txnId table key prev e) := by
  cases txnId <;> rfl

@[simp] lemma noted_tables : (noted txnId table key prev e).tables = e.tables := by
  cases txnId <;> rfl

end

lemma Still.noted (h : Still e e') (txnId : Option TxnId) (table : String)
    (key : Bytes) (prev : Option Bytes) :
    Still (noted txnId table key prev e) (noted txnId table key prev e') := by
  cases txnId with
  | none => exact h
  | some tid =>
    refine ⟨h.table,h.manager,?_,h.pending,h.fixed⟩
    simp only [Engine.noted, withUndo, undoOf, h.undo]

variable {schema : Schema V}

section

def Assigns (schema : Schema V) (assignments : List (String × E)) (i : ℕ) : Prop :=
  ∃ a ∈ assignments, schema.columnIndex a.1 = some i

inductive Assigned (ev : Evaluator V E Q) (schema : Schema V) (assignments : List (String × E))
    (old : List V) : List V → Prop where
  | start : Assigned ev schema assignments old old
  | set {row : List V} (a : String × E) (i : ℕ) (e : Engine V E) (txnId : Option TxnId) :
      Assigned ev schema assignments old row → a ∈ assignments → schema.columnIndex a.1 = some i →
      Assigned ev schema assignments old (row.set i (ev.value e txnId a.2 row schema).1)

variable {assignments : List (String × E)} {old new : List V}

lemma Assigned.length (h : Assigned ev schema assignments old new) : new.length = old.length := by
  induction h with
  | start => rfl
  | set a i e txnId _ _ _ ih => rw [length_set, ih]

lemma Assigned.others
    (h : Assigned ev schema assignments old new) {j : ℕ} (hj : ¬ Assigns schema assignments j) :
    new[j]? = old[j]? := by
  induction h with
  | start => rfl
  | set a i e txnId _ ha hi ih =>
    rw [getElem?_set_ne, ih]
    rintro rfl
    exact hj ⟨a,ha,hi⟩

def Supplied (given : V) (c : Column V) (w : V) : Prop := w = given ∨ (isNull given = true ∧
    ((c.autoIncrement = true ∧ ∃ n, w = ofInt64 n) ∨ (c.autoIncrement = false ∧ c.default = some w)))

/-- The value may stand in the column: it is null only if the column allows
it, and otherwise has gone through the conversion to the type of the column. -/
structure Fits (given : V) (c : Column V) (v : V) : Prop where
  null : isNull v → c.nullable
  converted : isNull v = false → ∃ w, Supplied given c w ∧ isNull w = false ∧
    v = convert c.dataType c.maxLength w

structure Prepared (schema : Schema V) (given row : List V) : Prop where
  length : row.length = schema.columns.length
  fits : ∀ c ∈ schema.positions, ∀ v, row[c.2]? = some v → Fits ((given[c.2]?).getD null) c.1 v

/-- The checks on the expressions have been made, each in some state. -/
def ChecksHold (ev : Evaluator V E Q) (txnId : Option TxnId) (checks : List E) (row : List V)
    (schema : Schema V) : Prop :=
  ∀ x ∈ checks, ∃ e, (ev.tri e txnId x row schema).1.getD true = true

def HasParents (e : Engine V E) (schema : Schema V) (row : List V) : Prop :=
  ∀ fk ∈ schema.foreignKeys, ∀ vals, childValues schema fk row = some vals →
    ∃ parent, e.tables.lookup fk.refTable = some parent ∧
      fkParentExists parent (fk.refColumns.filterMap parent.schema.columnIndex) vals = true

def NoDuplicate (e : Engine V E) (table : String) (row : List V) (own : Option Bytes) : Prop :=
  (e.tables.lookup table).bind (fun td => uniqueViolation td row own) = none

end

variable {β : Type}

section

lemma triple_assign (h : Steady ev P) (schema : Schema V) (assignments : List (String × E))
    (row : List V) : Triple P (assign ev txnId schema assignments row)
      (fun new e => P e ∧ Assigned ev schema assignments row new) P := by
  have hloop : Triple (fun e => P e ∧ Assigned ev schema assignments row row)
      (assign ev txnId schema assignments row)
      (fun new e => P e ∧ Assigned ev schema assignments row new) P := by
    refine triple_loop (I := fun new e => P e ∧ Assigned ev schema assignments row new)
      assignments (fun a ha new => ?_) row
    cases hi : schema.columnIndex a.1 with
    | none => exact triple_pure _ (fun _ hs => hs)
    | some i =>
      intro e he
      exact ⟨h.value e txnId a.2 new schema he.1,he.2.set a i e txnId ha hi⟩
  exact hloop.pre (fun e he => ⟨he,.start⟩)

lemma triple_checkExpressions (h : Steady ev P) (refuse : Refusals) (table : String)
    (td : TableData V E) (row : List V) : Triple P (checkExpressions ev refuse txnId table td row)
      (fun _ e => P e ∧ ChecksHold ev txnId td.checkExprs row td.schema) P := by
  have hloop : Triple (fun e => P e ∧ ChecksHold ev txnId [] row td.schema)
      (checkExpressions ev refuse txnId table td row)
      (fun _ e => P e ∧ ChecksHold ev txnId td.checkExprs row td.schema) P := by
    refine triple_loop_done (I := fun done _ e => P e ∧ ChecksHold ev txnId done row td.schema)
      td.checkExprs (fun done x rest _ _ => ?_) ()
    intro e he
    have hx := h.tri e txnId x row td.schema he.1
    cases hholds : (ev.tri e txnId x row td.schema).1.getD true with
    | false =>
      have heval : evalCheck ev txnId x row td.schema e =
          (.ok false,(ev.tri e txnId x row td.schema).2) := by rw [evalCheck, hholds]
      rw [bind_ok heval]
      exact hx
    | true =>
      have heval : evalCheck ev txnId x row td.schema e =
          (.ok true,(ev.tri e txnId x row td.schema).2) := by rw [evalCheck, hholds]
      rw [bind_ok heval]
      refine ⟨hx,fun y hy => ?_⟩
      rcases mem_append.mp hy with hy | hy
      · exact he.2 y hy
      · rw [mem_singleton.mp hy]
        exact ⟨e,hholds⟩
  exact hloop.pre (fun e he => ⟨he,by simp [ChecksHold]⟩)

lemma triple_supply (h : Steady ev P) (table : String) (c : Column V) (given : V) :
    Triple P (supply table c given) (fun w e => P e ∧ Supplied given c w) P := by
  rw [supply]
  split
  · rename_i hnull
    split
    · rename_i hauto
      refine triple_bind (stays_sequenceNext h table c.name) (fun n => ?_)
      refine triple_pure _ (fun e he => ⟨he,?_⟩)
      cases n with
      | none => exact .inl rfl
      | some n => exact .inr ⟨hnull,.inl ⟨hauto,n,rfl⟩⟩
    · rename_i hauto
      refine triple_pure _ (fun e he => ⟨he,?_⟩)
      cases hdef : c.default with
      | none => exact .inl rfl
      | some d => exact .inr ⟨hnull,.inr ⟨by simpa using hauto,hdef⟩⟩
  · split
    · split
      · exact triple_bind (stays_sequenceObserve h table c.name _)
          (fun _ => triple_pure _ (fun e he => ⟨he,.inl rfl⟩))
      · exact triple_pure _ (fun e he => ⟨he,.inl rfl⟩)
    · exact triple_pure _ (fun e he => ⟨he,.inl rfl⟩)

lemma triple_prepareColumn (h : Steady ev P) (table : String) (row : List V) (c : Column V × ℕ) :
    Triple P (prepareColumn table row c)
      (fun row' e => P e ∧ ∃ v, row' = row.set c.2 v ∧ Fits ((row[c.2]?).getD null) c.1 v) P := by
  refine triple_fact (triple_supply h table c.1 _) (fun v hv => ?_)
  have hfits : ∀ w, w = (if isNull v then v else convert c.1.dataType c.1.maxLength v) →
      (isNull w && !c.1.nullable) = false → Fits ((row[c.2]?).getD null) c.1 w := by
    intro w hw hnull
    refine ⟨fun hn => ?_,fun hn => ?_⟩
    · simpa [hn] using hnull
    by_cases hnv : isNull v = true
    · rw [if_pos hnv] at hw
      rw [hw, hnv] at hn
      cases hn
    · rw [if_neg hnv] at hw
      exact ⟨v,hv,by simpa using hnv,hw⟩
  generalize (if isNull v then v else convert c.1.dataType c.1.maxLength v) = w at hfits
  show Triple P (if isNull w && !c.1.nullable then fail _ else pure _) _ P
  split
  · exact triple_fail _ (fun _ he => he)
  · rename_i hnull
    exact triple_pure _ (fun e he => ⟨he,w,rfl,hfits w rfl (by simpa using hnull)⟩)

lemma positions_nodup (schema : Schema V) : (schema.positions.map Prod.snd).Nodup := by
  rw [Schema.positions, zipIdx_map_snd]
  exact nodup_range'

structure Preparing (schema : Schema V) (given : List V) (done : List (Column V × ℕ))
    (row : List V) : Prop where
  length : row.length = schema.columns.length
  fits : ∀ c ∈ done, ∀ v, row[c.2]? = some v → Fits ((given[c.2]?).getD null) c.1 v
  others : ∀ i, i ∉ done.map Prod.snd → row[i]? = given[i]?

lemma Preparing.step {given row : List V} {done rest : List (Column V × ℕ)}
    {a : Column V × ℕ} (hsplit : schema.positions = done++a::rest)
    (h : Preparing schema given done row) {v : V} (hv : Fits ((row[a.2]?).getD null) a.1 v) :
    Preparing schema given (done++[a]) (row.set a.2 v) := by
  have hnodup := positions_nodup schema
  rw [hsplit, map_append, map_cons, nodup_append] at hnodup
  have hnew : a.2 ∉ done.map Prod.snd := fun hmem => hnodup.2.2 a.2 hmem a.2 (by simp) rfl
  rw [h.others a.2 hnew] at hv
  refine ⟨by rw [length_set]; exact h.length,fun c hc w hw => ?_,fun i hi => ?_⟩
  · rcases mem_append.mp hc with hc | hc
    · have hne : a.2 ≠ c.2 := fun heq => hnew (heq ▸ mem_map_of_mem hc)
      rw [getElem?_set_ne hne] at hw
      exact h.fits c hc w hw
    · rw [mem_singleton.mp hc] at hw ⊢
      rw [getElem?_set_self'] at hw
      obtain ⟨-,-,rfl⟩ := map_eq_some_iff.mp hw
      exact hv
  · rw [map_append, mem_append, not_or] at hi
    have hne : a.2 ≠ i := by
      rintro rfl
      exact hi.2 (by simp)
    rw [getElem?_set_ne hne]
    exact h.others i hi.1

lemma triple_prepare (h : Steady ev P) (table : String) (schema : Schema V) (given : List V)
    (hlen : given.length = schema.columns.length) :
    Triple P (loop (prepareColumn table) given schema.positions)
      (fun row e => P e ∧ Prepared schema given row) P := by
  have hloop : Triple (fun e => P e ∧ Preparing schema given [] given)
      (loop (prepareColumn table) given schema.positions)
      (fun row e => P e ∧ Preparing schema given schema.positions row) P := by
    refine triple_loop_done (I := fun done row e => P e ∧ Preparing schema given done row) _
      (fun done a rest row hsplit => ?_) given
    intro e he
    have hbody := triple_prepareColumn h table row a e he.1
    revert hbody
    cases prepareColumn table row a e with
    | mk r e' =>
      cases r with
      | error err => exact fun hP => hP
      | ok row' =>
        rintro ⟨hP,v,rfl,hfits⟩
        exact ⟨hP,he.2.step hsplit hfits⟩
  refine hloop.weaken (fun e he => ⟨he,hlen,?_,fun _ _ => rfl⟩)
    (fun row e he => ⟨he.1,he.2.length,he.2.fits⟩) (fun _ he => he)
  nofun

variable {as : List α}

lemma forM_ok {f : α → Except QueryError Unit} {u : Unit}
    (h : as.forM f = .ok u) : ∀ a ∈ as, f a = .ok () := by
  induction as with
  | nil => simp
  | cons a as ih =>
    change (f a >>= fun _ => as.forM f) = .ok u at h
    intro b hb
    cases hf : f a with
    | error err =>
      rw [hf] at h
      cases h
    | ok _ =>
      rw [hf] at h
      rcases mem_cons.mp hb with rfl | hb
      · exact hf
      · exact ih h b hb

lemma mapM_ok {f : α → Except QueryError β} {bs : List β} (h : as.mapM f = .ok bs) :
    (∀ a ∈ as, ∃ b ∈ bs, f a = .ok b) ∧ ∀ b ∈ bs, ∃ a ∈ as, f a = .ok b := by
  induction as generalizing bs with
  | nil =>
    cases h
    simp
  | cons a as ih =>
    rw [mapM_cons] at h
    cases hf : f a with
    | error err =>
      rw [hf] at h
      cases h
    | ok b =>
      rw [hf] at h
      cases hrest : as.mapM f with
      | error err =>
        have h' := hrest ▸ h
        cases h'
      | ok rest =>
        have h' := hrest ▸ h
        cases h'
        obtain ⟨hleft,hright⟩ := ih hrest
        constructor
        · intro a' ha'
          rcases mem_cons.mp ha' with rfl | ha'
          · exact ⟨b,by simp,hf⟩
          · obtain ⟨b',hb',hok⟩ := hleft a' ha'
            exact ⟨b',by simp [hb'],hok⟩
        · intro b' hb'
          rcases mem_cons.mp hb' with rfl | hb'
          · exact ⟨a,by simp,hf⟩
          · obtain ⟨a',ha',hok⟩ := hright b' hb'
            exact ⟨a',by simp [ha'],hok⟩

lemma triple_checkForeignKeys (refuse : Refusals) (schema : Schema V) (row : List V) :
    Triple P (checkForeignKeys refuse schema row) (fun _ e => P e ∧ HasParents e schema row) P := by
  refine triple_check _ (fun e u he hok => ⟨he,fun fk hfk vals hvals => ?_⟩) (fun _ he => he)
  have hone := forM_ok hok fk hfk
  rw [hvals] at hone
  cases hparent : e.tables.lookup fk.refTable with
  | none =>
    rw [hparent] at hone
    cases hone
  | some parent =>
    rw [hparent] at hone
    dsimp only at hone
    split at hone
    · exact ⟨parent,rfl,‹_›⟩
    · cases hone

lemma triple_checkUnique (refuse : Refusals) (table : String) (row : List V) (own : Option Bytes) :
    Triple P (checkUnique refuse table row own) (fun _ e => P e ∧ NoDuplicate e table row own) P := by
  refine triple_check _ (fun e u he hok => ⟨he,?_⟩) (fun _ he => he)
  rw [NoDuplicate]
  cases hdup : (e.tables.lookup table).bind (fun td => uniqueViolation td row own) with
  | none => rfl
  | some col =>
    rw [hdup] at hok
    cases hok

end

variable {table : String} {row : List V} {own : Option Bytes}

section
variable {e₀ e : Engine V E}

lemma NoDuplicate.still (h : Still e₀ e)
    (hd : NoDuplicate e table row own) : NoDuplicate e₀ table row own :=
  (h.bind_table table _ (fun _ => rfl)).symm.trans hd

lemma HasParents.still (h : Still e₀ e)
    (hp : HasParents e schema row) : HasParents e₀ schema row := by
  intro fk hfk vals hvals
  obtain ⟨parent,hparent,hfound⟩ := hp fk hfk vals hvals
  have ht := h.table fk.refTable
  rw [hparent] at ht
  obtain ⟨parent₀,hparent₀,hfrozen⟩ := map_eq_some_iff.mp ht.symm
  refine ⟨parent₀,hparent₀,?_⟩
  have hschema : parent₀.schema = parent.schema := congrArg (·.schema) hfrozen
  have hsame : ∀ idxs, fkParentExists (frozen parent₀) idxs vals =
      fkParentExists (frozen parent) idxs vals := fun idxs => by rw [hfrozen]
  rw [hschema]
  exact (hsame _).trans hfound

lemma targetsOf_still (h : Still e₀ e) (row : List V) (fkr : FkRef) :
    targetsOf e row fkr = targetsOf e₀ row fkr := by
  rw [targetsOf, targetsOf]
  cases htd : e₀.tables.lookup fkr.childName with
  | none => rw [h.lookup_none htd]
  | some child =>
    obtain ⟨child',hchild',hfrozen⟩ := h.lookup htd
    rw [hchild']
    have hsame : ∀ idxs vals, childCandidates (frozen child') idxs vals =
        childCandidates (frozen child) idxs vals := fun idxs vals => by rw [hfrozen]
    have hcands : ∀ idxs vals, childCandidates child' idxs vals =
        childCandidates child idxs vals := hsame
    simp only [hcands]

lemma cascadeTargets_still (h : Still e₀ e) (refs : List FkRef) (row : List V) :
    cascadeTargets e refs row = cascadeTargets e₀ refs row := by
  rw [cascadeTargets, cascadeTargets, funext (targetsOf_still h row)]

end

section
variable {e₀ : Engine V E}

structure InsertFacts (ev : Evaluator V E Q) (txnId : Option TxnId) (stmt : InsertStmt E Q)
    (td : TableData V E) (values : List V) (e₀ : Engine V E) (p : InsertPlan V) : Prop where
  prepared : Prepared td.schema (resize td.schema.columns.length values) p.row
  unique : NoDuplicate e₀ stmt.table p.row none
  checks : ChecksHold ev txnId td.checkExprs p.row td.schema
  parents : HasParents e₀ td.schema p.row
  key : td.schema.primaryKeyColumns ≠ [] → p.key = keyBytes p.row td.schema.primaryKeyColumns
  existing : p.existing = e₀.content stmt.table p.key
  update : ∀ old new, p.update = some (old,new) → ∃ data assignments, p.existing = some data ∧
    decodeRow data = some old ∧ stmt.onConflict = some (.doUpdate assignments) ∧
      Assigned ev td.schema assignments old new
  fresh : p.update = none → p.existing = none ∨ td.schema.primaryKeyColumns = []

lemma triple_resolveConflict (h : Steady ev P) (stmt : InsertStmt E Q)
    (schema : Schema V) (row : List V) (key old : Bytes) :
    Triple P (resolveConflict ev txnId stmt schema row key old)
      (fun plan e => P e ∧ ∀ p, plan = some p → p.row = row ∧ p.key = key ∧ p.existing = some old ∧
        (∀ oldValues new, p.update = some (oldValues,new) → ∃ assignments,
          decodeRow old = some oldValues ∧ stmt.onConflict = some (.doUpdate assignments) ∧
            Assigned ev schema assignments oldValues new) ∧
        (p.update = none → schema.primaryKeyColumns = [])) P := by
  rw [resolveConflict]
  split
  · exact triple_pure none (fun e he => ⟨he,fun _ hp => by cases hp⟩)
  · rename_i assignments hconflict
    cases hdecode : (decodeRow old : Option (List V)) with
    | none => exact triple_fail _ (fun _ he => he)
    | some oldValues =>
      refine triple_bind (triple_assign h schema assignments oldValues) (fun new => ?_)
      refine triple_pure _ (fun e he => ⟨he.1,fun p hp => ?_⟩)
      cases hp
      refine ⟨rfl,rfl,rfl,fun ov nv hupd => ?_,fun hn => by cases hn⟩
      cases hupd
      exact ⟨assignments,rfl,hconflict,he.2⟩
  · split
    · exact triple_fail _ (fun _ he => he)
    rename_i hpk
    refine triple_pure _ (fun e he => ⟨he,fun p hp => ?_⟩)
    cases hp
    refine ⟨rfl,rfl,rfl,fun ov nv hupd => ?_,fun _ => not_not.mp hpk⟩
    cases hupd

lemma triple_keyFor (h : Steady ev P) (table : String) (schema : Schema V) (row : List V) :
    Triple P (keyFor table schema row) (fun key e => P e ∧
      (schema.primaryKeyColumns ≠ [] → key = keyBytes row schema.primaryKeyColumns)) P := by
  rw [keyFor]
  split
  · rename_i hpk
    exact fun e he => ⟨h.rowids e _ he,fun hne => absurd hpk hne⟩
  · exact triple_pure _ (fun e he => ⟨he,fun _ => rfl⟩)

lemma resize_length (n : ℕ) (row : List V) : (resize n row).length = n := by
  simp [resize]

lemma triple_insertCheck (hq : Quiet ev names Still) (hw : Within names e₀)
    (stmt : InsertStmt E Q) (td : TableData V E) (values : List V) :
    Triple (Still e₀) (insertCheck ev txnId stmt td values)
      (fun plan e => Still e₀ e ∧ ∀ p, plan = some p → InsertFacts ev txnId stmt td values e₀ p)
      (Still e₀) := by
  have h : Steady ev (Still e₀) := (settled_still hw).steady hq
  refine triple_fact (triple_prepare h stmt.table td.schema _ (resize_length _ _))
    (fun row hprep => ?_)
  refine triple_fact (r := fun _ => NoDuplicate e₀ stmt.table row none)
    ((triple_checkUnique insertRefusals stmt.table row none).post (fun _ _ hs => ⟨hs.1,hs.2.still hs.1⟩)) (fun _ hunique => ?_)
  refine triple_fact (triple_checkExpressions h insertRefusals stmt.table td row)
    (fun _ hchecks => ?_)
  refine triple_fact (r := fun _ => HasParents e₀ td.schema row)
    ((triple_checkForeignKeys insertRefusals td.schema row).post (fun _ _ hs => ⟨hs.1,hs.2.still hs.1⟩)) (fun _ hparents => ?_)
  refine triple_fact (triple_keyFor h stmt.table td.schema row) (fun key hkey => ?_)
  refine triple_fact (r := fun existing => existing = e₀.content stmt.table key)
    (triple_get _ (fun e he => ⟨he,he.content stmt.table key⟩)) (fun existing hex => ?_)
  cases existing with
  | none =>
    refine triple_pure _ (fun e he => ⟨he,fun p hp => ?_⟩)
    cases hp
    refine ⟨hprep,hunique,hchecks,hparents,hkey,hex,fun ov nv hupd => ?_,fun _ => .inl rfl⟩
    cases hupd
  | some old =>
    refine (triple_resolveConflict h stmt td.schema row key old).post (fun plan e hplan => ⟨hplan.1,fun p hp => ?_⟩)
    obtain ⟨hrow,hk,hexist,hupd,hnone⟩ := hplan.2 p hp
    rw [← hrow] at hprep hunique hchecks hparents hkey
    rw [← hk] at hkey hex
    refine ⟨hprep,hunique,hchecks,hparents,hkey,hexist.trans hex,
      fun ov nv h' => ?_,fun h' => .inr (hnone h')⟩
    obtain ⟨assignments,hdec,hconf,hassigned⟩ := hupd ov nv h'
    exact ⟨old,assignments,hexist,hdec,hconf,hassigned⟩

structure UpdateFacts (ev : Evaluator V E Q) (txnId : Option TxnId) (stmt : UpdateStmt E)
    (td : TableData V E) (e₀ : Engine V E) (entry : Bytes × Bytes) (p : UpdatePlan V) : Prop where
  key : p.key = entry.1
  data : p.data = entry.2
  old : decodeRow entry.2 = some p.old
  assigned : Assigned ev td.schema stmt.assignments p.old p.new
  notNull : nullViolation td.schema p.new = none
  unique : NoDuplicate e₀ stmt.table p.new (some entry.1)
  checks : ChecksHold ev txnId td.checkExprs p.new td.schema
  parents : HasParents e₀ td.schema p.new

lemma triple_selectRow_decoded {P F : Engine V E → Prop} (h : Steady ev P) (schema : Schema V)
    (filter : Option E) (data : Bytes) : Triple P (selectRow ev txnId schema filter data)
      (fun row e => P e ∧ ∀ r, row = some r → decodeRow data = some r) F := by
  rw [selectRow]
  cases (decodeRow data : Option (List V)) with
  | none => exact triple_pure none (fun e he => ⟨he,fun _ hr => by cases hr⟩)
  | some row =>
    cases filter with
    | none => exact triple_pure _ (fun e he => ⟨he,fun r hr => hr⟩)
    | some x =>
      refine triple_bind (Q := fun _ => P) (fun e he => h.tri e txnId x row schema he)
        (fun chosen => triple_pure _ (fun e he => ⟨he,fun r hr => ?_⟩))
      cases chosen with
      | true => simpa using hr
      | false => simp at hr

lemma triple_ssiRead {F : Engine V E → Prop} (table : String) (key : Bytes) :
    Triple (Still e₀) (ssiRead txnId table key) (fun _ => Still e₀) F := by
  cases txnId with
  | none => exact triple_pure () (fun _ he => he)
  | some tid =>
    refine triple_modify _ (fun e he => he.trans (.of_tables rfl ?_ rfl rfl (.refl e)))
    exact ⟨_,ssiRecord_ssi ..⟩

/-- A row is passed over, or the checks that it passes leave the state `after`. -/
def Passed {β : Type} (before after : Engine V E) (R : β → Prop) : Option β → Engine V E → Prop
  | none, e => Still before e
  | some p, e => Still after e ∧ R p

lemma triple_chosen (hq : Quiet ev names Still) (hw : Within names e₀)
    (table : String) (schema : Schema V) (filter : Option E) (entry : Bytes × Bytes)
    (next : List V → Exec V E (Option β)) (R : β → Prop)
    (hnext : ∀ row, decodeRow entry.2 = some row →
      Triple (Still (noted txnId table entry.1 (some entry.2) e₀)) (next row)
        (fun plan e => Still (noted txnId table entry.1 (some entry.2) e₀) e ∧
          ∃ p, plan = some p ∧ R p)
        (Still (noted txnId table entry.1 (some entry.2) e₀))) :
    Triple (Still e₀) (do
      let row ← selectRow ev txnId schema filter entry.2
      match row with
      | none => pure none
      | some row => do
        ssiRead txnId table entry.1
        recordUndo txnId table entry.1 (some entry.2)
        next row)
      (Passed e₀ (noted txnId table entry.1 (some entry.2) e₀) R)
      (Still (noted txnId table entry.1 (some entry.2) e₀)) := by
  have h : Steady ev (Still e₀) := (settled_still hw).steady hq
  refine triple_fact (triple_selectRow_decoded h schema filter entry.2) (fun row hrow => ?_)
  cases row with
  | none => exact triple_pure none (fun e he => he)
  | some row =>
    refine triple_bind (triple_ssiRead table entry.1) (fun _ => ?_)
    refine triple_bind (Q := fun _ => Still (noted txnId table entry.1 (some entry.2) e₀))
      (fun e he => ?_) (fun _ => (hnext row (hrow row rfl)).post (fun plan e hs => ?_))
    · rw [recordUndo_eq]
      exact he.noted txnId table entry.1 (some entry.2)
    · obtain ⟨hstill,p,rfl,hp⟩ := hs
      exact ⟨hstill,hp⟩

lemma triple_checkNotNull (schema : Schema V) (row : List V) :
    Triple P (checkNotNull schema row) (fun _ e => P e ∧ nullViolation schema row = none) P := by
  rw [checkNotNull]
  split
  · exact triple_fail _ (fun _ he => he)
  · rename_i hnone
    exact triple_pure () (fun _ he => ⟨he,hnone⟩)

variable {key : Bytes} {prev : Option Bytes}

lemma noted_noDuplicate (h : NoDuplicate (noted txnId table key prev e₀) t row own) :
    NoDuplicate e₀ t row own := by
  rwa [NoDuplicate, noted_tables] at h

lemma noted_hasParents (h : HasParents (noted txnId table key prev e₀) schema row) :
    HasParents e₀ schema row := by
  intro fk hfk vals hvals
  have hparent := h fk hfk vals hvals
  rwa [noted_tables] at hparent

lemma noted_within (hw : Within names e₀) : Within names (noted txnId table key prev e₀) := by
  intro t td htd
  rw [noted_tables] at htd
  exact hw t td htd

lemma triple_updateCheck (hq : Quiet ev names Still) (hw : Within names e₀)
    (stmt : UpdateStmt E) (td : TableData V E) (entry : Bytes × Bytes) :
    Triple (Still e₀) (updateCheck ev txnId stmt td entry)
      (Passed e₀ (noted txnId stmt.table entry.1 (some entry.2) e₀)
        (UpdateFacts ev txnId stmt td e₀ entry))
      (Still (noted txnId stmt.table entry.1 (some entry.2) e₀)) := by
  refine triple_chosen hq hw stmt.table td.schema stmt.whereClause entry _ _ (fun old hold => ?_)
  have h : Steady ev (Still (noted txnId stmt.table entry.1 (some entry.2) e₀)) :=
    (settled_still (noted_within hw)).steady hq
  refine triple_fact (triple_assign h td.schema stmt.assignments old) (fun new hassigned => ?_)
  refine triple_fact (triple_checkNotNull td.schema new) (fun _ hnull => ?_)
  refine triple_fact (r := fun _ => NoDuplicate e₀ stmt.table new (some entry.1))
    ((triple_checkUnique updateRefusals stmt.table new (some entry.1)).post (fun _ _ hs => ⟨hs.1,noted_noDuplicate (hs.2.still hs.1)⟩))
    (fun _ hunique => ?_)
  refine triple_fact (triple_checkExpressions h updateRefusals stmt.table td new)
    (fun _ hchecks => ?_)
  refine triple_fact (r := fun _ => HasParents e₀ td.schema new)
    ((triple_checkForeignKeys updateRefusals td.schema new).post (fun _ _ hs => ⟨hs.1,noted_hasParents (hs.2.still hs.1)⟩))
    (fun _ hparents => ?_)
  refine triple_pure _ (fun e he => ⟨he,_,rfl,?_⟩)
  exact ⟨rfl,rfl,hold,hassigned,hnull,hunique,hchecks,hparents⟩

structure DeleteFacts (e₀ : Engine V E) (refs : List FkRef) (entry : Bytes × Bytes)
    (p : DeletePlan V) : Prop where
  key : p.key = entry.1
  data : p.data = entry.2
  row : decodeRow entry.2 = some p.row
  targets : cascadeTargets e₀ refs p.row = .ok p.targets

lemma triple_deleteCheck (hq : Quiet ev names Still) (hw : Within names e₀)
    (stmt : DeleteStmt E) (td : TableData V E) (refs : List FkRef) (entry : Bytes × Bytes) :
    Triple (Still e₀) (deleteCheck ev txnId stmt td refs entry)
      (Passed e₀ (noted txnId stmt.table entry.1 (some entry.2) e₀) (DeleteFacts e₀ refs entry))
      (Still (noted txnId stmt.table entry.1 (some entry.2) e₀)) := by
  refine triple_chosen hq hw stmt.table td.schema stmt.whereClause entry _ _ (fun row hrow => ?_)
  refine triple_fact (r := fun targets => cascadeTargets e₀ refs row = .ok targets)
    (triple_check _ (fun e targets he hok => ⟨he,?_⟩) (fun _ he => he)) (fun targets htargets => ?_)
  · rw [cascadeTargets_still he, cascadeTargets] at hok
    rw [cascadeTargets, ← hok]
    congr 2
    funext fkr
    simp only [targetsOf, noted_tables]
  · refine triple_pure _ (fun e he => ⟨he,_,rfl,?_⟩)
    exact ⟨rfl,rfl,hrow,htargets⟩

end

end ByteDB.Engine
