import ByteDB.Integers
import ByteDB.Runs

/-!
# Concurrent updates of one table

An UPDATE outside a transaction reads the rows of the table before it takes the
table's write lock, and then writes back what it computed from them. Statements
of several sessions are cut into these steps: reading, taking the lock, writing
row by row. If a session that takes the lock finds the rows that concern it as
it read them, the run ends like one in which the statements follow each other in
the order of their locks.
-/

set_option autoImplicit false

namespace ByteDB.Concurrent
open ByteDB.Assoc Engine Command Codec List Option

variable {V E Q ι : Type} [Codec V] (ev : Evaluator V E Q) (crc : Bytes → UInt32) {e : Engine V E}
  {who : ι} {stmt : UpdateStmt E}

section

variable (stmt)

def readRows : Exec V E (TableData V E × List (Bytes × Bytes)) := do
  let td ← getTable ev crc stmt.table
  let entries ← candidates ev none stmt.table td stmt.whereClause
  pure (td,entries)

def writeRows (td : TableData V E) (done : List (List V))
    (entries : List (Bytes × Bytes)) : Exec V E (ExecutionResult V) := do
  let done ← loop (updateRow ev none stmt td) done entries
  Engine.finish ev none td.schema done stmt.returning

def rowsOf (td : TableData V E) : List (Bytes × Bytes) :=
  match tryPkLookup ev stmt.whereClause td.schema with
  | some key => (td.index.lookup key).toList.map (fun data => (key,data))
  | none => td.index.entries

def load (t : String) (e : Engine V E) : Engine V E := (getTable ev crc t e).2

end

section

inductive Phase (V E : Type) where
  | idle
  | read (td : TableData V E) (entries : List (Bytes × Bytes))
  | writing (td : TableData V E) (entries : List (Bytes × Bytes)) (done : List (List V))
  | ended

structure State (V E ι : Type) where
  engine : Engine V E
  phase : ι → Phase V E
  holder : Option ι

inductive Action (ι : Type) where
  | read (who : ι)
  | lock (who : ι)
  | write (who : ι)

def start (e : Engine V E) : State V E ι := ⟨e,fun _ => .idle,none⟩

variable [DecidableEq ι]

def State.enter (s : State V E ι) (e : Engine V E) (who : ι) (phase : Phase V E)
    (holder : Option ι) : State V E ι :=
  ⟨e,Function.update s.phase who phase,holder⟩

section
omit [Codec V]
variable {s : State V E ι} {phase : Phase V E} {holder : Option ι}

lemma enter_self : (s.enter e who phase holder).phase who = phase := Function.update_self ..

lemma enter_other {w : ι} (h : w ≠ who) : (s.enter e who phase holder).phase w = s.phase w :=
  Function.update_of_ne h ..

end

/-- One step of a session. A statement that fails or has gone through its rows
gives the lock back. -/
def step (stmts : ι → UpdateStmt E) (s : State V E ι) : Action ι → Option (State V E ι)
  | .read who =>
    match s.phase who with
    | .idle =>
      match readRows ev crc (stmts who) s.engine with
      | (.ok (td,entries),e) => some (s.enter e who (.read td entries) s.holder)
      | (.error _,e) => some (s.enter e who .ended s.holder)
    | _ => none
  | .lock who =>
    match s.phase who, s.holder with
    | .read td entries, none => some (s.enter s.engine who (.writing td entries []) (some who))
    | _, _ => none
  | .write who =>
    match s.phase who with
    | .writing td (x::xs) done =>
      match updateRow ev none (stmts who) td done x s.engine with
      | (.ok done,e) => some (s.enter e who (.writing td xs done) s.holder)
      | (.error _,e) => some (s.enter e who .ended none)
    | .writing td [] done =>
      let (_,e) := Engine.finish ev none td.schema done (stmts who).returning s.engine
      some (s.enter e who .ended none)
    | _ => none

end

def Passed (stmt : UpdateStmt E) (schema : Schema V) (data : Bytes) : Prop :=
  ∀ e, selectRow ev none schema stmt.whereClause data e = (.ok none,e)

open Classical in
noncomputable def concerned (stmt : UpdateStmt E) (schema : Schema V)
    (entries : List (Bytes × Bytes)) : List (Bytes × Bytes) :=
  entries.filter (fun entry => ¬ Passed ev stmt schema entry.2)

structure Unchanged (stmt : UpdateStmt E) (td : TableData V E) (entries : List (Bytes × Bytes))
    (now : TableData V E) : Prop where
  schema : now.schema = td.schema
  checks : now.checkExprs = td.checkExprs
  rows : concerned ev stmt td.schema entries = concerned ev stmt td.schema (rowsOf ev stmt now)

/-- A session takes the lock only if the table is as it read it, and none reads
a table from disk while another one writes. -/
def Careful (t : String) (stmts : ι → UpdateStmt E) (s : State V E ι) : Action ι → Prop
  | .read _ => s.holder.isSome → (s.engine.tables.lookup t).isSome
  | .lock who => ∀ td entries, s.phase who = .read td entries →
      ∃ now, s.engine.tables.lookup t = some now ∧ Unchanged ev (stmts who) td entries now
  | .write _ => True

variable {err : QueryError}

section

variable {td : TableData V E}

lemma readRows_loaded (htd : e.tables.lookup stmt.table = some td) :
    readRows ev crc stmt e = (.ok (td,rowsOf ev stmt td),e) := by
  have hget : getTable ev crc stmt.table e = (.ok td,e) := by rw [getTable, htd]
  have hrows : candidates ev none stmt.table td stmt.whereClause e =
      (.ok (rowsOf ev stmt td),e) := by
    rw [candidates, rowsOf]
    cases tryPkLookup ev stmt.whereClause td.schema with
    | some key =>
      have hfound : check (fun e => ((e.tables.lookup stmt.table).getD td).readVisibleOne e.tm none
          key) e = (.ok (td.index.lookup key),e) := by
        rw [check, htd]
        rfl
      exact (bind_ok rfl).trans (bind_ok hfound)
    | none =>
      have hall : check (fun e => ((e.tables.lookup stmt.table).getD td).readVisibleEntries e.tm
          none) e = (.ok td.index.entries,e) := by
        rw [check, htd]
        rfl
      exact (bind_ok rfl).trans hall
  exact (bind_ok hget).trans (bind_ok hrows)

lemma getTable_cases (t : String) (e : Engine V E) : (∃ err, getTable ev crc t e = (.error err,e)) ∨
      ∃ td, getTable ev crc t e = (.ok td,load ev crc t e) ∧
        (load ev crc t e).tables.lookup t = some td := by
  rw [load]
  cases htd : e.tables.lookup t with
  | some td =>
    right
    exact ⟨td,by rw [getTable, htd],by rw [getTable, htd]; exact htd⟩
  | none =>
    cases hload : reloadTable ev crc e t with
    | error err =>
      left
      exact ⟨err,by rw [getTable, htd, hload]⟩
    | ok td =>
      right
      refine ⟨td,?_,?_⟩
      · simp only [getTable, htd, hload]
      · simp only [getTable, htd, hload]
        exact AList.lookup_insert _

lemma readRows_failed (h : getTable ev crc stmt.table e = (.error err,e)) :
    readRows ev crc stmt e = (.error err,e) := bind_error h

lemma readRows_ok (hget : getTable ev crc stmt.table e = (.ok td,load ev crc stmt.table e))
    (htd : (load ev crc stmt.table e).tables.lookup stmt.table = some td) :
    readRows ev crc stmt e = (.ok (td,rowsOf ev stmt td),load ev crc stmt.table e) := by
  have hloaded := readRows_loaded ev crc htd
  have hagain : getTable ev crc stmt.table (load ev crc stmt.table e) =
      (.ok td,load ev crc stmt.table e) := by rw [getTable, htd]
  rw [readRows, bind_ok hagain] at hloaded
  rw [readRows, bind_ok hget, hloaded]

variable (stmt : UpdateStmt E) (e : Engine V E)

lemma readRows_load : readRows ev crc stmt (load ev crc stmt.table e) = readRows ev crc stmt e := by
  obtain ⟨err,herr⟩ | ⟨td,hget,htd⟩ := getTable_cases ev crc stmt.table e
  · rw [load, herr]
  · rw [readRows_loaded ev crc htd, readRows_ok ev crc hget htd]

lemma execUpdate_eq : execUpdate ev crc none stmt e =
      (readRows ev crc stmt >>= fun r => writeRows ev stmt r.1 [] r.2) e := by
  rw [execUpdate, readRows]
  cases hget : getTable ev crc stmt.table e with
  | mk r e' =>
    cases r with
    | error err => rw [bind_error hget, bind_error (bind_error hget)]
    | ok td =>
      rw [bind_ok hget]
      cases hrows : candidates ev none stmt.table td stmt.whereClause e' with
      | mk r e'' =>
        cases r with
        | error err => rw [bind_error hrows, bind_error ((bind_ok hget).trans (bind_error hrows))]
        | ok entries => rw [bind_ok hrows, bind_ok ((bind_ok hget).trans (bind_ok hrows)), writeRows]

lemma execUpdate_load :
    execUpdate ev crc none stmt (load ev crc stmt.table e) = execUpdate ev crc none stmt e := by
  have hload := readRows_load ev crc stmt e
  rw [execUpdate_eq, execUpdate_eq]
  cases hread : readRows ev crc stmt e with
  | mk r e' =>
    rw [hread] at hload
    cases r with
    | error err => rw [bind_error hread, bind_error hload]
    | ok rows => rw [bind_ok hread, bind_ok hload]

end

variable {e' : Engine V E}

section
variable {ev} {td now : TableData V E}

lemma updateRow_passed {entry : Bytes × Bytes} (h : Passed ev stmt td.schema entry.2)
    (done : List (List V)) (e : Engine V E) :
    updateRow ev none stmt td done entry e = (.ok done,e) := by
  have hcheck : updateCheck ev none stmt td entry e = (.ok none,e) := bind_ok (h e)
  exact bind_ok hcheck

lemma loop_concerned (entries : List (Bytes × Bytes)) (done : List (List V)) (e : Engine V E) :
    loop (updateRow ev none stmt td) done (concerned ev stmt td.schema entries) e =
      loop (updateRow ev none stmt td) done entries e := by
  induction entries generalizing done e with
  | nil => rfl
  | cons x xs ih =>
    by_cases hx : Passed ev stmt td.schema x.2
    · rw [concerned, filter_cons_of_neg (by simpa using hx), loop,
        bind_ok (updateRow_passed hx done e)]
      exact ih done e
    rw [concerned, filter_cons_of_pos (by simpa using hx), loop, loop]
    cases hrow : updateRow ev none stmt td done x e with
    | mk r e' =>
      cases r with
      | error err => rw [bind_error hrow, bind_error hrow]
      | ok done' =>
        rw [bind_ok hrow, bind_ok hrow]
        exact ih done' e'

lemma updateRow_congr (hschema : now.schema = td.schema) (hchecks : now.checkExprs = td.checkExprs) :
    updateRow ev none stmt now = updateRow ev none stmt td := by
  cases now
  cases td
  cases hschema
  cases hchecks
  rfl

lemma writeRows_unchanged {entries : List (Bytes × Bytes)}
    (h : Unchanged ev stmt td entries now) (e : Engine V E) :
    writeRows ev stmt td [] entries e = writeRows ev stmt now [] (rowsOf ev stmt now) e := by
  have hloop : loop (updateRow ev none stmt td) [] entries e =
      loop (updateRow ev none stmt now) [] (rowsOf ev stmt now) e := by
    rw [← loop_concerned, h.rows, loop_concerned, updateRow_congr h.schema h.checks]
  rw [writeRows, writeRows, h.schema]
  cases hrows : loop (updateRow ev none stmt td) [] entries e with
  | mk r e' =>
    rw [hrows] at hloop
    cases r with
    | error err => rw [bind_error hrows, bind_error hloop.symm]
    | ok done => rw [bind_ok hrows, bind_ok hloop.symm]

variable {x : Bytes × Bytes} {xs : List (Bytes × Bytes)}

lemma writeRows_ok {done done' : List (List V)} (h : updateRow ev none stmt td done x e = (.ok done',e')) :
    writeRows ev stmt td done (x::xs) e = writeRows ev stmt td done' xs e' := by
  have hloop : loop (updateRow ev none stmt td) done (x::xs) e =
      loop (updateRow ev none stmt td) done' xs e' := bind_ok h
  rw [writeRows, writeRows]
  cases hrest : loop (updateRow ev none stmt td) done' xs e' with
  | mk r e'' =>
    rw [hrest] at hloop
    cases r with
    | error err => rw [bind_error hrest, bind_error hloop]
    | ok done'' => rw [bind_ok hrest, bind_ok hloop]

lemma writeRows_error {done : List (List V)}
    (h : updateRow ev none stmt td done x e = (.error err,e')) :
    writeRows ev stmt td done (x::xs) e = (.error err,e') :=
  bind_error (bind_error h)

end

section
variable [DecidableEq ι] (t : String) (stmts : ι → UpdateStmt E)

def serial (order : List ι) (e : Engine V E) : Engine V E :=
  order.foldl (fun e who => (execUpdate ev crc none (stmts who) e).2) e

def Phase.Ready : Phase V E → Prop
  | .idle => True
  | .read _ _ => True
  | _ => False

/-- Nobody writes, and the table has at most been loaded; or one session writes,
and what is left of its statement ends like the whole of it. -/
inductive Turn (base : Engine V E) (order : List ι) (s : State V E ι) : Prop where
  | free (hholder : s.holder = none) (hready : ∀ w, w ∉ order → (s.phase w).Ready)
      (hengine : s.engine = base ∨
        (s.engine = load ev crc t base ∧ ∃ w td entries, s.phase w = .read td entries))
  | busy (who : ι) (td : TableData V E) (entries : List (Bytes × Bytes)) (done : List (List V))
      (hholder : s.holder = some who) (hphase : s.phase who = .writing td entries done)
      (hready : ∀ w, w ∉ order → w ≠ who → (s.phase w).Ready)
      (hrest : writeRows ev (stmts who) td done entries s.engine =
        execUpdate ev crc none (stmts who) base)

/-- The sessions that are over, in the order in which they took the lock. -/
structure Stage (e : Engine V E) (order : List ι) (s : State V E ι) : Prop where
  nodup : order.Nodup
  ended : ∀ w, s.phase w = .ended ↔ w ∈ order
  turn : Turn ev crc t stmts (serial ev crc stmts order e) order s

variable {ev crc t stmts} {order : List ι} {s s' : State V E ι}

omit [DecidableEq ι] in
lemma serial_snoc (order : List ι) (who : ι) (e : Engine V E) :
    serial ev crc stmts (order++[who]) e =
      (execUpdate ev crc none (stmts who) (serial ev crc stmts order e)).2 := by
  rw [serial, foldl_append]
  rfl

omit [DecidableEq ι] in
lemma stage_start (e : Engine V E) : Stage ev crc t stmts e [] (start e) where
  nodup := nodup_nil
  ended w := by
    constructor
    · nofun
    · nofun
  turn := .free rfl (fun _ _ => trivial) (.inl rfl)

lemma Stage.enter_ended (h : Stage ev crc t stmts e order s) {phase : Phase V E}
    {holder : Option ι} (hphase : phase ≠ .ended) (hwho : s.phase who ≠ .ended) (w : ι) :
    (s.enter e' who phase holder).phase w = .ended ↔ w ∈ order := by
  by_cases hw : w = who
  · rw [hw, enter_self]
    exact ⟨fun heq => absurd heq hphase,fun hmem => absurd ((h.ended who).mpr hmem) hwho⟩
  · rw [enter_other hw]
    exact h.ended w

lemma Stage.finish (h : Stage ev crc t stmts e order s)
    (hwho : s.phase who ≠ .ended) (hready : ∀ w, w ∉ order → w ≠ who → (s.phase w).Ready)
    (hend : e' = (execUpdate ev crc none (stmts who) (serial ev crc stmts order e)).2) :
    Stage ev crc t stmts e (order++[who]) (s.enter e' who .ended none) where
  nodup := by
    have hnot : who ∉ order := fun hmem => hwho ((h.ended who).mpr hmem)
    exact h.nodup.append (nodup_singleton who) (by simpa using hnot)
  ended w := by
    by_cases hw : w = who
    · rw [hw, enter_self]
      simp
    · rw [enter_other hw, h.ended w]
      simp [hw]
  turn := by
    refine .free rfl (fun w hw => ?_) (.inl ?_)
    · rw [mem_append, mem_singleton, not_or] at hw
      rw [enter_other hw.2]
      exact hready w hw.1 hw.2
    · rw [serial_snoc]
      exact hend

lemma Stage.read_step (htable : ∀ w, (stmts w).table = t) (h : Stage ev crc t stmts e order s)
    (hcareful : Careful ev t stmts s (.read who))
    (hstep : step ev crc stmts s (.read who) = some s') :
    ∃ order', Stage ev crc t stmts e order' s' := by
  cases hphase : s.phase who with
  | read | writing | ended => simp [step, hphase] at hstep
  | idle =>
    have hwho : s.phase who ≠ .ended := by simp [hphase]
    have hkept : ∀ {e' td entries} (w : ι), w ≠ who → (s.phase w).Ready →
        ((s.enter e' who (.read td entries) s.holder).phase w).Ready := by
      intro e' td entries w hw hready
      rwa [enter_other hw]
    cases h.turn with
    | free hholder hready hengine =>
      have hread : readRows ev crc (stmts who) s.engine =
          readRows ev crc (stmts who) (serial ev crc stmts order e) := by
        rcases hengine with heq | ⟨heq,-⟩
        · rw [heq]
        · rw [heq, ← htable who, readRows_load]
      obtain ⟨err,herr⟩ | ⟨td,hget,htd⟩ :=
        getTable_cases ev crc (stmts who).table (serial ev crc stmts order e)
      · rw [readRows_failed ev crc herr] at hread
        simp only [step, hphase, hread, some.injEq] at hstep
        rw [← hstep, hholder]
        refine ⟨_,h.finish hwho (fun w hw _ => hready w hw) ?_⟩
        rw [execUpdate_eq, bind_error (readRows_failed ev crc herr)]
      rw [readRows_ok ev crc hget htd] at hread
      simp only [step, hphase, hread, some.injEq] at hstep
      rw [← hstep]
      refine ⟨order,h.nodup,h.enter_ended (by simp) hwho,.free hholder ?_ (.inr ⟨?_,who,td,
        rowsOf ev (stmts who) td,?_⟩)⟩
      · intro w hw
        by_cases heq : w = who
        · rw [heq, enter_self]
          trivial
        · exact hkept w heq (hready w hw)
      · rw [State.enter, htable who]
      · rw [enter_self]
    | busy v td entries done hholder hwriting hready hrest =>
      have hne : v ≠ who := by
        rintro rfl
        rw [hphase] at hwriting
        cases hwriting
      obtain ⟨now,hnow⟩ := isSome_iff_exists.mp (hcareful (by rw [hholder, isSome_some]))
      rw [← htable who] at hnow
      simp only [step, hphase, readRows_loaded ev crc hnow, some.injEq] at hstep
      rw [← hstep]
      refine ⟨order,h.nodup,h.enter_ended (by simp) hwho,.busy v td entries done hholder ?_ ?_
        hrest⟩
      · rwa [enter_other hne]
      intro w hw hwv
      by_cases heq : w = who
      · rw [heq, enter_self]
        trivial
      · exact hkept w heq (hready w hw hwv)

lemma Stage.lock_step (htable : ∀ w, (stmts w).table = t) (h : Stage ev crc t stmts e order s)
    (hcareful : Careful ev t stmts s (.lock who))
    (hstep : step ev crc stmts s (.lock who) = some s') : Stage ev crc t stmts e order s' := by
  cases hphase : s.phase who with
  | idle | writing | ended => simp [step, hphase] at hstep
  | read td entries =>
    cases h.turn with
    | busy v td entries done hholder hwriting hready hrest =>
      simp [step, hphase, hholder] at hstep
    | free hholder hready hengine =>
      simp only [step, hphase, hholder, some.injEq] at hstep
      rw [← hstep]
      obtain ⟨now,hnow,hsame⟩ := hcareful td entries hphase
      refine ⟨h.nodup,h.enter_ended (by simp) (by simp [hphase]),.busy who td entries [] rfl ?_ ?_
        ?_⟩
      · rw [enter_self]
      · intro w hw hne
        rw [enter_other hne]
        exact hready w hw
      -- the whole statement from here reads what the table holds now
      have hwhole : execUpdate ev crc none (stmts who) s.engine =
          writeRows ev (stmts who) now [] (rowsOf ev (stmts who) now) s.engine := by
        rw [← htable who] at hnow
        rw [execUpdate_eq, bind_ok (readRows_loaded ev crc hnow)]
      have hbase : execUpdate ev crc none (stmts who) s.engine =
          execUpdate ev crc none (stmts who) (serial ev crc stmts order e) := by
        rcases hengine with heq | ⟨heq,-⟩
        · rw [heq]
        · rw [heq, ← htable who, execUpdate_load]
      rw [← hbase, hwhole]
      exact writeRows_unchanged hsame s.engine

lemma Stage.write_step (h : Stage ev crc t stmts e order s)
    (hstep : step ev crc stmts s (.write who) = some s') :
    ∃ order', Stage ev crc t stmts e order' s' := by
  cases hphase : s.phase who with
  | idle | read | ended => simp [step, hphase] at hstep
  | writing td entries done =>
    have hwho : s.phase who ≠ .ended := by simp [hphase]
    have hnot : who ∉ order := fun hmem => hwho ((h.ended who).mpr hmem)
    cases h.turn with
    | free hholder hready hengine =>
      have hfalse := hready who hnot
      rw [hphase] at hfalse
      exact hfalse.elim
    | busy v td' entries' done' hholder hwriting hready hrest =>
      have hv : v = who := by
        by_contra hne
        have hfalse := hready who hnot (Ne.symm hne)
        rw [hphase] at hfalse
        exact hfalse
      subst hv
      cases hphase.symm.trans hwriting
      cases entries with
      | nil =>
        simp only [step, hphase, some.injEq] at hstep
        rw [← hstep]
        refine ⟨_,h.finish hwho hready ?_⟩
        rw [← hrest]
        rfl
      | cons x xs =>
        cases hrow : updateRow ev none (stmts v) td done x s.engine with
        | mk r e' =>
          cases r with
          | error err =>
            simp only [step, hphase, hrow, some.injEq] at hstep
            rw [← hstep]
            refine ⟨_,h.finish hwho hready ?_⟩
            rw [← hrest, writeRows_error hrow]
          | ok done' =>
            simp only [step, hphase, hrow, some.injEq] at hstep
            rw [← hstep]
            refine ⟨order,h.nodup,h.enter_ended (by simp) hwho,.busy v td xs done' hholder ?_ ?_ ?_⟩
            · rw [enter_self]
            · intro w hw hne
              rw [enter_other hne]
              exact hready w hw hne
            · exact (writeRows_ok hrow).symm.trans hrest

lemma Stage.step (htable : ∀ w, (stmts w).table = t) (h : Stage ev crc t stmts e order s)
    (a : Action ι) (hcareful : Careful ev t stmts s a) (hstep : step ev crc stmts s a = some s') :
    ∃ order', Stage ev crc t stmts e order' s' := by
  cases a with
  | read who => exact h.read_step htable hcareful hstep
  | lock who => exact ⟨order,h.lock_step htable hcareful hstep⟩
  | write who => exact h.write_step hstep

omit [DecidableEq ι] in
lemma Stage.serial (h : Stage ev crc t stmts e order s) (hall : ∀ w, s.phase w = .ended) :
    s.engine = serial ev crc stmts order e := by
  cases h.turn with
  | free hholder hready hengine =>
    rcases hengine with heq | ⟨-,w,td,entries,hread⟩
    · exact heq
    · rw [hall w] at hread
      cases hread
  | busy v td entries done hholder hwriting hready hrest =>
    rw [hall v] at hwriting
    cases hwriting

end

inductive Session where
  | first
  | second
  deriving DecidableEq

def Session.other : Session → Session
  | .first => .second
  | .second => .first

def contents (t : String) (e : Engine V E) : Option (OrderedMap Bytes Bytes) :=
  (e.tables.lookup t).map TableData.index

lemma order_of_two {order : List Session} (hnodup : order.Nodup) (hall : ∀ w, w ∈ order) :
    ∃ who, order = [who, who.other] := by
  have hperm : order.Perm [.first, .second] := by
    refine (perm_ext_iff_of_nodup hnodup (by decide)).mpr (fun w => ?_)
    cases w <;> simp [hall]
  rcases perm_pair.mp hperm with h | h
  · exact ⟨.first,h⟩
  · exact ⟨.second,h⟩

/-- Two UPDATEs of a table, of which each takes the lock only if it finds the rows
that concern it as it read them, leave the table as one after the other does. -/
theorem updates_serial {t : String} {stmts : Session → UpdateStmt E}
    (htable : ∀ who, (stmts who).table = t) {e : Engine V E} {s : State V E Session}
    (hrun : Runs.Reaches (step ev crc stmts) (Careful ev t stmts) (start e) s)
    (hended : ∀ who, s.phase who = .ended) :
    ∃ who, contents t s.engine = contents t (execUpdate ev crc none (stmts who.other)
      (execUpdate ev crc none (stmts who) e).2).2 := by
  have hstage : ∃ order, Stage ev crc t stmts e order s := by
    refine hrun.invariant (I := fun s => ∃ order, Stage ev crc t stmts e order s)
      ⟨[],stage_start e⟩ ?_
    rintro s a s' ⟨order,h⟩ hcareful hstep
    exact h.step htable a hcareful hstep
  obtain ⟨order,h⟩ := hstage
  obtain ⟨who,rfl⟩ := order_of_two h.nodup (fun w => (h.ended w).mp (hended w))
  exact ⟨who,by rw [h.serial hended]; rfl⟩

section
open Integers

/-- `CREATE TABLE t (id INT PRIMARY KEY, a INT, b INT)` with rows of zeros. -/
def zeroTable (ids : List Int64) : TableData Value Expr where
  schema := ⟨"t",[column "id" true, column "a" false, column "b" false],[],[]⟩
  index := ids.foldl (fun m id =>
    m.insert (key id) (serialize [Value.int64 id, .int64 0, .int64 0])) .empty
  versionStore := .new
  checkExprs := []
  sequences := ∅
  secondaryIndexes := []

def zeroEngine (ids : List Int64) : Engine Value Expr :=
  engine ((∅ : Map String (TableData Value Expr)).insert "t" (zeroTable ids)) none

def setOne (name : String) (condition : Option Expr) : UpdateStmt Expr :=
  { table := "t", assignments := [(name,.literal (.int64 1))], whereClause := condition
    returning := none }

def together : List (Action Session) :=
  [.read .first, .read .second, .lock .first, .write .first, .write .first, .lock .second,
    .write .second, .write .second]

def eachItsColumn : Session → UpdateStmt Expr
  | .first => setOne "a" none
  | .second => setOne "b" none

def eachItsRow : Session → UpdateStmt Expr
  | .first => setOne "a" (some (equals "id" 1))
  | .second => setOne "a" (some (equals "id" 2))

variable (stmts : Session → UpdateStmt Expr)

def sameRows (s : State Value Expr Session) : Action Session → Bool
  | .read _ => s.holder.isNone
  | .lock who =>
    match s.phase who, s.engine.tables.lookup "t" with
    | .read td entries, some now =>
      decide (now.schema = td.schema) && now.checkExprs.isEmpty && td.checkExprs.isEmpty &&
        decide (entries = rowsOf Expr.evaluator (stmts who) now)
    | _, _ => false
  | .write _ => true

lemma careful_of_sameRows {stmts : Session → UpdateStmt Expr} (s : State Value Expr Session)
    (a : Action Session) (h : sameRows stmts s a = true) :
    Careful Expr.evaluator "t" stmts s a := by
  cases a with
  | read who =>
    intro hholder
    rw [sameRows, isNone_iff_eq_none] at h
    rw [h] at hholder
    cases hholder
  | lock who =>
    intro td entries hphase
    rw [sameRows, hphase] at h
    cases hnow : s.engine.tables.lookup "t" with
    | none => simp [hnow] at h
    | some now =>
      simp only [hnow, Bool.and_eq_true, decide_eq_true_eq, List.isEmpty_iff] at h
      obtain ⟨⟨⟨hschema,hnone⟩,hnone'⟩,hrows⟩ := h
      exact ⟨now,rfl,hschema,hnone.trans hnone'.symm,by rw [hrows]⟩
  | write who => trivial

def rowsAfter (e : Engine Value Expr) : Option (List (Option (List Value))) :=
  (contents "t" e).map (fun m => m.entries.map (fun entry => Value.decodeRow entry.2))

def Phase.isEnded : Phase V E → Bool
  | .ended => true
  | _ => false

def bothEnded (s : State Value Expr Session) : Bool :=
  (s.phase .first).isEnded && (s.phase .second).isEnded

lemma ended_of_bothEnded {s : State Value Expr Session} (h : bothEnded s = true) (who : Session) :
    s.phase who = .ended := by
  have hended : ∀ p : Phase Value Expr, p.isEnded = true → p = .ended := by
    intro p hp
    cases p with
    | ended => rfl
    | _ => cases hp
  rw [bothEnded, Bool.and_eq_true] at h
  cases who with
  | first => exact hended _ h.1
  | second => exact hended _ h.2

def oneAfterOther (ids : List Int64) (who : Session) :
    Engine Value Expr :=
  (execUpdate Expr.evaluator (fun _ => 0) none (stmts who.other)
    (execUpdate Expr.evaluator (fun _ => 0) none (stmts who) (zeroEngine ids)).2).2

theorem updates_of_rows_serial : ∃ s, Runs.Reaches (step Expr.evaluator (fun _ => 0) eachItsRow)
        (Careful Expr.evaluator "t" eachItsRow) (start (zeroEngine [1, 2])) s ∧
      rowsAfter s.engine =
        some [some [.int64 1, .int64 1, .int64 0], some [.int64 2, .int64 1, .int64 0]] ∧
      ∃ who, contents "t" s.engine = contents "t" (oneAfterOther eachItsRow [1, 2] who) := by
  have hrun : (Runs.run (fun s a => if sameRows eachItsRow s a then
        step Expr.evaluator (fun _ => 0) eachItsRow s a else none)
      (start (zeroEngine [1, 2])) together).map (fun s => (bothEnded s,rowsAfter s.engine)) =
      some (true,
        some [some [.int64 1, .int64 1, .int64 0], some [.int64 2, .int64 1, .int64 0]]) := by
    decide +kernel
  obtain ⟨s,hrun,hs⟩ := map_eq_some_iff.mp hrun
  obtain ⟨hended,hrows⟩ := Prod.mk.inj hs
  have hreach := Runs.Reaches.of_run careful_of_sameRows .init hrun
  refine ⟨s,hreach,hrows,?_⟩
  refine updates_serial (t := "t") Expr.evaluator (fun _ => 0) ?_ hreach (ended_of_bothEnded hended)
  intro who
  cases who <;> rfl

/-- After `UPDATE t SET a = 1` and `UPDATE t SET b = 1` the column `a` is zero. -/
theorem update_of_column_lost :
    ∃ s, Runs.run (step Expr.evaluator (fun _ => 0) eachItsColumn) (start (zeroEngine [1])) together =
        some s ∧ (∀ who, s.phase who = .ended) ∧
      rowsAfter s.engine = some [some [.int64 1, .int64 0, .int64 1]] ∧
      ∀ who, rowsAfter (oneAfterOther eachItsColumn [1] who) =
          some [some [.int64 1, .int64 1, .int64 1]] ∧
        contents "t" s.engine ≠ contents "t" (oneAfterOther eachItsColumn [1] who) := by
  have hrun : (Runs.run (step Expr.evaluator (fun _ => 0) eachItsColumn) (start (zeroEngine [1]))
      together).map (fun s => (bothEnded s,rowsAfter s.engine)) =
      some (true,some [some [.int64 1, .int64 0, .int64 1]]) := by
    decide +kernel
  have hserial : ∀ who, rowsAfter (oneAfterOther eachItsColumn [1] who) =
      some [some [.int64 1, .int64 1, .int64 1]] := by
    intro who
    cases who
    · decide +kernel
    · decide +kernel
  obtain ⟨s,hrun,hs⟩ := map_eq_some_iff.mp hrun
  obtain ⟨hended,hrows⟩ := Prod.mk.inj hs
  refine ⟨s,hrun,ended_of_bothEnded hended,hrows,fun who => ⟨hserial who,fun heq => ?_⟩⟩
  have hsame : rowsAfter s.engine = rowsAfter (oneAfterOther eachItsColumn [1] who) := by
    rw [rowsAfter, heq, rowsAfter]
  rw [hrows, hserial who] at hsame
  exact absurd hsame (by decide)

end

end ByteDB.Concurrent
