import ByteDB.ConnectionMessages
import ByteDB.Integers
import ByteDB.Runs

/-!
# Transactions of connections

Over every run of the server a connection remembers only transactions that it
has started itself. Requests that name a transaction are not held to that, and
a connection may forget a transaction that is still active.
-/

set_option autoImplicit false

namespace ByteDB.Server
open ByteDB.Assoc Command Text List Option Engine AList

variable {t : TxnId}

/-- From `tm` to `tm'` transactions have ended, and those that have been started
have the numbers in between. -/
structure Onward (tm tm' : TransactionManager) : Prop where
  next : tm.nextTxnId ≤ tm'.nextTxnId
  active : ∀ t T, tm'.activeTxns.lookup t = some T → tm.activeTxns.lookup t = some T ∨
    tm.nextTxnId ≤ t ∧ T.status = .active

namespace Onward

lemma refl (tm : TransactionManager) : Onward tm tm := ⟨le_rfl,fun _ _ h => Or.inl h⟩

variable {a b c : TransactionManager}

lemma trans (h : Onward a b) (h' : Onward b c) : Onward a c where
  next := h.next.trans h'.next
  active t T hT := by
    rcases h'.active t T hT with hb | ⟨hle,hst⟩
    · exact h.active t T hb
    · exact .inr ⟨h.next.trans hle,hst⟩

lemma of_erase {tid : TxnId} (hn : b.nextTxnId = a.nextTxnId)
    (hact : b.activeTxns = a.activeTxns ∨ b.activeTxns = a.activeTxns.erase tid) : Onward a b where
  next := hn.ge
  active t T hT := by
    rcases hact with h | h
    · exact .inl (h ▸ hT)
    rw [h] at hT
    by_cases ht : t = tid
    · rw [ht, lookup_erase] at hT
      cases hT
    · rw [lookup_erase_ne ht] at hT
      exact .inl hT

lemma of_begin (tm : TransactionManager) (isolation : IsolationLevel) :
    Onward tm (tm.begin isolation).1 where
  next := Nat.le_succ _
  active t T hT := by
    rw [TransactionManager.begin] at hT
    rcases lookup_insert_cases hT with ⟨ht,rfl⟩ | ⟨-,hT⟩
    · exact .inr ⟨ht.ge,rfl⟩
    · exact .inl hT

lemma isActive (h : Onward a b) (ht : t < a.nextTxnId)
    (hact : b.isActive t = true) : a.isActive t = true := by
  rw [TransactionManager.isActive, isSome_iff_exists] at hact
  obtain ⟨T,hT⟩ := hact
  rcases h.active t T hT with hT' | ⟨hle,-⟩
  · rw [TransactionManager.isActive, hT']
    rfl
  · exact absurd ht hle.not_gt

end Onward

def AllActive (tm : TransactionManager) : Prop :=
  ∀ t T, tm.activeTxns.lookup t = some T → T.status = .active

lemma AllActive.onward {a b : TransactionManager} (h : AllActive a) (hab : Onward a b) :
    AllActive b := by
  intro t T hT
  rcases hab.active t T hT with hT' | ⟨-,hst⟩
  · exact h t T hT'
  · exact hst

lemma commit_ends {tm : TransactionManager} (h : AllActive tm) (tid : TxnId) :
    (tm.commit tid).1.isActive tid = false := by
  have herase : ((tm.activeTxns.erase tid).lookup tid).isSome = false := by
    rw [lookup_erase]
    rfl
  rw [TransactionManager.commit]
  split
  · exact herase
  split
  · rename_i hnone
    rw [TransactionManager.isActive, hnone]
    rfl
  · rename_i T hT
    rw [if_neg (not_not.mpr (h tid T hT))]
    cases tm.ssi.lookup tid with
    | none | some => exact herase

lemma abort_ends (tm : TransactionManager) (tid : TxnId) :
    (tm.abort tid).1.isActive tid = false := by
  have herase : ((tm.activeTxns.erase tid).lookup tid).isSome = false := by
    rw [lookup_erase]
    rfl
  rw [TransactionManager.abort]
  split
  · rename_i hnone
    rw [TransactionManager.isActive, hnone]
    rfl
  split
  · exact herase
  · exact herase

variable {V E Q O D κ : Type} [Codec V] {ev : Evaluator V E Q} {crc : Bytes → UInt32}
  {sv : Services V E Q O D κ}

section

lemma rollbackTxnEffects_tm (tid : TxnId) (e : Engine V E) :
    (rollbackTxnEffects tid e).tm = e.tm := by
  rw [rollbackTxnEffects]
  split
  · rfl
  · rfl

lemma execute_commit_tm (tid : TxnId) (e : Engine V E) :
    (execute ev crc (.commit : Statement E Q) (some tid) e).2.tm = (e.tm.commit tid).1 := by
  rw [execute, (alike_raisePending _).tm, dispatch, execCommit]
  dsimp only
  split
  · rename_i tm cts hc
    rw [hc]
    rfl
  · rename_i tm err hc
    rw [hc]
    exact rollbackTxnEffects_tm tid _

lemma execute_rollback_tm (tid : TxnId) (e : Engine V E) :
    (execute ev crc (.rollback : Statement E Q) (some tid) e).2.tm = (e.tm.abort tid).1 := by
  rw [execute, (alike_raisePending _).tm, dispatch, execRollback]
  have htm : (appendWal (.abort tid) (rollbackTxnEffects tid
      { e with pendingSubqueryError := none })).tm = e.tm := rollbackTxnEffects_tm tid _
  dsimp only
  rw [htm]
  split
  · rename_i tm u hc
    rw [hc]
  · rename_i tm err hc
    rw [hc]

def Parsed.hasBegin : Parsed E Q O D → Bool
  | .statement (.begin _) => true
  | .setOp _ _ l r => l.hasBegin || r.hasBegin
  | _ => false

variable {stmt : Parsed E Q O D}

lemma planned_inner (h : planned stmt = true) : ∃ st, stmt = .statement st ∧ Engine.Inner st := by
  cases stmt with
  | statement st =>
    cases st with
    | begin | commit | rollback | useDatabase => cases h
    | query | dml | ddl => exact ⟨_,rfl,trivial⟩
  | setOp | explain | other | store => cases h

/-- The rule for properties of the transaction manager: it is enough to look at
what COMMIT, ROLLBACK and, if there is one, BEGIN do to it. -/
lemma stays_executeStmt {P : TransactionManager → Prop} (hsv : sv.Apart)
    (hq : Engine.Quiet ev (fun _ => True) Engine.Fewer)
    (hssi : ∀ tm ssi, P tm → P { tm with ssi := ssi })
    (hcommit : ∀ tm tid, P tm → P (tm.commit tid).1) (habort : ∀ tm tid, P tm → P (tm.abort tid).1)
    (hbegin : stmt.hasBegin = true → ∀ tm isolation, P tm → P (tm.begin isolation).1)
    (txnId : Option TxnId) : Stays (fun e => P e.tm) (executeStmt ev crc sv stmt txnId) := by
  have hraise : ∀ m : Exec V E (ExecutionResult V), Stays (fun e => P e.tm) m →
      Stays (fun e => P e.tm) (raisePending m) := by
    intro m hm
    refine Stays.of_state (fun e he => ?_)
    rw [(alike_raisePending m).tm]
    exact hm.state (s := { e with pendingSubqueryError := none }) he
  have hinner : ∀ st : Statement E Q, Engine.Inner st →
      Stays (fun e => P e.tm) (execute ev crc st txnId) := by
    refine fun st hst => Stays.of_state (fun e he => ?_)
    obtain ⟨ssi,hm⟩ := (execute_stamps crc hq hst txnId e).manager
    rw [hm]
    exact hssi e.tm ssi he
  induction stmt with
  | statement st =>
    cases st with
    | begin isolation =>
      refine Stays.of_state (fun e he => ?_)
      exact hbegin rfl e.tm _ he
    | commit =>
      cases txnId with
      | none => exact hraise _ (stays_fail _)
      | some tid =>
        refine Stays.of_state (fun e he => ?_)
        rw [executeStmt, execute_commit_tm]
        exact hcommit e.tm tid he
    | rollback =>
      cases txnId with
      | none => exact hraise _ (stays_fail _)
      | some tid =>
        refine Stays.of_state (fun e he => ?_)
        rw [executeStmt, execute_rollback_tm]
        exact habort e.tm tid he
    | useDatabase | query | dml | ddl => exact hinner _ trivial
  | setOp op all l r ihl ihr =>
    have hl := ihl (fun h => hbegin (by rw [Parsed.hasBegin, h, Bool.true_or]))
    have hr := ihr (fun h => hbegin (by rw [Parsed.hasBegin, h, Bool.or_true]))
    refine hraise _ (stays_bind hl (fun l => stays_bind hr (fun r => ?_)))
    split
    · exact stays_pure _
    · exact stays_fail _
  | explain inner analyze ih =>
    refine hraise _ ?_
    rw [execExplain]
    split
    · rename_i hplan
      refine stays_bind (stays_check _) (fun lines => ?_)
      split
      · obtain ⟨st,rfl,hst⟩ := planned_inner hplan
        exact stays_bind (hinner st hst) (fun r => stays_pure _)
      · exact stays_pure _
    · exact stays_fail _
  | other o =>
    refine hraise _ (Stays.of_state (fun e he => ?_))
    obtain ⟨ssi,hm⟩ := hsv.manager o txnId e
    rw [hm]
    exact hssi e.tm ssi he
  | store st => cases st <;> exact stays_fail _

lemma onward_executeStmt (hsv : sv.Apart)
    (hq : Engine.Quiet ev (fun _ => True) Engine.Fewer) (stmt : Parsed E Q O D)
    (txnId : Option TxnId) (e : Engine V E) :
    Onward e.tm (executeStmt ev crc sv stmt txnId e).2.tm := by
  refine (stays_executeStmt (P := Onward e.tm) hsv hq (fun tm ssi h => ⟨h.next,h.active⟩)
    (fun tm tid h => ?_) (fun tm tid h => ?_) (fun _ tm isolation h => ?_) txnId).state
    (Onward.refl e.tm)
  · exact h.trans (.of_erase (tm.commit_active tid).1 (tm.commit_active tid).2)
  · exact h.trans (.of_erase (tm.abort_active tid).1 (tm.abort_active tid).2)
  · exact h.trans (.of_begin tm isolation)

lemma next_executeStmt (hsv : sv.Apart) (hq : Engine.Quiet ev (fun _ => True) Engine.Fewer)
    (hstmt : stmt.hasBegin = false) (txnId : Option TxnId) (e : Engine V E) :
    (executeStmt ev crc sv stmt txnId e).2.tm.nextTxnId = e.tm.nextTxnId := by
  refine (stays_executeStmt (P := fun tm => tm.nextTxnId = e.tm.nextTxnId) hsv hq
    (fun tm ssi h => h) (fun tm tid h => ?_) (fun tm tid h => ?_) (fun hb => ?_) txnId).state rfl
  · exact (tm.commit_active tid).1.trans h
  · exact (tm.abort_active tid).1.trans h
  · rw [hstmt] at hb
    cases hb

end

variable {sql : String} {txnId : Option TxnId} {k : κ}

variable (ev) (crc) (sv) in
lemma executeQuery_cases (sql : String) (txnId : Option TxnId) (e : Engine V E) (k : κ) :
    (((∃ err, sv.parse sql = .error err) ∨ ∃ stmt, sv.parse sql = .ok (.store stmt)) ∧
      (executeQuery ev crc sv sql txnId e k).2.1 = e ∧
      ∀ message, (executeQuery ev crc sv sql txnId e k).1 = .ok (.ok message) → Plain message) ∨
    ∃ stmt, sv.parse sql = .ok stmt ∧
      (executeQuery ev crc sv sql txnId e k).2.1 = (executeStmt ev crc sv stmt txnId e).2 ∧
      (executeQuery ev crc sv sql txnId e k).1 = match (executeStmt ev crc sv stmt txnId e).1 with
        | .error err => .error ("Query error: " ++ err.display)
        | .ok r => .ok (respond r) := by
  rw [executeQuery]
  split
  · rename_i err hp
    exact .inl ⟨.inl ⟨err,hp⟩,rfl,nofun⟩
  · rename_i stmt hp
    refine .inl ⟨.inr ⟨stmt,hp⟩,?_⟩
    split
    · exact ⟨rfl,nofun⟩
    · rename_i r k' hr
      refine ⟨rfl,fun message hm => ?_⟩
      cases hm
      exact plain_runStore hr
  · rename_i stmt _ hp
    refine .inr ⟨stmt,hp,?_⟩
    cases executeStmt ev crc sv stmt txnId e with
    | mk r e' =>
      cases r with
      | error | ok => exact ⟨rfl,rfl⟩

lemma remembered_answer (hsv : sv.Apart) {e : Engine V E} {resp : Response V}
    (h : (executeQuery ev crc sv sql txnId e k).1 = .ok resp) (a : Option TxnId) :
    (remembered a resp = a ∧ ∀ isolation, sv.parse sql ≠ .ok (.statement (.begin isolation))) ∨
    (remembered a resp = none ∧ (sv.parse sql = .ok (.statement .commit) ∨
      sv.parse sql = .ok (.statement .rollback))) ∨
    remembered a resp = some e.tm.nextTxnId ∧
      ∃ isolation, sv.parse sql = .ok (.statement (.begin isolation)) := by
  rcases executeQuery_cases ev crc sv sql txnId e k with
    ⟨hp,-,hplain⟩ | ⟨stmt,hp,-,hr⟩
  · refine .inl ⟨?_,fun isolation hb => ?_⟩
    · rcases remembered_cases a resp with ⟨message,rfl⟩ | hsame
      · exact remembered_plain (hplain message h) a
      · exact hsame
    · rcases hp with ⟨err,hp⟩ | ⟨stmt,hp⟩
      · rw [hp] at hb
        cases hb
      · rw [hp] at hb
        cases hb
  rw [h] at hr
  cases hx : executeStmt ev crc sv stmt txnId e with
  | mk r e' =>
    rw [hx] at hr
    cases r with
    | error err => cases hr
    | ok r =>
      cases hr
      by_cases hinner : ∀ st, stmt = .statement st → Engine.Inner st
      · refine .inl ⟨?_,fun isolation hb => ?_⟩
        · rcases remembered_cases a (respond r) with ⟨message,hm⟩ | hsame
          · rw [hm]
            rw [respond_ok hm] at hx
            exact remembered_plain (answers_executeStmt hsv hinner txnId _ _ _ hx) a
          · exact hsame
        · rw [hp] at hb
          cases hb
          exact hinner _ rfl
      push Not at hinner
      obtain ⟨st,rfl,hst⟩ := hinner
      cases st with
      | begin isolation =>
        cases hx
        exact .inr (.inr ⟨remembered_startMessage a _,isolation,hp⟩)
      | commit =>
        rcases remembered_cases a (respond r) with ⟨message,hm⟩ | hsame
        · rw [respond_ok hm] at hx
          obtain rfl := answers_commit txnId _ _ _ hx
          rw [hm]
          exact .inr (.inl ⟨remembered_commit a,.inl hp⟩)
        · exact .inl ⟨hsame,fun isolation hb => by simp [hp] at hb⟩
      | rollback =>
        rcases remembered_cases a (respond r) with ⟨message,hm⟩ | hsame
        · rw [respond_ok hm] at hx
          obtain rfl := answers_rollback txnId _ _ _ hx
          rw [hm]
          exact .inr (.inl ⟨remembered_rollback a,.inr hp⟩)
        · exact .inl ⟨hsame,fun isolation hb => by simp [hp] at hb⟩
      | useDatabase | query | dml | ddl => exact absurd trivial hst

omit [Codec V] in
lemma mem_startedBetween {e e' : Engine V E} (h : e.tm.nextTxnId ≤ e'.tm.nextTxnId) :
    t ∈ startedBetween e e' ↔ e.tm.nextTxnId ≤ t ∧ t < e'.tm.nextTxnId := by
  rw [startedBetween, mem_range'_1, Nat.add_sub_cancel' h]

lemma begin_startedBetween {isolation : Option IsolationLevel}
    (hp : sv.parse sql = .ok (.statement (.begin isolation))) (txnId : Option TxnId)
    (e : Engine V E) (k : κ) :
    startedBetween e (executeQuery ev crc sv sql txnId e k).2.1 = [e.tm.nextTxnId] := by
  have hnext : (executeQuery ev crc sv sql txnId e k).2.1.tm.nextTxnId = e.tm.nextTxnId+1 := by
    rw [executeQuery, hp]
    rfl
  rw [startedBetween, hnext, Nat.add_sub_cancel_left]
  rfl

variable {s s' : State V E κ} {c : ConnId} {conn : Connection}

def Owned (s : State V E κ) : Prop :=
  ∀ c conn t, s.connections.lookup c = some conn → conn.activeTxn = some t → (c,t) ∈ s.begun

omit [Codec V] in
lemma Owned.set (h : Owned s) (hconn : s'.connections = s.connections.insert c conn)
    (hsub : ∀ p ∈ s.begun, p ∈ s'.begun)
    (hown : ∀ t, conn.activeTxn = some t → (c,t) ∈ s'.begun) : Owned s' := by
  intro c' conn' t hc' ht
  rw [hconn] at hc'
  rcases lookup_insert_cases hc' with ⟨heq,rfl⟩ | ⟨-,hc'⟩
  · exact heq ▸ hown t ht
  · exact hsub _ (h c' conn' t hc' ht)

lemma Owned.query (hsv : sv.Apart) (h : Owned s) (hc : s.connections.lookup c = some conn) (sql : String)
    (txnId : Option TxnId) : Owned (query ev crc sv c conn sql txnId s).2 := by
  have hmine : ∀ t, conn.activeTxn = some t → (c,t) ∈ s.begun := fun t ht => h c conn t hc ht
  rw [Server.query]
  split
  · rename_i resp hr
    refine h.set rfl (fun p hp => mem_append_left _ hp) (fun t ht => ?_)
    rcases remembered_answer hsv hr conn.activeTxn with ⟨hsame,-⟩ | ⟨hnone,-⟩ | ⟨hsome,isolation,hp⟩
    · exact mem_append_left _ (hmine t (hsame ▸ ht))
    · dsimp only at ht
      rw [hnone] at ht
      cases ht
    · dsimp only at ht
      rw [hsome] at ht
      cases ht
      exact mem_append_right _
        (mem_map_of_mem (by rw [begin_startedBetween hp]; exact mem_singleton_self _))
  · refine h.set rfl (fun p hp => mem_append_left _ hp) (fun t ht => ?_)
    split at ht
    · cases ht
    · exact mem_append_left _ (hmine t ht)

lemma Owned.finish (h : Owned s) (c : ConnId) (conn : Connection) : Owned (finish c conn s) := by
  intro c' conn' t hc' ht
  rw [Server.finish] at hc'
  by_cases heq : c' = c
  · rw [heq, lookup_erase] at hc'
    cases hc'
  · rw [lookup_erase_ne heq] at hc'
    exact h c' conn' t hc' ht

lemma Owned.step (hsv : sv.Apart) {a : Step} (h : Owned s)
    (hs : step ev crc sv s a = some s') : Owned s' := by
  cases a with
  | connect =>
    cases hs
    exact h.set rfl (fun p hp => hp) nofun
  | hangUp c =>
    obtain ⟨conn,-,rfl⟩ := map_eq_some_iff.mp hs
    exact h.finish c conn
  | request c r =>
    obtain ⟨conn,hc,rfl⟩ := map_eq_some_iff.mp hs
    cases r with
    | authenticate username password =>
      rw [handle]
      split
      · exact h.set rfl (fun p hp => hp) (fun t ht => h c conn t hc ht)
      · exact h
    | query sql txnId =>
      rw [handle]
      split
      · exact h
      · exact h.query hsv hc sql txnId
    | ping => exact h
    | disconnect => exact h.finish c conn

section
open Integers

def parseWord (sql : String) : Except String (Parsed Expr Empty Empty Empty) :=
  if sql = "BEGIN" then .ok (.statement (.begin none))
  else if sql = "COMMIT" then .ok (.statement .commit)
  else if sql = "ROLLBACK" then .ok (.statement .rollback)
  else .error "Parse error: Unexpected token"

def emptyStores : Stores Unit Empty where
  get _ _ := .ok none
  set _ _ _ := (.ok (),())
  delete _ _ := (.ok false,())
  scan _ _ _ := .ok []
  insert _ _ d := d.elim
  findAll _ _ := .ok []
  docText d := d.elim

def wordServices : Services Value Expr Empty Empty Empty Unit where
  authenticate username password := username = "admin" && password = "admin"
  parse := parseWord
  other o := o.elim
  combine _ _ l r := l++r
  plan _ _ := .error (.plan "no plan")
  actual _ := ""
  stores := emptyStores
  text _ := .null

lemma wordServices_apart : wordServices.Apart where
  answers o := o.elim
  manager o := o.elim

abbrev wordStep := step Expr.evaluator (fun _ => 0) wordServices

def emptyServer : State Value Expr Unit := .start (engine ∅ none) ()

def logIn (c : ConnId) : Step := .request c (.authenticate "admin" "admin")

def word (c : ConnId) (sql : String) (txnId : Option TxnId) : Step := .request c (.query sql txnId)

def twoConnections : List Step := [.connect, .connect, logIn 0, logIn 1, word 0 "BEGIN" none]

end

/-- What a query has to keep to so that its connection does not lose sight of a
transaction: no BEGIN stands inside another statement, and while the remembered
transaction is active there is no BEGIN, COMMIT and ROLLBACK are for that
transaction, and only they begin with words that end a transaction. -/
structure Careful (sv : Services V E Q O D κ) (tm : TransactionManager) (conn : Connection)
    (sql : String) (txnId : Option TxnId) : Prop where
  inside : ∀ op all l r, sv.parse sql = .ok (.setOp op all l r) →
    (Parsed.setOp op all l r).hasBegin = false
  begin : ∀ t, conn.activeTxn = some t → tm.isActive t = true →
    ∀ isolation, sv.parse sql ≠ .ok (.statement (.begin isolation))
  own : ∀ t, conn.activeTxn = some t → tm.isActive t = true →
    (sv.parse sql = .ok (.statement .commit) ∨ sv.parse sql = .ok (.statement .rollback)) →
    txnId = none ∨ txnId = some t
  words : ∀ t, conn.activeTxn = some t → tm.isActive t = true → endsTxn sql = true →
    sv.parse sql = .ok (.statement .commit) ∨ sv.parse sql = .ok (.statement .rollback)

def Guarded (sv : Services V E Q O D κ) (c : ConnId) (s : State V E κ) : Step → Prop
  | .request c' (.query sql txnId) => c' = c → ∀ conn, s.connections.lookup c = some conn →
    conn.sessionId ≠ none → Careful sv s.engine.tm conn sql txnId
  | _ => True

structure Watched (c : ConnId) (s : State V E κ) : Prop where
  begun_lt : ∀ c' t, (c',t) ∈ s.begun → t < s.engine.tm.nextTxnId
  status : AllActive s.engine.tm
  conn_lt : ∀ c' conn, s.connections.lookup c' = some conn → c' < s.nextConn
  remembered : ∀ t, (c,t) ∈ s.begun → s.engine.tm.isActive t = true →
    ∃ conn, s.connections.lookup c = some conn ∧ conn.activeTxn = some t

namespace Watched
variable {c c' : ConnId} {conn conn' : Connection} {s s' : State V E κ}

omit [Codec V] in
lemma request (h : Watched c s) (hc' : s.connections.lookup c' = some conn)
    (htm : Onward s.engine.tm s'.engine.tm)
    (hconn : s'.connections = s.connections.insert c' conn') (hn : s'.nextConn = s.nextConn)
    (hbegun : s'.begun = s.begun++(startedBetween s.engine s'.engine).map (fun t => (c',t)))
    (hrem : c' = c → ∀ t, s'.engine.tm.isActive t = true →
      (conn.activeTxn = some t ∧ s.engine.tm.isActive t = true ∨
        t ∈ startedBetween s.engine s'.engine) → conn'.activeTxn = some t) : Watched c s' where
  begun_lt c'' t ht := by
    rw [hbegun, mem_append] at ht
    rcases ht with ht | ht
    · exact (h.begun_lt c'' t ht).trans_le htm.next
    · obtain ⟨u,hu,heq⟩ := mem_map.mp ht
      cases heq
      exact ((mem_startedBetween htm.next).mp hu).2
  status := h.status.onward htm
  conn_lt c'' conn'' hc'' := by
    rw [hconn, lookup_insert_eq] at hc''
    rw [hn]
    split at hc''
    · rename_i heq
      exact heq ▸ h.conn_lt c' conn hc'
    · exact h.conn_lt c'' conn'' hc''
  remembered t ht hact := by
    have hold : (c,t) ∈ s.begun → ∃ conn'', s.connections.lookup c = some conn'' ∧
        conn''.activeTxn = some t ∧ s.engine.tm.isActive t = true := by
      intro ht
      have hbefore := htm.isActive (h.begun_lt c t ht) hact
      obtain ⟨conn'',hc,hsome⟩ := h.remembered t ht hbefore
      exact ⟨conn'',hc,hsome,hbefore⟩
    rw [hbegun, mem_append] at ht
    rw [hconn]
    by_cases heq : c' = c
    · subst heq
      refine ⟨conn',lookup_insert _,hrem rfl t hact ?_⟩
      rcases ht with ht | ht
      · obtain ⟨conn'',hc,hsome,hbefore⟩ := hold ht
        cases hc.symm.trans hc'
        exact .inl ⟨hsome,hbefore⟩
      · obtain ⟨u,hu,hpair⟩ := mem_map.mp ht
        cases hpair
        exact .inr hu
    · rcases ht with ht | ht
      · obtain ⟨conn'',hc,hsome,-⟩ := hold ht
        exact ⟨conn'',(lookup_insert_ne (Ne.symm heq)).trans hc,hsome⟩
      · obtain ⟨u,-,hpair⟩ := mem_map.mp ht
        cases hpair
        exact absurd rfl heq

lemma finish (h : Watched c s) (hc' : s.connections.lookup c' = some conn) :
    Watched c (finish c' conn s) := by
  have htm : Onward s.engine.tm (Server.finish c' conn s).engine.tm := by
    rw [Server.finish]
    cases conn.activeTxn with
    | none => exact .refl _
    | some tid =>
      dsimp only
      rw [rollbackTxnEffects_tm]
      exact .of_erase (s.engine.tm.abort_active tid).1 (s.engine.tm.abort_active tid).2
  refine ⟨fun c'' t ht => (h.begun_lt c'' t ht).trans_le htm.next,h.status.onward htm,
    fun c'' conn'' hc'' => ?_,fun t ht hact => ?_⟩
  · rw [Server.finish] at hc''
    by_cases heq : c'' = c'
    · rw [heq, lookup_erase] at hc''
      cases hc''
    · rw [lookup_erase_ne heq] at hc''
      exact h.conn_lt c'' conn'' hc''
  · obtain ⟨conn'',hc,hsome⟩ := h.remembered t ht (htm.isActive (h.begun_lt c t ht) hact)
    by_cases heq : c = c'
    · subst heq
      cases hc.symm.trans hc'
      rw [Server.finish, hsome] at hact
      rw [abort_ends] at hact
      cases hact
    · exact ⟨conn'',(lookup_erase_ne heq).trans hc,hsome⟩

lemma ended (h : Watched c s) (k : κ)
    (hp : sv.parse sql = .ok (.statement .commit) ∨ sv.parse sql = .ok (.statement .rollback)) :
    (executeQuery ev crc sv sql (some t) s.engine k).2.1.tm.isActive t = false := by
  rcases executeQuery_cases ev crc sv sql (some t) s.engine k with ⟨hno,-,-⟩ | ⟨stmt,hs,he,-⟩
  · rcases hp with hp | hp <;> rcases hno with ⟨err,hno⟩ | ⟨st,hno⟩ <;> simp [hp] at hno
  rw [he]
  rcases hp with hp | hp
  · cases hp.symm.trans hs
    rw [executeStmt, execute_commit_tm]
    exact commit_ends h.status t
  · cases hp.symm.trans hs
    rw [executeStmt, execute_rollback_tm]
    exact abort_ends s.engine.tm t

end Watched

lemma Careful.begun (hsv : sv.Apart) (hq : Engine.Quiet ev (fun _ => True) Engine.Fewer)
    {e : Engine V E} (hcare : Careful sv e.tm conn sql txnId) {txnId' : Option TxnId}
    (ht : t ∈ startedBetween e (executeQuery ev crc sv sql txnId' e k).2.1) :
    t = e.tm.nextTxnId ∧ ∃ isolation, sv.parse sql = .ok (.statement (.begin isolation)) := by
  have hnone : ∀ e' : Engine V E, e'.tm.nextTxnId = e.tm.nextTxnId → t ∉ startedBetween e e' := by
    intro e' he' hin
    obtain ⟨hle,hlt⟩ := (mem_startedBetween he'.ge).mp hin
    exact absurd (he' ▸ hlt) hle.not_gt
  rcases executeQuery_cases ev crc sv sql txnId' e k with ⟨-,he,-⟩ | ⟨stmt,hp,he,-⟩
  · rw [he] at ht
    exact absurd ht (hnone e rfl)
  by_cases hb : stmt.hasBegin = true
  · obtain ⟨isolation,rfl⟩ : ∃ isolation, stmt = .statement (.begin isolation) := by
      cases stmt with
      | statement st =>
        cases st with
        | begin isolation => exact ⟨isolation,rfl⟩
        | commit | rollback | useDatabase | query | dml | ddl => cases hb
      | setOp op all l r =>
        rw [hcare.inside op all l r hp] at hb
        cases hb
      | explain | other | store => cases hb
    rw [begin_startedBetween hp] at ht
    exact ⟨mem_singleton.mp ht,isolation,hp⟩
  · rw [he] at ht
    exact absurd ht (hnone _ (next_executeStmt hsv hq (by simpa using hb) txnId' e))

lemma Careful.remembered (hsv : sv.Apart)
    (hq : Engine.Quiet ev (fun _ => True) Engine.Fewer) (h : Watched c s)
    (hcare : Careful sv s.engine.tm conn sql txnId)
    (hact : (executeQuery ev crc sv sql (txnId.or conn.activeTxn) s.engine k).2.1.tm.isActive t =
      true)
    (ht : conn.activeTxn = some t ∧ s.engine.tm.isActive t = true ∨ t ∈ startedBetween s.engine
        (executeQuery ev crc sv sql (txnId.or conn.activeTxn) s.engine k).2.1) :
    (match (executeQuery ev crc sv sql (txnId.or conn.activeTxn) s.engine k).1 with
      | .ok resp => Server.remembered conn.activeTxn resp
      | .error _ => if endsTxn sql then none else conn.activeTxn) = some t := by
  rcases ht with ⟨hsome,hbefore⟩ | ht
  · have hnoend : ¬ (sv.parse sql = .ok (.statement .commit) ∨
        sv.parse sql = .ok (.statement .rollback)) := by
      intro hp
      have heff : txnId.or conn.activeTxn = some t := by
        rcases hcare.own t hsome hbefore hp with rfl | rfl
        · exact hsome
        · rfl
      rw [heff, h.ended k hp] at hact
      cases hact
    cases hr : (executeQuery ev crc sv sql (txnId.or conn.activeTxn) s.engine k).1 with
    | error err =>
      rw [if_neg (fun hw => hnoend (hcare.words t hsome hbefore hw))]
      exact hsome
    | ok resp =>
      rcases remembered_answer hsv hr conn.activeTxn with ⟨hsame,-⟩ | ⟨-,hp⟩ | ⟨-,isolation,hp⟩
      · exact hsame.trans hsome
      · exact absurd hp hnoend
      · exact absurd hp (hcare.begin t hsome hbefore isolation)
  · obtain ⟨rfl,isolation,hp⟩ := hcare.begun hsv hq ht
    have hr : (executeQuery ev crc sv sql (txnId.or conn.activeTxn) s.engine k).1 =
        .ok (.ok (startMessage s.engine.tm.nextTxnId)) := by
      rw [executeQuery, hp]
      rfl
    rw [hr]
    exact remembered_startMessage _ _

lemma query_state (c : ConnId) (conn : Connection) (sql : String) (txnId : Option TxnId)
    (s : State V E κ) : (query ev crc sv c conn sql txnId s).2 =
      let r := executeQuery ev crc sv sql (txnId.or conn.activeTxn) s.engine s.stores
      setConnection c { conn with
        activeTxn := match r.1 with
          | .ok resp => remembered conn.activeTxn resp
          | .error _ => if endsTxn sql then none else conn.activeTxn }
        { s with
          engine := r.2.1
          stores := r.2.2
          begun := s.begun++(startedBetween s.engine r.2.1).map (fun t => (c,t)) } := by
  rw [query]
  dsimp only
  cases (executeQuery ev crc sv sql (txnId.or conn.activeTxn) s.engine s.stores).1 with
  | ok | error => rfl

lemma onward_executeQuery (hsv : sv.Apart)
    (hq : Engine.Quiet ev (fun _ => True) Engine.Fewer) (sql : String) (txnId : Option TxnId)
    (e : Engine V E) (k : κ) : Onward e.tm (executeQuery ev crc sv sql txnId e k).2.1.tm := by
  rcases executeQuery_cases ev crc sv sql txnId e k with ⟨-,he,-⟩ | ⟨stmt,-,he,-⟩
  · rw [he]
    exact .refl e.tm
  · rw [he]
    exact onward_executeStmt hsv hq stmt txnId e

omit [Codec V] in
lemma Watched.connect (h : Watched c s) :
    Watched c { setConnection s.nextConn ⟨none,none⟩ s with nextConn := s.nextConn+1 } where
  begun_lt := h.begun_lt
  status := h.status
  conn_lt c' conn hc' := by
    rcases lookup_insert_cases hc' with ⟨heq,-⟩ | ⟨-,hc'⟩
    · exact heq ▸ Nat.lt_succ_self _
    · exact (h.conn_lt c' conn hc').trans (Nat.lt_succ_self _)
  remembered t ht hact := by
    obtain ⟨conn,hc,hsome⟩ := h.remembered t ht hact
    exact ⟨conn,(lookup_insert_ne (h.conn_lt c conn hc).ne).trans hc,hsome⟩

lemma Watched.step (hsv : sv.Apart) (hq : Engine.Quiet ev (fun _ => True) Engine.Fewer) {a : Step} (h : Watched c s) (hguard : Guarded sv c s a)
    (hs : step ev crc sv s a = some s') : Watched c s' := by
  cases a with
  | connect =>
    cases hs
    exact h.connect
  | hangUp c' =>
    obtain ⟨conn,hc',rfl⟩ := map_eq_some_iff.mp hs
    exact h.finish hc'
  | request c' r =>
    obtain ⟨conn,hc',rfl⟩ := map_eq_some_iff.mp hs
    cases r with
    | authenticate username password =>
      have hnone : startedBetween s.engine s.engine = [] := by
        rw [startedBetween, Nat.sub_self]
        rfl
      rw [handle]
      split
      · refine h.request hc' (.refl _) rfl rfl ?_ (fun _ t _ ht => ?_)
        · change s.begun = s.begun++(startedBetween s.engine s.engine).map _
          rw [hnone, map_nil, append_nil]
        rcases ht with ⟨hsome,-⟩ | ht
        · exact hsome
        · change t ∈ startedBetween s.engine s.engine at ht
          rw [hnone] at ht
          cases ht
      · exact h
    | query sql txnId =>
      rw [handle]
      split
      · exact h
      rename_i sid hsid
      rw [query_state]
      refine h.request hc' (onward_executeQuery hsv hq sql _ _ _) rfl rfl rfl
        (fun heq t hact ht => ?_)
      have hcare := hguard heq conn (heq ▸ hc') (by rw [hsid]; exact some_ne_none sid)
      exact hcare.remembered hsv hq h hact ht
    | ping => exact h
    | disconnect => exact h.finish hc'

/-- In every run in which the queries of a connection are careful, none of its
transactions is active once the connection has ended. -/
theorem ended_connection_inactive (hsv : sv.Apart)
    (hq : Engine.Quiet ev (fun _ => True) Engine.Fewer) (e : Engine V E)
    (hactive : AllActive e.tm) (k : κ) (c : ConnId) {s : State V E κ}
    (hs : Runs.Reaches (step ev crc sv) (Guarded sv c) (State.start e k) s)
    (hend : s.connections.lookup c = none) {t : TxnId} (ht : (c,t) ∈ s.begun) :
    s.engine.tm.isActive t = false := by
  have hwatched : Watched c s := by
    refine hs.invariant ⟨nofun,hactive,nofun,nofun⟩ ?_
    exact fun s a s' h hg hstep => h.step hsv hq hg hstep
  by_contra hact
  obtain ⟨conn,hc,-⟩ := hwatched.remembered t ht (by simpa using hact)
  rw [hend] at hc
  cases hc

def closedRun : List Step := [.connect, logIn 0, word 0 "BEGIN" none, .request 0 .disconnect]

lemma begin_careful (tm : TransactionManager) (sessionId : Option ℕ) :
    Careful wordServices tm ⟨sessionId,none⟩ "BEGIN" none where
  inside _ _ _ _ hp := by cases hp
  begin _ ht := by cases ht
  own _ ht := by cases ht
  words _ ht := by cases ht

lemma closedRun_guarded : ∃ s, Runs.run wordStep emptyServer closedRun = some s ∧
    Runs.Reaches wordStep (Guarded wordServices 0) emptyServer s := by
  refine ⟨_,rfl,.step (.request 0 .disconnect) (.step (word 0 "BEGIN" none) (.step (logIn 0)
    (.step .connect .init trivial rfl) trivial rfl) ?_ rfl) trivial rfl⟩
  intro _ conn hc _
  cases hc
  exact begin_careful _ _

theorem closed_connection_inactive :
    ∃ s, Runs.run wordStep emptyServer closedRun = some s ∧ s.connections.lookup 0 = none ∧
      (0,1) ∈ s.begun ∧ s.engine.tm.isActive 1 = false := by
  have hend : (Runs.run wordStep emptyServer closedRun).map
      (fun s => (s.connections.lookup 0,s.begun)) = some (none,[(0,1)]) := by decide +kernel
  obtain ⟨s,hrun,hs⟩ := closedRun_guarded
  rw [hrun] at hend
  obtain ⟨hnone,hbegun⟩ := Prod.mk.inj (Option.some.inj hend)
  have hin : (0,1) ∈ s.begun := by
    rw [hbegun]
    decide
  exact ⟨s,hrun,hnone,hin,ended_connection_inactive wordServices_apart
    (Integers.integers_quiet _ _ (fun e _ => .refl e)) (Integers.engine ∅ none) nofun () 0 hs
    hnone hin⟩

/-- After the run connection 0 has ended, and transaction 1 that it has begun is
still active. -/
def Leaves (steps : List Step) : Prop :=
  ∃ s, Runs.run wordStep emptyServer steps = some s ∧ s.connections.lookup 0 = none ∧
    (0,1) ∈ s.begun ∧ s.engine.tm.isActive 1 = true

lemma leaves_of_run {steps : List Step} (h : (Runs.run wordStep emptyServer steps).map
    (fun s => ((s.connections.lookup 0).isNone,decide ((0,1) ∈ s.begun),
      s.engine.tm.isActive 1)) = some (true,true,true)) : Leaves steps := by
  obtain ⟨s,hrun,hs⟩ := map_eq_some_iff.mp h
  obtain ⟨hnone,hs⟩ := Prod.mk.inj hs
  obtain ⟨hbegun,hact⟩ := Prod.mk.inj hs
  exact ⟨s,hrun,isNone_iff_eq_none.mp hnone,of_decide_eq_true hbegun,hact⟩

/-- A second BEGIN, a word that is no statement and a COMMIT that names another
transaction each make the connection forget the one that it has begun. -/
theorem ended_connection_active :
    Leaves [.connect, logIn 0, word 0 "BEGIN" none, word 0 "BEGIN" none, .request 0 .disconnect] ∧
    Leaves [.connect, logIn 0, word 0 "BEGIN" none, word 0 "END" none, .request 0 .disconnect] ∧
    Leaves [.connect, logIn 0, word 0 "BEGIN" none, word 0 "COMMIT" (some 7),
      .request 0 .disconnect] := by
  refine ⟨leaves_of_run ?_,leaves_of_run ?_,leaves_of_run ?_⟩
  · decide +kernel
  · decide +kernel
  · decide +kernel

end ByteDB.Server
