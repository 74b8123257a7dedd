import ByteDB.VersionStamps

/-!
# Connections of the server

A connection keeps at most one transaction. The number of the transaction is
not returned by the engine as such: the connection reads it out of the message
that answers BEGIN. A request may name another transaction, and the end of the
connection rolls the remembered one back.
-/

set_option autoImplicit false

namespace ByteDB
open ByteDB.Assoc Command

namespace Text

/-- The characters with the property White_Space. -/
def isWhitespace (c : Char) : Bool :=
  (9 ≤ c.toNat && c.toNat ≤ 13) || c.toNat == 32 || c.toNat == 0x85 || c.toNat == 0xa0 ||
    c.toNat == 0x1680 || (0x2000 ≤ c.toNat && c.toNat ≤ 0x200a) || c.toNat == 0x2028 ||
    c.toNat == 0x2029 || c.toNat == 0x202f || c.toNat == 0x205f || c.toNat == 0x3000

def splitWhitespace (s : String) : List (List Char) :=
  (s.toList.splitOnP isWhitespace).filter (· ≠ [])

/-- A number as the source parses it; the numbers of transactions have no bound
here. -/
def parseNumber (cs : List Char) : Option ℕ :=
  let digits := if cs.head? = some '+' then cs.tail else cs
  if digits ≠ [] ∧ digits.all Char.isDigit then some (Nat.ofDigitChars 10 digits 0) else none

def startsWith (s opening : String) : Bool := opening.toList.isPrefixOf s.toList

def endsWith (s ending : String) : Bool := ending.toList.isSuffixOf s.toList

/-- `trim_start` and `to_ascii_uppercase`. -/
def opening (s : String) : String := .ofList ((s.toList.dropWhile isWhitespace).map Char.toUpper)

end Text

def QueryError.display : QueryError → String
  | .execution message => "Execution error: " ++ message
  | .constraint message => "Constraint violation: " ++ message
  | .core e => "Core error: " ++ e.message
  | .plan message => "Plan error: " ++ message

namespace Server
open Text

inductive SetOp where
  | union
  | intersect
  | except
  deriving DecidableEq, Repr

def SetOp.name : SetOp → String
  | .union => "UNION"
  | .intersect => "INTERSECT"
  | .except => "EXCEPT"

inductive StoreStmt (D : Type) where
  | kvGet (key : String)
  | kvSet (key value : String)
  | kvDelete (key : String)
  | kvScan (start stop : String)
  | docInsert (collection : String) (document : D)
  | docFind (collection : String)
  | docUpdate
  | docDelete

/-- What a text is parsed as. Both sides of a set operation and what is
explained may be any statement; `other` is for statements of the engine that
do nothing with rows and transactions. -/
inductive Parsed (E Q O D : Type) where
  | statement (stmt : Statement E Q)
  | setOp (op : SetOp) (all : Bool) (left right : Parsed E Q O D)
  | explain (inner : Parsed E Q O D) (analyze : Bool)
  | other (o : O)
  | store (stmt : StoreStmt D)

structure Stores (κ D : Type) where
  get : κ → String → Except String (Option String)
  set : κ → String → String → Except String Unit × κ
  delete : κ → String → Except String Bool × κ
  scan : κ → String → String → Except String (List (String × String))
  insert : κ → String → D → Except String String × κ
  findAll : κ → String → Except String (List D)
  docText : D → String

/-- What the server uses and what is not followed further here. -/
structure Services (V E Q O D κ : Type) where
  authenticate : String → String → Bool
  parse : String → Except String (Parsed E Q O D)
  other : O → Option TxnId → Exec V E (ExecutionResult V)
  /-- The rows of a set operation; rows are compared by their bytes. -/
  combine : SetOp → Bool → List (List V) → List (List V) → List (List V)
  /-- The lines that explain a statement, the estimate first. -/
  plan : Engine V E → Parsed E Q O D → Except QueryError (String × List String)
  /-- The line about a statement that has been run and gave this many rows. -/
  actual : ℕ → String
  stores : Stores κ D
  text : String → V

inductive Request where
  | authenticate (username password : String)
  | query (sql : String) (txnId : Option TxnId)
  | ping
  | disconnect
  deriving DecidableEq

inductive Response (V : Type) where
  | authOk (sessionId : ℕ)
  | authFail (reason : String)
  | resultSet (columns : List String) (rows : List (List V))
  | modified (count : ℕ)
  | ok (message : String)
  | error (code : ℕ) (message : String)
  | pong
  deriving DecidableEq

section
variable {V E Q O D κ : Type} [Codec V] (ev : Evaluator V E Q) (crc : Bytes → UInt32)
  (sv : Services V E Q O D κ)

/-- The statements that `build_logical_plan` takes. -/
def planned : Parsed E Q O D → Bool
  | .statement (.query _) | .statement (.dml _) | .statement (.ddl (.createTable _))
  | .statement (.ddl (.dropTable _ _)) | .statement (.ddl (.createIndex _))
  | .statement (.ddl (.dropIndex _)) => true
  | _ => false

def ExecutionResult.count : ExecutionResult V → ℕ
  | .rows _ rows => rows.length
  | .modified count => count
  | .ok _ => 0

def execSetOp (op : SetOp) (all : Bool) (left right : Exec V E (ExecutionResult V)) :
    Exec V E (ExecutionResult V) := do
  let l ← left
  let r ← right
  match l, r with
  | .rows columns ls, .rows _ rs => pure (.rows columns (sv.combine op all ls rs))
  | _, _ => fail (.execution (op.name ++ " requires two SELECT statements"))

def queryPlan (lines : List String) : ExecutionResult V :=
  .rows ["QUERY PLAN"] (lines.map (fun l => [sv.text l]))

def execExplain (stmt : Parsed E Q O D) (analyze : Bool) (run : Exec V E (ExecutionResult V)) :
    Exec V E (ExecutionResult V) := do
  if planned stmt then
    let lines ← check (fun e => sv.plan e stmt)
    if analyze then
      let r ← run
      pure (queryPlan sv (lines.1::sv.actual (ExecutionResult.count r)::lines.2))
    else pure (queryPlan sv (lines.1::lines.2))
  else fail (.plan "Statement does not produce a logical plan")

/-- `QueryEngine::execute` for every statement that a text may hold. -/
def executeStmt : Parsed E Q O D → Option TxnId → Exec V E (ExecutionResult V)
  | .statement stmt, txnId => Engine.execute ev crc stmt txnId
  | .setOp op all l r, txnId =>
    Engine.raisePending (execSetOp sv op all (executeStmt l txnId) (executeStmt r txnId))
  | .explain inner analyze, txnId =>
    Engine.raisePending (execExplain sv inner analyze (executeStmt inner txnId))
  | .other o, txnId => Engine.raisePending (sv.other o txnId)
  | .store (.kvGet _), _ | .store (.kvSet _ _), _ | .store (.kvDelete _), _
  | .store (.kvScan _ _), _ => fail (.execution "Use KV engine for KV operations")
  | .store _, _ => fail (.execution "Use Document engine for DOC operations")

def runStore : StoreStmt D → κ → Except String (Response V) × κ
  | .kvGet key, k =>
    (match sv.stores.get k key with
      | .error err => .error err
      | .ok none => .ok (.resultSet ["key", "value"] [])
      | .ok (some v) => .ok (.resultSet ["key", "value"] [[sv.text key, sv.text v]]),k)
  | .kvSet key value, k =>
    match sv.stores.set k key value with
    | (.error err,k) => (.error err,k)
    | (.ok _,k) => (.ok (.ok "OK"),k)
  | .kvDelete key, k =>
    match sv.stores.delete k key with
    | (.error err,k) => (.error err,k)
    | (.ok deleted,k) => (.ok (.modified (if deleted then 1 else 0)),k)
  | .kvScan start stop, k =>
    (match sv.stores.scan k start stop with
      | .error err => .error err
      | .ok found => .ok (.resultSet ["key", "value"]
          (found.map (fun p => [sv.text p.1, sv.text p.2]))),k)
  | .docInsert collection document, k =>
    match sv.stores.insert k collection document with
    | (.error err,k) => (.error err,k)
    | (.ok id,k) => (.ok (.ok ("Inserted: " ++ id)),k)
  | .docFind collection, k =>
    (match sv.stores.findAll k collection with
      | .error err => .error err
      | .ok docs => .ok (.resultSet ["document"]
          (docs.map (fun d => [sv.text (sv.stores.docText d)]))),k)
  | .docDelete, k => (.ok (.ok "DOC DELETE executed"),k)
  | .docUpdate, k => (.ok (.ok "DOC UPDATE executed"),k)

def respond : ExecutionResult V → Response V
  | .rows columns rows => .resultSet columns rows
  | .modified count => .modified count
  | .ok message => .ok message

def executeQuery (sql : String) (txnId : Option TxnId) (e : Engine V E) (k : κ) :
    Except String (Response V) × Engine V E × κ :=
  match sv.parse sql with
  | .error err => (.error ("Query error: " ++ err),e,k)
  | .ok (.store stmt) =>
    match runStore sv stmt k with
    | (.error err,k) => (.error ("Query error: " ++ err),e,k)
    | (.ok r,k) => (.ok r,e,k)
  | .ok stmt =>
    match executeStmt ev crc sv stmt txnId e with
    | (.error err,e) => (.error ("Query error: " ++ err.display),e,k)
    | (.ok r,e) => (.ok (respond r),e,k)

end

section
variable {V E Q O D κ : Type} [Codec V] (ev : Evaluator V E Q) (crc : Bytes → UInt32)
  (sv : Services V E Q O D κ)

abbrev ConnId := ℕ

structure Connection where
  sessionId : Option ℕ
  activeTxn : Option TxnId
  deriving DecidableEq

/-- The server with its connections. `begun` is no part of the source: it says
which transactions have been started by requests of which connection. -/
structure State (V E κ : Type) where
  engine : Engine V E
  stores : κ
  nextSession : ℕ
  nextConn : ConnId
  connections : Map ConnId Connection
  begun : List (ConnId × TxnId)

def State.start (e : Engine V E) (k : κ) : State V E κ where
  engine := e
  stores := k
  nextSession := 1
  nextConn := 0
  connections := ∅
  begun := []

def isStarted (message : String) : Bool :=
  startsWith message "Transaction " && endsWith message " started"

def startedTxn (message : String) : Option TxnId := ((splitWhitespace message)[1]?).bind parseNumber

def remembered (activeTxn : Option TxnId) : Response V → Option TxnId
  | .ok message =>
    if isStarted message then (startedTxn message).or activeTxn
    else if message = "COMMIT" ∨ message = "ROLLBACK" then none
    else activeTxn
  | _ => activeTxn

def endsTxn (sql : String) : Bool :=
  startsWith (Text.opening sql) "COMMIT" || startsWith (Text.opening sql) "ROLLBACK" ||
    startsWith (Text.opening sql) "END"

def startedBetween (e e' : Engine V E) : List TxnId :=
  List.range' e.tm.nextTxnId (e'.tm.nextTxnId-e.tm.nextTxnId)

section
variable (c : ConnId) (conn : Connection) (s : State V E κ)

def setConnection : State V E κ := { s with connections := s.connections.insert c conn }

def query (sql : String) (txnId : Option TxnId) (s : State V E κ) : Response V × State V E κ :=
  let effective := txnId.or conn.activeTxn
  let r := executeQuery ev crc sv sql effective s.engine s.stores
  let s' := { s with
    engine := r.2.1
    stores := r.2.2
    begun := s.begun++(startedBetween s.engine r.2.1).map (fun t => (c,t)) }
  match r.1 with
  | .ok resp =>
    (resp,setConnection c { conn with activeTxn := remembered conn.activeTxn resp } s')
  | .error message =>
    (.error 500 message,setConnection c { conn with
        activeTxn := if endsTxn sql then none else conn.activeTxn } s')

def finish : State V E κ := { s with
    engine := match conn.activeTxn with
      | none => s.engine
      | some tid =>
        let e := Engine.rollbackTxnEffects tid s.engine
        { e with tm := (e.tm.abort tid).1 }
    connections := s.connections.erase c }

/-- One turn of the loop of a connection; without a response the loop ends. -/
def handle : Request → Option (Response V) × State V E κ
  | .authenticate username password =>
    if sv.authenticate username password then
      (some (.authOk s.nextSession),setConnection c { conn with sessionId := some s.nextSession }
          { s with nextSession := s.nextSession+1 })
    else (some (.authFail "Invalid credentials"),s)
  | .query sql txnId =>
    match conn.sessionId with
    | none => (some (.error 401 "Not authenticated"),s)
    | some _ =>
      let r := query ev crc sv c conn sql txnId s
      (some r.1,r.2)
  | .ping => (some .pong,s)
  | .disconnect => (none,finish c conn s)

end

/-- A connection is opened, sends a request, or ends without one: by a timeout,
an error or a frame that is no request. -/
inductive Step where
  | connect
  | request (c : ConnId) (r : Request)
  | hangUp (c : ConnId)

variable (s : State V E κ)

def step : Step → Option (State V E κ)
  | .connect => some { setConnection s.nextConn ⟨none,none⟩ s with nextConn := s.nextConn+1 }
  | .request c r => (s.connections.lookup c).map (fun conn => (handle ev crc sv c conn s r).2)
  | .hangUp c => (s.connections.lookup c).map (fun conn => finish c conn s)

def reaching (c : ConnId) (sql : String) : Option (Parsed E Q O D) := do
  let conn ← s.connections.lookup c
  let _ ← conn.sessionId
  match sv.parse sql with
  | .error _ | .ok (.store _) => none
  | .ok stmt => some stmt

def executedIn (c : ConnId) (sql : String) (txnId : Option TxnId) :
    Option TxnId := do
  let conn ← s.connections.lookup c
  let _ ← reaching sv s c sql
  txnId.or conn.activeTxn

end

/-! The only message from which a connection reads a transaction is the one that
answers BEGIN, and it reads the number that BEGIN has given. -/

open List Engine

lemma whitespace_of_digit {c : Char} (h : c.isDigit = true) : isWhitespace c = false := by
  have hb : 48 ≤ c.toNat ∧ c.toNat ≤ 57 := by
    rw [Char.isDigit, Bool.and_eq_true, decide_eq_true_eq, decide_eq_true_eq] at h
    exact ⟨UInt32.le_iff_toNat_le.mp h.1,UInt32.le_iff_toNat_le.mp h.2⟩
  simp only [isWhitespace, Bool.or_eq_false_iff, Bool.and_eq_false_iff, decide_eq_false_iff_not,
    beq_eq_false_iff_ne]
  omega

lemma parseNumber_toDigits (n : ℕ) : parseNumber (Nat.toDigits 10 n) = some n := by
  have hdigits : ∀ c ∈ Nat.toDigits 10 n, c.isDigit = true :=
    fun c hc => Nat.isDigit_of_mem_toDigits (by decide) (by decide) hc
  have hplus : (Nat.toDigits 10 n).head? ≠ some '+' := by
    intro h
    have := hdigits '+' (mem_of_head? h)
    cases this
  rw [parseNumber, if_neg hplus, if_pos ⟨Nat.toDigits_ne_nil,by simpa using hdigits⟩,
    Nat.ofDigitChars_ten_toDigits]

def startMessage (id : TxnId) : String := "Transaction " ++ toString id ++ " started"

lemma startMessage_toList (id : TxnId) : (startMessage id).toList =
    "Transaction".toList++ ' '::(Nat.toDigits 10 id++ ' '::"started".toList) := by
  have hfirst : "Transaction ".toList = "Transaction".toList++[' '] := by decide
  have hlast : " started".toList = ' '::"started".toList := by decide
  calc (startMessage id).toList = "Transaction ".toList++Nat.toDigits 10 id++" started".toList := by
        rw [startMessage, String.toList_append, String.toList_append,
          Nat.toString_eq_ofList_toDigits, @String.toList_ofList (Nat.toDigits 10 id)]
    _ = "Transaction".toList++ ' '::(Nat.toDigits 10 id++ ' '::"started".toList) := by
        rw [hfirst, hlast, append_assoc, append_assoc, singleton_append]

lemma startedTxn_startMessage (id : TxnId) : startedTxn (startMessage id) = some id := by
  have hdigits : ∀ c ∈ Nat.toDigits 10 id, isWhitespace c = false := fun c hc =>
    whitespace_of_digit (Nat.isDigit_of_mem_toDigits (by decide) (by decide) hc)
  have hfirst : ∀ c ∈ "Transaction".toList, isWhitespace c = false := by simp [isWhitespace]
  have hlast : ∀ c ∈ "started".toList, isWhitespace c = false := by simp [isWhitespace]
  have hblank : isWhitespace ' ' = true := by decide +kernel
  have hsplit : (startMessage id).toList.splitOnP isWhitespace =
      ["Transaction".toList, Nat.toDigits 10 id, "started".toList] := by
    rw [startMessage_toList, splitOnP_append_cons_of_forall_mem hfirst ' ' hblank,
      splitOnP_append_cons_of_forall_mem hdigits ' ' hblank,
      splitOnP_eq_singleton hlast]
  have hparts : (splitWhitespace (startMessage id))[1]? = some (Nat.toDigits 10 id) := by
    rw [splitWhitespace, hsplit, filter_cons_of_pos (by decide),
      filter_cons_of_pos (by simp [Nat.toDigits_ne_nil])]
    rfl
  rw [startedTxn, hparts, Option.bind_some, parseNumber_toDigits]

lemma isStarted_startMessage (id : TxnId) : isStarted (startMessage id) = true := by
  rw [isStarted, startsWith, endsWith, startMessage, Bool.and_eq_true, isPrefixOf_iff_prefix,
    isSuffixOf_iff_suffix, String.toList_append, String.toList_append]
  exact ⟨⟨_,(append_assoc _ _ _).symm⟩,⟨_,rfl⟩⟩

variable {message : String}

structure Plain (message : String) : Prop where
  started : isStarted message = false
  commit : message ≠ "COMMIT"
  rollback : message ≠ "ROLLBACK"

def openings : List (List Char) := [['T','r'], ['C','O'], ['R','O']]

lemma plain_of_take (h : message.toList.take 2 ∉ openings) : Plain message where
  started := by
    by_contra hs
    rw [Bool.not_eq_false, isStarted, Bool.and_eq_true, startsWith, isPrefixOf_iff_prefix] at hs
    obtain ⟨rest,hrest⟩ := hs.1
    apply h
    rw [← hrest, take_append_of_le_length (by decide)]
    decide
  commit := by
    rintro rfl
    exact h (by decide)
  rollback := by
    rintro rfl
    exact h (by decide)

lemma plain_append {first : String} (hlen : 2 ≤ first.toList.length)
    (h : first.toList.take 2 ∉ openings) (rest : String) : Plain (first++rest) := by
  apply plain_of_take
  rwa [String.toList_append, take_append_of_le_length hlen]

lemma remembered_plain {V : Type} (h : Plain message)
    (activeTxn : Option TxnId) : remembered activeTxn (.ok message : Response V) = activeTxn := by
  rw [remembered, h.started, if_neg (by simp), if_neg]
  rintro (hc | hr)
  · exact h.commit hc
  · exact h.rollback hr

section
variable {V : Type}

lemma respond_ok {r : ExecutionResult V} (h : respond r = .ok message) : r = .ok message := by
  cases r with
  | rows | modified => cases h
  | ok m =>
    cases h
    rfl

lemma remembered_cases (a : Option TxnId) (resp : Response V) :
    (∃ message, resp = .ok message) ∨ remembered a resp = a := by
  cases resp with
  | ok message => exact .inl ⟨message,rfl⟩
  | authOk | authFail | resultSet | modified | error | pong => exact .inr rfl

lemma remembered_startMessage (a : Option TxnId) (id : TxnId) :
    remembered a (.ok (startMessage id) : Response V) = some id := by
  rw [remembered, if_pos (isStarted_startMessage id), startedTxn_startMessage]
  rfl

lemma remembered_commit (a : Option TxnId) : remembered a (.ok "COMMIT" : Response V) = none := by
  have hno : isStarted "COMMIT" = false := by decide
  rw [remembered, hno, if_neg (by simp), if_pos (.inl rfl)]

lemma remembered_rollback (a : Option TxnId) :
    remembered a (.ok "ROLLBACK" : Response V) = none := by
  have hno : isStarted "ROLLBACK" = false := by decide
  rw [remembered, hno, if_neg (by simp), if_pos (.inr rfl)]

end

section
variable {σ V E Q O D κ : Type}

def Answers (P : String → Prop) (m : Command σ QueryError (ExecutionResult V)) : Prop :=
  ∀ s s' message, m s = (.ok (.ok message),s') → P message

section
variable {P : String → Prop}

lemma answers_bind {α : Type} {m : Command σ QueryError α}
    {f : α → Command σ QueryError (ExecutionResult V)} (h : ∀ a, Answers P (f a)) :
    Answers P (m >>= f) := by
  intro s s' message hs
  cases hm : m s with
  | mk r s1 =>
    cases r with
    | error e =>
      rw [bind_error hm] at hs
      cases hs
    | ok a =>
      rw [bind_ok hm] at hs
      exact h a s1 s' message hs

lemma answers_fail (e : QueryError) :
    Answers P (fail e : Command σ QueryError (ExecutionResult V)) := by
  nofun

lemma answers_rows (columns : List String) (rows : List (List V)) :
    Answers P (pure (.rows columns rows) : Command σ QueryError (ExecutionResult V)) := by
  nofun

lemma answers_modified (count : ℕ) :
    Answers P (pure (.modified count) : Command σ QueryError (ExecutionResult V)) := by
  nofun

lemma answers_ok (h : P message) :
    Answers P (pure (.ok message) : Command σ QueryError (ExecutionResult V)) := by
  intro s s' message' hs
  cases hs
  exact h

lemma answers_raisePending {m : Exec V E (ExecutionResult V)} (h : Answers P m) :
    Answers P (raisePending m) := by
  intro s s' message hs
  rw [raisePending] at hs
  cases hm : m { s with pendingSubqueryError := none } with
  | mk r s1 =>
    rw [hm] at hs
    cases r with
    | error e => cases hs
    | ok r =>
      dsimp only at hs
      cases hp : s1.pendingSubqueryError with
      | some text =>
        rw [hp] at hs
        cases hs
      | none =>
        rw [hp] at hs
        cases hs
        exact h _ _ _ hm

end

variable [Codec V] {ev : Evaluator V E Q} {crc : Bytes → UInt32}

omit [Codec V] in
lemma answers_finish (txnId : Option TxnId) (schema : Schema V) (rows : List (List V))
    (returning : Option (Returning E)) :
    Answers Plain (Engine.finish ev txnId schema rows returning) := by
  cases returning with
  | none => exact answers_modified _
  | some r =>
    cases r with
    | star => exact answers_rows _ _
    | columns cols => exact answers_bind (fun _ => answers_rows _ _)

lemma answers_execDml (txnId : Option TxnId) (stmt : Dml E Q) :
    Answers Plain (execDml ev crc txnId stmt) := by
  cases stmt with
  | insert | update =>
    exact answers_bind (fun _ => answers_bind (fun _ => answers_bind (fun _ =>
      answers_finish _ _ _ _)))
  | delete stmt =>
    exact answers_bind (fun _ => answers_bind (fun _ => answers_bind (fun _ =>
      answers_bind (fun _ => answers_bind (fun _ => answers_finish _ _ _ _)))))

lemma plain_alterMessage (action : AlterTableAction E) : Plain (alterMessage action) := by
  cases action with
  | addColumn | dropColumn =>
    rw [alterMessage, String.append_assoc]
    exact plain_append (by decide) (by decide) _
  | renameColumn oldName newName =>
    rw [alterMessage, String.append_assoc, String.append_assoc, String.append_assoc]
    exact plain_append (by decide) (by decide) _

lemma answers_execDdl (stmt : Ddl E) : Answers Plain (execDdl ev crc stmt : Exec V E _) := by
  have hends : ∀ {first name last : String}, 2 ≤ first.toList.length →
      first.toList.take 2 ∉ openings → Plain (first++name++last) := by
    intro first name last hlen h
    rw [String.append_assoc]
    exact plain_append hlen h _
  cases stmt with
  | createTable ct =>
    exact answers_bind (fun _ => answers_bind (fun _ =>
      answers_ok (hends (by decide) (by decide))))
  | dropTable name ifExists =>
    intro s s' message hs
    rw [execDdl, execDropTable] at hs
    split at hs
    · cases hs
      exact hends (by decide) (by decide)
    split at hs
    · cases hs
      exact plain_of_take (by decide)
    · cases hs
  | truncate name =>
    exact answers_bind (fun _ => answers_bind (fun _ => answers_ok (plain_of_take (by decide))))
  | alterTable table action =>
    intro s s' message hs
    rw [execDdl, execAlterTable] at hs
    split at hs
    · cases hs
    split at hs
    · cases hs
    · cases hs
      exact plain_alterMessage action
  | createIndex ci =>
    intro s s' message hs
    rw [execDdl, execCreateIndex] at hs
    split at hs
    · cases hs
    split at hs
    · cases hs
    · cases hs
      rw [String.append_assoc, String.append_assoc]
      exact plain_append (by decide) (by decide) _
  | dropIndex name =>
    intro s s' message hs
    rw [execDdl, execDropIndex] at hs
    split at hs
    · cases hs
      exact hends (by decide) (by decide)
    · cases hs
      exact hends (by decide) (by decide)
  | createDatabase name ifNotExists =>
    intro s s' message hs
    rw [execDdl, execCreateDatabase] at hs
    split at hs
    · split at hs
      · cases hs
        exact hends (by decide) (by decide)
      · cases hs
    split at hs
    · cases hs
    · cases hs
      exact hends (by decide) (by decide)
  | dropDatabase name ifExists =>
    intro s s' message hs
    rw [execDdl, execDropDatabase] at hs
    split at hs
    · cases hs
    split at hs
    · split at hs
      · cases hs
        exact plain_of_take (by decide)
      · cases hs
    split at hs
    · cases hs
    · cases hs
      exact hends (by decide) (by decide)

lemma answers_execute {stmt : Statement E Q} (hstmt : Engine.Inner stmt) (txnId : Option TxnId) :
    Answers Plain (execute ev crc stmt txnId) := by
  apply answers_raisePending
  cases stmt with
  | begin | commit | rollback => exact hstmt.elim
  | useDatabase name =>
    refine answers_bind (fun known => ?_)
    cases known with
    | false => exact answers_fail _
    | true => exact answers_bind (fun _ => answers_ok (plain_append (by decide) (by decide) _))
  | query q => exact answers_bind (fun _ => answers_bind (fun _ => answers_rows _ _))
  | dml stmt =>
    intro s s' message hs
    rw [dispatch, settleDeltas] at hs
    cases hm : execDml ev crc txnId stmt s with
    | mk r s1 =>
      rw [hm] at hs
      cases r with
      | error e => cases hs
      | ok r =>
        cases hs
        exact answers_execDml txnId stmt _ _ _ hm
  | ddl stmt => exact answers_execDdl stmt

lemma answers_commit (txnId : Option TxnId) :
    Answers (· = "COMMIT") (execute ev crc (.commit : Statement E Q) txnId) := by
  apply answers_raisePending
  cases txnId with
  | none => exact answers_fail _
  | some tid =>
    intro s s' message hs
    rw [dispatch, execCommit] at hs
    dsimp only at hs
    split at hs
    · cases hs
      rfl
    · cases hs

lemma answers_rollback (txnId : Option TxnId) :
    Answers (· = "ROLLBACK") (execute ev crc (.rollback : Statement E Q) txnId) := by
  apply answers_raisePending
  cases txnId with
  | none => exact answers_fail _
  | some tid =>
    intro s s' message hs
    rw [dispatch, execRollback] at hs
    dsimp only at hs
    split at hs
    · cases hs
      rfl
    · cases hs

/-- What is known of the statements that are not followed. -/
structure Services.Apart (sv : Services V E Q O D κ) : Prop where
  answers : ∀ o txnId, Answers Plain (sv.other o txnId)
  manager : ∀ o txnId e, ∃ ssi, (sv.other o txnId e).2.tm = { e.tm with ssi := ssi }

variable {sv : Services V E Q O D κ}

omit [Codec V] in
lemma answers_execSetOp (op : SetOp) (all : Bool) (l r : Exec V E (ExecutionResult V)) :
    Answers Plain (execSetOp sv op all l r) := by
  refine answers_bind (fun l => answers_bind (fun r => ?_))
  split
  · exact answers_rows _ _
  · exact answers_fail _

omit [Codec V] in
lemma answers_execExplain (stmt : Parsed E Q O D) (analyze : Bool)
    (run : Exec V E (ExecutionResult V)) : Answers Plain (execExplain sv stmt analyze run) := by
  rw [execExplain]
  split
  · refine answers_bind (fun lines => ?_)
    split
    · exact answers_bind (fun _ => answers_rows _ _)
    · exact answers_rows _ _
  · exact answers_fail _

lemma answers_executeStmt (hsv : sv.Apart) {stmt : Parsed E Q O D}
    (hstmt : ∀ st, stmt = .statement st → Engine.Inner st) (txnId : Option TxnId) :
    Answers Plain (executeStmt ev crc sv stmt txnId) := by
  cases stmt with
  | statement st => exact answers_execute (hstmt st rfl) txnId
  | setOp op all l r => exact answers_raisePending (answers_execSetOp _ _ _ _)
  | explain inner analyze => exact answers_raisePending (answers_execExplain _ _ _)
  | other o => exact answers_raisePending (hsv.answers o txnId)
  | store st => cases st <;> exact answers_fail _

omit [Codec V] in
lemma plain_runStore {stmt : StoreStmt D} {k k' : κ}
    (h : runStore sv stmt k = (.ok (.ok message),k')) : Plain message := by
  cases stmt with
  | kvGet key =>
    rw [runStore] at h
    split at h <;> cases h
  | kvSet key value =>
    rw [runStore] at h
    split at h
    · cases h
    · cases h
      exact plain_of_take (by decide)
  | kvDelete | kvScan =>
    rw [runStore] at h
    split at h <;> cases h
  | docInsert collection document =>
    rw [runStore] at h
    split at h
    · cases h
    · cases h
      exact plain_append (by decide) (by decide) _
  | docFind collection =>
    rw [runStore] at h
    split at h <;> cases h
  | docUpdate | docDelete =>
    cases h
    exact plain_of_take (by decide)

end

end Server

end ByteDB
