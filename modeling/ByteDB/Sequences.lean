import ByteDB.Runs

/-!
# Sequences

The counter of a sequence is an atomic integer. `next` is one step. `observe`
reads the counter and tries to replace what it has read, until it has done so
or the counter is beyond the observed value.
-/

set_option autoImplicit false

namespace ByteDB.Sequence
open List Function

variable {ι : Type} [DecidableEq ι]

inductive Entry where
  | next (value : Int64)
  | observe (value : Int64)
  deriving DecidableEq, Repr

def Entry.value : Entry → Int64
  | .next value | .observe value => value

/-- A thread in `observe` has its value and what it has read last. The calls
that have returned are listed with the last one first. -/
structure State (ι : Type) where
  counter : Int64
  observing : ι → Option (Int64 × Int64)
  log : List Entry

def new (start : Int64) : State ι where
  counter := start
  observing := fun _ => none
  log := []

inductive Action (ι : Type) where
  | next (who : ι)
  | observe (who : ι) (value : Int64)
  | exchange (who : ι)

def State.leave (who : ι) (value : Int64) (s : State ι) : State ι :=
  { s with observing := update s.observing who none, log := .observe value::s.log }

def State.test (who : ι) (value current : Int64) (s : State ι) : State ι :=
  if current ≤ value then
    { s with observing := update s.observing who (some (value,current)) }
  else s.leave who value

def step (s : State ι) : Action ι → Option (State ι)
  | .next who =>
    if s.observing who = none then
      some { s with counter := s.counter+1, log := .next s.counter::s.log }
    else none
  | .observe who value =>
    if s.observing who = none then some (s.test who value s.counter) else none
  | .exchange who => do
    let (value,current) ← s.observing who
    if s.counter = current then some ({ s with counter := value+1 }.leave who value)
    else some (s.test who value s.counter)

def Below (s : State ι) : Action ι → Prop
  | .observe _ value => s.counter < Int64.maxValue ∧ value < Int64.maxValue
  | _ => s.counter < Int64.maxValue

def Waits (o : Option (Int64 × Int64)) : Prop := ∀ p ∈ o, p.2 ≤ p.1 ∧ p.1 < Int64.maxValue

structure Inv (s : State ι) : Prop where
  bounded : ∀ e ∈ s.log, e.value < s.counter
  ordered : s.log.Pairwise (fun e old => ∀ v, e = .next v → old.value < v)
  observing : ∀ who, Waits (s.observing who)

lemma lt_add_one {n : Int64} (h : n < Int64.maxValue) : n < n+1 := by
  rw [Int64.lt_iff_toInt_lt] at h ⊢
  have hmax : Int64.maxValue.toInt = 2^63-1 := rfl
  have hlow := n.le_toInt
  rw [Int64.toInt_add, show (1 : Int64).toInt = 1 from rfl, Int.bmod_eq_of_le (by omega) (by omega)]
  omega

variable {s s' : State ι}

lemma Inv.leave (h : Inv s) (who : ι) {value : Int64} (hvalue : value < s.counter) :
    Inv (s.leave who value) where
  bounded := forall_mem_cons.mpr ⟨hvalue,h.bounded⟩
  ordered := pairwise_cons.mpr ⟨nofun,h.ordered⟩
  observing := (forall_update_iff _ (fun _ => Waits)).mpr ⟨nofun,fun w _ => h.observing w⟩

lemma Inv.test (h : Inv s) (who : ι) {value : Int64} (hvalue : value < Int64.maxValue) :
    Inv (s.test who value s.counter) := by
  rw [State.test]
  split
  · refine ⟨h.bounded,h.ordered,(forall_update_iff _ (fun _ => Waits)).mpr
      ⟨?_,fun w _ => h.observing w⟩⟩
    rintro p ⟨⟩
    exact ⟨‹_›,hvalue⟩
  · exact h.leave who (Int64.not_le.mp ‹_›)

lemma step_inv {a : Action ι} (h : Inv s) (ha : Below s a) (hs : step s a = some s') : Inv s' := by
  cases a with
  | next who =>
    obtain ⟨-,⟨⟩⟩ := Option.ite_none_right_eq_some.mp hs
    have hlt := lt_add_one ha
    refine ⟨forall_mem_cons.mpr ⟨hlt,fun e he => Int64.lt_trans (h.bounded e he) hlt⟩,
      pairwise_cons.mpr ⟨?_,h.ordered⟩,h.observing⟩
    rintro old hold v ⟨⟩
    exact h.bounded old hold
  | observe who value =>
    obtain ⟨-,⟨⟩⟩ := Option.ite_none_right_eq_some.mp hs
    exact h.test who ha.2
  | exchange who =>
    obtain ⟨⟨value,current⟩,hwho,hs⟩ := Option.bind_eq_some_iff.mp hs
    obtain ⟨hle,hvalue⟩ := h.observing who _ hwho
    dsimp only at hs hle hvalue
    split at hs
    · rename_i heq
      cases hs
      have hlt := lt_add_one hvalue
      refine Inv.leave (s := { s with counter := value+1 }) ⟨fun e he => ?_,h.ordered,
        h.observing⟩ who hlt
      have hold := h.bounded e he
      rw [heq] at hold
      exact Int64.lt_trans (Int64.lt_of_lt_of_le hold hle) hlt
    · cases hs
      exact h.test who hvalue

/-- The values of `next` are distinct, and beyond what was observed before. -/
theorem next_values_ordered (start : Int64) (h : Runs.Reaches step Below (new start) s) :
    s.log.Pairwise (fun e old => ∀ v w, e = .next v → old = .next w → v ≠ w) ∧
      ∀ later earlier v w, s.log = later++.observe v::earlier → .next w ∈ later → v < w := by
  have hinv : Inv s :=
    h.invariant ⟨nofun,Pairwise.nil,nofun⟩ (fun _ _ _ h ha hs => step_inv h ha hs)
  refine ⟨hinv.ordered.imp ?_,fun later earlier v w hlog hw => ?_⟩
  · rintro _ _ h v w rfl rfl
    exact (Int64.ne_of_lt (h v rfl)).symm
  · have hord := hinv.ordered
    rw [hlog, pairwise_append] at hord
    exact hord.2.2 _ hw _ (mem_cons_self ..) w rfl

/-- Two threads observe values, and the exchange of the second one fails at
first. -/
def twoThreads : List (Action Bool) :=
  [.next true, .observe true 5, .observe false 7, .exchange true, .exchange false,
    .exchange false, .next true]

instance (s : State Bool) : (a : Action Bool) → Decidable (Below s a)
  | .observe _ _ => inferInstanceAs (Decidable (_ ∧ _))
  | .next _ | .exchange _ => inferInstanceAs (Decidable (_ < _))

theorem two_threads_ordered : ∃ s : State Bool,
    s.log = [.next 8, .observe 7, .observe 5, .next 1] ∧
      ∀ later earlier v w, s.log = later++.observe v::earlier → .next w ∈ later → v < w := by
  obtain ⟨s,hs,hlog⟩ : ∃ s, Runs.run (fun s a => if decide (Below s a) then step s a else none)
      (new 1) twoThreads = some s ∧ s.log = [.next 8, .observe 7, .observe 5, .next 1] :=
    ⟨_,rfl,rfl⟩
  have hreach : Runs.Reaches step Below (new 1) s := Runs.Reaches.init.of_run (by simp) hs
  exact ⟨s,hlog,(next_values_ordered 1 hreach).2⟩

end ByteDB.Sequence
