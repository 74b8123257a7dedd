import Mathlib

/-!
# Commands with a state and errors

A command changes a state and returns a value or an error; an error does not
undo what the command has done before it. `Triple` says what holds after a
command, and after a command that failed.
-/

set_option autoImplicit false

namespace ByteDB

def Command (σ ε α : Type) : Type := σ → Except ε α × σ

namespace Command
variable {σ ε α β : Type} {m : Command σ ε α} {f : α → Command σ ε β}

instance : Monad (Command σ ε) where
  pure a := fun s => (.ok a,s)
  bind m f := fun s =>
    match m s with
    | (.ok a,s') => f a s'
    | (.error e,s') => (.error e,s')

def fail (e : ε) : Command σ ε α := fun s => (.error e,s)

def get (f : σ → α) : Command σ ε α := fun s => (.ok (f s),s)

def check (f : σ → Except ε α) : Command σ ε α := fun s => (f s,s)

def modify (f : σ → σ) : Command σ ε Unit := fun s => (.ok (),f s)

def loop (body : β → α → Command σ ε β) : β → List α → Command σ ε β
  | b, [] => pure b
  | b, a::as => do
    let b ← body b a
    loop body b as

/-- From a state with `P` the command leads to `Q` with its value, or fails
with `F`. -/
def Triple (P : σ → Prop) (m : Command σ ε α) (Q : α → σ → Prop) (F : σ → Prop) : Prop :=
  ∀ s, P s → match m s with
    | (.ok a,s') => Q a s'
    | (.error _,s') => F s'

/-- The command keeps `P`, also when it fails. -/
def Stays (P : σ → Prop) (m : Command σ ε α) : Prop := Triple P m (fun _ => P) P

variable (m)

/-- If the command succeeds from the state, it does so with `Q`. -/
def After (Q : α → σ → Prop) (s : σ) : Prop :=
  match m s with
  | (.ok a,s') => Q a s'
  | (.error _,_) => True

def Fails (s : σ) : Prop := ∃ e s', m s = (.error e,s')

def Total : Prop := ∀ s, ¬Fails m s

variable {body : β → α → Command σ ε β} {m}

section
variable {P P' F F' : σ → Prop} {Q Q' : α → σ → Prop} {R : β → σ → Prop}

lemma Triple.weaken (h : Triple P m Q F) (hP : ∀ s, P' s → P s) (hQ : ∀ a s, Q a s → Q' a s)
    (hF : ∀ s, F s → F' s) : Triple P' m Q' F' := by
  intro s hs
  have := h s (hP s hs)
  cases hm : m s with
  | mk r s' =>
    rw [hm] at this
    cases r with
    | ok a => exact hQ a s' this
    | error e => exact hF s' this

lemma Triple.pre (h : Triple P m Q F) (hP : ∀ s, P' s → P s) : Triple P' m Q F :=
  fun s hs => h s (hP s hs)

lemma Triple.post (h : Triple P m Q F) (hQ : ∀ a s, Q a s → Q' a s) : Triple P m Q' F :=
  h.weaken (fun _ hs => hs) hQ (fun _ hs => hs)

lemma Triple.fail (h : Triple P m Q F) (hF : ∀ s, F s → F' s) : Triple P m Q F' :=
  h.weaken (fun _ hs => hs) (fun _ _ hs => hs) hF

lemma triple_pure (a : α) (h : ∀ s, P s → Q a s) : Triple P (pure a : Command σ ε α) Q F :=
  fun s hs => h s hs

lemma bind_ok {s s' : σ} {a : α} (h : m s = (.ok a,s')) : (m >>= f) s = f a s' := by
  show (match m s with
    | (.ok a,s') => f a s'
    | (.error e,s') => (.error e,s')) = _
  rw [h]

lemma bind_error {s s' : σ} {e : ε} (h : m s = (.error e,s')) : (m >>= f) s = (.error e,s') := by
  show (match m s with
    | (.ok a,s') => f a s'
    | (.error e,s') => (.error e,s')) = _
  rw [h]

lemma triple_bind (hm : Triple P m Q F) (hf : ∀ a, Triple (Q a) (f a) R F) :
    Triple P (m >>= f) R F := by
  intro s hs
  have h := hm s hs
  cases hms : m s with
  | mk r s' =>
    rw [hms] at h
    cases r with
    | ok a =>
      rw [bind_ok hms]
      exact hf a s' h
    | error e =>
      rw [bind_error hms]
      exact h

lemma triple_fact {r : α → Prop} (hm : Triple P m (fun a s => P s ∧ r a) F)
    (hf : ∀ a, r a → Triple P (f a) R F) : Triple P (m >>= f) R F :=
  triple_bind hm (fun a s hs => hf a hs.2 s hs.1)

lemma triple_fail (e : ε) (h : ∀ s, P s → F s) : Triple P (fail e : Command σ ε α) Q F :=
  fun s hs => h s hs

lemma triple_get (g : σ → α) (h : ∀ s, P s → Q (g s) s) : Triple P (get g : Command σ ε α) Q F :=
  fun s hs => h s hs

lemma triple_check (g : σ → Except ε α) (h : ∀ s a, P s → g s = .ok a → Q a s)
    (hF : ∀ s, P s → F s) : Triple P (check g) Q F := by
  intro s hs
  rw [check]
  cases hg : g s with
  | ok a => exact h s a hs hg
  | error e => exact hF s hs

lemma triple_modify (g : σ → σ) {Q : Unit → σ → Prop} (h : ∀ s, P s → Q () (g s)) :
    Triple P (modify g : Command σ ε Unit) Q F :=
  fun s hs => h s hs

lemma triple_loop {I : β → σ → Prop} (as : List α)
    (h : ∀ a ∈ as, ∀ b, Triple (I b) (body b a) I F) (b : β) :
    Triple (I b) (loop body b as) I F := by
  induction as generalizing b with
  | nil => exact triple_pure b (fun s hs => hs)
  | cons a as ih =>
    exact triple_bind (h a (by simp) b) (fun b' => ih (fun a' ha' => h a' (by simp [ha'])) b')

/-- A loop whose invariant speaks of the elements that it has gone through. -/
lemma triple_loop_done {I : List α → β → σ → Prop} (as : List α)
    (h : ∀ done a rest b, as = done++a::rest →
      Triple (I done b) (body b a) (I (done++[a])) F) (b : β) :
    Triple (I [] b) (loop body b as) (I as) F := by
  suffices hrest : ∀ done rest b, as = done++rest → Triple (I done b) (loop body b rest) (I as) F
    from hrest [] as b rfl
  intro done rest b hsplit
  induction rest generalizing done b with
  | nil =>
    rw [List.append_nil] at hsplit
    rw [hsplit]
    exact triple_pure b (fun s hs => hs)
  | cons a rest ih =>
    exact triple_bind (h done a rest b hsplit) (fun b' => ih (done++[a]) b' (by simp [hsplit]))

/-- A loop whose invariant speaks of the elements that it has still to go through. -/
lemma triple_loop_rest {I : List α → β → σ → Prop} (as : List α)
    (h : ∀ a rest b, a::rest <:+ as → Triple (I (a::rest) b) (body b a) (I rest) F) (b : β) :
    Triple (I as b) (loop body b as) (I []) F := by
  induction as generalizing b with
  | nil => exact triple_pure b (fun s hs => hs)
  | cons a as ih =>
    refine triple_bind (h a as b List.suffix_rfl) (fun b' => ih (fun a' rest b'' hsuffix => ?_) b')
    exact h a' rest b'' (hsuffix.trans (List.suffix_cons a as))

lemma stays_pure (a : α) : Stays P (pure a : Command σ ε α) := triple_pure a (fun _ h => h)

lemma stays_bind (hm : Stays P m) (hf : ∀ a, Stays P (f a)) : Stays P (m >>= f) := triple_bind hm hf

lemma stays_fail (e : ε) : Stays P (fail e : Command σ ε α) := triple_fail e (fun _ h => h)

lemma stays_get (g : σ → α) : Stays P (get g : Command σ ε α) := triple_get g (fun _ h => h)

lemma stays_check (g : σ → Except ε α) : Stays P (check g) :=
  triple_check g (fun _ _ h _ => h) (fun _ h => h)

lemma stays_modify (g : σ → σ) (h : ∀ s, P s → P (g s)) : Stays P (modify g : Command σ ε Unit) :=
  triple_modify g h

lemma stays_loop (as : List α)
    (h : ∀ a ∈ as, ∀ b, Stays P (body b a)) (b : β) : Stays P (loop body b as) :=
  triple_loop as h b

variable {s : σ}

lemma Triple.state (h : Triple P m (fun _ => P') P') (hs : P s) : P' (m s).2 := by
  have := h s hs
  cases hm : m s with
  | mk r s' =>
    rw [hm] at this
    cases r with
    | ok | error => exact this

lemma Stays.state (h : Stays P m) (hs : P s) : P (m s).2 := Triple.state h hs

lemma Stays.of_state (h : ∀ s, P s → P (m s).2) : Stays P m := by
  intro s hs
  have := h s hs
  cases hm : m s with
  | mk r s' =>
    rw [hm] at this
    cases r with
    | ok | error => exact this

lemma Triple.and (h : Triple P m Q F) (h' : Triple P m Q' F') :
    Triple P m (fun a s => Q a s ∧ Q' a s) (fun s => F s ∧ F' s) := by
  intro s hs
  have hm := h s hs
  have hm' := h' s hs
  cases hms : m s with
  | mk r s' =>
    rw [hms] at hm hm'
    cases r with
    | ok | error => exact ⟨hm,hm'⟩

lemma bind_after (hm : P (m s).2) (hafter : After m Q s)
    (hf : ∀ a s, P s → Q a s → P (f a s).2) : P ((m >>= f) s).2 := by
  rw [After] at hafter
  cases hms : m s with
  | mk r s' =>
    rw [hms] at hm hafter
    cases r with
    | ok a =>
      rw [bind_ok hms]
      exact hf a s' hm hafter
    | error e =>
      rw [bind_error hms]
      exact hm

end

section
variable {s s' : σ} {a : α}

lemma fails_or (m : Command σ ε α) (s : σ) : Fails m s ∨ ∃ a s', m s = (.ok a,s') := by
  cases h : m s with
  | mk r s' =>
    cases r with
    | ok a => exact .inr ⟨a,s',rfl⟩
    | error e => exact .inl ⟨e,s',h⟩

lemma fails_of_ok (h : m s = (.ok a,s')) : ¬Fails m s := by
  rintro ⟨e,s'',he⟩
  cases h.symm.trans he

lemma fails_bind_ok (h : m s = (.ok a,s')) : Fails (m >>= f) s ↔ Fails (f a) s' := by
  rw [Fails, bind_ok h]
  rfl

lemma fails_bind_error (h : Fails m s) : Fails (m >>= f) s := by
  obtain ⟨e,s',he⟩ := h
  exact ⟨e,s',bind_error he⟩

lemma fails_check (g : σ → Except ε α) : Fails (check g) s ↔ ∃ e, g s = .error e := by
  constructor
  · rintro ⟨e,s',h⟩
    exact ⟨e,congrArg Prod.fst h⟩
  · rintro ⟨e,h⟩
    exact ⟨e,s,congrArg (·,s) h⟩

lemma total_pure (a : α) : Total (pure a : Command σ ε α) := fun _ => fails_of_ok rfl

lemma total_modify (g : σ → σ) : Total (modify g : Command σ ε Unit) := fun _ => fails_of_ok rfl

lemma fails_bind_total (h : ∀ a, Total (f a)) : Fails (m >>= f) s ↔ Fails m s := by
  refine ⟨fun hfail => ?_,fails_bind_error⟩
  obtain hm | ⟨a,s',hok⟩ := fails_or m s
  · exact hm
  · rw [fails_bind_ok hok] at hfail
    exact absurd hfail (h a s')

lemma total_bind (hm : Total m) (hf : ∀ a, Total (f a)) : Total (m >>= f) := by
  intro s
  rw [fails_bind_total hf]
  exact hm s

lemma total_loop (h : ∀ b a, Total (body b a)) (b : β) (as : List α) : Total (loop body b as) := by
  induction as generalizing b with
  | nil => exact total_pure b
  | cons a as ih => exact total_bind (h b a) ih

end

end Command

end ByteDB
