import ByteDB.Value

/-!
# LIKE

The matcher walks over the text and the pattern at once and keeps only the last
`%` to come back to. It takes a `%` of the pattern for itself where the text has
one too, so that it is complete for texts without `%`.
-/

set_option autoImplicit false

namespace ByteDB.Like
open List
variable {α : Type} [DecidableEq α]

section
variable (one many : α)

def Behind (s p : List α) (star : Option (List α × List α)) : Prop :=
  ∀ st ∈ star, p.length ≤ st.1.length ∧ s.length ≤ st.2.length

/-- `like_match_inner`, and `like_match_ascii` over bytes; positions are the
rests of the text and of the pattern. -/
def likeLoop (s p : List α) (star : Option (List α × List α)) (h : Behind s p star) : Bool :=
  match hs : s with
  | [] => p.all (fun d => d = many)
  | c::t =>
    if p.head?.any (fun d => d = one ∨ d = c) then
      likeLoop t p.tail star (fun st hst => by
        have hlen := h st hst
        rw [length_cons] at hlen
        rw [length_tail]
        omega)
    else if hd : p.head? = some many then
      likeLoop (c::t) p.tail (some (p.tail,c::t)) (fun st hst => by
        cases hst
        exact ⟨le_refl _,le_refl _⟩)
    else
      match hstar : star with
      | some (sp,ss) =>
        likeLoop ss.tail sp (some (sp,ss.tail)) (fun st hst => by
          cases hst
          exact ⟨le_refl _,le_refl _⟩)
      | none => false
  termination_by ((star.elim (p.length+1) (fun st => st.1.length)),
    (star.elim 0 (fun st => st.2.length)),s.length+p.length)
  decreasing_by
    · cases star with
      | none =>
        cases p with
        | nil => simp_all
        | cons d p => simp [Prod.lex_def]
      | some st =>
        simp [Prod.lex_def]
        omega
    · cases p with
      | nil => simp at hd
      | cons d p =>
        cases star with
        | none => simp [Prod.lex_def]
        | some st =>
          have hlen := (h st rfl).1
          rw [length_cons] at hlen
          simp [Prod.lex_def]
          omega
    · have hlen := (h (sp,ss) rfl).2
      simp [Prod.lex_def] at hlen ⊢
      omega

omit [DecidableEq α] in
lemma behind_none (s p : List α) : Behind s p none := fun _ h => nomatch h

end

variable {p s t : List α}

section
variable (one many : α)

def Piece (d : α) (w : List α) : Prop :=
  if d = many then True else if d = one then ∃ c, w = [c] else w = [d]

/-- The text falls into pieces, one for each element of the pattern. -/
def Matches (p s : List α) : Prop :=
  ∃ pieces : List (List α), pieces.flatten = s ∧ List.Forall₂ (Piece one many) p pieces

variable {one many}

lemma matches_nil (s : List α) : Matches one many [] s ↔ s = [] := by
  constructor
  · rintro ⟨pieces,rfl,h⟩
    cases h
    rfl
  · rintro rfl
    exact ⟨[],rfl,.nil⟩

lemma matches_many (p s : List α) :
    Matches one many (many::p) s ↔ ∃ t, t <:+ s ∧ Matches one many p t := by
  constructor
  · rintro ⟨pieces,rfl,h⟩
    obtain ⟨w,ws,-,hws,rfl⟩ := forall₂_cons_left_iff.mp h
    exact ⟨ws.flatten,⟨w,rfl⟩,ws,rfl,hws⟩
  · rintro ⟨-,⟨w,rfl⟩,ws,rfl,hws⟩
    exact ⟨w::ws,rfl,.cons (by simp [Piece]) hws⟩

lemma matches_cons {d : α} (hd : d ≠ many) (p s : List α) : Matches one many (d::p) s ↔
      ∃ c t, s = c::t ∧ (d = one ∨ d = c) ∧ Matches one many p t := by
  constructor
  · rintro ⟨pieces,rfl,h⟩
    obtain ⟨w,ws,hw,hws,rfl⟩ := forall₂_cons_left_iff.mp h
    rw [Piece, if_neg hd] at hw
    by_cases hone : d = one
    · rw [if_pos hone] at hw
      obtain ⟨c,rfl⟩ := hw
      exact ⟨c,ws.flatten,rfl,.inl hone,ws,rfl,hws⟩
    · rw [if_neg hone] at hw
      subst hw
      exact ⟨d,ws.flatten,rfl,.inr rfl,ws,rfl,hws⟩
  · rintro ⟨c,-,rfl,hc,ws,rfl,hws⟩
    refine ⟨[c]::ws,rfl,.cons ?_ hws⟩
    rw [Piece, if_neg hd]
    by_cases hone : d = one
    · rw [if_pos hone]
      exact ⟨c,rfl⟩
    · rw [if_neg hone, hc.resolve_left hone]

lemma matches_many_mono (hst : s <:+ t) (h : Matches one many (many::p) s) :
    Matches one many (many::p) t := by
  obtain ⟨u,hu,hp⟩ := (matches_many p s).mp h
  exact (matches_many p t).mpr ⟨u,hu.trans hst,hp⟩

lemma matches_all (p : List α) : Matches one many p [] ↔ p.all (fun d => d = many) = true := by
  induction p with
  | nil => simp [matches_nil]
  | cons d p ih =>
    by_cases hd : d = many
    · subst hd
      simp [matches_many, ih]
    · simp [matches_cons hd, hd]

lemma matches_append {q p s : List α} (hq : many ∉ q) (h : Matches one many (q++p) s) :
    q.length ≤ s.length ∧ Matches one many p (s.drop q.length) := by
  induction q generalizing s with
  | nil => exact ⟨Nat.zero_le _,h⟩
  | cons d q ih =>
    rw [mem_cons, not_or] at hq
    obtain ⟨c,t,rfl,-,ht⟩ := (matches_cons (Ne.symm hq.1) (q++p) s).mp h
    obtain ⟨hlen,hp⟩ := ih hq.2 ht
    exact ⟨Nat.succ_le_succ hlen,hp⟩

end

section
variable {one many : α}

/-- Since the last `%` the walk has gone over as many elements of the pattern,
none of them a `%`, as of the text. -/
def Aligned (many : α) (s p : List α) (star : Option (List α × List α)) : Prop :=
  ∀ st ∈ star, ∃ q w, st.1 = q++p ∧ st.2 = w++s ∧ q.length = w.length ∧ many ∉ q

omit [DecidableEq α] in
lemma aligned_star (s p : List α) : Aligned many s p (some (p,s)) := by
  intro st hst
  cases hst
  exact ⟨[],[],rfl,rfl,rfl,not_mem_nil⟩

/-- The rest matches, or the pattern behind the last `%` matches further on. -/
def Hope (one many : α) (s p : List α) (star : Option (List α × List α)) : Prop :=
  Matches one many p s ∨ ∃ st ∈ star, ∃ t, t <:+ st.2.tail ∧ Matches one many st.1 t

lemma hope_many {star : Option (List α × List α)}
    (hal : Aligned many s (many::p) star) (h : Hope one many s (many::p) star) :
    Matches one many (many::p) s := by
  rcases h with h | ⟨st,hst,t,ht,h⟩
  · exact h
  obtain ⟨q,w,hq,hw,hlen,hmany⟩ := hal st hst
  rw [hq] at h
  refine matches_many_mono ?_ (matches_append hmany h).2
  have hdrop : t.drop q.length <:+ st.2.drop q.length := by
    obtain ⟨u,hu⟩ := ht.trans (tail_suffix st.2)
    have heq : t = st.2.drop u.length := by rw [← hu, drop_left]
    rw [heq, drop_drop, Nat.add_comm, ← drop_drop]
    exact drop_suffix ..
  rwa [hw, hlen, drop_left, ← hlen] at hdrop

/-- Nowhere may a `%` of the text meet one of the pattern. -/
def Apart (many : α) (s p : List α) (star : Option (List α × List α)) : Prop :=
  many ∉ s ∧ (∀ st ∈ star, many ∉ st.2) ∨ many ∉ p ∧ star = none

omit [DecidableEq α] in
lemma suffix_iff : t <:+ s ↔ t = s ∨ t <:+ s.tail := by
  cases s with
  | nil => simp
  | cons c s => exact suffix_cons_iff

lemma not_matches {c : α}
    (hc : ¬ p.head?.any (fun d => d = one ∨ d = c) = true) (hd : p.head? ≠ some many) :
    ¬ Matches one many p (c::t) := by
  cases p with
  | nil => simp [matches_nil]
  | cons d p =>
    have hne : d ≠ many := by simpa using hd
    simp at hc
    simp [matches_cons hne, hc]

lemma likeLoop_iff (hone : one ≠ many) (s p : List α) (star : Option (List α × List α))
    (h : Behind s p star) (hal : Aligned many s p star) (hap : Apart many s p star) :
    likeLoop one many s p star h = true ↔ Hope one many s p star := by
  fun_induction likeLoop one many s p star h with
  | case1 p star h =>
    have hall : Matches one many p [] ↔ _ := matches_all p
    rw [← hall]
    refine ⟨.inl,fun hope => hope.elim id ?_⟩
    rintro ⟨st,hst,t,ht,hm⟩
    obtain ⟨q,w,hq,hw,hlen,hmany⟩ := hal st hst
    rw [hq] at hm
    have hle := (matches_append hmany hm).1
    have hshort := ht.length_le
    rw [hw, append_nil] at ht
    -- A later start leaves too little of the text, unless there was none.
    cases w with
    | nil =>
      cases length_eq_zero_iff.mp hlen
      cases suffix_nil.mp ht
      exact hm
    | cons _ w =>
      simp [hw] at hshort hlen
      omega
  | case2 p star c t h hc h' ih =>
    cases p with
    | nil => cases hc
    | cons d p =>
      have hc : d = one ∨ d = c := by simpa using hc
      have hd : d ≠ many := by
        rintro rfl
        have hcd := hc.resolve_left (Ne.symm hone)
        rcases hap with ⟨hs,-⟩ | ⟨hp,-⟩
        · exact hs (hcd ▸ mem_cons_self ..)
        · exact hp (mem_cons_self ..)
      have hm : Matches one many (d::p) (c::t) ↔ Matches one many p t := by
        simp [matches_cons hd, hc]
      rw [ih ?_ ?_, Hope, Hope, hm]
      · rfl
      · intro st hst
        obtain ⟨q,w,hq,hw,hlen,hmany⟩ := hal st hst
        exact ⟨q++[d],w++[c],by simp [hq],by simp [hw],by simp [hlen], by simp [hmany, Ne.symm hd]⟩
      · exact hap.imp (And.imp_left (fun hs hm => hs (mem_cons_of_mem _ hm)))
          (And.imp_left (fun hp hm => hp (mem_cons_of_mem _ hm)))
  | case3 p star c t h hc hd h' ih =>
    cases p with
    | nil => cases hd
    | cons d p =>
      cases hd
      have hs : many ∉ c::t := (hap.resolve_right (fun hp => hp.1 (mem_cons_self ..))).1
      rw [ih ?_ ?_]
      · constructor
        · rintro (hm | ⟨st,hst,u,hu,hm⟩)
          · exact .inl ((matches_many p _).mpr ⟨c::t,suffix_refl _,hm⟩)
          · cases hst
            exact .inl ((matches_many p _).mpr ⟨u,hu.trans (suffix_cons ..),hm⟩)
        · intro hope
          obtain ⟨u,hu,hm⟩ := (matches_many p _).mp (hope_many hal hope)
          rcases suffix_iff.mp hu with rfl | hu
          · exact .inl hm
          · exact .inr ⟨_,rfl,u,hu,hm⟩
      · exact aligned_star _ _
      · exact .inl ⟨hs,fun st hst => by cases hst; exact hs⟩
  | case4 p c t hc hd sp ss h h' ih =>
    have hno : ¬ Matches one many p (c::t) := not_matches hc hd
    have hss : many ∉ ss.tail := fun hm =>
      (hap.resolve_right (fun hp => nomatch hp.2)).2 _ rfl (mem_of_mem_tail hm)
    rw [ih (aligned_star _ _) (.inl ⟨hss,fun st hst => by cases hst; exact hss⟩)]
    constructor
    · rintro (hm | ⟨st,hst,u,hu,hm⟩)
      · exact .inr ⟨_,rfl,ss.tail,suffix_refl _,hm⟩
      · cases hst
        exact .inr ⟨_,rfl,u,hu.trans (tail_suffix _),hm⟩
    · intro hope
      obtain ⟨st,hst,u,hu,hm⟩ := hope.resolve_left hno
      cases hst
      rcases suffix_iff.mp hu with rfl | hu
      · exact .inl hm
      · exact .inr ⟨_,rfl,u,hu,hm⟩
  | case5 p c t hc hd h h' =>
    refine iff_of_false Bool.false_ne_true (fun hope => ?_)
    rcases hope with hm | ⟨st,hst,-⟩
    · exact not_matches hc hd hm
    · cases hst

end

lemma matches_map {β : Type} [DecidableEq β] {f : α → β} {one many : α}
    (hf : ∀ d ∈ p, ∀ c, c = one ∨ c = many ∨ c ∈ s → f d = f c → d = c) :
    Matches (f one) (f many) (p.map f) (s.map f) ↔ Matches one many p s := by
  induction p generalizing s with
  | nil => simp [matches_nil]
  | cons d p ih =>
    have htail : ∀ t, t <:+ s → (Matches (f one) (f many) (p.map f) (t.map f) ↔
        Matches one many p t) := fun t ht => ih (fun d hd c hc =>
      hf d (mem_cons_of_mem _ hd) c (hc.imp_right (Or.imp_right (ht.subset ·))))
    have hd := hf d (mem_cons_self ..)
    rw [map_cons]
    by_cases hm : d = many
    · rw [hm, matches_many, matches_many]
      constructor
      · rintro ⟨u,hu,h⟩
        obtain ⟨t,ht,rfl⟩ := suffix_map_iff.mp hu
        exact ⟨t,ht,(htail t ht).mp h⟩
      · rintro ⟨t,ht,h⟩
        exact ⟨t.map f,ht.map f,(htail t ht).mpr h⟩
    · have hne : f d ≠ f many := fun h => hm (hd many (.inr (.inl rfl)) h)
      rw [matches_cons hne, matches_cons hm]
      cases s with
      | nil => simp
      | cons c t =>
        have hone : f d = f one ↔ d = one := ⟨hd one (.inl rfl),congrArg f⟩
        have hc : f d = f c ↔ d = c := ⟨hd c (.inr (.inr (mem_cons_self ..))),congrArg f⟩
        simp [hone, hc, htail t (suffix_cons ..)]

def isAscii (s : String) : Bool := s.toList.all (fun c => c.val ≤ 127)

def likeMatch (s pattern : String) : Bool :=
  if isAscii pattern && isAscii s then
    likeLoop 0x5F 0x25 (Tuple.utf8 s) (Tuple.utf8 pattern) none (behind_none _ _)
  else likeLoop '_' '%' s.toList pattern.toList none (behind_none _ _)

def code (c : Char) : UInt8 := c.val.toUInt8

lemma utf8_ascii {s : String} (h : isAscii s = true) : Tuple.utf8 s = s.toList.map code := by
  have hbytes : Tuple.utf8 s = s.toList.flatMap String.utf8EncodeChar := by
    rw [Tuple.utf8, ← String.utf8Encode_toList, utf8Encode]
    simp
  have hone : ∀ c ∈ s.toList, String.utf8EncodeChar c = [code c] := by
    intro c hc
    have hval : c.val ≤ 127 := by simpa using all_eq_true.mp h c hc
    exact String.utf8EncodeChar_eq_singleton (Char.utf8Size_eq_one_iff.mpr hval)
  rw [hbytes, flatMap_congr hone, map_eq_flatMap]

lemma code_inj {c d : Char} (hc : c.val ≤ 127) (hd : d.val ≤ 127) (h : code c = code d) :
    c = d := by
  have heq : c.val.toNat % 256 = d.val.toNat % 256 := congrArg UInt8.toNat h
  have hc : c.val.toNat ≤ 127 := hc
  have hd : d.val.toNat ≤ 127 := hd
  refine Char.ext (UInt32.toNat_inj.mp ?_)
  omega

/-- Where the walk starts it may not meet a `%` of both. -/
lemma likeLoop_start {one many : α} (hone : one ≠ many) (h : many ∉ s ∨ many ∉ p) :
    likeLoop one many s p none (behind_none s p) = true ↔ Matches one many p s := by
  rw [likeLoop_iff hone s p none _ (fun _ h => nomatch h)]
  · simp [Hope]
  · exact h.imp (fun hs => ⟨hs,fun _ h => nomatch h⟩) (fun hp => ⟨hp,rfl⟩)

end ByteDB.Like
