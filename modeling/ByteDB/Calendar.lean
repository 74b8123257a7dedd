import ByteDB.ConnectionMessages

/-!
# Dates as texts

Dates are counted in days from 1970-01-01. The conversions go through eras of
400 years that begin on the first of March, in numbers of 32 bits.
-/

set_option autoImplicit false

namespace ByteDB.Calendar
open Text List

def wrap (x : ℤ) : ℤ := x.bmod (2^32)

def yearOfEra (doe : ℕ) : ℕ := (doe-doe/1460+doe/36524-doe/146096)/365

def monthDay (doy : ℕ) : ℕ × ℕ :=
  let mp := (5*doy+2)/153
  (if mp < 10 then mp+3 else mp-9,doy-(153*mp+2)/5+1)

def civil (era : ℤ) (doe : ℕ) : ℤ × ℕ × ℕ :=
  let yoe := yearOfEra doe
  let md := monthDay (doe-(365*yoe+yoe/4-yoe/100))
  (yoe+era*400+(if md.1 ≤ 2 then 1 else 0),md)

def civilFromDays (z : ℤ) : ℤ × ℕ × ℕ :=
  let z := wrap (z+719468)
  let era := (if 0 ≤ z then z else wrap (z-146096)).tdiv 146097
  civil era ((z-era*146097)%2^32).toNat

def dayOfYear (m d : ℕ) : ℕ := (153*(if m > 2 then m-3 else m+9)+2)/5+d-1

def daysFromCivil (y : ℤ) (m d : ℕ) : ℤ :=
  let y := if m ≤ 2 then y-1 else y
  let era := (if 0 ≤ y then y else y-399).tdiv 400
  let yoe := (y-era*400).toNat
  wrap (era*146097+(yoe*365+yoe/4-yoe/100+dayOfYear m d : ℕ)-719468)

/-- The numbers that are written in a text; a sign cannot be part of one. -/
def written (s : List Char) : Option (ℕ × ℕ × ℕ) :=
  match s.splitOn '-' with
  | [y, m, d] => do (← parseNumber y,← parseNumber m,← parseNumber d)
  | _ => none

def parseDate (s : List Char) : Option ℤ := do
  let (y,m,d) ← written s
  if y < 2^31 ∧ (1 ≤ m ∧ m ≤ 12) ∧ 1 ≤ d ∧ d ≤ 31 then some (daysFromCivil y m d) else none

def isLeap (y : ℤ) : Bool := y%4 = 0 ∧ (y%100 ≠ 0 ∨ y%400 = 0)

def monthLength (leap : Bool) (m : ℕ) : ℕ :=
  if m = 2 then if leap then 29 else 28 else if m ∈ [4, 6, 9, 11] then 30 else 31

abbrev IsDate (y : ℤ) (m d : ℕ) : Prop :=
  (1 ≤ m ∧ m ≤ 12) ∧ 1 ≤ d ∧ d ≤ monthLength (isLeap y) m

def nextDay (y : ℤ) (m d : ℕ) : ℤ × ℕ × ℕ :=
  if d < monthLength (isLeap y) m then (y,m,d+1) else if m < 12 then (y,m+1,1) else (y+1,1,1)

def before (yoe : ℕ) : ℕ := 365*yoe+yoe/4-yoe/100+yoe/400

lemma before_eq {yoe : ℕ} (h : yoe < 400) : 365*yoe+yoe/4-yoe/100 = before yoe := by
  rw [before, Nat.div_eq_of_lt h, Nat.add_zero]

lemma yearOfEra_mono : Monotone yearOfEra := by
  intro a b h
  have hfour : a-a/1460 ≤ b-b/1460 := by omega
  have hhundred : a/36524-a/36524/4 ≤ b/36524-b/36524/4 := by
    have : a/36524 ≤ b/36524 := Nat.div_le_div_right h
    omega
  rw [Nat.div_div_eq_div_mul, Nat.div_div_eq_div_mul] at hhundred
  refine Nat.div_le_div_right ?_
  omega

lemma yearOfEra_iff {doe yoe : ℕ} (h : doe < 146097) : yearOfEra doe = yoe ↔
    yoe < 400 ∧ before yoe ≤ doe ∧ doe < before (yoe+1) := by
  have hends : ∀ y < 400, yearOfEra (before y) = y ∧ yearOfEra (before (y+1)-1) = y := by
    decide +kernel
  have hlow : ∀ y < 400, before y ≤ doe → y ≤ yearOfEra doe :=
    fun y hy hle => (hends y hy).1.ge.trans (yearOfEra_mono hle)
  have hhigh : ∀ y < 400, doe < before (y+1) → yearOfEra doe ≤ y :=
    fun y hy hlt => (yearOfEra_mono (Nat.le_pred_of_lt hlt)).trans (hends y hy).2.le
  constructor
  · rintro rfl
    have hlast : yearOfEra doe ≤ 399 := hhigh 399 (by decide) h
    generalize yearOfEra doe = y at *
    refine ⟨by omega,not_lt.1 fun hlt => ?_,not_le.1 fun hle => ?_⟩
    · cases y with
      | zero => exact absurd hlt (Nat.not_lt_zero _)
      | succ y => exact absurd (hhigh y (by omega) hlt) (by omega)
    · have := hlow (y+1)
      rw [before] at *
      omega
  · rintro ⟨hy,hle,hlt⟩
    exact le_antisymm (hhigh _ hy hlt) (hlow _ hy hle)

section
variable {era y : ℤ} {doe yoe doy m d : ℕ}

lemma before_succ (h : yoe < 400) (hy : y = yoe+era*400) :
    before (yoe+1) = before yoe+365+(isLeap (y+1)).toNat := by
  have hleap : isLeap (y+1) = isLeap (yoe+1 : ℕ) := by
    rw [isLeap, isLeap, decide_eq_decide]
    omega
  have htable : ∀ y < 400, before (y+1) = before y+365+(isLeap (y+1 : ℕ)).toNat := by
    decide +kernel
  rw [hleap, htable yoe h]

variable (hm : 1 ≤ m ∧ m ≤ 12) (hd : 1 ≤ d)
include hm hd

lemma monthDay_iff (h : doy < 366) :
    monthDay doy = (m,d) ↔ d ≤ monthLength true m ∧ doy = dayOfYear m d := by
  have hto : ∀ doy < 366, (monthDay doy).2 ≤ monthLength true (monthDay doy).1 ∧
      doy = dayOfYear (monthDay doy).1 (monthDay doy).2 := by decide +kernel
  have hfrom : ∀ m < 13, ∀ d < 32, 1 ≤ m ∧ 1 ≤ d ∧ d ≤ monthLength true m →
      monthDay (dayOfYear m d) = (m,d) := by decide +kernel
  have hlen : monthLength true m ≤ 31 := by grind [monthLength]
  constructor
  · intro he
    have := hto doy h
    rwa [he] at this
  · rintro ⟨hle,rfl⟩
    exact hfrom m (by omega) d (by omega) ⟨hm.1,hd,hle⟩

lemma le_monthLength_iff : d ≤ monthLength (isLeap y) m ↔ d ≤ monthLength true m ∧
    dayOfYear m d < 365+(isLeap ((if m ≤ 2 then y-1 else y)+1)).toNat := by
  obtain ⟨hm1,hm12⟩ := hm
  interval_cases m <;> simp [monthLength, dayOfYear]
  all_goals first | omega | cases isLeap y <;> simp <;> omega

lemma civil_iff (h : doe < 146097) : civil era doe = (y,m,d) ↔
    d ≤ monthLength (isLeap y) m ∧ ∃ yoe : ℕ, yoe < 400 ∧
      (if m ≤ 2 then y-1 else y) = yoe+era*400 ∧ doe = before yoe+dayOfYear m d := by
  have hb : (isLeap ((if m ≤ 2 then y-1 else y)+1)).toNat ≤ 1 := Bool.toNat_le _
  rw [le_monthLength_iff hm hd]
  constructor
  · intro hc
    obtain ⟨hy,hlow,hhigh⟩ := (yearOfEra_iff h).1 rfl
    rw [civil] at hc
    generalize yearOfEra doe = yoe at *
    obtain ⟨doy,rfl⟩ := Nat.exists_eq_add_of_le hlow
    rw [before_eq hy, Nat.add_sub_cancel_left] at hc
    obtain ⟨hyear,hmd⟩ := Prod.mk.inj hc
    have hys : (if m ≤ 2 then y-1 else y) = yoe+era*400 := by
      rw [← hyear, hmd]
      split_ifs <;> omega
    have hnext := before_succ hy hys
    obtain ⟨hlen,rfl⟩ := (monthDay_iff hm hd (by omega)).1 hmd
    exact ⟨⟨hlen,by omega⟩,yoe,hy,hys,rfl⟩
  · rintro ⟨⟨hlen,hdoy⟩,yoe,hy,hys,rfl⟩
    have hnext := before_succ hy hys
    have hyoe : yearOfEra (before yoe+dayOfYear m d) = yoe :=
      (yearOfEra_iff h).2 ⟨hy,Nat.le_add_right _ _,by omega⟩
    rw [civil, hyoe, before_eq hy, Nat.add_sub_cancel_left,
      (monthDay_iff hm hd (by omega)).2 ⟨hlen,rfl⟩, Prod.mk.injEq, ← hys]
    exact ⟨by split_ifs <;> omega,rfl⟩

end

lemma wrap_eq {x : ℤ} (hlow : -2^31 ≤ x) (hhigh : x < 2^31) : wrap x = x :=
  Int.bmod_eq_of_le (by omega) (by omega)

lemma civilFromDays_eq {n : ℤ} (hlow : -2^30 ≤ n) (hhigh : n < 2^31) :
    civilFromDays (n-719468) = civil (n/146097) (n%146097).toNat := by
  have hera : (if 0 ≤ n then n else n-146096).tdiv 146097 = n/146097 := by
    rw [Int.tdiv_eq_ediv, show Int.sign 146097 = 1 from rfl]
    split_ifs <;> omega
  have hdoe : (n-n/146097*146097)%2^32 = n%146097 := by omega
  rw [civilFromDays, Int.sub_add_cancel, wrap_eq (by omega) hhigh, wrap_eq (by omega) (by omega),
    hera, hdoe]

section
variable {y z era : ℤ} {doe yoe m d : ℕ}

lemma exists_yearOfEra (x : ℤ) : ∃ (era : ℤ) (yoe : ℕ), yoe < 400 ∧ x = yoe+era*400 :=
  ⟨x/400,(x%400).toNat,by omega,by omega⟩

lemma before_le (h : yoe ≤ 400) : before yoe ≤ 146097 := by
  rw [before]
  omega

lemma dayOfYear_le (hm : 1 ≤ m ∧ m ≤ 12) (hd : d ≤ 31) : dayOfYear m d ≤ 367 := by
  rw [dayOfYear]
  split_ifs <;> omega

lemma daysFromCivil_eq (hlow : -2000000 ≤ y) (hhigh : y ≤ 5879599) (hm : 1 ≤ m ∧ m ≤ 12)
    (hd : d ≤ 31) (hyoe : yoe ≤ 400) (hys : (if m ≤ 2 then y-1 else y) = yoe+era*400) :
    daysFromCivil y m d = era*146097+(before yoe+dayOfYear m d : ℕ)-719468 := by
  have hdoy := dayOfYear_le hm hd
  have hbefore := before_le hyoe
  have hbounds : -5002 ≤ era ∧ yoe+era*400 ≤ 5879599 := by split_ifs at hys <;> omega
  have hera : (if 0 ≤ yoe+era*400 then yoe+era*400 else yoe+era*400-399).tdiv 400 =
      if yoe < 400 then era else era+1 := by
    rw [Int.tdiv_eq_ediv, show Int.sign 400 = 1 from rfl]
    split_ifs <;> omega
  rw [daysFromCivil, hys, hera]
  obtain hlt | rfl := Nat.lt_or_eq_of_le hyoe
  · have hrest : (yoe+era*400-era*400 : ℤ).toNat = yoe := by omega
    rw [if_pos hlt, hrest, Nat.mul_comm, before_eq hlt, wrap_eq (by omega) (by omega)]
  · -- the first of the years behind an era
    have hrest : (((400 : ℕ) : ℤ)+era*400-(era+1)*400).toNat = 0 := by omega
    have hfull : before 400 = 146097 := rfl
    rw [if_neg (lt_irrefl _), hrest, wrap_eq (by omega) (by omega)]
    omega

lemma civil_daysFromCivil_iff (hlow : -2000000 ≤ y) (hhigh : y ≤ 5879599)
    (hm : 1 ≤ m ∧ m ≤ 12) (hd : 1 ≤ d ∧ d ≤ 31) :
    civilFromDays (daysFromCivil y m d) = (y,m,d) ↔ d ≤ monthLength (isLeap y) m := by
  obtain ⟨era,yoe,hyoe,hys⟩ := exists_yearOfEra (if m ≤ 2 then y-1 else y)
  have hdays := daysFromCivil_eq hlow hhigh hm hd.2 hyoe.le hys
  have hdoy := dayOfYear_le hm hd.2
  have hbefore := before_le hyoe.le
  have hera : -5001 ≤ era ∧ era ≤ 14698 := by split_ifs at hys <;> omega
  rw [hdays, civilFromDays_eq (by omega) (by omega), civil_iff hm hd.1 (by omega)]
  refine ⟨And.left,fun hlen => ⟨hlen,yoe,hyoe,?_⟩⟩
  have hnext := before_succ hyoe hys
  have hexists := ((le_monthLength_iff hm hd.1).1 hlen).2
  have hlast := before_le (show yoe+1 ≤ 400 from hyoe)
  constructor <;> omega

lemma IsDate.le (h : IsDate y m d) : d ≤ 31 :=
  h.2.2.trans (by grind [monthLength])

lemma isDate_civil (h : doe < 146097) (hc : civil era doe = (y,m,d)) : IsDate y m d := by
  obtain ⟨hy,hlow,hhigh⟩ := (yearOfEra_iff h).1 rfl
  have hnext := before_succ hy (show (yearOfEra doe : ℤ) = yearOfEra doe+0*400 by omega)
  have hleap := Bool.toNat_le (isLeap (yearOfEra doe+1))
  have htable : ∀ doy < 366, (1 ≤ (monthDay doy).1 ∧ (monthDay doy).1 ≤ 12) ∧
      1 ≤ (monthDay doy).2 := by decide +kernel
  obtain ⟨hm,hd⟩ := htable (doe-before (yearOfEra doe)) (by omega)
  rw [← before_eq hy, (Prod.mk.inj hc).2] at hm hd
  exact ⟨hm,hd,((civil_iff hm hd h).1 hc).1⟩

lemma daysFromCivil_civil (hlow : -2^29 ≤ z) (hhigh : z ≤ 2^29)
    (h : civilFromDays z = (y,m,d)) : IsDate y m d ∧ daysFromCivil y m d = z := by
  obtain ⟨n,rfl⟩ : ∃ n, z = n-719468 := ⟨z+719468,by omega⟩
  rw [civilFromDays_eq (by omega) (by omega)] at h
  have hdate := isDate_civil (by omega) h
  obtain ⟨-,yoe,hyoe,hys,hdoe⟩ := (civil_iff hdate.1 hdate.2.1 (by omega)).1 h
  refine ⟨hdate,?_⟩
  have hy : -2000000 ≤ y ∧ y ≤ 5879599 := by split_ifs at hys <;> omega
  rw [daysFromCivil_eq hy.1 hy.2 hdate.1 hdate.le hyoe.le hys, ← hdoe]
  omega

lemma daysFromCivil_nextDay {y' : ℤ} {m' d' : ℕ} (hlow : -2000000 ≤ y) (hhigh : y ≤ 2000000)
    (h : IsDate y m d) (hnext : nextDay y m d = (y',m',d')) :
    daysFromCivil y' m' d' = daysFromCivil y m d+1 := by
  obtain ⟨era,yoe,hyoe,hys⟩ := exists_yearOfEra (if m ≤ 2 then y-1 else y)
  have hleap := before_succ hyoe hys
  rw [daysFromCivil_eq hlow (by omega) h.1 h.le hyoe.le hys]
  obtain ⟨hm,hd,hlen⟩ := h
  have hall : monthLength (isLeap y) m ≤ 31 := by grind [monthLength]
  rw [nextDay] at hnext
  split_ifs at hnext with hin hdec
  · obtain ⟨rfl,rfl,rfl⟩ := hnext
    have hdoy : dayOfYear m (d+1) = dayOfYear m d+1 := by
      rw [dayOfYear, dayOfYear]
      omega
    rw [daysFromCivil_eq hlow (by omega) hm (by omega) hyoe.le hys, hdoy]
    omega
  · obtain ⟨rfl,rfl,rfl⟩ := hnext
    obtain rfl : d = monthLength (isLeap y) m := by omega
    by_cases hfeb : m = 2
    · subst hfeb
      have hmarch : dayOfYear (2+1) 1+365+(isLeap y).toNat =
          dayOfYear 2 (monthLength (isLeap y) 2)+1 := by
        cases isLeap y <;> rfl
      rw [if_pos le_rfl] at hys hleap
      rw [Int.sub_add_cancel] at hleap
      have hys' : (if 2+1 ≤ 2 then y-1 else y) = (yoe+1 : ℕ)+era*400 := by
        rw [if_neg (by decide)]
        omega
      rw [daysFromCivil_eq hlow (by omega) (by omega) (by omega) (show yoe+1 ≤ 400 from hyoe)
        hys']
      omega
    · have hys' : (if m+1 ≤ 2 then y-1 else y) = yoe+era*400 := by
        split_ifs at hys ⊢ <;> omega
      have hmonth : dayOfYear (m+1) 1 = dayOfYear m (monthLength (isLeap y) m)+1 := by
        obtain ⟨hm1,hm12⟩ := hm
        interval_cases m <;> simp_all [dayOfYear, monthLength]
      rw [daysFromCivil_eq hlow (by omega) (by omega) (by omega) hyoe.le hys', hmonth]
      omega
  · obtain ⟨rfl,rfl,rfl⟩ := hnext
    obtain rfl : m = 12 := by omega
    have hlast : monthLength (isLeap y) 12 = 31 := by simp [monthLength]
    obtain rfl : d = 31 := by omega
    have hys' : (if 1 ≤ 2 then y+1-1 else y+1) = yoe+era*400 := by
      rw [if_pos (by decide), Int.add_sub_cancel, ← hys, if_neg (by decide)]
    rw [daysFromCivil_eq (by omega) (by omega) (by omega) (by omega) hyoe.le hys',
      show dayOfYear 1 1 = dayOfYear 12 31+1 from rfl]
    omega

end

lemma parseDate_some {s : List Char} {n : ℤ} (h : parseDate s = some n) : ∃ y m d : ℕ,
    written s = some (y,m,d) ∧ (1 ≤ m ∧ m ≤ 12) ∧ (1 ≤ d ∧ d ≤ 31) ∧ n = daysFromCivil y m d := by
  obtain ⟨⟨y,m,d⟩,hs,hn⟩ := Option.bind_eq_some_iff.1 h
  dsimp only at hn
  split at hn
  · next hb => exact ⟨y,m,d,hs,hb.2.1,hb.2.2,(Option.some.inj hn).symm⟩
  · cases hn

/-- Both conversions are inverse to each other, and the days are numbered one
after another. -/
theorem calendar_days : (∀ (y : ℤ) (m d : ℕ), IsDate y m d → -100000 ≤ y → y ≤ 100000 →
      civilFromDays (daysFromCivil y m d) = (y,m,d) ∧
        ∀ (y' : ℤ) (m' d' : ℕ), nextDay y m d = (y',m',d') →
          daysFromCivil y' m' d' = daysFromCivil y m d+1) ∧
    ∀ z, daysFromCivil (-100000) 1 1 ≤ z → z ≤ daysFromCivil 100000 12 31 →
      ∀ (y : ℤ) (m d : ℕ), civilFromDays z = (y,m,d) → IsDate y m d ∧ daysFromCivil y m d = z := by
  refine ⟨fun y m d h hlow hhigh => ⟨?_,fun y' m' d' => ?_⟩,fun z hlow hhigh y m d => ?_⟩
  · exact (civil_daysFromCivil_iff (by omega) (by omega) h.1 ⟨h.2.1,h.le⟩).2 h.2.2
  · exact daysFromCivil_nextDay (by omega) (by omega) h
  · have hfirst : -2^29 ≤ daysFromCivil (-100000) 1 1 := by decide +kernel
    have hlast : daysFromCivil 100000 12 31 ≤ 2^29 := by decide +kernel
    exact daysFromCivil_civil (hfirst.trans hlow) (hhigh.trans hlast)

theorem leap_day_before_era : civilFromDays (daysFromCivil (-4) 2 29) = (-4,2,29) :=
  (calendar_days.1 (-4) 2 29 (by decide) (by decide) (by decide)).1

end ByteDB.Calendar
