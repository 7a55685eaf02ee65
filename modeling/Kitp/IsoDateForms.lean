import Kitp.IsoDates
import Mathlib.Data.List.Infix

/-! The form of dates and timestamps, and what the check in the database answers. -/
namespace Kitp.IsoDates
open Kitp.LinePatterns
open Kitp.Attributes (daysIn)

variable {s y m d t h i x f z u v w : Text}

/-! What a date and a timestamp are. -/

def Digits (n : Nat) (u : Text) : Prop := u.length=n∧∀ c∈u, c.isDigit

/-- A text in the form of a date. -/
def DateForm (s y m d : Text) : Prop :=
  Digits 4 y∧Digits 2 m∧Digits 2 d∧s=y++('-'::m++('-'::d))

/-- The day is one of the calendar, in the year 1 or later. -/
def DayReal (y m d : Text) : Prop := 1 ≤ value y∧realDay (value y) (value m) (value d)

inductive Fraction : Text → Prop
  | none : Fraction []
  | some (ds : Text) : 1 ≤ ds.length → ds.length ≤ 9 → (∀ c∈ds, c.isDigit) → Fraction ('.'::ds)

/-- A zone whose offset has an hour and a minute that are ok. -/
inductive Zone (ok : Nat → Nat → Prop) : Text → Prop
  | upper : Zone ok ['Z']
  | lower : Zone ok ['z']
  | offset (g : Char) (o p : Text) : g = '+'∨g = '-' → Digits 2 o → Digits 2 p →
      ok (value o) (value p) → Zone ok (g::(o++(':'::p)))

def offsetIn (hour minute : Nat) : Prop := hour ≤ 15∧ minute ≤ 59

/-- A text in the form of a timestamp. -/
structure StampForm (s y m d h i x f z : Text) : Prop where
  date : Digits 4 y∧Digits 2 m∧Digits 2 d
  clock : Digits 2 h∧Digits 2 i∧Digits 2 x
  fraction : Fraction f
  zone : Zone (fun _ _ => True) z
  whole : ∃ t, (t = 'T'∨t = 't')∧
    s=y++('-'::m++('-'::d))++(t::(h++(':'::i++(':'::x++(f++z)))))

def StampReal (y m d h i x z : Text) : Prop :=
  DayReal y m d∧(value h ≤ 23∧value i ≤ 59∧value x ≤ 59)∧Zone offsetIn z

/-! The patterns. -/

theorem says_digits {n : Nat} {b : Option Char} {r : Text} :
    Says has (fun _ => false) (digitRun n) b u r ↔ Digits n u := by
  simp only [digitRun,Says,Digits,Option.mem_def,Option.some.injEq,forall_eq',has]
  constructor
  · intro h
    exact ⟨Nat.le_antisymm h.2.1 h.1,h.2.2⟩
  · intro h
    exact ⟨Nat.le_of_eq h.1.symm,Nat.le_of_eq h.1,h.2⟩

/-- Three numbers with a separator between them, and what comes behind. -/
theorem says_parts {n : Nat} {k : Mark} {c : Char} (hk : ∀ e, has k e=true ↔ e=c)
    {q : Pattern Mark} {b : Option Char} {r : Text} :
    Says has (fun _ => false) (inOrder [digitRun n,.one k,digitRun 2,.one k,digitRun 2] q) b u r ↔
      ∃ y m d v, Digits n y∧Digits 2 m∧Digits 2 d∧u=y++(c::m++(c::d))++v∧
        Says has (fun _ => false) q (after b (y++(c::m++(c::d)))) v r := by
  have hafter (y m d : Text) : after b (y++(c::m++(c::d)))=
      after (after (after (after (after b y) [c]) m) [c]) d := by
    rw [← after_append,← after_append,← after_append,← after_append]
    simp
  simp only [inOrder,Says.eq_1,Says.eq_3,says_digits,hk]
  constructor
  · rintro ⟨y,_,rfl,hy,_,_,rfl,⟨_,rfl,rfl⟩,m,_,rfl,hm,_,_,rfl,⟨_,rfl,rfl⟩,d,v,rfl,hd,hq⟩
    refine ⟨y,m,d,v,hy,hm,hd,?_,(hafter y m d).symm ▸ hq⟩
    simp
  · rintro ⟨y,m,d,v,hy,hm,hd,rfl,hq⟩
    refine ⟨y,c::m++(c::d)++v,by simp,hy,[c],m++(c::d)++v,by simp,⟨c,rfl,rfl⟩,m,c::d++v,by simp,hm,
      [c],d++v,rfl,⟨c,rfl,rfl⟩,d,v,rfl,hd,?_⟩
    rw [← hafter]
    exact hq

theorem dash_iff (e : Char) : has .dash e=true ↔ e = '-' := decide_eq_true_iff

theorem colon_iff (e : Char) : has .colon e=true ↔ e = ':' := decide_eq_true_iff

theorem anchored_date : anchored datePattern s ↔ ∃ y m d, DateForm s y m d := by
  rw [anchored,found_iff,datePattern,dateParts]
  simp only [says_parts dash_iff]
  constructor
  · rintro ⟨u,r,rfl,y,m,d,v,hy,hm,hd,rfl,rfl,rfl⟩
    refine ⟨y,m,d,hy,hm,hd,?_⟩
    simp
  · rintro ⟨y,m,d,hy,hm,hd,rfl⟩
    exact ⟨_,[],(List.append_nil _).symm,y,m,d,[],hy,hm,hd,(List.append_nil _).symm,rfl,rfl⟩

theorem says_fraction {b : Option Char} {r : Text} :
    Says has (fun _ => false) fractionPart b u r ↔ Fraction u := by
  simp only [fractionPart,Says,Option.mem_def,Option.some.injEq,forall_eq',has,decide_eq_true_eq]
  constructor
  · rintro (⟨_,w,rfl,⟨_,rfl,rfl⟩,hleast,hmost,hall⟩ | ⟨-,hmost,-⟩)
    · exact .some w hleast hmost hall
    · rw [List.length_eq_zero_iff.mp (Nat.le_zero.mp hmost)]
      exact .none
  · intro h
    cases h with
    | none => exact .inr ⟨Nat.le_refl 0,Nat.le_refl 0,by simp⟩
    | some ds hleast hmost hall => exact .inl ⟨['.'],ds,rfl,⟨_,rfl,rfl⟩,hleast,hmost,hall⟩

theorem says_offset {b : Option Char} {r : Text} :
    Says has (fun _ => false) offsetPart b u r ↔
      ∃ g o p, (g = '+'∨g = '-')∧Digits 2 o∧Digits 2 p∧u=g::(o++(':'::p)) := by
  simp only [offsetPart,inOrder,Says,says_digits,has,decide_eq_true_eq,Bool.or_eq_true]
  constructor
  · rintro ⟨_,_,rfl,⟨g,rfl,hg⟩,o,_,rfl,ho,_,p,rfl,⟨_,rfl,rfl⟩,hp⟩
    exact ⟨g,o,p,hg,ho,hp,rfl⟩
  · rintro ⟨g,o,p,hg,ho,hp,rfl⟩
    exact ⟨[g],_,rfl,⟨_,rfl,hg⟩,o,_,rfl,ho,[':'],p,rfl,⟨_,rfl,rfl⟩,hp⟩

theorem says_zone {b : Option Char} {r : Text} :
    Says has (fun _ => false) (.alt (.one .zulu) offsetPart) b u r ↔ Zone (fun _ _ => True) u := by
  rw [Says,says_offset]
  simp only [Says,has,decide_eq_true_eq,Bool.or_eq_true]
  constructor
  · rintro (⟨c,rfl,rfl | rfl⟩ | ⟨g,o,p,hg,ho,hp,rfl⟩)
    · exact .upper
    · exact .lower
    · exact .offset g o p hg ho hp trivial
  · intro h
    cases h with
    | upper => exact .inl ⟨_,rfl,.inl rfl⟩
    | lower => exact .inl ⟨_,rfl,.inr rfl⟩
    | offset g o p hg ho hp _ => exact .inr ⟨g,o,p,hg,ho,hp,rfl⟩

/-- What comes behind the date and the clock. -/
theorem says_end {b : Option Char} {r : Text} :
    Says has (fun _ => false) (inOrder [fractionPart,.alt (.one .zulu) offsetPart] .finish) b u r ↔
      ∃ f z, Fraction f∧Zone (fun _ _ => True) z∧u=f++z∧r=[] := by
  simp only [inOrder,Says.eq_3,Says.eq_6,says_fraction,says_zone]
  constructor
  · rintro ⟨f,_,rfl,hf,z,_,rfl,hz,rfl,rfl⟩
    exact ⟨f,z,hf,hz,by rw [List.append_nil],rfl⟩
  · rintro ⟨f,z,hf,hz,rfl,rfl⟩
    exact ⟨f,z,rfl,hf,z,[],(List.append_nil _).symm,hz,rfl,rfl⟩

theorem anchored_timestamp :
    anchored timestampPattern s ↔ ∃ y m d h i x f z, StampForm s y m d h i x f z := by
  rw [anchored,found_iff,timestampPattern,List.append_assoc,List.append_assoc,inOrder_append,
    inOrder_append,inOrder_append,dateParts,timeParts]
  simp only [says_parts dash_iff]
  rw [inOrder,inOrder]
  simp only [Says.eq_1,Says.eq_3,says_parts colon_iff,says_end,has,Bool.or_eq_true,
    decide_eq_true_eq]
  constructor
  · rintro ⟨u,r,rfl,y,m,d,v,hy,hm,hd,rfl,_,w,rfl,⟨t,rfl,ht⟩,h,i,x,v,hh,hi,hx,rfl,f,z,hf,hz,rfl,rfl⟩
    refine ⟨y,m,d,h,i,x,f,z,⟨hy,hm,hd⟩,⟨hh,hi,hx⟩,hf,hz,t,ht,?_⟩
    simp
  · rintro ⟨y,m,d,h,i,x,f,z,⟨hy,hm,hd⟩,⟨hh,hi,hx⟩,hf,hz,t,ht,rfl⟩
    refine ⟨_,[],(List.append_nil _).symm,y,m,d,t::(h++(':'::i++(':'::x))++(f++z)),hy,hm,hd,?_,
      [t],h++(':'::i++(':'::x))++(f++z),rfl,⟨t,rfl,ht⟩,h,i,x,f++z,hh,hi,hx,rfl,f,z,hf,hz,rfl,rfl⟩
    simp

/-! The fields, by their places. -/

theorem take_drop_at {α : Type} {a b c : List α} {n k : Nat} (ha : a.length=n) (hb : b.length=k) :
    ((a++(b++c)).drop n).take k=b := by
  subst ha hb
  rw [List.drop_left,List.take_left]

theorem substr_at {n k : Nat} (hu : u.length+1=n) (hv : v.length=k) : substr (u++(v++w)) n k=v := by
  subst hu
  exact take_drop_at rfl hv

theorem substr_end {n k : Nat} (hu : u.length+1=n) (hv : v.length=k) : substr (u++v) n k=v := by
  have hat := substr_at (w := []) hu hv
  rwa [List.append_nil] at hat

theorem toInt_digits {n : Nat} (hu : Digits n u) (hn : 0 < n) : toInt u=.ok (value u) := by
  have hne : u≠[] := List.ne_nil_of_length_pos (by rw [hu.1]; exact hn)
  rw [toInt,if_pos ⟨hne,List.all_eq_true.mpr hu.2⟩]

/-- The answer of a check is p, without an exception. -/
def Answers (a : Except SqlError Bool) (p : Prop) : Prop := ∃ b, a=.ok b∧(b ↔ p)

theorem date_fields (hdate : Digits 4 y∧Digits 2 m∧Digits 2 d) (w : Text) :
    substr (y++('-'::m++('-'::d))++w) 1 4=y∧substr (y++('-'::m++('-'::d))++w) 6 2=m∧
      substr (y++('-'::m++('-'::d))++w) 9 2=d := by
  obtain ⟨⟨hy,-⟩,⟨hm,-⟩,⟨hd,-⟩⟩ := hdate
  refine ⟨?_,?_,?_⟩
  · have hat := substr_at (u := []) (w := '-'::m++('-'::d)++w) rfl hy
    simpa using hat
  · have hat := substr_at (n := 6) (u := y++['-']) (w := '-'::d++w) (by simp [hy]) hm
    simpa using hat
  · have hat := substr_at (n := 9) (u := y++('-'::m)++['-']) (w := w) (by simp [hy,hm]) hd
    simpa using hat

theorem isoDateOk_form (hform : DateForm s y m d) : Answers (isoDateOk s) (DayReal y m d) := by
  have hpattern : anchored datePattern s=true := anchored_date.mpr ⟨y,m,d,hform⟩
  obtain ⟨hy,hm,hd,hs⟩ := hform
  obtain ⟨hsy,hsm,hsd⟩ := date_fields ⟨hy,hm,hd⟩ []
  rw [List.append_nil,← hs] at hsy hsm hsd
  have hny := toInt_digits hy (by decide)
  have hnm := toInt_digits hm (by decide)
  have hnd := toInt_digits hd (by decide)
  by_cases hday : DayReal y m d
  · refine ⟨true,?_,by simp [hday]⟩
    have hmake : makeDate (value y) (value m) (value d)=.ok (value y,value m,value d) :=
      if_pos hday
    simp [isoDateOk,hpattern,hsy,hsm,hsd,hny,hnm,hnd,hmake,handling,hday.1,bind,Except.bind]
  · refine ⟨false,?_,by simp [hday]⟩
    have hmake : makeDate (value y) (value m) (value d)=.error .datetimeFieldOverflow :=
      if_neg hday
    simp [isoDateOk,hpattern,hsy,hsm,hsd,hny,hnm,hnd,hmake,handling,bind,Except.bind]

theorem isoDateOk_answers (s : Text) :
    Answers (isoDateOk s) (∃ y m d, DateForm s y m d∧DayReal y m d) := by
  by_cases hpattern : anchored datePattern s=true
  · obtain ⟨y,m,d,hform⟩ := anchored_date.mp hpattern
    obtain ⟨b,hb,hreal⟩ := isoDateOk_form hform
    refine ⟨b,hb,fun h => ⟨y,m,d,hform,hreal.mp h⟩,?_⟩
    rintro ⟨y',m',d',hform',hday⟩
    obtain ⟨b',hb',hreal'⟩ := isoDateOk_form hform'
    have hsame : b=b' := Except.ok.inj (hb.symm.trans hb')
    rw [hsame]
    exact hreal'.mpr hday
  · refine ⟨false,by simp [isoDateOk,hpattern],by simp,?_⟩
    rintro ⟨y,m,d,hform,-⟩
    exact absurd (anchored_date.mpr ⟨y,m,d,hform⟩) hpattern

/-! The timestamps of the database. -/

theorem date_length (hdate : Digits 4 y∧Digits 2 m∧Digits 2 d) :
    (y++('-'::m++('-'::d))).length=10 := by
  simp [hdate.1.1,hdate.2.1.1,hdate.2.2.1]

theorem stamp_fields (hform : StampForm s y m d h i x f z) :
    substr s 1 10=y++('-'::m++('-'::d))∧substr s 12 2=h∧substr s 15 2=i∧substr s 18 2=x := by
  obtain ⟨hdate,⟨⟨hh,-⟩,⟨hi,-⟩,⟨hx,-⟩⟩,-,-,t,-,rfl⟩ := hform
  have hlen := date_length hdate
  generalize y++('-'::m++('-'::d))=D at hlen
  refine ⟨?_,?_,?_,?_⟩
  · have hat := substr_at (u := []) (w := t::(h++(':'::i++(':'::x++(f++z))))) rfl hlen
    simpa using hat
  · have hat := substr_at (n := 12) (u := D++[t]) (w := ':'::i++(':'::x++(f++z))) (by simp [hlen]) hh
    simpa using hat
  · have hat := substr_at (n := 15) (u := D++(t::(h++[':']))) (w := ':'::x++(f++z))
      (by simp [hlen,hh]) hi
    simpa using hat
  · have hat := substr_at (n := 18) (u := D++(t::(h++(':'::i++[':'])))) (w := f++z)
      (by simp [hlen,hh,hi]) hx
    simpa using hat

theorem anchored_offset : anchored offsetPattern s ↔
    ∃ g o p, (g = '+'∨g = '-')∧Digits 2 o∧Digits 2 p∧s=g::(o++(':'::p)) := by
  rw [anchored,found_iff]
  simp only [offsetPattern]
  constructor
  · rintro ⟨_,_,rfl,v,_,rfl,hv,rfl,rfl⟩
    rw [List.append_nil,List.append_nil]
    exact says_offset.mp hv
  · intro hs
    exact ⟨s,[],(List.append_nil s).symm,s,[],(List.append_nil s).symm,says_offset.mpr hs,rfl,rfl⟩

theorem anywhere_offset : anywhere offsetPattern s ↔
    ∃ v g o p, (g = '+'∨g = '-')∧Digits 2 o∧Digits 2 p∧s=v++(g::(o++(':'::p))) := by
  rw [anywhere,List.any_eq_true]
  simp only [List.mem_tails,anchored_offset]
  constructor
  · rintro ⟨_,⟨v,rfl⟩,g,o,p,hg,ho,hp,rfl⟩
    exact ⟨v,g,o,p,hg,ho,hp,rfl⟩
  · rintro ⟨v,g,o,p,hg,ho,hp,rfl⟩
    exact ⟨_,⟨v,rfl⟩,g,o,p,hg,ho,hp,rfl⟩

/-- An offset ends in a digit. -/
theorem anywhere_offset_letter {c : Char} (hc : c.isDigit=false) :
    anywhere offsetPattern (u++[c])=false := by
  apply Bool.eq_false_iff.mpr
  intro hany
  obtain ⟨v,g,o,p,-,⟨holen,-⟩,⟨hlen,hp⟩,hsame⟩ := anywhere_offset.mp hany
  have hlast := congrArg List.getLast? hsame
  obtain ⟨a,b,rfl⟩ := List.length_eq_two.mp hlen
  obtain ⟨a',b',rfl⟩ := List.length_eq_two.mp holen
  have hb := hp b (by simp)
  have hcb : c=b := by simpa using hlast
  rw [← hcb,hc] at hb
  cases hb

theorem anywhere_offset_form {g : Char} {o p : Text} (hg : g = '+'∨g = '-') (ho : Digits 2 o)
    (hp : Digits 2 p) : anywhere offsetPattern (u++(g::(o++(':'::p))))=true :=
  anywhere_offset.mpr ⟨u,g,o,p,hg,ho,hp,rfl⟩

theorem offset_fields {g : Char} {o p : Text} (ho : Digits 2 o) (hp : Digits 2 p)
    (hs : s=u++(g::(o++(':'::p)))) : substr s (s.length-4) 2=o∧substr s (s.length-1) 2=p := by
  subst hs
  have hlen : (u++(g::(o++(':'::p)))).length=u.length+6 := by simp [ho.1,hp.1]
  rw [hlen]
  constructor
  · have hat := substr_at (n := u.length+6-4) (u := u++[g]) (w := ':'::p)
      (by simp) ho.1
    simpa using hat
  · have hat := substr_end (n := u.length+6-1) (u := u++(g::(o++[':']))) (by simp [ho.1]) hp.1
    simpa using hat

theorem zone_offset_iff {ok : Nat → Nat → Prop} {g : Char} {o p : Text} (hg : g = '+'∨g = '-')
    (ho : Digits 2 o) (hp : Digits 2 p) : Zone ok (g::(o++(':'::p))) ↔ ok (value o) (value p) := by
  constructor
  · intro hin
    generalize hz : g::(o++(':'::p))=zone at hin
    cases hin with
    | upper => simp [List.cons.injEq] at hz
    | lower => simp [List.cons.injEq] at hz
    | offset g' o' p' hg' ho' hp' hok =>
      obtain ⟨ho,hp⟩ := List.append_inj (List.cons.inj hz).2 (ho.1.trans ho'.1.symm)
      rw [ho,(List.cons.inj hp).2]
      exact hok
  · exact .offset g o p hg ho hp

/-- Of a timestamp in form, the offset is looked at exactly where there is one. -/
theorem zone_cases (hform : StampForm s y m d h i x f z) :
    (anywhere offsetPattern s=false∧Zone offsetIn z)∨
    ∃ o p, Digits 2 o∧Digits 2 p∧anywhere offsetPattern s=true∧substr s (s.length-4) 2=o∧
      substr s (s.length-1) 2=p∧(Zone offsetIn z ↔ offsetIn (value o) (value p)) := by
  obtain ⟨-,-,-,hzone,t,-,hs⟩ := hform
  obtain ⟨u,hu⟩ : ∃ u, s=u++z :=
    ⟨y++('-'::m++('-'::d))++(t::(h++(':'::i++(':'::x++f)))),by simp [hs]⟩
  cases hzone with
  | upper =>
    left
    rw [hu]
    exact ⟨anywhere_offset_letter rfl,.upper⟩
  | lower =>
    left
    rw [hu]
    exact ⟨anywhere_offset_letter rfl,.lower⟩
  | offset g o p hg ho hp _ =>
    right
    obtain ⟨hhour,hminute⟩ := offset_fields ho hp hu
    exact ⟨o,p,ho,hp,by rw [hu]; exact anywhere_offset_form hg ho hp,hhour,hminute,
      zone_offset_iff hg ho hp⟩

theorem toTimestamptz_form (hform : StampForm s y m d h i x f z) (hreal : StampReal y m d h i x z) :
    ∃ stamp, toTimestamptz s=.ok stamp := by
  have hpattern : anchored timestampPattern s=true := anchored_timestamp.mpr ⟨_,_,_,_,_,_,_,_,hform⟩
  obtain ⟨-,hh,hi,hx⟩ := stamp_fields hform
  obtain ⟨hday,⟨hhour,hminute,hsecond⟩,hzone⟩ := hreal
  have hfields : substr s 1 4=y∧substr s 6 2=m∧substr s 9 2=d := by
    obtain ⟨t,-,hs⟩ := hform.whole
    rw [hs]
    exact date_fields hform.date _
  have hny := toInt_digits hform.date.1 (by decide)
  have hnm := toInt_digits hform.date.2.1 (by decide)
  have hnd := toInt_digits hform.date.2.2 (by decide)
  have hnh := toInt_digits hform.clock.1 (by decide)
  have hni := toInt_digits hform.clock.2.1 (by decide)
  have hnx := toInt_digits hform.clock.2.2 (by decide)
  have hmake : makeDate (value y) (value m) (value d)=.ok (value y,value m,value d) := if_pos hday
  have hclock : ¬(24 < value h∨59 < value i∨60 < value x∨
      (value h=24∧(0 < value i∨0 < value x))) := by omega
  cases zone_cases hform with
  | inl hnone =>
    refine ⟨⟨(value y,value m,value d),value h,value i,value x⟩,?_⟩
    simp [toTimestamptz,hpattern,hfields,hh,hi,hx,hny,hnm,hnd,hnh,hni,hnx,hmake,hclock,hnone.1,
      bind,Except.bind]
  | inr hsome =>
    obtain ⟨o,p,ho,hp,hany,hso,hsp,hin⟩ := hsome
    have hno := toInt_digits ho (by decide)
    have hnp := toInt_digits hp (by decide)
    obtain ⟨ho15,hp59⟩ := hin.mp hzone
    have hoffset : ¬(15 < value o∨59 < value p) := by omega
    refine ⟨⟨(value y,value m,value d),value h,value i,value x⟩,?_⟩
    simp [toTimestamptz,hpattern,hfields,hh,hi,hx,hny,hnm,hnd,hnh,hni,hnx,hmake,hclock,hany,hso,hsp,
      hno,hnp,hoffset,bind,Except.bind]

theorem isoTimestampOk_form (hform : StampForm s y m d h i x f z) :
    Answers (isoTimestampOk s) (StampReal y m d h i x z) := by
  have hpattern : anchored timestampPattern s=true := anchored_timestamp.mpr ⟨_,_,_,_,_,_,_,_,hform⟩
  obtain ⟨hs10,hh,hi,hx⟩ := stamp_fields hform
  have hdate := hform.date
  obtain ⟨b,hb,hday⟩ := isoDateOk_form (s := y++('-'::m++('-'::d))) ⟨hdate.1,hdate.2.1,hdate.2.2,rfl⟩
  rw [← hs10] at hb
  have hnh := toInt_digits hform.clock.1 (by decide)
  have hni := toInt_digits hform.clock.2.1 (by decide)
  have hnx := toInt_digits hform.clock.2.2 (by decide)
  cases b with
  | false =>
    refine ⟨false,?_,?_⟩
    · simp [isoTimestampOk,hpattern,hb,handling,bind,Except.bind,pure,Except.pure]
    · exact ⟨by simp,fun hreal => hday.mpr hreal.1⟩
  | true =>
    by_cases hclock : value h ≤ 23∧value i ≤ 59∧value x ≤ 59
    · have hin : ¬(value h > 23∨value i > 59∨value x > 59) := by omega
      cases zone_cases hform with
      | inl hnone =>
        have hreal : StampReal y m d h i x z := ⟨hday.mp rfl,hclock,hnone.2⟩
        obtain ⟨stamp,hstamp⟩ := toTimestamptz_form hform hreal
        refine ⟨true,?_,by simp [hreal]⟩
        simp [isoTimestampOk,hpattern,hb,hh,hi,hx,hnh,hni,hnx,hin,hnone.1,hstamp,handling,bind,
          Except.bind,pure,Except.pure]
      | inr hsome =>
        obtain ⟨o,p,ho,hp,hany,hso,hsp,hzone⟩ := hsome
        have hno := toInt_digits ho (by decide)
        have hnp := toInt_digits hp (by decide)
        by_cases hoffset : offsetIn (value o) (value p)
        · have hreal : StampReal y m d h i x z := ⟨hday.mp rfl,hclock,hzone.mpr hoffset⟩
          obtain ⟨stamp,hstamp⟩ := toTimestamptz_form hform hreal
          obtain ⟨ho15,hp59⟩ := hoffset
          have hoff : ¬(value o > 15∨value p > 59) := by omega
          refine ⟨true,?_,by simp [hreal]⟩
          simp [isoTimestampOk,hpattern,hb,hh,hi,hx,hnh,hni,hnx,hin,hany,hso,hsp,hno,hnp,hoff,hstamp,
            handling,bind,Except.bind,pure,Except.pure]
        · have hoff : value o > 15∨value p > 59 := by
            rw [offsetIn] at hoffset
            omega
          refine ⟨false,?_,?_⟩
          · simp [isoTimestampOk,hpattern,hb,hh,hi,hx,hnh,hni,hnx,hin,hany,hso,hsp,hno,hnp,hoff,
              handling,bind,Except.bind,pure,Except.pure]
          · exact ⟨by simp,fun hreal => absurd (hzone.mp hreal.2.2) hoffset⟩
    · have hout : value h > 23∨value i > 59∨value x > 59 := by omega
      refine ⟨false,?_,?_⟩
      · simp [isoTimestampOk,hpattern,hb,hh,hi,hx,hnh,hni,hnx,hout,handling,bind,Except.bind,pure,
          Except.pure]
      · exact ⟨by simp,fun hreal => absurd hreal.2.1 hclock⟩

/-- What a check answers of every text it answers of each text in form, if it refuses the others. -/
theorem isoTimestampOk_answers (s : Text) : Answers (isoTimestampOk s)
    (∃ y m d h i x f z, StampForm s y m d h i x f z∧StampReal y m d h i x z) := by
  by_cases hpattern : anchored timestampPattern s=true
  · obtain ⟨y,m,d,h,i,x,f,z,hform⟩ := anchored_timestamp.mp hpattern
    obtain ⟨b,hb,hreal⟩ := isoTimestampOk_form hform
    refine ⟨b,hb,fun hyes => ⟨y,m,d,h,i,x,f,z,hform,hreal.mp hyes⟩,?_⟩
    rintro ⟨y',m',d',h',i',x',f',z',hform',hreal'⟩
    obtain ⟨b',hb',hread⟩ := isoTimestampOk_form hform'
    have hsame : b=b' := Except.ok.inj (hb.symm.trans hb')
    rw [hsame]
    exact hread.mpr hreal'
  · refine ⟨false,by simp [isoTimestampOk,hpattern,handling,pure,Except.pure],
      by simp,?_⟩
    rintro ⟨y,m,d,h,i,x,f,z,hform,-⟩
    exact absurd (anchored_timestamp.mpr ⟨_,_,_,_,_,_,_,_,hform⟩) hpattern

end Kitp.IsoDates
