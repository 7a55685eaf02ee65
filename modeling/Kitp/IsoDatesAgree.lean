import Kitp.IsoDateForms
import Kitp.Lib.Bounded
import Kitp.Lib.PercentText

/-! The server and the database accept the same dates and the same timestamps. -/
namespace Kitp.IsoDates
open Kitp.Utf8 (encode encode_cons encodeChar_cases encodeChar_ascii byte_all)
open Kitp.PercentText (encodeChar_inj)

variable {s u v y m d h i x f z : Text} {bs r : Bytes}

/-! Bytes as characters. -/

def byte (c : Char) : UInt8 := UInt8.ofNat c.toNat

def char (b : UInt8) : Char := Char.ofNat b.toNat

theorem byte_char (b : UInt8) : byte (char b)=b := by
  revert b
  exact byte_all (by decide +kernel)

theorem isDigit_char (b : UInt8) : isDigit b=(char b).isDigit := by
  revert b
  exact byte_all (by decide +kernel)

/-- A text whose bytes are all ASCII is those bytes. -/
theorem text_of_ascii (h : ∀ b∈encode s, b < 0x80) : s=(encode s).map char := by
  induction s with
  | nil => rfl
  | cons c s ih =>
    rw [encode_cons] at h ⊢
    have hrest := ih fun b hb => h b (List.mem_append_right _ hb)
    cases encodeChar_cases c with
    | inl hone =>
      obtain ⟨b,hchar,hb⟩ := hone
      have hc : c=char b := encodeChar_inj (hchar.trans (encodeChar_ascii b hb).symm)
      rw [hchar,List.singleton_append,List.map_cons,← hrest,← hc]
    | inr hmany =>
      obtain ⟨b,more,hchar,-,-,hb,-⟩ := hmany
      have hsmall := h b (by rw [hchar]; simp)
      rw [UInt8.lt_iff_toNat_lt] at hsmall
      rw [UInt8.le_iff_toNat_le] at hb
      exact absurd hsmall (Nat.not_lt.mpr hb)

theorem byte_ascii {c : Char} (h : c.toNat < 128) : byte c < 0x80∧encode [c]=[byte c]∧char (byte c)=c := by
  have hnat : (byte c).toNat=c.toNat := by
    rw [byte,UInt8.toNat_ofNat']
    omega
  have hchar : char (byte c)=c := by
    rw [char,hnat,Char.ofNat_toNat]
  have hlt : byte c < 0x80 := by
    rw [UInt8.lt_iff_toNat_lt,hnat]
    exact h
  refine ⟨hlt,?_,hchar⟩
  have henc := encodeChar_ascii (byte c) hlt
  rw [hnat,Char.ofNat_toNat] at henc
  rw [encode_cons,henc]
  rfl

theorem encode_ascii (h : ∀ c∈u, c.toNat < 128) : encode u=u.map byte := by
  induction u with
  | nil => rfl
  | cons c u ih =>
    obtain ⟨-,hc,-⟩ := byte_ascii (h c List.mem_cons_self)
    have hrest := ih fun d hd => h d (List.mem_cons_of_mem _ hd)
    rw [encode_cons] at hc ⊢
    rw [List.map_cons,hrest,← List.singleton_append,← hc]
    simp [encode]

theorem digit_ascii {c : Char} (h : c.isDigit) : c.toNat < 128 := by
  have hle : c.toNat ≤ 57 := (Char.isDigit_iff_toNat.mp h).2
  omega

theorem number_value (h : ∀ c∈u, c.isDigit) : number (u.map byte)=value u := by
  have hfrom : ∀ n, (u.map byte).foldl (fun n b => 10*n+(b.toNat-48)) n=
      u.foldl (fun n c => 10*n+(c.toNat-48)) n := by
    induction u with
    | nil =>
      intro n
      rfl
    | cons c u ih =>
      intro n
      have hsmall := digit_ascii (h c List.mem_cons_self)
      have hnat : (byte c).toNat=c.toNat := by
        rw [byte,UInt8.toNat_ofNat']
        omega
      rw [List.map_cons,List.foldl_cons,List.foldl_cons,hnat]
      exact ih (fun d hd => h d (List.mem_cons_of_mem _ hd)) _
  exact hfrom 0

theorem isDigit_byte {c : Char} (h : c.isDigit) : isDigit (byte c)=true := by
  rw [isDigit_char,(byte_ascii (digit_ascii h)).2.2,h]

theorem digits_byte {n : Nat} (h : Digits n u) (hn : 0 < n) : digits (u.map byte)=true := by
  have hne : u.map byte≠[] := by
    apply List.ne_nil_of_length_pos
    rw [List.length_map,h.1]
    exact hn
  rw [digits,Bool.and_eq_true,List.all_map,List.all_eq_true]
  exact ⟨fun c hc => isDigit_byte (h.2 c hc),decide_eq_true hne⟩

/-- Digits among the bytes are digits of a text. -/
theorem digits_text {n : Nat} (hr : digits r=true) (hlen : r.length=n) :
    ∃ u, Digits n u∧r=u.map byte := by
  rw [digits,Bool.and_eq_true,List.all_eq_true] at hr
  refine ⟨r.map char,⟨by rw [List.length_map,hlen],?_⟩,?_⟩
  · intro c hc
    obtain ⟨b,hb,rfl⟩ := List.mem_map.mp hc
    rw [← isDigit_char]
    exact hr.1 b hb
  · rw [List.map_map]
    have hid : (byte∘char)=id := funext byte_char
    rw [hid,List.map_id]

/-! Places among the bytes. -/

theorem slice_at {a b c : Bytes} {n k : Nat} (ha : a.length=n) (hb : b.length=k-n) :
    slice (a++(b++c)) n k=b := take_drop_at ha hb

theorem slice_drop {n k : Nat} (h : n ≤ k) : slice bs n k++bs.drop k=bs.drop n := by
  have hk : bs.drop k=(bs.drop n).drop (k-n) := by
    rw [List.drop_drop]
    congr 1
    omega
  rw [slice,hk,List.take_append_drop]

theorem drop_place {n : Nat} {b : UInt8} (h : bs[n]?=some b) : bs.drop n=b::bs.drop (n+1) := by
  obtain ⟨hlt,hget⟩ := List.getElem?_eq_some_iff.mp h
  rw [List.drop_eq_getElem_cons hlt,hget]

theorem slice_length {n k : Nat} (hk : k ≤ bs.length) : (slice bs n k).length=k-n := by
  rw [slice,List.length_take,List.length_drop]
  omega

/-! Dates. -/

theorem validDate_form (hform : DateForm s y m d) : validDate (s.map byte) ↔ DayReal y m d := by
  obtain ⟨hy,hm,hd,rfl⟩ := hform
  have hbs : (y++('-'::m++('-'::d))).map byte=
      y.map byte++(0x2D::(m.map byte++(0x2D::d.map byte))) := by
    simp only [List.map_append,List.map_cons,List.cons_append]
    rfl
  rw [hbs]
  have hly : (y.map byte).length=4 := by rw [List.length_map,hy.1]
  have hlm : (m.map byte).length=2 := by rw [List.length_map,hm.1]
  have hld : (d.map byte).length=2 := by rw [List.length_map,hd.1]
  have hdy := digits_byte hy (by decide)
  have hdm := digits_byte hm (by decide)
  have hdd := digits_byte hd (by decide)
  have hny := number_value hy.2
  have hnm := number_value hm.2
  have hnd := number_value hd.2
  generalize y.map byte=Y at *
  generalize m.map byte=M at *
  generalize d.map byte=D at *
  have hsy : slice (Y++(0x2D::(M++(0x2D::D)))) 0 4=Y := by
    have hat := slice_at (a := []) (n := 0) (k := 4) (c := 0x2D::(M++(0x2D::D))) rfl hly
    simpa using hat
  have hsm : slice (Y++(0x2D::(M++(0x2D::D)))) 5 7=M := by
    have hat := slice_at (a := Y++[0x2D]) (n := 5) (k := 7) (c := 0x2D::D) (by simp [hly]) hlm
    simpa using hat
  have hsd : slice (Y++(0x2D::(M++(0x2D::D)))) 8 10=D := by
    have hat := slice_at (a := Y++(0x2D::(M++[0x2D]))) (n := 8) (k := 10) (c := [])
      (by simp [hly,hlm]) hld
    simpa using hat
  have h4 : (Y++(0x2D::(M++(0x2D::D))))[4]?=some 0x2D := by
    rw [List.getElem?_append_right (Nat.le_of_eq hly),hly]
    rfl
  have h7 : (Y++(0x2D::(M++(0x2D::D))))[7]?=some 0x2D := by
    have hat : Y++(0x2D::(M++(0x2D::D)))=(Y++(0x2D::M))++(0x2D::D) := by simp
    have hlen : (Y++(0x2D::M)).length=7 := by simp [hly,hlm]
    rw [hat,List.getElem?_append_right (Nat.le_of_eq hlen),hlen]
    rfl
  have hlen : (Y++(0x2D::(M++(0x2D::D)))).length=10 := by simp [hly,hlm,hld]
  generalize Y++(0x2D::(M++(0x2D::D)))=bs at *
  have hshape : ¬(bs.length≠10∨!digits (slice bs 0 4)∨bs[4]?≠some 0x2D∨!digits (slice bs 5 7)∨
      bs[7]?≠some 0x2D∨!digits (slice bs 8 10)) := by
    rw [hlen,hsy,hsm,hsd,h4,h7,hdy,hdm,hdd]
    decide
  rw [validDate,parseDate,if_neg hshape,timeParseDate,hsy,hsm,hsd,hny,hnm,hnd]
  by_cases hreal : realDay (value y) (value m) (value d)=true
  · rw [if_pos hreal]
    by_cases hyear : value y < 1
    · have hno : ¬DayReal y m d := fun h => Nat.not_le.mpr hyear h.1
      simp [hyear,hno,Except.isOk,Except.toBool]
    · have hyes : DayReal y m d := ⟨by omega,hreal⟩
      simp [hyear,hyes,Except.isOk,Except.toBool]
  · have hno : ¬DayReal y m d := fun h => hreal h.2
    simp [hreal,hno,Except.isOk,Except.toBool]

/-- Bytes the server takes for a date are those of a text in form. -/
theorem validDate_shape (h : validDate bs=true) : ∃ s y m d, DateForm s y m d∧bs=s.map byte := by
  have hshape : ¬(bs.length≠10∨!digits (slice bs 0 4)∨bs[4]?≠some 0x2D∨!digits (slice bs 5 7)∨
      bs[7]?≠some 0x2D∨!digits (slice bs 8 10)) := by
    intro hbad
    rw [validDate,parseDate,if_pos hbad] at h
    cases h
  simp only [not_or,not_not,Bool.not_eq_true,Bool.not_eq_false'] at hshape
  obtain ⟨hlen,hy,h4,hm,h7,hd⟩ := hshape
  obtain ⟨y,hdy,hy⟩ := digits_text hy (slice_length (by omega))
  obtain ⟨m,hdm,hm⟩ := digits_text hm (slice_length (by omega))
  obtain ⟨d,hdd,hd⟩ := digits_text hd (slice_length (by omega))
  refine ⟨_,y,m,d,⟨hdy,hdm,hdd,rfl⟩,?_⟩
  have hend : bs.drop 10=[] := List.drop_eq_nil_of_le (Nat.le_of_eq hlen)
  calc bs=slice bs 0 4++bs.drop 4 := (slice_drop (Nat.zero_le 4)).symm
    _=slice bs 0 4++(0x2D::(slice bs 5 7++bs.drop 7)) := by
      rw [drop_place h4,slice_drop (by decide)]
    _=slice bs 0 4++(0x2D::(slice bs 5 7++(0x2D::slice bs 8 10))) := by
      have hlast : slice bs 8 10++bs.drop 10=bs.drop 8 := slice_drop (by decide)
      rw [drop_place h7,← hlast,hend,List.append_nil]
    _=(y++('-'::m++('-'::d))).map byte := by
      rw [hy,hm,hd]
      simp only [List.map_append,List.map_cons,List.cons_append]
      rfl

/-! Zones and fractions. -/

theorem textLe_digits (hu : Digits 2 u) (hv : Digits 2 v) :
    textLe (u.map byte) (v.map byte) ↔ value u ≤ value v := by
  obtain ⟨a,b,rfl⟩ := List.length_eq_two.mp hu.1
  obtain ⟨c,e,rfl⟩ := List.length_eq_two.mp hv.1
  have hplace : ∀ x : Char, x.isDigit → (byte x).toNat=x.toNat∧48 ≤ x.toNat∧x.toNat ≤ 57 := by
    intro x hx
    have hbounds := Char.isDigit_iff_toNat.mp hx
    refine ⟨?_,hbounds⟩
    have := digit_ascii hx
    rw [byte,UInt8.toNat_ofNat']
    omega
  obtain ⟨ha,ha0,ha9⟩ := hplace a (hu.2 a (by simp))
  obtain ⟨hb,hb0,hb9⟩ := hplace b (hu.2 b (by simp))
  obtain ⟨hc,hc0,hc9⟩ := hplace c (hv.2 c (by simp))
  obtain ⟨he,he0,he9⟩ := hplace e (hv.2 e (by simp))
  simp only [List.map_cons,List.map_nil,textLe,value,List.foldl_cons,List.foldl_nil,Bool.or_eq_true,
    Bool.and_eq_true,decide_eq_true_eq,UInt8.lt_iff_toNat_lt,← UInt8.toNat_inj,ha,hb,hc,he,and_true]
  omega

theorem zone_offset {g : Char} {o p : Text} (hg : g = '+'∨g = '-') (ho : Digits 2 o) (hp : Digits 2 p) :
    zoneShape ((g::(o++(':'::p))).map byte) ↔ offsetIn (value o) (value p) := by
  have hbs : (g::(o++(':'::p))).map byte=byte g::(o.map byte++(0x3A::p.map byte)) := by
    simp only [List.map_append,List.map_cons]
    rfl
  have hle15 : textLe (o.map byte) [0x31,0x35] ↔ value o ≤ 15 := by
    have hle := textLe_digits (v := ['1','5']) ho ⟨rfl,by decide⟩
    exact hle
  have hle59 : textLe (p.map byte) [0x35,0x39] ↔ value p ≤ 59 := by
    have hle := textLe_digits (v := ['5','9']) hp ⟨rfl,by decide⟩
    exact hle
  have hlo : (o.map byte).length=2 := by rw [List.length_map,ho.1]
  have hlp : (p.map byte).length=2 := by rw [List.length_map,hp.1]
  have hdo := digits_byte ho (by decide)
  have hdp := digits_byte hp (by decide)
  rw [hbs]
  generalize o.map byte=O at *
  generalize p.map byte=P at *
  obtain ⟨a,b,rfl⟩ := List.length_eq_two.mp hlo
  obtain ⟨c,e,rfl⟩ := List.length_eq_two.mp hlp
  have hsign : byte g=0x2B∨byte g=0x2D := by
    cases hg with
    | inl hg => exact .inl (by rw [hg]; rfl)
    | inr hg => exact .inr (by rw [hg]; rfl)
  have hso : slice (byte g::([a,b]++(0x3A::[c,e]))) 1 3=[a,b] := rfl
  have hsp : slice (byte g::([a,b]++(0x3A::[c,e]))) 4 6=[c,e] := rfl
  simp only [zoneShape,hso,hsp,hdo,hdp]
  simp [hsign,hle15,hle59,offsetIn]

theorem zoneShape_shape (h : zoneShape r=true) : ∃ z, Zone (fun _ _ => True) z∧r=z.map byte := by
  rw [zoneShape] at h
  split at h
  · rename_i hz
    cases hz with
    | inl hz => exact ⟨['Z'],.upper,hz⟩
    | inr hz => exact ⟨['z'],.lower,hz⟩
  · split at h
    · rename_i hshape
      obtain ⟨hlen,hsign,ho,h3,hp⟩ := hshape
      obtain ⟨o,hdo,ho⟩ := digits_text ho (slice_length (by omega))
      obtain ⟨p,hdp,hp⟩ := digits_text hp (slice_length (by omega))
      obtain ⟨g,hg,h0⟩ : ∃ g, (g = '+'∨g = '-')∧r[0]?=some (byte g) := by
        cases hsign with
        | inl h0 => exact ⟨'+',.inl rfl,h0⟩
        | inr h0 => exact ⟨'-',.inr rfl,h0⟩
      refine ⟨_,.offset g o p hg hdo hdp trivial,?_⟩
      have hend : r.drop 6=[] := List.drop_eq_nil_of_le (Nat.le_of_eq hlen)
      calc r=byte g::r.drop 1 := drop_place h0
        _=byte g::(slice r 1 3++(0x3A::r.drop 4)) := by
          rw [← drop_place h3,slice_drop (by decide)]
        _=byte g::(slice r 1 3++(0x3A::slice r 4 6)) := by
          have hlast : slice r 4 6++r.drop 6=r.drop 4 := slice_drop (by decide)
          rw [← hlast,hend,List.append_nil]
        _=(g::(o++(':'::p))).map byte := by
          rw [ho,hp]
          simp only [List.map_append,List.map_cons]
          rfl
    · cases h

theorem zoneShape_form (hz : Zone (fun _ _ => True) z) :
    zoneShape (z.map byte) ↔ Zone offsetIn z := by
  cases hz with
  | upper => exact iff_of_true rfl .upper
  | lower => exact iff_of_true rfl .lower
  | offset g o p hg ho hp _ => rw [zone_offset hg ho hp,zone_offset_iff hg ho hp]

theorem isDigit_zone (hz : Zone (fun _ _ => True) z) :
    ∃ b rest, z.map byte=b::rest∧isDigit b=false∧b≠0x2E := by
  cases hz with
  | upper => exact ⟨_,[],rfl,rfl,by decide⟩
  | lower => exact ⟨_,[],rfl,rfl,by decide⟩
  | offset g o p hg _ _ _ =>
    refine ⟨byte g,_,rfl,?_⟩
    cases hg with
    | inl hg =>
      rw [hg]
      decide
    | inr hg =>
      rw [hg]
      decide

theorem dropFraction_form (hf : Fraction f) (hz : Zone (fun _ _ => True) z) :
    dropFraction ((f++z).map byte)=some (z.map byte) := by
  obtain ⟨b,rest,hb,hdigit,hpoint⟩ := isDigit_zone hz
  cases hf with
  | none =>
    rw [List.nil_append,hb,dropFraction,if_neg]
    simpa using hpoint
  | some ds hleast hmost hall =>
    have htake : ((ds++z).map byte).takeWhile isDigit=ds.map byte := by
      rw [List.map_append,hb,List.takeWhile_append_of_pos,List.takeWhile_cons_of_neg,List.append_nil]
      · simp [hdigit]
      · intro c hc
        obtain ⟨d,hd,rfl⟩ := List.mem_map.mp hc
        exact isDigit_byte (hall d hd)
    have hlen : (ds.map byte).length=ds.length := List.length_map _
    have hhead : (('.'::ds++z).map byte).head?=some 0x2E := rfl
    have htail : (('.'::ds++z).map byte).tail=(ds++z).map byte := rfl
    have hbound : ¬(1+ds.length=1∨1+ds.length > 10) := by omega
    rw [dropFraction,if_pos hhead]
    simp only [htail,htake,hlen]
    rw [if_neg hbound]
    have hdrop : (('.'::ds++z).map byte).drop (1+ds.length)=z.map byte := by
      rw [Nat.add_comm,List.cons_append,List.map_cons,List.drop_succ_cons,List.map_append,
        List.drop_left' hlen]
    rw [hdrop]

theorem dropFraction_shape {q : Bytes} (h : dropFraction r=some q) :
    ∃ f, Fraction f∧r=f.map byte++q := by
  rw [dropFraction] at h
  split at h
  · rename_i hhead
    simp only at h
    split at h
    · cases h
    · rename_i hbound
      cases r with
      | nil => cases hhead
      | cons b r =>
        have hb : b=0x2E := Option.some.inj hhead
        have hq := Option.some.inj h
        rw [List.tail_cons,Nat.add_comm,List.drop_succ_cons] at hq
        have hn : 1 ≤ (r.takeWhile isDigit).length∧(r.takeWhile isDigit).length ≤ 9 := by
          rw [List.tail_cons] at hbound
          omega
        have hall : digits (r.takeWhile isDigit)=true := by
          rw [digits,Bool.and_eq_true]
          exact ⟨List.all_takeWhile,decide_eq_true (List.ne_nil_of_length_pos hn.1)⟩
        obtain ⟨ds,hds,hsame⟩ := digits_text hall rfl
        refine ⟨'.'::ds,.some ds (by rw [hds.1]; exact hn.1) (by rw [hds.1]; exact hn.2) hds.2,?_⟩
        have hrest : r.drop (r.takeWhile isDigit).length=r.dropWhile isDigit := by
          have hleft : (r.takeWhile isDigit++r.dropWhile isDigit).drop (r.takeWhile isDigit).length=
            r.dropWhile isDigit := List.drop_left
          rwa [List.takeWhile_append_dropWhile] at hleft
        rw [← hq,hrest,List.map_cons,← hsame,List.cons_append,List.takeWhile_append_dropWhile,hb]
        rfl
  · exact ⟨[],.none,by rw [Option.some.inj h]; rfl⟩

/-! Timestamps. -/

theorem stamp_bytes (s z : Text) (t : Char) : (s++(t::(h++(':'::i++(':'::x++(f++z)))))).map byte=
    s.map byte++(byte t::(h.map byte++(0x3A::(i.map byte++(0x3A::(x.map byte++(f++z).map byte)))))) := by
  simp only [List.map_append,List.map_cons,List.cons_append]
  rfl

/-- The fields of a timestamp among its bytes. -/
theorem stamp_slices {D H I X R : Bytes} (t : UInt8) (hD : D.length=10) (hH : H.length=2)
    (hI : I.length=2) (hX : X.length=2)
    (hbs : bs=D++(t::(H++(0x3A::(I++(0x3A::(X++R))))))) :
    (slice bs 0 10=D∧slice bs 11 13=H∧slice bs 14 16=I∧slice bs 17 19=X)∧
      (bs[10]?=some t∧bs[13]?=some 0x3A∧bs[16]?=some 0x3A)∧bs.drop 19=R∧
      bs.length=19+R.length := by
  subst hbs
  have h10 : ∀ {a c : Bytes} {b : UInt8} {n : Nat}, a.length=n → (a++(b::c))[n]?=some b := by
    intro a c b n hn
    rw [List.getElem?_append_right (Nat.le_of_eq hn),hn,Nat.sub_self]
    rfl
  refine ⟨⟨?_,?_,?_,?_⟩,⟨?_,?_,?_⟩,?_,?_⟩
  · have hat := slice_at (a := []) (n := 0) (k := 10) (c := t::(H++(0x3A::(I++(0x3A::(X++R)))))) rfl hD
    simpa using hat
  · have hat := slice_at (a := D++[t]) (n := 11) (k := 13) (c := 0x3A::(I++(0x3A::(X++R))))
      (by simp [hD]) hH
    simpa using hat
  · have hat := slice_at (a := D++(t::(H++[0x3A]))) (n := 14) (k := 16) (c := 0x3A::(X++R))
      (by simp [hD,hH]) hI
    simpa using hat
  · have hat := slice_at (a := D++(t::(H++(0x3A::(I++[0x3A]))))) (n := 17) (k := 19) (c := R)
      (by simp [hD,hH,hI]) hX
    simpa using hat
  · exact h10 hD
  · have hat := h10 (a := D++(t::H)) (b := 0x3A) (n := 13) (c := I++(0x3A::(X++R))) (by simp [hD,hH])
    simpa using hat
  · have hat := h10 (a := D++(t::(H++(0x3A::I)))) (b := 0x3A) (n := 16) (c := X++R)
      (by simp [hD,hH,hI])
    simpa using hat
  · have hat : (D++(t::(H++(0x3A::(I++(0x3A::X)))))++R).drop 19=R :=
      List.drop_left' (by simp [hD,hH,hI,hX])
    simpa using hat
  · simp only [List.length_append,List.length_cons,hD,hH,hI,hX]
    omega

theorem timestampShape_form (hform : StampForm s y m d h i x f z) :
    timestampShape (s.map byte) ↔ DayReal y m d∧Zone offsetIn z := by
  obtain ⟨hdate,⟨hh,hi,hx⟩,hf,hz,t,ht,rfl⟩ := hform
  have hday := validDate_form (s := y++('-'::m++('-'::d))) ⟨hdate.1,hdate.2.1,hdate.2.2,rfl⟩
  have hlen := date_length hdate
  rw [stamp_bytes _ z]
  generalize y++('-'::m++('-'::d))=D at hlen hday
  generalize hbs : D.map byte++(byte t::(h.map byte++(0x3A::(i.map byte++(0x3A::(x.map byte++
    (f++z).map byte)))))) = bs
  obtain ⟨⟨hsD,hsh,hsi,hsx⟩,⟨h10,h13,h16⟩,hdrop,hsize⟩ := stamp_slices (byte t)
    (by rw [List.length_map,hlen]) (by rw [List.length_map,hh.1]) (by rw [List.length_map,hi.1])
    (by rw [List.length_map,hx.1]) hbs.symm
  have htee : ¬(some (byte t)≠some 0x54∧some (byte t)≠some 0x74) := by
    cases ht with
    | inl ht =>
      rw [ht]
      decide
    | inr ht =>
      rw [ht]
      decide
  have hpos : ¬bs.length < 20 := by
    obtain ⟨b,rest,hb,-⟩ := isDigit_zone hz
    have hzlen := congrArg List.length hb
    rw [List.length_map,List.length_cons] at hzlen
    rw [hsize,List.length_map,List.length_append]
    omega
  have hdh := digits_byte hh (by decide)
  have hdi := digits_byte hi (by decide)
  have hdx := digits_byte hx (by decide)
  rw [timestampShape,hsD,hsh,hsi,hsx,h10,h13,h16,hdrop,dropFraction_form hf hz,hdh,hdi,hdx]
  by_cases hreal : DayReal y m d
  · have hvalid := hday.mpr hreal
    have hfirst : ¬(bs.length < 20∨(!validDate (D.map byte))=true∨
        (some (byte t)≠some 0x54∧some (byte t)≠some 0x74)) := by
      rw [hvalid]
      rintro (hshort | hno | hother)
      · exact hpos hshort
      · cases hno
      · exact htee hother
    rw [if_neg hfirst,if_neg (by simp)]
    simp only [hreal,true_and]
    exact zoneShape_form hz
  · have hvalid : validDate (D.map byte)=false := Bool.eq_false_iff.mpr fun hv => hreal (hday.mp hv)
    rw [if_pos (by simp [hvalid])]
    simp [hreal]

theorem timestampShape_shape (hs : timestampShape bs=true) :
    ∃ s y m d h i x f z, StampForm s y m d h i x f z∧bs=s.map byte := by
  rw [timestampShape] at hs
  split at hs
  · cases hs
  · rename_i hfirst
    split at hs
    · cases hs
    · rename_i hclock
      split at hs
      · cases hs
      · rename_i q hq
        simp only [not_or,not_not,Bool.not_eq_true,Bool.not_eq_false',not_and_or] at hfirst hclock
        obtain ⟨hlen,hday,htee⟩ := hfirst
        obtain ⟨hh,h13,hi,h16,hx⟩ := hclock
        obtain ⟨D,y,m,d,hform,hD⟩ := validDate_shape hday
        obtain ⟨h,hdh,hh⟩ := digits_text hh (slice_length (by omega))
        obtain ⟨i,hdi,hi⟩ := digits_text hi (slice_length (by omega))
        obtain ⟨x,hdx,hx⟩ := digits_text hx (slice_length (by omega))
        obtain ⟨f,hf,hrest⟩ := dropFraction_shape hq
        obtain ⟨z,hz,rfl⟩ := zoneShape_shape hs
        obtain ⟨t,ht,h10⟩ : ∃ t, (t = 'T'∨t = 't')∧bs[10]?=some (byte t) := by
          cases htee with
          | inl h10 => exact ⟨'T',.inl rfl,h10⟩
          | inr h10 => exact ⟨'t',.inr rfl,h10⟩
        obtain ⟨hy,hm,hd,hwhole⟩ := hform
        refine ⟨_,y,m,d,h,i,x,f,z,⟨⟨hy,hm,hd⟩,⟨hdh,hdi,hdx⟩,hf,hz,t,ht,rfl⟩,?_⟩
        calc bs=slice bs 0 10++bs.drop 10 := (slice_drop (Nat.zero_le 10)).symm
          _=slice bs 0 10++(byte t::(slice bs 11 13++bs.drop 13)) := by
            rw [drop_place h10,slice_drop (by decide)]
          _=slice bs 0 10++(byte t::(slice bs 11 13++(0x3A::(slice bs 14 16++bs.drop 16)))) := by
            rw [drop_place h13,slice_drop (by decide)]
          _=slice bs 0 10++(byte t::(slice bs 11 13++(0x3A::(slice bs 14 16++
              (0x3A::(slice bs 17 19++bs.drop 19)))))) := by
            rw [drop_place h16,slice_drop (by decide)]
          _=(y++('-'::m++('-'::d))++(t::(h++(':'::i++(':'::x++(f++z)))))).map byte := by
            rw [stamp_bytes _ z,← hwhole,← hD,← hh,← hi,← hx,hrest,List.map_append]

/-- Parsing looks at the fields alone. -/
theorem timeParse_form {D H I X R : Bytes} {t : UInt8} (hdate : DateForm s y m d) (hD : D=s.map byte)
    (hh : Digits 2 h) (hH : H=h.map byte) (hi : Digits 2 i) (hI : I=i.map byte) (hx : Digits 2 x)
    (hX : X=x.map byte) (hday : DayReal y m d)
    (hbs : bs=D++(t::(H++(0x3A::(I++(0x3A::(X++R))))))) :
    (timeParse bs).isSome ↔ value h ≤ 23∧value i ≤ 59∧value x ≤ 59 := by
  obtain ⟨hy,hm,hd,hs⟩ := hdate
  have hlen : s.length=10 := by rw [hs,date_length ⟨hy,hm,hd⟩]
  obtain ⟨⟨hsD,hsh,hsi,hsx⟩,-⟩ := stamp_slices t (by rw [hD,List.length_map,hlen])
    (by rw [hH,List.length_map,hh.1]) (by rw [hI,List.length_map,hi.1])
    (by rw [hX,List.length_map,hx.1]) hbs
  have hparsed : ∃ date, timeParseDate (s.map byte)=some date := by
    have hvalid : validDate (s.map byte)=true := (validDate_form ⟨hy,hm,hd,hs⟩).mpr hday
    rw [validDate,parseDate] at hvalid
    split at hvalid
    · cases hvalid
    · cases hdate : timeParseDate (s.map byte) with
      | none =>
        rw [hdate] at hvalid
        cases hvalid
      | some date => exact ⟨date,rfl⟩
  obtain ⟨date,hparsed⟩ := hparsed
  rw [timeParse,hsD,hsh,hsi,hsx,hD,hparsed,hH,hI,hX,number_value hh.2,number_value hi.2,
    number_value hx.2]
  simp only
  split
  · rename_i hin
    simpa using hin
  · rename_i hout
    simpa using hout

theorem parseTimestamp_form (hform : StampForm s y m d h i x f z) :
    (parseTimestamp (s.map byte)).isOk ↔ StampReal y m d h i x z := by
  have hshape := timestampShape_form hform
  obtain ⟨hdate,⟨hh,hi,hx⟩,hf,hz,t,ht,hs⟩ := hform
  have hbytes : s.map byte=(y++('-'::m++('-'::d))).map byte++(byte t::(h.map byte++(0x3A::
      (i.map byte++(0x3A::(x.map byte++(f++z).map byte)))))) := by rw [hs,stamp_bytes _ z]
  have hlen := date_length hdate
  by_cases hin : timestampShape (s.map byte)=true
  · obtain ⟨hday,hzone⟩ := hshape.mp hin
    have hdateForm : DateForm (y++('-'::m++('-'::d))) y m d := ⟨hdate.1,hdate.2.1,hdate.2.2,rfl⟩
    -- The last letter made upper-case leaves the fields as they are.
    obtain ⟨R,hR⟩ : ∃ R, (let b := (s.map byte).set 10 0x54
        if b.getLast?=some 0x7A then b.dropLast++[0x5A] else b)=
        (y++('-'::m++('-'::d))).map byte++((0x54 : UInt8)::(h.map byte++(0x3A::(i.map byte++
          (0x3A::(x.map byte++R)))))) := by
      rw [hbytes]
      generalize y++('-'::m++('-'::d))=D at hlen
      have hset : (D.map byte++(byte t::(h.map byte++(0x3A::(i.map byte++(0x3A::(x.map byte++
          (f++z).map byte))))))).set 10 0x54=D.map byte++((0x54 : UInt8)::(h.map byte++(0x3A::
          (i.map byte++(0x3A::(x.map byte++(f++z).map byte)))))) := by
        rw [List.set_append_right _ _ (by rw [List.length_map,hlen]),List.length_map,hlen]
        rfl
      simp only [hset]
      split
      · have hne : (f++z).map byte≠[] := by
          obtain ⟨b,rest,hb,-⟩ := isDigit_zone hz
          rw [List.map_append,hb]
          simp
        refine ⟨((f++z).map byte).dropLast++[0x5A],?_⟩
        have hassoc : ∀ R : Bytes, D.map byte++((0x54 : UInt8)::(h.map byte++(0x3A::(i.map byte++
            (0x3A::(x.map byte++R))))))=(D.map byte++((0x54 : UInt8)::(h.map byte++(0x3A::(i.map byte++
            (0x3A::x.map byte))))))++R := by
          intro R
          simp
        rw [hassoc,hassoc,List.dropLast_append_of_ne_nil hne,List.append_assoc]
      · exact ⟨_,rfl⟩
    have hparse := timeParse_form hdateForm rfl hh rfl hi rfl hx rfl hday hR
    rw [parseTimestamp,if_neg (by rw [hin]; simp)]
    simp only at hparse ⊢
    split
    · rename_i hnone
      rw [hnone] at hparse
      have hout := hparse.not.mp (by simp)
      exact iff_of_false (by simp [Except.isOk,Except.toBool]) fun hreal => hout hreal.2.1
    · rename_i stamp hsome
      rw [hsome] at hparse
      exact iff_of_true rfl ⟨hday,hparse.mp rfl,hzone⟩
  · rw [parseTimestamp,if_pos (by simpa using hin)]
    exact iff_of_false (by simp [Except.isOk,Except.toBool]) fun hreal =>
      hin (hshape.mpr ⟨hreal.1,hreal.2.2⟩)

/-! Both checks. -/

def Ascii (u : Text) : Prop := ∀ c∈u, c.toNat < 128

theorem Ascii.append (hu : Ascii u) (hv : Ascii v) : Ascii (u++v) :=
  List.forall_mem_append.mpr ⟨hu,hv⟩

theorem Ascii.cons {c : Char} (hc : c.toNat < 128) (hu : Ascii u) : Ascii (c::u) :=
  List.forall_mem_cons.mpr ⟨hc,hu⟩

theorem Digits.ascii {n : Nat} (hu : Digits n u) : Ascii u := fun c hc => digit_ascii (hu.2 c hc)

theorem DateForm.ascii (hform : DateForm s y m d) : Ascii s := by
  obtain ⟨hy,hm,hd,rfl⟩ := hform
  exact hy.ascii.append (.append (.cons (by decide) hm.ascii) (.cons (by decide) hd.ascii))

theorem Zone.ascii (hz : Zone (fun _ _ => True) z) : Ascii z := by
  have hnil : Ascii [] := List.forall_mem_nil _
  cases hz with
  | upper => exact .cons (by decide) hnil
  | lower => exact .cons (by decide) hnil
  | offset g o p hg ho hp _ =>
    have hsmall : g.toNat < 128 := by
      cases hg with
      | inl hg =>
        rw [hg]
        decide
      | inr hg =>
        rw [hg]
        decide
    exact .cons hsmall (ho.ascii.append (.cons (by decide) hp.ascii))

theorem StampForm.ascii (hform : StampForm s y m d h i x f z) : Ascii s := by
  obtain ⟨⟨hy,hm,hd⟩,⟨hh,hi,hx⟩,hf,hz,t,ht,rfl⟩ := hform
  have hdate : Ascii (y++('-'::m++('-'::d))) := DateForm.ascii ⟨hy,hm,hd,rfl⟩
  have hfraction : Ascii f := by
    cases hf with
    | none => exact List.forall_mem_nil _
    | some ds _ _ hall => exact .cons (by decide) fun c hc => digit_ascii (hall c hc)
  have htee : t.toNat < 128 := by
    cases ht with
    | inl ht =>
      rw [ht]
      decide
    | inr ht =>
      rw [ht]
      decide
  exact hdate.append (.cons htee (hh.ascii.append (.append (.cons (by decide) hi.ascii)
    (.append (.cons (by decide) hx.ascii) (hfraction.append hz.ascii)))))

theorem encode_map_iff (hu : Ascii u) : encode s=u.map byte ↔ s=u := by
  constructor
  · intro hsame
    have hsmall : ∀ b∈encode s, b < 0x80 := by
      intro b hb
      rw [hsame] at hb
      obtain ⟨c,hc,rfl⟩ := List.mem_map.mp hb
      exact (byte_ascii (hu c hc)).1
    calc s=(encode s).map char := text_of_ascii hsmall
      _=u.map (char∘byte) := by rw [hsame,List.map_map]
      _=u := by
        have hid : u.map (char∘byte)=u.map id :=
          List.map_congr_left fun c hc => (byte_ascii (hu c hc)).2.2
        rw [hid,List.map_id]
  · rintro rfl
    exact encode_ascii hu

theorem validDate_answers (s : Text) :
    validDate (encode s) ↔ ∃ y m d, DateForm s y m d∧DayReal y m d := by
  constructor
  · intro hvalid
    obtain ⟨u,y,m,d,hform,hbs⟩ := validDate_shape hvalid
    rw [hbs] at hvalid
    have hsame : s=u := (encode_map_iff hform.ascii).mp hbs
    rw [hsame]
    exact ⟨y,m,d,hform,(validDate_form hform).mp hvalid⟩
  · rintro ⟨y,m,d,hform,hday⟩
    rw [encode_ascii hform.ascii]
    exact (validDate_form hform).mpr hday

theorem parseTimestamp_answers (s : Text) : (parseTimestamp (encode s)).isOk ↔
    ∃ y m d h i x f z, StampForm s y m d h i x f z∧StampReal y m d h i x z := by
  constructor
  · intro hok
    have hshape : timestampShape (encode s)=true := by
      by_contra hno
      rw [parseTimestamp,if_pos (by simpa using hno)] at hok
      cases hok
    obtain ⟨u,y,m,d,h,i,x,f,z,hform,hbs⟩ := timestampShape_shape hshape
    rw [hbs] at hok
    have hsame : s=u := (encode_map_iff hform.ascii).mp hbs
    rw [hsame]
    exact ⟨y,m,d,h,i,x,f,z,hform,(parseTimestamp_form hform).mp hok⟩
  · rintro ⟨y,m,d,h,i,x,f,z,hform,hreal⟩
    rw [encode_ascii hform.ascii]
    exact (parseTimestamp_form hform).mpr hreal

/-- Both answers are one where they say the same. -/
theorem Answers.same {a : Except SqlError Bool} {p : Prop} {b : Bool} (ha : Answers a p)
    (hb : b ↔ p) : a=.ok b := by
  obtain ⟨c,rfl,hc⟩ := ha
  congr 1
  exact Bool.eq_iff_iff.mpr (hc.trans hb.symm)

/-- The checks in the database raise nothing and answer what those of the server do. -/
theorem checks_agree (s : Text) : isoDateOk s=.ok (validDate (encode s))∧
    isoTimestampOk s=.ok (parseTimestamp (encode s)).isOk :=
  ⟨(isoDateOk_answers s).same (validDate_answers s),
    (isoTimestampOk_answers s).same (parseTimestamp_answers s)⟩

end Kitp.IsoDates
