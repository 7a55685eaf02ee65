import Kitp.Lib.Utf8

/-! Percent escapes in the text of a URL: how a script reads them back, how a browser writes
the path of a reference, and which texts come back as they were. -/
namespace Kitp.PercentText
open Kitp.Utf8

abbrev Text := List Char

def hexDigit (c : Char) : Option UInt8 :=
  let n := c.toNat
  if 0x30≤n∧n≤0x39 then some (UInt8.ofNat (n-0x30))
  else if 0x41≤n∧n≤0x46 then some (UInt8.ofNat (n-0x41+10))
  else if 0x61≤n∧n≤0x66 then some (UInt8.ofNat (n-0x61+10))
  else none

/-- One escape and what follows it. -/
def octet : Text → Option (UInt8×Text)
  | '%'::x::y::s => (hexDigit x).bind fun hi => (hexDigit y).map fun lo => (hi*16+lo,s)
  | _ => none

def octets : Nat → Text → Option (List UInt8×Text)
  | 0,s => some ([],s)
  | n+1,s => (octet s).bind fun o => (octets n o.2).map fun r => (o.1::r.1,r.2)

/-- The octets are the UTF-8 encoding of one character. -/
def decodeOctets (bs : List UInt8) : Option Char :=
  (bs.toByteArray.utf8DecodeChar? 0).filter fun c => String.utf8EncodeChar c=bs

def leadingOnes (b : UInt8) : Nat :=
  if b < 0x80 then 0 else if b < 0xC0 then 1 else if b < 0xE0 then 2 else if b < 0xF0 then 3
  else if b < 0xF8 then 4 else 5

/-- The first character of a text, its escapes read, and what follows; none where
`decodeURIComponent` throws. -/
def takeChar : Text → Option (Char×Text)
  | [] => none
  | c::s =>
    if c ≠ '%' then some (c,s)
    else (octet (c::s)).bind fun o =>
      if o.1 < 0x80 then some (Char.ofNat o.1.toNat,o.2)
      else
        let n := leadingOnes o.1
        if n=1∨4 < n then none
        else (octets (n-1) o.2).bind fun r => (decodeOctets (o.1::r.1)).map (·,r.2)

def decodeFrom : Nat → Text → Option Text
  | _,[] => some []
  | 0,_::_ => none
  | n+1,s => (takeChar s).bind fun o => (decodeFrom n o.2).map (o.1::·)

/-- None where it throws. -/
def decodeURIComponent (s : Text) : Option Text := decodeFrom s.length s

/-- Escapes of the octets, one after another. -/
inductive Escapes : List UInt8 → Text → Prop
  | nil : Escapes [] []
  | cons {x y : Char} {hi lo : UInt8} {bs : List UInt8} {e : Text} : hexDigit x=some hi →
      hexDigit y=some lo → Escapes bs e → Escapes ((hi*16+lo)::bs) ('%'::x::y::e)

/-- A piece of text that stands for one character. -/
inductive Spells (c : Char) : Text → Prop
  | plain : c ≠ '%' → Spells c [c]
  | escaped {e : Text} : Escapes (String.utf8EncodeChar c) e → Spells c e

/-- A text that stands for the characters `cs`: every percent sign in it begins an escape, and
the escapes spell characters in UTF-8. -/
inductive Spelled : Text → Text → Prop
  | nil : Spelled [] []
  | cons {c : Char} {cs e s : Text} : Spells c e → Spelled cs s → Spelled (c::cs) (e++s)

variable {s rest e cs : Text} {c : Char} {b : UInt8} {bs : List UInt8} {n : Nat}

theorem hexDigit_plain {v : UInt8} (h : hexDigit c=some v) : c ≠ '%'∧c.utf8Size=1 := by
  have hrange : 0x30 ≤ c.toNat∧c.toNat≤0x66 := by
    unfold hexDigit at h
    dsimp only at h
    split at h
    · omega
    · split at h
      · omega
      · split at h
        · omega
        · cases h
  constructor
  · rintro rfl
    exact absurd hrange.1 (by decide)
  · rw [Char.utf8Size_eq_one_iff,UInt32.le_iff_toNat_le]
    have hval : c.val.toNat=c.toNat := rfl
    have hbound : (127 : UInt32).toNat=127 := rfl
    omega

theorem octet_iff : octet s=some (b,rest)↔
    ∃ x y hi lo, hexDigit x=some hi∧hexDigit y=some lo∧b=hi*16+lo∧s = '%'::x::y::rest := by
  constructor
  · intro h
    unfold octet at h
    split at h
    · rename_i x y s
      obtain ⟨hi,hx,h⟩ := Option.bind_eq_some_iff.mp h
      obtain ⟨lo,hy,h⟩ := Option.map_eq_some_iff.mp h
      cases h
      exact ⟨x,y,hi,lo,hx,hy,rfl,rfl⟩
    · cases h
  · rintro ⟨x,y,hi,lo,hx,hy,rfl,rfl⟩
    simp [octet,hx,hy]

theorem octets_iff : octets n s=some (bs,rest)↔
    bs.length=n∧∃ e, Escapes bs e∧s=e++rest := by
  induction n generalizing s bs with
  | zero =>
    constructor
    · intro h
      cases h
      exact ⟨rfl,[],.nil,rfl⟩
    · rintro ⟨hlen,e,he,rfl⟩
      cases List.eq_nil_of_length_eq_zero hlen
      cases he
      rfl
  | succ n ih =>
    constructor
    · intro h
      obtain ⟨⟨b,mid⟩,ho,h⟩ := Option.bind_eq_some_iff.mp h
      obtain ⟨⟨more,last⟩,hr,h⟩ := Option.map_eq_some_iff.mp h
      cases h
      obtain ⟨x,y,hi,lo,hx,hy,rfl,rfl⟩ := octet_iff.mp ho
      obtain ⟨hlen,e,he,rfl⟩ := ih.mp hr
      exact ⟨by simp [hlen],_,.cons hx hy he,rfl⟩
    · rintro ⟨hlen,e,he,rfl⟩
      cases he with
      | nil => cases hlen
      | cons hx hy he =>
        rename_i x y hi lo more e
        have hmore : octets n (e++rest)=some (more,rest) :=
          ih.mpr ⟨by simpa using hlen,e,he,rfl⟩
        have hfirst : octet ('%'::x::y::(e++rest))=some (hi*16+lo,e++rest) :=
          octet_iff.mpr ⟨x,y,hi,lo,hx,hy,rfl,rfl⟩
        change (octet ('%'::x::y::(e++rest))).bind _=_
        rw [hfirst]
        simp [hmore]

theorem decodeOctets_iff : decodeOctets bs=some c↔String.utf8EncodeChar c=bs := by
  constructor
  · intro h
    simpa using (Option.filter_eq_some_iff.mp h).2
  · rintro rfl
    have hdecoded : (String.utf8EncodeChar c).toByteArray.utf8DecodeChar? 0=some c := by
      have := ByteArray.utf8DecodeChar?_utf8EncodeChar_append (b := ByteArray.empty) (c := c)
      rwa [ByteArray.append_empty] at this
    exact Option.filter_eq_some_iff.mpr ⟨hdecoded,by simp⟩

theorem encodeChar_inj {d : Char} (h : String.utf8EncodeChar c=String.utf8EncodeChar d) : c=d := by
  have hleft : decodeOctets (String.utf8EncodeChar d)=some c := decodeOctets_iff.mpr h
  have hright : decodeOctets (String.utf8EncodeChar d)=some d := decodeOctets_iff.mpr rfl
  exact Option.some.inj (hleft.symm.trans hright)

theorem leadingOnes_first (b : UInt8) : leadingOnes (b&&&0x1f|||0xc0)=2∧
    leadingOnes (b&&&0x0f|||0xe0)=3∧leadingOnes (b&&&0x07|||0xf0)=4 :=
  ⟨byte_below (P := fun x => leadingOnes (x|||0xc0)=2) (by decide +kernel) _ (masked_lt b 0x1f),
    byte_below (P := fun x => leadingOnes (x|||0xe0)=3) (by decide +kernel) _ (masked_lt b 0x0f),
    byte_below (P := fun x => leadingOnes (x|||0xf0)=4) (by decide +kernel) _ (masked_lt b 0x07)⟩

/-- The first octet of a character that isn't ASCII counts its octets. -/
theorem leadingOnes_char (h : String.utf8EncodeChar c=b::bs) (hb : ¬b < 0x80) :
    leadingOnes b=bs.length+1∧1≤bs.length∧bs.length≤3 := by
  rcases c.utf8Size_eq with hsize | hsize | hsize | hsize
  · have hchar := String.utf8EncodeChar_eq_singleton hsize
    rw [h] at hchar
    have hfirst : b=c.val.toUInt8 := (List.cons.inj hchar).1
    have hval := Char.utf8Size_eq_one_iff.mp hsize
    rw [UInt32.le_iff_toNat_le] at hval
    have hsmall : c.val.toNat≤127 := hval
    refine absurd (UInt8.lt_iff_toNat_lt.mpr ?_) hb
    rw [hfirst,UInt32.toNat_toUInt8]
    show c.val.toNat%2^8 < 128
    omega
  · have hchar := String.utf8EncodeChar_eq_cons_cons hsize
    rw [h] at hchar
    cases hchar
    exact ⟨(leadingOnes_first _).1,by simp,by simp⟩
  · have hchar := String.utf8EncodeChar_eq_cons_cons_cons hsize
    rw [h] at hchar
    cases hchar
    exact ⟨(leadingOnes_first _).2.1,by simp,by simp⟩
  · have hchar := String.utf8EncodeChar_eq_cons_cons_cons_cons hsize
    rw [h] at hchar
    cases hchar
    exact ⟨(leadingOnes_first _).2.2,by simp,by simp⟩

/-- A character is read where a piece of text spells it. -/
theorem takeChar_iff : takeChar s=some (c,rest)↔∃ e, Spells c e∧s=e++rest := by
  constructor
  · intro h
    cases s with
    | nil => cases h
    | cons d s =>
      rw [takeChar] at h
      by_cases hd : d ≠ '%'
      · rw [if_pos hd] at h
        cases h
        exact ⟨[c],.plain hd,rfl⟩
      · rw [if_neg hd] at h
        obtain ⟨⟨b,mid⟩,ho,h⟩ := Option.bind_eq_some_iff.mp h
        obtain ⟨x,y,hi,lo,hx,hy,rfl,hs⟩ := octet_iff.mp ho
        dsimp only at h
        split at h
        · rename_i hlow
          cases h
          refine ⟨['%',x,y],.escaped ?_,hs⟩
          rw [encodeChar_ascii _ hlow]
          exact .cons hx hy .nil
        · split at h
          · cases h
          · obtain ⟨⟨more,last⟩,hr,h⟩ := Option.bind_eq_some_iff.mp h
            obtain ⟨d,hdec,h⟩ := Option.map_eq_some_iff.mp h
            cases h
            obtain ⟨-,e,he,rfl⟩ := octets_iff.mp hr
            refine ⟨'%'::x::y::e,.escaped ?_,hs⟩
            rw [decodeOctets_iff.mp hdec]
            exact .cons hx hy he
  · rintro ⟨e,he,rfl⟩
    cases he with
    | plain hc => simp [takeChar,hc]
    | escaped he =>
      generalize hbs : String.utf8EncodeChar c=bs at he
      cases he with
      | nil => exact absurd hbs (by simp)
      | cons hx hy he =>
        rename_i x y hi lo more e
        have ho : octet ('%'::x::y::(e++rest))=some (hi*16+lo,e++rest) :=
          octet_iff.mpr ⟨x,y,hi,lo,hx,hy,rfl,rfl⟩
        change takeChar ('%'::x::y::(e++rest))=_
        rw [takeChar,if_neg (by decide),ho,Option.bind_some]
        dsimp only
        by_cases hlow : hi*16+lo < 0x80
        · have hchar := encodeChar_ascii _ hlow
          have hone : more=[]∧Char.ofNat (hi*16+lo).toNat=c := by
            rcases encodeChar_cases c with ⟨b,hb,-⟩ | ⟨b,rest,hb,-,-,hhigh,-⟩
            · rw [hbs] at hb
              have hmore := (List.cons.inj hb).2
              refine ⟨hmore,?_⟩
              have hsame : String.utf8EncodeChar (Char.ofNat (hi*16+lo).toNat)=
                  String.utf8EncodeChar c := by rw [hchar,hbs,hmore]
              exact encodeChar_inj hsame
            · rw [hbs] at hb
              have hfirst := (List.cons.inj hb).1
              rw [← hfirst] at hhigh
              exact absurd hlow (UInt8.not_lt.mpr hhigh)
          obtain ⟨rfl,hc⟩ := hone
          cases he
          rw [if_pos hlow,hc]
          rfl
        · obtain ⟨hones,hleft,hright⟩ := leadingOnes_char hbs hlow
          have hr : octets (leadingOnes (hi*16+lo)-1) (e++rest)=some (more,rest) :=
            octets_iff.mpr ⟨by omega,e,he,rfl⟩
          have hdec : decodeOctets ((hi*16+lo)::more)=some c := decodeOctets_iff.mpr hbs
          rw [if_neg hlow,if_neg (by omega),hr,Option.bind_some,hdec]
          rfl

theorem Spells.length_pos (h : Spells c e) : 0<e.length := by
  cases h with
  | plain _ => simp
  | escaped he =>
    generalize hbs : String.utf8EncodeChar c=bs at he
    cases he with
    | nil => exact absurd hbs (by simp)
    | cons _ _ _ => simp

theorem decodeFrom_iff (hn : s.length≤n) : decodeFrom n s=some cs↔Spelled cs s := by
  induction n generalizing s cs with
  | zero =>
    cases List.eq_nil_of_length_eq_zero (Nat.le_zero.mp hn)
    constructor
    · intro h
      cases h
      exact .nil
    · intro h
      generalize hs : ([] : Text)=s at h
      cases h with
      | nil => rfl
      | cons he _ =>
        have hpos := he.length_pos
        have hnil := (List.append_eq_nil_iff.mp hs.symm).1
        simp [hnil] at hpos
  | succ n ih =>
    constructor
    · intro h
      cases s with
      | nil =>
        cases h
        exact .nil
      | cons d s =>
        obtain ⟨⟨c,rest⟩,hc,h⟩ := Option.bind_eq_some_iff.mp h
        obtain ⟨more,hmore,h⟩ := Option.map_eq_some_iff.mp h
        cases h
        obtain ⟨e,he,hs⟩ := takeChar_iff.mp hc
        have hpos := he.length_pos
        have hlen : (d::s).length=e.length+rest.length := by rw [hs,List.length_append]
        rw [hs]
        exact .cons he ((ih (by omega)).mp hmore)
    · intro h
      cases h with
      | nil => rfl
      | @cons c cs e rest he hrest =>
        have hpos := he.length_pos
        rw [List.length_append] at hn
        have hmore := (ih (show rest.length≤n by omega)).mpr hrest
        have hc : takeChar (e++rest)=some (c,rest) := takeChar_iff.mpr ⟨e,he,rfl⟩
        obtain ⟨d,tail,hcons⟩ := List.exists_cons_of_length_pos (show 0<(e++rest).length by simp; omega)
        rw [hcons] at hc ⊢
        rw [decodeFrom,hc]
        · simp [hmore]
        · exact List.cons_ne_nil d tail

theorem decode_iff : decodeURIComponent s=some cs↔Spelled cs s := decodeFrom_iff (Nat.le_refl _)

/-- A text stands for one text. -/
theorem Spelled.unique {ds : Text} (h : Spelled cs s) (k : Spelled ds s) : cs=ds :=
  Option.some.inj ((decode_iff.mpr h).symm.trans (decode_iff.mpr k))

/-- The octets of a text. -/
def size (s : Text) : Nat := (encode s).length

theorem size_cons (c : Char) (s : Text) : size (c::s)=c.utf8Size+size s := by
  simp [size,encode_cons]

theorem size_append (s t : Text) : size (s++t)=size s+size t := by
  simp [size,encode_append]

/-- Three octets for one, one of them a percent sign. -/
theorem Escapes.size (h : Escapes bs e) :
    PercentText.size e=3*bs.length∧e.count '%'=bs.length := by
  induction h with
  | nil => exact ⟨rfl,rfl⟩
  | cons hx hy _ ih =>
    obtain ⟨hxne,hxsize⟩ := hexDigit_plain hx
    obtain ⟨hyne,hysize⟩ := hexDigit_plain hy
    have hpercent : Char.utf8Size '%'=1 := by decide
    obtain ⟨hsize,hcount⟩ := ih
    refine ⟨?_,?_⟩
    · simp only [size_cons,hxsize,hysize,hpercent,hsize,List.length_cons]
      omega
    · rw [List.count_cons_self,List.count_cons_of_ne hxne,List.count_cons_of_ne hyne,hcount,
        List.length_cons]

theorem Spells.size (h : Spells c e) : c.utf8Size+2*e.count '%'=PercentText.size e := by
  cases h with
  | plain hc =>
    have hzero : List.count '%' [c]=0 := by simp [List.count_eq_zero,Ne.symm hc]
    rw [hzero,size_cons]
    rfl
  | escaped he =>
    obtain ⟨hsize,hcount⟩ := he.size
    rw [hsize,hcount,String.length_utf8EncodeChar]
    omega

/-- What an escape saves. -/
theorem Spelled.size (h : Spelled cs s) :
    PercentText.size cs+2*s.count '%'=PercentText.size s := by
  induction h with
  | nil => rfl
  | cons he _ ih =>
    have hfirst := he.size
    rw [size_cons,size_append,List.count_append]
    omega

end Kitp.PercentText
