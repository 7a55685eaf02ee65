import Mathlib.Data.List.TakeWhile
import Kitp.Lib.NetIP

/-! Numbers and addresses written as text, and as octets, and read again. -/
namespace Kitp.NetIP

variable {n k base : Nat} {s : Bytes} {a : Addr} {b : UInt8}

/-- The `k` last digits of a number, the highest first. -/
def places (base : Nat) : (k n : Nat) → List Nat
  | 0,_ => []
  | k+1,n => places base k (n/base)++[n%base]

theorem places_length (base k n : Nat) : (places base k n).length=k := by
  induction k generalizing n with
  | zero => rfl
  | succ k ih => rw [places,List.length_append,ih,List.length_singleton]

theorem places_lt (hbase : 0 < base) {d : Nat} (h : d∈places base k n) : d < base := by
  induction k generalizing n with
  | zero => cases h
  | succ k ih =>
    cases List.mem_append.mp h with
    | inl h => exact ih h
    | inr h =>
      rw [List.mem_singleton.mp h]
      exact Nat.mod_lt n hbase

theorem places_value (base k n : Nat) :
    (places base k n).foldl (fun n d => n*base+d) 0=n%base^k := by
  induction k generalizing n with
  | zero => rw [Nat.pow_zero,Nat.mod_one]; rfl
  | succ k ih =>
    rw [places,List.foldl_append,ih,List.foldl_cons,List.foldl_nil,Nat.pow_succ,
      Nat.mul_comm (base^k) base,Nat.mod_mul,Nat.mul_comm base]
    exact Nat.add_comm _ _

def digit (n : Nat) : UInt8 := UInt8.ofNat (0x30+n)

def decimal (n : Nat) : Bytes :=
  if n < 10 then [digit n] else decimal (n/10)++[digit (n%10)]

theorem digit_isDigit (h : n < 10) : isDigit (digit n)=true∧(digit n).toNat-0x30=n := by
  have hall : ∀ d : Fin 10, isDigit (digit d)=true∧(digit d).toNat-0x30=d := by decide
  exact hall ⟨n,h⟩

theorem digit_value (h : n < 10) : hexValue (digit n)=n := by
  unfold hexValue
  rw [if_pos (digit_isDigit h).1]
  exact (digit_isDigit h).2

theorem decimal_ne (n : Nat) : decimal n≠[] := by
  rw [decimal.eq_def]
  split
  · exact List.cons_ne_nil _ _
  · exact List.append_ne_nil_of_right_ne_nil _ (List.cons_ne_nil _ _)

theorem decimal_digits (n : Nat) : ∀ b∈decimal n, ∃ d, d < 10∧b=digit d := by
  induction n using Nat.strongRecOn with
  | ind n ih =>
    rw [decimal.eq_def]
    intro b hb
    split at hb
    · rename_i hlt
      exact ⟨n,hlt,List.mem_singleton.mp hb⟩
    · cases List.mem_append.mp hb with
      | inl hb => exact ih (n/10) (by omega) b hb
      | inr hb => exact ⟨n%10,Nat.mod_lt n (by decide),List.mem_singleton.mp hb⟩

theorem decimal_number (n : Nat) : number 10 (decimal n)=n := by
  induction n using Nat.strongRecOn with
  | ind n ih =>
    rw [decimal.eq_def]
    split
    · rename_i hlt
      show 0*10+hexValue (digit n)=n
      rw [digit_value hlt]
      omega
    · have hhigh := ih (n/10) (by omega)
      unfold number at hhigh ⊢
      rw [List.foldl_append,hhigh]
      show n/10*10+hexValue (digit (n%10))=n
      rw [digit_value (Nat.mod_lt n (by decide))]
      omega

theorem decimal_length (h : n < 10^k) (hk : 0 < k) : (decimal n).length≤k := by
  induction k generalizing n with
  | zero => exact absurd hk (Nat.lt_irrefl 0)
  | succ k ih =>
    rw [decimal.eq_def]
    split
    · exact Nat.succ_le_succ (Nat.zero_le k)
    · rename_i hten
      rw [Nat.pow_succ] at h
      have hpos : 0 < k := by
        cases k with
        | zero => exact absurd h (by rw [Nat.pow_zero]; omega)
        | succ k => exact Nat.succ_pos k
      have hhigh : (decimal (n/10)).length≤k := ih (by omega) hpos
      rw [List.length_append,List.length_singleton]
      omega

theorem parseUint_decimal {bits : Nat} (h : n < 2^bits) : parseUint bits (decimal n)=some n := by
  have hdigits : (decimal n).all isDigit=true := by
    rw [List.all_eq_true]
    intro b hb
    obtain ⟨d,hd,rfl⟩ := decimal_digits n b hb
    exact (digit_isDigit hd).1
  unfold parseUint
  rw [decimal_number,if_neg]
  rintro (hnil | hother | hbig)
  · exact decimal_ne n hnil
  · exact hother hdigits
  · exact absurd h (Nat.not_lt.mpr hbig)

theorem ipv4Fields_digit {val digits : Nat} {fields : List Nat} (hd : n < 10)
    (hzero : ¬(digits=1∧val=0)) (hval : val*10+n≤255) :
    ipv4Fields (digit n::s) val digits fields=ipv4Fields s (val*10+n) (digits+1) fields := by
  rw [ipv4Fields,if_pos (digit_isDigit hd).1,if_neg hzero,(digit_isDigit hd).2]
  exact if_neg (Nat.not_lt.mpr hval)

/-- An octet is read as a field. -/
theorem ipv4Fields_decimal (h : n≤255) :
    ∃ digits, 0 < digits∧∀ s fields,
      ipv4Fields (decimal n++s) 0 0 fields=ipv4Fields s n digits fields := by
  induction n using Nat.strongRecOn with
  | ind n ih =>
    rw [decimal.eq_def]
    split
    · rename_i hlt
      refine ⟨1,Nat.one_pos,fun s fields => ?_⟩
      rw [List.singleton_append,ipv4Fields_digit hlt (by omega) (by omega)]
      congr 1
      omega
    · rename_i hten
      obtain ⟨digits,hpos,hhigh⟩ := ih (n/10) (by omega) (by omega)
      refine ⟨digits+1,Nat.succ_pos digits,fun s fields => ?_⟩
      have hlast : n%10 < 10 := Nat.mod_lt n (by decide)
      rw [List.append_assoc,hhigh,List.singleton_append,
        ipv4Fields_digit hlast (by omega) (by omega)]
      congr 1
      omega

theorem ipv4Fields_dot {val digits : Nat} {fields : List Nat} (hdigits : 0 < digits) (hs : s≠[])
    (hfields : fields.length < 3) :
    ipv4Fields (0x2e::s) val digits fields=ipv4Fields s 0 0 (fields++[val]) := by
  have hdot : ¬isDigit 0x2e=true := by decide
  have hsome : ¬(digits=0∨s=[]) := by
    rintro (hnone | hnil)
    · omega
    · exact hs hnil
  rw [ipv4Fields,if_neg hdot,if_pos rfl,if_neg hsome,if_neg (by omega)]

def hexDigit (n : Nat) : UInt8 := UInt8.ofNat (if n < 10 then 0x30+n else 0x57+n)

/-- Four hexadecimal digits. -/
def hexGroup (g : Nat) : Bytes := (places 16 4 g).map hexDigit

/-- An address written out in full. -/
def Addr.text : Addr → Bytes
  | .zero => []
  | .v4 ip => [0x2e].intercalate ((places 256 4 ip.toNat).map decimal)
  | .v6 ip _ => [0x3a].intercalate ((places 65536 8 ip.toNat).map hexGroup)

theorem ipv4Fields_text {ds fields : List Nat} (hne : ds≠[]) (hds : ∀ d∈ds, d < 256)
    (hlen : fields.length+ds.length=4) :
    ipv4Fields ([0x2e].intercalate (ds.map decimal)) 0 0 fields=some (fields++ds) := by
  induction ds generalizing fields with
  | nil => exact absurd rfl hne
  | cons d ds ih =>
    obtain ⟨digits,hpos,hread⟩ := ipv4Fields_decimal (Nat.le_of_lt_succ (hds d List.mem_cons_self))
    cases ds with
    | nil =>
      have hthree : ¬fields.length < 3 := by
        rw [List.length_singleton] at hlen
        omega
      have hlast := hread [] fields
      rw [List.append_nil] at hlast
      show ipv4Fields (decimal d++[]) 0 0 fields=_
      rw [List.append_nil,hlast,ipv4Fields,if_neg hthree]
    | cons e ds =>
      rw [List.length_cons,List.length_cons] at hlen
      have hmore : [0x2e].intercalate ((e::ds).map decimal)≠[] := by
        cases ds with
        | nil =>
          rw [List.map_cons,List.map_nil,List.intercalate_singleton]
          exact decimal_ne e
        | cons f ds =>
          rw [List.map_cons,List.map_cons,List.intercalate_cons_cons,List.append_assoc]
          exact List.append_ne_nil_of_left_ne_nil (decimal_ne e) _
      rw [List.map_cons,List.map_cons,List.intercalate_cons_cons,List.append_assoc,hread,
        List.singleton_append,← List.map_cons,ipv4Fields_dot hpos hmore (by omega),
        ih (List.cons_ne_nil _ _) (fun d hd => hds d (List.mem_cons_of_mem _ hd))
          (by rw [List.length_append,List.length_singleton,List.length_cons]; omega),
        List.append_assoc,List.singleton_append]

theorem hexDigit_isHex (h : n < 16) :
    isHex (hexDigit n)=true∧hexValue (hexDigit n)=n∧hexDigit n≠0x3a∧hexDigit n≠0x25∧
      hexDigit n≠0x2e := by
  have hall : ∀ d : Fin 16, isHex (hexDigit d)=true∧hexValue (hexDigit d)=d∧hexDigit d≠0x3a∧
    hexDigit d≠0x25∧hexDigit d≠0x2e := by decide
  exact hall ⟨n,h⟩

theorem hexGroup_digits (h : b∈hexGroup n) : ∃ d, d < 16∧b=hexDigit d := by
  obtain ⟨d,hd,rfl⟩ := List.mem_map.mp h
  exact ⟨d,places_lt (by decide) hd,rfl⟩

theorem hexGroup_value (h : n < 65536) : number 16 (hexGroup n)=n := by
  have hfold : number 16 (hexGroup n)=(places 16 4 n).foldl (fun n d => n*16+d) 0 := by
    unfold number hexGroup
    rw [List.foldl_map]
    refine List.foldl_ext _ _ _ fun m d hd => ?_
    rw [(hexDigit_isHex (places_lt (by decide) hd)).2.1]
  rw [hfold,places_value]
  exact Nat.mod_eq_of_lt h

theorem hexGroup_length (n : Nat) : (hexGroup n).length=4 := by
  rw [hexGroup,List.length_map,places_length]

theorem hexGroup_all (n : Nat) : ∀ b∈hexGroup n, isHex b=true := by
  intro b hb
  obtain ⟨d,hd,rfl⟩ := hexGroup_digits hb
  exact (hexDigit_isHex hd).1

theorem hexGroup_cons (n : Nat) : ∃ d more, hexGroup n=hexDigit d::more∧d < 16 := by
  have hlen : 0 < (hexGroup n).length := by
    rw [hexGroup_length]
    decide
  obtain ⟨b,more,hcons⟩ := List.exists_cons_of_length_pos hlen
  obtain ⟨d,hd,rfl⟩ := hexGroup_digits (hcons ▸ List.mem_cons_self : b∈hexGroup n)
  exact ⟨d,more,hcons,hd⟩

theorem groups_cons {gs : List Nat} (hne : gs≠[]) :
    ∃ d more, [0x3a].intercalate (gs.map hexGroup)=hexDigit d::more∧d < 16 := by
  cases gs with
  | nil => exact absurd rfl hne
  | cons g gs =>
    obtain ⟨d,more,hcons,hd⟩ := hexGroup_cons g
    cases gs with
    | nil =>
      rw [List.map_cons,List.map_nil,List.intercalate_singleton]
      exact ⟨d,more,hcons,hd⟩
    | cons f gs =>
      rw [List.map_cons,List.map_cons,List.intercalate_cons_cons,hcons]
      exact ⟨d,_,rfl,hd⟩

theorem ipv6Groups_text {gs ip : List Nat} (hne : gs≠[]) (hgs : ∀ g∈gs, g < 65536)
    (hlen : gs.length≤n) :
    ipv6Groups n ([0x3a].intercalate (gs.map hexGroup)) ip none=some ([],ip++gs,none) := by
  induction gs generalizing n ip with
  | nil => exact absurd rfl hne
  | cons g gs ih =>
    cases n with
    | zero => exact absurd hlen (Nat.not_succ_le_zero _)
    | succ n =>
      have hvalue := hexGroup_value (hgs g List.mem_cons_self)
      have hfour : ¬(hexGroup g=[]∨4 < (hexGroup g).length) := by
        rw [hexGroup_length]
        rintro (hnil | hlong)
        · have hzero := hexGroup_length g
          rw [hnil] at hzero
          cases hzero
        · exact absurd hlong (by decide)
      cases gs with
      | nil =>
        rw [List.map_cons,List.map_nil,List.intercalate_singleton,ipv6Groups,
          List.takeWhile_eq_self_iff.mpr (hexGroup_all g),
          List.dropWhile_eq_nil_iff.mpr (hexGroup_all g)]
        dsimp only
        rw [if_neg hfour,hvalue]
      | cons f gs =>
        have hcolon : ¬isHex 0x3a=true := by decide
        obtain ⟨d,more,hcons,hd⟩ := groups_cons (List.cons_ne_nil f gs)
        have hmore : ipv6Groups n ([0x3a].intercalate ((f::gs).map hexGroup)) (ip++[g]) none=
            some ([],ip++[g]++f::gs,none) :=
          ih (List.cons_ne_nil f gs) (fun g hg => hgs g (List.mem_cons_of_mem _ hg))
            (Nat.le_of_succ_le_succ hlen)
        rw [hcons] at hmore
        rw [List.map_cons,List.map_cons,List.intercalate_cons_cons,← List.map_cons,
          List.append_assoc,List.singleton_append,hcons,ipv6Groups,List.takeWhile_append_of_pos (hexGroup_all g),
          List.dropWhile_append_of_pos (hexGroup_all g),List.takeWhile_cons_of_neg hcolon,
          List.dropWhile_cons_of_neg hcolon,List.append_nil]
        dsimp only
        rw [if_neg hfour,hvalue]
        split
        · rename_i hnil
          cases hnil
        · rename_i hdot
          exact absurd (List.cons.inj hdot).1 (by decide)
        · rename_i hcolons
          exact absurd (List.cons.inj (List.cons.inj hcolons).2).1 (hexDigit_isHex hd).2.2.1
        · rename_i hone
          obtain ⟨rfl,rfl⟩ := List.cons.inj (List.cons.inj hone).2
          rw [hmore,List.append_assoc,List.singleton_append]
        · rename_i hnone
          exact absurd rfl (hnone (hexDigit d) more)

/-- What an address' text is made of. -/
def isAddrByte (b : UInt8) : Bool := isHex b∨b=0x2e∨b=0x3a

theorem intercalate_bytes {sep : UInt8} {parts : List Bytes} (hsep : isAddrByte sep=true)
    (hparts : ∀ part∈parts, ∀ b∈part, isHex b=true) :
    ∀ b∈[sep].intercalate parts, isAddrByte b=true := by
  induction parts with
  | nil =>
    intro b hb
    cases hb
  | cons part parts ih =>
    have hpart : ∀ b∈part, isAddrByte b=true := fun b hb =>
      decide_eq_true (Or.inl (hparts part List.mem_cons_self b hb))
    cases parts with
    | nil => rwa [List.intercalate_singleton]
    | cons next parts =>
      have hrest := ih fun part hpart => hparts part (List.mem_cons_of_mem _ hpart)
      intro b hb
      rw [List.intercalate_cons_cons,List.append_assoc,List.singleton_append] at hb
      cases List.mem_append.mp hb with
      | inl hb => exact hpart b hb
      | inr hb =>
        cases List.mem_cons.mp hb with
        | inl hb => rwa [hb]
        | inr hb => exact hrest b hb

theorem digit_isHex (h : n < 10) : isHex (digit n)=true :=
  decide_eq_true (Or.inl (digit_isDigit h).1)

theorem text_bytes (a : Addr) : ∀ b∈a.text, isAddrByte b=true := by
  cases a with
  | zero =>
    intro b hb
    cases hb
  | v4 ip =>
    refine intercalate_bytes (by decide) fun part hpart b hb => ?_
    obtain ⟨n,-,rfl⟩ := List.mem_map.mp hpart
    obtain ⟨d,hd,rfl⟩ := decimal_digits n b hb
    exact digit_isHex hd
  | v6 ip zone =>
    refine intercalate_bytes (by decide) fun part hpart b hb => ?_
    obtain ⟨n,-,rfl⟩ := List.mem_map.mp hpart
    exact hexGroup_all n b hb

theorem intercalate_length {sep : UInt8} {parts : List Bytes}
    (hparts : ∀ part∈parts, part.length≤k) :
    ([sep].intercalate parts).length≤parts.length*(k+1) := by
  induction parts with
  | nil => exact Nat.zero_le _
  | cons part parts ih =>
    have hpart := hparts part List.mem_cons_self
    have hrest := ih fun part hpart => hparts part (List.mem_cons_of_mem _ hpart)
    rw [List.length_cons,Nat.succ_mul]
    cases parts with
    | nil =>
      rw [List.intercalate_singleton]
      omega
    | cons next parts =>
      rw [List.intercalate_cons_cons,List.length_append,List.length_append,List.length_singleton]
      omega

theorem text_length (a : Addr) : a.text.length≤40 := by
  cases a with
  | zero => exact Nat.zero_le _
  | v4 ip =>
    have hparts : ∀ part∈(places 256 4 ip.toNat).map decimal, part.length≤3 := by
      intro part hpart
      obtain ⟨d,hd,rfl⟩ := List.mem_map.mp hpart
      have hlt : d < 256 := places_lt (by decide) hd
      exact decimal_length (by omega) (by decide)
    have hlen : (Addr.v4 ip).text.length≤_ := intercalate_length hparts
    rw [List.length_map,places_length] at hlen
    omega
  | v6 ip zone =>
    have hparts : ∀ part∈(places 65536 8 ip.toNat).map hexGroup, part.length≤4 := by
      intro part hpart
      obtain ⟨g,-,rfl⟩ := List.mem_map.mp hpart
      exact Nat.le_of_eq (hexGroup_length g)
    have hlen : (Addr.v6 ip zone).text.length≤_ := intercalate_length hparts
    rwa [List.length_map,places_length] at hlen

/-- The first separator is found past what is none. -/
theorem find_past {front : Bytes} (hfront : ∀ b∈front, isHex b=true) :
    (front++s).find? (fun b => b=0x2e∨b=0x3a∨b=0x25)=
      s.find? fun b => b=0x2e∨b=0x3a∨b=0x25 := by
  have hnone : front.find? (fun b => b=0x2e∨b=0x3a∨b=0x25)=none := by
    rw [List.find?_eq_none]
    intro b hb hsep
    have hhex := hfront b hb
    rcases of_decide_eq_true hsep with rfl | rfl | rfl
    all_goals exact absurd hhex (by decide)
  rw [List.find?_append,hnone,Option.none_or]

theorem parseIPv6_text {gs : List Nat} (hlen : gs.length=8) (hgs : ∀ g∈gs, g < 65536) :
    parseIPv6 ([0x3a].intercalate (gs.map hexGroup))=some (.v6 (ofGroups gs) []) := by
  have hne : gs≠[] := by
    rintro rfl
    cases hlen
  have hread : ipv6Groups 8 ([0x3a].intercalate (gs.map hexGroup)) [] none=
      some ([],[]++gs,none) := ipv6Groups_text hne hgs (Nat.le_of_eq hlen)
  have hzoneless : ∀ b∈[0x3a].intercalate (gs.map hexGroup), decide (b≠0x25)=true := by
    intro b hb
    have hbyte := intercalate_bytes (by decide) (fun part hpart b hb => by
      obtain ⟨n,-,rfl⟩ := List.mem_map.mp hpart
      exact hexGroup_all n b hb) b hb
    refine decide_eq_true ?_
    rintro rfl
    exact absurd hbyte (by decide)
  obtain ⟨d,more,hcons,hd⟩ := groups_cons hne
  have hcolon : hexDigit d≠0x3a := (hexDigit_isHex hd).2.2.1
  unfold parseIPv6
  rw [List.takeWhile_eq_self_iff.mpr hzoneless,List.dropWhile_eq_nil_iff.mpr hzoneless]
  rw [hcons] at hread ⊢
  dsimp only
  rw [if_neg (List.cons_ne_nil _ _).symm]
  split
  · rename_i hboth
    exact absurd (List.cons.inj hboth).1 hcolon
  · rename_i hboth
    exact absurd (List.cons.inj hboth).1 hcolon
  · rw [hread]
    unfold parseIPv6.finish expand
    dsimp only
    rw [List.nil_append,if_neg (by omega)]
    rfl

/-- An address' text is read as the address. -/
theorem parseAddr_text (hvalid : a.isValid=true) (hzone : ∀ ip zone, a=.v6 ip zone → zone=[]) :
    parseAddr a.text=some a := by
  cases a with
  | zero => cases hvalid
  | v4 ip =>
    have hread : ipv4Fields (Addr.v4 ip).text 0 0 []=some ([]++places 256 4 ip.toNat) :=
      ipv4Fields_text (List.append_ne_nil_of_right_ne_nil _ (List.cons_ne_nil _ _))
        (fun d hd => places_lt (by decide) hd) (by rw [places_length]; rfl)
    have hvalue : ofFields (places 256 4 ip.toNat)=ip := by
      unfold ofFields
      rw [places_value,show 256^4=2^32 by decide,Nat.mod_eq_of_lt ip.isLt,BitVec.ofNat_toNat,
        BitVec.setWidth_eq]
    have hfind : (Addr.v4 ip).text.find? (fun b => b=0x2e∨b=0x3a∨b=0x25)=some 0x2e := by
      show ([0x2e].intercalate ((places 256 4 ip.toNat).map decimal)).find? _=_
      simp only [places,List.nil_append,List.cons_append,List.map_cons,
        List.intercalate_cons_cons,List.append_assoc]
      rw [find_past fun b hb => by
        obtain ⟨d,hd,rfl⟩ := decimal_digits _ b hb
        exact digit_isHex hd]
      rfl
    unfold parseAddr
    rw [hfind]
    show parseIPv4 (Addr.v4 ip).text=_
    unfold parseIPv4
    rw [hread,List.nil_append,Option.map_some,hvalue]
  | v6 ip zone =>
    have hnone := hzone ip zone rfl
    subst hnone
    have hvalue : ofGroups (places 65536 8 ip.toNat)=ip := by
      unfold ofGroups
      rw [places_value,show 65536^8=2^128 by decide,Nat.mod_eq_of_lt ip.isLt,BitVec.ofNat_toNat,
        BitVec.setWidth_eq]
    have hfind : (Addr.v6 ip []).text.find? (fun b => b=0x2e∨b=0x3a∨b=0x25)=some 0x3a := by
      show ([0x3a].intercalate ((places 65536 8 ip.toNat).map hexGroup)).find? _=_
      simp only [places,List.nil_append,List.cons_append,List.map_cons,
        List.intercalate_cons_cons,List.append_assoc]
      rw [find_past (hexGroup_all _)]
      rfl
    unfold parseAddr
    rw [hfind]
    show parseIPv6 ([0x3a].intercalate ((places 65536 8 ip.toNat).map hexGroup))=_
    rw [parseIPv6_text (places_length _ _ _) (fun g hg => places_lt (by decide) hg),hvalue]

end Kitp.NetIP
