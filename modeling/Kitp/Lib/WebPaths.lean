import Kitp.Lib.Bounded
import Mathlib.Data.List.Basic

/-! Paths on the web, octet by octet: percent escapes, cleaning dot segments, and where a browser
goes from a reference. -/
namespace Kitp.WebPaths

abbrev Bytes := List UInt8

variable {s t path : Bytes} {b : UInt8} {rooted : Bool} {stack es : List Bytes} {e : Bytes}

def hexValue (b : UInt8) : Option UInt8 :=
  if 0x30≤b∧b≤0x39 then some (b-0x30)
  else if 0x61≤b∧b≤0x66 then some (b-0x61+10)
  else if 0x41≤b∧b≤0x46 then some (b-0x41+10)
  else none

/-- Percent escapes become octets; a percent sign without two hex digits is an error. -/
def unescape : Bytes → Option Bytes
  | [] => some []
  | b::s =>
    if b=0x25 then
      match s with
      | x::y::s =>
        (hexValue x).bind fun hi => (hexValue y).bind fun lo =>
          (unescape s).map fun out => (hi*16+lo)::out
      | _ => none
    else (unescape s).map fun out => b::out

/-- Each percent sign has two hex digits behind it. -/
def Escaped (s : Bytes) : Prop :=
  ∀ before behind, s=before++0x25::behind →
    ∃ x y more, behind=x::y::more∧hexValue x≠none∧hexValue y≠none

theorem hexValue_percent : hexValue 0x25=none := by decide

theorem Escaped.nil : Escaped [] := by
  intro before behind h
  exact absurd h.symm (List.append_ne_nil_of_right_ne_nil _ (List.cons_ne_nil _ _))

theorem escaped_cons (h : b≠0x25) : Escaped (b::s) ↔ Escaped s := by
  constructor
  · intro hs before behind heq
    exact hs (b::before) behind (by rw [heq,List.cons_append])
  · intro hs before behind heq
    cases before with
    | nil => exact absurd (List.cons.inj heq).1 h
    | cons c before => exact hs before behind (List.cons.inj heq).2

theorem escaped_percent {x y : UInt8} :
    Escaped (0x25::x::y::s) ↔ hexValue x≠none∧hexValue y≠none∧Escaped s := by
  have hnot : ∀ {b : UInt8}, hexValue b≠none → b≠0x25 := by
    rintro b hb rfl
    exact hb hexValue_percent
  constructor
  · intro h
    obtain ⟨x',y',more,heq,hx,hy⟩ := h [] (x::y::s) rfl
    obtain ⟨rfl,hrest⟩ := List.cons.inj heq
    obtain ⟨rfl,rfl⟩ := List.cons.inj hrest
    refine ⟨hx,hy,?_⟩
    intro before behind hs
    exact h (0x25::x::y::before) behind (by rw [hs]; rfl)
  · rintro ⟨hx,hy,h⟩ before behind heq
    cases before with
    | nil => exact ⟨x,y,s,(List.cons.inj heq).2.symm,hx,hy⟩
    | cons c before =>
      have htail := (List.cons.inj heq).2
      exact ((escaped_cons (hnot hx)).mpr ((escaped_cons (hnot hy)).mpr h)) before behind htail

theorem unescape_some_iff : (∃ out, unescape s=some out) ↔ Escaped s := by
  induction hn : s.length using Nat.strongRecOn generalizing s with
  | ind n ih =>
    cases s with
    | nil => exact ⟨fun _ => Escaped.nil,fun _ => ⟨[],rfl⟩⟩
    | cons b s =>
      rw [List.length_cons] at hn
      by_cases hb : b=0x25
      · subst hb
        match s with
        | [] =>
          constructor
          · rintro ⟨out,hout⟩
            cases hout
          · intro h
            obtain ⟨x,y,more,heq,-⟩ := h [] [] rfl
            cases heq
        | [z] =>
          constructor
          · rintro ⟨out,hout⟩
            cases hout
          · intro h
            obtain ⟨x,y,more,heq,-⟩ := h [] [z] rfl
            cases heq
        | x::y::s =>
          have hrest : (∃ out, unescape s=some out) ↔ Escaped s :=
            ih s.length (by simp only [List.length_cons] at hn; omega) rfl
          have hstep : unescape (0x25::x::y::s)=(hexValue x).bind fun hi =>
              (hexValue y).bind fun lo => (unescape s).map fun out => (hi*16+lo)::out := by
            rw [unescape,if_pos rfl]
          rw [escaped_percent,← hrest,hstep]
          cases hexValue x with
          | none => simp
          | some hi =>
            cases hexValue y with
            | none => simp
            | some lo =>
              cases unescape s with
              | none => simp
              | some out => simp
      · have hrest : (∃ out, unescape s=some out) ↔ Escaped s := ih s.length (by omega) rfl
        have hstep : unescape (b::s)=(unescape s).map fun out => b::out := by
          rw [unescape.eq_def]
          dsimp only
          rw [if_neg hb]
        rw [escaped_cons hb,← hrest,hstep]
        cases unescape s with
        | none => simp
        | some out => simp

/-- What lies between slashes. -/
def elements : Bytes → List Bytes
  | [] => [[]]
  | b::s =>
    if b=0x2F then []::elements s
    else
      match elements s with
      | [] => [[b]]
      | e::es => (b::e)::es

/-- One element of a path, after those kept so far, the last first. -/
def cleanStep (rooted : Bool) (stack : List Bytes) (e : Bytes) : List Bytes :=
  if e=[]∨e=[0x2E] then stack
  else if e=[0x2E,0x2E] then
    match stack with
    | [] => if rooted then [] else [e]
    | top::rest => if rooted=false∧top=[0x2E,0x2E] then e::stack else rest
  else e::stack

def join : List Bytes → Bytes
  | [] => []
  | [e] => e
  | e::es => e++0x2F::join es

/-- `path.Clean`: no empty element, none of one dot, and none that two dots take back. -/
def clean (path : Bytes) : Bytes :=
  let rooted := path.head?=some 0x2F
  let kept := join ((elements path).foldl (cleanStep rooted) []).reverse
  if rooted then 0x2F::kept else if kept=[] then [0x2E] else kept

theorem mem_elements (he : e∈elements s) : ∀ b∈e, b≠0x2F∧b∈s := by
  induction s generalizing e with
  | nil =>
    rw [List.mem_singleton.mp he]
    exact fun b hb => absurd hb List.not_mem_nil
  | cons c s ih =>
    unfold elements at he
    by_cases hc : c=0x2F
    · rw [if_pos hc] at he
      cases List.mem_cons.mp he with
      | inl hnil =>
        rw [hnil]
        exact fun b hb => absurd hb List.not_mem_nil
      | inr hin =>
        intro b hb
        exact ⟨(ih hin b hb).1,List.mem_cons_of_mem _ (ih hin b hb).2⟩
    · rw [if_neg hc] at he
      cases hsplit : elements s with
      | nil =>
        rw [hsplit] at he
        rw [List.mem_singleton.mp he]
        intro b hb
        rw [List.mem_singleton.mp hb]
        exact ⟨hc,List.mem_cons_self⟩
      | cons d ds =>
        rw [hsplit] at he ih
        intro b hb
        cases List.mem_cons.mp he with
        | inl hfirst =>
          rw [hfirst] at hb
          cases List.mem_cons.mp hb with
          | inl hbc =>
            rw [hbc]
            exact ⟨hc,List.mem_cons_self⟩
          | inr hbd =>
            have hmem := ih List.mem_cons_self b hbd
            exact ⟨hmem.1,List.mem_cons_of_mem _ hmem.2⟩
        | inr hin =>
          have hmem := ih (List.mem_cons_of_mem _ hin) b hb
          exact ⟨hmem.1,List.mem_cons_of_mem _ hmem.2⟩

/-- Nothing is kept that wasn't an element. -/
theorem mem_cleanStep {d : Bytes} (hd : d∈cleanStep rooted stack e) : d∈stack∨d=e∧e≠[] := by
  unfold cleanStep at hd
  split at hd
  · exact Or.inl hd
  · rename_i hnot
    have hne : e≠[] := fun hnil => hnot (Or.inl hnil)
    split at hd
    · cases stack with
      | nil =>
        dsimp only at hd
        split at hd
        · exact Or.inl hd
        · exact Or.inr ⟨List.mem_singleton.mp hd,hne⟩
      | cons top rest =>
        dsimp only at hd
        split at hd
        · cases List.mem_cons.mp hd with
          | inl hself => exact Or.inr ⟨hself,hne⟩
          | inr hin => exact Or.inl hin
        · exact Or.inl (List.mem_cons_of_mem _ hd)
    · cases List.mem_cons.mp hd with
      | inl hself => exact Or.inr ⟨hself,hne⟩
      | inr hin => exact Or.inl hin

theorem mem_cleaned {d : Bytes} (hd : d∈es.foldl (cleanStep rooted) stack) :
    d∈stack∨d∈es∧d≠[] := by
  induction es generalizing stack with
  | nil => exact Or.inl hd
  | cons e es ih =>
    cases ih hd with
    | inl hin =>
      rcases mem_cleanStep hin with hold | ⟨rfl,hne⟩
      · exact Or.inl hold
      · exact Or.inr ⟨List.mem_cons_self,hne⟩
    | inr hin => exact Or.inr ⟨List.mem_cons_of_mem _ hin.1,hin.2⟩

theorem mem_join (hb : b∈join es) : b=0x2F∨∃ e∈es, b∈e := by
  induction es with
  | nil => exact absurd hb List.not_mem_nil
  | cons e es ih =>
    cases es with
    | nil => exact Or.inr ⟨e,List.mem_cons_self,hb⟩
    | cons d ds =>
      cases List.mem_append.mp hb with
      | inl hin => exact Or.inr ⟨e,List.mem_cons_self,hin⟩
      | inr hin =>
        cases List.mem_cons.mp hin with
        | inl hsep => exact Or.inl hsep
        | inr hmore =>
          rcases ih hmore with hsep | ⟨c,hc,hbc⟩
          · exact Or.inl hsep
          · exact Or.inr ⟨c,List.mem_cons_of_mem _ hc,hbc⟩

theorem join_head {es : List Bytes} (h : ∀ e∈es, e≠[]∧∀ b∈e, b≠0x2F) :
    (join es).head?≠some 0x2F := by
  cases es with
  | nil => exact fun hnone => by cases hnone
  | cons e es =>
    obtain ⟨hne,hbytes⟩ := h e List.mem_cons_self
    obtain ⟨b,rest,rfl⟩ := List.exists_cons_of_ne_nil hne
    have hhead : (join ((b::rest)::es)).head?=some b := by
      cases es <;> rfl
    rw [hhead]
    intro heq
    exact hbytes b List.mem_cons_self (Option.some.inj heq)

/-- A rooted path stays rooted, with one slash, and gets no new octet. -/
theorem clean_rooted (h : path.head?=some 0x2F) :
    ∃ kept, clean path=0x2F::kept∧kept.head?≠some 0x2F∧∀ b∈kept, b∈path := by
  have hslash : (0x2F : UInt8)∈path := List.mem_of_mem_head? h
  have hkept : ∀ e∈((elements path).foldl (cleanStep (path.head?=some 0x2F)) []).reverse,
      e≠[]∧∀ b∈e, b≠0x2F∧b∈path := by
    intro e he
    rcases mem_cleaned (List.mem_reverse.mp he) with hnil | ⟨hin,hne⟩
    · exact absurd hnil List.not_mem_nil
    · exact ⟨hne,mem_elements hin⟩
  refine ⟨join ((elements path).foldl (cleanStep (path.head?=some 0x2F)) []).reverse,?_,?_,?_⟩
  · unfold clean
    dsimp only
    rw [if_pos h]
  · exact join_head fun e he => ⟨(hkept e he).1,fun b hb => ((hkept e he).2 b hb).1⟩
  · intro b hb
    rcases mem_join hb with hsep | ⟨e,he,hbe⟩
    · rw [hsep]
      exact hslash
    · exact ((hkept e he).2 b hbe).2

def lowerHex (n : UInt8) : UInt8 := if n < 10 then 0x30+n else 0x61+(n-10)

/-- What isn't ASCII is written as percent escapes. -/
def hexEscapeNonASCII (s : Bytes) : Bytes :=
  s.flatMap fun b => if 0x80≤b then [0x25,lowerHex (b/16),lowerHex (b%16)] else [b]

theorem lowerHex_plain : ∀ n < 16, 0x20≤lowerHex (UInt8.ofNat n)∧lowerHex (UInt8.ofNat n) < 0x7F∧
    lowerHex (UInt8.ofNat n)≠0x5C∧lowerHex (UInt8.ofNat n)≠0x2F := by decide

/-- An escape is made of printable octets that no browser reads in another way. -/
theorem escape_plain (c : UInt8) : ∀ b∈[0x25,lowerHex (c/16),lowerHex (c%16)],
    0x20≤b∧b < 0x7F∧b≠0x5C∧b≠0x2F := by
  have hsize := c.toNat_lt_size
  have hhalf (h : UInt8) (hh : h.toNat < 16) :
      0x20≤lowerHex h∧lowerHex h < 0x7F∧lowerHex h≠0x5C∧lowerHex h≠0x2F := by
    have hplain := lowerHex_plain h.toNat hh
    rwa [UInt8.ofNat_toNat] at hplain
  have hhigh : (c/16).toNat < 16 := by
    rw [UInt8.toNat_div]
    exact Nat.div_lt_of_lt_mul hsize
  have hlow : (c%16).toNat < 16 := by
    rw [UInt8.toNat_mod]
    exact Nat.mod_lt _ (by decide)
  simp only [List.mem_cons,List.not_mem_nil,or_false]
  rintro b (rfl | rfl | rfl)
  · decide
  · exact hhalf _ hhigh
  · exact hhalf _ hlow

theorem mem_hexEscape (hb : b∈hexEscapeNonASCII s) : b∈s∧b < 0x80∨0x20≤b∧b < 0x7F∧b≠0x5C := by
  obtain ⟨c,hc,hin⟩ := List.mem_flatMap.mp hb
  split at hin
  · obtain ⟨hlow,hhigh,hslash,-⟩ := escape_plain c b hin
    exact Or.inr ⟨hlow,hhigh,hslash⟩
  · rename_i hlow
    rw [List.mem_singleton.mp hin]
    exact Or.inl ⟨hc,UInt8.not_le.mp hlow⟩

/-- Where a browser goes from a reference it is given: on the origin it has, to another authority, or
to another scheme. -/
inductive Resolved where
  | origin
  | authority (rest : Bytes)
  | absolute (scheme rest : Bytes)
  deriving DecidableEq

def isSlash (b : UInt8) : Bool := b=0x2F∨b=0x5C

/-- The relative and relative slash states, for a base whose scheme is special. -/
def resolveRelative : Bytes → Resolved
  | b::c::rest => if isSlash b∧isSlash c then .authority rest else .origin
  | _ => .origin

def isAlpha (b : UInt8) : Bool := 0x41≤b∧b≤0x5A∨0x61≤b∧b≤0x7A

def isSchemeByte (b : UInt8) : Bool :=
  isAlpha b∨0x30≤b∧b≤0x39∨b=0x2B∨b=0x2D∨b=0x2E

def lower (b : UInt8) : UInt8 := if 0x41≤b∧b≤0x5A then b+0x20 else b

/-- What is left of a reference when control characters and spaces around it and all tabs and newlines
are gone. -/
def stripped (s : Bytes) : Bytes :=
  ((s.dropWhile (·≤0x20)).reverse.dropWhile (·≤0x20)).reverse.filter
    fun b => b≠0x09∧b≠0x0A∧b≠0x0D

/-- The URL standard's basic parser, as far as the origin. `scheme` is the base's. -/
def resolve (scheme s : Bytes) : Resolved :=
  let s := stripped s
  let name := s.takeWhile isSchemeByte
  let rest := s.dropWhile isSchemeByte
  if (name.head?.map isAlpha).getD false∧rest.head?=some 0x3A then
    if name.map lower=scheme then
      match rest.tail with
      | 0x2F::0x2F::more => .authority more
      | more => resolveRelative more
    else .absolute (name.map lower) rest.tail
  else resolveRelative s

/-- A reference that begins with one slash, and has no control character, stays on its origin. -/
theorem resolve_local (scheme : Bytes) (hplain : ∀ b∈t, 0x20≤b)
    (hone : ∀ b∈t.head?, isSlash b=false) : resolve scheme (0x2F::t)=.origin := by
  obtain ⟨t',more,hsplit,hstrip⟩ : ∃ t' more, t=t'++more∧stripped (0x2F::t)=0x2F::t' := by
    refine ⟨(t.reverse.dropWhile (·≤0x20)).reverse,(t.reverse.takeWhile (·≤0x20)).reverse,?_,?_⟩
    · rw [← List.reverse_append,List.takeWhile_append_dropWhile,List.reverse_reverse]
    · have hfront : (0x2F::t).dropWhile (·≤0x20)=0x2F::t := rfl
      have hback : (0x2F::t).reverse.dropWhile (·≤0x20)=t.reverse.dropWhile (·≤0x20)++[0x2F] := by
        rw [List.reverse_cons,List.dropWhile_append]
        split
        · rename_i hnil
          rw [List.isEmpty_iff.mp hnil]
          rfl
        · rfl
      unfold stripped
      rw [hfront,hback,List.reverse_append,List.reverse_singleton,List.singleton_append,
        List.filter_eq_self]
      refine List.forall_mem_cons.mpr ⟨by decide,?_⟩
      intro b hb
      have hin : b∈t :=
        List.mem_reverse.mp ((List.dropWhile_sublist _).subset (List.mem_reverse.mp hb))
      have hlow : ∀ b : UInt8, 0x20≤b → b≠0x09∧b≠0x0A∧b≠0x0D := by
        intro b hb
        refine ⟨?_,?_,?_⟩ <;>
          · rintro rfl
            exact absurd hb (by decide)
      exact decide_eq_true (hlow b (hplain b hin))
  unfold resolve
  dsimp only
  rw [hstrip,if_neg (by simp [isSchemeByte,isAlpha])]
  cases t' with
  | nil => rfl
  | cons c rest =>
    have hc : isSlash c=false := hone c (by rw [hsplit]; rfl)
    unfold resolveRelative
    dsimp only
    rw [if_neg]
    rintro ⟨-,hslash⟩
    rw [hc] at hslash
    cases hslash

end Kitp.WebPaths
