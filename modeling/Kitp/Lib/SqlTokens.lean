import Kitp.Lib.Bounded
import Kitp.Lib.Quoting

/-! The lexical structure of PostgreSQL, with `:name` slots: how a text splits into tokens, and that
the split is the only one. (A literal that goes on behind a line break is two literals here.) -/
namespace Kitp.SqlTokens
open Kitp.Quoting

def identStart (c : Char) : Bool := c = '_'||c.isAlpha

def identCont (c : Char) : Bool := identStart c||c.isDigit

def wordStart (c : Char) : Bool := identStart c||decide (0x80 ≤ c.toNat)

def wordCont (c : Char) : Bool := wordStart c||c.isDigit||c = '$'

def quote : Char := Char.ofNat 0x27

def doubleQuote : Char := Char.ofNat 0x22

def backslash : Char := Char.ofNat 0x5C

def newline (c : Char) : Bool := c = '\n'||c = '\r'

/-- What stands in an escape string: a character, a doubled quote, a character behind a backslash. -/
inductive Piece where
  | plain (c : Char)
  | doubled
  | behind (c : Char)
  deriving DecidableEq

inductive Token where
  | word (w : List Char)
  | param (digits : List Char)
  | slot (name : List Char)
  | cast
  | quoted (body : List Char)
  | escaped (mark : Char) (body : List Piece)
  | ident (body : List Char)
  | dollar (tag body : List Char)
  | line (body : List Char)
  | block (body : List Char)
  | char (c : Char)
  deriving DecidableEq

def Piece.text : Piece → List Char
  | .plain c => [c]
  | .doubled => [quote,quote]
  | .behind c => [backslash,c]

def tagText (tag : List Char) : List Char := '$'::(tag++['$'])

def Token.text : Token → List Char
  | .word w => w
  | .param digits => '$'::digits
  | .slot name => ':'::name
  | .cast => [ ':', ':']
  | .quoted body => quote::(double quote body++[quote])
  | .escaped mark body => mark::quote::(body.flatMap Piece.text++[quote])
  | .ident body => doubleQuote::(double doubleQuote body++[doubleQuote])
  | .dollar tag body => tagText tag++body++tagText tag
  | .line body => '-':: '-'::body
  | .block body => '/':: '*'::body
  | .char c => [c]

def render (ts : List Token) : List Char := ts.flatMap Token.text

def readEscaped : List Char → Option (List Piece × List Char)
  | [] => none
  | c::s =>
    if c=quote then
      match s with
      | [] => some ([],[])
      | d::r => if d=quote then (readEscaped r).map fun (b,o) => (.doubled::b,o) else some ([],d::r)
    else if c=backslash then
      match s with
      | [] => none
      | d::r => (readEscaped r).map fun (b,o) => (.behind d::b,o)
    else (readEscaped s).map fun (b,o) => (.plain c::b,o)

/-- Up to the first place where the mark stands. -/
def readUntil (mark : List Char) : List Char → Option (List Char × List Char)
  | [] => if mark=[] then some ([],[]) else none
  | c::s =>
    if mark.isPrefixOf (c::s) then some ([],(c::s).drop mark.length)
    else (readUntil mark s).map fun (b,o) => (c::b,o)

/-- Comments nest: up to the end of the one that depth many are open behind. -/
def readBlock (depth : Nat) : List Char → Option (List Char × List Char)
  | '*':: '/'::s =>
    if depth=0 then some (['*', '/'],s)
    else (readBlock (depth-1) s).map fun (b,o) => ('*':: '/'::b,o)
  | '/':: '*'::s => (readBlock (depth+1) s).map fun (b,o) => ('/':: '*'::b,o)
  | c::s => (readBlock depth s).map fun (b,o) => (c::b,o)
  | [] => none

def readDollar (s : List Char) : Option (Token × List Char) :=
  let digits := s.takeWhile Char.isDigit
  if digits≠[] then some (.param digits,s.dropWhile Char.isDigit)
  else
    let tag := s.takeWhile fun c => wordCont c&&c≠ '$'
    match s.dropWhile fun c => wordCont c&&c≠ '$' with
    | [] => none
    | c::r =>
      if c = '$' then (readUntil (tagText tag) r).map fun (b,o) => (.dollar tag b,o) else none

def readWord (c : Char) (s : List Char) : Option (Token × List Char) :=
  let w := c::s.takeWhile wordCont
  match s.dropWhile wordCont with
  | [] => some (.word w,[])
  | d::r =>
    if d=quote∧(w=['e']∨w=['E']) then (readEscaped r).map fun (b,o) => (.escaped c b,o)
    else some (.word w,d::r)

def readColon : List Char → Token × List Char
  | [] => (.char ':',[])
  | c::r =>
    if c = ':' then (.cast,r)
    else if identStart c then (.slot (c::r.takeWhile identCont),r.dropWhile identCont)
    else (.char ':',c::r)

/-- The first token of c::s and what is behind it. -/
def step (c : Char) (s : List Char) : Option (Token × List Char) :=
  if wordStart c then readWord c s
  else if c=quote then (readQuoted quote s).map fun (b,o) => (.quoted b,o)
  else if c=doubleQuote then (readQuoted doubleQuote s).map fun (b,o) => (.ident b,o)
  else if c = '$' then readDollar s
  else if c = '-'∧s.head?=some '-' then
    some (.line (s.tail.takeWhile (!newline ·)),s.tail.dropWhile (!newline ·))
  else if c = '/'∧s.head?=some '*' then (readBlock 0 s.tail).map fun (b,o) => (.block b,o)
  else if c = ':' then some (readColon s)
  else some (.char c,s)

def lexFrom : Nat → List Char → Option (List Token)
  | _, [] => some []
  | 0, _::_ => none
  | n+1, c::s => (step c s).bind fun (t,r) => (lexFrom n r).map (t::·)

/-- The tokens of a text, when it is one. -/
def lex (s : List Char) : Option (List Token) := lexFrom s.length s

def Piece.Sound : Piece → Prop
  | .plain c => c≠quote∧c≠backslash
  | .doubled => True
  | .behind _ => True

/-- The token is one the reader can find. -/
def Token.Sound : Token → Prop
  | .word w => ∃ c v, w=c::v∧wordStart c∧∀ d∈v, wordCont d
  | .param digits => digits≠[]∧∀ c∈digits, c.isDigit
  | .slot name => ∃ c v, name=c::v∧identStart c∧∀ d∈v, identCont d
  | .cast => True
  | .quoted _ => True
  | .escaped mark body => (mark = 'e'∨mark = 'E')∧∀ p∈body, p.Sound
  | .ident _ => True
  | .dollar tag body => (∀ c∈tag, wordCont c∧c≠ '$')∧(∀ c∈tag.head?, c.isDigit=false)∧
      readUntil (tagText tag) (body++tagText tag)=some (body,[])
  | .line body => ∀ c∈body, newline c=false
  | .block body => readBlock 0 body=some (body,[])
  | .char c => wordStart c=false∧c≠quote∧c≠doubleQuote∧c≠ '$'

/-- The token ends where the character behind it is next. -/
def Token.Ends (next : Option Char) : Token → Prop
  | .word w => ∀ c∈next, wordCont c=false∧(c=quote → w≠['e']∧w≠['E'])
  | .param _ => ∀ c∈next, c.isDigit=false
  | .slot _ => ∀ c∈next, identCont c=false
  | .cast => True
  | .quoted _ => ∀ c∈next, c≠quote
  | .escaped _ _ => ∀ c∈next, c≠quote
  | .ident _ => ∀ c∈next, c≠doubleQuote
  | .dollar _ _ => True
  | .line _ => ∀ c∈next, newline c
  | .block _ => True
  | .char c => ∀ d∈next, (c = '-' → d≠ '-')∧(c = '/' → d≠ '*')∧(c = ':' → d≠ ':'∧identStart d=false)

/-- Each token is sound and ends where the next begins. -/
def Chained : List Token → Prop
  | [] => True
  | t::ts => t.Sound∧t.Ends (render ts).head?∧Chained ts

variable {s b o v : List Char} {t : Token} {ts : List Token} {c q : Char} {m : List Char}

theorem readEscaped_sound {b : List Piece} (h : readEscaped s=some (b,o)) :
    s=b.flatMap Piece.text++quote::o∧(∀ p∈b, p.Sound)∧∀ c∈o.head?, c≠quote := by
  fun_induction readEscaped s generalizing b with
  | case1 => cases h
  | case2 =>
    cases h
    exact ⟨rfl,by simp,by simp⟩
  | case3 r ih =>
    obtain ⟨⟨b',o'⟩,hr,heq⟩ := Option.map_eq_some_iff.mp h
    cases heq
    obtain ⟨rfl,hb,ho⟩ := ih hr
    exact ⟨by simp [Piece.text],by simpa [Piece.Sound] using hb,ho⟩
  | case4 d r hd =>
    cases h
    exact ⟨rfl,by simp,fun c hc => by cases hc; exact hd⟩
  | case5 => cases h
  | case6 hc d r ih =>
    obtain ⟨⟨b',o'⟩,hr,heq⟩ := Option.map_eq_some_iff.mp h
    cases heq
    obtain ⟨rfl,hb,ho⟩ := ih hr
    exact ⟨by simp [Piece.text],by simpa [Piece.Sound] using hb,ho⟩
  | case7 c s hq hback ih =>
    obtain ⟨⟨b',o'⟩,hr,heq⟩ := Option.map_eq_some_iff.mp h
    cases heq
    obtain ⟨rfl,hb,ho⟩ := ih hr
    exact ⟨by simp [Piece.text],by simpa [Piece.Sound,hq,hback] using hb,ho⟩

theorem readEscaped_text {b : List Piece} (hb : ∀ p∈b, p.Sound) (ho : ∀ c∈o.head?, c≠quote) :
    readEscaped (b.flatMap Piece.text++quote::o)=some (b,o) := by
  have hne : backslash≠quote := by decide
  induction b with
  | nil =>
    rw [List.flatMap_nil,List.nil_append,readEscaped.eq_def]
    cases o with
    | nil => simp
    | cons d o =>
      have hd : d≠quote := ho d rfl
      simp [hd]
  | cons p b ih =>
    have ih := ih fun p hp => hb p (List.mem_cons_of_mem _ hp)
    have hp := hb p List.mem_cons_self
    cases p with
    | plain c =>
      rw [List.flatMap_cons,Piece.text,List.append_assoc,List.singleton_append,readEscaped.eq_def]
      simp [hp.1,hp.2,ih]
    | doubled =>
      rw [List.flatMap_cons,Piece.text,List.append_assoc,readEscaped.eq_def]
      simp [ih]
    | behind c =>
      rw [List.flatMap_cons,Piece.text,List.append_assoc,readEscaped.eq_def]
      simp [hne,ih]

theorem readUntil_split (h : readUntil m s=some (b,o)) : s=b++m++o := by
  induction s generalizing b with
  | nil =>
    rw [readUntil] at h
    split at h
    · rename_i hm
      cases h
      rw [hm]
      rfl
    · cases h
  | cons c s ih =>
    rw [readUntil] at h
    split at h
    · rename_i hm
      cases h
      obtain ⟨u,hu⟩ := List.isPrefixOf_iff_prefix.mp hm
      rw [← hu,List.drop_left,List.nil_append]
    · obtain ⟨⟨b',o'⟩,hr,heq⟩ := Option.map_eq_some_iff.mp h
      cases heq
      rw [ih hr]
      rfl

theorem readUntil_append (h : readUntil m s=some (b,[])) (o : List Char) :
    readUntil m (s++o)=some (b,o) := by
  induction s generalizing b with
  | nil =>
    rw [readUntil] at h
    split at h
    · rename_i hm
      cases h
      cases o with
      | nil => rw [hm]; rfl
      | cons c o => simp [readUntil,hm]
    · cases h
  | cons c s ih =>
    rw [readUntil] at h
    rw [List.cons_append,readUntil]
    split at h
    · rename_i hm
      have hpre := List.isPrefixOf_iff_prefix.mp hm
      have hlen : m.length=(c::s).length := by
        have hnil : (c::s).drop m.length=[] := (Prod.mk.inj (Option.some.inj h)).2
        have hle := hpre.length_le
        have := List.drop_eq_nil_iff.mp hnil
        omega
      have hsame : m=c::s := hpre.eq_of_length hlen
      have hmore : m.isPrefixOf (c::(s++o)) :=
        List.isPrefixOf_iff_prefix.mpr (hpre.trans (List.prefix_append (c::s) o))
      rw [if_pos hmore,← List.cons_append,← hsame,List.drop_left]
      rw [(Prod.mk.inj (Option.some.inj h)).1]
    · rename_i hm
      obtain ⟨⟨b',o'⟩,hr,heq⟩ := Option.map_eq_some_iff.mp h
      cases heq
      have hmore : ¬m.isPrefixOf (c::(s++o)) := by
        intro hpre
        have hlen : m.length≤(c::s).length := by
          rw [readUntil_split hr]
          simp only [List.length_cons,List.length_append]
          omega
        exact hm (List.isPrefixOf_iff_prefix.mpr (List.prefix_of_prefix_length_le
          (List.isPrefixOf_iff_prefix.mp hpre) (List.prefix_append (c::s) o) hlen))
      rw [if_neg hmore,ih hr]
      rfl

/-- What stands before the mark does not hold it. -/
theorem readUntil_sound (h : readUntil m s=some (b,o)) : readUntil m (b++m)=some (b,[]) := by
  induction s generalizing b with
  | nil =>
    have := readUntil_split h
    obtain ⟨hbm,rfl⟩ := List.append_eq_nil_iff.mp this.symm
    rw [hbm]
    exact h
  | cons c s ih =>
    have hsplit := readUntil_split h
    rw [readUntil] at h
    split at h
    · cases h
      cases m with
      | nil => rfl
      | cons d m =>
        have hself : (d::m).isPrefixOf (d::m) := List.isPrefixOf_iff_prefix.mpr List.prefix_rfl
        rw [List.nil_append,readUntil,if_pos hself,List.drop_length]
    · rename_i hm
      obtain ⟨⟨b',o'⟩,hr,heq⟩ := Option.map_eq_some_iff.mp h
      cases heq
      have hmore : ¬m.isPrefixOf (c::(b'++m)) := by
        intro hpre
        apply hm
        rw [hsplit]
        exact List.isPrefixOf_iff_prefix.mpr
          ((List.isPrefixOf_iff_prefix.mp hpre).trans (List.prefix_append (c::b'++m) o))
      rw [List.cons_append,readUntil,if_neg hmore,ih hr]
      rfl

theorem readBlock_split {d : Nat} (h : readBlock d s=some (b,o)) : s=b++o := by
  fun_induction readBlock d s generalizing b with
  | case1 s =>
    cases h
    rfl
  | case2 d s hd ih =>
    obtain ⟨⟨b',o'⟩,hr,heq⟩ := Option.map_eq_some_iff.mp h
    cases heq
    rw [ih hr]
    rfl
  | case3 d s ih =>
    obtain ⟨⟨b',o'⟩,hr,heq⟩ := Option.map_eq_some_iff.mp h
    cases heq
    rw [ih hr]
    rfl
  | case4 d c s h1 h2 ih =>
    obtain ⟨⟨b',o'⟩,hr,heq⟩ := Option.map_eq_some_iff.mp h
    cases heq
    rw [ih hr]
    rfl
  | case5 => cases h

theorem readBlock_ne {d : Nat} (h : readBlock d s=some (b,o)) : b≠[] := by
  fun_induction readBlock d s generalizing b with
  | case1 s =>
    cases h
    simp
  | case2 d s hd ih =>
    obtain ⟨⟨b',o'⟩,hr,heq⟩ := Option.map_eq_some_iff.mp h
    cases heq
    simp
  | case3 d s ih =>
    obtain ⟨⟨b',o'⟩,hr,heq⟩ := Option.map_eq_some_iff.mp h
    cases heq
    simp
  | case4 d c s h1 h2 ih =>
    obtain ⟨⟨b',o'⟩,hr,heq⟩ := Option.map_eq_some_iff.mp h
    cases heq
    simp
  | case5 => cases h

/-- The comment ends where it does whatever is behind it. -/
theorem readBlock_rest {d : Nat} (h : readBlock d s=some (b,o)) (v : List Char) :
    readBlock d (b++v)=some (b,v) := by
  fun_induction readBlock d s generalizing b with
  | case1 s =>
    cases h
    rfl
  | case2 d s hd ih =>
    obtain ⟨⟨b',o'⟩,hr,heq⟩ := Option.map_eq_some_iff.mp h
    cases heq
    rw [List.cons_append,List.cons_append,readBlock,if_neg hd,ih hr]
    rfl
  | case3 d s ih =>
    obtain ⟨⟨b',o'⟩,hr,heq⟩ := Option.map_eq_some_iff.mp h
    cases heq
    rw [List.cons_append,List.cons_append,readBlock,ih hr]
    rfl
  | case4 d c s h1 h2 ih =>
    obtain ⟨⟨b',o'⟩,hr,heq⟩ := Option.map_eq_some_iff.mp h
    cases heq
    have hback := ih hr
    -- the character behind c is the one that stood there
    cases hb : b' with
    | nil => exact absurd hb (readBlock_ne hr)
    | cons e u =>
      have hs := readBlock_split hr
      rw [hb] at hback hs
      have hclose : ∀ r, c = '*' → e::(u++v) = '/'::r → False := by
        intro r hc he
        cases he
        exact h1 _ hc hs
      have hopen : ∀ r, c = '/' → e::(u++v) = '*'::r → False := by
        intro r hc he
        cases he
        exact h2 _ hc hs
      rw [List.cons_append,List.cons_append,readBlock.eq_3 d c _ hclose hopen,← List.cons_append,
        hback]
      rfl
  | case5 => cases h

/-- The token is what the text starts with, r behind it. -/
def Cut (t : Token) (r s : List Char) : Prop := s=t.text++r∧t.Sound∧t.Ends r.head?

theorem mem_takeWhile {p : Char → Bool} (s : List Char) : ∀ d∈s.takeWhile p, p d :=
  fun _ hd => List.mem_takeWhile_imp hd

theorem readWord_sound {r : List Char} (hc : wordStart c) (h : readWord c s=some (t,r)) :
    Cut t r (c::s) := by
  have hsplit := List.takeWhile_append_dropWhile (p := wordCont) (l := s)
  have hstop := span_stop wordCont s
  rw [readWord] at h
  cases hd : s.dropWhile wordCont with
  | nil =>
    simp only [hd] at h hsplit
    cases h
    refine ⟨?_,⟨c,_,rfl,hc,mem_takeWhile s⟩,by simp [Token.Ends]⟩
    rw [Token.text,List.cons_append,hsplit]
  | cons d v =>
    rw [hd] at hsplit hstop
    simp only [hd] at h
    split at h
    · rename_i hmark
      obtain ⟨⟨b,o⟩,hr,heq⟩ := Option.map_eq_some_iff.mp h
      cases heq
      obtain ⟨hv,hb,ho⟩ := readEscaped_sound hr
      have hw : s.takeWhile wordCont=[]∧(c = 'e'∨c = 'E') := by
        rcases hmark.2 with hw | hw
        · exact ⟨(List.cons.inj hw).2,.inl (List.cons.inj hw).1⟩
        · exact ⟨(List.cons.inj hw).2,.inr (List.cons.inj hw).1⟩
      refine ⟨?_,⟨hw.2,hb⟩,ho⟩
      rw [← hsplit,hw.1,hmark.1,hv]
      simp [Token.text]
    · rename_i hmark
      cases h
      refine ⟨?_,⟨c,_,rfl,hc,mem_takeWhile s⟩,?_⟩
      · rw [Token.text,List.cons_append,hsplit]
      · intro e he
        cases he
        refine ⟨hstop _ rfl,fun hq => ?_⟩
        constructor
        · exact fun hw => hmark ⟨hq,.inl hw⟩
        · exact fun hw => hmark ⟨hq,.inr hw⟩

theorem readDollar_sound {r : List Char} (h : readDollar s=some (t,r)) : Cut t r ('$'::s) := by
  rw [readDollar] at h
  split at h
  · rename_i hdigits
    cases h
    refine ⟨?_,⟨hdigits,mem_takeWhile s⟩,span_stop _ s⟩
    rw [Token.text,List.cons_append,List.takeWhile_append_dropWhile]
  · rename_i hdigits
    have hsplit := List.takeWhile_append_dropWhile (p := fun c => wordCont c&&c≠ '$') (l := s)
    have htag : ∀ d∈s.takeWhile fun c => wordCont c&&c≠ '$', wordCont d∧d≠ '$' := by
      intro d hd
      simpa using mem_takeWhile s d hd
    have hhead : ∀ d∈(s.takeWhile fun c => wordCont c&&c≠ '$').head?, d.isDigit=false := by
      cases s with
      | nil => simp
      | cons e v =>
        have he : e.isDigit=false := by
          by_contra hcon
          simp [List.takeWhile_cons,hcon] at hdigits
        intro d hd
        rw [List.takeWhile_cons] at hd
        split at hd
        · cases hd
          exact he
        · cases hd
    generalize htake : (s.takeWhile fun c => wordCont c&&c≠ '$')=tag at h hsplit htag hhead
    cases hdrop : s.dropWhile fun c => wordCont c&&c≠ '$' with
    | nil =>
      simp only [hdrop] at h
      cases h
    | cons c v =>
      simp only [hdrop] at h
      split at h
      · rename_i hc
        obtain ⟨⟨b,o⟩,hr,heq⟩ := Option.map_eq_some_iff.mp h
        cases heq
        refine ⟨?_,⟨htag,hhead,readUntil_sound hr⟩,trivial⟩
        rw [← hsplit,hdrop,hc,readUntil_split hr]
        simp [Token.text,tagText]
      · cases h

theorem readColon_sound {r : List Char} (h : readColon s=(t,r)) : Cut t r (':'::s) := by
  have hstart : wordStart ':'=false∧ ':'≠quote∧ ':'≠doubleQuote∧ ':'≠ '$' := by decide
  cases s with
  | nil =>
    cases h
    exact ⟨rfl,hstart,by simp [Token.Ends]⟩
  | cons c v =>
    rw [readColon] at h
    split at h
    · rename_i hc
      cases h
      exact ⟨by rw [hc]; rfl,trivial,trivial⟩
    split at h
    · rename_i hc
      cases h
      refine ⟨?_,⟨c,_,rfl,hc,mem_takeWhile v⟩,span_stop _ v⟩
      rw [Token.text,List.cons_append,List.cons_append,List.takeWhile_append_dropWhile]
    · rename_i hcast hc
      cases h
      refine ⟨rfl,hstart,?_⟩
      intro d hd
      cases hd
      exact ⟨fun h => absurd h (by decide),fun h => absurd h (by decide),
        fun _ => ⟨hcast,by simpa using hc⟩⟩

theorem step_sound {r : List Char} (h : step c s=some (t,r)) : Cut t r (c::s) := by
  rw [step] at h
  split at h
  · rename_i hc
    exact readWord_sound hc h
  split at h
  · rename_i hc
    obtain ⟨⟨b,o⟩,hr,heq⟩ := Option.map_eq_some_iff.mp h
    cases heq
    obtain ⟨rfl,ho⟩ := readQuoted_sound hr
    exact ⟨by simp [Token.text,hc],trivial,ho⟩
  split at h
  · rename_i hc
    obtain ⟨⟨b,o⟩,hr,heq⟩ := Option.map_eq_some_iff.mp h
    cases heq
    obtain ⟨rfl,ho⟩ := readQuoted_sound hr
    exact ⟨by simp [Token.text,hc],trivial,ho⟩
  split at h
  · rename_i hc
    rw [hc]
    exact readDollar_sound h
  split at h
  · rename_i hc
    obtain ⟨v,rfl⟩ := List.head?_eq_some_iff.mp hc.2
    cases h
    refine ⟨?_,?_,?_⟩
    · rw [hc.1,Token.text,List.tail_cons,List.cons_append,List.cons_append,
        List.takeWhile_append_dropWhile]
    · intro d hd
      simpa using mem_takeWhile _ d hd
    · intro d hd
      simpa using span_stop _ _ d hd
  split at h
  · rename_i hc
    obtain ⟨v,rfl⟩ := List.head?_eq_some_iff.mp hc.2
    obtain ⟨⟨b,o⟩,hr,heq⟩ := Option.map_eq_some_iff.mp h
    cases heq
    refine ⟨?_,?_,trivial⟩
    · rw [hc.1,Token.text,List.cons_append,List.cons_append,← readBlock_split hr]
      rfl
    · have := readBlock_rest hr []
      rwa [List.append_nil] at this
  split at h
  · rename_i hc
    rw [hc]
    exact readColon_sound (Option.some.inj h)
  · rename_i hword hquote hdouble hdollar hline hblock hcolon
    cases h
    refine ⟨rfl,⟨by simpa using hword,hquote,hdouble,hdollar⟩,?_⟩
    intro d hd
    refine ⟨fun hc hdash => hline ⟨hc,?_⟩,fun hc hstar => hblock ⟨hc,?_⟩,fun hc => absurd hc hcolon⟩
    · rw [Option.mem_def.mp hd,hdash]
    · rw [Option.mem_def.mp hd,hstar]

theorem readWord_cut {w r : List Char} (hw : ∀ d∈w, wordCont d)
    (he : (Token.word (c::w)).Ends r.head?) : readWord c (w++r)=some (.word (c::w),r) := by
  have hr : ∀ d∈r.head?, wordCont d=false := fun d hd => (he d hd).1
  obtain ⟨htake,hdrop⟩ := span_split hw hr
  rw [readWord,htake,hdrop]
  cases r with
  | nil => rfl
  | cons d v =>
    have hmark : ¬(d=quote∧(c::w=['e']∨c::w=['E'])) := by
      rintro ⟨hd,hw | hw⟩
      · exact ((he d rfl).2 hd).1 hw
      · exact ((he d rfl).2 hd).2 hw
    simp only [if_neg hmark]

theorem readWord_escaped {body : List Piece} {r : List Char} (hc : c = 'e'∨c = 'E')
    (hb : ∀ p∈body, p.Sound) (hr : ∀ d∈r.head?, d≠quote) :
    readWord c (quote::(body.flatMap Piece.text++quote::r))=some (.escaped c body,r) := by
  have hquote : wordCont quote=false := by decide
  have hmark : quote=quote∧([c]=['e']∨[c]=['E']) := by simpa using hc
  have hone : (quote::(body.flatMap Piece.text++quote::r)).takeWhile wordCont=[] := by
    simp [hquote]
  have hrest : (quote::(body.flatMap Piece.text++quote::r)).dropWhile wordCont=
      quote::(body.flatMap Piece.text++quote::r) := by simp [hquote]
  rw [readWord,hone,hrest]
  show (if _ then _ else _)=_
  rw [if_pos hmark,readEscaped_text hb hr]
  rfl

theorem readDollar_param {digits r : List Char} (hd : digits≠[]) (hall : ∀ c∈digits, c.isDigit)
    (hr : ∀ d∈r.head?, d.isDigit=false) : readDollar (digits++r)=some (.param digits,r) := by
  obtain ⟨htake,hdrop⟩ := span_split hall hr
  rw [readDollar,htake,hdrop,if_pos hd]

theorem readDollar_dollar {tag body r : List Char} (htag : ∀ c∈tag, wordCont c∧c≠ '$')
    (hhead : ∀ c∈tag.head?, c.isDigit=false)
    (hb : readUntil (tagText tag) (body++tagText tag)=some (body,[])) :
    readDollar (tag++ '$'::(body++tagText tag++r))=some (.dollar tag body,r) := by
  have hall : ∀ c∈tag, (wordCont c&&decide (c≠ '$'))=true := by
    intro c hc
    simpa using htag c hc
  have hstop : ∀ d∈('$'::(body++tagText tag++r)).head?, (wordCont d&&decide (d≠ '$'))=false := by
    intro d hd
    cases hd
    decide
  obtain ⟨htake,hdrop⟩ := span_split hall hstop
  have hnone : (tag++ '$'::(body++tagText tag++r)).takeWhile Char.isDigit=[] := by
    cases tag with
    | nil =>
      have : ( '$').isDigit=false := by decide
      simp [this]
    | cons e v =>
      have := hhead e rfl
      simp [this]
  rw [readDollar,hnone]
  simp only [htake,hdrop,ne_eq,not_true_eq_false,if_false,if_true,readUntil_append hb,
    Option.map_some]

theorem readColon_slot {v r : List Char} (hc : identStart c) (hv : ∀ d∈v, identCont d)
    (hr : ∀ d∈r.head?, identCont d=false) : readColon (c::(v++r))=(.slot (c::v),r) := by
  obtain ⟨htake,hdrop⟩ := span_split hv hr
  have hne : c≠ ':' := by
    rintro rfl
    revert hc
    decide
  rw [readColon,if_neg hne,if_pos hc,htake,hdrop]

/-- The reader finds the token that the text starts with. -/
theorem step_cut {r : List Char} (h : Cut t r s) : ∃ c v, s=c::v∧step c v=some (t,r) := by
  obtain ⟨rfl,hsound,hends⟩ := h
  cases t with
  | word w =>
    obtain ⟨c,v,rfl,hc,hv⟩ := hsound
    refine ⟨c,v++r,rfl,?_⟩
    rw [step,if_pos hc]
    exact readWord_cut hv hends
  | param digits =>
    refine ⟨'$',digits++r,rfl,?_⟩
    have hread := readDollar_param hsound.1 hsound.2 hends
    have hskip : wordStart '$'=false∧ '$'≠quote∧ '$'≠doubleQuote := by decide
    simp [step,hskip,hread]
  | slot name =>
    obtain ⟨c,v,rfl,hc,hv⟩ := hsound
    refine ⟨':',c::(v++r),rfl,?_⟩
    have hread := readColon_slot hc hv hends
    have hskip : wordStart ':'=false∧ ':'≠quote∧ ':'≠doubleQuote := by decide
    simp [step,hskip,hread]
  | cast =>
    refine ⟨':', ':'::r,rfl,?_⟩
    have hskip : wordStart ':'=false∧ ':'≠quote∧ ':'≠doubleQuote := by decide
    simp [step,hskip,readColon]
  | quoted body =>
    refine ⟨quote,double quote body++quote::r,by simp [Token.text],?_⟩
    have hread := readQuoted_double hends body
    have hskip : wordStart quote=false := by decide
    simp [step,hskip,hread]
  | escaped mark body =>
    refine ⟨mark,quote::(body.flatMap Piece.text++quote::r),by simp [Token.text],?_⟩
    have hmark : wordStart mark := by
      rcases hsound.1 with rfl | rfl
      · decide
      · decide
    rw [step,if_pos hmark]
    exact readWord_escaped hsound.1 hsound.2 hends
  | ident body =>
    refine ⟨doubleQuote,double doubleQuote body++doubleQuote::r,by simp [Token.text],?_⟩
    have hread := readQuoted_double hends body
    have hskip : wordStart doubleQuote=false∧doubleQuote≠quote := by decide
    simp [step,hskip,hread]
  | dollar tag body =>
    refine ⟨'$',tag++ '$'::(body++tagText tag++r),by simp [Token.text,tagText],?_⟩
    have hread := readDollar_dollar (r := r) hsound.1 hsound.2.1 hsound.2.2
    have hskip : wordStart '$'=false∧ '$'≠quote∧ '$'≠doubleQuote := by decide
    simp only [step,hskip,hread]
    simp
  | line body =>
    refine ⟨'-', '-'::(body++r),rfl,?_⟩
    have hall : ∀ c∈body, (!newline c)=true := fun c hc => by simp [hsound c hc]
    have hstop : ∀ c∈r.head?, (!newline c)=false := fun c hc => by simp [hends c hc]
    obtain ⟨htake,hdrop⟩ := span_split hall hstop
    have hskip : wordStart '-'=false∧ '-'≠quote∧ '-'≠doubleQuote := by decide
    simp [step,hskip,htake,hdrop]
  | block body =>
    refine ⟨'/', '*'::(body++r),rfl,?_⟩
    have hread := readBlock_rest hsound r
    have hskip : wordStart '/'=false∧ '/'≠quote∧ '/'≠doubleQuote := by decide
    simp [step,hskip,hread]
  | char c =>
    refine ⟨c,r,rfl,?_⟩
    obtain ⟨hword,hquote,hdouble,hdollar⟩ := hsound
    have hline : ¬(c = '-'∧r.head?=some '-') := fun h => ((hends _ h.2).1 h.1) rfl
    have hblock : ¬(c = '/'∧r.head?=some '*') := fun h => ((hends _ h.2).2.1 h.1) rfl
    rw [step,hword,if_neg Bool.false_ne_true,if_neg hquote,if_neg hdouble,if_neg hdollar,
      if_neg hline,if_neg hblock]
    split
    · rename_i hc
      subst hc
      cases r with
      | nil => rfl
      | cons d v =>
        have hd := (hends d rfl).2.2 rfl
        rw [readColon,if_neg hd.1,hd.2,if_neg Bool.false_ne_true]
    · rfl

theorem text_ne (h : t.Sound) : t.text≠[] := by
  cases t with
  | word w =>
    obtain ⟨c,v,rfl,-⟩ := h
    simp [Token.text]
  | _ => simp [Token.text,tagText]

theorem lexFrom_sound {n : Nat} (h : lexFrom n s=some ts) : render ts=s∧Chained ts := by
  induction n generalizing s ts with
  | zero =>
    cases s with
    | nil =>
      cases h
      exact ⟨rfl,trivial⟩
    | cons c s => cases h
  | succ n ih =>
    cases s with
    | nil =>
      cases h
      exact ⟨rfl,trivial⟩
    | cons c s =>
      rw [lexFrom] at h
      obtain ⟨⟨t,r⟩,hstep,hrest⟩ := Option.bind_eq_some_iff.mp h
      obtain ⟨us,hus,rfl⟩ := Option.map_eq_some_iff.mp hrest
      obtain ⟨hrender,hchain⟩ := ih hus
      obtain ⟨hs,hsound,hends⟩ := step_sound hstep
      refine ⟨?_,hsound,?_,hchain⟩
      · rw [hs,← hrender]
        rfl
      · rw [hrender]
        exact hends

theorem lexFrom_render {n : Nat} (h : Chained ts) (hn : (render ts).length ≤ n) :
    lexFrom n (render ts)=some ts := by
  induction ts generalizing n with
  | nil => cases n <;> rfl
  | cons t ts ih =>
    obtain ⟨hsound,hends,hchain⟩ := h
    have hlen : 0 < t.text.length := List.length_pos_iff.mpr (text_ne hsound)
    have hrender : render (t::ts)=t.text++render ts := rfl
    obtain ⟨c,v,hs,hstep⟩ := step_cut (s := render (t::ts)) ⟨hrender,hsound,hends⟩
    rw [hrender,List.length_append] at hn
    cases n with
    | zero => omega
    | succ n =>
      have hrest := ih hchain (n := n) (by omega)
      rw [hs,lexFrom,hstep,Option.bind_some]
      simp only [hrest,Option.map_some]

/-- A text is split one way: into tokens that each end where the next begins. -/
theorem lex_iff : lex s=some ts ↔ render ts=s∧Chained ts := by
  constructor
  · exact lexFrom_sound
  · rintro ⟨rfl,hchain⟩
    exact lexFrom_render hchain (Nat.le_refl _)

end Kitp.SqlTokens
