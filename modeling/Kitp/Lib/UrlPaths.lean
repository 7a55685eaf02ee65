import Kitp.Lib.PercentText

/-! The path a browser makes of a rooted reference: what it escapes, which segments it drops,
and when the last one spells the text that was joined into it. -/
namespace Kitp.UrlPaths
open Kitp.Utf8 Kitp.PercentText

def hexChar (n : UInt8) : Char := Char.ofNat (if n < 10 then 0x30+n.toNat else 0x37+n.toNat)

def escape (b : UInt8) : Text := ['%',hexChar (b/16),hexChar (b%16)]

/-- The path percent-encode set. -/
def inPathSet (c : Char) : Bool :=
  c.toNat≤0x1F∨0x7E<c.toNat∨c.toNat∈[0x20,0x22,0x23,0x3C,0x3E,0x3F,0x5E,0x60,0x7B,0x7D]

def writeChar (c : Char) : Text :=
  if inPathSet c then (String.utf8EncodeChar c).flatMap escape else [c]

def writePath (s : Text) : Text := s.flatMap writeChar

def isSlash (c : Char) : Bool := c.toNat=0x2F∨c.toNat=0x5C

/-- What ends a path. -/
def endsPath (c : Char) : Bool := c.toNat=0x3F∨c.toNat=0x23

def singleDot : List Text := [".","%2e","%2E"].map String.toList

def doubleDot : List Text :=
  ["..",".%2e",".%2E","%2e.","%2E.","%2e%2e","%2e%2E","%2E%2e","%2E%2E"].map String.toList

/-- A segment is finished, before a slash or at the end. The last one comes first. -/
def closeSegment (path : List Text) (buf : Text) (slash : Bool) : List Text :=
  if doubleDot.contains buf then (if slash then path.tail else []::path.tail)
  else if singleDot.contains buf then (if slash then path else []::path)
  else buf::path

theorem closeSegment_eq (path : List Text) (buf : Text) (slash : Bool) :
    closeSegment path buf slash=
      if buf∈doubleDot then (if slash then path.tail else []::path.tail)
      else if buf∈singleDot then (if slash then path else []::path)
      else buf::path := by
  simp [closeSegment]

/-- The path state, for a special scheme. -/
def pathState : List Text → Text → Text → List Text
  | path,buf,[] => closeSegment path buf false
  | path,buf,c::s =>
    if isSlash c then pathState (closeSegment path buf true) [] s
    else if endsPath c then closeSegment path buf false
    else pathState path (buf++writeChar c) s

/-- Spaces and control characters around the reference go, and every tab and line break. -/
def stripped (s : Text) : Text :=
  ((s.dropWhile (·.toNat≤0x20)).reverse.dropWhile (·.toNat≤0x20)).reverse.filter
    fun c => c.toNat≠0x09∧c.toNat≠0x0A∧c.toNat≠0x0D

/-- `location.pathname` after a reference that begins with one slash, on an origin whose scheme
is special; none for a reference of another form. -/
def browserPathname (url : Text) : Option Text :=
  match stripped url with
  | '/'::s => if s.head?.any isSlash then none
    else some ((pathState [] [] s).reverse.flatMap ('/'::·))
  | _ => none

variable {s t u e buf : Text} {p : List Text} {c : Char} {b : UInt8} {bs : List UInt8}

theorem hexDigit_hexChar : ∀ n < 16, hexDigit (hexChar (UInt8.ofNat n))=some (UInt8.ofNat n) := by
  decide

theorem escape_halves (b : UInt8) : b/16*16+b%16=b∧b/16=UInt8.ofNat (b.toNat/16)∧
    b%16=UInt8.ofNat (b.toNat%16) := by
  revert b
  exact byte_all (by decide +kernel)

theorem escapes_flatMap (bs : List UInt8) : Escapes bs (bs.flatMap escape) := by
  induction bs with
  | nil => exact .nil
  | cons b bs ih =>
    obtain ⟨hsum,hhigh,hlow⟩ := escape_halves b
    have hbound := b.toNat_lt_size
    have hx : hexDigit (hexChar (b/16))=some (b/16) := by
      rw [hhigh]
      exact hexDigit_hexChar _ (by have : UInt8.size=256 := rfl; omega)
    have hy : hexDigit (hexChar (b%16))=some (b%16) := by
      rw [hlow]
      exact hexDigit_hexChar _ (by omega)
    have hcons := Escapes.cons hx hy ih
    rwa [hsum] at hcons

/-- What is written for a character spells it, percent signs apart. -/
theorem writeChar_spells (hc : c ≠ '%') : Spells c (writeChar c) := by
  unfold writeChar
  split
  · exact .escaped (escapes_flatMap _)
  · exact .plain hc

theorem writePath_spelled (h : ∀ c∈s, c ≠ '%') : Spelled s (writePath s) := by
  induction s with
  | nil => exact .nil
  | cons c s ih =>
    exact .cons (writeChar_spells (h c List.mem_cons_self))
      (ih fun d hd => h d (List.mem_cons_of_mem _ hd))

/-- Escapes that are written and percent signs that stood there, in octets. -/
theorem writePath_size (s : Text) :
    size (writePath s)+2*s.count '%'=size s+2*(writePath s).count '%' := by
  induction s with
  | nil => rfl
  | cons c s ih =>
    have hsplit : writePath (c::s)=writeChar c++writePath s := List.flatMap_cons
    rw [hsplit,size_append,size_cons,List.count_append]
    by_cases hc : c = '%'
    · subst hc
      have hwrite : writeChar '%'=['%'] := by decide
      have hsize : size ['%']=1 := by decide
      have hone : Char.utf8Size '%'=1 := by decide
      rw [hwrite,hsize,hone,List.count_cons_self,List.count_cons_self,List.count_nil]
      omega
    · have hfirst := (writeChar_spells hc).size
      rw [List.count_cons_of_ne hc]
      omega

/-- A written text spells another one only where that is smaller, or the text itself. -/
theorem writePath_smaller (h : Spelled t (writePath s)) : size t+2*s.count '%'=size s := by
  have hwrite := writePath_size s
  have hread := h.size
  omega

theorem size_sublist (h : s.Sublist t) : size s ≤ size t∧(size s=size t → s=t) := by
  induction h with
  | slnil => exact ⟨Nat.le_refl _,fun _ => rfl⟩
  | cons c _ ih =>
    have hpos := c.utf8Size_pos
    rw [size_cons]
    exact ⟨by omega,fun heq => by omega⟩
  | cons_cons c _ ih =>
    rw [size_cons,size_cons]
    refine ⟨by omega,fun heq => ?_⟩
    rw [ih.2 (by omega)]

/-- A segment of the text `t`, as it is written. -/
def Piece (t e : Text) : Prop :=
  e=[]∨∃ u, e=writePath u∧u.Sublist t∧(∀ c∈u, isSlash c=false∧endsPath c=false)∧
    e∉singleDot∧e∉doubleDot

theorem Piece.mono (h : Piece s e) (hs : s.Sublist t) : Piece t e := by
  cases h with
  | inl h => exact .inl h
  | inr h =>
    obtain ⟨u,he,hu,hplain⟩ := h
    exact .inr ⟨u,he,hu.trans hs,hplain⟩

/-- A closed segment is a piece of what was read for it, or it takes one back. -/
theorem closeSegment_pieces (hb : ∀ c∈u, isSlash c=false∧endsPath c=false) (slash : Bool) :
    ∃ news k, closeSegment p (writePath u) slash=news++p.drop k∧∀ e∈news, Piece u e := by
  rw [closeSegment_eq]
  split
  · split
    · exact ⟨[],1,by simp,by simp⟩
    · exact ⟨[[]],1,by simp,by simp [Piece]⟩
  · rename_i hdouble
    split
    · split
      · exact ⟨[],0,by simp,by simp⟩
      · exact ⟨[[]],0,by simp,by simp [Piece]⟩
    · rename_i hsingle
      refine ⟨[writePath u],0,by simp,?_⟩
      intro e he
      rw [List.mem_singleton.mp he]
      exact .inr ⟨u,rfl,List.Sublist.refl u,hb,hsingle,hdouble⟩

/-- Whatever is read, the path ends in pieces of it, after a part of the path before. -/
theorem pathState_pieces (hb : ∀ c∈u, isSlash c=false∧endsPath c=false) :
    ∃ news k, pathState p (writePath u) s=news++p.drop k∧∀ e∈news, Piece (u++s) e := by
  induction s generalizing p u with
  | nil =>
    rw [pathState,List.append_nil]
    exact closeSegment_pieces hb false
  | cons c s ih =>
    rw [pathState]
    obtain ⟨closed,k,hclosed,hpieces⟩ := closeSegment_pieces (p := p) hb true
    split
    · obtain ⟨news,j,hnews,hmore⟩ := ih (p := closeSegment p (writePath u) true)
        (u := []) (by simp)
      have hstart : writePath []=[] := rfl
      rw [hstart] at hnews
      have hsub : s.Sublist (u++c::s) :=
        (List.sublist_cons_self c s).trans (List.sublist_append_right u (c::s))
      refine ⟨news++closed.drop j,k+(j-closed.length),?_,?_⟩
      · rw [hnews,hclosed,List.drop_append,List.drop_drop,List.append_assoc]
      · intro e he
        cases List.mem_append.mp he with
        | inl he => exact (hmore e he).mono hsub
        | inr he =>
          exact (hpieces e (List.mem_of_mem_drop he)).mono (List.sublist_append_left u (c::s))
    · rename_i hslash
      split
      · obtain ⟨news,j,hnews,hmore⟩ := closeSegment_pieces (p := p) hb false
        exact ⟨news,j,hnews,fun e he => (hmore e he).mono (List.sublist_append_left u (c::s))⟩
      · rename_i hends
        have hnext : writePath u++writeChar c=writePath (u++[c]) := by simp [writePath]
        have hu : ∀ d∈u++[c], isSlash d=false∧endsPath d=false := by
          intro d hd
          cases List.mem_append.mp hd with
          | inl hd => exact hb d hd
          | inr hd =>
            rw [List.mem_singleton.mp hd]
            exact ⟨Bool.not_eq_true _ ▸ hslash,Bool.not_eq_true _ ▸ hends⟩
        obtain ⟨news,j,hnews,hmore⟩ := ih (p := p) hu
        rw [hnext]
        refine ⟨news,j,hnews,fun e he => ?_⟩
        have hsame : u++[c]++s=u++c::s := by simp
        exact hsame ▸ hmore e he

/-- A text without separators becomes one segment. -/
theorem pathState_plain (h : ∀ c∈s, isSlash c=false∧endsPath c=false) :
    pathState p buf s=closeSegment p (buf++writePath s) false := by
  induction s generalizing buf with
  | nil => rw [pathState,writePath,List.flatMap_nil,List.append_nil]
  | cons c s ih =>
    obtain ⟨hslash,hends⟩ := h c List.mem_cons_self
    have hsplit : writePath (c::s)=writeChar c++writePath s := List.flatMap_cons
    rw [pathState,if_neg (by simp [hslash]),if_neg (by simp [hends]),
      ih fun d hd => h d (List.mem_cons_of_mem _ hd),hsplit,List.append_assoc]

/-- Whole segments and a slash after each. -/
theorem pathState_segments {lits : List Text}
    (h : ∀ l∈lits, (∀ c∈l, isSlash c=false∧endsPath c=false)∧writePath l=l∧
      l∉singleDot∧l∉doubleDot) :
    pathState p [] (lits.flatMap (·++['/'])++s)=pathState (lits.reverse++p) [] s := by
  induction lits generalizing p with
  | nil => rfl
  | cons l lits ih =>
    obtain ⟨hplain,hwrite,hsingle,hdouble⟩ := h l List.mem_cons_self
    have hread (more buf : Text) (t : Text) (ht : ∀ c∈t, isSlash c=false∧endsPath c=false) :
        pathState p buf (t++ '/'::more)=
          pathState (closeSegment p (buf++writePath t) true) [] more := by
      induction t generalizing buf with
      | nil =>
        have hslash : isSlash '/'=true := by decide
        rw [List.nil_append,pathState,if_pos hslash,writePath,List.flatMap_nil,List.append_nil]
      | cons c t ih =>
        obtain ⟨hslash,hends⟩ := ht c List.mem_cons_self
        have hsplit : writePath (c::t)=writeChar c++writePath t := List.flatMap_cons
        rw [List.cons_append,pathState,if_neg (by simp [hslash]),if_neg (by simp [hends]),
          ih _ fun d hd => ht d (List.mem_cons_of_mem _ hd),hsplit,List.append_assoc]
    have hfirst : (l::lits).flatMap (·++['/'])++s=l++ '/'::(lits.flatMap (·++['/'])++s) := by simp
    rw [hfirst,hread _ _ l hplain,List.nil_append,hwrite,closeSegment_eq,if_neg hdouble,if_neg hsingle,
      ih fun l hl => h l (List.mem_cons_of_mem _ hl)]
    simp

/-- What is left of a text at the end of a reference. -/
def cut (t : Text) : Text :=
  (t.reverse.dropWhile (·.toNat≤0x20)).reverse.filter fun c => c.toNat≠0x09∧c.toNat≠0x0A∧c.toNat≠0x0D

theorem cut_sublist (t : Text) : (cut t).Sublist t := by
  have hback : (t.reverse.dropWhile (·.toNat≤0x20)).reverse.Sublist t := by
    have := (List.dropWhile_sublist (l := t.reverse) (·.toNat≤0x20)).reverse
    rwa [List.reverse_reverse] at this
  exact List.filter_sublist.trans hback

theorem stripped_append {pre : Text} (hpre : pre≠[]) (h : ∀ c∈pre, 0x20<c.toNat) :
    stripped (pre++t)=pre++cut t := by
  obtain ⟨c,more,rfl⟩ := List.exists_cons_of_ne_nil hpre
  have hfront : ((c::more)++t).dropWhile (·.toNat≤0x20)=(c::more)++t := by
    have hc := h c List.mem_cons_self
    rw [List.cons_append,List.dropWhile_cons_of_neg (by simpa using hc)]
  have hback : ((c::more)++t).reverse.dropWhile (·.toNat≤0x20)=
      t.reverse.dropWhile (·.toNat≤0x20)++(c::more).reverse := by
    rw [List.reverse_append,List.dropWhile_append]
    split
    · rename_i hnil
      rw [List.isEmpty_iff.mp hnil,List.nil_append]
      have hlast : (c::more).reverse≠[] := by simp
      obtain ⟨d,rest,hd⟩ := List.exists_cons_of_ne_nil hlast
      have hmem : d∈c::more := by
        rw [← List.mem_reverse,hd]
        exact List.mem_cons_self
      rw [hd,List.dropWhile_cons_of_neg (by simpa using h d hmem)]
    · rfl
  have hkept : (c::more).filter (fun c => c.toNat≠0x09∧c.toNat≠0x0A∧c.toNat≠0x0D)=c::more := by
    rw [List.filter_eq_self]
    intro d hd
    have := h d hd
    simp only [decide_eq_true_eq]
    omega
  rw [stripped,hfront,hback,List.reverse_append,List.reverse_reverse,List.filter_append,hkept]
  rfl

theorem cut_eq_iff : cut t=t↔(∀ c∈t, c.toNat≠0x09∧c.toNat≠0x0A∧c.toNat≠0x0D)∧
    ∀ c∈t.getLast?, 0x20<c.toNat := by
  constructor
  · intro h
    have hkept : ∀ c∈cut t, c.toNat≠0x09∧c.toNat≠0x0A∧c.toNat≠0x0D := by
      intro c hc
      simpa using (List.mem_filter.mp hc).2
    refine ⟨h ▸ hkept,?_⟩
    intro c hc
    have hlen : t.length≤(t.reverse.dropWhile (·.toNat≤0x20)).length := by
      have := congrArg List.length h
      have hle := List.length_filter_le
        (fun c : Char => decide (c.toNat≠0x09∧c.toNat≠0x0A∧c.toNat≠0x0D))
        (t.reverse.dropWhile (·.toNat≤0x20)).reverse
      rw [List.length_reverse] at hle
      rw [cut] at this
      omega
    have hfirst : t.reverse.head?=some c := by
      rw [List.head?_reverse]
      exact hc
    obtain ⟨rest,hrest⟩ := List.head?_eq_some_iff.mp hfirst
    by_contra hlow
    have hdrop : t.reverse.dropWhile (·.toNat≤0x20)=rest.dropWhile (·.toNat≤0x20) := by
      rw [hrest,List.dropWhile_cons_of_pos (by simpa using hlow)]
    have hshort := (List.dropWhile_sublist (l := rest) (·.toNat≤0x20)).length_le
    have hcount := congrArg List.length hrest
    rw [hdrop] at hlen
    rw [List.length_reverse,List.length_cons] at hcount
    omega
  · intro h
    obtain ⟨hplain,hlast⟩ := h
    have hdrop : t.reverse.dropWhile (·.toNat≤0x20)=t.reverse := by
      cases hr : t.reverse with
      | nil => rfl
      | cons c rest =>
        have hc : c∈t.getLast? := by
          rw [← List.head?_reverse,hr]
          rfl
        rw [List.dropWhile_cons_of_neg (by simpa using hlast c hc)]
    rw [cut,hdrop,List.reverse_reverse,List.filter_eq_self]
    intro c hc
    simpa using hplain c hc

/-- A text that comes back from the end of a reference as it was joined into it. -/
structure Joinable (t : Text) : Prop where
  plain : ∀ c∈t, c.toNat∉[0x2F,0x5C,0x3F,0x23,0x25,0x09,0x0A,0x0D]
  last : ∀ c∈t.getLast?, 0x20<c.toNat
  dots : t≠['.']∧t≠['.','.']

theorem dots_spelled : (∀ d∈singleDot, decodeURIComponent d=some ['.'])∧
    ∀ d∈doubleDot, decodeURIComponent d=some ['.','.'] := by decide

theorem percent_iff : c = '%'↔c.toNat=0x25 := by
  constructor
  · rintro rfl
    rfl
  · intro h
    exact Char.toNat_inj.mp h

theorem Joinable.no_percent (h : Joinable t) : ∀ c∈t, c ≠ '%' := by
  intro c hc heq
  have := h.plain c hc
  rw [percent_iff.mp heq] at this
  exact this (by decide)

theorem Joinable.no_separator (h : Joinable t) : ∀ c∈t, isSlash c=false∧endsPath c=false := by
  intro c hc
  have := h.plain c hc
  simp only [List.mem_cons,List.not_mem_nil,or_false,not_or] at this
  simp [isSlash,endsPath,this]

/-- The last segment of a reference that a text was joined into spells that text only if it is
joinable: what is dropped or read in another way leaves too few octets for it. -/
theorem joinable_of_last {lits more : List Text} {x : Text} (ht : t≠[])
    (hx : (pathState lits [] (cut t)).filter (·≠[])=x::more) (hlen : lits.length ≤ more.length)
    (hread : Spelled t x) : Joinable t := by
  obtain ⟨news,k,hnews,hpieces⟩ := pathState_pieces (p := lits) (s := cut t) (u := []) (by simp)
  have hstart : writePath []=[] := rfl
  rw [hstart] at hnews
  rw [hnews,List.filter_append] at hx
  -- the segments before the text are too few, so the last one is a piece of it
  have hmem : x∈news∧x≠[] := by
    have hfew : ((lits.drop k).filter (·≠[])).length≤lits.length := by
      have hsub : ((lits.drop k).filter (·≠[])).Sublist (lits.drop k) := List.filter_sublist
      have hle := hsub.length_le
      rw [List.length_drop] at hle
      omega
    cases hn : news.filter (·≠[]) with
    | nil =>
      rw [hn,List.nil_append] at hx
      rw [hx,List.length_cons] at hfew
      omega
    | cons y rest =>
      rw [hn,List.cons_append] at hx
      have hy : y∈news.filter (·≠[]) := by
        rw [hn]
        exact List.mem_cons_self
      rw [← (List.cons.inj hx).1]
      simpa using hy
  cases hpieces x hmem.1 with
  | inl hnil => exact absurd hnil hmem.2
  | inr hpiece =>
    obtain ⟨u,rfl,hu,hplain,hsingle,hdouble⟩ := hpiece
    have hucut : u.Sublist (cut t) := hu
    have hsize := writePath_smaller hread
    have hcut := size_sublist (cut_sublist t)
    have hsub := size_sublist hucut
    have hcount : u.count '%'=0 := by omega
    have hucut : u=cut t := hsub.2 (by omega)
    have hsame : cut t=t := hcut.2 (by omega)
    have hut : u=t := hucut.trans hsame
    subst hut
    obtain ⟨hkept,hlast⟩ := cut_eq_iff.mp hsame
    refine ⟨?_,hlast,?_,?_⟩
    · intro c hc
      have hslash := hplain c hc
      have hpercent : c.toNat≠0x25 := fun h =>
        List.count_eq_zero.mp hcount (percent_iff.mpr h ▸ hc)
      have hblank := hkept c hc
      simp only [isSlash,endsPath,decide_eq_false_iff_not,not_or] at hslash
      simp only [List.mem_cons,List.not_mem_nil,or_false,not_or]
      exact ⟨hslash.1.1,hslash.1.2,hslash.2.1,hslash.2.2,hpercent,hblank.1,hblank.2.1,hblank.2.2⟩
    · rintro rfl
      exact hsingle (by decide)
    · rintro rfl
      exact hdouble (by decide)

/-- A joinable text is the last segment, escaped. -/
theorem Joinable.last_segment (h : Joinable t) (lits : List Text) :
    pathState lits [] (cut t)=writePath t::lits∧Spelled t (writePath t) := by
  have hspelled := writePath_spelled h.no_percent
  have hcut : cut t=t := by
    refine cut_eq_iff.mpr ⟨fun c hc => ?_,h.last⟩
    have := h.plain c hc
    simp only [List.mem_cons,List.not_mem_nil,or_false,not_or] at this
    exact ⟨this.2.2.2.2.2.1,this.2.2.2.2.2.2.1,this.2.2.2.2.2.2.2⟩
  refine ⟨?_,hspelled⟩
  have hsingle : writePath t∉singleDot := by
    intro hdot
    exact h.dots.1 (hspelled.unique (decode_iff.mp (dots_spelled.1 _ hdot)))
  have hdouble : writePath t∉doubleDot := by
    intro hdot
    exact h.dots.2 (hspelled.unique (decode_iff.mp (dots_spelled.2 _ hdot)))
  rw [hcut,pathState_plain h.no_separator,List.nil_append,closeSegment_eq,if_neg hdouble,
    if_neg hsingle]

/-- No separator is left in what is written. -/
theorem writePath_separators (h : ∀ c∈u, isSlash c=false∧endsPath c=false) :
    ∀ d∈writePath u, isSlash d=false∧endsPath d=false := by
  have hhex : ∀ n < 16, isSlash (hexChar (UInt8.ofNat n))=false∧
      endsPath (hexChar (UInt8.ofNat n))=false := by decide
  intro d hd
  obtain ⟨c,hc,hd⟩ := List.mem_flatMap.mp hd
  unfold writeChar at hd
  split at hd
  · obtain ⟨b,-,hd⟩ := List.mem_flatMap.mp hd
    obtain ⟨-,hhigh,hlow⟩ := escape_halves b
    have hbound : b.toNat < 256 := b.toNat_lt_size
    simp only [escape,List.mem_cons,List.not_mem_nil,or_false] at hd
    rcases hd with rfl | rfl | rfl
    · exact ⟨by decide,by decide⟩
    · rw [hhigh]
      exact hhex _ (by omega)
    · rw [hlow]
      exact hhex _ (by omega)
  · rw [List.mem_singleton.mp hd]
    exact h c hc

/-- No segment of a path has a separator. -/
theorem pathState_separators (hp : ∀ e∈p, ∀ d∈e, isSlash d=false∧endsPath d=false) :
    ∀ e∈pathState p [] s, ∀ d∈e, isSlash d=false∧endsPath d=false := by
  obtain ⟨news,k,hnews,hpieces⟩ := pathState_pieces (p := p) (s := s) (u := []) (by simp)
  have hstart : writePath []=[] := rfl
  rw [hstart] at hnews
  rw [hnews]
  intro e he
  cases List.mem_append.mp he with
  | inl he =>
    cases hpieces e he with
    | inl hnil => simp [hnil]
    | inr hpiece =>
      obtain ⟨u,rfl,-,hplain,-⟩ := hpiece
      exact writePath_separators hplain
  | inr he => exact hp e (List.mem_of_mem_drop he)

/-- A segment that stands in a reference as it is written in a path. -/
structure Literal (l : Text) : Prop where
  nonempty : l≠[]
  chars : ∀ c∈l, inPathSet c=false∧isSlash c=false∧endsPath c=false∧c ≠ '.' ∧c ≠ '%'

theorem Literal.written {l : Text} (h : Literal l) : writePath l=l := by
  have hall : ∀ s : Text, (∀ c∈s, inPathSet c=false) → writePath s=s := by
    intro s hs
    induction s with
    | nil => rfl
    | cons c s ih =>
      have hsplit : writePath (c::s)=writeChar c++writePath s := List.flatMap_cons
      have hc : writeChar c=[c] := by simp [writeChar,hs c List.mem_cons_self]
      rw [hsplit,hc,ih fun d hd => hs d (List.mem_cons_of_mem _ hd)]
      rfl
  exact hall l fun c hc => (h.chars c hc).1

theorem Literal.no_dots {l : Text} (h : Literal l) : l∉singleDot∧l∉doubleDot := by
  have hdots : ∀ d∈singleDot++doubleDot, d.any fun c => c = '.' ∨ c = '%' := by decide
  have hnot : l∉singleDot++doubleDot := by
    intro hl
    obtain ⟨c,hc,hdot⟩ := List.any_eq_true.mp (hdots l hl)
    obtain ⟨-,-,-,hne,hpercent⟩ := h.chars c hc
    rcases of_decide_eq_true hdot with hdot | hdot
    · exact hne hdot
    · exact hpercent hdot
  exact ⟨fun hl => hnot (List.mem_append_left _ hl),fun hl => hnot (List.mem_append_right _ hl)⟩

theorem high_of_literal (h : inPathSet c=false) : 0x20<c.toNat := by
  simp only [inPathSet,decide_eq_false_iff_not,List.mem_cons,List.not_mem_nil,or_false,not_or] at h
  omega

/-- The path of literal segments with a text joined behind them. -/
theorem browserPathname_joined {lits : List Text} (hne : lits≠[]) (h : ∀ l∈lits, Literal l) :
    browserPathname ('/'::lits.flatMap (·++['/'])++t)=
      some ((pathState lits.reverse [] (cut t)).reverse.flatMap ('/'::·)) := by
  have hhigh : ∀ c∈ '/'::lits.flatMap (·++['/']), 0x20<c.toNat := by
    intro c hc
    have hslash : 0x20< '/'.toNat := by decide
    cases List.mem_cons.mp hc with
    | inl hc => exact hc ▸ hslash
    | inr hc =>
      obtain ⟨l,hl,hc⟩ := List.mem_flatMap.mp hc
      cases List.mem_append.mp hc with
      | inl hc => exact high_of_literal ((h l hl).chars c hc).1
      | inr hc => exact (List.mem_singleton.mp hc) ▸ hslash
  obtain ⟨l,more,rfl⟩ := List.exists_cons_of_ne_nil hne
  obtain ⟨c,rest,hl⟩ := List.exists_cons_of_ne_nil (h l List.mem_cons_self).nonempty
  have hfirst : ((l::more).flatMap (·++['/'])++cut t).head?=some c := by simp [hl]
  have hc : isSlash c=false := ((h l List.mem_cons_self).chars c (by simp [hl])).2.1
  rw [browserPathname,stripped_append (List.cons_ne_nil _ _) hhigh,List.cons_append]
  change (if ((l::more).flatMap (·++['/'])++cut t).head?.any isSlash then none
    else some ((pathState [] [] ((l::more).flatMap (·++['/'])++cut t)).reverse.flatMap ('/'::·)))=_
  have hlocal : ((l::more).flatMap (·++['/'])++cut t).head?.any isSlash=false := by
    rw [hfirst]
    exact hc
  rw [if_neg (by rw [hlocal]; exact Bool.false_ne_true),pathState_segments,List.append_nil]
  intro l hl
  have hlit := h l hl
  exact ⟨fun c hc => ⟨(hlit.chars c hc).2.1,(hlit.chars c hc).2.2.1⟩,hlit.written,hlit.no_dots.1,
    hlit.no_dots.2⟩

end Kitp.UrlPaths
