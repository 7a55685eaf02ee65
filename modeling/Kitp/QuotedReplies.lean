import Kitp.Lib.Bounded
import Kitp.Lib.LinePatterns
import Kitp.TextNorm
import Mathlib.Algebra.Ring.Nat

/-! The quoted tail of a received reply, cut by the server and by the web client. -/
namespace Kitp.QuotedReplies
open Kitp.LinePatterns Kitp.Trimming
open Kitp.TextNorm (isSpace)

abbrev Text := List Char

inductive Class where
  | space
  | nonspace
  | dot
  | folded (c : Nat)
  | exact (c : Nat)

/-- What the two languages read differently. -/
structure Dialect where
  units : Char → List Nat
  size : Char → Nat
  space : Nat → Bool
  dot : Nat → Bool
  fold : Nat → Nat
  trims : Char → Bool
  indent : Char → Bool

def Dialect.has (d : Dialect) : Class → Nat → Bool
  | .space,n => d.space n
  | .nonspace,n => !d.space n
  | .dot,n => d.dot n
  | .folded c,n => d.fold n=c
  | .exact c,n => n=c

def isWord (n : Nat) : Bool :=
  (0x30≤n∧n≤0x39)∨(0x41≤n∧n≤0x5A)∨(0x61≤n∧n≤0x7A)∨n=0x5F

def asciiFold (n : Nat) : Nat := if 0x41≤n∧n≤0x5A then n+0x20 else n

/-- Go: RE2 over runes, with Unicode's simple folding. -/
def server : Dialect where
  units c := [c.toNat]
  size c := c.utf8Size
  space n := n∈[0x09,0x0A,0x0C,0x0D,0x20]
  dot n := n≠0x0A
  fold n := if n=0x17F then 0x73 else if n=0x212A then 0x6B else asciiFold n
  trims := isSpace
  indent c := c.toNat=0x20∨c.toNat=0x09

def utf16 (c : Char) : List Nat :=
  if c.toNat < 0x10000 then [c.toNat]
  else [0xD800+(c.toNat-0x10000)/0x400,0xDC00+(c.toNat-0x10000)%0x400]

def webSpace (n : Nat) : Bool :=
  (0x09≤n∧n≤0x0D)∨n∈[0x20,0xA0,0x1680,0x2028,0x2029,0x202F,0x205F,0x3000,0xFEFF]∨
    (0x2000≤n∧n≤0x200A)

/-- The browser: patterns without the u flag, over UTF-16 units. -/
def web : Dialect where
  units := utf16
  size c := (utf16 c).length
  space := webSpace
  dot n := n∉[0x0A,0x0D,0x2028,0x2029]
  fold := asciiFold
  trims c := webSpace c.toNat
  indent c := webSpace c.toNat

def spell (k : Nat → Class) (w : String) (last : Pattern Class) : Pattern Class :=
  w.toList.foldr (fun c p => .seq (.one (k c.toNat)) p) last

def spaces (last : Pattern Class) : Pattern Class := .seq (.run 0 none .space) last

def star (last : Pattern Class) : Pattern Class := .seq (.run 0 (some 1) (.exact 0x2A)) last

def dashes (last : Pattern Class) : Pattern Class := .seq (.run 2 none (.exact 0x2D)) last

def quoteOnWrote : Pattern Class :=
  spaces (spell .folded "on" (.seq (.one .space) (.seq (.run 0 (some 300) .dot)
    (.seq .border (spell .folded "wrote:" (spaces .finish))))))

def quoteOnStart : Pattern Class :=
  spaces (spell .folded "on" (.seq (.one .space) (.seq (.run 4 none .dot) .finish)))

def quoteWroteEnd : Pattern Class :=
  .seq (.run 0 (some 200) .dot) (.seq .border (spell .folded "wrote:" (spaces .finish)))

def quoteOriginal : Pattern Class :=
  spaces (dashes (spaces (spell .folded "original message" (spaces (dashes (spaces .finish))))))

def quoteFromLine : Pattern Class :=
  spaces (star (spell .folded "from:" (star (.seq (.run 1 none .space) (.one .nonspace)))))

def quoteSentLine : Pattern Class :=
  let last := spell .folded ":" (star (.seq (.run 1 none .space) (.one .nonspace)))
  spaces (star (.alt (spell .folded "sent" last) (spell .folded "date" last)))

def quoteUnderline : Pattern Class :=
  spaces (.seq (.run 8 none (.exact 0x5F)) (spaces .finish))

def quoteTrailer : Pattern Class :=
  let last := spell .exact ":" (spaces (.seq (.run 1 none .nonspace) (spaces .finish)))
  .alt (spell .exact "Ref" last) (spell .exact "Task" last)

variable (d : Dialect)

def Dialect.tests (p : Pattern Class) (ln : Text) : Bool :=
  found d.has isWord p (ln.flatMap d.units)

def isQuoteLine (ln : Text) : Bool := (ln.dropWhile d.indent).head?=some '>'

def blank (t : Text) : Bool := t.all d.trims

/-- Every test made on a line. -/
structure Marks where
  onWrote : Bool
  onStart : Bool
  wroteEnd : Bool
  original : Bool
  fromLine : Bool
  sentLine : Bool
  underline : Bool
  trailer : Bool
  quote : Bool
  blank : Bool
  deriving DecidableEq

def judge (ln : Text) : Marks where
  onWrote := d.tests quoteOnWrote ln
  onStart := d.tests quoteOnStart ln
  wroteEnd := d.tests quoteWroteEnd ln
  original := d.tests quoteOriginal ln
  fromLine := d.tests quoteFromLine ln
  sentLine := d.tests quoteSentLine ln
  underline := d.tests quoteUnderline ln
  trailer := d.tests quoteTrailer ln
  quote := isQuoteLine d ln
  blank := blank d ln

/-- The suffix properties of the backward pass. -/
def quotedFrom : List Marks → Bool
  | [] => true
  | m::ms => quotedFrom ms&&(m.blank||m.trailer||m.quote)

def trailerFrom : List Marks → Bool
  | [] => true
  | m::ms => trailerFrom ms&&(m.blank||m.trailer)

def outlookHeader (next : List Marks) : Bool := (next.take 4).any (·.sentLine)

/-- The forward scan from line i, with the line before it. -/
def scan (prev : Option Marks) (i : Nat) : List Marks → Option Nat
  | [] => none
  | m::next =>
    if m.onWrote then some i
    else if m.onStart∧next.head?.any (fun n => n.wroteEnd&&!n.onStart) then some i
    else if m.original then some i
    else if m.fromLine∧outlookHeader next then
      some (if prev.any (·.underline) then i-1 else i)
    else if m.quote∧quotedFrom (m::next) then some i
    else if m.trailer∧trailerFrom (m::next) then some i
    else scan (some m) (i+1) next

def quoteCut (lines : List Text) : Option Nat := scan none 0 (lines.map (judge d))

def newline : Char := Char.ofNat 0x0A

/-- Every CR LF as one LF. -/
def unix : Text → Text
  | [] => []
  | c::s => if c.toNat=0x0D∧s.head?.any (·=newline) then unix s else c::unix s

def linesOf (body : Text) : List Text := (unix body).splitOn newline

def joined (lines : List Text) : Text := [newline].intercalate lines

def maxSplit : Nat := 512*1024

def size (body : Text) : Nat := (body.map d.size).sum

def split (body : Text) : Text×Text :=
  if maxSplit < size d body then (body,[])
  else
    match quoteCut d (linesOf body) with
    | none => (body,[])
    | some cut =>
      let own := trimRight (fun c => c.toNat∈[0x20,0x09,0x0A]) (joined ((linesOf body).take cut))
      if blank d own then (body,[])
      else (own,trim (·=newline) (joined ((linesOf body).drop cut)))

/-- The server's `SplitQuoted`. -/
def serverSplitQuoted (body : Text) : Text×Text := split server body

/-- The web client's `splitQuoted`. -/
def webSplitQuoted (body : Text) : Text×Text := split web body

/-- Characters on which nothing differs. -/
def plain (c : Char) : Bool :=
  c.toNat < 0x10000∧c.toNat∉[0x0A,0x0B,0x0C,0x0D,0x85,0xA0,0x17F,0x1680,0x2028,0x2029,0x202F,0x205F,
    0x212A,0x3000,0xFEFF]∧¬(0x2000 ≤ c.toNat∧c.toNat≤0x200A)

variable {d : Dialect} {body ln own quoted : Text} {c : Char}

theorem plain_iff : plain c↔c.toNat < 0x10000∧c.toNat∉[0x0A,0x0B,0x0C,0x0D,0x85,0xA0,0x17F,0x1680,
    0x2028,0x2029,0x202F,0x205F,0x212A,0x3000,0xFEFF]∧¬(0x2000 ≤ c.toNat∧c.toNat≤0x200A) := by
  rw [plain,decide_eq_true_eq]

/-- A plain space is a blank or a tab, whoever asks. -/
theorem spaces_plain (h : plain c) : webSpace c.toNat=server.indent c∧
    server.space c.toNat=server.indent c∧isSpace c=server.indent c := by
  obtain ⟨-,hlist,hrange⟩ := plain_iff.mp h
  simp only [List.mem_cons,List.not_mem_nil,or_false,not_or] at hlist
  have hten : (0x09 ≤ c.toNat∧c.toNat≤0x0D)↔c.toNat=0x09 := by omega
  simp only [webSpace,server,isSpace,hlist,hrange,hten,List.mem_cons,List.not_mem_nil,or_false,
    false_or,decide_eq_decide]
  exact ⟨or_comm,or_comm,or_comm⟩

theorem has_plain (h : plain c) (k : Class) : server.has k c.toNat=web.has k c.toNat := by
  obtain ⟨-,hlist,hrange⟩ := plain_iff.mp h
  simp only [List.mem_cons,List.not_mem_nil,or_false,not_or] at hlist
  have hspace : server.space c.toNat=web.space c.toNat :=
    (spaces_plain h).2.1.trans (spaces_plain h).1.symm
  have hdot : server.dot c.toNat=web.dot c.toNat := by
    simp [server,web,hlist]
  have hfold : server.fold c.toNat=web.fold c.toNat := by
    simp [server,web,hlist]
  cases k with
  | space => exact hspace
  | nonspace => rw [Dialect.has,Dialect.has,hspace]
  | dot => exact hdot
  | folded n => rw [Dialect.has,Dialect.has,hfold]
  | exact n => rfl

theorem units_plain (h : ∀ c∈ln, plain c) : ln.flatMap web.units=ln.map Char.toNat := by
  induction ln with
  | nil => rfl
  | cons c ln ih =>
    have hc : web.units c=[c.toNat] := if_pos (plain_iff.mp (h c List.mem_cons_self)).1
    rw [List.flatMap_cons,hc,ih fun e he => h e (List.mem_cons_of_mem _ he)]
    rfl

theorem tests_plain (h : ∀ c∈ln, plain c) (p : Pattern Class) :
    server.tests p ln=web.tests p ln := by
  have hunits : ln.flatMap server.units=ln.map Char.toNat := List.map_eq_flatMap.symm
  rw [Dialect.tests,Dialect.tests,hunits,units_plain h]
  apply found_congr
  intro k n hn
  obtain ⟨c,hc,rfl⟩ := List.mem_map.mp hn
  exact has_plain (h c hc) k

/-- A line of plain characters is judged alike. -/
theorem judge_plain (h : ∀ c∈ln, plain c) : judge server ln=judge web ln := by
  have htrims : ∀ c∈ln, server.trims c=web.trims c := fun c hc =>
    (spaces_plain (h c hc)).2.2.trans (spaces_plain (h c hc)).1.symm
  have hindent : ∀ c∈ln, server.indent c=web.indent c := fun c hc =>
    (spaces_plain (h c hc)).1.symm
  have hdrop : ln.dropWhile server.indent=ln.dropWhile web.indent := by
    clear h htrims
    induction ln with
    | nil => rfl
    | cons c ln ih =>
      rw [List.dropWhile_cons,List.dropWhile_cons,hindent c List.mem_cons_self,
        ih fun e he => hindent e (List.mem_cons_of_mem _ he)]
  have hquote : isQuoteLine server ln=isQuoteLine web ln := by
    rw [isQuoteLine,isQuoteLine,hdrop]
  have hblank : blank server ln=blank web ln := by
    rw [blank,blank,Bool.eq_iff_iff,List.all_eq_true,List.all_eq_true]
    exact forall₂_congr fun c hc => by rw [htrims c hc]
  simp only [judge,tests_plain h,hquote,hblank]

/-- The texts that both trims call blank. -/
theorem blank_ends (hd : d=server∨d=web) (h : c.toNat∈[0x20,0x09,0x0A]) : d.trims c := by
  simp only [List.mem_cons,List.not_mem_nil,or_false] at h
  cases hd with
  | inl hd =>
    rw [hd]
    show isSpace c=true
    simp only [isSpace,decide_eq_true_eq,List.mem_cons]
    omega
  | inr hd =>
    rw [hd]
    show webSpace c.toNat=true
    simp only [webSpace,decide_eq_true_eq,List.mem_cons]
    omega

theorem blank_joined (hd : d=server∨d=web) (lines : List Text) :
    blank d (joined lines)↔∀ ln∈lines, blank d ln := by
  have hnewline : d.trims newline := blank_ends hd (by decide)
  induction lines with
  | nil => simp [joined,blank]
  | cons ln lines ih =>
    cases lines with
    | nil => simp [joined,List.intercalate_singleton]
    | cons ln' lines =>
      have hsplit : blank d (joined (ln::ln'::lines))=
          (blank d ln&&blank d (joined (ln'::lines))) := by
        simp [blank,joined,List.intercalate_cons_cons,hnewline]
      rw [hsplit,Bool.and_eq_true,List.forall_mem_cons]
      exact and_congr_right fun _ => ih

theorem blank_trimmed (hd : d=server∨d=web) (t : Text) :
    blank d (trimRight (fun c => c.toNat∈[0x20,0x09,0x0A]) t)=blank d t := by
  obtain ⟨v,ht,hv⟩ := trimRight_split (fun c : Char => decide (c.toNat∈[0x20,0x09,0x0A])) t
  have hback : v.all d.trims := by
    rw [List.all_eq_true]
    exact fun c hc => blank_ends hd (of_decide_eq_true (hv c hc))
  have hwhole : blank d t=(blank d (trimRight (fun c => c.toNat∈[0x20,0x09,0x0A]) t)&&v.all d.trims) := by
    rw [blank,blank,← List.all_append,← ht]
  rw [hwhole,hback,Bool.and_true]

theorem size_le (body : Text) : size web body ≤ size server body := by
  have hchar (c : Char) : web.size c ≤ server.size c := by
    have hweb : web.size c=if c.toNat < 0x10000 then 1 else 2 := by
      show (utf16 c).length=_
      unfold utf16
      split <;> rfl
    rw [hweb]
    show _≤ c.utf8Size
    have hpos := Char.utf8Size_pos c
    split
    · omega
    · rename_i hc
      rw [Char.utf8Size]
      split
      · rename_i hle
        have hle : c.toNat≤0x7F := UInt32.le_iff_toNat_le.mp hle
        omega
      · split
        · omega
        · split <;> omega
  induction body with
  | nil => exact Nat.le_refl _
  | cons c body ih =>
    have hc := hchar c
    simp only [size,List.map_cons,List.sum_cons] at ih ⊢
    omega

/-- Where the two judge the lines alike, they cut alike. -/
theorem split_alike (hsize : size server body ≤ maxSplit∨maxSplit < size web body)
    (h : ∀ ln∈linesOf body, judge server ln=judge web ln) :
    serverSplitQuoted body=webSplitQuoted body := by
  have hle := size_le body
  have hcut : quoteCut server (linesOf body)=quoteCut web (linesOf body) := by
    rw [quoteCut,quoteCut,List.map_congr_left h]
  rw [serverSplitQuoted,webSplitQuoted,split,split,hcut]
  by_cases hover : maxSplit < size web body
  · have hover' : maxSplit < size server body := by omega
    rw [if_pos hover,if_pos hover']
  · have hover' : ¬maxSplit < size server body := by omega
    rw [if_neg hover,if_neg hover']
    cases quoteCut web (linesOf body) with
    | none => rfl
    | some cut =>
      have hblank : blank server (joined ((linesOf body).take cut))=
          blank web (joined ((linesOf body).take cut)) := by
        rw [Bool.eq_iff_iff,blank_joined (.inl rfl),blank_joined (.inr rfl)]
        apply forall₂_congr
        intro ln hln
        have hln := congrArg Marks.blank (h ln (List.mem_of_mem_take hln))
        exact Bool.eq_iff_iff.mp hln
      dsimp only
      rw [blank_trimmed (.inl rfl),blank_trimmed (.inr rfl),hblank]

theorem scan_lt {prev : Option Marks} {i n : Nat} {ms : List Marks} (h : scan prev i ms=some n) :
    n < i+ms.length := by
  induction ms generalizing prev i with
  | nil => cases h
  | cons m next ih =>
    rw [scan] at h
    rw [List.length_cons]
    have hhere (hn : some i=some n) : n < i+(next.length+1) := by
      have := Option.some.inj hn
      omega
    split at h
    · exact hhere h
    · split at h
      · exact hhere h
      · split at h
        · exact hhere h
        · split at h
          · have hn := Option.some.inj h
            split at hn <;> omega
          · split at h
            · exact hhere h
            · split at h
              · exact hhere h
              · have := ih h
                omega

theorem joined_append {front back : List Text} (hf : front≠[]) (hb : back≠[]) :
    joined (front++back)=joined front++newline::joined back := by
  induction front with
  | nil => exact absurd rfl hf
  | cons ln front ih =>
    cases front with
    | nil =>
      obtain ⟨ln',back,rfl⟩ := List.exists_cons_of_ne_nil hb
      simp [joined,List.intercalate_cons_cons,List.intercalate_singleton]
    | cons ln' front =>
      have hrest := ih (List.cons_ne_nil _ _)
      simp only [joined,List.cons_append,List.intercalate_cons_cons] at hrest ⊢
      rw [hrest]
      simp

/-- What a cut leaves: own text that is not blank, and everything but blanks and line breaks
between the parts and line breaks at the end. -/
theorem split_keeps (h : split d body=(own,quoted)) (hcut : (own,quoted)≠(body,[])) :
    blank d own=false∧∃ between trailing, unix body=own++between++quoted++trailing∧
      (∀ c∈between, c.toNat∈[0x20,0x09,0x0A])∧∀ c∈trailing, c=newline := by
  rw [split] at h
  split at h
  · exact absurd h.symm hcut
  · split at h
    · exact absurd h.symm hcut
    · rename_i cut hscan
      dsimp only at h
      split at h
      · exact absurd h.symm hcut
      · rename_i hblank
        obtain ⟨rfl,rfl⟩ := Prod.mk.inj h
        refine ⟨by simpa using hblank,?_⟩
        have hlt := scan_lt hscan
        rw [List.length_map] at hlt
        have hback : (linesOf body).drop cut≠[] := by
          intro hnil
          have := List.drop_eq_nil_iff.mp hnil
          omega
        have hfront : (linesOf body).take cut≠[] := by
          intro hnil
          rw [hnil] at hblank
          exact hblank rfl
        have hwhole : unix body=joined ((linesOf body).take cut++(linesOf body).drop cut) := by
          rw [List.take_append_drop]
          exact (List.intercalate_splitOn newline).symm
        obtain ⟨v,hv,hvs⟩ := trimRight_split (fun c : Char => decide (c.toNat∈[0x20,0x09,0x0A]))
          (joined ((linesOf body).take cut))
        obtain ⟨u,w,hu,hus,hws,-⟩ := trim_split (fun c : Char => decide (c=newline))
          (joined ((linesOf body).drop cut))
        refine ⟨v++newline::u,w,?_,?_,fun c hc => of_decide_eq_true (hws c hc)⟩
        · rw [hwhole,joined_append hfront hback]
          conv_lhs => rw [hv,hu]
          simp only [List.append_assoc,List.cons_append]
        · intro c hc
          cases List.mem_append.mp hc with
          | inl hc => exact of_decide_eq_true (hvs c hc)
          | inr hc =>
            cases List.mem_cons.mp hc with
            | inl hc =>
              rw [hc]
              decide
            | inr hc =>
              rw [of_decide_eq_true (hus c hc)]
              decide

/-- Server and client cut alike every body that both take for short, or both for long, and whose
lines they judge alike, as they do every line of plain characters; each of them keeps all but line
breaks and trailing blanks. -/
theorem replies_split_alike :
    (∀ body, size server body ≤ maxSplit∨maxSplit < size web body →
      (∀ ln∈linesOf body, judge server ln=judge web ln) →
      serverSplitQuoted body=webSplitQuoted body)∧
    (∀ ln, (∀ c∈ln, plain c) → judge server ln=judge web ln)∧
    ∀ splitQuoted blank, (splitQuoted,blank)∈[(serverSplitQuoted,QuotedReplies.blank server),
        (webSplitQuoted,QuotedReplies.blank web)] →
      ∀ body own quoted, splitQuoted body=(own,quoted) → (own,quoted)≠(body,[]) →
        blank own=false∧∃ between trailing, unix body=own++between++quoted++trailing∧
          (∀ c∈between, c.toNat∈[0x20,0x09,0x0A])∧∀ c∈trailing, c=newline := by
  refine ⟨fun body => split_alike,fun ln => judge_plain,?_⟩
  intro splitQuoted blank hside body own quoted h hcut
  simp only [List.mem_cons,List.not_mem_nil,or_false,Prod.mk.injEq] at hside
  rcases hside with ⟨rfl,rfl⟩ | ⟨rfl,rfl⟩
  · exact split_keeps h hcut
  · exact split_keeps h hcut

theorem short_reply_alike : serverSplitQuoted "Hi\n> q".toList=webSplitQuoted "Hi\n> q".toList :=
  replies_split_alike.1 "Hi\n> q".toList (.inl (by decide)) fun ln hln =>
    replies_split_alike.2.1 ln (by
      have hlines : ∀ ln∈linesOf "Hi\n> q".toList, ∀ c∈ln, plain c := by decide
      exact hlines ln hln)

/-- A body of 180000 characters that take more than 512 KiB. -/
def longReply : Text := "a\n> ".toList++List.replicate 180000 (Char.ofNat 0x20AC)

theorem size_long (d : Dialect) : size d longReply=
    size d "a\n> ".toList+180000*d.size (Char.ofNat 0x20AC) := by
  have hrun (n : Nat) (c : Char) : size d (List.replicate n c)=n*d.size c := by
    induction n with
    | zero => simp [size]
    | succ n ih =>
      simp only [size,List.replicate_succ,List.map_cons,List.sum_cons] at ih ⊢
      rw [ih,Nat.succ_mul,Nat.add_comm]
  rw [← hrun,size,size,size,← List.sum_append,← List.map_append]
  rfl

theorem unix_same (h : ∀ c∈body, c.toNat≠0x0D) : unix body=body := by
  induction body with
  | nil => rfl
  | cons c body ih =>
    have hc := h c List.mem_cons_self
    rw [unix,if_neg fun hboth => hc hboth.1,ih fun e he => h e (List.mem_cons_of_mem _ he)]

/-- A line that begins with the quote sign is no header. -/
theorem quoted_tests (rest : Text) : web.tests quoteOnWrote ('>'::rest)=false∧
    web.tests quoteOnStart ('>'::rest)=false∧web.tests quoteOriginal ('>'::rest)=false∧
    web.tests quoteFromLine ('>'::rest)=false := by
  have hunits : ('>'::rest).flatMap web.units=0x3E::rest.flatMap web.units := rfl
  have hspace : web.has .space 0x3E=false := by decide
  have hletters : web.has (.folded 'o'.toNat) 0x3E=false∧web.has (.folded 'f'.toNat) 0x3E=false := by
    decide
  have hsigns : web.has (.exact 0x2A) 0x3E=false∧web.has (.exact 0x2D) 0x3E=false := by decide
  have hspell (w : String) (c : Char) (cs : List Char) (hw : w.toList=c::cs) (last : Pattern Class) :
      spell .folded w last=.seq (.one (.folded c.toNat)) (cs.foldr
        (fun c p => .seq (.one (.folded c.toNat)) p) last) := by
    rw [spell,hw]
    rfl
  simp only [Dialect.tests,hunits,found]
  refine ⟨?_,?_,?_,?_⟩
  · rw [quoteOnWrote,spaces,ends_run_stop hspace,if_pos rfl,hspell "on" 'o' ['n'] rfl,
      ends_one_stop hletters.1]
    rfl
  · rw [quoteOnStart,spaces,ends_run_stop hspace,if_pos rfl,hspell "on" 'o' ['n'] rfl,
      ends_one_stop hletters.1]
    rfl
  · rw [quoteOriginal,spaces,ends_run_stop hspace,if_pos rfl,dashes,ends_run_stop hsigns.2]
    rfl
  · rw [quoteFromLine,spaces,ends_run_stop hspace,if_pos rfl,star,ends_run_stop hsigns.1,if_pos rfl,
      hspell "from:" 'f' ['r','o','m',':'] rfl,ends_one_stop hletters.2]
    rfl

theorem splits_apart : serverSplitQuoted longReply≠webSplitQuoted longReply∧
    serverSplitQuoted "Hi\n> q\n".toList=("Hi".toList,"> q".toList)∧
    serverSplitQuoted "Hi\n\u00A0> q".toList≠webSplitQuoted "Hi\n\u00A0> q".toList := by
  have hserver : serverSplitQuoted longReply=(longReply,[]) := by
    have hsize : size server longReply=540004 := by
      rw [size_long]
      decide
    rw [serverSplitQuoted,split,hsize]
    rfl
  have hweb : webSplitQuoted longReply≠(longReply,[]) := by
    have hsize : size web longReply=180004 := by
      rw [size_long]
      decide
    have hunix : unix longReply=longReply := by
      apply unix_same
      intro c hc
      cases List.mem_append.mp hc with
      | inl hc => exact (by decide : ∀ c∈"a\n> ".toList, c.toNat≠0x0D) c hc
      | inr hc =>
        rw [List.eq_of_mem_replicate hc]
        decide
    generalize htail : List.replicate 180000 (Char.ofNat 0x20AC)=tail
    have hlines : linesOf longReply=["a".toList,'>':: ' '::tail] := by
      have hfirst : longReply="a".toList++newline:: '>':: ' '::tail := by
        rw [← htail]
        rfl
      have hplain : ∀ c∈ '>':: ' '::tail, ¬(c==newline) := by
        intro c hc
        simp only [List.mem_cons,← htail] at hc
        rcases hc with rfl | rfl | hc
        · decide
        · decide
        · rw [List.eq_of_mem_replicate hc]
          decide
      have hone : ('>':: ' '::tail).splitOn newline=['>':: ' '::tail] :=
        List.splitOnP_eq_singleton fun c hc => by simpa using hplain c hc
      rw [linesOf,hunix,hfirst,List.splitOn_append_cons_self,hone]
      rfl
    have hcut : quoteCut web (linesOf longReply)=some 1 := by
      have hfirst : judge web "a".toList=
          ⟨false,false,false,false,false,false,false,false,false,false⟩ := by decide
      obtain ⟨hwrote,hstart,horiginal,hfrom⟩ := quoted_tests (' '::tail)
      have hquote : isQuoteLine web ('>':: ' '::tail) := rfl
      rw [quoteCut,hlines,List.map_cons,List.map_cons,hfirst]
      simp [scan,judge,hwrote,hstart,horiginal,hfrom,hquote,quotedFrom,trailerFrom]
    have hown : trimRight (fun c => c.toNat∈[0x20,0x09,0x0A])
        (joined ((linesOf longReply).take 1))="a".toList := by
      have hone : List.take 1 ["a".toList,'>':: ' '::tail]=["a".toList] := rfl
      rw [hlines,hone]
      decide
    intro h
    rw [webSplitQuoted,split,hsize,hcut,if_neg (by decide)] at h
    dsimp only at h
    rw [hown,if_neg (by decide)] at h
    have hlen := congrArg List.length (Prod.mk.inj h).1
    have hshort : "a".toList.length=1 := by decide
    rw [longReply,List.length_append,List.length_replicate,hshort] at hlen
    omega
  exact ⟨by rw [hserver]; exact Ne.symm hweb,by decide,by decide⟩

end Kitp.QuotedReplies
