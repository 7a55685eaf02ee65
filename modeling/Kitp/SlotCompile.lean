import Kitp.Lib.Steps
import Kitp.NamedSlots

/-! What compiling named slots makes of a text's tokens. -/
namespace Kitp.NamedSlots
open Kitp.SqlTokens Kitp.Quoting

variable {V : Type} {b : Builder V} {st st' : Scan} {c : Char} {s r o v w : Text} {t : Token}
  {ts us : List Token} {n : Text}

theorem isIdentStart_eq (c : Char) : isIdentStart c=identStart c := by
  have halpha : c.isAlpha=(c.isUpper||c.isLower) := rfl
  have hupper : c.isUpper=decide (c.val ≥ 'A'.val∧c.val ≤ 'Z'.val) := rfl
  have hlower : c.isLower=(decide (c.val ≥ 'a'.val)&&decide (c.val ≤ 'z'.val)) := rfl
  rw [Bool.eq_iff_iff]
  simp only [isIdentStart,identStart,halpha,hupper,hlower,Char.le_def,
    Bool.or_eq_true,Bool.and_eq_true,decide_eq_true_eq]
  tauto

theorem isIdentCont_eq (c : Char) : isIdentCont c=identCont c := by
  rw [Bool.eq_iff_iff]
  simp only [isIdentCont,identCont,isIdentStart_eq,Char.isDigit,Char.le_def,
    Bool.or_eq_true,Bool.and_eq_true,decide_eq_true_eq]

theorem isIdentCont_fun : isIdentCont=identCont := funext isIdentCont_eq

theorem stringLoop_length (s : Text) : (stringLoop s).2.length ≤ s.length := by
  fun_induction stringLoop s <;> simp only [List.length_cons,List.length_nil] <;> omega

theorem blockLoop_length (s : Text) : (blockLoop s).2.length ≤ s.length := by
  fun_induction blockLoop s <;> simp only [List.length_cons,List.length_nil] <;> omega

theorem identLoop_length (s : Text) : (identLoop s).2.length ≤ s.length := by
  have hdrop := List.length_dropWhile_le (fun c => decide (c≠doubleQuote)) s
  rw [identLoop]
  split
  · simp
  · rename_i hd
    rw [hd] at hdrop
    simp only [List.length_cons] at hdrop
    simp only
    omega

/-- A turn takes at least its character. -/
theorem turn_length (h : turn b st c s=.ok (st',r)) : r.length ≤ s.length := by
  rw [turn] at h
  split at h
  · cases h
    exact stringLoop_length s
  split at h
  · cases h
    exact identLoop_length s
  split at h
  · cases h
    exact List.length_dropWhile_le _ s
  split at h
  · cases h
    have := blockLoop_length s.tail
    rw [List.length_tail] at this
    omega
  split at h
  · cases h
  split at h
  · cases h
    rw [List.length_tail]
    omega
  split at h
  · obtain ⟨p,-,hp⟩ := Steps.bind_ok h
    cases hp
    exact List.length_dropWhile_le _ s
  · cases h
    exact Nat.le_refl _

theorem scan_fuel {m k : Nat} (hm : s.length ≤ m) (hk : s.length ≤ k) :
    scan b m st s=scan b k st s := by
  induction m generalizing k s st with
  | zero =>
    have : s=[] := List.eq_nil_of_length_eq_zero (by omega)
    rw [this]
    cases k <;> rfl
  | succ m ih =>
    cases s with
    | nil => cases k <;> rfl
    | cons c s =>
      simp only [List.length_cons] at hm hk
      cases k with
      | zero => omega
      | succ k =>
        rw [scan,scan]
        cases hturn : turn b st c s with
        | error e => rfl
        | ok p =>
          have hlen : p.2.length ≤ s.length := turn_length hturn
          exact ih (by omega) (by omega)

/-- The loop from a state on, over what is left of the text. -/
def run (b : Builder V) (st : Scan) (s : Text) : Except CompileError Scan := scan b s.length st s

theorem run_turn (h : turn b st c s=.ok (st',r)) : run b st (c::s)=run b st' r := by
  have hlen := turn_length h
  have hrest : scan b (c::s).length st (c::s)=scan b s.length st' r := by
    rw [List.length_cons,scan,h]
    rfl
  rw [run,run,hrest]
  exact scan_fuel hlen (Nat.le_refl _)

theorem run_error {e : CompileError} (h : turn b st c s=.error e) : run b st (c::s)=.error e := by
  rw [run,List.length_cons,scan,h]
  rfl

@[simp] theorem write_write (st : Scan) (s r : Text) : (st.write s).write r=st.write (s++r) := by
  simp [Scan.write]

@[simp] theorem write_nil (st : Scan) : st.write []=st := by simp [Scan.write]

/-- A character that starts nothing is copied. -/
theorem turn_plain (hquote : c≠quote) (hdouble : c≠doubleQuote)
    (hline : ¬(c = '-'∧s.head?=some '-')) (hblock : ¬(c = '/'∧s.head?=some '*'))
    (hdollar : ¬(c = '$'∧isDollarQuoteOpener s)) (hcast : ¬(c = ':'∧s.head?=some ':'))
    (hslot : ¬(c = ':'∧s.head?.any isIdentStart)) : turn b st c s=.ok (st.write [c],s) := by
  rw [turn,if_neg hquote,if_neg hdouble,if_neg hline,if_neg hblock,if_neg hdollar,if_neg hcast,
    if_neg hslot]

/-- The characters with a branch of their own, but for the dollar sign. -/
def branching (c : Char) : Bool :=
  c=quote||c=doubleQuote||c = '-'||c = '/'||c = ':'

theorem turn_quiet (hc : branching c=false) (hdollar : ¬(c = '$'∧isDollarQuoteOpener s)) :
    turn b st c s=.ok (st.write [c],s) := by
  simp only [branching,Bool.or_eq_false_iff,decide_eq_false_iff_not] at hc
  obtain ⟨⟨⟨⟨hquote,hdouble⟩,hdash⟩,hslash⟩,hcolon⟩ := hc
  exact turn_plain hquote hdouble (fun h => hdash h.1) (fun h => hslash h.1) hdollar
    (fun h => hcolon h.1) (fun h => hcolon h.1)

theorem wordCont_quiet (hc : wordCont c) : branching c=false := by
  have hq : wordCont quote=false := by decide
  have hd : wordCont doubleQuote=false := by decide
  have hm : wordCont '-'=false := by decide
  have hs : wordCont '/'=false := by decide
  have hl : wordCont ':'=false := by decide
  simp only [branching,Bool.or_eq_false_iff,decide_eq_false_iff_not]
  refine ⟨⟨⟨⟨?_,?_⟩,?_⟩,?_⟩,?_⟩
  all_goals
    rintro rfl
    simp_all

theorem identCont_word (hc : identCont c) : wordCont c := by
  simp only [identCont,Bool.or_eq_true] at hc
  simp only [wordCont,wordStart,Bool.or_eq_true]
  tauto

/-- Some dollar sign of the word reads as the opening of a dollar quote. -/
def trips : Text → Bool
  | [] => false
  | c::s => c = '$'&&isDollarQuoteOpener s||trips s

theorem opener_end (hr : ∀ d∈r.head?, wordCont d=false) :
    isDollarQuoteOpener (v++r)=isDollarQuoteOpener v := by
  have hdollar : ∀ d∈r.head?, d≠ '$' := by
    rintro d hd rfl
    have := hr _ hd
    revert this
    decide
  have hident : ∀ d∈r.head?, identCont d=false := by
    intro d hd
    by_contra hcon
    have := identCont_word (by simpa using hcon)
    rw [hr d hd] at this
    cases this
  cases v with
  | nil =>
    cases r with
    | nil => rfl
    | cons d r =>
      have hstart : identStart d=false := by
        have := hident d rfl
        simp only [identCont,Bool.or_eq_false_iff] at this
        exact this.1
      have hd := hdollar d rfl
      simp [isDollarQuoteOpener,isIdentStart_eq,hstart,hd]
  | cons d v =>
    have hhead : ((d::v)++r).dropWhile identCont=((d::v).dropWhile identCont)++r∨
        (((d::v)++r).dropWhile identCont=r∧(d::v).dropWhile identCont=[]) := by
      by_cases hall : ∀ e∈d::v, identCont e
      · right
        have := span_split (o := r) hall hident
        refine ⟨this.2,?_⟩
        have hself := span_split (o := []) hall (by simp)
        rw [List.append_nil] at hself
        exact hself.2
      · left
        rw [List.dropWhile_append]
        split
        · rename_i hnil
          have := List.dropWhile_eq_nil_iff.mp (List.isEmpty_iff.mp hnil)
          exact absurd this hall
        · rfl
    have hsame : (((d::v)++r).dropWhile identCont).head?=some '$' ↔
        ((d::v).dropWhile identCont).head?=some '$' := by
      rcases hhead with hh | ⟨hh,hnil⟩
      · rw [hh]
        cases hrest : (d::v).dropWhile identCont with
        | nil =>
          simp only [List.nil_append,List.head?_nil]
          constructor
          · exact fun h => absurd rfl (hdollar _ h)
          · exact fun h => by cases h
        | cons e u => rfl
      · rw [hh,hnil]
        constructor
        · exact fun h => absurd rfl (hdollar _ h)
        · exact fun h => by cases h
    simp only [isDollarQuoteOpener,isIdentCont_fun,List.cons_append] at hsame ⊢
    rw [Bool.eq_iff_iff]
    simp only [Bool.or_eq_true,Bool.and_eq_true,decide_eq_true_eq,hsame]

/-- A word is copied, unless a dollar sign in it trips the scanner. -/
theorem run_word (hw : ∀ d∈w, wordCont d) (htrip : trips w=false)
    (hr : ∀ d∈r.head?, wordCont d=false) : run b st (w++r)=run b (st.write w) r := by
  induction w generalizing st with
  | nil => simp
  | cons c w ih =>
    have htail : ∀ d∈w, wordCont d := fun d hd => hw d (List.mem_cons_of_mem _ hd)
    simp only [trips,Bool.or_eq_false_iff,Bool.and_eq_false_iff,decide_eq_false_iff_not] at htrip
    have hdollar : ¬(c = '$'∧isDollarQuoteOpener (w++r)) := by
      rintro ⟨hc,hopen⟩
      rw [opener_end hr] at hopen
      rcases htrip.1 with h | h
      · exact h hc
      · rw [h] at hopen
        cases hopen
    have hturn : turn b st c (w++r)=.ok (st.write [c],w++r) :=
      turn_quiet (wordCont_quiet (hw c List.mem_cons_self)) hdollar
    rw [List.cons_append,run_turn hturn,ih htail htrip.2,write_write]
    rfl

theorem stringLoop_double (hr : ∀ c∈r.head?, c≠quote) (body : Text) :
    stringLoop (double quote body++quote::r)=(double quote body++[quote],r) := by
  induction body with
  | nil =>
    rw [double,List.nil_append,stringLoop.eq_def]
    cases r with
    | nil => simp
    | cons d r =>
      have hd : d≠quote := hr d rfl
      simp [hd]
  | cons c body ih =>
    by_cases hc : c=quote
    · rw [double,if_pos hc,List.cons_append,List.cons_append,stringLoop.eq_def]
      simp [ih]
    · rw [double,if_neg hc,List.cons_append,stringLoop.eq_def]
      simp [hc,ih]

/-- An escape string is read as a plain one where no quote is behind a backslash. -/
theorem stringLoop_escaped {body : List Piece} (hsound : ∀ p∈body, p.Sound)
    (hb : Piece.behind quote∉body) (hr : ∀ c∈r.head?, c≠quote) :
    stringLoop (body.flatMap Piece.text++quote::r)=(body.flatMap Piece.text++[quote],r) := by
  have hback : backslash≠quote := by decide
  induction body with
  | nil => exact stringLoop_double hr []
  | cons p body ih =>
    have hbody : Piece.behind quote∉body := fun h => hb (List.mem_cons_of_mem _ h)
    have ih := ih (fun p hp => hsound p (List.mem_cons_of_mem _ hp)) hbody
    have hp := hsound p List.mem_cons_self
    cases p with
    | plain c =>
      rw [List.flatMap_cons,Piece.text,List.append_assoc,List.singleton_append,stringLoop.eq_def]
      simp [hp.1,ih]
    | doubled =>
      rw [List.flatMap_cons,Piece.text,List.append_assoc,stringLoop.eq_def]
      simp [ih]
    | behind c =>
      have hc : c≠quote := by
        rintro rfl
        exact hb List.mem_cons_self
      have hstep : stringLoop (c::(body.flatMap Piece.text++quote::r))=
          (c::(body.flatMap Piece.text++[quote]),r) := by
        rw [stringLoop.eq_def]
        simp [hc,ih]
      rw [List.flatMap_cons,Piece.text,List.append_assoc,stringLoop.eq_def]
      simp [hback,hstep]

/-- A comment is read as Postgres does where no other opens in it. -/
def opens : Text → Bool
  | '/':: '*'::_ => true
  | _::s => opens s
  | [] => false

theorem blockLoop_read {d : Nat} (hd : d=0) (h : readBlock d s=some (v,o)) (hopen : opens v=false) :
    blockLoop s=(v,o) := by
  fun_induction readBlock d s generalizing v with
  | case1 s =>
    cases h
    rfl
  | case2 d s hne ih => exact absurd hd hne
  | case3 d s ih =>
    obtain ⟨⟨b',o'⟩,hr,heq⟩ := Option.map_eq_some_iff.mp h
    cases heq
    cases hopen
  | case4 d c s h1 h2 ih =>
    obtain ⟨⟨b',o'⟩,hr,heq⟩ := Option.map_eq_some_iff.mp h
    cases heq
    have htail : opens b'=false := by
      rw [opens.eq_def] at hopen
      split at hopen
      · cases hopen
      · rename_i heq
        cases heq
        exact hopen
      · rename_i heq
        cases heq
    have hclose : ∀ r, c = '*' → s = '/'::r → False := fun r hc hs => h1 r hc hs
    rw [blockLoop.eq_2 c s hclose,ih hd hr htail]
  | case5 => cases h

theorem run_quoted (hr : ∀ c∈r.head?, c≠quote) (body : Text) :
    run b st ((Token.quoted body).text++r)=run b (st.write (Token.quoted body).text) r := by
  have hturn : turn b st quote (double quote body++quote::r)=
      .ok (st.write (quote::(double quote body++[quote])),r) := by
    rw [turn,if_pos rfl,stringLoop_double hr body]
  have htext : (Token.quoted body).text++r=quote::(double quote body++quote::r) := by
    simp [Token.text]
  rw [htext,run_turn hturn]
  rfl

theorem run_escaped {mark : Char} {body : List Piece} (hm : mark = 'e'∨mark = 'E')
    (hsound : ∀ p∈body, p.Sound) (hb : Piece.behind quote∉body) (hr : ∀ c∈r.head?, c≠quote) :
    run b st ((Token.escaped mark body).text++r)=
      run b (st.write (Token.escaped mark body).text) r := by
  have hquiet : branching mark=false∧mark≠ '$' := by
    rcases hm with rfl | rfl
    · decide
    · decide
  have hmark (u : Text) : turn b st mark u=.ok (st.write [mark],u) :=
    turn_quiet hquiet.1 fun h => hquiet.2 h.1
  have hturn (st : Scan) : turn b st quote (body.flatMap Piece.text++quote::r)=
      .ok (st.write (quote::(body.flatMap Piece.text++[quote])),r) := by
    rw [turn,if_pos rfl,stringLoop_escaped hsound hb hr]
  have htext : (Token.escaped mark body).text++r=
      mark::quote::(body.flatMap Piece.text++quote::r) := by simp [Token.text]
  rw [htext,run_turn (hmark _),run_turn (hturn _),write_write]
  rfl

theorem identLoop_stop (hv : doubleQuote∉v) (r : Text) :
    identLoop (v++doubleQuote::r)=(v++[doubleQuote],r) := by
  have hall : ∀ c∈v, decide (c≠doubleQuote)=true := by
    intro c hc
    have : c≠doubleQuote := fun h => hv (h ▸ hc)
    simpa using this
  have hstop : ∀ c∈(doubleQuote::r).head?, decide (c≠doubleQuote)=false := by
    intro c hc
    cases hc
    decide
  obtain ⟨htake,hdrop⟩ := span_split hall hstop
  simp only [identLoop,htake,hdrop]

/-- A doubled quote closes the identifier for the scanner, and the next opens it again. -/
theorem run_ident (hv : doubleQuote∉v) (body r : Text) :
    run b st (doubleQuote::(v++(double doubleQuote body++doubleQuote::r)))=
      run b (st.write (doubleQuote::(v++(double doubleQuote body++[doubleQuote])))) r := by
  have hne : doubleQuote≠quote := by decide
  have hturn (st : Scan) (v u : Text) (hv : doubleQuote∉v) :
      turn b st doubleQuote (v++doubleQuote::u)=
        .ok (st.write (doubleQuote::(v++[doubleQuote])),u) := by
    rw [turn,if_neg hne,if_pos rfl,identLoop_stop hv u]
  induction body generalizing v st with
  | nil => exact run_turn (hturn st v r hv)
  | cons c body ih =>
    by_cases hc : c=doubleQuote
    · have hnil : doubleQuote∉([] : Text) := by simp
      have hnext : run b (st.write (doubleQuote::(v++[doubleQuote])))
          (doubleQuote::([]++(double doubleQuote body++doubleQuote::r)))=_ := ih hnil
      rw [List.nil_append] at hnext
      rw [double,if_pos hc,List.cons_append,List.cons_append,run_turn (hturn st v _ hv),hnext,
        write_write]
      simp
    · have hmore : doubleQuote∉v++[c] := by
        simp only [List.mem_append,List.mem_singleton,not_or]
        exact ⟨hv,fun h => hc h.symm⟩
      have hnext : run b st _=_ := ih hmore
      rw [double,if_neg hc]
      simpa using hnext

theorem run_block (hs : readBlock 0 v=some (v,[])) (hopen : opens v=false) (r : Text) :
    run b st ((Token.block v).text++r)=run b (st.write (Token.block v).text) r := by
  have hloop : blockLoop (v++r)=(v,r) := blockLoop_read rfl (readBlock_rest hs r) hopen
  have hturn : turn b st '/' ('*'::(v++r))=.ok (st.write ('/':: '*'::v),r) := by
    have hskip : '/'≠quote∧ '/'≠doubleQuote∧ '/'≠ '-' := by decide
    simp [turn,hskip,hloop]
  rw [Token.text,List.cons_append,List.cons_append,run_turn hturn]

theorem run_cast (r : Text) : run b st ([ ':', ':']++r)=run b (st.write [ ':', ':']) r := by
  have hturn : turn b st ':' (':'::r)=.ok (st.write [ ':', ':'],r) := by
    have hskip : ':'≠quote∧ ':'≠doubleQuote∧ ':'≠ '-'∧ ':'≠ '/'∧ ':'≠ '$' := by decide
    simp [turn,hskip]
  exact run_turn hturn

theorem run_char (hsound : (Token.char c).Sound) (hends : (Token.char c).Ends r.head?) :
    run b st (c::r)=run b (st.write [c]) r := by
  obtain ⟨-,hquote,hdouble,hdollar⟩ := hsound
  apply run_turn
  apply turn_plain hquote hdouble
  · exact fun h => (hends _ h.2).1 h.1 rfl
  · exact fun h => (hends _ h.2).2.1 h.1 rfl
  · exact fun h => hdollar h.1
  · exact fun h => ((hends _ h.2).2.2 h.1).1 rfl
  · rintro ⟨hc,hany⟩
    obtain ⟨d,hd,hstart⟩ := Option.any_eq_true _ _ |>.mp hany
    have := ((hends d hd).2.2 hc).2
    rw [← isIdentStart_eq,hstart] at this
    cases this

theorem run_slot (hsound : (Token.slot n).Sound) (hends : (Token.slot n).Ends r.head?) :
    run b st ((Token.slot n).text++r)=(do
      let (st,idx) ← slotNumber b st n
      run b (st.write (placeholder idx)) r) := by
  obtain ⟨c,v,rfl,hc,hv⟩ := hsound
  have hall : ∀ d∈c::v, isIdentCont d := by
    rw [isIdentCont_fun]
    intro d hd
    rcases List.mem_cons.mp hd with rfl | hd
    · simp [identCont,hc]
    · exact hv d hd
  have hstop : ∀ d∈r.head?, isIdentCont d=false := by
    rw [isIdentCont_fun]
    exact hends
  obtain ⟨htake,hdrop⟩ := span_split hall hstop
  have hcolon : c≠ ':' := by
    rintro rfl
    revert hc
    decide
  have hstart : isIdentStart c := by rw [isIdentStart_eq]; exact hc
  have hskip : ':'≠quote∧ ':'≠doubleQuote∧ ':'≠ '-'∧ ':'≠ '/'∧ ':'≠ '$' := by decide
  have hturn : turn b st ':' ((c::v)++r)=(do
      let (st,idx) ← slotNumber b st (c::v)
      .ok (st.write (placeholder idx),r)) := by
    rw [turn,htake,hdrop]
    simp [hskip,hcolon,hstart]
  have htext : (Token.slot (c::v)).text++r = ':'::((c::v)++r) := rfl
  rw [htext]
  cases hnum : slotNumber b st (c::v) with
  | error e =>
    rw [hnum] at hturn
    exact run_error hturn
  | ok p =>
    rw [hnum] at hturn
    exact run_turn hturn

/-- The line comment of the scanner ends at a line feed. -/
theorem run_line (hv : ∀ c∈v, c≠ '\n') (hr : ∀ c∈r.head?, c = '\n') :
    run b st ('-':: '-'::(v++r))=run b (st.write ('-':: '-'::v)) r := by
  have hall : ∀ d∈ '-'::v, decide (d≠ '\n')=true := by
    intro d hd
    rcases List.mem_cons.mp hd with rfl | hd
    · decide
    · simpa using hv d hd
  have hstop : ∀ d∈r.head?, decide (d≠ '\n')=false := by
    intro d hd
    simpa using hr d hd
  obtain ⟨htake,hdrop⟩ := span_split hall hstop
  have hturn : turn b st '-' (('-'::v)++r)=.ok (st.write ('-':: '-'::v),r) := by
    have hskip : '-'≠quote∧ '-'≠doubleQuote := by decide
    rw [turn,htake,hdrop]
    simp [hskip]
  exact run_turn hturn

/-- The text's own tokens that the scanner reads as Postgres does. -/
def Read : Token → Prop
  | .word w => trips w=false
  | .param _ => False
  | .escaped _ body => Piece.behind quote∉body
  | .dollar tag _ => tag.all isIdentCont
  | .block body => opens body=false
  | _ => True

/-- A name's slot does not follow an identifier directly, and a comment that a carriage return ends
ends at a line feed too. -/
def Tidy : List Token → Prop
  | [] => True
  | t::ts => (∀ w n, t=.word w → ts.head?≠some (.slot n))∧
      (∀ v, t=.line v → ts.head?=some (.char '\r') →
        ∀ u∈ts.tail.head?, u=.char '\n')∧Tidy ts

/-- What the scan makes of the tokens. -/
def outcome (b : Builder V) (st : Scan) : List Token → Except CompileError Scan
  | [] => .ok st
  | .slot n::ts => do
    let (st,idx) ← slotNumber b st n
    outcome b (st.write (placeholder idx)) ts
  | .dollar tag _::_ => .error (.dollarQuoted tag)
  | t::ts => outcome b (st.write t.text) ts

theorem run_dollar {tag body : Text} (hsound : (Token.dollar tag body).Sound)
    (hread : Read (.dollar tag body)) (r : Text) :
    run b st ((Token.dollar tag body).text++r)=.error (.dollarQuoted tag) := by
  obtain ⟨htag,hhead,-⟩ := hsound
  have hall : ∀ d∈tag, isIdentCont d := List.all_eq_true.mp hread
  have hne : ∀ d∈tag, decide (d≠ '$')=true := by
    intro d hd
    simpa using (htag d hd).2
  generalize hrest : body++tagText tag++r=u
  have hcont : ∀ d∈('$'::u).head?, isIdentCont d=false := by
    intro d hd
    cases hd
    decide
  have hstop : ∀ d∈('$'::u).head?, decide (d≠ '$')=false := by
    intro d hd
    cases hd
    decide
  have hdrop := (span_split hall hcont).2
  have htake := (span_split hne hstop).1
  have hopen : isDollarQuoteOpener (tag++ '$'::u) := by
    cases tag with
    | nil => rfl
    | cons d v =>
      have hd := hall d List.mem_cons_self
      have hdigit := hhead d rfl
      rw [isIdentCont_eq,identCont,hdigit,Bool.or_false,← isIdentStart_eq] at hd
      have hrest : (d::(v++ '$'::u)).dropWhile isIdentCont = '$'::u := hdrop
      simp [isDollarQuoteOpener,hd,hrest]
  have hturn : turn b st '$' (tag++ '$'::u)=.error (.dollarQuoted tag) := by
    have hskip : '$'≠quote∧ '$'≠doubleQuote∧ '$'≠ '-'∧ '$'≠ '/' := by decide
    rw [turn,if_neg hskip.1,if_neg hskip.2.1,if_neg (fun h => hskip.2.2.1 h.1),
      if_neg (fun h => hskip.2.2.2 h.1),if_pos ⟨rfl,hopen⟩,htake]
  have htext : (Token.dollar tag body).text++r = '$'::(tag++ '$'::u) := by
    rw [← hrest]
    simp [Token.text,tagText]
  rw [htext]
  exact run_error hturn

theorem Tidy.tail (h : Tidy (t::ts)) : Tidy ts := h.2.2

theorem token_newline (hsound : t.Sound) (hc : newline c) (hhead : t.text.head?=some c) :
    t=.char c := by
  have hfixed : newline '$'=false∧newline ':'=false∧newline quote=false∧newline doubleQuote=false∧
      newline '-'=false∧newline '/'=false∧newline 'e'=false∧newline 'E'=false := by decide
  cases t with
  | word w =>
    obtain ⟨d,v,rfl,hd,-⟩ := hsound
    cases hhead
    have hline : wordStart '\n'=false∧wordStart '\r'=false := by decide
    simp only [newline,Bool.or_eq_true,decide_eq_true_eq] at hc
    rcases hc with rfl | rfl
    · rw [hline.1] at hd
      cases hd
    · rw [hline.2] at hd
      cases hd
  | escaped mark body =>
    cases hhead
    rcases hsound.1 with rfl | rfl
    · simp [hfixed] at hc
    · simp [hfixed] at hc
  | char d =>
    cases hhead
    rfl
  | _ =>
    cases hhead
    simp [hfixed] at hc

theorem render_head (hsound : t.Sound) (ts : List Token) :
    (render (t::ts)).head?=t.text.head? := by
  have hrender : render (t::ts)=t.text++render ts := rfl
  cases htext : t.text with
  | nil => exact absurd htext (text_ne hsound)
  | cons d v =>
    rw [hrender,htext]
    rfl

theorem chained_newline (hchain : Chained ts) (hc : newline c)
    (hhead : (render ts).head?=some c) : ∃ us, ts=.char c::us := by
  cases ts with
  | nil => cases hhead
  | cons t ts =>
    rw [render_head hchain.1] at hhead
    exact ⟨ts,by rw [token_newline hchain.1 hc hhead]⟩

/-- The scan goes token by token. -/
theorem run_render (hchain : Chained ts) (hread : ∀ t∈ts, Read t) (htidy : Tidy ts) :
    run b st (render ts)=outcome b st ts := by
  generalize hk : ts.length=k
  induction k using Nat.strong_induction_on generalizing ts st with
  | _ k ih =>
    cases ts with
    | nil => rfl
    | cons t ts =>
      obtain ⟨hsound,hends,hchain⟩ := hchain
      have hrest : ∀ u∈ts, Read u := fun u hu => hread u (List.mem_cons_of_mem _ hu)
      have hthis : Read t := hread t List.mem_cons_self
      have hlen : ts.length < k := by rw [← hk]; simp
      have hnext (st : Scan) : run b st (render ts)=outcome b st ts :=
        ih _ hlen hchain hrest htidy.tail rfl
      have hrender : render (t::ts)=t.text++render ts := rfl
      rw [hrender]
      cases t with
      | word w =>
        obtain ⟨d,v,rfl,hd,hv⟩ := hsound
        have hall : ∀ e∈d::v, wordCont e := by
          intro e he
          rcases List.mem_cons.mp he with rfl | he
          · simp [wordCont,hd]
          · exact hv e he
        exact (run_word hall hthis fun e he => (hends e he).1).trans (hnext _)
      | param digits => cases hthis
      | slot n =>
        rw [run_slot hsound hends,outcome]
        cases slotNumber b st n with
        | error e => rfl
        | ok p => exact hnext _
      | cast => exact (run_cast _).trans (hnext _)
      | quoted body => exact (run_quoted hends body).trans (hnext _)
      | escaped mark body => exact (run_escaped hsound.1 hsound.2 hthis hends).trans (hnext _)
      | ident body =>
        have hnil : doubleQuote∉([] : Text) := by simp
        have hrun : run b st _=_ := run_ident hnil body (render ts)
        simp only [List.nil_append] at hrun
        have htext : (Token.ident body).text++render ts=
            doubleQuote::(double doubleQuote body++doubleQuote::render ts) := by simp [Token.text]
        rw [htext,hrun]
        exact hnext _
      | dollar tag body => exact run_dollar hsound hthis _
      | line v =>
        have hv : ∀ c∈v, c≠ '\n' := by
          rintro c hc rfl
          have := hsound _ hc
          revert this
          decide
        by_cases hret : (render ts).head?=some '\r'
        · -- the scanner takes the carriage return with the comment
          obtain ⟨us,rfl⟩ := chained_newline hchain (by decide) hret
          have hafter := htidy.2.1 v rfl rfl
          have hv' : ∀ c∈v++['\r'], c≠ '\n' := by
            intro c hc
            rcases List.mem_append.mp hc with hc | hc
            · exact hv c hc
            · rw [List.mem_singleton.mp hc]
              decide
          have hr : ∀ c∈(render us).head?, c = '\n' := by
            cases us with
            | nil => simp [render]
            | cons u us =>
              have hu := hafter u rfl
              subst hu
              intro c hc
              cases hc
              rfl
          have hlast : run b (st.write ('-':: '-'::(v++['\r']))) (render us)=
              outcome b (st.write ('-':: '-'::(v++['\r']))) us :=
            ih us.length (by simp only [List.length_cons] at hlen; omega) hchain.2.2
              (fun u hu => hrest u (List.mem_cons_of_mem _ hu)) htidy.tail.tail rfl
          have htext : (Token.line v).text++render (.char '\r'::us)=
              '-':: '-'::((v++['\r'])++render us) := by simp [Token.text,render]
          rw [htext,run_line hv' hr,hlast,outcome,outcome,write_write]
          · rfl
          all_goals simp
        · have hr : ∀ c∈(render ts).head?, c = '\n' := by
            intro c hc
            have := hends c hc
            simp only [newline,Bool.or_eq_true,decide_eq_true_eq] at this
            rcases this with h | h
            · exact h
            · rw [h] at hc
              exact absurd hc hret
          exact (run_line hv hr).trans (hnext _)
      | block v => exact (run_block hsound hthis _).trans (hnext _)
      | char c => exact (run_char hsound hends).trans (hnext _)

/-- Each name seen has its place in the order as its number. -/
structure Good (b : Builder V) (st : Scan) : Prop where
  nodup : st.order.Nodup
  seen : ∀ n, st.seen.lookup n=if n∈st.order then some (st.order.idxOf n+1) else none
  bound : ∀ n∈st.order, (b.vals.lookup n).isSome

-- named, so that deciding n∈order makes no proof of its own
local instance : LawfulBEq Text := inferInstanceAs (LawfulBEq (List Char))

/-- The order behind a name. -/
def noted (order : List Text) (n : Text) : List Text := if n∈order then order else order++[n]

/-- The names in first-appearance order. -/
def extend (order : List Text) : List Token → List Text
  | [] => order
  | .slot n::ts => extend (noted order n) ts
  | _::ts => extend order ts

/-- The placeholder of a slot. -/
def place (order : List Text) : Token → Token
  | .slot n => .param (Nat.toDigits 10 (order.idxOf n+1))
  | t => t

theorem Good.write (h : Good b st) (s : Text) : Good b (st.write s) := ⟨h.nodup,h.seen,h.bound⟩

theorem mem_noted (order : List Text) (n : Text) : n∈noted order n := by
  rw [noted]
  split
  · assumption
  · simp

theorem noted_front (order : List Text) (n : Text) : order <+: noted order n := by
  rw [noted]
  split
  · exact List.prefix_rfl
  · exact List.prefix_append _ _

theorem extend_prefix (order : List Text) (ts : List Token) : order <+: extend order ts := by
  fun_induction extend order ts with
  | case1 order => exact List.prefix_rfl
  | case2 order n ts ih => exact (noted_front order n).trans ih
  | case3 order t ts hslot ih => exact ih

theorem mem_extend (order : List Text) (ts : List Token) (n : Text) :
    n∈extend order ts ↔ n∈order∨Token.slot n∈ts := by
  fun_induction extend order ts with
  | case1 order => simp
  | case2 order m ts ih =>
    have hnoted : n∈noted order m ↔ n∈order∨n=m := by
      rw [noted]
      split
      · rename_i hm
        constructor
        · exact Or.inl
        · rintro (h | rfl)
          · exact h
          · exact hm
      · simp
    rw [ih,hnoted,List.mem_cons,or_assoc,Token.slot.injEq]
  | case3 order t ts hslot ih =>
    have hne : Token.slot n≠t := fun h => hslot n h.symm
    rw [ih,List.mem_cons]
    simp [hne]

theorem noted_nodup {order : List Text} (h : order.Nodup) (n : Text) : (noted order n).Nodup := by
  rw [noted]
  split
  · exact h
  · rename_i hn
    rw [List.nodup_append]
    refine ⟨h,by simp,?_⟩
    intro m hm k hk heq
    rw [List.mem_singleton] at hk
    exact hn (hk ▸ heq ▸ hm)

theorem extend_nodup {order : List Text} (h : order.Nodup) (ts : List Token) :
    (extend order ts).Nodup := by
  fun_induction extend order ts with
  | case1 order => exact h
  | case2 order n ts ih => exact ih (noted_nodup h n)
  | case3 order t ts hslot ih => exact ih h

theorem idxOf_extend {order : List Text} (hn : n∈order) (ts : List Token) :
    (extend order ts).idxOf n=order.idxOf n := by
  obtain ⟨u,hu⟩ := extend_prefix order ts
  rw [← hu,List.idxOf_append_of_mem hn]

/-- A bound name gets the number of its place. -/
theorem slotNumber_ok (hg : Good b st) (hn : (b.vals.lookup n).isSome) :
    ∃ seen, slotNumber b st n=
        .ok (⟨st.out,noted st.order n,seen⟩,(noted st.order n).idxOf n+1)∧
      Good b ⟨st.out,noted st.order n,seen⟩ := by
  have hseen := hg.seen n
  by_cases hmem : n∈st.order
  · rw [if_pos hmem] at hseen
    have hnoted : noted st.order n=st.order := if_pos hmem
    refine ⟨st.seen,?_,?_⟩
    · rw [slotNumber,hseen,hnoted]
    · rw [hnoted]
      exact hg
  · rw [if_neg hmem] at hseen
    have hnoted : noted st.order n=st.order++[n] := if_neg hmem
    have hnone : (b.vals.lookup n).isNone=false := by
      cases hv : b.vals.lookup n with
      | none =>
        rw [hv] at hn
        cases hn
      | some v => rfl
    have hidx : (st.order++[n]).idxOf n+1=(st.order++[n]).length := by
      rw [List.idxOf_append_of_notMem hmem]
      simp
    refine ⟨(n,(st.order++[n]).length)::st.seen,?_,?_⟩
    · rw [slotNumber,hseen,hnoted,hidx]
      simp [hnone]
    · rw [hnoted]
      refine ⟨hnoted ▸ noted_nodup hg.nodup n,?_,?_⟩
      · intro m
        simp only [List.lookup_cons,List.mem_append,List.mem_singleton]
        by_cases hm : m=n
        · subst hm
          simp only [beq_self_eq_true,or_true,if_true,hidx]
        · have hbeq : (m==n)=false := by simpa using hm
          simp only [hbeq,hm,or_false,hg.seen m]
          split
          · rename_i hin
            rw [List.idxOf_append_of_mem hin]
          · rfl
      · intro m hm
        rcases List.mem_append.mp hm with h | h
        · exact hg.bound m h
        · rw [List.mem_singleton.mp h]
          exact hn

theorem slotNumber_unbound (hg : Good b st) (hn : b.vals.lookup n=none) :
    slotNumber b st n=.error (.unbound n) := by
  have hmem : n∉st.order := by
    intro h
    have := hg.bound n h
    rw [hn] at this
    cases this
  have hseen := hg.seen n
  rw [if_neg hmem] at hseen
  rw [slotNumber,hseen,hn]
  rfl

def isDollar : Token → Bool
  | .dollar _ _ => true
  | _ => false

theorem place_other {order : List Text} (h : ∀ n, t≠.slot n) : place order t=t := by
  cases t with
  | slot n => exact absurd rfl (h n)
  | _ => rfl

theorem outcome_other (hslot : ∀ n, t≠.slot n) (hdollar : isDollar t=false) :
    outcome b st (t::ts)=outcome b (st.write t.text) ts := by
  cases t with
  | slot n => exact absurd rfl (hslot n)
  | dollar tag body => cases hdollar
  | _ => rfl

theorem extend_other {order : List Text} (hslot : ∀ n, t≠.slot n) :
    extend order (t::ts)=extend order ts := by
  cases t with
  | slot n => exact absurd rfl (hslot n)
  | _ => rfl

theorem outcome_ok (hg : Good b st) (hdollar : ∀ t∈ts, isDollar t=false)
    (hbound : ∀ n, Token.slot n∈ts → (b.vals.lookup n).isSome) :
    ∃ seen, outcome b st ts=
      .ok ⟨st.out++render (ts.map (place (extend st.order ts))),extend st.order ts,seen⟩ := by
  induction ts generalizing st with
  | nil => exact ⟨st.seen,by simp [render,extend,outcome]⟩
  | cons t ts ih =>
    have hrest : ∀ u∈ts, isDollar u=false := fun u hu => hdollar u (List.mem_cons_of_mem _ hu)
    have hboundRest : ∀ n, Token.slot n∈ts → (b.vals.lookup n).isSome :=
      fun n hn => hbound n (List.mem_cons_of_mem _ hn)
    by_cases hslot : ∃ n, t=.slot n
    · obtain ⟨n,rfl⟩ := hslot
      obtain ⟨seen,hnum,hgood⟩ := slotNumber_ok hg (hbound n List.mem_cons_self)
      obtain ⟨last,hlast⟩ := ih (hgood.write (placeholder ((noted st.order n).idxOf n+1)))
        hrest hboundRest
      refine ⟨last,?_⟩
      have hplace : (extend (noted st.order n) ts).idxOf n=(noted st.order n).idxOf n :=
        idxOf_extend (mem_noted _ n) ts
      have hstep : outcome b st (.slot n::ts)=outcome b
          (Scan.write ⟨st.out,noted st.order n,seen⟩ (placeholder ((noted st.order n).idxOf n+1)))
          ts := by
        rw [outcome,hnum]
        rfl
      rw [hstep,hlast]
      simp [Scan.write,extend,render,place,hplace,Token.text,placeholder]
    · have hne : ∀ n, t≠.slot n := fun n h => hslot ⟨n,h⟩
      obtain ⟨last,hlast⟩ := ih (hg.write t.text) hrest hboundRest
      refine ⟨last,?_⟩
      rw [outcome_other hne (hdollar t List.mem_cons_self),hlast,extend_other hne]
      simp [Scan.write,render,place_other hne]

theorem outcome_error (hg : Good b st)
    (h : (∃ t∈ts, isDollar t)∨∃ n, Token.slot n∈ts∧b.vals.lookup n=none) :
    ∃ e, outcome b st ts=.error e := by
  induction ts generalizing st with
  | nil => simp at h
  | cons t ts ih =>
    by_cases hslot : ∃ n, t=.slot n
    · obtain ⟨n,rfl⟩ := hslot
      cases hv : b.vals.lookup n with
      | none =>
        refine ⟨.unbound n,?_⟩
        rw [outcome,slotNumber_unbound hg hv]
        rfl
      | some v =>
        obtain ⟨seen,hnum,hgood⟩ := slotNumber_ok (n := n) hg (by rw [hv]; rfl)
        have hrest : (∃ t∈ts, isDollar t)∨∃ n, Token.slot n∈ts∧b.vals.lookup n=none := by
          rcases h with ⟨u,hu,hdol⟩ | ⟨m,hm,hnone⟩
          · rcases List.mem_cons.mp hu with rfl | hu
            · cases hdol
            · exact .inl ⟨u,hu,hdol⟩
          · rcases List.mem_cons.mp hm with heq | hm
            · cases heq
              rw [hv] at hnone
              cases hnone
            · exact .inr ⟨m,hm,hnone⟩
        obtain ⟨e,he⟩ := ih (hgood.write (placeholder ((noted st.order n).idxOf n+1))) hrest
        refine ⟨e,?_⟩
        rw [outcome,hnum]
        exact he
    · have hne : ∀ n, t≠.slot n := fun n h => hslot ⟨n,h⟩
      cases hdol : isDollar t with
      | true =>
        cases t with
        | dollar tag body => exact ⟨_,rfl⟩
        | _ => cases hdol
      | false =>
        have hrest : (∃ t∈ts, isDollar t)∨∃ n, Token.slot n∈ts∧b.vals.lookup n=none := by
          rcases h with ⟨u,hu,htrue⟩ | ⟨m,hm,hnone⟩
          · rcases List.mem_cons.mp hu with rfl | hu
            · rw [hdol] at htrue
              cases htrue
            · exact .inl ⟨u,hu,htrue⟩
          · rcases List.mem_cons.mp hm with heq | hm
            · exact absurd heq.symm (hne m)
            · exact .inr ⟨m,hm,hnone⟩
        rw [outcome_other hne hdol]
        exact ih (hg.write t.text) hrest

/-- Where a slot's colon may stand, its placeholder's dollar sign may. -/
theorem ends_dollar (hends : t.Ends (some ':')) (hword : ∀ w, t≠.word w) : t.Ends (some '$') := by
  cases t with
  | word w => exact absurd rfl (hword w)
  | line v =>
    have hcolon : newline ':'=false := by decide
    have := hends ':' rfl
    rw [hcolon] at this
    cases this
  | char c =>
    intro d hd
    cases hd
    exact ⟨fun _ => by decide,fun _ => by decide,fun _ => by decide⟩
  | cast => trivial
  | dollar tag body => trivial
  | block v => trivial
  | _ =>
    intro d hd
    cases hd
    decide

/-- The placeholders do not run into what stands before or behind them. -/
theorem chained_place (order : List Text) (hchain : Chained ts) (htidy : Tidy ts) :
    Chained (ts.map (place order))∧
      ((render (ts.map (place order))).head?=(render ts).head?∨
        (∃ n us, ts=.slot n::us)∧(render (ts.map (place order))).head?=some '$') := by
  induction ts with
  | nil => exact ⟨trivial,.inl rfl⟩
  | cons t ts ih =>
    obtain ⟨hsound,hends,hchain⟩ := hchain
    obtain ⟨hrest,hhead⟩ := ih hchain htidy.tail
    by_cases hslot : ∃ n, t=.slot n
    · obtain ⟨n,rfl⟩ := hslot
      have hdigits (k : Nat) : ∀ c∈Nat.toDigits 10 k, c.isDigit :=
        fun c hc => Nat.isDigit_of_mem_toDigits (by omega) (by omega) hc
      refine ⟨⟨⟨Nat.toDigits_ne_nil,hdigits _⟩,?_,hrest⟩,.inr ⟨⟨n,ts,rfl⟩,rfl⟩⟩
      intro c hc
      rcases hhead with hh | ⟨-,hh⟩
      · rw [hh] at hc
        have := hends c hc
        simp only [identCont,Bool.or_eq_false_iff] at this
        exact this.2
      · rw [hh] at hc
        cases hc
        decide
    · have hne : ∀ n, t≠.slot n := fun n h => hslot ⟨n,h⟩
      rw [List.map_cons,place_other hne]
      refine ⟨⟨hsound,?_,hrest⟩,.inl ?_⟩
      · rcases hhead with hh | ⟨⟨n,us,rfl⟩,hh⟩
        · rw [hh]
          exact hends
        · rw [hh]
          refine ends_dollar hends fun w hw => ?_
          exact htidy.1 w n hw rfl
      · rw [render_head hsound,render_head hsound]

/-- The text with the values in the place of the slots. -/
def fillIn (b : Builder V) (ts : List Token) : List (Token⊕Option V) :=
  ts.map fun
    | .slot n => .inr (b.vals.lookup n)
    | t => .inl t

/-- The text with the arguments in the place of the placeholders. -/
def fillOut (args : List (Option V)) (ts : List Token) : List (Token⊕Option V) :=
  ts.map fun
    | .param digits => .inr (args[Nat.ofDigitChars 10 digits 0-1]?).join
    | t => .inl t

theorem fill_place {order : List Text} (horder : ∀ n, Token.slot n∈ts → n∈order)
    (hread : ∀ t∈ts, Read t) :
    fillOut (order.map fun n => b.vals.lookup n) (ts.map (place order))=fillIn b ts := by
  rw [fillOut,fillIn,List.map_map]
  apply List.map_congr_left
  intro t ht
  cases t with
  | slot n =>
    have hn := horder n ht
    have hidx : order[order.idxOf n]?=some n := List.getElem?_idxOf hn
    have hdigits : Nat.ofDigitChars 10 (Nat.toDigits 10 (order.idxOf n+1)) 0=order.idxOf n+1 :=
      Nat.ofDigitChars_ten_toDigits
    simp [place,hdigits,hidx]
  | param digits => cases hread _ ht
  | _ => rfl

/-- What the database reads of the compiled text, its arguments put in. -/
def received (b : Builder V) (sql : Text) : Option (List (Token⊕Option V)) :=
  match compile b sql with
  | .ok (out,args) => (lex out).map (fillOut args)
  | .error _ => none

theorem boundName_inj {j k : Nat} (h : boundName j=boundName k) : j=k := by
  have hdigits : Nat.toDigits 10 j=Nat.toDigits 10 k := (List.cons.inj (List.cons.inj h).2).2
  have := congrArg (fun d => Nat.ofDigitChars 10 d 0) hdigits
  simpa [Nat.ofDigitChars_ten_toDigits] using this

inductive Op (V : Type) where
  | set (name : Text) (value : V)
  | bind (value : V)

def Builder.apply (b : Builder V) : Op V → Option (Builder V)
  | .set name value => (b.set name value).map Prod.fst
  | .bind value => some (b.bind value).1

/-- The name is one that `Bind` makes up. -/
def AutoName (n : Text) : Prop := ∃ k, n=boundName (k+1)

def setTo (n : Text) : Op V → Option V
  | .set name value => if name=n then some value else none
  | .bind _ => none

def bound : Op V → Option V
  | .set _ _ => none
  | .bind value => some value

variable {ops : List (Op V)} {b' : Builder V}

theorem apply_set {name : Text} {value : V} (h : b.apply (.set name value)=some b') :
    b'=⟨b.counter,(name,value)::b.vals⟩ := by
  rw [Builder.apply,Builder.set] at h
  split at h
  · cases h
    rfl
  · cases h

theorem lookup_assigned {vals : List (Text × V)} {name : Text} {value : V} (h : n≠name) :
    ((name,value)::vals).lookup n=vals.lookup n := by
  have : (n==name)=false := by simpa using h
  rw [List.lookup_cons,this]

/-- A name of the caller's has the value it was last set to. -/
theorem run_set (hn : ¬AutoName n) (h : ops.foldlM Builder.apply b=some b') :
    b'.vals.lookup n=((ops.filterMap (setTo n)).getLast?).or (b.vals.lookup n) := by
  induction ops generalizing b with
  | nil =>
    cases h
    rfl
  | cons op ops ih =>
    rw [List.foldlM_cons] at h
    obtain ⟨b₁,hop,hrest⟩ := Option.bind_eq_some_iff.mp h
    rw [ih hrest]
    cases op with
    | set name value =>
      rw [apply_set hop]
      by_cases hname : name=n
      · subst hname
        simp [setTo,List.getLast?_cons]
      · rw [lookup_assigned (Ne.symm hname)]
        simp [setTo,hname]
    | bind value =>
      cases hop
      have hne : n≠boundName (b.counter+1) := fun heq => hn ⟨b.counter,heq⟩
      have hsame : (b.bind value).1.vals.lookup n=b.vals.lookup n := lookup_assigned hne
      rw [hsame]
      rfl

/-- No two binds share a name: the k-th holds its value. -/
theorem run_bind (hset : ∀ n v, Op.set n v∈ops → ¬AutoName n)
    (h : ops.foldlM Builder.apply b=some b') (hfree : ∀ j, b.counter < j → b.vals.lookup (boundName j)=none) :
    (∀ j, 0 < j → j≤b.counter → b'.vals.lookup (boundName j)=b.vals.lookup (boundName j))∧
      ∀ k, b'.vals.lookup (boundName (b.counter+1+k))=(ops.filterMap bound)[k]? := by
  induction ops generalizing b with
  | nil =>
    cases h
    exact ⟨fun _ _ _ => rfl,fun k => hfree _ (by omega)⟩
  | cons op ops ih =>
    rw [List.foldlM_cons] at h
    obtain ⟨b₁,hop,hrest⟩ := Option.bind_eq_some_iff.mp h
    have hset' : ∀ n v, Op.set n v∈ops → ¬AutoName n :=
      fun n v hv => hset n v (List.mem_cons_of_mem _ hv)
    cases op with
    | set name value =>
      have hname := hset name value List.mem_cons_self
      have hb := apply_set hop
      have hsame (j : Nat) (hj : 0 < j) :
          b₁.vals.lookup (boundName j)=b.vals.lookup (boundName j) := by
        rw [hb]
        apply lookup_assigned
        intro heq
        exact hname ⟨j-1,by rw [← heq,Nat.sub_add_cancel hj]⟩
      have hcounter : b₁.counter=b.counter := by rw [hb]
      obtain ⟨hold,hnew⟩ := ih hset' hrest fun j hj => by
        rw [hsame j (by omega)]
        exact hfree j (by omega)
      rw [hcounter] at hold hnew
      refine ⟨fun j hpos hj => (hold j hpos hj).trans (hsame j hpos),fun k => ?_⟩
      rw [hnew k]
      rfl
    | bind value =>
      cases hop
      have hsame (j : Nat) (hj : j≠b.counter+1) :
          (b.bind value).1.vals.lookup (boundName j)=b.vals.lookup (boundName j) :=
        lookup_assigned fun heq => hj (boundName_inj heq)
      have hself : (b.bind value).1.vals.lookup (boundName (b.counter+1))=some value :=
        List.lookup_cons_self
      have hcounter : (b.bind value).1.counter=b.counter+1 := rfl
      obtain ⟨hold,hnew⟩ := ih hset' hrest fun j hj => by
        rw [hcounter] at hj
        rw [hsame j (by omega)]
        exact hfree j (by omega)
      rw [hcounter] at hold hnew
      refine ⟨fun j hpos hj => (hold j hpos (by omega)).trans (hsame j (by omega)),fun k => ?_⟩
      cases k with
      | zero => exact (hold _ (by omega) (by omega)).trans hself
      | succ k =>
        have := hnew k
        rw [show b.counter+1+1+k=b.counter+1+(k+1) by omega] at this
        rw [this]
        rfl

theorem compile_outcome (hlex : lex s=some ts) (hread : ∀ t∈ts, Read t) (htidy : Tidy ts) :
    compile b s=(do
      let st ← outcome b ⟨[],[],[]⟩ ts
      .ok (st.out,st.order.map fun name => b.vals.lookup name)) := by
  obtain ⟨rfl,hchain⟩ := lex_iff.mp hlex
  have hrun : run b ⟨[],[],[]⟩ (render ts)=outcome b ⟨[],[],[]⟩ ts := run_render hchain hread htidy
  rw [compile,← hrun]
  rfl

theorem good_empty (b : Builder V) : Good b ⟨[],[],[]⟩ := ⟨List.nodup_nil,by simp,by simp⟩

theorem compile_ok (hlex : lex s=some ts) (hread : ∀ t∈ts, Read t) (htidy : Tidy ts)
    (hdollar : ∀ t∈ts, isDollar t=false)
    (hbound : ∀ n, Token.slot n∈ts → (b.vals.lookup n).isSome) :
    compile b s=.ok (render (ts.map (place (extend [] ts))),
      (extend [] ts).map fun n => b.vals.lookup n) := by
  obtain ⟨seen,hout⟩ := outcome_ok (good_empty b) hdollar hbound
  rw [compile_outcome hlex hread htidy,hout]
  rfl

/-- Compiling refuses a dollar quote and a name that is not bound. Else each slot becomes the
placeholder of its name's one argument and all else stays, so that the arguments in the compiled
text are the values in the text; names of the caller's hold what they were last set to. -/
theorem compile_slots (hops : ops.foldlM Builder.apply Builder.new=some b) (hlex : lex s=some ts)
    (hread : ∀ t∈ts, Read t) (htidy : Tidy ts) :
    ((∃ e, compile b s=.error e) ↔
        (∃ t∈ts, isDollar t)∨∃ n, Token.slot n∈ts∧b.vals.lookup n=none)∧
      (∀ out args, compile b s=.ok (out,args) → ∃ order : List Text, order.Nodup∧
        (∀ n, n∈order ↔ Token.slot n∈ts)∧args=order.map (fun n => b.vals.lookup n)∧
        lex out=some (ts.map (place order))∧received b s=some (fillIn b ts))∧
      (∀ n, ¬AutoName n → b.vals.lookup n=(ops.filterMap (setTo n)).getLast?)∧
      ((∀ n v, Op.set n v∈ops → ¬AutoName n) →
        ∀ k, b.vals.lookup (boundName (k+1))=(ops.filterMap bound)[k]?) := by
  have herror : (∃ t∈ts, isDollar t)∨(∃ n, Token.slot n∈ts∧b.vals.lookup n=none) →
      ∃ e, compile b s=.error e := by
    intro h
    obtain ⟨e,he⟩ := outcome_error (good_empty b) h
    exact ⟨e,by rw [compile_outcome hlex hread htidy,he]; rfl⟩
  have hclear : ¬((∃ t∈ts, isDollar t)∨∃ n, Token.slot n∈ts∧b.vals.lookup n=none) →
      compile b s=.ok (render (ts.map (place (extend [] ts))),
        (extend [] ts).map fun n => b.vals.lookup n) := by
    intro h
    apply compile_ok hlex hread htidy
    · intro t ht
      by_contra hcon
      exact h (.inl ⟨t,ht,by simpa using hcon⟩)
    · intro n hn
      by_contra hcon
      exact h (.inr ⟨n,hn,Option.not_isSome_iff_eq_none.mp hcon⟩)
  refine ⟨⟨?_,herror⟩,?_,?_,?_⟩
  · rintro ⟨e,he⟩
    by_contra hcon
    rw [hclear hcon] at he
    cases he
  · intro out args hok
    have hno : ¬((∃ t∈ts, isDollar t)∨∃ n, Token.slot n∈ts∧b.vals.lookup n=none) := by
      intro h
      obtain ⟨e,he⟩ := herror h
      rw [hok] at he
      cases he
    obtain ⟨-,hchain⟩ := lex_iff.mp hlex
    have hmem (n : Text) : n∈extend [] ts ↔ Token.slot n∈ts := by
      rw [mem_extend]
      simp
    have hout : lex (render (ts.map (place (extend [] ts))))=some (ts.map (place (extend [] ts))) :=
      lex_iff.mpr ⟨rfl,(chained_place _ hchain htidy).1⟩
    have hfill := fill_place (fun n hn => (hmem n).mpr hn) hread (b := b)
    refine ⟨extend [] ts,extend_nodup List.nodup_nil ts,hmem,?_,?_,?_⟩
    · rw [hclear hno] at hok
      cases hok
      rfl
    · rw [hclear hno] at hok
      cases hok
      exact hout
    · rw [received,hclear hno]
      simp only [hout,Option.map_some,hfill]
  · intro n hn
    rw [run_set hn hops]
    simp [Builder.new]
  · intro hset k
    have := (run_bind hset hops (by simp [Builder.new])).2 k
    rwa [show (Builder.new : Builder V).counter+1+k=k+1 by simp [Builder.new]; omega] at this

/-- One name twice, and a literal that shows it. -/
theorem compile_slots_twice :
    ∃ order : List Text, order.Nodup∧
      (∀ n, n∈order ↔ Token.slot n∈[.slot ['a'],.quoted [ ':','a'],.slot ['a']])∧
      [some 1]=order.map (fun n => (⟨0,[(['a'],1)]⟩ : Builder Nat).vals.lookup n)∧
      lex (['$','1',quote,':','a',quote,'$','1'])=
        some ([Token.slot ['a'],.quoted [ ':','a'],.slot ['a']].map (place order))∧
      received (⟨0,[(['a'],1)]⟩ : Builder Nat) [ ':','a',quote,':','a',quote,':','a']=
        some (fillIn ⟨0,[(['a'],1)]⟩ [.slot ['a'],.quoted [ ':','a'],.slot ['a']]) :=
  (compile_slots (b := ⟨0,[(['a'],1)]⟩)
    (show [Op.set ['a'] 1].foldlM Builder.apply Builder.new=some ⟨0,[(['a'],1)]⟩ from rfl)
    (s := [ ':','a',quote,':','a',quote,':','a']) (by decide) (by simp [Read])
    (by simp [Tidy])).2.1 _ _ (by rfl)

/-- The text is compiled, and the database reads the values where the slots stood. -/
def Faithful (b : Builder V) (sql : Text) : Prop :=
  ∀ ts, lex sql=some ts → (∀ n, Token.slot n∈ts → (b.vals.lookup n).isSome) →
    received b sql=some (fillIn b ts)

theorem not_faithful (ts : List Token) (hlex : lex s=some ts)
    (hbound : ∀ t∈ts, ∀ n, t=.slot n → (b.vals.lookup n).isSome)
    (hbad : received b s≠some (fillIn b ts)) : ¬Faithful b s :=
  fun h => hbad (h ts hlex fun n hn => hbound _ hn n rfl)

/-- A name in a nested comment, one behind an escaped quote, a comment that a carriage return ends, a
dollar quote (refused, or missed for its tag), a placeholder of the text's own, a slot at the end of
an identifier, an identifier that reads as a dollar quote; and a name of the caller's that the first
bind takes. -/
theorem slots_confused :
    ¬Faithful (⟨0,[(['a'],1)]⟩ : Builder Nat)
        ['/','*','/','*','*','/',':','a','*','/']∧
      ¬Faithful (⟨0,[(['a'],1)]⟩ : Builder Nat) ['E',quote,backslash,quote,':','a',quote]∧
      ¬Faithful (⟨0,[(['a'],1)]⟩ : Builder Nat) ['-','-','\r',':','a']∧
      ¬Faithful (⟨0,[(['a'],1)]⟩ : Builder Nat) ['$','$',':','a','$','$']∧
      ¬Faithful (⟨0,[(['a'],1)]⟩ : Builder Nat) ['$','é','$',':','a','$','é','$']∧
      ¬Faithful (⟨0,[(['a'],1)]⟩ : Builder Nat) ['$','1',':','a']∧
      ¬Faithful (⟨0,[(['a'],1)]⟩ : Builder Nat) ['x',':','a']∧
      ¬Faithful (⟨0,[(['a'],1)]⟩ : Builder Nat) ['x','$','$']∧
      ([.set (boundName 1) 1,.bind 2].foldlM Builder.apply (Builder.new : Builder Nat)).map
        (fun b => b.vals.lookup (boundName 1))=some (some 2) := by
  refine ⟨not_faithful [.block ['/','*','*','/',':','a','*','/']] ?_ ?_ ?_,
    not_faithful [.escaped 'E' [.behind quote,.plain ':',.plain 'a']] ?_ ?_ ?_,
    not_faithful [.line [],.char '\r',.slot ['a']] ?_ ?_ ?_,
    not_faithful [.dollar [] [ ':','a']] ?_ ?_ ?_,
    not_faithful [.dollar ['é'] [ ':','a']] ?_ ?_ ?_,
    not_faithful [.param ['1'],.slot ['a']] ?_ ?_ ?_,
    not_faithful [.word ['x'],.slot ['a']] ?_ ?_ ?_,
    not_faithful [.word ['x','$','$']] ?_ ?_ ?_,rfl⟩
  all_goals first | decide | simp

end Kitp.NamedSlots
