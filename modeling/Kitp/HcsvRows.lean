import Kitp.Hcsv

/-! Rows of quoted cells: the printed row is read back, and it is gathered whole. -/
namespace Kitp.Hcsv
open Kitp.Quoting Kitp.TextNorm Kitp.Trimming

variable {q c : Char} {s r b o p u v cell : Text} {row cells : List Text}

/-- A cell in backticks where it is marked so, else in quotes. -/
def printCell (s : Text) : Text :=
  if backtickPrefix.isPrefixOf s then
    backtick::(double backtick (s.drop backtickPrefix.length)++[backtick])
  else quote::(double quote s++[quote])

def printRow : List Text → Text
  | [] => []
  | [s] => printCell s
  | s::row => printCell s++ ','::printRow row

theorem mark_facts : (isBlank quote=false∧isBlank backtick=false)∧backtick≠quote∧
    (quote≠ '\n'∧backtick≠ '\n')∧isBlank ','=false∧(','≠quote∧ ','≠backtick) := by decide

theorem balance_quoted_cons (q c : Char) (s : Text) : balance (.quoted q) (c::s)=
    if c=q then if s.head?=some q then balance (.quoted q) s.tail
      else balance .cellStart (s.dropWhile isBlank)
    else balance (.quoted q) s := by rw [balance]

theorem balance_start_cons (c : Char) (s : Text) : balance .cellStart (c::s)=
    if isBlank c then balance .cellStart s
    else if c=quote then balance (.quoted quote) s
    else if c=backtick then balance (.quoted backtick) s
    else if c = ','∨c = '\n' then balance .cellStart s
    else balance .bare s := by rw [balance]

theorem balance_bare_cons (c : Char) (s : Text) : balance .bare (c::s)=
    if c = ','∨c = '\n' then balance .cellStart s else balance .bare s := by rw [balance]

theorem balance_nil (st : CellState) : balance st []=st := by rw [balance]

theorem balance_blanks (s : Text) : balance .cellStart (s.dropWhile isBlank)=balance .cellStart s := by
  induction s with
  | nil => rfl
  | cons c s ih =>
    rw [List.dropWhile_cons,balance_start_cons]
    split
    · exact ih
    · rw [balance_start_cons]
      simp_all

/-- The balance of an open cell goes by what reading the cell gives. -/
theorem balance_read (h : readQuoted q s=some (b,o)) :
    balance (.quoted q) s=balance .cellStart o := by
  fun_induction readQuoted q s generalizing b with
  | case1 => cases h
  | case2 =>
    cases h
    rw [balance_quoted_cons]
    simp
  | case3 r ih =>
    obtain ⟨⟨b',o'⟩,hr,heq⟩ := Option.map_eq_some_iff.mp h
    cases heq
    rw [balance_quoted_cons]
    simp [ih hr]
  | case4 d r hd =>
    cases h
    rw [balance_quoted_cons]
    simp [hd,balance_blanks]
  | case5 c s hc ih =>
    obtain ⟨⟨b',o'⟩,hr,heq⟩ := Option.map_eq_some_iff.mp h
    cases heq
    rw [balance_quoted_cons,if_neg hc]
    exact ih hr

theorem balance_unread (h : readQuoted q s=none) : balance (.quoted q) s=.quoted q := by
  fun_induction readQuoted q s with
  | case1 => exact balance_nil _
  | case2 => cases h
  | case3 r ih =>
    rw [balance_quoted_cons]
    simp [ih (Option.map_eq_none_iff.mp h)]
  | case4 d r hd => cases h
  | case5 c s hc ih =>
    rw [balance_quoted_cons,if_neg hc]
    exact ih (Option.map_eq_none_iff.mp h)

def delimits (c : Char) : Bool := c = ','||c = '\n'

theorem balance_bare (s : Text) : balance .bare s=
    match s.dropWhile (!delimits ·) with
    | [] => .bare
    | _::r => balance .cellStart r := by
  induction s with
  | nil => exact balance_nil _
  | cons c s ih =>
    rw [balance_bare_cons,List.dropWhile_cons]
    by_cases hc : c = ','∨c = '\n'
    · have hd : delimits c := by simpa [delimits] using hc
      simp [hc,hd]
    · have hd : delimits c=false := by simpa [delimits] using hc
      simp only [hc,hd,if_false,Bool.not_false,if_true]
      exact ih

/-- White space opens no cell. -/
theorem balance_spaces (hs : ∀ c∈s, isSpace c) :
    balance .cellStart s=.cellStart∨balance .cellStart s=.bare := by
  have hmark : isSpace quote=false∧isSpace backtick=false := by decide
  have hboth : ∀ st, st=.cellStart∨st=.bare → balance st s=.cellStart∨balance st s=.bare := by
    induction s with
    | nil =>
      intro st hst
      rw [balance_nil]
      exact hst
    | cons c s ih =>
      have ih := ih fun d hd => hs d (List.mem_cons_of_mem _ hd)
      have hc := hs c List.mem_cons_self
      have hq : c≠quote := by
        rintro rfl
        rw [hmark.1] at hc
        cases hc
      have hb : c≠backtick := by
        rintro rfl
        rw [hmark.2] at hc
        cases hc
      rintro st (rfl | rfl)
      · rw [balance_start_cons,if_neg hq,if_neg hb]
        split
        · exact ih _ (.inl rfl)
        split
        · exact ih _ (.inl rfl)
        · exact ih _ (.inr rfl)
      · rw [balance_bare_cons]
        split
        · exact ih _ (.inl rfl)
        · exact ih _ (.inr rfl)
  exact hboth _ (.inl rfl)

theorem delimits_iff (c : Char) : delimits c ↔ c = ','∨c = '\n' := by simp [delimits]

theorem delimits_start (hc : delimits c) (s : Text) :
    balance .cellStart (c::s)=balance .cellStart s := by
  have hplain : isBlank c=false∧c≠quote∧c≠backtick := by
    rcases (delimits_iff c).mp hc with rfl | rfl
    · decide
    · decide
  rw [balance_start_cons,hplain.1,if_neg Bool.false_ne_true,if_neg hplain.2.1,if_neg hplain.2.2,
    if_pos ((delimits_iff c).mp hc)]

theorem bareCell_rest (s : Text) : (bareCell s).2=s.dropWhile (!delimits ·) := by
  have : (fun c : Char => decide (c≠ ',')&&decide (c≠ '\n'))=fun c => !delimits c := by
    funext c
    simp [delimits]
  rw [bareCell,this]

theorem blank_stop (hc : isBlank c=false) (s : Text) : (c::s).dropWhile isBlank=c::s := by
  rw [List.dropWhile_cons,hc,if_neg Bool.false_ne_true]

theorem delimits_blank (hc : delimits c) : isBlank c=false := by
  rcases (delimits_iff c).mp hc with rfl | rfl
  · decide
  · decide

/-- The row behind a cell: it ends, or goes on behind a delimiter. -/
def Behind (s r : Text) : Prop :=
  (r.dropWhile isBlank=[] → ∀ q, balance .cellStart s≠.quoted q)∧
    ∀ d t, r.dropWhile isBlank=d::t → delimits d → balance .cellStart s=balance .cellStart t

theorem behind_start (h : balance .cellStart s=balance .cellStart r) : Behind s r := by
  rw [← balance_blanks r] at h
  constructor
  · intro hr q
    rw [h,hr,balance_nil]
    simp
  · intro d t hr hd
    rw [h,hr,delimits_start hd]

theorem behind_bare (hc : isBlank c=false) (hq : c≠quote) (hb : c≠backtick) (u : Text) :
    Behind (c::u) (bareCell (c::u)).2 := by
  rw [bareCell_rest]
  by_cases hd : delimits c
  · rw [List.dropWhile_cons,hd]
    exact behind_start rfl
  · have hd' : delimits c=false := by simpa using hd
    have hbare : balance .cellStart (c::u)=balance .bare u := by
      rw [balance_start_cons,hc,if_neg Bool.false_ne_true,if_neg hq,if_neg hb,if_neg]
      rwa [← delimits_iff]
    have hstop := span_stop (!delimits ·) u
    rw [List.dropWhile_cons,hd',Behind,hbare,balance_bare]
    cases hu : u.dropWhile (!delimits ·) with
    | nil => simp
    | cons e t =>
      rw [hu] at hstop
      have he : delimits e := by simpa using hstop e rfl
      simp only [Bool.not_false,if_true,blank_stop (delimits_blank he)]
      constructor
      · exact fun h => by cases h
      · intro d t' h _
        cases h
        rfl

theorem parseCell_behind (h : parseCell s=.ok (cell,r)) : Behind s r := by
  have hsame := balance_blanks s
  have hstop := span_stop isBlank s
  rw [parseCell] at h
  cases hs : s.dropWhile isBlank with
  | nil =>
    simp only [hs] at h
    cases h
    rw [hs] at hsame
    exact behind_start hsame.symm
  | cons c u =>
    simp only [hs] at h
    rw [hs] at hsame hstop
    have hblank := hstop c rfl
    split at h
    · rename_i hc
      split at h
      · cases h
      · rename_i hr
        cases h
        apply behind_start
        rw [← hsame,balance_start_cons,hblank,if_neg Bool.false_ne_true,if_pos hc]
        exact balance_read hr
    split at h
    · rename_i hc' hc
      split at h
      · cases h
      · rename_i hr
        cases h
        apply behind_start
        rw [← hsame,balance_start_cons,hblank,if_neg Bool.false_ne_true,if_neg hc',if_pos hc]
        exact balance_read hr
    · rename_i hq hb
      have hbare := behind_bare hblank hq hb u
      cases h
      rw [Behind,hsame] at hbare
      exact hbare

theorem parseCell_open {e : RowError} (h : parseCell s=.error e) :
    e=.unterminated∧∃ q, balance .cellStart s=.quoted q := by
  have hsame := balance_blanks s
  have hstop := span_stop isBlank s
  rw [parseCell] at h
  cases hs : s.dropWhile isBlank with
  | nil =>
    simp only [hs] at h
    cases h
  | cons c u =>
    simp only [hs] at h
    rw [hs] at hsame hstop
    have hblank := hstop c rfl
    split at h
    · rename_i hc
      split at h
      · rename_i hr
        cases h
        refine ⟨rfl,quote,?_⟩
        rw [← hsame,balance_start_cons,hblank,if_neg Bool.false_ne_true,if_pos hc]
        exact balance_unread hr
      · cases h
    split at h
    · rename_i hc' hc
      split at h
      · rename_i hr
        cases h
        refine ⟨rfl,backtick,?_⟩
        rw [← hsame,balance_start_cons,hblank,if_neg Bool.false_ne_true,if_neg hc',if_pos hc]
        exact balance_unread hr
      · cases h
    · cases h

/-- The two scanners agree on every text: what is parsed was balanced, and what is left open was
not. -/
theorem parseRow_balanced (s : Text) :
    (∀ cells, parseRow s=.ok cells → ∀ q, balance .cellStart s≠.quoted q)∧
      (parseRow s=.error .unterminated → ∃ q, balance .cellStart s=.quoted q) := by
  fun_induction parseRow s with
  | case1 s e he =>
    constructor
    · intro cells h
      cases h
    · exact fun _ => (parseCell_open he).2
  | case2 s cell r hcell hrest =>
    constructor
    · exact fun _ _ => (parseCell_behind hcell).1 hrest
    · intro h
      cases h
  | case3 s cell r hcell rest hextra hrest =>
    constructor
    · intro cells h
      cases h
    · intro h
      cases h
  | case4 s cell r hcell rest hextra hrest =>
    constructor
    · intro _ _ q
      rw [(parseCell_behind hcell).2 _ rest hrest (by decide)]
      have hspaces := all_of_trim (not_not.mp hextra)
      rcases balance_spaces hspaces with h | h
      · simp [h]
      · simp [h]
    · intro h
      cases h
  | case5 s cell r hcell c rest hrest hline hcomma =>
    constructor
    · intro cells h
      cases h
    · intro h
      cases h
  | case6 s cell r hcell c rest hrest hline hcomma ih =>
    have hc : delimits c := by simp [delimits,not_not.mp hcomma]
    rw [(parseCell_behind hcell).2 c rest hrest hc]
    cases hrow : parseRow rest with
    | error e =>
      rw [hrow] at ih
      constructor
      · intro cells h
        cases h
      · intro h
        cases h
        exact ih.2 rfl
    | ok cells =>
      rw [hrow] at ih
      constructor
      · exact fun _ _ => ih.1 cells rfl
      · intro h
        cases h

theorem rowBalanced_of_ok (h : parseRow s=.ok cells) : rowBalanced s := by
  have hnot := (parseRow_balanced s).1 cells h
  rw [rowBalanced]
  split
  · rename_i hq
    exact absurd hq (hnot _)
  · rfl

theorem rowBalanced_of_open (h : parseRow s=.error .unterminated) : rowBalanced s=false := by
  obtain ⟨q,hq⟩ := (parseRow_balanced s).2 h
  rw [rowBalanced,hq]

/-! What is printed. -/

/-- The mark a cell is printed in. -/
def mark (s : Text) : Char := if backtickPrefix.isPrefixOf s then backtick else quote

def body (s : Text) : Text :=
  if backtickPrefix.isPrefixOf s then s.drop backtickPrefix.length else s

theorem printCell_eq (s : Text) : printCell s=mark s::(double (mark s) (body s)++[mark s]) := by
  rw [printCell,mark,body]
  split <;> rfl

theorem mark_cases (s : Text) : mark s=quote∨mark s=backtick := by
  rw [mark]
  split
  · exact .inr rfl
  · exact .inl rfl

theorem parseCell_some (h : readQuoted (mark s) u=some (b,o)) : parseCell (mark s::u)=
    .ok (if backtickPrefix.isPrefixOf s then backtickPrefix++b else b,o) := by
  rw [parseCell]
  by_cases hs : backtickPrefix.isPrefixOf s
  · have hm : mark s=backtick := if_pos hs
    rw [hm] at h
    rw [hm,blank_stop mark_facts.1.2]
    simp only [mark_facts.2.1,if_false,if_true,hs,h]
  · have hm : mark s=quote := if_neg hs
    rw [hm] at h
    rw [hm,blank_stop mark_facts.1.1]
    simp only [if_true,hs,h]
    rfl

theorem parseCell_none (h : readQuoted (mark s) u=none) :
    parseCell (mark s::u)=.error .unterminated := by
  rw [parseCell]
  rcases mark_cases s with hm | hm
  · rw [hm] at h
    rw [hm,blank_stop mark_facts.1.1]
    simp only [if_true,h]
  · rw [hm] at h
    rw [hm,blank_stop mark_facts.1.2]
    simp only [mark_facts.2.1,if_false,if_true,h]

/-- A printed cell is read back. -/
theorem parseCell_print (hr : ∀ c∈r.head?, c = ',') (s : Text) :
    parseCell (printCell s++r)=.ok (s,r) := by
  have hstop : ∀ c∈r.head?, c≠mark s := by
    intro c hc
    rw [hr c hc]
    rcases mark_cases s with h | h
    · rw [h]
      exact mark_facts.2.2.2.2.1
    · rw [h]
      exact mark_facts.2.2.2.2.2
  have htext : printCell s++r=mark s::(double (mark s) (body s)++mark s::r) := by
    rw [printCell_eq]
    simp
  rw [htext,parseCell_some (readQuoted_double hstop _)]
  by_cases hs : backtickPrefix.isPrefixOf s
  · obtain ⟨t,ht⟩ := List.isPrefixOf_iff_prefix.mp hs
    simp only [hs,if_true,body]
    rw [← ht,List.drop_left]
  · simp only [hs,body]
    rfl

theorem parseRow_error {e : RowError} (h : parseCell s=.error e) : parseRow s=.error e := by
  rw [parseRow]
  split
  · rename_i he
    rw [h] at he
    cases he
    rfl
  · rename_i he
    rw [h] at he
    cases he

theorem parseRow_end (h : parseCell s=.ok (cell,r)) (hr : r.dropWhile isBlank=[]) :
    parseRow s=.ok [cell] := by
  rw [parseRow]
  split
  · rename_i he
    rw [h] at he
    cases he
  · rename_i he
    rw [h] at he
    cases he
    split
    · rfl
    · rename_i hc
      rw [hr] at hc
      cases hc

theorem parseRow_comma (h : parseCell s=.ok (cell,r)) (hr : r.dropWhile isBlank = ','::p) :
    parseRow s=(parseRow p).map (cell::·) := by
  rw [parseRow]
  split
  · rename_i he
    rw [h] at he
    cases he
  · rename_i he
    rw [h] at he
    cases he
    split
    · rename_i hc
      rw [hr] at hc
      cases hc
    · rename_i hc
      rw [hr] at hc
      cases hc
      rfl

theorem printRow_cons (s : Text) (row : List Text) :
    printRow (s::row)=printCell s++if row=[] then [] else ','::printRow row := by
  cases row with
  | nil => simp [printRow]
  | cons t row => simp [printRow]

theorem parseRow_print (hrow : row≠[]) : parseRow (printRow row)=.ok row := by
  induction row with
  | nil => exact absurd rfl hrow
  | cons s row ih =>
    rw [printRow_cons]
    by_cases hnil : row=[]
    · subst hnil
      exact parseRow_end (parseCell_print (by simp) s) rfl
    · have hcell := parseCell_print (r := ','::printRow row) (by simp) s
      have hcomma : (','::printRow row).dropWhile isBlank = ','::printRow row :=
        blank_stop mark_facts.2.2.2.1 _
      rw [if_neg hnil,parseRow_comma hcell hcomma,ih hnil]
      rfl

theorem cons_cut {d : Char} (hd : d≠ '\n') (h : d::v=p++ '\n'::u) :
    ∃ p', p=d::p'∧v=p'++ '\n'::u := by
  cases p with
  | nil => exact absurd (List.cons.inj h).1 hd
  | cons e p =>
    obtain ⟨he,hv⟩ := List.cons.inj h
    exact ⟨p,by rw [he],hv⟩

theorem readQuoted_cut (hq : q≠ '\n') (h : double q b=p++ '\n'::u) : readQuoted q p=none := by
  induction b generalizing p with
  | nil =>
    have := congrArg List.length h
    simp [double] at this
  | cons c b ih =>
    by_cases hc : c=q
    · rw [double,if_pos hc] at h
      obtain ⟨p₁,rfl,h₁⟩ := cons_cut hq h
      obtain ⟨p₂,rfl,h₂⟩ := cons_cut hq h₁
      rw [readQuoted.eq_def]
      simp [ih h₂]
    · rw [double,if_neg hc] at h
      cases p with
      | nil => rfl
      | cons d p =>
        obtain ⟨hd,h₁⟩ := List.cons.inj h
        rw [readQuoted.eq_def]
        simp [← hd,hc,ih h₁]

/-- A line break in a printed row is in a cell: the row up to it is open. -/
theorem parseRow_cut (h : printRow row=p++ '\n'::u) : parseRow p=.error .unterminated := by
  induction row generalizing p with
  | nil =>
    have := congrArg List.length h
    simp [printRow] at this
  | cons s row ih =>
    have hmark : mark s≠ '\n' := by
      rcases mark_cases s with hm | hm
      · rw [hm]
        exact mark_facts.2.2.1.1
      · rw [hm]
        exact mark_facts.2.2.1.2
    rw [printRow_cons] at h
    have htext : printCell s++(if row=[] then [] else ','::printRow row)=
        mark s::(double (mark s) (body s)++mark s::if row=[] then [] else ','::printRow row) := by
      rw [printCell_eq]
      simp
    rw [htext] at h
    obtain ⟨p₁,rfl,h₁⟩ := cons_cut hmark h
    rcases List.append_eq_append_iff.mp h₁ with ⟨v,hp,hv⟩ | ⟨v,hd,hv⟩
    · -- the line break is behind the cell
      obtain ⟨v₁,rfl,h₂⟩ := cons_cut hmark hv
      by_cases hnil : row=[]
      · rw [if_pos hnil] at h₂
        have := congrArg List.length h₂
        simp at this
      · rw [if_neg hnil] at h₂
        obtain ⟨v₂,rfl,h₃⟩ := cons_cut (by decide) h₂
        have hcell := parseCell_print (r := ','::v₂) (by simp) s
        have hcomma : (','::v₂).dropWhile isBlank = ','::v₂ := blank_stop mark_facts.2.2.2.1 _
        have hall : mark s::p₁=printCell s++ ','::v₂ := by
          rw [hp,printCell_eq]
          simp
        rw [hall,parseRow_comma hcell hcomma,ih h₃]
        rfl
    · cases v with
      | nil =>
        have := List.cons.inj hv
        exact absurd this.1.symm hmark
      | cons e v =>
        have he : e = '\n' := (List.cons.inj hv).1.symm
        rw [he] at hd
        exact parseRow_error (parseCell_none (readQuoted_cut hmark hd))

end Kitp.Hcsv
