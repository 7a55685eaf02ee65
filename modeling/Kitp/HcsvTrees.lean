import Kitp.HcsvHeadings
import Kitp.HcsvRows

/-! The tree of a document: what is printed is parsed to the same tree. -/
namespace Kitp.Hcsv
open Kitp.Quoting Kitp.TextNorm Kitp.Trimming

variable {idx depth line k j : Nat} {kind name s p u : Text} {mods : List (Text × Text)}
  {row : List Text} {rows : List (List Text)} {header : Option (List Text)} {cur sec : Section}
  {children stack base : List Section} {ls rest : List Text}

/-- What holds of a section when it holds of its children holds of every one. -/
theorem Section.induct {P : Section → Prop}
    (h : ∀ depth kind name mods header rows children line, (∀ c∈children, P c) →
      P (.mk depth kind name mods header rows children line)) (s : Section) : P s :=
  @Section.rec P (fun cs => ∀ c∈cs, P c)
    (fun depth kind name mods header rows children line ih =>
      h depth kind name mods header rows children line ih)
    (fun _ hc => absurd hc List.not_mem_nil)
    (fun _ _ hs hcs _ hc => (List.mem_cons.mp hc).elim (fun heq => heq ▸ hs) (hcs _)) s

/-! The section without the lines it was read from. -/
mutual

def Section.forget : Section → Section
  | .mk depth kind name modifiers header rows children _ =>
    .mk depth kind name modifiers header rows (forgetAll children) 0

def forgetAll : List Section → List Section
  | [] => []
  | s::ss => s.forget::forgetAll ss

end

/-! The headings and rows that are printed, one text each. -/
mutual

def Section.chunks : Section → List Text
  | .mk depth kind name modifiers header rows children _ =>
    printHeading depth kind name modifiers::
      ((header.toList++rows).map printRow++chunksOf children)

def chunksOf : List Section → List Text
  | [] => []
  | s::ss => s.chunks++chunksOf ss

end

def print (s : Section) : Text := s.chunks.flatMap (·++['\n'])

/-! A heading that can be said, a header before the rows, no empty row; the children are deeper, and
none is deeper than the one before it. -/
mutual

def Section.Printable : Section → Prop
  | .mk depth kind name modifiers header rows children _ =>
    0 < depth∧Sayable kind name modifiers∧(header=none → rows=[])∧
      (∀ row∈header.toList++rows, row≠[])∧(∀ c∈children, depth < c.depth)∧
      children.Pairwise (fun c d => d.depth ≤ c.depth)∧AllPrintable children

def AllPrintable : List Section → Prop
  | [] => True
  | s::ss => s.Printable∧AllPrintable ss

end

theorem forgetAll_eq (ss : List Section) : forgetAll ss=ss.map Section.forget := by
  induction ss with
  | nil => rfl
  | cons s ss ih => rw [forgetAll,ih,List.map_cons]

theorem chunksOf_eq (ss : List Section) : chunksOf ss=ss.flatMap Section.chunks := by
  induction ss with
  | nil => rfl
  | cons s ss ih => rw [chunksOf,ih,List.flatMap_cons]

theorem allPrintable_iff (ss : List Section) : AllPrintable ss ↔ ∀ s∈ss, s.Printable := by
  induction ss with
  | nil => simp [AllPrintable]
  | cons s ss ih => rw [AllPrintable,ih,List.forall_mem_cons]

@[simp] theorem depth_forget (s : Section) : s.forget.depth=s.depth := by
  cases s
  rfl

@[simp] theorem depth_addChild (s t : Section) : (s.addChild t).depth=s.depth := by
  cases s
  rfl

@[simp] theorem forget_addChild (s t : Section) :
    (s.addChild t).forget=s.forget.addChild t.forget := by
  cases s
  simp [Section.addChild,Section.forget,forgetAll_eq]

/-! Closing sections. -/

theorem popTo_forget (k : Nat) (stack : List Section) :
    (popTo k stack).map Section.forget=popTo k (stack.map Section.forget) := by
  fun_induction popTo k stack with
  | case1 => simp [popTo]
  | case2 s hs => simp [popTo,hs]
  | case3 s hs => simp [popTo,hs]
  | case4 s p stack hs ih =>
    rw [ih]
    simp [popTo,hs]
  | case5 s p stack hs => simp [popTo,hs]

theorem popTo_stays (h : sec.depth < k) (base : List Section) : popTo k (sec::base)=sec::base := by
  have hnot : ¬sec.depth≥k := by omega
  cases base with
  | nil => rw [popTo,if_neg hnot]
  | cons p base => rw [popTo,if_neg hnot]

theorem popTo_closes (h : k ≤ sec.depth) (hcur : cur.depth < k) (base : List Section) :
    popTo k (sec::cur::base)=cur.addChild sec::base := by
  rw [popTo,if_pos h]
  exact popTo_stays (by rw [depth_addChild]; exact hcur) base

theorem popTo_popTo (hk : k ≤ j) (stack : List Section) : popTo k (popTo j stack)=popTo k stack := by
  fun_induction popTo j stack with
  | case1 => rfl
  | case2 s hs =>
    have : s.depth≥k := by omega
    simp [popTo,this]
  | case3 s hs => rfl
  | case4 s p stack hs ih =>
    have : s.depth≥k := by omega
    rw [ih,popTo.eq_3 k s,if_pos this]
  | case5 s p stack hs => rfl

theorem closeAll_popTo (h : popTo k stack≠[]) : closeAll (popTo k stack)=closeAll stack := by
  fun_induction popTo k stack with
  | case1 => rfl
  | case2 s hs => exact absurd rfl h
  | case3 s hs => rfl
  | case4 s p stack hs ih => rw [ih h,closeAll.eq_3]
  | case5 s p stack hs => rfl

theorem closeAll_forget (stack : List Section) :
    (closeAll stack).map Section.forget=closeAll (stack.map Section.forget) := by
  fun_induction closeAll stack with
  | case1 => simp [closeAll]
  | case2 s => simp [closeAll]
  | case3 s p stack ih =>
    rw [ih]
    simp [closeAll]

/-! Reading the lines of one text. -/

theorem scan_heading (h : Sayable kind name mods) (hd : 0 < depth)
    (hattach : attach (idx+1) (.mk depth kind name mods none [] [] (idx+1)) stack=.ok base) :
    scan idx stack (printHeading depth kind name mods::rest)=scan (idx+1) base rest := by
  obtain ⟨-,hstrip,htrim⟩ := printHeading_line h hd
  rw [scan.eq_def]
  simp only [hstrip,if_neg htrim,parseHeading_print h hd,makeHeadingSection_print h,hattach]

/-- The lines of a printed row are gathered up to its end. -/
theorem gather_row (hopen : ∀ p u, s=p++ '\n'::u → rowBalanced p=false) (hs : rowBalanced s)
    (hjoin : s=p++ls.flatMap ('\n'::·)) : gather p (ls++rest)=(s,rest) := by
  induction ls generalizing p with
  | nil =>
    have hp : p=s := by simp [hjoin]
    cases rest with
    | nil => rw [List.append_nil,gather,hp]
    | cons l rest => rw [List.nil_append,gather,hp,if_pos hs]
  | cons l ls ih =>
    have hcut : s=p++ '\n'::(l++ls.flatMap ('\n'::·)) := by rw [hjoin]; simp
    rw [List.cons_append,gather,hopen p _ hcut,if_neg Bool.false_ne_true]
    exact ih (by rw [hjoin]; simp)

theorem splitOn_lines (s : Text) :
    ∃ l ls, s.splitOn '\n'=l::ls∧s=l++ls.flatMap ('\n'::·) := by
  have hjoin : ['\n'].intercalate (s.splitOn '\n')=s := List.intercalate_splitOn '\n'
  have hflat (l : Text) (ls : List Text) :
      ['\n'].intercalate (l::ls)=l++ls.flatMap ('\n'::·) := by
    induction ls generalizing l with
    | nil => simp [List.intercalate]
    | cons m ls ih => rw [List.intercalate_cons_cons,ih]; simp
  cases hs : s.splitOn '\n' with
  | nil => exact absurd hs (List.splitOn_ne_nil _ _)
  | cons l ls =>
    rw [hs,hflat] at hjoin
    exact ⟨l,ls,rfl,hjoin.symm⟩

theorem row_first (hrow : row≠[]) : ∃ s u, printRow row=mark s::u := by
  cases row with
  | nil => exact absurd rfl hrow
  | cons s row =>
    rw [printRow_cons,printCell_eq]
    exact ⟨s,_,rfl⟩

/-- A line that begins with a cell's mark is no comment, no blank line and no heading. -/
theorem marked_line (s u : Text) : stripComment (mark s::u)=mark s::u∧
    trim isSpace (mark s::u)≠[]∧parseHeading (mark s::u)=none := by
  have hfacts : ∀ m, m=quote∨m=backtick →
      isBlank m=false∧isSpace m=false∧m≠ '-'∧m≠ '#' := by
    rintro m (rfl | rfl)
    · decide
    · decide
  obtain ⟨hblank,hspace,hdash,hhash⟩ := hfacts _ (mark_cases s)
  refine ⟨?_,?_,?_⟩
  · rw [stripComment,blank_stop hblank]
    have : ['-','-'].isPrefixOf (mark s::u)=false := by
      rw [List.isPrefixOf_cons_cons]
      have : ('-'==mark s)=false := by simpa using Ne.symm hdash
      rw [this]
      rfl
    rw [this]
    rfl
  · intro htrim
    have := all_of_trim htrim _ List.mem_cons_self
    rw [hspace] at this
    cases this
  · have hnone : (mark s::u).takeWhile (· = '#')=[] := by simp [hhash]
    rw [parseHeading,blank_stop hblank]
    simp only [hnone,if_true]

theorem scan_row (idx : Nat) (cur : Section) (stack : List Section) (rest : List Text)
    (hrow : row≠[]) :
    ∃ k, scan idx (cur::stack) ((printRow row).splitOn '\n'++rest)=
      scan k (cur.addRow row::stack) rest := by
  obtain ⟨s,u,htext⟩ := row_first hrow
  obtain ⟨l,ls,hsplit,hjoin⟩ := splitOn_lines (printRow row)
  have hbalanced : rowBalanced (printRow row) := rowBalanced_of_ok (parseRow_print hrow)
  have hopen : ∀ p u, printRow row=p++ '\n'::u → rowBalanced p=false :=
    fun p u h => rowBalanced_of_open (parseRow_cut h)
  have hgather : gather l (ls++rest)=(printRow row,rest) := gather_row hopen hbalanced hjoin
  have hfirst : ∃ v, l=mark s::v := by
    cases l with
    | nil =>
      have hne : mark s≠ '\n' := by
        rcases mark_cases s with h | h
        · rw [h]
          decide
        · rw [h]
          decide
      rw [htext] at hjoin
      cases ls with
      | nil => simp at hjoin
      | cons m ls =>
        have hhead : mark s::u = '\n'::(m++ls.flatMap ('\n'::·)) := by simpa using hjoin
        exact absurd (List.cons.inj hhead).1 hne
    | cons c v =>
      rw [htext] at hjoin
      have hhead : mark s::u=c::(v++ls.flatMap ('\n'::·)) := by simpa using hjoin
      exact ⟨v,by rw [(List.cons.inj hhead).1]⟩
  obtain ⟨v,rfl⟩ := hfirst
  obtain ⟨hstrip,htrim,hheading⟩ := marked_line s v
  refine ⟨idx+1+((ls++rest).length-rest.length),?_⟩
  rw [hsplit,List.cons_append,scan.eq_def]
  simp only [hstrip,if_neg htrim,hheading,hgather,hbalanced,parseRow_print hrow,
    Bool.true_eq_false,if_false]

theorem scan_rows (idx : Nat) (cur : Section) (stack : List Section) (rest : List Text)
    (hrows : ∀ row∈rows, row≠[]) :
    ∃ k, scan idx (cur::stack) ((rows.map printRow).flatMap (·.splitOn '\n')++rest)=
      scan k (rows.foldl Section.addRow cur::stack) rest := by
  induction rows generalizing idx cur with
  | nil => exact ⟨idx,rfl⟩
  | cons row rows ih =>
    obtain ⟨j,hj⟩ := scan_row idx cur stack ((rows.map printRow).flatMap (·.splitOn '\n')++rest)
      (hrows row List.mem_cons_self)
    obtain ⟨k,hk⟩ := ih j (cur.addRow row) fun r hr => hrows r (List.mem_cons_of_mem _ hr)
    refine ⟨k,?_⟩
    rw [List.map_cons,List.flatMap_cons,List.append_assoc,hj,hk]
    rfl

/-- The header is the first row. -/
theorem foldl_addRow (hheader : header=none → rows=[]) :
    (header.toList++rows).foldl Section.addRow
        (.mk depth kind name mods none [] children line)=
      .mk depth kind name mods header rows children line := by
  cases header with
  | none =>
    rw [hheader rfl]
    rfl
  | some header =>
    have hmore (done : List (List Text)) : rows.foldl Section.addRow
        (.mk depth kind name mods (some header) done children line)=
          .mk depth kind name mods (some header) (done++rows) children line := by
      induction rows generalizing done with
      | nil => simp
      | cons row rows ih =>
        rw [List.foldl_cons,Section.addRow,ih (by simp)]
        simp
    exact hmore []

theorem foldl_addChild (ss : List Section) :
    ss.foldl Section.addChild (.mk depth kind name mods header rows children line)=
      .mk depth kind name mods header rows (children++ss) line := by
  induction ss generalizing children with
  | nil => simp
  | cons s ss ih =>
    rw [List.foldl_cons,Section.addChild,ih]
    simp

/-- What reading a section's lines does: it is on top of the sections that were open above it, once
what is deeper is closed. -/
def Reads (s : Section) : Prop :=
  ∀ idx stack base rest,
    (∀ line sec, sec.depth=s.depth → ∃ st, attach line sec stack=.ok (sec::st)∧
      st.map Section.forget=base) →
    ∃ k st, scan idx stack (s.chunks.flatMap (·.splitOn '\n')++rest)=scan k st rest∧
      popTo (s.depth+1) (st.map Section.forget)=s.forget::base

/-- Below an open section, whatever is still open beneath it: a heading that is deeper becomes its
child. -/
theorem attach_below (hdeep : 1 < sec.depth) (hpop : popTo sec.depth (stack.map Section.forget)=base)
    (hbase : base≠[]) : ∃ st, attach line sec stack=.ok (sec::st)∧st.map Section.forget=base := by
  rw [← popTo_forget] at hpop
  have hstack : stack≠[] := by
    rintro rfl
    rw [popTo] at hpop
    exact hbase hpop.symm
  have hone : ¬sec.depth=1 := by omega
  cases hst : popTo sec.depth stack with
  | nil =>
    rw [hst] at hpop
    exact absurd hpop.symm hbase
  | cons parent below =>
    refine ⟨parent::below,?_,?_⟩
    · rw [attach,if_neg hone,if_neg hstack,hst]
    · rw [← hst]
      exact hpop

theorem scan_children {ss : List Section} (idx : Nat) (cur : Section) (stack : List Section)
    (rest : List Text) (hreads : ∀ s∈ss, Reads s)
    (hdeep : ∀ s∈ss, cur.depth < s.depth) (horder : ss.Pairwise fun c d => d.depth ≤ c.depth)
    (hroot : 0 < cur.depth) (hfirst : ∀ s∈ss.head?, popTo s.depth (stack.map Section.forget)=cur::base)
    (hpop : popTo (cur.depth+1) (stack.map Section.forget)=cur::base) :
    ∃ k st, scan idx stack ((ss.flatMap Section.chunks).flatMap (·.splitOn '\n')++rest)=
        scan k st rest∧
      popTo (cur.depth+1) (st.map Section.forget)=
        (ss.map Section.forget).foldl Section.addChild cur::base := by
  induction ss generalizing idx stack cur with
  | nil => exact ⟨idx,stack,rfl,hpop⟩
  | cons s ss ih =>
    have hs : cur.depth < s.depth := hdeep s List.mem_cons_self
    obtain ⟨j,st,hscan,hst⟩ := hreads s List.mem_cons_self idx stack (cur::base)
      ((ss.flatMap Section.chunks).flatMap (·.splitOn '\n')++rest) fun line sec hsec =>
        attach_below (by omega) (by rw [hsec]; exact hfirst s rfl) (by simp)
    -- what closes down to a depth above the child's leaves the section with its new child
    have hclose (k : Nat) (hk : k ≤ s.depth) (hcur : cur.depth < k) :
        popTo k (st.map Section.forget)=cur.addChild s.forget::base := by
      have := popTo_popTo (show k ≤ s.depth+1 by omega) (st.map Section.forget)
      rw [hst,popTo_closes (by rw [depth_forget]; exact hk) hcur] at this
      exact this.symm
    obtain ⟨k,st',hscan',hst'⟩ := ih j (cur.addChild s.forget) st
      (fun t ht => hreads t (List.mem_cons_of_mem _ ht))
      (fun t ht => by
        rw [depth_addChild]
        exact hdeep t (List.mem_cons_of_mem _ ht))
      (List.pairwise_cons.mp horder).2 (by rw [depth_addChild]; exact hroot)
      (fun t ht => by
        have hmem : t∈ss := List.mem_of_mem_head? ht
        exact hclose _ ((List.pairwise_cons.mp horder).1 t hmem)
          (hdeep t (List.mem_cons_of_mem _ hmem)))
      (by
        rw [depth_addChild]
        exact hclose _ (by omega) (by omega))
    rw [depth_addChild] at hst'
    refine ⟨k,st',?_,hst'⟩
    rw [List.flatMap_cons,List.flatMap_append,List.append_assoc,hscan,hscan']

/-- Every section that can be printed is read back. -/
theorem reads_printable (s : Section) (hs : s.Printable) : Reads s := by
  induction s using Section.induct with
  | h depth kind name mods header rows children line ih =>
    obtain ⟨hd,hsay,hheader,hrows,hdeep,horder,hall⟩ := hs
    rw [allPrintable_iff] at hall
    intro idx stack base rest hattach
    obtain ⟨below,hatt,hbelow⟩ := hattach (idx+1) (.mk depth kind name mods none [] [] (idx+1)) rfl
    have hline : (printHeading depth kind name mods).splitOn '\n'=
        [printHeading depth kind name mods] := List.splitOn_eq_singleton (printHeading_line hsay hd).1
    obtain ⟨j,hj⟩ := scan_rows (idx+1) (.mk depth kind name mods none [] [] (idx+1)) below
      ((children.flatMap Section.chunks).flatMap (·.splitOn '\n')++rest) hrows
    rw [foldl_addRow hheader] at hj
    have hopen (k : Nat) (hk : depth < k) :
        popTo k ((Section.mk depth kind name mods header rows [] (idx+1)::below).map Section.forget)=
          .mk depth kind name mods header rows [] 0::base := by
      rw [List.map_cons,hbelow]
      exact popTo_stays hk base
    obtain ⟨k,st,hk,hst⟩ := scan_children j (.mk depth kind name mods header rows [] 0) _ rest
      (fun c hc => ih c hc (hall c hc)) hdeep
      horder hd (fun c hc => hopen _ (hdeep c (List.mem_of_mem_head? hc)))
      (hopen _ (Nat.lt_succ_self depth))
    refine ⟨k,st,?_,?_⟩
    · rw [Section.chunks,List.flatMap_cons,List.flatMap_append,hline,chunksOf_eq,
        List.singleton_append,List.cons_append,List.append_assoc,scan_heading hsay hd hatt,hj,hk]
    · rw [foldl_addChild] at hst
      rw [Section.forget,forgetAll_eq]
      exact hst

/-- The printed document is parsed to the same tree. -/
theorem parse_print (t : Section) (ht : t.Printable) (hroot : t.depth=1) :
    ∃ u, parse (print t)=.ok u∧u.forget=t.forget := by
  have hlines (cs : List Text) :
      (cs.flatMap (·++['\n'])).splitOn '\n'=cs.flatMap (·.splitOn '\n')++[[]] := by
    induction cs with
    | nil => rfl
    | cons c cs ih =>
      rw [List.flatMap_cons,List.append_assoc,List.singleton_append,List.splitOn_append_cons_self,ih,
        List.flatMap_cons,List.append_assoc]
  obtain ⟨k,st,hscan,hst⟩ := reads_printable t ht 0 [] [] [[]] fun line sec hsec => by
    refine ⟨[],?_,rfl⟩
    rw [attach,if_pos (hsec.trans hroot)]
    rfl
  have hend : scan k st [[]]=.ok st := by
    rw [scan.eq_def]
    have hblank : trim isSpace (stripComment [])=[] := by decide
    simp only [hblank,if_true]
    rw [scan]
  have hclose : closeAll (st.map Section.forget)=some t.forget := by
    rw [← closeAll_popTo (k := t.depth+1) (by rw [hst]; simp),hst,closeAll]
  rw [← closeAll_forget] at hclose
  obtain ⟨u,hu,hforget⟩ := Option.map_eq_some_iff.mp hclose
  refine ⟨u,?_,hforget⟩
  rw [parse,print,hlines,hscan,hend]
  simp only [hu]

/-- Printed documents are parsed to the same tree; a printed row is gathered whole, no line of it
being enough for the row; and on any text what the row parser takes is balanced, what it finds open
is not. -/
theorem document_back (t : Section) (ht : t.Printable) (hroot : t.depth=1) :
    (∃ u, parse (print t)=.ok u∧u.forget=t.forget)∧
      (∀ row, row≠[] → rowBalanced (printRow row)∧parseRow (printRow row)=.ok row∧
        ∀ p u, printRow row=p++ '\n'::u → rowBalanced p=false∧parseRow p=.error .unterminated)∧
      (∀ s cells, parseRow s=.ok cells → rowBalanced s)∧
      ∀ s, parseRow s=.error .unterminated → rowBalanced s=false := by
  refine ⟨parse_print t ht hroot,?_,?_,?_⟩
  · intro row hrow
    refine ⟨rowBalanced_of_ok (parseRow_print hrow),parseRow_print hrow,fun p u h => ?_⟩
    have hopen := parseRow_cut h
    exact ⟨rowBalanced_of_open hopen,hopen⟩
  · exact fun s cells h => rowBalanced_of_ok h
  · exact fun s h => rowBalanced_of_open h

/-- A root with a modifier that shows a pipe, a child, and cells over two lines in either quotes. -/
theorem document_back_lines :
    ∃ u, parse (print (.mk 1 ['d','b'] [] [(['k'],['a','|'])] none [] [.mk 2 ['r'] [] []
        (some [['a','\n',quote]]) [[backtickPrefix++['#','\n',backtick]]] [] 0] 0))=.ok u∧
      u.forget=(Section.mk 1 ['d','b'] [] [(['k'],['a','|'])] none [] [.mk 2 ['r'] [] []
        (some [['a','\n',quote]]) [[backtickPrefix++['#','\n',backtick]]] [] 0] 0).forget := by
  have hroot : Sayable ['d','b'] [] [(['k'],['a','|'])] :=
    ⟨⟨by decide,by decide⟩,⟨[],by simp,rfl⟩,by decide,by decide,by
      simp only [List.forall_mem_singleton,Trimmed]
      decide,by simp⟩
  have hchild : Sayable ['r'] [] [] :=
    ⟨⟨by decide,by decide⟩,⟨[],by simp,rfl⟩,by decide,by decide,by simp,by simp⟩
  have hdeep : (Section.mk 2 ['r'] [] [] (some [['a','\n',quote]])
      [[backtickPrefix++['#','\n',backtick]]] [] 0).Printable :=
    ⟨by decide,hchild,by simp,by simp,by simp,by simp,trivial⟩
  have hall : (Section.mk 1 ['d','b'] [] [(['k'],['a','|'])] none [] [.mk 2 ['r'] [] []
      (some [['a','\n',quote]]) [[backtickPrefix++['#','\n',backtick]]] [] 0] 0).Printable :=
    ⟨by decide,hroot,fun _ => rfl,by simp,by simp [Section.depth],by simp,hdeep,trivial⟩
  exact (document_back _ hall rfl).1

end Kitp.Hcsv
