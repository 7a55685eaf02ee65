import Kitp.Hcsv

/-! Headings: the printed heading is read back. -/
namespace Kitp.Hcsv
open Kitp.Quoting Kitp.TextNorm Kitp.Trimming

variable {c stop : Char} {s t p v k : Text} {inQ out : Bool} {words : List Text}
  {mods dst : List (Text × Text)}

/-- Whether the text leaves a quote open, when no stop stands outside the quotes. -/
def closes (stop : Char) (inQ : Bool) : Text → Option Bool
  | [] => some inQ
  | c::s =>
    if c=quote then closes stop (!inQ) s
    else if c=stop∧!inQ then none
    else closes stop inQ s

theorem split_quote (inQ : Bool) (s : Text) : splitOnUnquotedPipe inQ (quote::s)=
    (quote::(splitOnUnquotedPipe (!inQ) s).1,(splitOnUnquotedPipe (!inQ) s).2) := by
  rw [splitOnUnquotedPipe.eq_def]
  cases s with
  | nil => simp [splitOnUnquotedPipe]
  | cons d r =>
    simp only [if_true]
    split
    · rename_i hd
      rw [hd.1,hd.2,splitOnUnquotedPipe.eq_def (!true)]
      cases r with
      | nil => simp [splitOnUnquotedPipe]
      | cons e r => simp
    · rfl

theorem index_quote (stop : Char) (inQ : Bool) (s : Text) : indexUnquotedRune stop inQ (quote::s)=
    (indexUnquotedRune stop (!inQ) s).map (·+1) := by
  rw [indexUnquotedRune.eq_def]
  cases s with
  | nil => simp [indexUnquotedRune]
  | cons d r =>
    simp only [if_true]
    split
    · rename_i hd
      rw [hd.1,hd.2,indexUnquotedRune.eq_def _ (!true)]
      cases r with
      | nil => simp [indexUnquotedRune]
      | cons e r =>
        simp only [if_true,Bool.not_true,Bool.false_eq_true,false_and,if_false,Option.map_map,
          Bool.not_false]
        rfl
    · rfl

/-- A text without a pipe outside its quotes is passed over whole. -/
theorem split_closes (h : closes '|' inQ s=some out) (t : Text) :
    splitOnUnquotedPipe inQ (s++t)=
      (s++(splitOnUnquotedPipe out t).1,(splitOnUnquotedPipe out t).2) := by
  induction s generalizing inQ with
  | nil =>
    cases h
    rfl
  | cons c s ih =>
    rw [closes] at h
    by_cases hc : c=quote
    · rw [if_pos hc] at h
      rw [hc,List.cons_append,split_quote,ih h]
      rfl
    · rw [if_neg hc] at h
      split at h
      · cases h
      · rename_i hstop
        rw [List.cons_append,splitOnUnquotedPipe.eq_def]
        simp only [if_neg hc,if_neg hstop,ih h]
        rfl

theorem index_closes (hstop : stop≠quote) (h : closes stop inQ s=some false) (t : Text) :
    indexUnquotedRune stop inQ (s++stop::t)=some s.length := by
  induction s generalizing inQ with
  | nil =>
    cases h
    rw [List.nil_append,indexUnquotedRune.eq_def]
    simp [hstop]
  | cons c s ih =>
    rw [closes] at h
    by_cases hc : c=quote
    · rw [if_pos hc] at h
      rw [hc,List.cons_append,index_quote,ih h]
      rfl
    · rw [if_neg hc] at h
      split at h
      · cases h
      · rename_i hno
        rw [List.cons_append,indexUnquotedRune.eq_def]
        simp only [if_neg hc,if_neg hno,ih h]
        rfl

def quoted (v : Text) : Text := quote::(double quote v++[quote])

theorem closes_quoted (stop : Char) (v : Text) : closes stop false (quoted v)=some false := by
  have hopen : closes stop true (double quote v++[quote])=some false := by
    induction v with
    | nil => rfl
    | cons c v ih =>
      by_cases hc : c=quote
      · rw [double,if_pos hc]
        exact ih
      · rw [double,if_neg hc,List.cons_append,closes,if_neg hc]
        simpa using ih
  rw [quoted,closes,if_pos rfl]
  exact hopen

theorem closes_append (h : closes stop inQ s=some out) (t : Text) :
    closes stop inQ (s++t)=closes stop out t := by
  induction s generalizing inQ with
  | nil =>
    cases h
    rfl
  | cons c s ih =>
    rw [closes] at h
    rw [List.cons_append,closes]
    split
    · rename_i hc
      rw [if_pos hc] at h
      exact ih h
    · rename_i hc
      rw [if_neg hc] at h
      split
      · rename_i hno
        rw [if_pos hno] at h
        cases h
      · rename_i hno
        rw [if_neg hno] at h
        exact ih h

theorem unescape_double (v : Text) : unescape (double quote v)=some v := by
  induction v with
  | nil => rfl
  | cons c v ih =>
    by_cases hc : c=quote
    · rw [double,if_pos hc,unescape.eq_def]
      simp [ih,hc]
    · rw [double,if_neg hc,unescape.eq_def]
      simp [ih,hc]

theorem unquoteCell_quoted (v : Text) : unquoteCell (quoted v)=.ok v := by
  have hlen : ¬((quoted v).length < 2∨(quoted v).head?≠some quote) := by
    simp [quoted]
  have hlast : ¬(quoted v).getLast?≠some quote := by
    rw [quoted,← List.cons_append,List.getLast?_concat]
    simp
  have hinner : (quoted v).tail.dropLast=double quote v := by simp [quoted]
  rw [unquoteCell,if_neg hlen,if_neg hlast,hinner,unescape_double]

/-- A word stands between white space. -/
def Word (w : Text) : Prop := w≠[]∧∀ c∈w, isSpace c=false

/-- A text that trimming leaves as it is. -/
def Trimmed (s : Text) : Prop := s≠[]∧(∀ c∈s.head?, isSpace c=false)∧∀ c∈s.getLast?, isSpace c=false

theorem trim_trimmed (h : Trimmed s) {u v : Text} (hu : ∀ c∈u, isSpace c) (hv : ∀ c∈v, isSpace c) :
    trim isSpace (u++s++v)=s := by
  rw [trim_pad hu hv]
  exact trim_stays (fun c hc => by simp [h.2.1 c hc]) fun c hc => by simp [h.2.2 c hc]

def headText (kind name : Text) : Text := if name=[] then kind else kind++ ' '::name

def modifierText (e : Text × Text) : Text := e.1++ '='::quoted e.2

/-- The modifiers, each behind a pipe. -/
def modifiersText (mods : List (Text × Text)) : Text :=
  mods.flatMap fun e => ' ':: '|':: ' '::modifierText e

def bodyText (kind name : Text) (mods : List (Text × Text)) : Text :=
  headText kind name++modifiersText mods

def printHeading (depth : Nat) (kind name : Text) (mods : List (Text × Text)) : Text :=
  List.replicate depth '#'++ ' '::bodyText kind name mods

/-- What a heading can say: words, with the quotes in them closed and no pipe outside; keys likewise,
without an equals sign; nothing with a line break. -/
structure Sayable (kind name : Text) (mods : List (Text × Text)) : Prop where
  kindWord : Word kind
  nameWords : ∃ words, (∀ w∈words, Word w)∧name=joinWords words
  head : closes '|' false (headText kind name)=some false
  keys : (mods.map Prod.fst).Nodup
  key : ∀ e∈mods, Trimmed e.1∧ '\n'∉e.1∧closes '|' false e.1=some false∧
    closes '=' false e.1=some false
  value : ∀ e∈mods, '\n'∉e.2

theorem space_facts : isSpace ' '∧isSpace '\n'∧isSpace quote=false∧isSpace '#'=false := by decide

theorem Trimmed.append (hs : Trimmed s) (ht : Trimmed t) (v : Text) : Trimmed (s++v++t) := by
  refine ⟨?_,?_,?_⟩
  · simp [hs.1]
  · have : (s++v++t).head?=s.head? := by
      cases s with
      | nil => exact absurd rfl hs.1
      | cons c s => rfl
    rw [this]
    exact hs.2.1
  · have : (s++v++t).getLast?=t.getLast? := List.getLast?_append_of_ne_nil _ ht.1
    rw [this]
    exact ht.2.2

theorem Word.trimmed (h : Word s) : Trimmed s :=
  ⟨h.1,fun c hc => h.2 c (List.mem_of_mem_head? hc),fun c hc => h.2 c (List.mem_of_mem_getLast? hc)⟩

theorem trimmed_quoted (v : Text) : Trimmed (quoted v) := by
  refine ⟨by simp [quoted],?_,?_⟩
  · intro c hc
    cases hc
    exact space_facts.2.2.1
  · intro c hc
    rw [quoted,← List.cons_append,List.getLast?_concat] at hc
    cases hc
    exact space_facts.2.2.1

theorem trimmed_modifier {e : Text × Text} (h : Trimmed e.1) : Trimmed (modifierText e) := by
  have := h.append (trimmed_quoted e.2) ['=']
  simpa [modifierText] using this

theorem joinWords_cons (w : Text) (words : List Text) (hne : words≠[]) :
    joinWords (w::words)=w++ ' '::joinWords words := by
  cases words with
  | nil => exact absurd rfl hne
  | cons u words => simp [joinWords,List.intercalate_cons_cons]

theorem fields_joinWords (hw : ∀ w∈words, Word w) : fields (joinWords words)=words := by
  have hsingle (w : Text) (h : Word w) : w.splitOnP isSpace=[w] :=
    List.splitOnP_eq_singleton h.2
  have hall : words≠[] → (joinWords words).splitOnP isSpace=words := by
    induction words with
    | nil => exact fun h => absurd rfl h
    | cons w words ih =>
      intro _
      have ih := ih fun u hu => hw u (List.mem_cons_of_mem _ hu)
      have hself := hw w List.mem_cons_self
      by_cases hnil : words=[]
      · subst hnil
        have : joinWords [w]=w := by simp [joinWords,List.intercalate]
        rw [this,hsingle w hself]
      · rw [joinWords_cons w words hnil,
          List.splitOnP_append_cons_of_forall_mem hself.2 ' ' space_facts.1,ih hnil]
  cases words with
  | nil => rfl
  | cons w words =>
    rw [fields,hall (by simp),List.filter_eq_self]
    intro u hu
    simpa using (hw u hu).1

theorem joinWords_ne (hw : ∀ w∈words, Word w) (hne : words≠[]) : joinWords words≠[] := by
  intro h
  have := fields_joinWords hw
  rw [h] at this
  exact hne this.symm

theorem trimmed_joinWords (hw : ∀ w∈words, Word w) (hne : words≠[]) : Trimmed (joinWords words) := by
  induction words with
  | nil => exact absurd rfl hne
  | cons w words ih =>
    have hself := (hw w List.mem_cons_self).trimmed
    by_cases hnil : words=[]
    · subst hnil
      have : joinWords [w]=w := by simp [joinWords,List.intercalate]
      rw [this]
      exact hself
    · have := hself.append (ih (fun u hu => hw u (List.mem_cons_of_mem _ hu)) hnil) [' ']
      rw [joinWords_cons w words hnil]
      simpa using this

theorem headText_words {kind name : Text} (hw : ∀ w∈words, Word w) (hname : name=joinWords words) :
    headText kind name=joinWords (kind::words) := by
  by_cases hnil : words=[]
  · subst hnil
    subst hname
    simp [headText,joinWords,List.intercalate]
  · rw [headText,if_neg (by rw [hname]; exact joinWords_ne hw hnil),joinWords_cons kind words hnil,
      hname]

theorem modifiersText_last {e : Text × Text} (h : Trimmed e.1) (mods : List (Text × Text))
    (hm : ∀ e∈mods, Trimmed e.1) : Trimmed (modifierText e++modifiersText mods) := by
  induction mods generalizing e with
  | nil =>
    rw [modifiersText,List.flatMap_nil,List.append_nil]
    exact trimmed_modifier h
  | cons f mods ih =>
    have hnext := ih (hm f List.mem_cons_self) fun g hg => hm g (List.mem_cons_of_mem _ hg)
    have := (trimmed_modifier h).append hnext [' ','|',' ']
    simpa [modifiersText] using this

/-- One modifier is read as it was written. -/
theorem parseModifier_print {e : Text × Text} (h : Trimmed e.1)
    (hclosed : closes '=' false e.1=some false) (dst : List (Text × Text)) :
    parseModifier (modifierText e) dst=.ok (put dst e.1 e.2) := by
  have hne : modifierText e≠[] := (trimmed_modifier h).1
  have hindex : indexUnquotedRune '=' false (modifierText e)=some e.1.length :=
    index_closes (by decide) hclosed _
  have hkey : trim isSpace ((modifierText e).take e.1.length)=e.1 := by
    rw [modifierText,List.take_left]
    have := trim_trimmed h (u := []) (v := []) (by simp) (by simp)
    simpa using this
  have hval : trim isSpace ((modifierText e).drop (e.1.length+1))=quoted e.2 := by
    have hdrop : (modifierText e).drop (e.1.length+1)=quoted e.2 := by
      rw [modifierText,List.drop_append]
      simp
    rw [hdrop]
    have := trim_trimmed (trimmed_quoted e.2) (u := []) (v := []) (by simp) (by simp)
    simpa using this
  rw [parseModifier,if_neg hne,hindex]
  simp only [hkey,hval,if_neg h.1,unquoteCell_quoted]
  rfl

theorem closes_modifier {e : Text × Text} (h : closes '|' false e.1=some false) :
    closes '|' false (modifierText e)=some false := by
  rw [modifierText,closes_append h,closes,if_neg (by decide),if_neg (by decide)]
  exact closes_quoted '|' e.2

theorem put_new {key val : Text} (h : key∉dst.map Prod.fst) : put dst key val=dst++[(key,val)] := by
  have : (dst.map Prod.fst).contains key=false := by
    rw [← Bool.not_eq_true,List.contains_iff_mem]
    exact h
  rw [put,this]
  rfl

theorem split_front {e : Text × Text} {u : Text} (hu : ∀ c∈u, c = ' ')
    (h : closes '|' false e.1=some false) (t : Text) :
    splitOnUnquotedPipe false (u++modifierText e++t)=
      (u++modifierText e++(splitOnUnquotedPipe false t).1,(splitOnUnquotedPipe false t).2) := by
  have hpad : closes '|' false u=some false := by
    induction u with
    | nil => rfl
    | cons c u ih =>
      have hc := hu c List.mem_cons_self
      rw [closes,hc,if_neg (by decide),if_neg (by decide)]
      exact ih fun d hd => hu d (List.mem_cons_of_mem _ hd)
  have hfront : closes '|' false (u++modifierText e)=some false := by
    rw [closes_append hpad]
    exact closes_modifier h
  exact split_closes hfront t

theorem split_pipe (e : Text × Text) (mods : List (Text × Text)) :
    splitOnUnquotedPipe false (modifiersText (e::mods))=
      ([' '],' '::(modifierText e++modifiersText mods)) := by
  have hblank : ' '≠quote := by decide
  have hpipe : '|'≠quote := by decide
  simp [modifiersText,splitOnUnquotedPipe,hblank,hpipe]

/-- The modifiers are read into the map, in their order. -/
theorem modifierLoop_print (e : Text × Text) (u : Text) (dst mods : List (Text × Text))
    (hu : ∀ c∈u, c = ' ')
    (hkeys : ((dst++e::mods).map Prod.fst).Nodup)
    (hm : ∀ f∈e::mods, Trimmed f.1∧ '\n'∉f.1∧closes '|' false f.1=some false∧
      closes '=' false f.1=some false) :
    modifierLoop (u++modifierText e++modifiersText mods) dst=.ok (dst++e::mods) := by
  have hspace : ∀ c∈u, isSpace c := fun c hc => by
    rw [hu c hc]
    exact space_facts.1
  induction mods generalizing e u dst with
  | nil =>
    obtain ⟨htrim,-,hpipe,hequals⟩ := hm e List.mem_cons_self
    have hnew : e.1∉dst.map Prod.fst := by
      rw [List.map_append,List.nodup_append] at hkeys
      intro hmem
      exact hkeys.2.2 _ hmem e.1 (by simp) rfl
    have hsplit : splitOnUnquotedPipe false (u++modifierText e++[])=(u++modifierText e,[]) := by
      rw [split_front hu hpipe,splitOnUnquotedPipe,List.append_nil]
    have hpart : trim isSpace (u++modifierText e)=modifierText e := by
      have := trim_trimmed (trimmed_modifier htrim) hspace (v := []) (by simp)
      rwa [List.append_nil] at this
    rw [modifierLoop,modifiersText,List.flatMap_nil,hsplit,hpart,
      parseModifier_print htrim hequals,put_new hnew]
    simp
  | cons f mods ih =>
    obtain ⟨htrim,-,hpipe,hequals⟩ := hm e List.mem_cons_self
    have hnew : e.1∉dst.map Prod.fst := by
      rw [List.map_append,List.nodup_append] at hkeys
      intro hmem
      exact hkeys.2.2 _ hmem e.1 (by simp) rfl
    have hsplit : splitOnUnquotedPipe false (u++modifierText e++modifiersText (f::mods))=
        (u++modifierText e++[' '],' '::(modifierText f++modifiersText mods)) := by
      rw [split_front hu hpipe,split_pipe]
    have hpart : trim isSpace (u++modifierText e++[' '])=modifierText e :=
      trim_trimmed (trimmed_modifier htrim) hspace (by simp [space_facts.1])
    have hnext := ih f [' '] (dst++[e]) (by simp)
      (by simpa using hkeys) (fun g hg => hm g (List.mem_cons_of_mem _ hg))
      (by simp [space_facts.1])
    have hrest : ' '::(modifierText f++modifiersText mods)≠[] := by simp
    rw [modifierLoop,hsplit,hpart,parseModifier_print htrim hequals,put_new hnew]
    simp only [dif_neg hrest]
    simpa using hnext

theorem parseModifiers_print {kind name : Text} (h : Sayable kind name mods) :
    parseModifiers (splitOnUnquotedPipe false (bodyText kind name mods)).2 []=.ok mods := by
  rw [bodyText,split_closes h.head]
  cases mods with
  | nil =>
    simp [modifiersText,splitOnUnquotedPipe,parseModifiers,trim]
  | cons e mods =>
    have htrimmed := modifiersText_last (h.key e List.mem_cons_self).1 mods
      fun f hf => (h.key f (List.mem_cons_of_mem _ hf)).1
    have htail : trim isSpace (' '::(modifierText e++modifiersText mods))=
        modifierText e++modifiersText mods := by
      have := trim_trimmed htrimmed (u := [' ']) (v := []) (by simp [space_facts.1]) (by simp)
      simpa using this
    have hloop := modifierLoop_print e [] [] mods (by simp)
      (by simpa using h.keys) h.key
    rw [split_pipe,parseModifiers]
    simp only [htail,if_neg htrimmed.1]
    simpa using hloop

theorem headText_trimmed {kind name : Text} (h : Sayable kind name mods) :
    Trimmed (headText kind name) := by
  obtain ⟨words,hw,hname⟩ := h.nameWords
  rw [headText_words hw hname]
  exact trimmed_joinWords (List.forall_mem_cons.mpr ⟨h.kindWord,hw⟩) (by simp)

theorem head_print {kind name : Text} (h : Sayable kind name mods) :
    trim isSpace (splitOnUnquotedPipe false (bodyText kind name mods)).1=headText kind name := by
  have hself := headText_trimmed h
  rw [bodyText,split_closes h.head]
  cases mods with
  | nil =>
    have := trim_trimmed hself (u := []) (v := []) (by simp) (by simp)
    simpa [modifiersText,splitOnUnquotedPipe] using this
  | cons e mods =>
    have := trim_trimmed hself (u := []) (v := [' ']) (by simp) (by simp [space_facts.1])
    rw [split_pipe]
    simpa using this

theorem body_trimmed {kind name : Text} (h : Sayable kind name mods) :
    Trimmed (bodyText kind name mods) := by
  have hself := headText_trimmed h
  cases mods with
  | nil =>
    rw [bodyText,modifiersText,List.flatMap_nil,List.append_nil]
    exact hself
  | cons e mods =>
    have hlast := modifiersText_last (h.key e List.mem_cons_self).1 mods
      fun f hf => (h.key f (List.mem_cons_of_mem _ hf)).1
    have := hself.append hlast [' ','|',' ']
    simpa [bodyText,modifiersText] using this

/-- A printed heading is read as its section, with nothing in it yet. -/
theorem makeHeadingSection_print {kind name : Text} (h : Sayable kind name mods) (depth line : Nat) :
    makeHeadingSection depth (bodyText kind name mods) line=
      .ok (.mk depth kind name mods none [] [] line) := by
  obtain ⟨words,hw,hname⟩ := h.nameWords
  have hfields : fields (headText kind name)=kind::words := by
    rw [headText_words hw hname]
    exact fields_joinWords (List.forall_mem_cons.mpr ⟨h.kindWord,hw⟩)
  rw [makeHeadingSection,if_neg (body_trimmed h).1]
  simp only [head_print h,if_neg (headText_trimmed h).1,parseModifiers_print h,hfields]
  rw [hname]
  rfl

theorem parseHeading_print {kind name : Text} (h : Sayable kind name mods) {depth : Nat}
    (hd : 0 < depth) :
    parseHeading (printHeading depth kind name mods)=some (depth,bodyText kind name mods) := by
  have hmarks : ∀ c∈List.replicate depth '#', decide (c = '#')=true := by
    intro c hc
    simpa using List.eq_of_mem_replicate hc
  have hstop : ∀ c∈(' '::bodyText kind name mods).head?, decide (c = '#')=false := by
    intro c hc
    cases hc
    decide
  obtain ⟨htake,hdrop⟩ := span_split hmarks hstop
  have hblank : (printHeading depth kind name mods).dropWhile isBlank=
      List.replicate depth '#'++ ' '::bodyText kind name mods := by
    obtain ⟨d,rfl⟩ := Nat.exists_eq_succ_of_ne_zero (Nat.pos_iff_ne_zero.mp hd)
    rw [printHeading,List.replicate_succ,List.cons_append,List.dropWhile_cons]
    rfl
  have hne : List.replicate depth '#'≠[] := by
    simp
    omega
  have htrim : trim isSpace (' '::bodyText kind name mods)=bodyText kind name mods := by
    have := trim_trimmed (body_trimmed h) (u := [' ']) (v := []) (by simp [space_facts.1]) (by simp)
    simpa using this
  have hspace : isBlank ' ' := by decide
  simp only [parseHeading,hblank,htake,hdrop,if_neg hne,hspace,if_true,htrim,List.length_replicate]

theorem double_line (hv : '\n'∉v) : '\n'∉double quote v := by
  induction v with
  | nil => exact hv
  | cons c v ih =>
    have hne : '\n'≠quote := by decide
    have hc : '\n'≠c := fun h => hv (h ▸ List.mem_cons_self)
    have ih := ih fun h => hv (List.mem_cons_of_mem _ h)
    rw [double]
    split
    · simp [hne,ih]
    · simp [hc,ih]

theorem modifiersText_line (h : ∀ e∈mods, '\n'∉e.1∧ '\n'∉e.2) : '\n'∉modifiersText mods := by
  have hquote : '\n'≠quote := by decide
  intro hmem
  obtain ⟨e,he,hin⟩ := List.mem_flatMap.mp hmem
  simp [modifierText,quoted,(h e he).1,hquote,double_line (h e he).2] at hin

theorem joinWords_line (hw : ∀ w∈words, Word w) : '\n'∉joinWords words := by
  have hword (w : Text) (h : Word w) : '\n'∉w := by
    intro hmem
    have := h.2 _ hmem
    rw [space_facts.2.1] at this
    cases this
  induction words with
  | nil => simp [joinWords]
  | cons w words ih =>
    have hself := hword w (hw w List.mem_cons_self)
    by_cases hnil : words=[]
    · subst hnil
      simpa [joinWords,List.intercalate] using hself
    · have ih := ih fun u hu => hw u (List.mem_cons_of_mem _ hu)
      rw [joinWords_cons w words hnil]
      simp [hself,ih]

/-- A heading is one line, and no comment. -/
theorem printHeading_line {kind name : Text} (h : Sayable kind name mods) {depth : Nat}
    (hd : 0 < depth) : '\n'∉printHeading depth kind name mods∧
      stripComment (printHeading depth kind name mods)=printHeading depth kind name mods∧
      trim isSpace (printHeading depth kind name mods)≠[] := by
  obtain ⟨words,hw,hname⟩ := h.nameWords
  obtain ⟨d,rfl⟩ := Nat.exists_eq_succ_of_ne_zero (Nat.pos_iff_ne_zero.mp hd)
  have hfirst : printHeading (d+1) kind name mods=
      '#'::(List.replicate d '#'++ ' '::bodyText kind name mods) := by
    rw [printHeading,List.replicate_succ,List.cons_append]
  refine ⟨?_,?_,?_⟩
  · have hhead : '\n'∉headText kind name := by
      rw [headText_words hw hname]
      exact joinWords_line (List.forall_mem_cons.mpr ⟨h.kindWord,hw⟩)
    have hmods := modifiersText_line fun e he => ⟨(h.key e he).2.1,h.value e he⟩
    have hmarks : '\n'∉List.replicate (d+1) '#' := by
      intro hmem
      have := List.eq_of_mem_replicate hmem
      revert this
      decide
    simp only [printHeading,bodyText,List.mem_append,List.mem_cons,hhead,hmods,hmarks,or_false,
      false_or]
    decide
  · rw [hfirst,stripComment,List.dropWhile_cons]
    rfl
  · intro htrim
    have := all_of_trim htrim '#' (by rw [hfirst]; exact List.mem_cons_self)
    rw [space_facts.2.2.2] at this
    cases this

end Kitp.Hcsv
