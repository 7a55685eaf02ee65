import Kitp.Lib.Quoting
import Kitp.TextNorm

/-! The hierarchical CSV files of the schema and the seed: headings, rows, and the tree they make. -/
namespace Kitp.Hcsv
open Kitp.Quoting Kitp.TextNorm Kitp.Trimming

abbrev Text := List Char

def quote : Char := Char.ofNat 0x22

def backtick : Char := Char.ofNat 0x60

/-- What marks a cell that stood in backticks. -/
def backtickPrefix : Text := [Char.ofNat 0,Char.ofNat 1,'b']

def isBlank (c : Char) : Bool := c = ' '||c = '\t'

inductive Section where
  | mk (depth : Nat) (kind name : Text) (modifiers : List (Text × Text))
    (header : Option (List Text)) (rows : List (List Text)) (children : List Section) (line : Nat)

def Section.depth : Section → Nat | .mk depth .. => depth

def Section.addChild : Section → Section → Section
  | .mk depth kind name modifiers header rows children line,sec =>
    .mk depth kind name modifiers header rows (children++[sec]) line

/-- The first row of a section is its header. -/
def Section.addRow : Section → List Text → Section
  | .mk depth kind name modifiers none rows children line,row =>
    .mk depth kind name modifiers (some row) rows children line
  | .mk depth kind name modifiers (some header) rows children line,row =>
    .mk depth kind name modifiers (some header) (rows++[row]) children line

inductive RowError where
  | unterminated
  | extraContent
  | expectedComma (got : Char)
  deriving DecidableEq

inductive HeadingError where
  | missingContent
  | missingKind
  | missingEquals (part : Text)
  | missingKey (part : Text)
  | unterminatedValue (value : Text)
  | strayQuote (value : Text)
  deriving DecidableEq

inductive ParseError where
  | heading (line : Nat) (e : HeadingError)
  | manyRoots (line : Nat)
  | firstDepth (line depth : Nat)
  | noParent (line depth : Nat)
  | outside (line : Nat)
  | unterminatedCell (line : Nat)
  | row (line : Nat) (e : RowError)
  | empty
  deriving DecidableEq

def stripComment (line : Text) : Text :=
  if ['-','-'].isPrefixOf (line.dropWhile isBlank) then [] else line

/-- Depth and body of a heading. -/
def parseHeading (line : Text) : Option (Nat × Text) :=
  let s := line.dropWhile isBlank
  let marks := s.takeWhile (· = '#')
  if marks=[] then none
  else
    match s.dropWhile (· = '#') with
    | [] => some (marks.length,[])
    | c::r => if isBlank c then some (marks.length,trim isSpace (c::r)) else none

/-- What is before the first pipe that is not in quotes, and what is behind it. -/
def splitOnUnquotedPipe (inQ : Bool) : Text → Text × Text
  | [] => ([],[])
  | c::s =>
    if c=quote then
      match s with
      | [] => ([c],[])
      | d::r =>
        if inQ∧d=quote then
          (c::d::(splitOnUnquotedPipe inQ r).1,(splitOnUnquotedPipe inQ r).2)
        else (c::(splitOnUnquotedPipe (!inQ) (d::r)).1,(splitOnUnquotedPipe (!inQ) (d::r)).2)
    else if c = '|'∧!inQ then ([],s)
    else (c::(splitOnUnquotedPipe inQ s).1,(splitOnUnquotedPipe inQ s).2)

def indexUnquotedRune (r : Char) (inQ : Bool) : Text → Option Nat
  | [] => none
  | c::s =>
    if c=quote then
      match s with
      | [] => none
      | d::t =>
        if inQ∧d=quote then (indexUnquotedRune r inQ t).map (·+2)
        else (indexUnquotedRune r (!inQ) (d::t)).map (·+1)
    else if c=r∧!inQ then some 0
    else (indexUnquotedRune r inQ s).map (·+1)

/-- The loop over the inside of a quoted value. -/
def unescape : Text → Option Text
  | [] => some []
  | c::s =>
    if c=quote then
      match s with
      | [] => none
      | d::r => if d=quote then (unescape r).map (quote::·) else none
    else (unescape s).map (c::·)

def unquoteCell (s : Text) : Except HeadingError Text :=
  if s.length < 2∨s.head?≠some quote then .ok s
  else if s.getLast?≠some quote then .error (.unterminatedValue s)
  else
    match unescape s.tail.dropLast with
    | some v => .ok v
    | none => .error (.strayQuote s)

/-- Writing to the map. -/
def put (dst : List (Text × Text)) (key val : Text) : List (Text × Text) :=
  if (dst.map Prod.fst).contains key then dst.map fun e => if e.1=key then (key,val) else e
  else dst++[(key,val)]

/-- One modifier, `key=value`. -/
def parseModifier (part : Text) (dst : List (Text × Text)) :
    Except HeadingError (List (Text × Text)) :=
  if part=[] then .ok dst
  else
    match indexUnquotedRune '=' false part with
    | none => .error (.missingEquals part)
    | some eq =>
      let key := trim isSpace (part.take eq)
      let val := trim isSpace (part.drop (eq+1))
      if key=[] then .error (.missingKey part)
      else (unquoteCell val).map fun unq => put dst key unq

theorem splitOnUnquotedPipe_length (inQ : Bool) (s : Text) :
    (splitOnUnquotedPipe inQ s).2.length ≤ s.length := by
  fun_induction splitOnUnquotedPipe inQ s <;> simp only [List.length_cons,List.length_nil] at * <;>
    omega

theorem splitOnUnquotedPipe_shorter {s : Text} (h : (splitOnUnquotedPipe false s).2≠[]) :
    (splitOnUnquotedPipe false s).2.length < s.length := by
  cases s with
  | nil => exact absurd rfl h
  | cons c s =>
    have hrest (inQ : Bool) := splitOnUnquotedPipe_length inQ s
    rw [splitOnUnquotedPipe.eq_def,List.length_cons]
    simp only [Bool.false_eq_true,false_and,if_false]
    split
    · cases s with
      | nil => simp
      | cons d r => exact Nat.lt_succ_of_le (hrest true)
    split
    · simp
    · exact Nat.lt_succ_of_le (hrest false)

/-- The loop of `parseModifiers`. -/
def modifierLoop (tail : Text) (dst : List (Text × Text)) :
    Except HeadingError (List (Text × Text)) :=
  match parseModifier (trim isSpace (splitOnUnquotedPipe false tail).1) dst with
  | .error e => .error e
  | .ok dst =>
    if _hrest : (splitOnUnquotedPipe false tail).2=[] then .ok dst
    else modifierLoop (splitOnUnquotedPipe false tail).2 dst
termination_by tail.length
decreasing_by exact splitOnUnquotedPipe_shorter _hrest

def parseModifiers (tail : Text) (dst : List (Text × Text)) :
    Except HeadingError (List (Text × Text)) :=
  let tail := trim isSpace tail
  if tail=[] then .ok dst else modifierLoop tail dst

/-- `strings.Fields`. -/
def fields (s : Text) : List Text := (s.splitOnP isSpace).filter (· ≠ [])

/-- `strings.Join` with a space. -/
def joinWords (words : List Text) : Text := [' '].intercalate words

def makeHeadingSection (depth : Nat) (body : Text) (line : Nat) : Except HeadingError Section :=
  if body=[] then .error .missingContent
  else
    let (head,tail) := splitOnUnquotedPipe false body
    let head := trim isSpace head
    if head=[] then .error .missingKind
    else
      match parseModifiers tail [] with
      | .error e => .error e
      | .ok modifiers =>
        .ok (.mk depth ((fields head).headD []) (joinWords (fields head).tail) modifiers none [] []
          line)

/-- Up to a delimiter: a bare cell and what is behind it. -/
def bareCell (s : Text) : Text × Text :=
  (trimRight isBlank (s.takeWhile fun c => c≠ ','&&c≠ '\n'),s.dropWhile fun c => c≠ ','&&c≠ '\n')

/-- One cell and what is behind it. -/
def parseCell (s : Text) : Except RowError (Text × Text) :=
  match s.dropWhile isBlank with
  | [] => .ok ([],[])
  | c::r =>
    if c=quote then
      match readQuoted quote r with
      | none => .error .unterminated
      | some (cell,rest) => .ok (cell,rest)
    else if c=backtick then
      match readQuoted backtick r with
      | none => .error .unterminated
      | some (cell,rest) => .ok (backtickPrefix++cell,rest)
    else .ok (bareCell (c::r))

theorem readQuoted_length {q : Char} {s b o : Text} (h : readQuoted q s=some (b,o)) :
    o.length < s.length := by
  rw [(readQuoted_sound h).1]
  simp only [List.length_append,List.length_cons]
  omega

theorem parseCell_length {s cell r : Text} (h : parseCell s=.ok (cell,r)) : r.length ≤ s.length := by
  have hdrop := List.length_dropWhile_le isBlank s
  rw [parseCell] at h
  split at h
  · cases h
    simp
  · rename_i c u hs
    rw [hs] at hdrop
    simp only [List.length_cons] at hdrop
    split at h
    · split at h
      · cases h
      · rename_i hr
        cases h
        have := readQuoted_length hr
        omega
    split at h
    · split at h
      · cases h
      · rename_i hr
        cases h
        have := readQuoted_length hr
        omega
    · cases h
      have := List.length_dropWhile_le (fun c => c≠ ','&&c≠ '\n') (c::u)
      rw [List.length_cons] at this
      show List.length (List.dropWhile _ (c::u)) ≤ _
      omega

def parseRow (s : Text) : Except RowError (List Text) :=
  match _hcell : parseCell s with
  | .error e => .error e
  | .ok (cell,r) =>
    match _hrest : r.dropWhile isBlank with
    | [] => .ok [cell]
    | c::rest =>
      if c = '\n' then if trim isSpace rest≠[] then .error .extraContent else .ok [cell]
      else if c≠ ',' then .error (.expectedComma c)
      else (parseRow rest).map (cell::·)
termination_by s.length
decreasing_by
  have hlen := parseCell_length _hcell
  have hdrop := List.length_dropWhile_le isBlank r
  rw [_hrest] at hdrop
  simp only [List.length_cons] at hdrop
  omega

/-- Where `rowBalanced` is in a row. -/
inductive CellState where
  | cellStart
  | bare
  | quoted (q : Char)
  deriving DecidableEq

/-- The loop of `rowBalanced`. -/
def balance : CellState → Text → CellState
  | st,[] => st
  | .cellStart,c::s =>
    if isBlank c then balance .cellStart s
    else if c=quote then balance (.quoted quote) s
    else if c=backtick then balance (.quoted backtick) s
    else if c = ','∨c = '\n' then balance .cellStart s
    else balance .bare s
  | .bare,c::s => if c = ','∨c = '\n' then balance .cellStart s else balance .bare s
  | .quoted q,c::s =>
    if c=q then
      if s.head?=some q then balance (.quoted q) s.tail
      else balance .cellStart (s.dropWhile isBlank)
    else balance (.quoted q) s
termination_by _ s => s.length
decreasing_by
  all_goals
    have hdrop := List.length_dropWhile_le isBlank s
    simp only [List.length_cons,List.length_tail]
    omega

def rowBalanced (s : Text) : Bool :=
  match balance .cellStart s with
  | .quoted _ => false
  | _ => true

/-- Lines are joined while the row is open. -/
def gather (full : Text) : List Text → Text × List Text
  | [] => (full,[])
  | l::ls => if rowBalanced full then (full,l::ls) else gather (full++ '\n'::l) ls

theorem gather_length (full : Text) (ls : List Text) : (gather full ls).2.length ≤ ls.length := by
  fun_induction gather full ls <;> simp_all
  omega

/-- Closes sections at the depth or below. The one above on the stack is the last child of the one
below it. -/
def popTo (depth : Nat) : List Section → List Section
  | [] => []
  | [s] => if s.depth≥depth then [] else [s]
  | s::p::stack => if s.depth≥depth then popTo depth (p.addChild s::stack) else s::p::stack
termination_by stack => stack.length

/-- The root is at the bottom of the stack, which is empty only before the first heading. -/
def attach (line : Nat) (sec : Section) (stack : List Section) : Except ParseError (List Section) :=
  if sec.depth=1 then if stack≠[] then .error (.manyRoots line) else .ok [sec]
  else if stack=[] then .error (.firstDepth line sec.depth)
  else
    match popTo sec.depth stack with
    | [] => .error (.noParent line sec.depth)
    | parent::rest => .ok (sec::parent::rest)

/-- The loop of `scan`, idx lines read. -/
def scan (idx : Nat) (stack : List Section) : List Text → Except ParseError (List Section)
  | [] => .ok stack
  | raw::lines =>
    let line := stripComment raw
    if trim isSpace line=[] then scan (idx+1) stack lines
    else
      match parseHeading line with
      | some (depth,body) =>
        match makeHeadingSection depth body (idx+1) with
        | .error e => .error (.heading (idx+1) e)
        | .ok sec =>
          match attach (idx+1) sec stack with
          | .error e => .error e
          | .ok stack => scan (idx+1) stack lines
      | none =>
        match stack with
        | [] => .error (.outside (idx+1))
        | cur::rest =>
          let g := gather line lines
          if rowBalanced g.1=false then .error (.unterminatedCell (idx+1))
          else
            match parseRow g.1 with
            | .error e => .error (.row (idx+1) e)
            | .ok row => scan (idx+1+(lines.length-g.2.length)) (cur.addRow row::rest) g.2
termination_by lines => lines.length
decreasing_by
  all_goals
    have hgather := gather_length (stripComment raw) lines
    simp only [List.length_cons]
    omega

/-- The root with all that is open closed. -/
def closeAll : List Section → Option Section
  | [] => none
  | [s] => some s
  | s::p::stack => closeAll (p.addChild s::stack)
termination_by stack => stack.length

def parse (src : Text) : Except ParseError Section :=
  match scan 0 [] (src.splitOn '\n') with
  | .error e => .error e
  | .ok stack =>
    match closeAll stack with
    | none => .error .empty
    | some root => .ok root

end Kitp.Hcsv
