import Kitp.Lib.SqlTokens

/-! Named slots in SQL text: what a builder binds, and how a text is compiled to placeholders. -/
namespace Kitp.NamedSlots
open Kitp.SqlTokens (quote doubleQuote)

abbrev Text := List Char

variable {V : Type}

def isIdentStart (c : Char) : Bool := c = '_'∨('a' ≤ c∧c ≤ 'z')∨('A' ≤ c∧c ≤ 'Z')

def isIdentCont (c : Char) : Bool := isIdentStart c∨('0' ≤ c∧c ≤ '9')

def isIdent : Text → Bool
  | [] => false
  | c::s => isIdentStart c&&s.all isIdentCont

structure Builder (V : Type) where
  counter : Nat
  vals : List (Text × V)

def Builder.new : Builder V := ⟨0,[]⟩

def assign (vals : List (Text × V)) (name : Text) (value : V) : List (Text × V) :=
  (name,value)::vals

/-- Panics on a name that is no identifier. -/
def Builder.set (b : Builder V) (name : Text) (value : V) : Option (Builder V × Text) :=
  if isIdent name then some ({b with vals := assign b.vals name value},':'::name) else none

/-- `_b%d`. -/
def boundName (counter : Nat) : Text := '_':: 'b'::Nat.toDigits 10 counter

def Builder.bind (b : Builder V) (value : V) : Builder V × Text :=
  let counter := b.counter+1
  let name := boundName counter
  (⟨counter,assign b.vals name value⟩,':'::name)

inductive CompileError where
  | dollarQuoted (tag : Text)
  | unbound (name : Text)
  deriving DecidableEq

def CompileError.text : CompileError → Text
  | .dollarQuoted tag => "named.Builder.Compile: dollar-quoted string ($".toList++tag++
      "$) not supported; the scanner can't see :name slots inside it (BE-L2)".toList
  | .unbound name => "named.Builder.Compile: :".toList++name++" referenced but not bound".toList

/-- What `Compile` has written, the names in first-appearance order, and each one's number. -/
structure Scan where
  out : Text
  order : List Text
  seen : List (Text × Nat)
  deriving DecidableEq

def Scan.write (st : Scan) (s : Text) : Scan := {st with out := st.out++s}

/-- The loop of a string literal, behind its opening quote: what it copies, and what is left. -/
def stringLoop : Text → Text × Text
  | [] => ([],[])
  | c::s =>
    if c=quote then
      match s with
      | [] => ([c],[])
      | d::r => if d=quote then (c::d::(stringLoop r).1,(stringLoop r).2) else ([c],d::r)
    else (c::(stringLoop s).1,(stringLoop s).2)

/-- The loop of a quoted identifier and its closing quote. -/
def identLoop (s : Text) : Text × Text :=
  match s.dropWhile (· ≠ doubleQuote) with
  | [] => (s.takeWhile (· ≠ doubleQuote),[])
  | c::r => (s.takeWhile (· ≠ doubleQuote)++[c],r)

/-- The loop of a block comment. -/
def blockLoop : Text → Text × Text
  | '*':: '/'::s => (['*', '/'],s)
  | c::s => (c::(blockLoop s).1,(blockLoop s).2)
  | [] => ([],[])

/-- Of the text behind a dollar sign. -/
def isDollarQuoteOpener (s : Text) : Bool :=
  match s with
  | [] => false
  | c::_ => c = '$'||isIdentStart c&&(s.dropWhile isIdentCont).head?=some '$'

/-- The number of a name's slot. -/
def slotNumber (b : Builder V) (st : Scan) (name : Text) : Except CompileError (Scan × Nat) :=
  match st.seen.lookup name with
  | some idx => .ok (st,idx)
  | none =>
    if (b.vals.lookup name).isNone then .error (.unbound name)
    else
      let order := st.order++[name]
      .ok ({st with order := order,seen := (name,order.length)::st.seen},order.length)

/-- `$%d`. -/
def placeholder (idx : Nat) : Text := '$'::Nat.toDigits 10 idx

/-- One turn of the loop at the character c, s behind it: the scan behind the turn, and what is left
of the text. -/
def turn (b : Builder V) (st : Scan) (c : Char) (s : Text) : Except CompileError (Scan × Text) :=
  if c=quote then .ok (st.write (c::(stringLoop s).1),(stringLoop s).2)
  else if c=doubleQuote then .ok (st.write (c::(identLoop s).1),(identLoop s).2)
  else if c = '-'∧s.head?=some '-' then
    .ok (st.write (c::s.takeWhile (· ≠ '\n')),s.dropWhile (· ≠ '\n'))
  else if c = '/'∧s.head?=some '*' then
    .ok (st.write (c:: '*'::(blockLoop s.tail).1),(blockLoop s.tail).2)
  else if c = '$'∧isDollarQuoteOpener s then .error (.dollarQuoted (s.takeWhile (· ≠ '$')))
  else if c = ':'∧s.head?=some ':' then .ok (st.write [ ':', ':'],s.tail)
  else if c = ':'∧s.head?.any isIdentStart then do
    let (st,idx) ← slotNumber b st (s.takeWhile isIdentCont)
    .ok (st.write (placeholder idx),s.dropWhile isIdentCont)
  else .ok (st.write [c],s)

/-- The loop of `Compile`. Each turn takes at least a character, so that a text's length is fuel
enough. -/
def scan (b : Builder V) : Nat → Scan → Text → Except CompileError Scan
  | _, st, [] => .ok st
  | 0, st, _::_ => .ok st
  | n+1, st, c::s => do
    let (st,r) ← turn b st c s
    scan b n st r

def compile (b : Builder V) (sql : Text) : Except CompileError (Text × List (Option V)) := do
  let st ← scan b sql.length ⟨[],[],[]⟩ sql
  .ok (st.out,st.order.map fun name => b.vals.lookup name)

end Kitp.NamedSlots
