import Mathlib.Algebra.Ring.Int.Defs
import Mathlib.Data.List.Basic

/-! JSON values: what requests carry and what the attribute store keeps. -/
namespace Kitp

/-- A number as it is written: `mant·10^-scale`, times `10^exp` when it has an exponent. -/
structure Json.Number where
  mant : Int
  scale : Nat
  exp : Option Int
  deriving DecidableEq, Repr

inductive Json where
  | null
  | bool (b : Bool)
  | num (n : Json.Number)
  | str (s : String)
  | arr (xs : List Json)
  | obj (fields : List (String×Json))
  deriving Repr

namespace Json

namespace Number

def ofInt (n : Int) : Number := ⟨n,0,none⟩

/-- The exponent still to apply to `mant`. -/
def shift (n : Number) : Int := n.exp.getD 0-n.scale

/-- The decimals that remain once the exponent is applied. -/
def decimals (n : Number) : Nat := (-n.shift).toNat

/-- `mant` with a positive exponent multiplied in. -/
def digits (n : Number) : Int := n.mant*10^n.shift.toNat

/-- Equal as decimals, however they are written. -/
def same (m n : Number) : Bool := m.digits*10^n.decimals=n.digits*10^m.decimals

/-- The value of a number written without decimals. -/
def whole (n : Number) : Option Int := if n.decimals=0 then some n.digits else none

@[simp] theorem whole_ofInt (n : Int) : (ofInt n).whole=some n := by
  simp [whole,ofInt,decimals,digits,shift]

end Number

def ofInt (n : Int) : Json := .num (.ofInt n)

mutual

def beq : Json → Json → Bool
  | .null,.null => true
  | .bool a,.bool b => a=b
  | .num a,.num b => a=b
  | .str a,.str b => a=b
  | .arr xs,.arr ys => beqList xs ys
  | .obj fs,.obj gs => beqFields fs gs
  | _,_ => false

def beqList : List Json → List Json → Bool
  | [],[] => true
  | x::xs,y::ys => beq x y&&beqList xs ys
  | _,_ => false

def beqFields : List (String×Json) → List (String×Json) → Bool
  | [],[] => true
  | (k,x)::fs,(l,y)::gs => k=l&&beq x y&&beqFields fs gs
  | _,_ => false

end

mutual

theorem beq_iff : ∀ x y : Json, beq x y=true↔x=y
  | .null,y => by cases y <;> simp [beq]
  | .bool _,y => by cases y <;> simp [beq]
  | .num _,y => by cases y <;> simp [beq]
  | .str _,y => by cases y <;> simp [beq]
  | .arr xs,y => by cases y <;> simp [beq,beqList_iff xs]
  | .obj fs,y => by cases y <;> simp [beq,beqFields_iff fs]

theorem beqList_iff : ∀ xs ys : List Json, beqList xs ys=true↔xs=ys
  | [],ys => by cases ys <;> simp [beqList]
  | x::xs,ys => by cases ys <;> simp [beqList,beq_iff x,beqList_iff xs]

theorem beqFields_iff : ∀ fs gs : List (String×Json), beqFields fs gs=true↔fs=gs
  | [],gs => by cases gs <;> simp [beqFields]
  | (k,x)::fs,gs => by
    cases gs with
    | nil => simp [beqFields]
    | cons g gs => simp [beqFields,beq_iff x,beqFields_iff fs,Prod.ext_iff]

end

instance : DecidableEq Json := fun x y => decidable_of_iff _ (beq_iff x y)

/-- A number without exponent, its decimals after the point. -/
def Number.text (n : Number) : String :=
  let sign := if n.digits<0 then "-" else ""
  let ds := (toString n.digits.natAbs).toList
  let padded := List.replicate (n.decimals+1-ds.length) '0'++ds
  let cut := padded.length-n.decimals
  let point := if n.decimals=0 then [] else '.'::padded.drop cut
  sign++String.ofList (padded.take cut++point)

def escape (c : Char) : List Char :=
  let slash := Char.ofNat 92
  let hex (n : Nat) : Char := (Nat.digitChar (n%16))
  if c.toNat=34∨c.toNat=92 then [slash,c]
  else if c.toNat=8 then [slash,'b']
  else if c.toNat=12 then [slash,'f']
  else if c.toNat=10 then [slash,'n']
  else if c.toNat=13 then [slash,'r']
  else if c.toNat=9 then [slash,'t']
  else if c.toNat<32 then [slash,'u','0','0',hex (c.toNat/16),hex c.toNat]
  else [c]

def quoted (s : String) : String :=
  let quote := Char.ofNat 34
  String.ofList (quote::s.toList.flatMap escape++[quote])

mutual

/-- The text of a stored value: `jsonb::text`. -/
def text : Json → String
  | .null => "null"
  | .bool b => toString b
  | .num n => n.text
  | .str s => quoted s
  | .arr xs => "["++textList xs++"]"
  | .obj fs => "\x7b"++textFields fs++"\x7d"

def textList : List Json → String
  | [] => ""
  | [x] => text x
  | x::xs => text x++", "++textList xs

def textFields : List (String×Json) → String
  | [] => ""
  | [(k,x)] => quoted k++": "++text x
  | (k,x)::fs => quoted k++": "++text x++", "++textFields fs

end

/-- `value #>> '{}'`: a string as it is, anything else as its text. -/
def unquoted : Json → Option String
  | .null => none
  | .str s => some s
  | v => some v.text

/-- The order of the kinds of value in the database. -/
def rank : Json → Nat
  | .null => 0
  | .str _ => 1
  | .num _ => 2
  | .bool _ => 3
  | .arr _ => 4
  | .obj _ => 5

mutual

/-- The order stored values sort in: lists and objects by their size first. -/
def cmp : Json → Json → Ordering
  | .str a,.str b => compareOfLessAndEq a b
  | .num a,.num b => compare (a.digits*10^b.decimals) (b.digits*10^a.decimals)
  | .bool a,.bool b => compare a.toNat b.toNat
  | .arr xs,.arr ys => (compare xs.length ys.length).then (cmpList xs ys)
  | .obj fs,.obj gs => (compare fs.length gs.length).then (cmpFields fs gs)
  | x,y => compare x.rank y.rank

def cmpList : List Json → List Json → Ordering
  | x::xs,y::ys => (cmp x y).then (cmpList xs ys)
  | xs,ys => compare xs.length ys.length

def cmpFields : List (String×Json) → List (String×Json) → Ordering
  | (k,x)::fs,(l,y)::gs =>
    (compareOfLessAndEq k l).then ((cmp x y).then (cmpFields fs gs))
  | fs,gs => compare fs.length gs.length

end

/-- The first field of that name. -/
def field (j : Json) (name : String) : Option Json :=
  match j with
  | .obj fields => fields.lookup name
  | _ => none

end Json

end Kitp
