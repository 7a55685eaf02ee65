import Kitp.Store

/-! Attribute values: the forms a write accepts, the form it stores, and the rows it leaves
in the store and in the activity log. -/
namespace Kitp.Attributes
open Kitp.Store

/-- `(value)::text::bigint`. -/
def castBigint (n : Json.Number) : Except Refusal Int :=
  match n.whole with
  | some i => .ok i
  | none => .error ⟨"22P02","invalid input syntax for type bigint: "++Json.quoted n.text⟩

/-- A card a request names: a number, or a string of digits. -/
def refValue (process attrName : String) : Json → Except Refusal Int
  | .num n => castBigint n
  | .str s =>
    match idText s with
    | some i => .ok i
    | none => .error ⟨"validation",process++": "++attrName++
        ": card_ref value not a number or numeric string: "++(Json.str s).text⟩
  | v => .error ⟨"validation",process++": "++attrName++
      ": card_ref value not a number or numeric string: "++v.text⟩

/-- The cards a `card_ref[]` value names. -/
def refValues (process attrName : String) : Json → Except Refusal (List Int)
  | .arr xs => xs.mapM (refValue process attrName)
  | _ => .error ⟨"validation",process++": "++attrName++
      ": value must be a JSON array of card ids"⟩

/-- A string of digits becomes the number. -/
def canonRef : Json → Json
  | .str s => (idText s).elim (.str s) .ofInt
  | v => v

/-- Eighteen digits at most, as `'^-?\d{1,18}$'`. -/
def smallText (s : String) : Option Int :=
  let digits := if s.toList.head? = some '-' then s.toList.tail else s.toList
  if digits.length ≤ 18 then idText s else none

/-- `btrim`. -/
def trimBlanks (s : String) : String :=
  let cut (cs : List Char) := cs.dropWhile (· = ' ')
  String.ofList (cut (cut s.toList).reverse).reverse

/-- `attr_scalar_norm`. -/
def attrScalarNorm (t : ValueType) (v : Json) : Option Json :=
  match t,v with
  | .text,.str s => some (.str s)
  | .text,.num n => some (.str n.text)
  | .text,.bool b => some (.str (toString b))
  | .text,_ => none
  | .bool,.bool b => some (.bool b)
  | .bool,.str s =>
    if s.toLower="true" then some (.bool true)
    else if s.toLower="false" then some (.bool false) else none
  | .bool,_ => none
  | .number,.num n => (smallText n.text).map fun _ => .num n
  | .number,.str s => (smallText (trimBlanks s)).map .ofInt
  | .number,_ => none
  | _,v => some v

def daysIn (year month : Nat) : Nat :=
  if month=2 then if year%4=0∧(year%100≠0∨year%400=0) then 29 else 28
  else if month=4∨month=6∨month=9∨month=11 then 30 else 31

def digitsValue (cs : List Char) : Option Nat :=
  if cs.all Char.isDigit then some (cs.foldl (fun n d => 10*n+(d.toNat-48)) 0) else none

/-- `iso_date_ok`. -/
def isoDateOk (s : String) : Bool :=
  match s.toList with
  | [a,b,c,d,x,e,f,y,g,h] =>
    if x = '-' ∧ y = '-' then
      match digitsValue [a,b,c,d],digitsValue [e,f],digitsValue [g,h] with
      | some year,some month,some day =>
        1 ≤ year∧1 ≤ month∧month ≤ 12∧1 ≤ day∧day ≤ daysIn year month
      | _,_,_ => false
    else false
  | _ => false

/-- The attributes only kitp sets. -/
def setByKitp : List String :=
  ["bundle_key","replies","comms","subscriber","comm_confirmed","comm_removed",
    "comm_recipients","reply_message_id","reply_refused"]

variable (acc : Access) (db : Db) (actor : Int)

/-- A refusal of a named card: missing, another type's and another project's read alike. -/
def notHere (attrName : String) (id : Int) : Refusal :=
  ⟨"cross_project_ref","attribute "++quoteLiteral attrName++s!": value card {id} can't be used here"⟩

/-- The project part of the scope check; a global card is used anywhere, a global person
where the caller may name it. -/
def scopeCheck (attr : AttributeDef) (project : Option Int) (id : Int) (c : Card) :
    Except Refusal Unit :=
  if attr.targetCardTypeId.any (·≠c.cardTypeId) then .error (notHere attr.name id)
  else match cardEnclosingProject db id with
    | none =>
      if db.cardTypeName c=some "person"∧!acc.personReferable db actor id project then
        .error (notHere attr.name id)
      else .ok ()
    | some p => if project≠some p then .error (notHere attr.name id) else .ok ()

/-- The value is stored already: numbers compare as decimals. -/
def holds (stored : Option Json) (v : Json) : Bool :=
  match stored,v with
  | some (.num m),.num n => m.same n
  | stored,v => stored=some v

/-- An `attr_update` activity and the value it records. -/
def writeValue (cardId attributeDefId : Int) (old : Option Json) (new : Json) : Db :=
  (db.log ⟨cardId,"attr_update",some attributeDefId,old,some new,actor⟩).setValue cardId
    attributeDefId new

theorem writeValue_keeps (cardId attributeDefId : Int) (old : Option Json) (new : Json) :
    SameCards db (writeValue db actor cardId attributeDefId old new) := ⟨rfl,rfl,rfl,rfl,rfl⟩

theorem writeValue_self (cardId attributeDefId : Int) (old : Option Json) (new : Json) :
    (writeValue db actor cardId attributeDefId old new).value cardId attributeDefId=some new :=
  setValue_self _ cardId attributeDefId new

theorem writeValue_ne {cardId attributeDefId c d : Int} (h : ¬(c=cardId∧d=attributeDefId))
    (old : Option Json) (new : Json) :
    (writeValue db actor cardId attributeDefId old new).value c d=db.value c d :=
  setValue_ne h _ new

theorem writeValue_value (cardId attributeDefId : Int) (old : Option Json) (new : Json) (c d : Int) :
    (writeValue db actor cardId attributeDefId old new).value c d=
      if c=cardId∧d=attributeDefId then some new else db.value c d := by
  by_cases h : c=cardId∧d=attributeDefId
  · rw [if_pos h,h.1,h.2,writeValue_self]
  · rw [if_neg h]
    exact setValue_ne h _ new

end Kitp.Attributes
