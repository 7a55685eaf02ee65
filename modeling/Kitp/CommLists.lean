import Kitp.Accounts
import Kitp.Attributes

/-! The lists kitp keeps on a card, a thread's messages and people and a task's threads: how
each writer changes the list that is stored. -/
namespace Kitp.CommLists
open Kitp.Store Kitp.Accounts Kitp.Attributes

/-- A stored list's elements; anything but an array has none. -/
def elems : Option Json → List Json
  | some (.arr xs) => xs
  | _ => []

def numbers (ids : List Int) : Json := .arr (ids.map .ofInt)

/-- The card at the end of the list, whose strings of digits become numbers. -/
def appended (stored : Option Json) (id : Int) : Json :=
  .arr ((elems stored).map canonRef++[.ofInt id])

/-- `e.v #>> '{}' = id::text`. -/
def readsAs (id : Int) : Json → Bool
  | .num n => n.whole=some id
  | .str s => s=toString id
  | _ => false

def without (stored : Option Json) (id : Int) : List Json :=
  (elems stored).filter (!readsAs id ·)

/-- `fmt.Sscanf(s, "%d", &n)`: what is after the number is left unread. -/
def scanInt (s : String) : Option Int :=
  let value (cs : List Char) : Option Int :=
    let ds := cs.takeWhile Char.isDigit
    if ds=[] then none else some (ds.foldl (fun n d => 10*n+(d.toNat-48 : Nat)) 0)
  match s.toList.dropWhile (· = ' ') with
  | '-'::cs => (value cs).map (-·)
  | '+'::cs => value cs
  | cs => value cs

/-- `decodeCardRefArray`. -/
def decodeCardRefArray (stored : Option Json) : List Int :=
  (elems stored).filterMap fun x => match x with
    | .num n => n.whole
    | .str s => scanInt s
    | _ => none

/-- What `appendCardRefList` writes. -/
def appendRef (stored : Option Json) (id : Int) : Json :=
  numbers (decodeCardRefArray stored++[id])

/-- `'^[0-9]{1,18}$'` of an element's text. -/
def personId (x : Json) : Option Int :=
  match x with
  | .num n => n.whole.filter fun i => 0 ≤ i∧i<10^18
  | .str s => if s.toList.all Char.isDigit∧s.length ≤ 18 then idText s else none
  | _ => none

/-- What `comm_people_edit` writes. -/
def peopleEdited (stored : Option Json) (add drop : List Int) : Json :=
  numbers ((((elems stored).filterMap personId++add).filter (·∉drop)).eraseDups)

/-- The most people on one thread. -/
def maxCommRecipients : Nat := 100

/-- What `comm_author_join` writes, for someone who isn't on the thread and fits. -/
def authorJoined (stored : Option Json) (person : Int) : Option Json :=
  if (elems stored).any (readsAs person)||maxCommRecipients ≤ (elems stored).length then none
  else some (.arr (elems stored++[.ofInt person]))

/-- What `mergeCommRecipients` writes, when anyone is new: none who was taken off, and no
more than fit. -/
def mergedRecipients (stored removed : Option Json) (add : List Int) : Option Json :=
  let existing := decodeCardRefArray stored
  let merged := add.foldl (fun (s : List Int×List Int) id =>
    if id∈s.1 then s
    else (id::s.1,if maxCommRecipients ≤ s.2.length then s.2 else s.2++[id]))
      (existing++decodeCardRefArray removed,existing)
  if merged.2.length=existing.length then none else some (numbers merged.2)

variable (dir : Directory) (db : Db) (actor card : Int)

def stored (name : String) : Option Json :=
  (db.attributeNamed name).bind fun d => db.value card d.id

/-- `writeAttributeValue`: the activity has no old value. -/
def put (name : String) (v : Json) : Db :=
  (db.attributeNamed name).elim db fun d => writeValue db actor card d.id none v

/-- `appendCardRefList`. -/
def appendCardRefList (name : String) (id : Int) : Db :=
  put db actor card name (appendRef (stored db card name) id)

/-- `comm_people_edit`, which logs nothing. -/
def peopleEdit (name : String) (add drop : List Int) : Db :=
  if (add=[]∧drop=[])∨((stored db card name).isNone∧add=[]) then db
  else (db.attributeNamed name).elim db fun d =>
    db.setValue card d.id (peopleEdited (stored db card name) add drop)

/-- `comm_confirm`. -/
def confirm (people : List Int) : Db :=
  if people=[] then db
  else peopleEdit (peopleEdit db card "comm_confirmed" people []) card "comm_removed" [] people

/-- `comm_remove`. -/
def remove (people : List Int) : Db :=
  if people=[] then db
  else peopleEdit (peopleEdit db card "comm_confirmed" [] people) card "comm_removed" people []

def emailOf (person : Int) : String := ((stored db person "email").bind Json.unquoted).getD ""

/-- The person a message written in kitp is from, who can be written to. -/
def authorPerson (author : Int) : Option Int :=
  (((dir.accounts.filter (·.id=author)).flatMap fun u =>
    (dir.persons.filter fun p => personOf u=some p.userAccountId∧db.live p.personCardId∧
      emailOf db p.personCardId≠"").map (·.personCardId))).head?

/-- `comm_author_join`. -/
def authorJoin (author : Int) : Db :=
  match (authorPerson dir db author).bind fun p =>
      authorJoined (stored db card "comm_recipients") p with
  | none => db
  | some v => put db author card "comm_recipients" v

/-- `mergeCommRecipients`. -/
def mergeCommRecipients (add : List Int) : Db :=
  match mergedRecipients (stored db card "comm_recipients") (stored db card "comm_removed") add with
  | none => db
  | some v => put db actor card "comm_recipients" v

/-- `email_plain`. -/
def emailPlain (email : String) : Bool :=
  let odd (c : Char) : Bool := c∈[ ',', ';', ':', Char.ofNat 34, '<', '>', '(', ')', '[',']',
    Char.ofNat 92]||c.toNat ≤ 32||(127 ≤ c.toNat&&c.toNat ≤ 0xA0)||c.toNat=0x1680||
    (0x2000 ≤ c.toNat&&c.toNat ≤ 0x200A)||c.toNat∈[0x2028,0x2029,0x202F,0x205F,0x3000]
  let before := email.toList.takeWhile (·≠ '@')
  let after := email.toList.drop (before.length+1)
  before≠[]&&after≠[]&&(before++after).all fun c => c≠ '@'&&!odd c

/-- The addresses a message to the thread goes to; `joined` keeps the people it may name. -/
def toAddresses (joined : Int → Bool) : List String :=
  (elems (stored db card "comm_recipients")).filterMap fun x => match x with
    | .num n => (n.whole.filter joined).bind fun p =>
        some (emailOf db p) |>.filter fun e => e≠""∧emailPlain e
    | _ => none

end Kitp.CommLists
