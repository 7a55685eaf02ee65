import Kitp.Attributes

/-! The addresses of a person, and what a sign-in's email makes of them
(`person_email_note_signin`). -/
namespace Kitp.PersonEmails
open Kitp.Attributes

/-- The database's `lower`, and its character classes. -/
structure Text where
  lower : String → String
  isSpace : Char → Bool
  isCntrl : Char → Bool

inductive Source where
  | signin
  | added
  deriving DecidableEq

/-- A row of `person_email`. -/
structure Address where
  personCardId : Int
  email : String
  source : Source
  verified : Bool
  verifyCodeHash : Option String
  verifyExpiresAt : Option Int
  deriving DecidableEq

/-- The activity row that wrote a value. -/
structure Written where
  actorId : Int
  actorAdmin : Option Bool
  deriving DecidableEq

/-- A `person` card. -/
structure Person where
  id : Int
  deleted : Bool
  title : Option String
  kind : Option String
  email : Option (String×Option Written)
  deriving DecidableEq

variable (text : Text)

/-- Neither side of a plain address holds one of these. -/
def special (c : Char) : Bool :=
  c∈['@',',',';',':','"','<','>','(',')','[',']','\\']||text.isSpace c||text.isCntrl c

/-- `email_plain`. -/
def emailPlain (email : String) : Bool :=
  let user := email.toList.takeWhile (!special text ·)
  let rest := email.toList.dropWhile (!special text ·)
  !user.isEmpty&&rest.head?=some '@'&&!rest.tail.isEmpty&&rest.tail.all (!special text ·)

/-- `lower(btrim(…))`. -/
def folded (email : String) : String := text.lower (trimBlanks email)

/-- The person card's `email`, as it is compared. -/
def primary (p : Person) : String := p.email.elim "" fun e => folded text e.1

/-- Verified on somebody, but for `person`. -/
def verifiedElsewhere (emails : List Address) (person : Int) (email : String) : Bool :=
  emails.any fun a => a.email=email&&a.verified&&a.personCardId≠person

def verifiedOn (emails : List Address) (person : Int) (email : String) : Bool :=
  emails.any fun a => a.personCardId=person&&a.email=email&&a.verified

/-- The sign-in's row, or what it leaves of the one there. -/
def notedRow (emails : List Address) (person : Int) (email : String) : List Address :=
  if emails.any fun a => a.personCardId=person∧a.email=email then
    emails.map fun a => if a.personCardId=person∧a.email=email then
      { a with source := .signin, verified := true, verifyCodeHash := none, verifyExpiresAt := none }
    else a
  else emails++[⟨person,email,.signin,true,none,none⟩]

def setEmail (persons : List Person) (person : Int) (email : String) (act : Written) :
    List Person :=
  persons.map fun p => if p.id=person then { p with email := some (email,some act) } else p

/-- `person_email_note_signin`; `old` is the login's previous email. -/
def noteSignin (persons : List Person) (emails : List Address) (person : Option Int)
    (email old : String) (act : Written) : List Person×List Address :=
  let email := folded text email
  match person with
  | none => (persons,emails)
  | some person =>
    if email=""∨!emailPlain text email∨verifiedElsewhere emails person email then (persons,emails)
    else
      let emails := notedRow emails person email
      let current := ((persons.find? (·.id=person)).map (primary text)).getD ""
      if current=email∨(current≠""∧current≠folded text old∧verifiedOn emails person current) then
        (persons,emails)
      else (setEmail persons person email act,emails)

end Kitp.PersonEmails
