import Kitp.Lib.Versions
import Kitp.PersonEmailAdds
import Kitp.PersonMerge

/-! A person's addresses under READ COMMITTED: the statements of `person_email.add`, `verify`,
`remove` and `set_primary`, of a sign-in and of `person.merge`, in any order. -/
namespace Kitp.PersonEmails
open Kitp.Store Kitp.Accounts Kitp.Attributes Kitp.Versions

/-- The operation that wrote a primary. -/
inductive Setter where
  | card
  | merge
  | chosen
  | signin
  deriving DecidableEq

/-- A person card's `email`. -/
structure Primary where
  email : String
  setter : Setter
  deriving DecidableEq

structure Merge where
  survivor : Int
  losers : List Int

/-- How far a transaction is in what it is doing. -/
inductive Task where
  | idle
  | failed (r : Refusal)
  | adding (person : Int) (email hash : String) (expires : Int)
  | verifying (person : Int) (email hash : String) (now : Int)
  | removing (person : Int) (email : String)
  | choosing (person : Int) (email : String)
  | noting (person : Int) (email old : String)
  | noted (person : Int) (email old : String)
  | weighing (person : Int) (email primary : String)
  | setting (person : Int) (email : String) (setter : Setter)
  | relinked (m : Merge) (email : String)
  | crowning (m : Merge) (email : String)
  | filling (m : Merge)
  | searching (m : Merge)
  | backfilling (m : Merge) (email : String)
  | emptying (m : Merge)
  | taking (m : Merge) (keys : List (Int×String)) (taken : List Address)
  | laying (m : Merge) (taken : List Address)

/-- The tables, the live person cards, those each transaction deleted, and its task. -/
structure State (ι : Type) where
  addresses : Table ι (Int×String) Address
  primaries : Table ι Int Primary
  people : List Int
  gone : ι → List Int
  task : ι → Task

/-- `person_email_verified`: the unique index on the verified addresses. -/
def verifiedEmail (k : Int×String) (a : Address) : Option String :=
  if a.verified then some k.2 else none

inductive Op where
  | add (env : AddEnv) (caller : Caller) (sent : List Sent) (batch : List String) (input : AddInput)
  | verify (caller : Caller) (email hash : String) (now : Int)
  | remove (caller : Caller) (person : Option Int) (email : String)
  | setPrimary (caller : Caller) (email : String)
  | noteSignin (person : Option Int) (email old : String)
  | merge (env : PersonMerge.Env) (dir : Directory) (input : CardMerge.Input)

inductive Event (ι : Type) where
  | call (i : ι) (op : Op)
  | next (i : ι)
  | commit (i : ι)
  | abort (i : ι)

/-- What a statement writes, or takes away. -/
inductive Effect where
  | none
  | address (k : Int×String) (a : Option Address)
  | primary (person : Int) (x : Primary)
  | gone (losers : List Int)

variable {ι : Type} [DecidableEq ι] (text : Text) (s : State ι) (i : ι)

namespace State

def goTo (task : Task) : State ι := { s with task := Function.update s.task i task }

def apply : Effect → State ι
  | .none => s
  | .address k a => { s with addresses := s.addresses.put i k a }
  | .primary person x => { s with primaries := s.primaries.put i person (some x) }
  | .gone losers => { s with gone := Function.update s.gone i (losers++s.gone i) }

def address (person : Int) (email : String) : Option Address := s.addresses.view i (person,email)

/-- The addresses a statement sees. -/
def rows : List Address := (s.addresses.scan i).map (·.2)

/-- The primary's text, none for a card without one. -/
def primary (person : Int) : Option String := (s.primaries.view i person).map (·.email)

def live (person : Int) : Bool := person∈s.people&&person∉s.gone i

end State

def pass (task : Task) : Option (Effect×Task) := some (.none,task)

def fail (code message : String) : Option (Effect×Task) := pass (.failed ⟨code,message⟩)

/-- `add`'s checks. -/
def callAdd (env : AddEnv) (caller : Caller) (sent : List Sent) (batch : List String)
    (input : AddInput) : Option (Effect×Task) :=
  match add env caller ⟨s.rows i,sent⟩ batch input with
  | .error e => pass (.failed e)
  | .ok a => pass (.adding a.person a.email a.codeHash (env.now+86400))

/-- `verify`: the row is locked and its code compared. -/
def callVerify (caller : Caller) (email hash : String) (now : Int) : Option (Effect×Task) :=
  let email := folded text email
  match caller.person.filter fun _ => !caller.agent with
  | none => fail "forbidden" "person_email.verify: only the person verifies their addresses"
  | some person =>
    match s.address i person email with
    | none => fail "not_found" "person_email.verify: you haven't added that address"
    | some a =>
      if !s.addresses.free i (person,email) then none
      else if a.verified then some (.address (person,email) (some a),.idle)
      else if a.verifyCodeHash=none∨a.verifyExpiresAt.any (· < now) then
        fail "expired" "person_email.verify: that code has expired; send a new one"
      else if a.verifyCodeHash≠some hash then
        fail "invalid_code" "person_email.verify: that code doesn't match"
      else some (.address (person,email) (some a),.verifying person email hash now)

def callRemove (caller : Caller) (person : Option Int) (email : String) : Option (Effect×Task) :=
  let email := folded text email
  match person.or caller.person with
  | none => fail "forbidden"
      "person_email.remove: only the person, or an admin, removes their addresses"
  | some p =>
    if (some p≠caller.person∨caller.agent)∧!caller.admin then
      fail "forbidden" "person_email.remove: only the person, or an admin, removes their addresses"
    else if (s.primary i p).any (folded text · = email) then
      fail "primary" "person_email.remove: that is the primary address; choose another primary first"
    else pass (.removing p email)

def callSetPrimary (caller : Caller) (email : String) : Option (Effect×Task) :=
  let email := folded text email
  match caller.person.filter fun _ => !caller.agent with
  | none => fail "forbidden"
      "person_email.set_primary: only the person chooses their primary address"
  | some person =>
    if !(s.address i person email).any (·.verified) then
      fail "not_verified"
        "person_email.set_primary: only a verified address of yours can be the primary"
    else pass (.choosing person email)

def callNoteSignin (person : Option Int) (email old : String) : Option (Effect×Task) :=
  let email := folded text email
  match person with
  | none => pass .idle
  | some person =>
    if email=""∨!emailPlain text email∨verifiedElsewhere (s.rows i) person email then pass .idle
    else pass (.noting person email old)

/-- `merge`: the checks, and the login that moves. -/
def callMerge (env : PersonMerge.Env) (dir : Directory) (input : CardMerge.Input) :
    Option (Effect×Task) :=
  match PersonMerge.validate input with
  | .error e => pass (.failed e)
  | .ok (survivor,losers) =>
    match (survivor::losers).find? (!s.live i ·) with
    | some id => fail "card_not_found" ("person.merge: "++
        (if id=survivor then "survivor" else "loser")++s!" {id} not found or deleted")
    | none =>
      match PersonMerge.loginCheck survivor losers dir with
      | .error e => pass (.failed e)
      | .ok _ =>
        match (PersonMerge.logins survivor losers dir).head?.filter (·.personCardId∈losers) with
        | none => pass (.filling ⟨survivor,losers⟩)
        | some login =>
          pass (.relinked ⟨survivor,losers⟩ ((env.accountEmail login.userAccountId).getD ""))

def call : Op → Option (Effect×Task)
  | .add env caller sent batch input => callAdd s i env caller sent batch input
  | .verify caller email hash now => callVerify text s i caller email hash now
  | .remove caller person email => callRemove text s i caller person email
  | .setPrimary caller email => callSetPrimary text s i caller email
  | .noteSignin person email old => callNoteSignin text s i person email old
  | .merge env dir input => callMerge s i env dir input

/-- An upsert of an address that may be verified: it waits for the row and for the index, and
is `refused` where somebody else has the address. -/
def upsert (person : Int) (email : String) (a : Address) (refused done : Task) :
    Option (Effect×Task) :=
  let k := (person,email)
  if !s.addresses.free i k∨!s.addresses.settled i k verifiedEmail a then none
  else if s.addresses.taken i k verifiedEmail a then pass refused
  else some (.address k (some a),done)

def setPrimaryRow (person : Int) (email : String) (setter : Setter) (done : Task) :
    Option (Effect×Task) :=
  if s.primaries.free i person then some (.primary person ⟨email,setter⟩,done) else none

/-- The next statement of a task, none where it waits. -/
def next : Task → Option (Effect×Task)
  | .idle => none
  | .failed _ => none
  | .adding person email hash expires =>
    let a := ((s.address i person email).map fun a =>
      { a with verifyCodeHash := some hash, verifyExpiresAt := some expires }).getD
        ⟨person,email,.added,false,some hash,some expires⟩
    if s.addresses.free i (person,email) then some (.address (person,email) (some a),.idle) else none
  | .verifying person email _ _ =>
    (s.address i person email).bind fun a =>
      upsert s i person email
        { a with verified := true, verifyCodeHash := none, verifyExpiresAt := none }
        (.failed ⟨"in_use","person_email.verify: someone else verified that address first"⟩) .idle
  | .removing person email =>
    if (s.address i person email).isNone then
      fail "not_found" "person_email.remove: no such address"
    else if s.addresses.free i (person,email) then some (.address (person,email) none,.idle)
    else none
  | .choosing person email =>
    if text.lower ((s.primary i person).getD "")=text.lower email then pass .idle
    else pass (.setting person email .chosen)
  | .noting person email old =>
    let a := ((s.address i person email).map fun a => { a with
      source := .signin, verified := true, verifyCodeHash := none, verifyExpiresAt := none }).getD
        ⟨person,email,.signin,true,none,none⟩
    upsert s i person email a .idle (.noted person email old)
  | .noted person email old =>
    let primary := folded text ((s.primary i person).getD "")
    if primary=email then pass .idle
    else if primary≠""∧primary≠folded text old then pass (.weighing person email primary)
    else pass (.setting person email .signin)
  | .weighing person email primary =>
    if (s.address i person primary).any (·.verified) then pass .idle
    else pass (.setting person email .signin)
  | .setting person email setter => setPrimaryRow s i person email setter .idle
  | .relinked m email =>
    let email := folded text email
    if email=""∨folded text ((s.primary i m.survivor).getD "")=email then pass (.filling m)
    else pass (.crowning m email)
  | .crowning m email => setPrimaryRow s i m.survivor email .merge (.filling m)
  | .filling m =>
    if (s.primary i m.survivor).getD ""="" then pass (.searching m) else pass (.emptying m)
  | .searching m =>
    match (m.losers.filterMap (s.primary i)).find? (·≠"") with
    | none => pass (.emptying m)
    | some email => pass (.backfilling m email)
  | .backfilling m email => setPrimaryRow s i m.survivor email .merge (.emptying m)
  | .emptying m => pass (.taking m (((s.addresses.scan i).map (·.1)).filter (·.1∈m.losers)) [])
  | .taking m [] taken => pass (.laying m taken)
  | .taking m (k::keys) taken =>
    match s.addresses.view i k with
    | none => pass (.taking m keys taken)
    | some a =>
      if s.addresses.free i k then some (.address k none,.taking m keys (taken++[a])) else none
  | .laying m [] => some (.gone m.losers,.idle)
  | .laying m (a::taken) =>
    let row := ((s.address i m.survivor a.email).map fun b =>
      { b with verified := b.verified||a.verified }).getD { a with personCardId := m.survivor }
    upsert s i m.survivor a.email row (.failed ⟨"internal","person_email_verified"⟩) (.laying m taken)

/-- A transaction does what a statement does. -/
def State.turn (r : Effect×Task) : State ι := (s.apply i r.1).goTo i r.2

/-- The transaction ends with these tables. -/
def State.close (addresses : Table ι (Int×String) Address) (primaries : Table ι Int Primary)
    (people : List Int) : State ι where
  addresses := addresses
  primaries := primaries
  people := people
  gone := Function.update s.gone i []
  task := Function.update s.task i .idle

def step : Event ι → Option (State ι)
  | .call i op => match s.task i with
    | .idle => (call text s i op).map (s.turn i)
    | _ => none
  | .next i => (next text s i (s.task i)).map (s.turn i)
  | .commit i => match s.task i with
    | .idle => some (s.close i (s.addresses.commit i) (s.primaries.commit i)
        (s.people.filter (· ∉ s.gone i)))
    | _ => none
  | .abort i => some (s.close i (s.addresses.abort i) (s.primaries.abort i) s.people)

end Kitp.PersonEmails
