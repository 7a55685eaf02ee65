import Kitp.CardMerge
import Kitp.PersonEmails

/-! `person_merge_batch`: one row, the login and the addresses of the merged people with it. -/
namespace Kitp.PersonMerge
open Kitp.Store Kitp.Accounts Kitp.Attributes Kitp.CardMerge Kitp.PersonEmails Kitp.Steps

structure State where
  db : Db
  dir : Directory
  addresses : List Address

/-- The text functions of the database, and the emails of the accounts. -/
structure Env where
  text : Text
  accountEmail : Int → Option String

variable (env : Env) (db : Db) (actor survivor : Int) (losers : List Int)

def refuse {α : Type} (code message : String) : Except Refusal α :=
  .error ⟨code,"person.merge: "++message⟩

def validate (input : CardMerge.Input) : Except Refusal (Int×List Int) :=
  let losers := losersOf input
  match input.survivorId.filter (·≠0) with
  | none => refuse "validation" "survivor_id is required"
  | some survivor =>
    if losers=[] then refuse "validation" "loser_ids must be a non-empty array"
    else if survivor∈losers then refuse "validation" "survivor_id cannot also be a loser"
    else .ok (survivor,losers)

/-- A live `person` card. -/
def personCheck (role : String) (id : Int) : Except Refusal Unit :=
  match (db.card id).filter (!·.deleted) with
  | none => refuse "card_not_found" (role++s!" {id} not found or deleted")
  | some c =>
    if db.cardTypeName c≠some "person" then
      refuse "validation" (role++s!" {id} is not a person card")
    else .ok ()

/-- The logins of the merged people. -/
def logins (dir : Directory) : List AccountPerson :=
  dir.persons.filter fun l => l.personCardId=survivor∨l.personCardId∈losers

def loginCheck (dir : Directory) : Except Refusal Unit :=
  if 1<(logins survivor losers dir).length then
    refuse "merge_login_conflict" "more than one of these people has a login (user_account). Resolve the duplicate logins first; merging user accounts (sessions, tokens, agents, roles) is not supported here."
  else .ok ()

/-- `person_email_take_primary`. -/
def takePrimary (person : Int) (email : Option String) : Db :=
  let email := folded env.text (email.getD "")
  match db.attributeNamed "email" with
  | none => db
  | some d =>
    let primary := ((db.value person d.id).bind Json.unquoted).elim "" (folded env.text)
    if email=""∨primary=email then db
    else writeValue db actor person d.id (if primary="" then none else some (.str primary))
      (.str email)

/-- A loser's login is the survivor's, and its email the primary. -/
def moveLogin (s : State) : State :=
  match (logins survivor losers s.dir).head? with
  | none => s
  | some login =>
    if login.personCardId∈losers then
      { s with
        db := takePrimary env s.db actor survivor (env.accountEmail login.userAccountId)
        dir := { s.dir with persons := s.dir.persons.map fun l =>
          if l.personCardId∈losers then { l with personCardId := survivor } else l } }
    else s

/-- A survivor without an email takes the first loser's that has one. -/
def backfill : Db :=
  match db.attributeNamed "email" with
  | none => db
  | some d =>
    let email (id : Int) : String := ((db.value id d.id).bind Json.unquoted).getD ""
    if email survivor="" then
      match (losers.map email).find? (·≠"") with
      | none => db
      | some e => writeValue db actor survivor d.id none (.str e)
    else db

/-- A loser's address is added to the survivor's, verified if either was. -/
def takeAddress (rows : List Address) (a : Address) : List Address :=
  if rows.any fun r => r.personCardId=survivor∧r.email=a.email then
    rows.map fun r => if r.personCardId=survivor∧r.email=a.email then
      { r with verified := r.verified||a.verified } else r
  else rows++[{ a with personCardId := survivor }]

def moveAddresses (rows : List Address) : List Address :=
  (rows.filter (·.personCardId ∈ losers)).foldl (takeAddress survivor)
    (rows.filter (·.personCardId ∉ losers))

/-- One row. -/
def merge (s : State) (input : CardMerge.Input) : Except Refusal State := do
  let (survivor,losers) ← validate input
  personCheck s.db "survivor" survivor
  losers.forM (personCheck s.db "loser")
  loginCheck survivor losers s.dir
  let moved := moveLogin env actor survivor losers s
  return { moved with
    db := mergeInto (backfill moved.db actor survivor losers) actor survivor losers
    addresses := moveAddresses survivor losers moved.addresses }

variable {env : Env} {db : Db} {actor survivor : Int} {losers : List Int}

theorem validate_ok {input : CardMerge.Input} (h : validate input=.ok (survivor,losers)) :
    survivor∉losers := by
  simp only [validate] at h
  split at h
  · cases h
  · split at h
    · cases h
    · split at h
      · cases h
      · rename_i hs
        cases h
        exact hs

theorem personCheck_ok {role : String} {id : Int} (h : personCheck db role id=.ok ()) :
    ∃ c, db.card id=some c∧c.deleted=false∧db.cardTypeName c=some "person" := by
  unfold personCheck at h
  split at h
  · cases h
  · rename_i c hc
    obtain ⟨hcard,hlive⟩ := Option.filter_eq_some_iff.mp hc
    split at h
    · cases h
    · rename_i htype
      exact ⟨c,hcard,by simpa using hlive,not_not.mp htype⟩

/-- What a merge that went through was checked for, and what it leaves. -/
theorem merge_ok {s t : State} {input : CardMerge.Input} (h : merge env actor s input=.ok t) :
    ∃ survivor losers, survivor∉losers∧
      (∃ c, s.db.card survivor=some c∧c.deleted=false∧s.db.cardTypeName c=some "person")∧
      (∀ l∈losers, ∃ c, s.db.card l=some c∧c.deleted=false∧s.db.cardTypeName c=some "person")∧
      t={ moveLogin env actor survivor losers s with
        db := mergeInto (backfill (moveLogin env actor survivor losers s).db actor survivor losers)
          actor survivor losers
        addresses := moveAddresses survivor losers
          (moveLogin env actor survivor losers s).addresses } := by
  unfold merge at h
  obtain ⟨⟨survivor,losers⟩,hv,h⟩ := bind_ok h
  obtain ⟨_,hsurvivor,h⟩ := bind_ok h
  obtain ⟨_,hlosers,h⟩ := bind_ok h
  obtain ⟨_,_,h⟩ := bind_ok h
  cases h
  exact ⟨survivor,losers,validate_ok hv,personCheck_ok hsurvivor,
    fun l hl => personCheck_ok (forM_ok hlosers l hl),rfl⟩

/-- The emails it writes are texts on the survivor. -/
theorem moveLogin_inv {I : Db → Prop} {s : State} (h : I s.db)
    (hwrite : ∀ d old e, s.db.attributeNamed "email"=some d →
      I (writeValue s.db actor survivor d.id old (.str e))) :
    I (moveLogin env actor survivor losers s).db := by
  unfold moveLogin
  split
  · exact h
  · split
    · dsimp only
      unfold takePrimary
      dsimp only
      split
      · exact h
      · rename_i d hd
        split
        · exact h
        · exact hwrite d _ _ hd
    · exact h

theorem backfill_inv {I : Db → Prop} (h : I db)
    (hwrite : ∀ d old e, db.attributeNamed "email"=some d →
      I (writeValue db actor survivor d.id old (.str e))) :
    I (backfill db actor survivor losers) := by
  unfold backfill
  split
  · exact h
  · rename_i d hd
    dsimp only
    split
    · split
      · exact h
      · exact hwrite d _ _ hd
    · exact h

end Kitp.PersonMerge
