import Kitp.PersonEmails

/-! `person_email.add`: a call's rows (`person_email_add_batch`), and the codes that go out
after them (`sendCodes`). -/
namespace Kitp.PersonEmails
open Kitp.Store Kitp.Attributes

/-- A row of `person_email_code_sent`. -/
structure Sent where
  personCardId : Int
  email : String
  sentAt : Int
  deriving DecidableEq

structure Caller where
  person : Option Int
  agent : Bool
  admin : Bool

structure AddInput where
  email : Option String
  codeHash : Option String

structure Mailbox where
  enabled : Bool
  ready : Bool
  fromAddress : String

/-- Seconds; what the mail account says of itself, and of a code it is to send. -/
structure AddEnv where
  text : Text
  now : Int
  sender : Option Int
  config : Int → Except Refusal Mailbox
  deliver : String → Option Refusal
  recordedAt : Int

structure World where
  rows : List Address
  sent : List Sent

/-- What a row's SQL answers. -/
structure Added where
  email : String
  sender : Int
  send : Bool
  person : Int
  codeHash : String

/-- What the caller is told. -/
structure AddAnswer where
  email : String
  senderChannelId : Int
  deriving DecidableEq

def refuseAdd {α : Type} (code message : String) : Except Refusal α :=
  .error ⟨code,"person_email.add: "++message⟩

/-- `'^[0-9a-f]{64}$'`. -/
def hexHash (s : String) : Bool :=
  s.length=64&&s.toList.all fun c => ('0' ≤ c&&c ≤ '9')||('a' ≤ c&&c ≤ 'f')

variable (env : AddEnv) (caller : Caller)

/-- The checks of a row, over the caller's own addresses. -/
def addCheck (own : List Address) (sent : List Sent) (batch : List String) (person : Int)
    (email hash : String) : Except Refusal Int :=
  if email=""∨320<email.length∨!emailPlain env.text email then
    refuseAdd "validation" "that isn't an email address kitp can send to"
  else if !hexHash hash then refuseAdd "internal" "no code"
  else match env.sender with
    | none => refuseAdd "no_sender"
        "no mail account sends account emails; ask an admin to choose one"
    | some sender =>
      if own.any fun a => a.email=email&&a.verified then
        refuseAdd "already_verified" "that address is already verified"
      else if 20 ≤ own.length∧!own.any (·.email=email) then
        refuseAdd "limit" "at most 20 addresses"
      else if 5 ≤ (sent.filter fun s => s.personCardId=person∧env.now-3600 < s.sentAt).length+
          batch.length then
        refuseAdd "limit" "at most 5 codes an hour; try again later"
      else if email∈batch∨sent.any fun s => s.email=email∧env.now-60 < s.sentAt then
        refuseAdd "limit" "a code went to that address a moment ago; wait a minute"
      else if 5 ≤ (sent.filter fun s => s.email=email∧env.now-86400 < s.sentAt).length then
        refuseAdd "limit" "at most 5 codes a day to one address; try again tomorrow"
      else .ok sender

def ownRows (person : Int) (rows : List Address) : List Address :=
  rows.filter (·.personCardId=person)

def add (w : World) (batch : List String) (input : AddInput) : Except Refusal Added :=
  let email := folded env.text (input.email.getD "")
  let hash := input.codeHash.getD ""
  if caller.agent then refuseAdd "forbidden" "an agent can't add addresses; its owner adds theirs"
  else match caller.person with
    | none => refuseAdd "no_person" "your account has no person card"
    | some person =>
      (addCheck env (ownRows person w.rows) w.sent batch person email hash).map fun sender =>
        ⟨email,sender,!w.rows.any fun a => a.email=email&&a.verified,person,hash⟩

/-- The address waits for its code, a new one if it waited already. -/
def codedRow (person : Int) (email hash : String) (expires : Int) (rows : List Address) :
    List Address :=
  if rows.any fun a => a.personCardId=person∧a.email=email then
    rows.map fun a => if a.personCardId=person∧a.email=email then
      { a with verifyCodeHash := some hash, verifyExpiresAt := some expires } else a
  else rows++[⟨person,email,.added,false,some hash,some expires⟩]

def written (w : World) (a : Added) : World where
  rows := codedRow a.person a.email a.codeHash (env.now+86400) w.rows
  sent := w.sent.filter fun s => env.now-86400 ≤ s.sentAt

/-- The rows of a call, to the first that is refused. -/
def addRows : World → List String → Nat → List AddInput → Except (Nat×Refusal) (World×List Added)
  | w,_,_,[] => .ok (w,[])
  | w,batch,n,input::inputs =>
    match add env caller w batch input with
    | .error e => .error (n,e)
    | .ok a => (addRows (written env w a) (batch++[a.email]) (n+1) inputs).map fun r =>
        (r.1,a::r.2)

def mailboxCheck (m : Mailbox) : Except Refusal Unit :=
  if !m.enabled then
    .error ⟨"no_sender","the mail account for account emails is switched off; ask an admin"⟩
  else if !m.ready∨m.fromAddress="" then
    .error ⟨"no_sender",
      "the mail account for account emails has no way out or From address; ask an admin"⟩
  else .ok ()

/-- `sendCodes`: each send is recorded for good before its mail goes. -/
def sendCodes : Nat → List Added → List Sent×Except (Nat×Refusal) Unit
  | _,[] => ([],.ok ())
  | n,a::added =>
    match (env.config a.sender).bind mailboxCheck with
    | .error e => ([],.error (n,e))
    | .ok _ =>
      let recorded : Sent := ⟨a.person,a.email,env.recordedAt⟩
      match (env.deliver a.email).filter fun _ => a.send with
      | some e => ([recorded],.error (n,e))
      | none => ((sendCodes (n+1) added).map (recorded::·) id)

def AddAnswer.of (a : Added) : AddAnswer := ⟨a.email,a.sender⟩

/-- A call, and what it leaves. -/
def addCall (w : World) (inputs : List AddInput) :
    Except (Nat×Refusal) (List AddAnswer)×World :=
  match addRows env caller w [] 0 inputs with
  | .error e => (.error e,w)
  | .ok (w',added) =>
    match sendCodes env 0 added with
    | (recorded,.error e) => (.error e,{ w with sent := w.sent++recorded })
    | (recorded,.ok _) => (.ok (added.map .of),{ w' with sent := w'.sent++recorded })

/-- The same as far as the person's own addresses and the codes sent go. -/
def AlikeFor (person : Int) (w w' : World) : Prop :=
  ownRows person w.rows=ownRows person w'.rows∧w.sent=w'.sent

/-- The same but for whether a code goes out. -/
def Added.Alike (a b : Added) : Prop := { a with send := b.send }=b

variable {env : AddEnv} {caller : Caller} {person : Int} {w w' : World} {batch : List String}
  {inputs : List AddInput}

theorem ownRows_codedRow (email hash : String) (expires : Int) (rows : List Address) :
    ownRows person (codedRow person email hash expires rows)=
      codedRow person email hash expires (ownRows person rows) := by
  have hany : (ownRows person rows).any (fun a => a.personCardId=person∧a.email=email)=
      rows.any fun a => a.personCardId=person∧a.email=email := by
    rw [ownRows,List.any_filter]
    congr 1
    funext a
    by_cases ha : a.personCardId=person
    · simp [ha]
    · simp [ha]
  unfold codedRow
  rw [hany]
  split
  · rw [ownRows,List.filter_map,ownRows]
    congr 1
    refine List.filter_congr ?_
    intro a _
    simp only [Function.comp_apply]
    split
    · rfl
    · rfl
  · rw [ownRows,List.filter_append]
    simp [ownRows]

/-- A row's checks and what it writes of the caller's own don't depend on the others'. -/
theorem add_alike (env : AddEnv) (batch : List String) (input : AddInput)
    (hw : AlikeFor person w w') (hc : ∀ p, caller.person=some p → p=person) :
    (∃ e, add env caller w batch input=.error e∧add env caller w' batch input=.error e)∨
      ∃ a b, add env caller w batch input=.ok a∧add env caller w' batch input=.ok b∧
        Added.Alike a b∧a.person=person := by
  unfold add
  dsimp only
  split
  · exact .inl ⟨_,rfl,rfl⟩
  · split
    · exact .inl ⟨_,rfl,rfl⟩
    · rename_i p hp
      cases hc p hp
      rw [← hw.1,← hw.2]
      cases addCheck env (ownRows person w.rows) w.sent batch person
          (folded env.text (input.email.getD "")) (input.codeHash.getD "") with
      | error e => exact .inl ⟨e,rfl,rfl⟩
      | ok sender => exact .inr ⟨_,_,rfl,rfl,rfl,rfl⟩

theorem written_alike {a b : Added} (hw : AlikeFor person w w') (hab : a.Alike b)
    (ha : a.person=person) : AlikeFor person (written env w a) (written env w' b) := by
  have hb : b.person=person∧b.email=a.email∧b.codeHash=a.codeHash := by
    rw [← hab]
    exact ⟨ha,rfl,rfl⟩
  refine ⟨?_,by simp only [written,hw.2]⟩
  simp only [written,ha,hb,ownRows_codedRow,hw.1]

theorem addRows_alike (env : AddEnv) (batch : List String) (n : Nat) (inputs : List AddInput)
    (hw : AlikeFor person w w') (hc : ∀ p, caller.person=some p → p=person) :
    (∃ e, addRows env caller w batch n inputs=.error e∧addRows env caller w' batch n inputs=.error e)∨
      ∃ v v' added added', addRows env caller w batch n inputs=.ok (v,added)∧
        addRows env caller w' batch n inputs=.ok (v',added')∧AlikeFor person v v'∧
        List.Forall₂ Added.Alike added added' := by
  induction inputs generalizing w w' batch n with
  | nil => exact .inr ⟨w,w',[],[],rfl,rfl,hw,.nil⟩
  | cons input inputs ih =>
    rcases add_alike env batch input hw hc with
      ⟨e,he,he'⟩ | ⟨a,b,ha,hb,hab,hperson⟩
    · refine .inl ⟨(n,e),?_,?_⟩
      · simp only [addRows,he]
      · simp only [addRows,he']
    · have hemail : b.email=a.email := by rw [← hab]
      simp only [addRows,ha,hb,hemail]
      rcases ih (batch++[a.email]) (n+1) (written_alike hw hab hperson) with
        ⟨e,he,he'⟩ | ⟨v,v',added,added',hv,hv',halike,hadded⟩
      · exact .inl ⟨e,by rw [he]; rfl,by rw [he']; rfl⟩
      · exact .inr ⟨v,v',a::added,b::added',by rw [hv]; rfl,by rw [hv']; rfl,halike,.cons hab hadded⟩

/-- Where no mail fails, the sends fail, and are recorded, alike. -/
theorem sendCodes_alike {added added' : List Added} {n : Nat} (h : List.Forall₂ Added.Alike added added')
    (hsend : ∀ email, env.deliver email=none) : sendCodes env n added=sendCodes env n added' := by
  induction h generalizing n with
  | nil => rfl
  | cons hab _ ih =>
    rw [← hab]
    simp only [sendCodes,hsend,Option.filter_none,ih]

theorem answers_alike {added added' : List Added} (h : List.Forall₂ Added.Alike added added') :
    added.map AddAnswer.of=added'.map .of := by
  induction h with
  | nil => rfl
  | cons hab _ ih =>
    rw [List.map_cons,List.map_cons,ih,← hab]
    rfl

/-- Whose an address is doesn't show in the answer, nor in what the caller sees later, unless
the mail to it fails. -/
theorem addCall_alike (hw : AlikeFor person w w') (hc : ∀ p, caller.person=some p → p=person)
    (hsend : ∀ email, env.deliver email=none) :
    (addCall env caller w inputs).1=(addCall env caller w' inputs).1∧
      AlikeFor person (addCall env caller w inputs).2 (addCall env caller w' inputs).2 := by
  unfold addCall
  rcases addRows_alike env [] 0 inputs hw hc with
    ⟨e,he,he'⟩ | ⟨v,v',added,added',hv,hv',halike,hadded⟩
  · rw [he,he']
    exact ⟨rfl,hw⟩
  · rw [hv,hv']
    dsimp only
    rw [← sendCodes_alike hadded hsend]
    split
    · rename_i recorded e _
      exact ⟨rfl,hw.1,by simp only [hw.2]⟩
    · rename_i recorded _
      exact ⟨by rw [answers_alike hadded],halike.1,by simp only [halike.2]⟩

end Kitp.PersonEmails
