import Kitp.CommThreads

/-! `processOne`: where a received message is filed, once its fields are parsed. What
`Kitp.Intake` says of a copy and `Kitp.Relay` of sending on comes in as it is answered there. -/
namespace Kitp.CommFiling
open Kitp.Store Kitp.Visibility Kitp.CommLists Kitp.CommThreads Kitp.Steps

/-- `textnorm` and the database's `lower`. -/
structure Text where
  lower : String → String
  email : String → String
  name : String → String

/-- A copy to send on, as `queueRelayCopy` is given it. -/
structure RelayCopy where
  fromHdr : String
  toHdr : String
  body : String
  leftOff : Nat

/-- A message as it is stored, with the addresses that join its thread. -/
structure Message where
  toHdr : String
  ccHdr : String
  fromHdr : String
  subject : String
  body : String
  description : String
  messageId : String
  threadToken : Option String
  toNotification : Bool
  sender : String
  found : List (String×String)

inductive IntakeMode where
  | task
  | thread
  | ignore
  deriving DecidableEq

structure Intake where
  channelId : Int
  projectId : Int
  statusId : Int
  mode : IntakeMode
  tasksOff : Bool

variable (text : Text) (areas : Areas) (verified : List (Int×String)) (db : Db) (actor : Int)

/-- `card_under_deleted` of a thread. -/
def cardUnderDeleted (id : Int) : Bool :=
  (db.card id).any fun c => (Forest.walk db.parentCard 16 c).any (·.deleted)

/-- `findCommByThreadID`. -/
def findCommByThreadId (token : String) (project : Int) : Option Int :=
  (((db.cards.filter fun c => !c.deleted&&stored db c.id "thread_id"=some (.str token)&&
    !cardUnderDeleted db c.id&&cardEnclosingProject db c.id=some project&&
    !cardInOffArea db areas c.id).map (·.id)).insertionSort (· ≤ ·)).head?

/-- `upsertPersonByEmail`. -/
def upsertPersonByEmail (byVerified : Bool) (address name : String) : Db×Int :=
  let email := text.email address
  let holders := ((verified.filter fun p => byVerified&&p.2=text.lower email&&
      db.live p.1).map (·.1)).insertionSort (· ≤ ·)
  let named := ((db.cards.filter fun c => !c.deleted&&db.cardTypeName c=some "person"&&
    (((stored db c.id "email").bind Json.unquoted).any fun e =>
      text.lower e=text.lower email)).map (·.id)).insertionSort (· ≤ ·)
  match (holders++named).head? with
  | some person => (db,person)
  | none =>
    let title := if text.name name="" then email else text.name name
    (puts (addTyped db actor "person" none) actor db.nextCardId
      [("title",.str title),("email",.str email),("person_kind",.str "contact")],db.nextCardId)

/-- `syncCommRecipientsFromInbound`: a full thread makes no more people. -/
def syncCommRecipients (comm : Int) (m : Message) : Db :=
  if m.found=[]∨maxCommRecipients ≤ (decodeCardRefArray (stored db comm "comm_recipients")).length then db
  else
    let (db,people) := m.found.foldl (fun (s : Db×List Int) a =>
      let (db,person) := upsertPersonByEmail text verified s.1 actor
        (m.sender≠""∧text.lower a.1=text.lower m.sender) a.1 a.2
      (db,s.2++[person])) (db,[])
    mergeCommRecipients db actor comm people

/-- `appendReceivedReply`. -/
def appendReceivedReply (comm : Int) (m : Message) : Db :=
  let reply := db.nextCardId
  let texts := puts (addTyped db actor "reply_body" none) actor reply
    ([("reply_to",.str m.toHdr),("reply_cc",.str m.ccHdr),("reply_from",.str m.fromHdr),
      ("reply_subject",.str m.subject),("reply_body_text",.str m.body),
      ("delivery_status",.str "received")]++
      if m.messageId="" then [] else [("reply_message_id",.str m.messageId)])
  let listed := appendCardRefList texts actor comm "replies" reply
  syncCommRecipients text verified (put listed actor comm "acked" (.bool false)) actor comm m

/-- `queueRelayCopy`. -/
def queueRelayCopy (comm original : Int) (m : Message) (copy : RelayCopy) : Db :=
  let new := db.nextCardId
  let texts := puts (addTyped db actor "reply_body" none) actor new
    ([("reply_to",.str copy.toHdr),("reply_from",.str copy.fromHdr),
      ("reply_subject",.str m.subject),("reply_body_text",.str copy.body),
      ("delivery_status",.str "pending"),("relay_of",.ofInt original)]++
      if copy.leftOff=0 then [] else [("attachments_left_off",.ofInt copy.leftOff)])
  appendCardRefList texts actor comm "replies" new

/-- `confirmStarter`. -/
def confirmStarter (comm : Int) (sender : String) : Db :=
  if sender="" then db
  else confirm db comm (((elems (stored db comm "comm_recipients")).filterMap personId).filter
    fun p => db.live p&&(((stored db p "email").bind Json.unquoted).any fun e =>
      text.lower (Attributes.trimBlanks e)=sender))

/-- `filedTitle`. -/
def filedTitle (subject : String) : String :=
  if subject="" then "(no subject)"
  else if 500 < subject.length then
    String.ofList (subject.toList.take 499++[Char.ofNat 0x2026])
  else subject

/-- The status a filed thread starts with. -/
def threadStatus (project : Int) : Except Refusal Int :=
  match commFlowDefaultStatus db "comm_status" project with
  | none => refuse "no_comm_flow" s!"imap intake: project {project} has no comm flow default"
  | some status => .ok status

/-- The status a filed task starts with, the account's own first. -/
def taskStatus (inbox : Intake) : Except Refusal Int :=
  if inbox.statusId≠0 then .ok inbox.statusId
  else match commFlowDefaultStatus db "status" inbox.projectId with
    | none => refuse "no_task_flow" s!"imap intake: project {inbox.projectId} has no task flow default and the channel has no intake status"
    | some status => .ok status

/-- `createComm`: a new thread under a task, or under the project itself. -/
def createComm (candidates : List String) (parent : Int) (inbox : Intake) (m : Message) :
    Except Refusal (Db×Int) := do
  let status ← threadStatus db ((cardEnclosingProject db parent).getD 0)
  let threadId ← (mint db (candidates.take 5)).mapError fun _ =>
    ⟨"internal","comm.create: failed to generate unique thread_id after 5 attempts"⟩
  let comm := db.nextCardId
  let made := puts (addTyped db actor "comm" (some parent)) actor comm
    [("title",.str (filedTitle m.subject)),("channel_ref",.ofInt inbox.channelId),
      ("thread_id",.str threadId),("comm_status",.ofInt status)]
  let filed := appendReceivedReply text verified made actor comm m
  return (confirmStarter text filed comm m.sender,comm)

/-- `createTaskAndComm`. -/
def createTaskAndComm (candidates : List String) (inbox : Intake) (m : Message) :
    Except Refusal (Db×Int) := do
  let status ← taskStatus db inbox
  let task := db.nextCardId
  let made := puts (addTyped db actor "task" (some inbox.projectId)) actor task
    [("title",.str (filedTitle m.subject)),("description",.str m.description),
      ("status",.ofInt status)]
  let (threaded,comm) ← createComm text verified made actor candidates task inbox m
  return (appendCardRefList threaded actor task "comms" comm,comm)

inductive Outcome where
  | reply
  | notificationReply
  | task
  | thread
  | ignored
  deriving DecidableEq

/-- `processOne` of a message that is no duplicate, with the copy the relay sends on. -/
def processOne (candidates : List String) (inbox : Intake) (copy : Option RelayCopy)
    (m : Message) : Except Refusal (Db×Outcome×Option Int) :=
  let mode := if inbox.mode=.task∧inbox.tasksOff then .thread else inbox.mode
  match m.threadToken.bind fun token => findCommByThreadId areas db token inbox.projectId with
  | some comm =>
    let filed := appendReceivedReply text verified db actor comm m
    .ok (copy.elim filed fun c => queueRelayCopy filed actor comm db.nextCardId m c,
      .reply,some comm)
  | none =>
    if m.toNotification then .ok (db,.notificationReply,none)
    else match mode with
      | .task => (createTaskAndComm text verified db actor candidates inbox m).map
          fun r => (r.1,.task,some r.2)
      | .thread => (createComm text verified db actor candidates inbox.projectId inbox m).map
          fun r => (r.1,.thread,some r.2)
      | .ignore => .ok (db,.ignored,none)

end Kitp.CommFiling
