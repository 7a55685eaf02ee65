import Kitp.Approvals
import Kitp.Attributes
import Kitp.Lib.Steps
import Mathlib.Logic.Function.Basic

/-! `approval.set`, `approval.decide`, `approval.remove`, and the two writes of others that
votes are counted by: a task's status and the person of an account. -/
namespace Kitp.Approvals
open Kitp.Store Kitp.Accounts Kitp.Attributes Kitp.Steps

structure Email where
  channelId : Option Int
  subject : Option String

/-- One element of `approval.set`'s inputs. -/
structure SetInput where
  id : Option Int
  taskId : Option Int
  fromStatusId : Option Int
  toStatusId : Option Int
  approverIds : Option (List Int)
  note : Option String
  email : Option Email

structure DecideInput where
  taskId : Option Int
  approvalId : Option Int
  fromStatusId : Option Int
  toStatusId : Option Int
  decision : Option String
  reason : Option String

/-- What `comm_create_batch` is asked for. -/
structure CommInput where
  taskId : Int
  channelId : Int
  subject : String
  initialMessage : String
  recipientPersonIds : List Int

/-- The cards of a thread it made, and the values it wrote, the task's `comms` with them. -/
structure CommRows where
  commId : Int
  cards : List Card
  values : List AttributeValue

structure Env where
  acc : Access
  commCreate : Db → Int → CommInput → Except Refusal CommRows

structure SetAnswer where
  approvalId : Int
  created : Bool
  changed : Bool
  commId : Option Int

structure DecideAnswer where
  decisionId : Int
  changed : Bool

/-- The variables of `approval.set` once they are checked by themselves. -/
structure SetRequest where
  id : Int
  taskId : Int
  fromId : Int
  toId : Int
  approvers : Option (List Int)
  note : Option String
  email : Option (Int×String)

variable (s : Tables) (now actor : Int)

/-- An activity row; `now` is when its transaction started. -/
def record (cardId : Int) (k : Kind) : Tables :=
  { s with log := s.log++[⟨s.nextRecordId,cardId,k,actor,now⟩], nextRecordId := s.nextRecordId+1 }

/-- An `attr_update` and the value it records. -/
def write (cardId attributeDefId : Int) (new : Json) : Tables :=
  let logged := record s now actor cardId
    (.attrUpdate attributeDefId (s.db.value cardId attributeDefId) (some new))
  { logged with db := s.db.setValue cardId attributeDefId new }

def liveTask (db : Db) (taskId : Int) : Bool :=
  (db.card taskId).any fun c => !c.deleted&&db.cardTypeName c=some "task"

def checkTask (db : Db) (process : String) (taskId : Int) : Except Refusal Unit :=
  if liveTask db taskId then .ok ()
  else .error ⟨"task_not_found",process++s!": task {taskId} not found"⟩

/-- A live request of the task. -/
def liveApproval (db : Db) (taskId id : Int) : Bool :=
  (approvalCards db taskId).any (·.id=id)

def validateSet (input : SetInput) : Except Refusal SetRequest :=
  let taskId := input.taskId.getD 0
  let approvers := input.approverIds.map fun ids => ids.dedup.insertionSort (· ≤ ·)
  let note := trimBlanks (input.note.getD "")
  let invalid (message : String) : Except Refusal SetRequest :=
    .error ⟨"validation","approval.set: "++message⟩
  if taskId=0 then invalid "task_id is required"
  else if 2000<note.length then invalid "note must be at most 2000 characters"
  else if approvers=some [] then invalid "ask at least one person"
  else if 20<(approvers.getD []).length then invalid "ask at most 20 people"
  else
    let request : SetRequest := ⟨input.id.getD 0,taskId,input.fromStatusId.getD 0,
      input.toStatusId.getD 0,approvers,input.note.map fun _ => note,none⟩
    match input.email with
    | none => .ok request
    | some email =>
      let channelId := email.channelId.getD 0
      let subject := trimBlanks (email.subject.getD "")
      if input.id.getD 0≠0 then
        invalid "email goes out with a new request only; write to its thread to follow up"
      else if channelId=0 then invalid "email.channel_id is required"
      else if note="" then invalid "a note is required when emailing; it is the message sent"
      else if 300<subject.length then invalid "email.subject must be at most 300 characters"
      else .ok { request with email := some (channelId,subject) }

/-- A new request's step, by its label; an update's request keeps its own. -/
def setTarget (db : Db) (r : SetRequest) : Except Refusal (Option String) :=
  if r.id≠0 then
    let f := approvalFields db r.id
    if !liveApproval db r.taskId r.id then .error ⟨"approval_not_found",
      s!"approval.set: approval {r.id} not found on task {r.taskId}"⟩
    else if (r.fromId≠0∧f.fromId≠some r.fromId)∨(r.toId≠0∧f.toId≠some r.toId) then
      .error ⟨"approval_action_fixed",
        "approval.set: a request's action can't change; remove it and ask again"⟩
    else .ok none
  else if r.fromId=0∨r.toId=0 then .error ⟨"validation",
    "approval.set: from_status_id and to_status_id are required"⟩
  else if r.approvers=none then .error ⟨"validation","approval.set: approver_ids is required"⟩
  else match taskStatusAction r.taskId db r.fromId r.toId with
    | none => .error ⟨"approval_no_such_action",
        s!"approval.set: no status action leads from {r.fromId} to {r.toId} in this task's flow"⟩
    | some label => .ok (some label)

/-- The system user, or no live person with a login that may vote on the task. -/
def badApprover (acc : Access) (taskId p : Int) : Bool :=
  p=1||!((s.db.card p).any fun c => !c.deleted&&s.db.cardTypeName c=some "person")||
    !canVote acc s taskId p

/-- Someone the caller may name is named by their title. -/
def approverName (acc : Access) (taskId p : Int) : String :=
  let title := ((named s.db p "title").bind (·.unquoted)).getD ""
  if acc.personReferable s.db actor p (cardEnclosingProject s.db taskId)∧title≠"" then title
  else s!"person {p}"

def checkApprovers (acc : Access) (r : SetRequest) : Except Refusal Unit :=
  let bad := (r.approvers.getD []).filter (badApprover s acc r.taskId)
  if bad=[] then .ok ()
  else .error ⟨"approver_invalid","approval.set: "++
    ", ".intercalate (bad.map (approverName s actor acc r.taskId))++
    " can't be asked: only someone with a login who may comment on this project's tasks can vote"⟩

/-- The thread, when the request is emailed. -/
def startThread (env : Env) (r : SetRequest) (label : String) : Except Refusal (Option CommRows) :=
  match r.email with
  | none => .ok none
  | some (channelId,subject) =>
    if !env.acc.userHasGrant s.db actor "comm" "card.create"
        ((cardEnclosingProject s.db r.taskId).getD 0) then
      .error ⟨"unauthorized",
        "approval.set: you can't start comms in this project, so the request can't be emailed"⟩
    else if !(r.approvers.getD []).any (fun p =>
        trimBlanks (((named s.db p "email").bind (·.unquoted)).getD "")≠"") then
      .error ⟨"no_email","approval.set: nobody asked has an email address, so there is no one to email"⟩
    else
      let subject := if subject≠"" then subject
        else "Vote requested: "++cardLabel s.db r.taskId++" — "++cardLabel s.db r.fromId++" → "++
          cardLabel s.db r.toId++" ("++label++")"
      (env.commCreate s.db actor
        ⟨r.taskId,channelId,subject,r.note.getD "",r.approvers.getD []⟩).map some

def addThread (rows : Option CommRows) : Tables :=
  match rows with
  | none => s
  | some t =>
    { s with
      db := t.values.foldl (fun db v => db.setValue v.cardId v.attributeDefId v.value)
        { s.db with cards := s.db.cards++t.cards, nextCardId := s.db.nextCardId+t.cards.length } }

/-- The approval card with its `card_create`. -/
def addApproval (cardTypeId taskId : Int) : Tables :=
  let id := s.db.nextCardId
  record { s with
    db := s.db.addCard ⟨id,cardTypeId,some taskId,none,false,.triage⟩
    createdAt := Function.update s.createdAt id now } now actor id .cardCreate

/-- The attributes a call wants, those of the step only for a new request. -/
def wanted (db : Db) (r : SetRequest) (label : Option String) (commId : Option Int) :
    List (String×Json) :=
  (label.elim [] fun l =>
    [("title",.str (l++": "++cardLabel db r.fromId++" → "++cardLabel db r.toId)),
      ("approval_from",.ofInt r.fromId),("approval_to",.ofInt r.toId),("approval_action",.str l)])++
  (r.approvers.elim [] fun ids => [("approvers",.arr (ids.map .ofInt))])++
  (r.note.elim [] fun n => [("approval_note",.str n)])++
  commId.elim [] fun c => [("approval_comm",.ofInt c)]

/-- A value the card doesn't have already; a blank note is none. -/
def changes (cur : Option Json) (v : Json) : Bool :=
  cur.all (fun c => c.cmp v≠.eq)&&!(cur.isNone&&v=.str "")

/-- One attribute, written when it changes, with the number of writes so far. -/
def writeWanted (id : Int) (t : Tables×Nat) (w : String×Json) : Tables×Nat :=
  match t.1.db.attributeNamed w.1 with
  | none => t
  | some d =>
    if changes (t.1.db.value id d.id) w.2 then (write t.1 now actor id d.id w.2,t.2+1) else t

def approvalAttributes : List String :=
  ["title","approval_from","approval_to","approval_action","approvers","approval_note",
    "approval_comm"]

/-- The card type, with the attributes a function needs in place. -/
def approvalType (db : Db) (process : String) (names : List String) : Except Refusal CardType :=
  match db.cardTypes.find? (·.name="approval") with
  | none => .error ⟨"P0001",
      process++": the approval card_type or one of its attribute_defs is missing"⟩
  | some t =>
    if names.all fun n => (db.attributeNamed n).isSome then .ok t
    else .error ⟨"P0001",process++": the approval card_type or one of its attribute_defs is missing"⟩

/-- `approval_set_batch`, one row. -/
def approvalSet (env : Env) (input : SetInput) : Except Refusal (Tables×SetAnswer) := do
  let cardType ← approvalType s.db "approval.set" approvalAttributes
  let r ← validateSet input
  checkTask s.db "approval.set" r.taskId
  let label ← setTarget s.db r
  checkApprovers s actor env.acc r
  let thread ← startThread s actor env r (label.getD "")
  let threaded := addThread s thread
  let id := if label.isSome then threaded.db.nextCardId else r.id
  let made := if label.isSome then addApproval threaded now actor cardType.id r.taskId else threaded
  let done := (wanted s.db r label (thread.map (·.commId))).foldl (writeWanted now actor id) (made,0)
  return (done.1,⟨id,label.isSome,label.isSome||0<done.2,thread.map (·.commId)⟩)

def validateRemove (id : Int) : Except Refusal Card :=
  if id=0 then .error ⟨"validation","approval.remove: id is required"⟩
  else match (s.db.card id).filter (!·.deleted) with
    | none => .error ⟨"approval_not_found",s!"approval.remove: approval {id} not found"⟩
    | some c =>
      if s.db.cardTypeName c=some "approval" then .ok c
      else .error ⟨"wrong_card_type",s!"approval.remove: card {id} is "++
        quoteLiteral ((s.db.cardTypeName c).getD "")++", not an approval"⟩

/-- `approval_remove_batch`, one row. -/
def approvalRemove (id : Option Int) : Except Refusal Tables := do
  let c ← validateRemove s (id.getD 0)
  let gone := s.db.mapCards fun e => if e.id=c.id then { e with deleted := true } else e
  return record { s with db := gone } now actor c.id .cardDelete

def decisionOf (text : String) : Option Decision :=
  if text="approve" then some .approve
  else if text="reject" then some .reject else none

structure DecideRequest where
  taskId : Int
  approvalId : Int
  fromId : Int
  toId : Int
  decision : Decision
  reason : String

def validateDecide (input : DecideInput) : Except Refusal DecideRequest :=
  let taskId := input.taskId.getD 0
  let reason := trimBlanks (input.reason.getD "")
  if taskId=0 then .error ⟨"validation","approval.decide: task_id is required"⟩
  else match decisionOf (input.decision.getD "") with
    | none => .error ⟨"validation","approval.decide: decision must be 'approve' or 'reject'"⟩
    | some decision =>
      if 20000 < reason.length then
        .error ⟨"validation","approval.decide: reason must be at most 20000 characters"⟩
      else .ok ⟨taskId,input.approvalId.getD 0,input.fromStatusId.getD 0,
        input.toStatusId.getD 0,decision,reason⟩

/-- The edge voted on with its label, from a request or from the flow. -/
def votedEdge (db : Db) (r : DecideRequest) : Except Refusal (Int×Int×String) :=
  if r.approvalId≠0 then
    let f := approvalFields db r.approvalId
    match liveApproval db r.taskId r.approvalId,f.fromId,f.toId,f.action with
    | true,some source,some target,some label => .ok (source,target,label)
    | _,_,_,_ => .error ⟨"approval_not_found",
        s!"approval.decide: approval {r.approvalId} not found on task {r.taskId}"⟩
  else if r.fromId=0∨r.toId=0 then .error ⟨"validation",
    "approval.decide: give approval_id, or from_status_id and to_status_id"⟩
  else match taskStatusAction r.taskId db r.fromId r.toId with
    | none => .error ⟨"approval_no_such_action",
        s!"approval.decide: no status action leads from {r.fromId} to {r.toId} in this task's flow"⟩
    | some label => .ok (r.fromId,r.toId,label)

/-- The person an account is linked to. -/
def linked : Option Int :=
  ((s.dir.persons.filter (·.userAccountId=actor)).map (·.personCardId)).min?

/-- The account's newest vote on the edge this round. -/
def latestBy (taskId fromId toId : Int) : Option Ballot :=
  ((current s taskId (some fromId) (some toId)).filter (·.actorId=actor)).getLast?

/-- The vote in force, when the same is sent again with nothing to add. -/
def repeated (r : DecideRequest) (fromId toId : Int) : Option Ballot :=
  (latestBy s actor r.taskId fromId toId).filter fun b => b.decision=r.decision∧r.reason=""

def addReason (reason : String) : Tables×Option Int :=
  if reason="" then (s,none)
  else ({ s with
    bodies := s.bodies++[(s.nextBodyId,reason)], nextBodyId := s.nextBodyId+1 },some s.nextBodyId)

def castVote (r : DecideRequest) (fromId toId : Int) (label : String) : Tables :=
  let t := addReason s r.reason
  record t.1 now actor r.taskId (.approvalDecision
    ⟨r.decision,fromId,toId,label,namedCard s.db r.taskId "status",linked s actor,t.2⟩)

/-- `approval_decide_batch`, one row. -/
def approvalDecide (input : DecideInput) : Except Refusal (Tables×DecideAnswer) := do
  let _ ← approvalType s.db "approval.decide" ["status","approval_from","approval_to","approval_action"]
  let r ← validateDecide input
  checkTask s.db "approval.decide" r.taskId
  let (fromId,toId,label) ← votedEdge s.db r
  return (repeated s actor r fromId toId).elim
    (castVote s now actor r fromId toId label,⟨s.nextRecordId,true⟩) fun b => (s,⟨b.id,false⟩)

/-- The write that every change of a task's status makes. -/
def changeStatus (taskId : Int) (new : Json) : Option Tables :=
  (s.db.attributeNamed "status").map fun d => write s now actor taskId d.id new

/-- The write of `user_account_person`, one person to an account and one account to a
person; no person unlinks it. -/
def link (account : Int) (person : Option Int) : Tables :=
  let others := s.dir.persons.filter fun p =>
    p.userAccountId≠account∧person≠some p.personCardId
  { s with dir := { s.dir with
    persons := others++(person.elim [] fun p => [⟨account,p⟩]) } }

end Kitp.Approvals
