import Kitp.CardInsert
import Kitp.CommLists

/-! `comm_create_batch` and `comm_attach_batch`: one row of each. -/
namespace Kitp.CommThreads
open Kitp.Store Kitp.Attributes Kitp.Visibility Kitp.CommLists Kitp.Steps

def refuse {α : Type} (code message : String) : Except Refusal α := .error ⟨code,message⟩

variable (env : CardInsert.Env) (db : Db) (actor : Int)

/-- The live card with the name of its type. -/
def typed (id : Int) : Option (Card×String) :=
  ((db.card id).filter (!·.deleted)).bind fun c => (db.cardTypeName c).map (c,·)

section Create

structure CreateInput where
  taskId : Option Int
  channelId : Option Int
  subject : String
  initialMessage : String
  recipients : Option Json

def given (id : Option Int) : Option Int := id.filter (·≠0)

def capsCheck (input : CreateInput) : Except Refusal (Int×Int) :=
  match given input.taskId,given input.channelId with
  | some task,some channel =>
    if input.initialMessage≠""∧(elems input.recipients).isEmpty then
      refuse "no_recipients" "comm.create: an initial message is sent to the recipients, so recipient_person_ids is required when initial_message is set"
    else if 100000 < input.initialMessage.length then
      refuse "validation" "comm.create: a message can be at most 100000 characters"
    else if maxCommRecipients<((elems input.recipients).map Json.unquoted).reduceOption.dedup.length then
      refuse "validation" "comm.create: a thread can have at most 100 recipients"
    else .ok (task,channel)
  | _,_ => refuse "validation" "comm.create: task_id and channel_id are required"

def typeCheck (id : Int) (name what : String) : Except Refusal Unit :=
  match typed db id with
  | none => refuse (what++"_not_found") s!"comm.create: {what} {id} not found"
  | some (_,t) =>
    if t≠name then refuse (what++"_wrong_type") s!"comm.create: card {id} can't be used here"
    else .ok ()

def projectCheck (task channel : Int) : Except Refusal Int :=
  match cardEnclosingProject db task with
  | none => refuse "task_no_project" s!"comm.create: task {task} has no enclosing project"
  | some project =>
    if cardEnclosingProject db channel≠some project then
      refuse "project_mismatch" s!"comm.create: task {task} (project {project}) and channel {channel} (project {(cardEnclosingProject db channel).getD 0}) are not in the same project"
    else .ok project

def areaCheck (task channel : Int) (initialMessage : String) : Except Refusal Unit :=
  if cardInOffArea db env.areas channel||cardInOffArea db env.areas task then
    refuse "area_off" "comm.create: Conversations is off in this project"
  else if initialMessage≠""∧stored db channel "send_method"=some (.str "none") then
    refuse "cannot_send" "comm.create: this mail account doesn't send (Comm Channels → Sending)"
  else .ok ()

/-- The starting state of the project's flow on an attribute. -/
def commFlowDefaultStatus (name : String) (project : Int) : Option Int :=
  ((db.attributeNamed name).bind fun d => db.flows.find? fun f =>
    f.scopeCardId=project∧f.attributeDefId=d.id).bind fun f => f.defaultCreateStatusId.filter (·≠0)

def defaultStatus (project : Int) : Except Refusal Int :=
  match commFlowDefaultStatus db "comm_status" project with
  | none => refuse "no_comm_flow" s!"comm.create: project {project} has no comm flow / default_create_status_id; seed a comm flow first"
  | some status => .ok status

def alnum (c : Char) : Bool := (c.isAlpha||c.isDigit)&&c.toNat<128

/-- The first of ten candidates that is ten letters or digits, and no thread's. -/
def mint (candidates : List String) : Except Refusal String :=
  match (candidates.take 10).find? fun t => t.length=10&&t.toList.all alnum&&
      !db.values.any fun v => (db.attributeDef v.attributeDefId).any (·.name="thread_id")&&
        v.value=.str t with
  | none => refuse "P0001" "comm.create: failed to mint unique thread_id after 10 attempts"
  | some t => .ok t

def recipientId (x : Json) : Except Refusal Int :=
  match x with
  | .num n => castBigint n
  | x =>
    match refId x with
    | some id => .ok id
    | none => refuse "invalid_recipient"
        ("comm.create: recipient id not a number or numeric string: "++x.text)

def personCheck (project : Int) (ids : List Int) : Except Refusal Unit :=
  let sorted := ids.insertionSort (· ≤ ·)
  let bad := (sorted.find? fun id => !(typed db id).any (·.2="person")).or
    (sorted.find? fun id => !env.acc.personReferable db actor id (some project))
  match bad with
  | none => .ok ()
  | some id => refuse "invalid_recipient" s!"comm.create: person {id} can't be used here"

/-- A new card of a seeded type, with its `card_create`. -/
def addTyped (typeName : String) (parent : Option Int) : Db :=
  match db.cardTypes.find? (·.name=typeName) with
  | none => db
  | some t => (db.addCard ⟨db.nextCardId,t.id,parent,none,false,.triage⟩).log
      ⟨db.nextCardId,"card_create",none,none,none,actor⟩

def puts (card : Int) (writes : List (String×Json)) : Db :=
  writes.foldl (fun db w => put db actor card w.1 w.2) db

/-- The thread's people, those a person in kitp put on it. -/
def withPeople (comm : Int) (ids : List Int) : Db :=
  if ids=[] then db
  else confirm (put db actor comm "comm_recipients" (numbers ids)) comm ids

/-- The task's list of threads with a new one at its end. -/
def listThread (task comm : Int) : Db :=
  put db actor task "comms" (appended (stored db task "comms") comm)

/-- The first message, queued to the thread's people; its author joins them. -/
def firstMessage (comm channel : Int) (subject message : String) : Db :=
  let reply := db.nextCardId
  let texts := puts (addTyped db actor "reply_body" none) actor reply
    [("reply_to",.str (", ".intercalate (toAddresses db comm fun _ => true))),
      ("reply_from",.str (((stored db channel "from_address").bind Json.unquoted).getD "")),
      ("reply_subject",.str subject),("reply_body_text",.str message),
      ("delivery_status",.str "pending"),("reply_author",.ofInt actor)]
  authorJoin env.dir (put texts actor comm "replies" (.arr [.ofInt reply])) comm actor

structure Created where
  commId : Int
  threadId : String

/-- `comm.create`; `candidates` are the random tokens it draws. -/
def create (candidates : List String) (input : CreateInput) : Except Refusal (Db×Created) := do
  let (task,channel) ← capsCheck input
  typeCheck db task "task" "task"
  typeCheck db channel "comm_channel" "channel"
  let project ← projectCheck db task channel
  areaCheck env db task channel input.initialMessage
  let status ← defaultStatus db project
  let threadId ← mint db candidates
  let title := ((stored db task "title").bind Json.unquoted).getD ""
  let subject := if input.subject="" then title else input.subject
  let people ← (elems input.recipients).mapM recipientId
  personCheck env db actor project people.eraseDups
  let comm := db.nextCardId
  let made := puts (addTyped db actor "comm" (some task)) actor comm
    [("title",.str subject),("channel_ref",.ofInt channel),("thread_id",.str threadId),
      ("comm_status",.ofInt status)]
  let listed := listThread (withPeople made actor comm people.eraseDups) actor task comm
  let sent := if input.initialMessage="" then listed
    else firstMessage env listed actor comm channel subject input.initialMessage
  return (sent,⟨comm,threadId⟩)

end Create

section Attach

structure AttachInput where
  commId : Option Int
  taskId : Int
  newTaskTitle : String

/-- The thread's row with its parent, the parent's type and its project. -/
structure Thread where
  id : Int
  parent : Int
  parentType : String
  project : Int

def readThread (comm : Int) : Except Refusal Thread :=
  match typed db comm with
  | none => refuse "comm_not_found" s!"comm.attach: comm {comm} not found"
  | some (c,name) =>
    if name≠"comm" then
      refuse "comm_wrong_type" (s!"comm.attach: card {comm} is "++quoteLiteral name++", not comm")
    else match cardEnclosingProject db comm with
      | none => refuse "validation" s!"comm.attach: comm {comm} is not in a project"
      | some project => .ok ⟨comm,c.parentCardId.getD 0,
          ((db.parentCard c).bind db.cardTypeName).getD "",project⟩

def leaveCheck (t : Thread) (task : Int) : Except Refusal Unit :=
  if t.parentType="task"∧t.parent≠task∧
      !env.acc.userHasGrant db actor "task" "card.update" t.project then
    refuse "forbidden" "comm.attach: you cannot change tasks in this project"
  else .ok ()

/-- A task of that title in the thread's project, made as any other. -/
def makeTask (project : Int) (title : String) : Except Refusal (Db×Int) := do
  let taskType := ((db.cardTypes.find? (·.name="task")).map (·.id)).getD 0
  if env.acc.areaWriteBlocked db taskType project project then
    refuse "area_off" "comm.attach: Tasks is switched off in this project"
  else if !env.acc.userHasGrant db actor "task" "card.create" project then
    refuse "forbidden" "comm.attach: you cannot add tasks to this project"
  else do
    let made ← CardInsert.insert env db actor
      { cardTypeName := some "task", parentCardId := some project, title := some title
        phase := "", attributes := [], distinct := List.nodup_nil, parentTask := none
        isPrivate := false, assignToMe := false }
    return (made,db.nextCardId)

/-- The task named, or a new one of the given title. -/
def taskFor (t : Thread) (input : AttachInput) : Except Refusal (Db×Int) :=
  let title := trimBlanks input.newTaskTitle
  if input.taskId=0∧title≠"" then makeTask env db actor t.project title
  else .ok (db,input.taskId)

/-- The task, if any, is one of the thread's project that the actor sees and may change. -/
def targetCheck (t : Thread) (task : Int) : Except Refusal Unit :=
  if task=0 then .ok ()
  else match typed db task with
  | none => refuse "task_not_found" s!"comm.attach: task {task} not found"
  | some (_,name) =>
    let sameProject : Bool := cardEnclosingProject db task=some t.project
    if sameProject&&cardInOffArea db env.areas task then
      refuse "area_off" "comm.attach: Tasks is switched off in this project"
    else if !cardVisibleTo db env.areas env.dir actor task then
      refuse "task_not_found" s!"comm.attach: task {task} not found"
    else if name≠"task" then
      refuse "validation" (s!"comm.attach: card {task} is "++quoteLiteral name++", not a task")
    else if !sameProject then refuse "same_project" "comm.attach: the task is in another project"
    else if !env.acc.userHasGrant db actor "task" "card.update" t.project then
      refuse "forbidden" "comm.attach: you cannot change tasks in this project"
    else .ok ()

/-- The old task's list without the thread, when that changes it. -/
def leave (t : Thread) : Db :=
  if t.parentType≠"task" then db
  else match (db.attributeNamed "comms").bind fun d => (db.value t.parent d.id).map (d,·) with
    | some (d,.arr xs) =>
      let left := without (some (.arr xs)) t.id
      if left=xs then db else writeValue db actor t.parent d.id (some (.arr xs)) (.arr left)
    | _ => db

/-- The new task's list with the thread at its end. -/
def join (t : Thread) (task : Int) : Db :=
  (db.attributeNamed "comms").elim db fun d =>
    writeValue db actor task d.id (db.value task d.id)
      (appended (some (.arr (without (db.value task d.id) t.id))) t.id)

def moveThread (t : Thread) (target : Int) : Db :=
  (db.setParent (· = t.id) target).log
    ⟨t.id,"card_move",none,some (.ofInt t.parent),some (.ofInt target),actor⟩

/-- `comm.attach`, onto a task, or with no task back into the project. -/
def attach (input : AttachInput) : Except Refusal Db := do
  match given input.commId with
  | none => refuse "validation" "comm.attach: comm_id is required"
  | some comm => do
    let t ← readThread db comm
    leaveCheck env db actor t input.taskId
    let (db,task) ← taskFor env db actor t input
    targetCheck env db actor t task
    let target := if task=0 then t.project else task
    if t.parent=target then return db
    else
      let moved := moveThread (leave db actor t) actor t target
      return if task=0 then moved else join moved actor t task

end Attach

end Kitp.CommThreads
