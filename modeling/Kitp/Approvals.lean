import Kitp.Visibility
import Mathlib.Algebra.Ring.Nat
import Mathlib.Data.List.Dedup
import Mathlib.Data.List.Sort

/-! The approvals of a task: its requests, the votes on its status edges, and the reads
that say how they stand. -/
namespace Kitp.Approvals
open Kitp.Store Kitp.Accounts Kitp.Visibility

inductive Decision where
  | approve
  | reject
  deriving DecidableEq

/-- The `value_new` of an `approval_decision`: the edge voted on, the task's status then,
and the voter's person, if the account had one. -/
structure Vote where
  decision : Decision
  fromId : Int
  toId : Int
  action : String
  statusId : Option Int
  personId : Option Int
  commentBodyId : Option Int
  deriving DecidableEq

inductive Kind where
  | cardCreate
  | cardDelete
  | attrUpdate (attributeDefId : Int) (valueOld valueNew : Option Json)
  | approvalDecision (vote : Vote)

/-- A row of `activity`, with the time its transaction started. -/
structure Record where
  id : Int
  cardId : Int
  kind : Kind
  actorId : Int
  createdAt : Int

structure Tables where
  db : Db
  dir : Directory
  areas : Areas
  /-- `card.created_at`. -/
  createdAt : Int → Int
  /-- `activity`, by id. -/
  log : List Record
  nextRecordId : Int
  /-- `comment_body`, by id. -/
  bodies : List (Int×String) := []
  nextBodyId : Int := 1

/-- A vote with its row. -/
structure Ballot extends Vote where
  id : Int
  actorId : Int
  createdAt : Int

/-- A row of `approval_open`. -/
structure OpenRequest where
  id : Int
  fromId : Option Int
  toId : Option Int
  approvers : List Int
  createdAt : Int

/-- A row of `approval_fields`. -/
structure Fields where
  fromId : Option Int
  toId : Option Int
  action : Option String
  approvers : List Int
  note : String
  commId : Option Int

structure Tally where
  asked : Nat
  approved : Nat
  rejected : Nat
  deriving DecidableEq

inductive Standing where
  | open
  | approved
  | rejected
  deriving DecidableEq

structure Summary where
  state : Standing
  asked : Nat
  approved : Nat
  rejected : Nat
  askedAt : Option Int
  waitingOnMe : Bool

/-- The value of an attribute by its name. -/
def named (db : Db) (cardId : Int) (name : String) : Option Json :=
  (db.attributeNamed name).bind fun d => db.value cardId d.id

/-- A card a value names by its number. -/
def namedCard (db : Db) (cardId : Int) (name : String) : Option Int :=
  match named db cardId name with
  | some (.num n) => n.whole
  | _ => none

def namedText (db : Db) (cardId : Int) (name : String) : Option String :=
  (named db cardId name).bind (·.unquoted)

/-- `card_label`. -/
def cardLabel (db : Db) (id : Int) : String :=
  match (namedText db id "title").filter (·≠"") with
  | some title => title
  | none => (namedText db id "reply_subject").getD ""

/-- `approval_fields`. -/
def approvalFields (db : Db) (id : Int) : Fields where
  fromId := namedCard db id "approval_from"
  toId := namedCard db id "approval_to"
  action := namedText db id "approval_action"
  approvers := (named db id "approvers").elim [] (refIds .cardRefs)
  note := (namedText db id "approval_note").getD ""
  commId := namedCard db id "approval_comm"

/-- The live approval cards of a task. -/
def approvalCards (db : Db) (taskId : Int) : List Card :=
  db.cards.filter fun c =>
    c.parentCardId=some taskId∧db.cardTypeName c=some "approval"∧!c.deleted

variable (acc : Access) (s : Tables) (taskId : Int)

/-- The row records that the task came to a status. -/
def reaches (toId : Option Int) (r : Record) : Bool :=
  match r.kind,toId with
  | .attrUpdate d _ (some v),some target =>
    r.cardId=taskId∧(s.db.attributeNamed "status").any (·.id=d)∧
      v.unquoted=some (toString target)
  | _,_ => false

/-- `approval_round_start`. -/
def approvalRoundStart (toId : Option Int) : Option Int :=
  ((s.log.filter (reaches s taskId toId)).map (·.createdAt)).max?

/-- Later than a start, which may never have been. -/
def after (start : Option Int) (t : Int) : Bool := start.all (· < t)

def ballot (r : Record) : Option Ballot :=
  match r.kind with
  | .approvalDecision v => if r.cardId=taskId then some ⟨v,r.id,r.actorId,r.createdAt⟩ else none
  | _ => none

/-- Every vote on the task, the newest last. -/
def ballots : List Ballot := s.log.filterMap (ballot taskId)

/-- The votes on an edge in its current round. -/
def current (fromId toId : Option Int) : List Ballot :=
  (ballots s taskId).filter fun b => fromId=some b.fromId∧toId=some b.toId∧
    after (approvalRoundStart s taskId toId) b.createdAt

/-- The newest of a person's votes in the round. -/
def latestOf (fromId toId : Option Int) (person : Int) : Option Ballot :=
  ((current s taskId fromId toId).filter (·.personId=some person)).getLast?

/-- A login with comment rights on the task's project. -/
def canVote (person : Int) : Bool :=
  s.dir.persons.any fun uap => uap.personCardId=person∧
    acc.userHasGrant s.db uap.userAccountId "task" "comment.post"
      ((cardEnclosingProject s.db taskId).getD 0)

/-- The people `approval_tally` counts, each with the vote counted. -/
def tallied (fromId toId : Option Int) (approvers : List Int) : List (Int×Option Ballot) :=
  (approvers.dedup.map fun p => (p,latestOf s taskId fromId toId p)).filter fun k =>
    k.2.isSome||canVote acc s taskId k.1

/-- `approval_tally`. -/
def approvalTally (fromId toId : Option Int) (approvers : List Int) : Tally :=
  let rows := tallied acc s taskId fromId toId approvers
  ⟨rows.length,rows.countP fun k => k.2.any (·.decision=.approve),
    rows.countP fun k => k.2.any (·.decision=.reject)⟩

/-- The task is in a terminal status. -/
def terminal : Bool :=
  (namedCard s.db taskId "status").any fun id => (s.db.card id).any (·.phase=.terminal)

/-- `approval_open`. -/
def approvalOpen : List OpenRequest :=
  if terminal s taskId then []
  else ((approvalCards s.db taskId).filter fun c => !cardInOffArea s.db s.areas c.id&&
      after (approvalRoundStart s taskId (approvalFields s.db c.id).toId) (s.createdAt c.id)).map
    fun c =>
      let f := approvalFields s.db c.id
      ⟨c.id,f.fromId,f.toId,f.approvers,s.createdAt c.id⟩

/-- An open request waits on one of the people. -/
def waits (people : List Int) (o : OpenRequest) : Bool :=
  o.approvers.any fun e => 0 ≤ e∧e∈people∧canVote acc s taskId e∧
    !(current s taskId o.fromId o.toId).any (·.personId=some e)

/-- `approval_waiting_on`. -/
def approvalWaitingOn (people : List Int) : Bool :=
  (approvalOpen s taskId).any (waits acc s taskId people)

/-- `approval_summary`; nothing when no request is open. -/
def approvalSummary (me : Option Int) : Option Summary :=
  let opens := approvalOpen s taskId
  let tallies := opens.map fun o => approvalTally acc s taskId o.fromId o.toId o.approvers
  if opens=[] then none
  else some
    { state :=
        if 0<(tallies.map (·.rejected)).sum then .rejected
        else if tallies.all fun t => 0<t.asked∧t.approved=t.asked then .approved else .open
      asked := (tallies.map (·.asked)).sum
      approved := (tallies.map (·.approved)).sum
      rejected := (tallies.map (·.rejected)).sum
      askedAt := (opens.map (·.createdAt)).min?
      waitingOnMe := me.any fun p => approvalWaitingOn acc s taskId [p] }

/-- `task_status_action`: the label of the step between two statuses in the flow of the
task's project. -/
def taskStatusAction (db : Db) (fromId toId : Int) : Option String :=
  let flows := db.flows.filter fun f => (db.attributeNamed "status").any (·.id=f.attributeDefId)∧
    cardEnclosingProject db taskId=some f.scopeCardId
  let steps := db.flowSteps.filter fun t => flows.any (·.id=t.flowId)∧t.fromCardId=fromId∧
    t.toCardId=toId
  ((steps.insertionSort fun a b => a.sortOrder<b.sortOrder∨
    (a.sortOrder=b.sortOrder∧a.id ≤ b.id)).head?).map (·.label)

end Kitp.Approvals
