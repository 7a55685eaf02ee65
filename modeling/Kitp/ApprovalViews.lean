import Kitp.Approvals
import Kitp.Lib.Buckets

/-! The rows of `approval.list` and the edges the task page groups them into. -/
namespace Kitp.Approvals
open Kitp.Store Kitp.Accounts Kitp.Visibility Kitp.Buckets

structure StatusRef where
  id : Int
  label : String
  phase : Option CardPhase

structure ListedAction where
  source : Option StatusRef
  target : Option StatusRef
  label : String

structure ListedComm where
  id : Int
  subject : String
  messages : Nat

structure ListedRequest where
  id : Int
  source : Option StatusRef
  target : Option StatusRef
  action : String
  note : String
  requestedById : Int
  requestedBy : String
  requestedAt : Int
  reachedAt : Option Int
  /-- The people asked, each with their name. -/
  approvers : List (Int×String)
  comm : Option ListedComm

structure ListedVote where
  id : Int
  byId : Int
  byName : String
  personId : Option Int
  decision : Decision
  fromId : Int
  toId : Int
  action : String
  settled : Bool
  status : Option StatusRef
  reason : String
  createdAt : Int
  stale : Bool

structure ListOutput where
  status : Option StatusRef
  actions : List ListedAction
  requests : List ListedRequest
  decisions : List ListedVote

variable (s : Tables) (userLabel : Int → String) (actor taskId : Int)

/-- `status_ref_json`. -/
def statusRef (db : Db) (id : Int) : Option StatusRef :=
  (db.card id).map fun c => ⟨id,cardLabel db id,some c.phase⟩

/-- `user_sees_project`. -/
def userSeesProject (project : Int) : Bool :=
  (userRoleVisible s.dir actor).any fun ur =>
    ur.scopeCardId.all fun p => (cardAncestors s.db project).any (·.id=p)

/-- `area_state` says off. -/
def areaOff (areas : Areas) (project : Int) (key : String) : Bool :=
  (areas.areas.find? (·.key=key)).any fun a => match a.scope with
    | .workspace => (areas.workspaceAreas.find? (·.areaKey=key)).any (·.state="off")
    | .project => (areas.projectAreas.find? fun p => p.projectId=project∧p.areaKey=key).any
        (·.state="off")

/-- The number a status sorts by. -/
def sortOrder (db : Db) (id : Int) : Json :=
  match named db id "sort_order" with
  | some (.num n) => .num n
  | _ => .ofInt 0

def stepBefore (db : Db) (a b : FlowStep) : Prop :=
  ((sortOrder db a.fromCardId).cmp (sortOrder db b.fromCardId)).then
    ((compare a.fromCardId b.fromCardId).then
      ((compare a.sortOrder b.sortOrder).then (compare a.id b.id)))≠.gt

instance (db : Db) (a b : FlowStep) : Decidable (stepBefore db a b) :=
  inferInstanceAs (Decidable (_≠_))

/-- The steps of the status flow. -/
def listedActions (project : Int) : List ListedAction :=
  let flows := s.db.flows.filter fun f =>
    (s.db.attributeNamed "status").any (·.id=f.attributeDefId)∧f.scopeCardId=project
  ((s.db.flowSteps.filter fun t => flows.any (·.id=t.flowId)).insertionSort (stepBefore s.db)).map
    fun t => ⟨statusRef s.db t.fromCardId,statusRef s.db t.toCardId,t.label⟩

/-- The messages of a thread, copies sent on apart. -/
def messages (db : Db) (commId : Int) : Nat :=
  ((named db commId "replies").elim [] (refIds .cardRefs)).countP fun m =>
    (named db m "relay_of").isNone

def listedComm (commId : Int) : Option ListedComm :=
  ((s.db.card commId).filter fun c => !c.deleted&&!cardInOffArea s.db s.areas c.id).map fun c =>
    ⟨c.id,cardLabel s.db c.id,messages s.db c.id⟩

/-- Who asked: the actor of the card's `card_create`. -/
def requestedBy (id : Int) : Option Int :=
  (s.log.find? fun r => r.cardId=id&&(match r.kind with | .cardCreate => true | _ => false)).map
    (·.actorId)

def listedRequest (c : Card) : ListedRequest :=
  let f := approvalFields s.db c.id
  { id := c.id
    source := f.fromId.bind (statusRef s.db)
    target := f.toId.bind (statusRef s.db)
    action := f.action.getD ""
    note := f.note
    requestedById := (requestedBy s c.id).getD 0
    requestedBy := (requestedBy s c.id).elim "" userLabel
    requestedAt := s.createdAt c.id
    reachedAt := (approvalRoundStart s taskId f.toId).filter (s.createdAt c.id ≤ ·)
    approvers := f.approvers.map fun p => (p,cardLabel s.db p)
    comm := f.commId.bind (listedComm s) }

/-- The task has gone to another status since the vote. -/
def stale (b : Ballot) : Bool :=
  s.log.any fun r => match r.kind with
    | .attrUpdate d _ v => r.cardId=taskId∧(s.db.attributeNamed "status").any (·.id=d)∧b.id<r.id∧
        (v.bind (·.unquoted))≠some (toString b.toId)
    | _ => false

def listedVote (b : Ballot) : ListedVote where
  id := b.id
  byId := b.actorId
  byName := userLabel b.actorId
  personId := b.personId
  decision := b.decision
  fromId := b.fromId
  toId := b.toId
  action := b.action
  settled := !after (approvalRoundStart s taskId (some b.toId)) b.createdAt
  status := b.statusId.bind (statusRef s.db)
  reason := (b.commentBodyId.bind fun i => s.bodies.lookup i).getD ""
  createdAt := b.createdAt
  stale := stale s taskId b

/-- `approval_list_batch`, one row. -/
def approvalList (task : Option Int) : Except Refusal ListOutput :=
  let taskId := task.getD 0
  if taskId=0 then .error ⟨"validation","approval.list: task_id is required"⟩
  else match cardEnclosingProject s.db taskId with
    | none => .error ⟨"task_not_found",s!"approval.list: task {taskId} not found"⟩
    | some project =>
      if !s.db.live taskId∨!userSeesProject s actor project∨
          !cardVisibleTo s.db s.areas s.dir actor taskId then
        .error ⟨"task_not_found",s!"approval.list: task {taskId} not found"⟩
      else
        let off := areaOff s.areas project "approvals"
        let cards := (approvalCards s.db taskId).insertionSort fun a b =>
          s.createdAt a.id < s.createdAt b.id∨(s.createdAt a.id=s.createdAt b.id∧a.id ≤ b.id)
        .ok
          { status := (namedCard s.db taskId "status").bind (statusRef s.db)
            actions := listedActions s project
            requests := if off then [] else cards.map (listedRequest s userLabel taskId)
            decisions := if off then []
              else (ballots s taskId).reverse.map (listedVote s userLabel taskId) }

section Client

/-- Whose vote it is: a person's, or an account's without one. -/
inductive Voter where
  | person (id : Int)
  | account (id : Int)
  deriving DecidableEq

structure AskedView where
  personId : Int
  name : String
  vote : Option ListedVote

structure RequestView where
  request : ListedRequest
  opened : Bool
  asked : List AskedView
  approved : Nat
  rejected : Nat

structure EdgeView where
  key : Int×Int
  source : StatusRef
  target : StatusRef
  action : String
  requests : List RequestView
  others : List ListedVote
  mine : Option ListedVote
  waitingOnMe : Bool
  history : List ListedVote

structure Viewer where
  userId : Option Int
  personId : Option Int

/-- A missing status reads as the card 0. -/
def refOf (r : Option StatusRef) : StatusRef := r.getD ⟨0,"",none⟩

def requestKey (r : ListedRequest) : Int×Int := ((refOf r.source).id,(refOf r.target).id)

def voteKey (v : ListedVote) : Int×Int := (v.fromId,v.toId)

/-- The milliseconds of a time, which is stored in microseconds. -/
def time (t : Int) : Int := t/1000

def voter (v : ListedVote) : Voter :=
  if v.personId.getD 0≠0 then .person (v.personId.getD 0) else .account v.byId

/-- Latest vote per voter; votes come newest first. -/
def latestPerVoter (votes : List ListedVote) : List ListedVote := firstPer voter [] votes

def requestView (history : List ListedVote) (r : ListedRequest) : RequestView :=
  let votes := match r.reachedAt with
    | none => history.filter (!·.settled)
    | some cutoff => history.filter fun v => time v.createdAt ≤ time cutoff
  let answers := latestPerVoter votes
  let asked := r.approvers.map fun p =>
    (⟨p.1,p.2,answers.find? fun v => v.personId.getD 0=p.1⟩ : AskedView)
  { request := r
    opened := r.reachedAt.isNone
    asked := asked
    approved := asked.countP fun a => a.vote.any (·.decision=.approve)
    rejected := asked.countP fun a => a.vote.any (·.decision=.reject) }

/-- Open requests first, then the newest first. -/
def requestBefore (a b : RequestView) : Bool :=
  if a.opened≠b.opened then a.opened
  else time b.request.requestedAt ≤ time a.request.requestedAt

variable (list : ListOutput) (viewer : Viewer)

/-- The statuses the rows name; a later one replaces an earlier. -/
def statusOf (id : Int) : StatusRef :=
  let refs := list.actions.flatMap (fun a => [refOf a.source,refOf a.target])++
    list.requests.flatMap fun r => [refOf r.source,refOf r.target]
  (refs.reverse.find? (·.id=id)).getD ⟨id,s!"#{id}",none⟩

def actionOf (key : Int×Int) (asked : String) : String :=
  ((list.actions.reverse.find? fun a =>
    ((refOf a.source).id,(refOf a.target).id)=key).map (·.label)).getD asked

/-- The edge's ends and its action, from the first row that names it. -/
def edgeHead (key : Int×Int) : StatusRef×StatusRef×String :=
  match list.requests.find? (requestKey ·=key) with
  | some r => (refOf r.source,refOf r.target,actionOf list key r.action)
  | none =>
    (statusOf list key.1,statusOf list key.2,
      actionOf list key (((list.decisions.find? (voteKey ·=key)).map (·.action)).getD ""))

def edgeView (key : Int×Int) : EdgeView :=
  let history := bucket voteKey list.decisions key
  let current := history.filter (!·.settled)
  let requests := ((bucket requestKey list.requests key).map (requestView history)).insertionSort
    (requestBefore · ·)
  let asked := (requests.filter (·.opened)).flatMap fun r => r.request.approvers.map (·.1)
  let mine := viewer.userId.bind fun u => current.find? (·.byId=u)
  { key := key
    source := (edgeHead list key).1
    target := (edgeHead list key).2.1
    action := (edgeHead list key).2.2
    requests := requests
    others := (latestPerVoter current).filter fun v =>
      v.personId.getD 0=0∨v.personId.getD 0∉asked
    mine := mine
    waitingOnMe := viewer.personId.any fun p => mine.isNone&&
      requests.any fun r => r.opened&&r.request.approvers.any (·.1=p)
    history := history }

def edgeKeys : List (Int×Int) :=
  firstKeys (list.requests.map requestKey++list.decisions.map voteKey)

def lastTouch (e : EdgeView) : Int :=
  (e.history.map (time ·.createdAt)++e.requests.map (time ·.request.requestedAt)).foldl max 0

/-- The oldest open request; none is infinite. -/
def firstOpen (e : EdgeView) : Option Int :=
  ((e.requests.filter (·.opened)).map (time ·.request.requestedAt)).min?

def edgeBefore (a b : EdgeView) : Bool :=
  match firstOpen a,firstOpen b with
  | some x,some y => if x≠y then x ≤ y else lastTouch b ≤ lastTouch a
  | some _,none => true
  | none,some _ => false
  | none,none => lastTouch b ≤ lastTouch a

/-- `buildApprovalEdges`. -/
def buildApprovalEdges : List EdgeView :=
  ((edgeKeys list).map (edgeView list viewer)).insertionSort (edgeBefore · ·)

end Client

end Kitp.Approvals
