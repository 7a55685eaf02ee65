import Kitp.CardInsert
import Mathlib.Data.List.Dedup

/-! `task_move_batch`: one row, from its checks to the tasks it moves, what it sets on them
and what it leaves of their threads. -/
namespace Kitp.TaskMove
open Kitp.Store Kitp.CardInsert Kitp.Steps

/-- One element of `inputs`. -/
structure Input where
  cardId : Option Int
  newProjectId : Option Int
  newStatusId : Option Int
  newMilestoneId : Option Int
  newComponentId : Option Int
  newTagIds : Option Json
  subtaskStrategy : Option String

/-- What the row asks for; 0 is no card. -/
structure Request where
  card : Int
  project : Int
  status : Int
  milestone : Int
  component : Int
  tags : List Int
  cascade : Bool

def refuse {α : Type} (code message : String) : Except Refusal α := .error ⟨code,message⟩

/-- A tag is a number or a string of digits; anything else is passed over. -/
def tagId : Json → Except Refusal (Option Int)
  | .num n => (Attributes.castBigint n).map some
  | .str s => .ok (idText s)
  | _ => .ok none

def tagIds : Option Json → Except Refusal (List Int)
  | some (.arr xs) => (xs.mapM tagId).map (·.filterMap id)
  | _ => .ok []

def decode (input : Input) : Except Refusal Request := do
  let tags ← tagIds input.newTagIds
  let strategy := (input.subtaskStrategy.filter (·≠"")).getD "cascade"
  match input.cardId.filter (·≠0),input.newProjectId.filter (·≠0) with
  | none,_ => refuse "validation" "task.move: card_id is required"
  | some _,none => refuse "validation" "task.move: new_project_id is required"
  | some card,some project =>
    if strategy≠"cascade"∧strategy≠"break" then
      refuse "validation" ("task.move: subtask_strategy must be 'cascade' or 'break' (got "++
        quoteLiteral strategy++")")
    else .ok ⟨card,project,input.newStatusId.getD 0,input.newMilestoneId.getD 0,
      input.newComponentId.getD 0,tags,strategy="cascade"⟩

variable (env : Env) (db : Db) (actor : Int) (r : Request)

def movedTask : Except Refusal Card :=
  match (db.card r.card).filter (!·.deleted) with
  | none => refuse "card_not_found" s!"task.move: card {r.card} not found"
  | some c =>
    if db.cardTypeName c=some "task" then .ok c
    else refuse "wrong_card_type" s!"task.move: card {r.card} is not a task"

/-- The destination: another live project that the actor may add tasks to. -/
def destination (task : Card) : Except Refusal Unit :=
  if r.project=task.parentCardId.getD 0 then
    refuse "same_project" "task.move: source and destination project are the same"
  else if !(db.card r.project).any (fun c => !c.deleted&&db.cardTypeName c=some "project") then
    refuse "project_not_found" s!"task.move: project {r.project} not found"
  else if r.project∈db.bundleSources then
    refuse "forbidden" s!"task.move: project {r.project} is a feature bundle's source; kitp maintains it"
  else if !env.acc.userHasGrant db actor "task" "card.update" r.project then
    refuse "forbidden" s!"task.move: you can't add tasks to project {r.project}"
  else if env.acc.areaWriteBlocked db task.cardTypeId r.project r.project then
    refuse "area_off" s!"task.move: Tasks is switched off in project {r.project}"
  else if r.project=r.card∨(cardAncestors db r.project).any (·.id=r.card) then
    refuse "cycle" s!"task.move: cannot move card {r.card} under itself or its own descendant {r.project}"
  else .ok ()

/-- The flow on an attribute in the destination. -/
def flowOn (name : String) : Option Flow :=
  (db.attributeNamed name).bind fun d =>
    db.flows.find? fun f => f.attributeDefId=d.id∧f.scopeCardId=r.project

def phaseRank : CardPhase → Nat
  | .triage => 0
  | .active => 1
  | .terminal => 2

def sortValue (id : Int) : Option Json :=
  (db.attributeNamed "sort_order").bind fun d => db.value id d.id

/-- `COALESCE((value)::text::numeric, 9223372036854775807)`. -/
def sortNumber (id : Int) : Except Refusal Json :=
  match sortValue db id with
  | none => .ok (.ofInt 9223372036854775807)
  | some (.num n) => .ok (.num n)
  | some v => refuse "22P02" ("invalid input syntax for type numeric: "++Json.quoted v.text)

/-- The status a task gets in the destination when none is named. -/
def intakeStatus : Except Refusal Int :=
  match (flowOn db r "status").bind (·.defaultCreateStatusId.filter db.live) with
  | some status => .ok status
  | none => do
    let states := (flowOn db r "status").map fun f => flowStateIds db f.id
    let candidates := db.cards.filter fun c => !c.deleted&&c.parentCardId=some r.project&&
      db.cardTypeName c=some "status"&&states.all (c.id ∈ ·)
    let keyed ← candidates.mapM fun c => (sortNumber db c.id).map fun n => (c,n)
    let sorted := keyed.insertionSort fun a b =>
      ((compare (phaseRank a.1.phase) (phaseRank b.1.phase)).then
        ((Json.cmp a.2 b.2).then (compare a.1.id b.1.id)))≠.gt
    match sorted.head? with
    | some (c,_) => return c.id
    | none =>
      throw ⟨"no_intake_status",s!"task.move: destination project {r.project} has no status — pick new_status_id explicitly"⟩

def chosenStatus : Except Refusal Int := if r.status=0 then intakeStatus db r else .ok r.status

/-- A live card with the name of its type. -/
def typed (id : Int) : Option (Card×String) :=
  ((db.card id).filter (!·.deleted)).bind fun c => (db.cardTypeName c).map (c,·)

/-- A state of the destination that the actor could move a card into. -/
def statusCheck (status : Int) : Except Refusal Unit :=
  match typed db status with
  | none => refuse "bad_status" s!"status id {status} not found"
  | some (c,name) =>
    if name≠"status" then refuse "bad_status" s!"status id {status} is a {name}, expected status"
    else if c.parentCardId.getD 0≠r.project then
      refuse "bad_status" s!"status id {status} does not belong to destination project"
    else match flowOn db r "status" with
      | none => .ok ()
      | some f =>
        if status∉flowStateIds db f.id then
          refuse "bad_status" s!"status id {status} is not a state of the destination project's flow"
        else if stateRoleGated env db actor f status r.project then
          refuse "flow_role_required" s!"task.move: status {status} needs a role you don't hold; move the task to another status"
        else .ok ()

/-- A classification belongs to the destination. -/
def valueCheck (kind : String) (id : Int) : Except Refusal Unit :=
  match typed db id with
  | none => refuse ("bad_"++kind) (kind++s!" id {id} not found")
  | some (c,name) =>
    if name≠kind∨c.parentCardId.getD 0≠r.project then
      refuse ("bad_"++kind) (kind++s!" id {id} is a {name} or does not belong to destination project")
    else .ok ()

def milestoneCheck : Except Refusal Unit :=
  if r.milestone=0 then .ok () else valueCheck db r "milestone" r.milestone

def componentCheck : Except Refusal Unit :=
  if r.component=0 then .ok () else valueCheck db r "component" r.component

/-- The attribute holds the number of one of the cards. -/
def holdsOne (name : String) (ids : List Int) (c : Card) : Bool :=
  (db.attributeNamed name).any fun d => (db.value c.id d.id).any fun v =>
    ids.any (namesCard .cardRef v)

/-- The live cards of the project the task is in whose `parent_task` is one of `parents`. -/
def subtasksOf (project : Option Int) (parents : List Int) : List Int :=
  (db.cards.filter fun c => !c.deleted&&c.parentCardId=project&&project.isSome&&
    holdsOne db "parent_task" parents c).map (·.id)

/-- The walk down `parent_task`, level by level. -/
def subtasks (project : Option Int) : Nat → List Int → List Int
  | 0,_ => []
  | n+1,parents =>
    let level := subtasksOf db project parents
    level++subtasks project n level

/-- The task, then what rides along. -/
def movedIds (task : Card) : List Int :=
  task.id::if r.cascade then
    ((subtasks db task.parentCardId 17 [task.id]).filter (·≠task.id)).dedup.insertionSort (· ≤ ·)
  else []

/-- What a row that passed its checks does. -/
structure Checked where
  request : Request
  task : Card
  moved : List Int
  status : Int

def prepare (input : Input) : Except Refusal Checked := do
  let r ← decode input
  let task ← movedTask db r
  destination env db actor r task
  let status ← chosenStatus db r
  statusCheck env db actor r status
  milestoneCheck db r
  componentCheck db r
  r.tags.forM (valueCheck db r "tag")
  return ⟨r,task,movedIds db r task,status⟩

variable (w : Checked)

/-- The attributes that belong to a project. -/
def projectAttributes : List String := ["status","milestone_ref","component_ref","tags"]

/-- What each of them is set to on a moved task. -/
def newValue (name : String) : Option Json :=
  match name with
  | "status" => some (.ofInt w.status)
  | "milestone_ref" => if w.request.milestone=0 then none else some (.ofInt w.request.milestone)
  | "component_ref" => if w.request.component=0 then none else some (.ofInt w.request.component)
  | "tags" => if w.request.tags=[] then none else some (.arr (w.request.tags.map .ofInt))
  | _ => none

/-- The attributes with the given names. -/
def defsNamed (names : List String) : List AttributeDef :=
  names.filterMap db.attributeNamed

/-- The moved task's values of its old project go, and the new ones come, unlogged. -/
def reclassify (m : Int) : Db :=
  let defs := defsNamed db projectAttributes
  defs.foldl (fun db d => (newValue w d.name).elim db (db.setValue m d.id))
    (db.dropValues fun v => v.cardId=m∧v.attributeDefId∈defs.map (·.id))

/-- One moved task: its parent, its values and its `task_move`. -/
def place (m : Int) : Db :=
  let note := Json.obj [("root_task_id",.ofInt w.request.card),
    ("new_project_id",.ofInt w.request.project),
    ("old_project_id",.ofInt (w.task.parentCardId.getD 0))]
  (reclassify (db.setParent (· = m) w.request.project) w m).log
    ⟨m,"task_move",none,none,some note,actor⟩

/-- The links of the cards to a parent task go, each logged. -/
def unlink (cards : List Int) : Db :=
  let defs := (defsNamed db ["parent_task","parent_relationship"]).map (·.id)
  let linked (v : AttributeValue) : Bool := v.cardId∈cards∧v.attributeDefId∈defs
  let gone := (db.values.filter linked).insertionSort fun a b =>
    a.cardId<b.cardId∨(a.cardId=b.cardId∧a.attributeDefId ≤ b.attributeDefId)
  { db.dropValues linked with
    activity := db.activity++gone.map fun v =>
      ⟨v.cardId,"attr_update",some v.attributeDefId,some v.value,some .null,actor⟩ }

/-- The moved task's own parent task stays in another project. -/
def parentLeft : Bool :=
  (db.attributeNamed "parent_task").any fun d => (db.value w.request.card d.id).any fun v =>
    (match v with
      | .num n => n.whole.bind (cardEnclosingProject db)
      | _ => none)≠some w.request.project

/-- The threads of the moved tasks. -/
def threads : List Int :=
  (db.cards.filter fun c => c.parentCardId.any (· ∈ w.moved)&&
    db.cardTypeName c=some "comm").map (·.id)

/-- A setting of a mail account as text. -/
def setting (channel : Int) (name : String) : Option String :=
  ((db.attributeNamed name).bind fun d => db.value channel d.id).bind Json.unquoted

/-- `channel_can_send`. -/
def channelCanSend (channel : Int) : Bool :=
  let text (name : String) : String := Attributes.trimBlanks ((setting db channel name).getD "")
  let secret : Bool := channel∈db.sendSecrets
  text "from_address"≠""&&
    match ((setting db channel "send_method").filter (·≠"")).getD "smtp" with
    | "smtp" => text "smtp_host"≠""
    | "mailgun" => text "send_domain"≠""&&secret
    | "postmark" => secret
    | "webhook" => text "send_url"≠""&&secret
    | _ => false

/-- `project_mail_account`. -/
def projectMailAccount (project : Int) : Option Int :=
  let rank (c : Card) : Nat :=
    let text (name : String) : String := (setting db c.id name).getD ""
    (if (setting db c.id "channel_status").getD "enabled"="enabled" then 0 else 4)+
      (if channelCanSend db c.id then 0 else 2)+
      if text "imap_host"≠""∧text "intake_mode"≠"ignore" then 0 else 1
  (((db.cards.filter fun c => !c.deleted&&c.parentCardId=some project&&
    db.cardTypeName c=some "comm_channel").insertionSort fun a b =>
      rank a < rank b∨(rank a=rank b∧a.id ≤ b.id)).head?).map (·.id)

/-- A message on one of the threads. -/
def onThread (threads : List Int) (message : Int) : Bool :=
  (db.attributeNamed "replies").any fun d => threads.any fun t =>
    (db.value t d.id).any (namesCard .cardRefs · message)

/-- The threads send from the destination's mail account, or have none and what they
still had to send has failed. -/
def rehome : Db :=
  let ts := threads db w
  match projectMailAccount db w.request.project with
  | some account =>
    (defsNamed db ["channel_ref"]).foldl (fun db d =>
      ts.foldl (fun db t => db.setValue t d.id (.ofInt account)) db) db
  | none =>
    let failing (v : AttributeValue) : Bool :=
      (defsNamed db ["delivery_status"]).any (·.id=v.attributeDefId)&&
        v.value=.str "pending"&&onThread db ts v.cardId
    let failed : Db := { db with
      values := db.values.map fun v => if failing v then { v with value := .str "failed" } else v }
    failed.dropValues fun v => v.cardId∈ts∧
      (defsNamed db ["channel_ref"]).any (·.id=v.attributeDefId)

/-- The destination's state for a thread in the given one: of its phase, the first by sort
order, else the starting state. -/
def threadState (flow : Flow) (old : Int) : Option Int :=
  let key (c : Card) : Json :=
    match sortValue db c.id with
    | some (.num n) => .num n
    | _ => .null
  let alike := db.cards.filter fun c => c.id∈flowStateIds db flow.id&&
    (db.card old).any (·.phase=c.phase)
  let before (a b : Card) : Bool :=
    match key a,key b with
    | .null,.null => a.id ≤ b.id
    | .null,_ => false
    | _,.null => true
    | m,n => ((Json.cmp m n).then (compare a.id b.id))≠.gt
  (((alike.insertionSort (before · ·)).head?).map (·.id)).or flow.defaultCreateStatusId

/-- What a thread's state becomes in the destination's flow. -/
def restated (flow : Flow) (v : Json) : Option Int :=
  match v with
  | .num n => n.whole.bind fun old =>
    if old∈flowStateIds db flow.id then none else threadState db flow old
  | _ => none

/-- The threads take states of the destination's flow. -/
def restate : Db :=
  match flowOn db w.request "comm_status",db.attributeNamed "comm_status" with
  | some flow,some d =>
    { db with values := db.values.map fun v =>
        if v.cardId∈threads db w∧v.attributeDefId=d.id then
          { v with value := (restated db flow v.value).elim v.value .ofInt }
        else v }
  | _,_ => db

/-- The subtasks left behind by a break. -/
def leftBehind : List Int :=
  if w.request.cascade then []
  else (db.cards.filter fun c => !c.deleted&&c.parentCardId=w.task.parentCardId&&
    w.task.parentCardId.isSome&&holdsOne db "parent_task" [w.request.card] c).map (·.id)

/-- The tasks in the destination, the root without a parent task left elsewhere. -/
def arrive : Db :=
  let placed := w.moved.foldl (place · actor w) db
  if parentLeft placed w then unlink placed actor [w.request.card] else placed

/-- What a row that passed its checks writes. -/
def apply : Db :=
  let threaded := restate (rehome (arrive db actor w) w) w
  unlink threaded actor (leftBehind threaded w)

/-- One row. -/
def taskMove (input : Input) : Except Refusal Db := do
  let w ← prepare env db actor input
  return apply db actor w

variable {env : Env} {db : Db} {actor : Int} {w : Checked}

theorem movedTask_ok {r : Request} {task : Card} (h : movedTask db r=.ok task) :
    db.card r.card=some task∧db.cardTypeName task=some "task" := by
  unfold movedTask at h
  split at h
  · cases h
  · rename_i c hc
    split at h
    · rename_i ht
      cases h
      exact ⟨(Option.filter_eq_some_iff.mp hc).1,ht⟩
    · cases h

theorem destination_ok {r : Request} {task : Card} (h : destination env db actor r task=.ok ()) :
    ∃ p, db.card r.project=some p∧db.cardTypeName p=some "project" := by
  unfold destination at h
  split at h
  · cases h
  · split at h
    · cases h
    · rename_i hp
      have hp : (db.card r.project).any (fun c =>
          !c.deleted&&db.cardTypeName c=some "project")=true := by simpa using hp
      obtain ⟨p,hcard,hp⟩ := (Option.any_eq_true _ _).mp hp
      simp only [Bool.and_eq_true,decide_eq_true_eq] at hp
      exact ⟨p,hcard,hp.2⟩

/-- What a row that goes on to write was checked for. -/
theorem prepare_ok {input : Input} (h : prepare env db actor input=.ok w) :
    db.card w.request.card=some w.task∧db.cardTypeName w.task=some "task"∧
      (∃ p, db.card w.request.project=some p∧db.cardTypeName p=some "project")∧
      w.moved=movedIds db w.request w.task := by
  unfold prepare at h
  obtain ⟨r,_,h⟩ := bind_ok h
  obtain ⟨task,htask,h⟩ := bind_ok h
  obtain ⟨_,hdest,h⟩ := bind_ok h
  obtain ⟨status,_,h⟩ := bind_ok h
  obtain ⟨_,_,h⟩ := bind_ok h
  obtain ⟨_,_,h⟩ := bind_ok h
  obtain ⟨_,_,h⟩ := bind_ok h
  obtain ⟨_,_,h⟩ := bind_ok h
  cases h
  exact ⟨(movedTask_ok htask).1,(movedTask_ok htask).2,destination_ok hdest,rfl⟩

theorem taskMove_ok {input : Input} {db' : Db} (h : taskMove env db actor input=.ok db') :
    ∃ w, prepare env db actor input=.ok w∧db'=apply db actor w := by
  unfold taskMove at h
  obtain ⟨w,hw,h⟩ := bind_ok h
  cases h
  exact ⟨w,hw,rfl⟩

theorem mem_subtasks {project : Option Int} {n : Nat} {parents : List Int} {m : Int}
    (h : m∈subtasks db project n parents) :
    ∃ c∈db.cards, c.id=m∧c.parentCardId=project∧project.isSome := by
  induction n generalizing parents with
  | zero => simp [subtasks] at h
  | succ n ih =>
    cases List.mem_append.mp h with
    | inl h =>
      obtain ⟨c,hc,hid⟩ := List.mem_map.mp h
      simp only [List.mem_filter,Bool.and_eq_true,decide_eq_true_eq] at hc
      exact ⟨c,hc.1,hid,hc.2.1.1.2,hc.2.1.2⟩
    | inr h => exact ih h

/-- What moves is the task, or has the task's parent. -/
theorem mem_movedIds {r : Request} {task : Card} {m : Int} (h : m∈movedIds db r task) :
    m=task.id∨∃ c∈db.cards, c.id=m∧c.parentCardId=task.parentCardId∧task.parentCardId.isSome := by
  cases List.mem_cons.mp h with
  | inl h => exact .inl h
  | inr h =>
    split at h
    · have hmem := List.mem_dedup.mp ((List.mem_insertionSort _).mp h)
      exact .inr (mem_subtasks (List.mem_of_mem_filter hmem))
    · simp at h

theorem reclassify_keeps (m : Int) : SameCards db (reclassify db w m) := by
  refine foldl_inv (I := SameCards db) ⟨rfl,rfl,rfl,rfl,rfl⟩ ?_
  intro db' h d _
  cases newValue w d.name with
  | none => exact h
  | some v => exact h.trans ⟨rfl,rfl,rfl,rfl,rfl⟩

theorem place_keeps (db : Db) (actor : Int) (w : Checked) (m : Int) :
    SameCards (db.setParent (· = m) w.request.project) (place db actor w m) :=
  (reclassify_keeps m).trans ⟨rfl,rfl,rfl,rfl,rfl⟩

theorem unlink_keeps (cards : List Int) : SameCards db (unlink db actor cards) :=
  ⟨rfl,rfl,rfl,rfl,rfl⟩

theorem rehome_keeps : SameCards db (rehome db w) := by
  unfold rehome
  split
  · refine foldl_inv (I := SameCards db) (.refl db) fun db' h d _ => ?_
    refine foldl_inv (I := SameCards db) h fun db' h t _ => ?_
    exact h.trans ⟨rfl,rfl,rfl,rfl,rfl⟩
  · exact ⟨rfl,rfl,rfl,rfl,rfl⟩

theorem restate_keeps : SameCards db (restate db w) := by
  unfold restate
  split
  · exact ⟨rfl,rfl,rfl,rfl,rfl⟩
  · exact .refl db

/-- After the moved tasks are placed no card is touched. -/
theorem apply_keeps : SameCards (w.moved.foldl (place · actor w) db) (apply db actor w) := by
  unfold apply
  refine SameCards.trans ?_ (unlink_keeps _)
  refine SameCards.trans ?_ restate_keeps
  refine SameCards.trans ?_ rehome_keeps
  unfold arrive
  simp only
  split
  · exact unlink_keeps _
  · exact .refl _

end Kitp.TaskMove
