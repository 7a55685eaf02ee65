import Kitp.Accounts
import Kitp.Lib.Steps
import Mathlib.Data.List.Sort

/-! `flow.set`, `flow_step.set` and their deletes: the rows of a project's flows as an
admin writes them. -/
namespace Kitp.FlowSet
open Kitp.Store Kitp.Accounts Kitp.Steps

/-- One element of `flow.set`'s inputs. -/
structure SetInput where
  id : Option Int
  name : Option String
  attributeDefId : Option Int
  scopeCardId : Option Int
  defaultCreateStatusId : Option Int

structure StepSetInput where
  id : Option Int
  flowId : Option Int
  fromCardId : Option Int
  toCardId : Option Int
  label : Option String
  requiresRoleId : Option Int
  sortOrder : Option Int
  standalone : Option Bool

/-- `NULLIF(x, 0)`. -/
def nonzero (x : Int) : Option Int := if x=0 then none else some x

/-- The row an update by id replaces. -/
def setFlow (db : Db) (f : Flow) : Db :=
  { db with flows := db.flows.map fun g => if g.id=f.id then f else g }

def addFlow (db : Db) (f : Flow) : Db :=
  { db with flows := db.flows++[f], nextFlowId := db.nextFlowId+1 }

def setStep (db : Db) (s : FlowStep) : Db :=
  { db with flowSteps := db.flowSteps.map fun t => if t.id=s.id then s else t }

def addStep (db : Db) (s : FlowStep) : Db :=
  { db with flowSteps := db.flowSteps++[s], nextFlowStepId := db.nextFlowStepId+1 }

variable (db : Db)

/-- A card of the type an attribute's values are of. -/
def Targets (attributeDefId id : Int) : Prop :=
  ∃ c d, db.card id=some c∧db.attributeDef attributeDefId=some d∧
    d.targetCardTypeId=some c.cardTypeId

/-- A card of the project, or of no project at all. -/
def Within (scope id : Int) : Prop :=
  cardEnclosingProject db id=none∨cardEnclosingProject db id=some scope

instance (scope id : Int) : Decidable (Within db scope id) := inferInstanceAs (Decidable (_∨_))

/-- The starting state: a live card of the target type, in the flow's project or in none. -/
def checkDefault (d : AttributeDef) (scope default : Int) : Except Refusal Unit :=
  if default=0 then .ok ()
  else match d.targetCardTypeId with
    | none => .error ⟨"validation",
        "flow.set: attribute_def has no target_card_type — default_create_status_id is not applicable"⟩
    | some target =>
      match (db.card default).filter (!·.deleted) with
      | none => .error ⟨"default_status_not_found",
          s!"flow.set: default_create_status_id {default} not found"⟩
      | some c =>
        if c.cardTypeId≠target then .error ⟨"default_status_wrong_type",
          s!"flow.set: default_create_status_id {default} is card_type {c.cardTypeId}, expected {target} (target of attribute_def {d.id})"⟩
        else if cardEnclosingProject db default≠none∧
            cardEnclosingProject db default≠cardEnclosingProject db scope then
          .error ⟨"cross_project_ref",
            s!"flow.set: default_create_status_id {default} is in another project"⟩
        else .ok ()

/-- The flow as it is to be written; its attribute and its project are there. -/
def prepareFlow (input : SetInput) : Except Refusal Flow :=
  let name := input.name.getD ""
  let attributeDefId := input.attributeDefId.getD 0
  let scope := input.scopeCardId.getD 0
  let default := input.defaultCreateStatusId.getD 0
  if name="" then .error ⟨"validation","flow.set: name is required"⟩
  else if attributeDefId=0 then .error ⟨"validation","flow.set: attribute_def_id is required"⟩
  else if scope=0 then
    .error ⟨"validation","flow.set: scope_card_id is required (every flow is project-scoped)"⟩
  else match db.attributeDef attributeDefId with
    | none => .error ⟨"attribute_def_not_found",
        s!"flow.set: attribute_def {attributeDefId} not found"⟩
    | some d =>
      match (db.card scope).bind db.cardTypeName with
      | none => .error ⟨"scope_card_not_found",s!"flow.set: scope_card_id {scope} not found"⟩
      | some kind =>
        if kind≠"project" then .error ⟨"scope_not_project",
          s!"flow.set: scope_card_id {scope} is a "++quoteLiteral kind++" card, not a project"⟩
        else do
          checkDefault db d scope default
          return ⟨input.id.getD 0,attributeDefId,scope,nonzero default,name⟩

def flowTaken (f : Flow) : Bool :=
  db.flows.any fun g => g.id≠f.id∧g.attributeDefId=f.attributeDefId∧g.scopeCardId=f.scopeCardId

def duplicateScope : Refusal := ⟨"flow_duplicate_scope",
  "flow.set: a flow already exists for this (attribute_def, scope_card_id) — only one flow per attribute per project (V18)"⟩

/-- An id of 0 inserts. -/
def writeFlow (f : Flow) : Except Refusal Db :=
  if f.id=0 then
    let new := { f with id := db.nextFlowId }
    if flowTaken db new then .error duplicateScope else .ok (addFlow db new)
  else if !db.flows.any (·.id=f.id) then
    .error ⟨"flow_not_found",s!"flow.set: id {f.id} not found"⟩
  else if flowTaken db f then .error duplicateScope
  else .ok (setFlow db f)

/-- `flow_set_batch`, one row. -/
def flowSet (input : SetInput) : Except Refusal Db := do
  let f ← prepareFlow db input
  writeFlow db f

variable (dir : Directory)

/-- `from_card_id` or `to_card_id`: a card of the target type. -/
def checkState (column : String) (id target : Int) : Except Refusal Unit :=
  match db.card id with
  | none => .error ⟨"card_not_found",s!"flow_step.set: {column}={id} not found"⟩
  | some c =>
    if c.cardTypeId≠target then .error ⟨"card_wrong_type",
      s!"flow_step.set: {column}={id} is card_type {c.cardTypeId}, expected {target} (target of flow's attribute_def)"⟩
    else .ok ()

/-- The target type of the flow's attribute. -/
def stepTarget (flowId : Int) : Except Refusal Int :=
  match (db.flows.find? (·.id=flowId)).bind fun f => db.attributeDef f.attributeDefId with
  | none => .error ⟨"flow_not_found",s!"flow_step.set: flow {flowId} not found"⟩
  | some d =>
    match d.targetCardTypeId with
    | none => .error ⟨"flow_attr_not_card_ref",
        "flow_step.set: flow's attribute_def is not card_ref-typed; transitions are not applicable"⟩
    | some target => .ok target

def validateStep (input : StepSetInput) : Except Refusal FlowStep :=
  let flowId := input.flowId.getD 0
  let source := input.fromCardId.getD 0
  let target := input.toCardId.getD 0
  let label := input.label.getD ""
  let sortOrder := input.sortOrder.getD 0
  if sortOrder< -2147483648∨2147483647 < sortOrder then
    .error ⟨"validation","flow_step.set: sort_order must be a whole number within ±2147483647"⟩
  else if flowId=0 then .error ⟨"validation","flow_step.set: flow_id is required"⟩
  else if source=0∨target=0 then
    .error ⟨"validation","flow_step.set: from_card_id and to_card_id are required"⟩
  else if label="" then .error ⟨"validation","flow_step.set: label is required"⟩
  else .ok ⟨input.id.getD 0,flowId,source,target,nonzero (input.requiresRoleId.getD 0),label,
    sortOrder,input.standalone.getD false⟩

def stepTaken (s : FlowStep) : Bool :=
  db.flowSteps.any fun t => t.id≠s.id∧t.flowId=s.flowId∧t.fromCardId=s.fromCardId∧
    t.toCardId=s.toCardId∧t.label=s.label

/-- The unique key first, then the reference to the role. -/
def stepKeys (s : FlowStep) : Except Refusal Unit :=
  if stepTaken db s then .error ⟨"flow_step_duplicate",
    "flow_step.set: a flow_step already exists with this (flow_id, from_card_id, to_card_id, label)"⟩
  else if s.requiresRoleId.any fun r => (dir.role r).isNone then
    .error ⟨"fk_violation","flow_step.set: a status, flow or role it names doesn't exist"⟩
  else .ok ()

def writeStep (s : FlowStep) : Except Refusal Db :=
  if s.id=0 then do
    let new := { s with id := db.nextFlowStepId }
    stepKeys db dir new
    return addStep db new
  else if !db.flowSteps.any (·.id=s.id) then
    .error ⟨"flow_step_not_found",s!"flow_step.set: id {s.id} not found"⟩
  else do
    stepKeys db dir s
    return setStep db s

/-- `flow_step_set_batch`, one row. -/
def flowStepSet (input : StepSetInput) : Except Refusal Db := do
  let s ← validateStep input
  let target ← stepTarget db s.flowId
  checkState db "from_card_id" s.fromCardId target
  checkState db "to_card_id" s.toCardId target
  writeStep db dir s

structure Blocker where
  flowStepId : Int
  label : String

/-- A refusal with the steps that still reference the flow. -/
structure DeleteRefusal extends Refusal where
  blockers : List Blocker := []

/-- `flow_delete_batch`, one row; the answer says whether there was one. -/
def flowDelete (flowId : Option Int) : Except DeleteRefusal (Db×Bool) :=
  let flowId := flowId.getD 0
  let steps := (db.flowSteps.filter (·.flowId=flowId)).insertionSort fun s t =>
    s.sortOrder<t.sortOrder∨(s.sortOrder=t.sortOrder∧
      (s.label<t.label∨(s.label=t.label∧s.id ≤ t.id)))
  if flowId=0 then .error ⟨⟨"validation","flow.delete: flow_id is required"⟩,[]⟩
  else if steps≠[] then .error ⟨⟨"flow_disallowed",
    s!"flow.delete: {steps.length} flow_step row(s) still reference flow {flowId}; remove them first"⟩,
    steps.map fun s => ⟨s.id,s.label⟩⟩
  else .ok ({ db with flows := db.flows.filter (·.id≠flowId) },db.flows.any (·.id=flowId))

/-- `flow_step_delete_batch`, one row. -/
def flowStepDelete (flowStepId : Option Int) : Except Refusal (Db×Bool) :=
  let stepId := flowStepId.getD 0
  if stepId=0 then .error ⟨"validation","flow_step.delete: flow_step_id is required"⟩
  else .ok ({ db with flowSteps := db.flowSteps.filter (·.id≠stepId) },
    db.flowSteps.any (·.id=stepId))

variable {db} {dir} {db' : Db}

theorem nonzero_eq {x y : Int} (h : nonzero x=some y) : x=y∧x≠0 := by
  unfold nonzero at h
  split at h
  · cases h
  · rename_i hx
    exact ⟨Option.some.inj h,hx⟩

/-- A project encloses itself. -/
theorem enclosing_self {s : Int} {c : Card} (hc : db.card s=some c)
    (hp : db.cardTypeName c=some "project") : cardEnclosingProject db s=some s := by
  simp [cardEnclosingProject,cardAncestors,hc,Forest.walk,hp,card_id hc]

theorem checkDefault_ok {d : AttributeDef} {scope default : Int} {u : Unit}
    (h : checkDefault db d scope default=.ok u) (hd : default≠0) :
    ∃ c, db.card default=some c∧d.targetCardTypeId=some c.cardTypeId∧
      (cardEnclosingProject db default=none∨
        cardEnclosingProject db default=cardEnclosingProject db scope) := by
  unfold checkDefault at h
  rw [if_neg hd] at h
  split at h
  · cases h
  · rename_i target htarget
    split at h
    · cases h
    · rename_i c hc
      split at h
      · cases h
      · rename_i htype
        split at h
        · cases h
        · rename_i hproject
          have hrow : db.card default=some c := (Option.filter_eq_some_iff.mp hc).1
          refine ⟨c,hrow,?_,?_⟩
          · rw [htarget,not_not.mp htype]
          · by_contra hne
            simp only [not_or] at hne
            exact hproject hne

theorem prepareFlow_ok {input : SetInput} {f : Flow} (h : prepareFlow db input=.ok f) :
    f.id=input.id.getD 0∧f.attributeDefId=input.attributeDefId.getD 0∧
      f.scopeCardId=input.scopeCardId.getD 0∧
      ∀ x, f.defaultCreateStatusId=some x →
        Targets db f.attributeDefId x∧Within db f.scopeCardId x := by
  unfold prepareFlow at h
  simp only at h
  split at h
  · cases h
  split at h
  · cases h
  split at h
  · cases h
  split at h
  · cases h
  · rename_i d hd
    split at h
    · cases h
    · rename_i kind hkind
      split at h
      · cases h
      · rename_i hproject
        obtain ⟨u,hu,h⟩ := bind_ok h
        cases h
        refine ⟨rfl,rfl,rfl,?_⟩
        intro x hx
        obtain ⟨hdefault,hne⟩ := nonzero_eq hx
        obtain ⟨c,hc,htype,hwithin⟩ := checkDefault_ok hu hne
        obtain ⟨s,hs,hname⟩ := Option.bind_eq_some_iff.mp hkind
        have hself := enclosing_self hs (hname.trans (congrArg some (not_not.mp hproject)))
        rw [hself,hdefault] at hwithin
        exact ⟨⟨c,d,hdefault ▸ hc,hd,htype⟩,hwithin⟩

/-- The row a flow is written as. -/
theorem writeFlow_ok {f : Flow} (h : writeFlow db f=.ok db') :
    (f.id=0∧db'=addFlow db { f with id := db.nextFlowId })∨
      (f.id≠0∧(∃ g∈db.flows, g.id=f.id)∧db'=setFlow db f) := by
  unfold writeFlow at h
  split at h
  · rename_i hid
    simp only at h
    split at h
    · cases h
    · cases h
      exact .inl ⟨hid,rfl⟩
  · rename_i hid
    split at h
    · cases h
    · rename_i hany
      split at h
      · cases h
      · cases h
        exact .inr ⟨hid,by simpa using hany,rfl⟩

theorem flowSet_ok {input : SetInput} (h : flowSet db input=.ok db') :
    ∃ f, prepareFlow db input=.ok f∧
      ((f.id=0∧db'=addFlow db { f with id := db.nextFlowId })∨
        (f.id≠0∧(∃ g∈db.flows, g.id=f.id)∧db'=setFlow db f)) := by
  obtain ⟨f,hf,h⟩ := bind_ok h
  exact ⟨f,hf,writeFlow_ok h⟩

theorem checkState_ok {column : String} {id target : Int} {u : Unit}
    (h : checkState db column id target=.ok u) :
    ∃ c, db.card id=some c∧c.cardTypeId=target := by
  unfold checkState at h
  split at h
  · cases h
  · rename_i c hc
    split at h
    · cases h
    · rename_i htype
      exact ⟨c,hc,not_not.mp htype⟩

theorem stepTarget_ok {flowId target : Int} (h : stepTarget db flowId=.ok target) :
    ∃ f d, db.flows.find? (·.id=flowId)=some f∧db.attributeDef f.attributeDefId=some d∧
      d.targetCardTypeId=some target := by
  unfold stepTarget at h
  split at h
  · cases h
  · rename_i d hd
    split at h
    · cases h
    · rename_i t ht
      cases h
      obtain ⟨f,hf,hd⟩ := Option.bind_eq_some_iff.mp hd
      exact ⟨f,d,hf,hd,ht⟩

theorem validateStep_ok {input : StepSetInput} {s : FlowStep} (h : validateStep input=.ok s) :
    s.id=input.id.getD 0∧s.flowId=input.flowId.getD 0∧s.fromCardId=input.fromCardId.getD 0∧
      s.toCardId=input.toCardId.getD 0 := by
  unfold validateStep at h
  simp only at h
  split at h
  · cases h
  split at h
  · cases h
  split at h
  · cases h
  split at h
  · cases h
  · cases h
    exact ⟨rfl,rfl,rfl,rfl⟩

theorem writeStep_ok {s : FlowStep} (h : writeStep db dir s=.ok db') :
    (s.id=0∧db'=addStep db { s with id := db.nextFlowStepId })∨
      (s.id≠0∧(∃ t∈db.flowSteps, t.id=s.id)∧db'=setStep db s) := by
  unfold writeStep at h
  split at h
  · rename_i hid
    obtain ⟨u,hu,h⟩ := bind_ok h
    cases h
    exact .inl ⟨hid,rfl⟩
  · rename_i hid
    split at h
    · cases h
    · rename_i hany
      obtain ⟨u,hu,h⟩ := bind_ok h
      cases h
      exact .inr ⟨hid,by simpa using hany,rfl⟩

/-- Both states are of the flow's type; where they are is not looked at. -/
theorem flowStepSet_ok {input : StepSetInput} (h : flowStepSet db dir input=.ok db') :
    ∃ s f, validateStep input=.ok s∧db.flows.find? (·.id=s.flowId)=some f∧
      Targets db f.attributeDefId s.fromCardId∧Targets db f.attributeDefId s.toCardId∧
      ((s.id=0∧db'=addStep db { s with id := db.nextFlowStepId })∨
        (s.id≠0∧(∃ t∈db.flowSteps, t.id=s.id)∧db'=setStep db s)) := by
  obtain ⟨s,hs,h⟩ := bind_ok h
  obtain ⟨target,htarget,h⟩ := bind_ok h
  obtain ⟨u,hfrom,h⟩ := bind_ok h
  obtain ⟨v,hto,h⟩ := bind_ok h
  obtain ⟨f,d,hf,hd,ht⟩ := stepTarget_ok htarget
  obtain ⟨c,hc,hct⟩ := checkState_ok hfrom
  obtain ⟨e,he,het⟩ := checkState_ok hto
  exact ⟨s,f,hs,hf,⟨c,d,hc,hd,hct.symm ▸ ht⟩,⟨e,d,he,hd,het.symm ▸ ht⟩,writeStep_ok h⟩

/-- Only a flow with no steps left is deleted. -/
theorem flowDelete_ok {flowId : Option Int} {deleted : Bool}
    (h : flowDelete db flowId=.ok (db',deleted)) :
    (∀ s∈db.flowSteps, s.flowId≠flowId.getD 0)∧
      db'={ db with flows := db.flows.filter (·.id≠flowId.getD 0) } := by
  unfold flowDelete at h
  simp only at h
  split at h
  · cases h
  split at h
  · cases h
  · rename_i hsteps
    cases h
    refine ⟨?_,rfl⟩
    intro s hs hid
    have hmem : s∈db.flowSteps.filter (·.flowId=flowId.getD 0) := by simp [hs,hid]
    have hsorted := (List.mem_insertionSort fun s t : FlowStep => s.sortOrder<t.sortOrder∨
      (s.sortOrder=t.sortOrder∧(s.label<t.label∨(s.label=t.label∧s.id ≤ t.id)))).mpr hmem
    rw [not_not.mp hsteps] at hsorted
    simp at hsorted

theorem flowStepDelete_ok {flowStepId : Option Int} {deleted : Bool}
    (h : flowStepDelete db flowStepId=.ok (db',deleted)) :
    db'={ db with flowSteps := db.flowSteps.filter (·.id≠flowStepId.getD 0) } := by
  unfold flowStepDelete at h
  simp only at h
  split at h
  · cases h
  · cases h
    rfl

end Kitp.FlowSet
