import Kitp.Visibility
import Mathlib.Data.List.Sort

/-! The flow of a status: `attribute.update`'s gate, `flow_step.list_for_card` and the
`available` list of a refusal. -/
namespace Kitp.FlowGate
open Kitp.Store Kitp.Accounts Kitp.Visibility

/-- A status as an answer names it. -/
structure StateLabel where
  id : Int
  label : String
  phase : Option CardPhase

/-- A step a card stands at the start of. -/
structure Transition where
  flow : Flow
  attr : AttributeDef
  step : FlowStep

structure ListedStep where
  id : Int
  flowId : Int
  flowName : String
  attributeDefId : Int
  attributeDefName : String
  source : StateLabel
  target : StateLabel
  label : String
  requiresRoleId : Int
  requiresRoleName : String
  sortOrder : Int
  standalone : Bool
  allowed : Bool

structure AvailableStep where
  stepId : Int
  target : StateLabel
  label : String
  yourRoleAllows : Bool
  requiresRole : Option String

structure FlowDetail where
  source : StateLabel
  attemptedTo : StateLabel
  available : List AvailableStep

structure FlowRefusal extends Refusal where
  detail : Option FlowDetail

variable (db : Db) (dir : Directory) (areas : Areas)

def title (cardId : Int) : String :=
  (((db.attributeNamed "title").bind fun d => db.value cardId d.id).bind scalarText).getD ""

def stateLabel (id : Int) : StateLabel :=
  ⟨id,if (db.card id).isSome then title db id else "",(db.card id).map (·.phase)⟩

/-- The state a card is in: only a number counts. -/
def currentState (cardId attributeDefId : Int) : Option Int :=
  match db.value cardId attributeDefId with
  | some (.num n) => n.whole
  | _ => none

/-- `ORDER BY ad.name, fs.sort_order, fs.label, fs.id`. -/
def Transition.before (a b : Transition) : Prop :=
  a.attr.name<b.attr.name∨(a.attr.name=b.attr.name∧
    (a.step.sortOrder<b.step.sortOrder∨(a.step.sortOrder=b.step.sortOrder∧
      (a.step.label<b.step.label∨(a.step.label=b.step.label∧a.step.id ≤ b.step.id)))))

instance (a b : Transition) : Decidable (a.before b) := inferInstanceAs (Decidable (_∨_))

/-- The join both lists read: the steps of the project's flows from where the card is. -/
def transitions (cardId project : Int) : List Transition :=
  ((db.flows.filter (·.scopeCardId=project)).flatMap fun f =>
    (db.attributeDef f.attributeDefId).elim [] fun ad =>
      (db.flowSteps.filter fun s => s.flowId=f.id∧
        currentState db cardId f.attributeDefId=some s.fromCardId).map (⟨f,ad,·⟩)).insertionSort
    (·.before ·)

def listed (actor project : Int) (t : Transition) : ListedStep where
  id := t.step.id
  flowId := t.step.flowId
  flowName := t.flow.name
  attributeDefId := t.flow.attributeDefId
  attributeDefName := t.attr.name
  source := stateLabel db t.step.fromCardId
  target := stateLabel db t.step.toCardId
  label := t.step.label
  requiresRoleId := t.step.requiresRoleId.getD 0
  requiresRoleName := ((t.step.requiresRoleId.bind dir.role).map (·.name)).getD ""
  sortOrder := t.step.sortOrder
  standalone := t.step.standalone
  allowed := userHasStepRole dir actor t.step.requiresRoleId project

/-- `flow_step.list_for_card`. A card the caller can't see has no steps for them. -/
def flowStepListForCard (actor : Int) (cardId : Option Int) : Except Refusal (List ListedStep) :=
  let cardId := cardId.getD 0
  if cardId=0 then .error ⟨"validation","flow_step.list_for_card: card_id is required"⟩
  else if !cardVisibleTo db areas dir actor cardId then .ok []
  else match cardEnclosingProject db cardId with
    | none => .ok []
    | some project =>
      .ok (((transitions db cardId project).filter fun t =>
        db.live t.step.fromCardId&&db.live t.step.toCardId).map (listed db dir actor project))

def available (actor project : Int) (t : Transition) : AvailableStep where
  stepId := t.step.id
  target := stateLabel db t.step.toCardId
  label := t.step.label
  yourRoleAllows := userHasStepRole dir actor t.step.requiresRoleId project
  requiresRole := t.step.requiresRoleId.map fun r => ((dir.role r).map (·.name)).getD ""

def buildFlowAvailableArray (actor cardId project : Int) : List AvailableStep :=
  ((transitions db cardId project).filter fun t => db.live t.step.toCardId).map
    (available db dir actor project)

/-- The rows of `flow_step` between two states, in no order. -/
def stepsBetween (flowId source target : Int) : List FlowStep :=
  db.flowSteps.filter fun s => s.flowId=flowId∧s.fromCardId=source∧s.toCardId=target

/-- `pick` is the row `LIMIT 1` gives without an order: any of them. -/
structure Picks (pick : List FlowStep → Option FlowStep) : Prop where
  mem : ∀ l s, pick l=some s → s∈l
  some : ∀ l, l≠[] → (pick l).isSome

variable (pick : List FlowStep → Option FlowStep)

/-- The code a change of state is refused with, and the role it asks for. -/
def flowCode (actor project : Int) (flow : Flow) (prev new : Int) : Option (String×Option String) :=
  if new∉flowStateIds db flow.id then some ("flow_invalid_state",none)
  else match pick (stepsBetween db flow.id prev new) with
    | none => some ("flow_disallowed",none)
    | some s =>
      match s.requiresRoleId with
      | none => none
      | some r =>
        if (dir.role r).isSome∧userHasStepRole dir actor (some r) project then none
        else some ("flow_role_required",(dir.role r).map (·.name))

def flowMessage (attrName : String) (source target : StateLabel) (code : String)
    (roleName : Option String) : String :=
  if code="flow_invalid_state" then
    "Cannot set "++attrName++" to "++quoteLiteral target.label++
      s!" ({target.id}): it is not a state of this project's flow."
  else if code="flow_disallowed" then
    "Cannot move "++attrName++" from "++quoteLiteral source.label++" to "++
      quoteLiteral target.label++"."
  else
    "attribute.update: transition requires role "++quoteLiteral (roleName.getD "?")++
      "; actor does not hold it"

def flowOf (attributeDefId project : Int) : Option Flow :=
  db.flows.find? fun f => f.attributeDefId=attributeDefId∧f.scopeCardId=project

/-- The flow gate of `attribute.update`, on the value as it would be stored. -/
def flowGate (actor cardId : Int) (attr : AttributeDef) (norm : Json) : Except FlowRefusal Unit :=
  match attr.valueType,norm,cardEnclosingProject db cardId with
  | .cardRef,.num n,some project =>
    match flowOf db attr.id project with
    | none => .ok ()
    | some flow =>
      match (currentState db cardId attr.id).filter (·≠0) with
      | none =>
        .error ⟨⟨"flow_invariant",s!"attribute.update: card {cardId} has no current value for flow-bound attribute "++
          quoteLiteral attr.name⟩,none⟩
      | some prev =>
        match n.whole with
        | none => .error ⟨⟨"22P02","invalid input syntax for type bigint"⟩,none⟩
        | some new =>
          -- the value the card already holds is no transition
          if new=prev then .ok ()
          else match flowCode db dir pick actor project flow prev new with
            | none => .ok ()
            | some (code,roleName) =>
              let source := stateLabel db prev
              let target := stateLabel db new
              .error ⟨⟨code,flowMessage attr.name source target code roleName⟩,
                some ⟨source,target,buildFlowAvailableArray db dir actor cardId project⟩⟩
  | _,_,_ => .ok ()

/-- What the tables' keys and references promise. -/
structure Keys (db : Db) (dir : Directory) : Prop where
  cards : ∀ c∈db.cards, c.id≠0∧db.card c.id=some c
  flowIds : ∀ f∈db.flows, ∀ g∈db.flows, f.id=g.id → f=g
  flowScopes : ∀ f∈db.flows, ∀ g∈db.flows, f.attributeDefId=g.attributeDefId →
    f.scopeCardId=g.scopeCardId → f=g
  stepIds : ∀ s∈db.flowSteps, ∀ t∈db.flowSteps, s.id=t.id → s=t
  stepFroms : ∀ s∈db.flowSteps, s.fromCardId≠0
  stepRoles : ∀ s∈db.flowSteps, ∀ r, s.requiresRoleId=some r → (dir.role r).isSome=true

/-- The gate lets the write of `target` through. -/
def lets (actor cardId : Int) (attr : AttributeDef) (target : Int) : Bool :=
  (flowGate db dir pick actor cardId attr (.num (.ofInt target))).toBool

/-- The list holds an allowed step of the flow to `target`. -/
def lists (actor cardId : Int) (flow : Flow) (target : Int) : Bool :=
  match flowStepListForCard db dir areas actor (some cardId) with
  | .ok rows => rows.any fun r => r.flowId=flow.id&&r.target.id=target&&r.allowed
  | .error _ => false

/-- The array marks a step of the flow to `target`. -/
def marks (actor cardId : Int) (flow : Flow) (target : Int) : Bool :=
  (buildFlowAvailableArray db dir actor cardId flow.scopeCardId).any fun a =>
    (db.flowSteps.any fun s => s.id=a.stepId∧s.flowId=flow.id)&&a.target.id=target&&
      a.yourRoleAllows

/-- A step from where the card is to a live target is open to the actor. -/
def Open (actor cardId : Int) (flow : Flow) (target : Int) : Prop :=
  db.live target=true∧∃ s∈db.flowSteps, s.flowId=flow.id∧s.toCardId=target∧
    currentState db cardId flow.attributeDefId=some s.fromCardId∧
    userHasStepRole dir actor s.requiresRoleId flow.scopeCardId=true

/-- The write is a change of the state of a flow: of a `card_ref`, to another value. -/
def Changes (cardId : Int) (attr : AttributeDef) (target : Int) : Prop :=
  attr.valueType=.cardRef∧(currentState db cardId attr.id≠some target∨target=0)

/-- When the three answer alike: an open step is one of a card the actor sees, from a live
state, and the step the gate picks is open; a write that changes nothing is an open step. -/
structure OneAnswer (actor cardId : Int) (attr : AttributeDef) (flow : Flow) (target : Int) :
    Prop where
  seen : Open db dir actor cardId flow target →
    cardVisibleTo db areas dir actor cardId=true∧
      ∀ prev, currentState db cardId attr.id=some prev → db.live prev=true
  picked : Changes db cardId attr target → Open db dir actor cardId flow target →
    ∀ prev, currentState db cardId attr.id=some prev →
      ∃ s, pick (stepsBetween db flow.id prev target)=some s∧
        userHasStepRole dir actor s.requiresRoleId flow.scopeCardId=true
  unchanged : ¬Changes db cardId attr target → Open db dir actor cardId flow target

variable {db dir areas pick} {actor cardId target project : Int} {attr : AttributeDef} {flow : Flow}

theorem mem_transitions {t : Transition} : t∈transitions db cardId project↔
    t.flow∈db.flows∧t.flow.scopeCardId=project∧
      db.attributeDef t.flow.attributeDefId=some t.attr∧t.step∈db.flowSteps∧
      t.step.flowId=t.flow.id∧
      currentState db cardId t.flow.attributeDefId=some t.step.fromCardId := by
  rw [transitions,(List.perm_insertionSort _ _).mem_iff,List.mem_flatMap]
  constructor
  · intro h
    obtain ⟨f,hf,h⟩ := h
    have hf : f∈db.flows∧f.scopeCardId=project := by simpa using hf
    cases ha : db.attributeDef f.attributeDefId with
    | none => simp [ha] at h
    | some ad =>
      simp only [ha,Option.elim_some,List.mem_map,List.mem_filter,decide_eq_true_eq] at h
      obtain ⟨s,⟨hs,hid,hcur⟩,rfl⟩ := h
      exact ⟨hf.1,hf.2,ha,hs,hid,hcur⟩
  · intro h
    obtain ⟨hf,hscope,ha,hs,hid,hcur⟩ := h
    refine ⟨t.flow,by simp [hf,hscope],?_⟩
    simp only [ha,Option.elim_some,List.mem_map,List.mem_filter,decide_eq_true_eq]
    exact ⟨t.step,⟨hs,hid,hcur⟩,rfl⟩

/-- A step of the flow, as a row of the join. -/
theorem transition_of_step {s : FlowStep} (hf : flow∈db.flows)
    (ha : db.attributeDef flow.attributeDefId=some attr) (hs : s∈db.flowSteps)
    (hid : s.flowId=flow.id)
    (hcur : currentState db cardId flow.attributeDefId=some s.fromCardId) :
    (⟨flow,attr,s⟩ : Transition)∈transitions db cardId flow.scopeCardId :=
  mem_transitions.mpr ⟨hf,rfl,ha,hs,hid,hcur⟩

theorem marks_iff (hk : Keys db dir) (hf : flow∈db.flows)
    (ha : db.attributeDef flow.attributeDefId=some attr) :
    marks db dir actor cardId flow target=true↔Open db dir actor cardId flow target := by
  simp only [marks,buildFlowAvailableArray,List.any_map,List.any_eq_true,List.mem_filter,
    Function.comp_apply,Bool.and_eq_true,decide_eq_true_eq]
  simp only [available,stateLabel]
  constructor
  · intro h
    obtain ⟨t,⟨ht,hlive⟩,⟨⟨s,hs,hsid,hsflow⟩,htarget⟩,hrole⟩ := h
    obtain ⟨htf,hscope,-,hstep,hflow,hcur⟩ := mem_transitions.mp ht
    have hst : s=t.step := hk.stepIds s hs _ hstep hsid
    subst hst
    have hff : t.flow=flow := hk.flowIds _ htf _ hf (hflow.symm.trans hsflow)
    rw [hff] at hcur
    exact ⟨htarget ▸ hlive,t.step,hs,hsflow,htarget,hcur,hrole⟩
  · intro h
    obtain ⟨hlive,s,hs,hsflow,htarget,hcur,hrole⟩ := h
    exact ⟨⟨flow,attr,s⟩,⟨transition_of_step hf ha hs hsflow hcur,htarget ▸ hlive⟩,
      ⟨⟨s,hs,rfl,hsflow⟩,htarget⟩,hrole⟩

theorem lists_iff (hk : Keys db dir) (hf : flow∈db.flows)
    (ha : db.attributeDef flow.attributeDefId=some attr) (hid : cardId≠0)
    (hproject : cardEnclosingProject db cardId=some flow.scopeCardId) :
    lists db dir areas actor cardId flow target=true↔
      Open db dir actor cardId flow target∧cardVisibleTo db areas dir actor cardId=true∧
        ∀ prev, currentState db cardId flow.attributeDefId=some prev → db.live prev=true := by
  cases hv : cardVisibleTo db areas dir actor cardId with
  | false => simp [lists,flowStepListForCard,hid,hv]
  | true =>
    simp only [lists,flowStepListForCard,Option.getD_some,hid,hv,hproject,if_false,Bool.not_true,
      Bool.false_eq_true,List.any_map,List.any_eq_true,List.mem_filter,Function.comp_apply,
      decide_eq_true_eq,Bool.and_eq_true,true_and]
    simp only [listed,stateLabel]
    constructor
    · intro h
      obtain ⟨t,⟨ht,hfrom,hto⟩,⟨hflowId,htarget⟩,hrole⟩ := h
      obtain ⟨htf,-,-,hstep,hflow,hcur⟩ := mem_transitions.mp ht
      have hff : t.flow=flow := hk.flowIds _ htf _ hf (hflow.symm.trans hflowId)
      rw [hff] at hcur
      refine ⟨⟨htarget ▸ hto,t.step,hstep,hflowId,htarget,hcur,hrole⟩,?_⟩
      intro prev hprev
      have hpf : t.step.fromCardId=prev := Option.some.inj (hcur.symm.trans hprev)
      exact hpf ▸ hfrom
    · intro h
      obtain ⟨⟨hlive,s,hs,hsflow,htarget,hcur,hrole⟩,hfrom⟩ := h
      exact ⟨⟨flow,attr,s⟩,⟨transition_of_step hf ha hs hsflow hcur,hfrom _ hcur,htarget ▸ hlive⟩,
        ⟨hsflow,htarget⟩,hrole⟩

theorem mem_stepsBetween {s : FlowStep} {flowId source : Int} :
    s∈stepsBetween db flowId source target↔
      s∈db.flowSteps∧s.flowId=flowId∧s.fromCardId=source∧s.toCardId=target := by
  simp [stepsBetween]

/-- The end of a step is a state of its flow while its card is live. -/
theorem mem_flowStateIds (hk : Keys db dir) {s : FlowStep} (hs : s∈db.flowSteps) :
    s.toCardId∈flowStateIds db s.flowId↔db.live s.toCardId=true := by
  simp only [flowStateIds,List.mem_map,List.mem_filter,Bool.and_eq_true,Bool.not_eq_true',
    Db.live,Option.any_eq_true]
  constructor
  · intro h
    obtain ⟨c,⟨hc,hd,-⟩,hid⟩ := h
    have hrow : db.card s.toCardId=some c := hid ▸ (hk.cards c hc).2
    exact ⟨c,hrow,by simp [hd]⟩
  · intro h
    obtain ⟨c,hrow,hd⟩ := h
    have hid : c.id=s.toCardId := card_id hrow
    have hstep : (db.flowSteps.any fun t => t.flowId=s.flowId∧(t.fromCardId=c.id∨t.toCardId=c.id))=
        true := List.any_eq_true.mpr ⟨s,hs,by simp [hid]⟩
    exact ⟨c,⟨List.mem_of_find?_eq_some hrow,by simpa using hd,by rw [hstep,Bool.or_true]⟩,hid⟩

theorem flowOf_eq (hk : Keys db dir) (hf : flow∈db.flows) :
    flowOf db flow.attributeDefId flow.scopeCardId=some flow := by
  cases h : flowOf db flow.attributeDefId flow.scopeCardId with
  | none => exact absurd (List.find?_eq_none.mp h flow hf) (by simp)
  | some g =>
    have hg := List.find?_some h
    simp only [decide_eq_true_eq] at hg
    rw [hk.flowScopes g (List.mem_of_find?_eq_some h) flow hf hg.1 hg.2]

/-- A change is let through when the step picked is open to the actor. -/
theorem flowCode_eq_none (hk : Keys db dir) (hpick : Picks pick) {prev : Int} :
    flowCode db dir pick actor project flow prev target=none↔
      db.live target=true∧∃ s, pick (stepsBetween db flow.id prev target)=some s∧
        userHasStepRole dir actor s.requiresRoleId project=true := by
  have hstate : ∀ s, pick (stepsBetween db flow.id prev target)=some s →
      (target∈flowStateIds db flow.id↔db.live target=true) := by
    intro s hs
    obtain ⟨hmem,hflow,-,hto⟩ := mem_stepsBetween.mp (hpick.mem _ s hs)
    exact hto ▸ hflow ▸ mem_flowStateIds hk hmem
  cases hp : pick (stepsBetween db flow.id prev target) with
  | none =>
    by_cases hin : target∈flowStateIds db flow.id <;> simp [flowCode,hp,hin]
  | some s =>
    have hmem := (mem_stepsBetween.mp (hpick.mem _ s hp)).1
    by_cases hin : target∈flowStateIds db flow.id
    · have hlive := (hstate s hp).mp hin
      cases hr : s.requiresRoleId with
      | none => simp [flowCode,hp,hin,hr,hlive,userHasStepRole]
      | some r =>
        have hrole := hk.stepRoles s hmem r hr
        simp [flowCode,hp,hin,hr,hlive,hrole]
    · have hlive : db.live target=false := by
        rw [Bool.eq_false_iff]
        exact fun h => hin ((hstate s hp).mpr h)
      simp [flowCode,hin,hlive]

/-- What a passed gate says of a value in a governed attribute. -/
theorem flowGate_ok {n : Json.Number} (ht : attr.valueType=.cardRef)
    (hproject : cardEnclosingProject db cardId=some project)
    (hflow : flowOf db attr.id project=some flow)
    (h : flowGate db dir pick actor cardId attr (.num n)=.ok ()) :
    ∃ prev new, currentState db cardId attr.id=some prev∧n.whole=some new∧
      (new=prev∨flowCode db dir pick actor project flow prev new=none) := by
  simp only [flowGate,ht,hproject,hflow] at h
  split at h
  · cases h
  · rename_i prev hprev
    split at h
    · cases h
    · rename_i new hnew
      refine ⟨prev,new,(Option.filter_eq_some_iff.mp hprev).1,hnew,?_⟩
      by_cases hsame : new=prev
      · exact .inl hsame
      · rw [if_neg hsame] at h
        cases hcode : flowCode db dir pick actor project flow prev new with
        | none => exact .inr rfl
        | some code =>
          rw [hcode] at h
          cases h

theorem flowCode_step (hpick : Picks pick) {prev new : Int}
    (h : flowCode db dir pick actor project flow prev new=none) :
    ∃ s∈db.flowSteps, s.flowId=flow.id∧s.fromCardId=prev∧s.toCardId=new := by
  cases hs : pick (stepsBetween db flow.id prev new) with
  | none =>
    by_cases hin : new∈flowStateIds db flow.id <;> simp [flowCode,hs,hin] at h
  | some s =>
    obtain ⟨hmem,hid,hfrom,hto⟩ := mem_stepsBetween.mp (hpick.mem _ s hs)
    exact ⟨s,hmem,hid,hfrom,hto⟩

theorem lets_iff (hk : Keys db dir) (hpick : Picks pick) (hf : flow∈db.flows)
    (hattr : flow.attributeDefId=attr.id)
    (hproject : cardEnclosingProject db cardId=some flow.scopeCardId) :
    lets db dir pick actor cardId attr target=true↔¬Changes db cardId attr target∨
      ∃ prev, currentState db cardId attr.id=some prev∧prev≠0∧db.live target=true∧
        ∃ s, pick (stepsBetween db flow.id prev target)=some s∧
          userHasStepRole dir actor s.requiresRoleId flow.scopeCardId=true := by
  have hflow : flowOf db attr.id flow.scopeCardId=some flow := hattr ▸ flowOf_eq hk hf
  by_cases ht : attr.valueType=.cardRef
  · cases hcur : currentState db cardId attr.id with
    | none => simp [lets,flowGate,Changes,ht,hproject,hflow,hcur,Except.toBool]
    | some prev =>
      by_cases hzero : prev=0
      · subst hzero
        have hgate : lets db dir pick actor cardId attr target=false := by
          simp [lets,flowGate,ht,hproject,hflow,hcur,Option.filter_some,Except.toBool]
        have hchange : Changes db cardId attr target := by
          refine ⟨ht,?_⟩
          rw [hcur]
          by_cases h0 : target=0
          · exact .inr h0
          · exact .inl (by simpa using Ne.symm h0)
        simp [hgate,hchange]
      · by_cases hsame : target=prev
        · subst hsame
          simp [lets,flowGate,Changes,ht,hproject,hflow,hcur,hzero,Option.filter_some,Except.toBool]
        · have hne : prev≠target := Ne.symm hsame
          have hgate : lets db dir pick actor cardId attr target=true↔
              flowCode db dir pick actor flow.scopeCardId flow prev target=none := by
            cases hcode : flowCode db dir pick actor flow.scopeCardId flow prev target <;>
              simp [lets,flowGate,ht,hproject,hflow,hcur,hzero,hsame,hcode,Option.filter_some,
                Except.toBool]
          rw [hgate,flowCode_eq_none hk hpick]
          simp [Changes,ht,hcur,hne,hzero]
  · have hgate : flowGate db dir pick actor cardId attr (.num (.ofInt target))=.ok () := by
      cases hv : attr.valueType <;> simp_all [flowGate]
    simp [lets,hgate,Changes,ht,Except.toBool]

theorem open_between (h : Open db dir actor cardId flow target) :
    ∃ prev, currentState db cardId flow.attributeDefId=some prev∧
      ∃ s∈stepsBetween db flow.id prev target,
        userHasStepRole dir actor s.requiresRoleId flow.scopeCardId=true := by
  obtain ⟨-,s,hs,hflow,hto,hcur,hrole⟩ := h
  exact ⟨s.fromCardId,hcur,s,mem_stepsBetween.mpr ⟨hs,hflow,rfl,hto⟩,hrole⟩

/-- The gate, the list and the array answer alike about a flow of the card's project and a
target exactly under `OneAnswer`. -/
theorem one_answer_iff (hk : Keys db dir) (hpick : Picks pick) (hf : flow∈db.flows)
    (ha : db.attributeDef attr.id=some attr) (hattr : flow.attributeDefId=attr.id)
    (hproject : cardEnclosingProject db cardId=some flow.scopeCardId) (hid : cardId≠0) :
    (lets db dir pick actor cardId attr target=lists db dir areas actor cardId flow target∧
      lets db dir pick actor cardId attr target=marks db dir actor cardId flow target)↔
      OneAnswer db dir areas pick actor cardId attr flow target := by
  have haf : db.attributeDef flow.attributeDefId=some attr := hattr ▸ ha
  have hlets : lets db dir pick actor cardId attr target=true↔_ :=
    lets_iff hk hpick hf hattr hproject
  have hlists : lists db dir areas actor cardId flow target=true↔_ :=
    lists_iff hk hf haf hid hproject
  have hmarks : marks db dir actor cardId flow target=true↔_ := marks_iff hk hf haf
  rw [hattr] at hlists
  -- what the gate picks is open
  have hpicked : (∃ prev, currentState db cardId attr.id=some prev∧prev≠0∧db.live target=true∧
      ∃ s, pick (stepsBetween db flow.id prev target)=some s∧
        userHasStepRole dir actor s.requiresRoleId flow.scopeCardId=true) →
      Open db dir actor cardId flow target := by
    intro h
    obtain ⟨prev,hcur,-,hlive,s,hs,hrole⟩ := h
    obtain ⟨hmem,hflow,hfrom,hto⟩ := mem_stepsBetween.mp (hpick.mem _ s hs)
    exact ⟨hlive,s,hmem,hflow,hto,by rw [hattr,hcur,hfrom],hrole⟩
  constructor
  · intro h
    obtain ⟨hl,hm⟩ := h
    have hopen : lets db dir pick actor cardId attr target=true↔
        Open db dir actor cardId flow target := by rw [hm,hmarks]
    refine ⟨?_,?_,?_⟩
    · intro ho
      exact (hlists.mp (hl ▸ hopen.mpr ho)).2
    · intro hc ho prev hprev
      rcases hlets.mp (hopen.mpr ho) with hn | ⟨p,hp,-,-,hs⟩
      · exact absurd hc hn
      · have hpp : p=prev := Option.some.inj (hp.symm.trans hprev)
        exact hpp ▸ hs
    · intro hn
      exact hopen.mp (hlets.mpr (.inl hn))
  · intro h
    have hopen : lets db dir pick actor cardId attr target=true↔
        Open db dir actor cardId flow target := by
      rw [hlets]
      constructor
      · intro hl
        rcases hl with hn | hp
        · exact h.unchanged hn
        · exact hpicked hp
      · intro ho
        by_cases hc : Changes db cardId attr target
        · obtain ⟨prev,hprev,s,hs,-⟩ := open_between ho
          have hprev : currentState db cardId attr.id=some prev := hattr ▸ hprev
          obtain ⟨hmem,-,hfrom,-⟩ := mem_stepsBetween.mp hs
          have hzero : prev≠0 := hfrom ▸ hk.stepFroms s hmem
          exact .inr ⟨prev,hprev,hzero,ho.1,h.picked hc ho prev hprev⟩
        · exact .inl hc
    constructor
    · rw [Bool.eq_iff_iff,hopen,hlists]
      exact ⟨fun ho => ⟨ho,h.seen ho⟩,fun hl => hl.1⟩
    · rw [Bool.eq_iff_iff,hopen,hmarks]

/-- A task whose status has two steps to the next one, the first for managers only. -/
def twoSteps : Db where
  cardTypes := [⟨1,"project",none,false⟩,⟨2,"task",some 1,true⟩,⟨3,"status",some 1,false⟩]
  attributeDefs := [⟨8,"status",.cardRef,some 3,none⟩]
  cards := [⟨1,1,none,none,false,.triage⟩,⟨2,2,some 1,none,false,.triage⟩,
    ⟨5,3,some 1,none,false,.triage⟩,⟨6,3,some 1,none,false,.active⟩]
  values := [⟨2,8,.num (.ofInt 5)⟩]
  flows := [⟨1,8,1,some 5,"Tasks"⟩]
  flowSteps := [⟨1,1,5,6,some 2,"Approve",0,true⟩,⟨2,1,5,6,none,"Submit",1,true⟩]

/-- A worker and a manager of the project. -/
def team : Directory where
  accounts := [⟨2,none,false⟩,⟨3,none,false⟩]
  userRoles := [⟨2,1,some 1⟩,⟨3,2,some 1⟩]
  roles := [⟨1,"worker",3⟩,⟨2,"manager",4⟩]
  persons := []

def status : AttributeDef := ⟨8,"status",.cardRef,some 3,none⟩

def taskFlow : Flow := ⟨1,8,1,some 5,"Tasks"⟩

def allOn : Areas := ⟨[],[],[]⟩

/-- The gate picks the manager's step; both lists show the worker the other one. -/
theorem open_step_refused : lets twoSteps team List.head? 2 2 status 6=false∧
    lists twoSteps team allOn 2 2 taskFlow 6=true∧marks twoSteps team 2 2 taskFlow 6=true :=
  ⟨rfl,rfl,rfl⟩

theorem picks_head : Picks List.head? where
  mem _ _ h := List.mem_of_head? h
  some l h := by simpa using h

theorem twoSteps_keys : Keys twoSteps team := by
  constructor <;> simp [twoSteps,team,Db.card,Directory.role]

/-- The manager's answers agree. -/
theorem manager_step_agrees : lets twoSteps team List.head? 3 2 status 6=
      lists twoSteps team allOn 3 2 taskFlow 6∧
    lets twoSteps team List.head? 3 2 status 6=marks twoSteps team 3 2 taskFlow 6 := by
  apply (one_answer_iff twoSteps_keys picks_head (by simp [twoSteps,taskFlow]) rfl rfl rfl
    (by decide)).mpr
  refine ⟨fun _ => ⟨rfl,?_⟩,fun _ _ => ?_,fun hn => absurd ?_ hn⟩
  · intro prev hprev
    have h5 : prev=5 := Option.some.inj (hprev.symm.trans rfl)
    exact h5 ▸ rfl
  · intro prev hprev
    have h5 : prev=5 := Option.some.inj (hprev.symm.trans rfl)
    subst h5
    exact ⟨_,rfl,rfl⟩
  · exact ⟨rfl,.inl (by decide)⟩

end Kitp.FlowGate
