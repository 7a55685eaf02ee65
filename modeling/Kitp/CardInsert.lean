import Kitp.AttributeUpdate
import Kitp.TemplateCopy

/-! `card_insert_batch`: one row, from its checks to the card, its values, a project's
template and the `assign_to_me` hook. -/
namespace Kitp.CardInsert
open Kitp.Store Kitp.Accounts Kitp.Attributes Kitp.Visibility Kitp.FlowGate Kitp.Steps

/-- One element of `inputs`; the attributes are a JSON object's fields. -/
structure Input where
  cardTypeName : Option String
  parentCardId : Option Int
  title : Option String
  phase : String
  attributes : List (String×Json)
  distinct : (attributes.map (·.1)).Nodup
  parentTask : Option String
  isPrivate : Bool
  assignToMe : Bool

/-- What the functions it calls answer. -/
structure Env where
  acc : Access
  dir : Directory
  areas : Areas
  parse : String → Option Json

/-- The order of a stored object's keys. -/
def keyBefore (a b : String) : Bool :=
  a.utf8ByteSize<b.utf8ByteSize||(a.utf8ByteSize=b.utf8ByteSize&&a<b)

/-- `attrs || {name: v}` for a name that isn't there. -/
def addField (name : String) (v : Json) : List (String×Json) → List (String×Json)
  | [] => [(name,v)]
  | f::fields => if keyBefore name f.1 then (name,v)::f::fields else f::addField name v fields

def addMissing (name : String) (v : Json) (attrs : List (String×Json)) : List (String×Json) :=
  if name∈attrs.map (·.1) then attrs else addField name v attrs

/-- `parent_task` rides the same checks as any attribute. -/
def spliced (input : Input) : List (String×Json) :=
  match input.parentTask.filter (·≠"") with
  | none => input.attributes
  | some id => addMissing "parent_relationship" (.str "subtask")
      (addMissing "parent_task" (.str id) input.attributes)

def refuse {α : Type} (code message : String) : Except Refusal α :=
  .error ⟨code,"card.insert: "++message⟩

variable (env : Env) (db : Db) (actor : Int)

def resolveType (cardTypeName : Option String) (given : List (String×Json)) :
    Except Refusal CardType :=
  match db.cardTypes.find? fun t => cardTypeName=some t.name with
  | none => refuse "unknown_card_type" ("unknown card_type_name "++
      (cardTypeName.map quoteLiteral).getD "NULL")
  | some t =>
    let text := ((given.lookup "description").bind Json.unquoted).getD ""
    if t.name="page"∧524288<text.utf8ByteSize then
      refuse "validation" "a page's text can be at most 512 KB"
    else if (t.name="comm_channel"∨t.name="activity_sink")∧!env.acc.userIsGlobalAdmin db actor then
      refuse "forbidden" "only a workspace admin changes a mail account or an activity sink"
    else .ok t

def titleOf (input : Input) : Except Refusal String :=
  match input.title.filter (·≠"") with
  | none => refuse "missing_required" "title is required (built-in edge)"
  | some title =>
    if 500<title.length then refuse "validation" "a title can be at most 500 characters"
    else .ok title

/-- A parent of a type allowed over the card's, with room under it. -/
def parentRule (t : CardType) (parent : Option Int) : Except Refusal Unit :=
  match parent with
  | none =>
    if t.parentCardTypeId.isSome then
      refuse "edge_violation" ("card_type "++quoteLiteral t.name++" requires a parent")
    else .ok ()
  | some p =>
    match db.card p with
    | none => refuse "parent_not_found" s!"parent_card_id {p} not found"
    | some c =>
      if (t.allowSelfParent∧c.cardTypeId=t.id)∨t.parentCardTypeId=some c.cardTypeId then
        if 14 ≤ (cardAncestors db p).length then refuse "too_deep" "cards nest at most 14 deep"
        else .ok ()
      else refuse "edge_violation" ("card_type "++quoteLiteral t.name++
        " is not allowed under parent type "++quoteLiteral ((db.cardTypeName c).getD "?"))

def phaseOf (input : Input) : Except Refusal CardPhase :=
  match input.phase with
  | "" => .ok .triage
  | "triage" => .ok .triage
  | "active" => .ok .active
  | "terminal" => .ok .terminal
  | p => refuse "validation" ("phase "++quoteLiteral p++": must be triage|active|terminal")

/-- The attribute of that name, where the type has an edge to it. -/
def bound (t : CardType) (name : String) : Option AttributeDef :=
  (db.attributeNamed name).filter fun d => (db.edge t.id d.id).isSome

def titleDef (t : CardType) : Except Refusal AttributeDef :=
  match bound db t "title" with
  | none => refuse "internal" ("card_type "++quoteLiteral t.name++" lacks a title edge")
  | some d => .ok d

def nonEmptyArray : Json → Bool
  | .arr (_::_) => true
  | _ => false

/-- A supplied attribute is one the type has, and one that is set by hand. -/
def allowed (t : CardType) (f : String×Json) : Except Refusal Unit :=
  if f.1="title" then .ok ()
  else if f.1="publishes_to"∧nonEmptyArray f.2∧!env.acc.userIsGlobalAdmin db actor then
    refuse "forbidden" "only a workspace admin can choose which portals a status publishes to"
  else if f.1∈setByKitp then refuse "validation" (f.1++" is set by kitp, not by hand")
  else match bound db t f.1 with
    | none => refuse "edge_violation" ("attribute "++quoteLiteral f.1++
        " is not allowed on card_type "++quoteLiteral t.name)
    | some _ => .ok ()

/-- The required attributes of a type, by ordering. -/
def requiredNames (t : CardType) : List String :=
  ((db.edges.filter fun e => e.cardTypeId=t.id∧e.isRequired).insertionSort fun a b =>
    a.ordering<b.ordering∨(a.ordering=b.ordering∧a.attributeDefId ≤ b.attributeDefId)).filterMap
      fun e => (db.attributeDef e.attributeDefId).map (·.name)

/-- The starting state of a flow on the attribute in the project. -/
def flowDefault (project : Int) (name : String) : Option Int :=
  (db.flows.find? fun f => f.scopeCardId=project∧f.defaultCreateStatusId.isSome∧
    (db.attributeDef f.attributeDefId).any (·.name=name)).bind (·.defaultCreateStatusId)

def projectOver (parent : Option Int) : Option Int := parent.bind (cardEnclosingProject db)

/-- A required attribute is there, or its flow's starting state is put in. -/
def withRequired (t : CardType) (parent : Option Int) (attrs : List (String×Json)) (name : String) :
    Except Refusal (List (String×Json)) :=
  let missing : Except Refusal (List (String×Json)) :=
    refuse "edge_violation" ("attribute "++quoteLiteral name++" is required on card_type "++
      quoteLiteral t.name)
  if name="title" then .ok attrs
  else match attrs.lookup name with
    | some .null => missing
    | some _ => .ok attrs
    | none =>
      match (projectOver db parent).bind fun p => flowDefault db p name with
      | some status => .ok (addField name (.ofInt status) attrs)
      | none => missing

def dateCheck (f : String×Json) : Except Refusal Unit :=
  if (db.attributeNamed f.1).any (·.valueType=.date)∧f.2≠.null then
    match f.2 with
    | .str s => if isoDateOk s then .ok ()
      else refuse "validation" (f.1++": not a date (YYYY-MM-DD): "++f.2.text)
    | v => refuse "validation" (f.1++": not a date (YYYY-MM-DD): "++v.text)
  else .ok ()

def stateRoleGated (flow : Flow) (state project : Int) : Bool :=
  let into := db.flowSteps.filter fun s => s.flowId=flow.id∧s.toCardId=state
  flow.defaultCreateStatusId≠some state&&!into.isEmpty&&
    !into.any fun s => userHasStepRole env.dir actor s.requiresRoleId project

/-- A governed status starts on a state of the flow that is open to the actor. -/
def stateCheck (project : Int) (d : AttributeDef) (id : Int) : Except Refusal Unit :=
  match db.flows.find? fun f => f.scopeCardId=project∧
      (db.attributeDef f.attributeDefId).any (·.name=d.name) with
  | none => .ok ()
  | some flow =>
    let states := flowStateIds db flow.id
    if id∉states then
      let listed := ", ".intercalate ((states.insertionSort (· ≤ ·)).map fun s =>
        toString s++" "++quoteLiteral (title db s))
      refuse "flow_invalid_state" (d.name++s!" {id} ("++quoteLiteral (title db id)++
        ") is not a state of this project's flow; use one of: "++
        (if states.isEmpty then "(none)" else listed))
    else if stateRoleGated env db actor flow id project then
      refuse "flow_role_required" (d.name++s!" {id} ("++quoteLiteral (title db id)++
        ") needs a role you don't hold; start the card elsewhere and move it")
    else .ok ()

/-- The cards a value names are there, in scope and choosable; checked under a parent. -/
def scopeAttr (project : Option Int) (f : String×Json) : Except Refusal Unit :=
  match (db.attributeNamed f.1).filter fun d =>
      f.1≠"title"∧(d.valueType=.cardRef∨d.valueType=.cardRefs)∧f.2≠.null with
  | none => .ok ()
  | some d => do
    let ids ← if d.valueType=.cardRef then (refValue "card.insert" f.1 f.2).map ([·])
      else refValues "card.insert" f.1 f.2
    ids.forM fun id =>
      if id=0 then .ok ()
      else match db.card id with
        | none => .error (notHere f.1 id)
        | some c => scopeCheck env.acc db actor d project id c
    match d.targetFilter with
      | none => .ok ()
      | some tree =>
        match ids.find? fun id => id≠0∧id∉env.acc.cardFilterIds db tree ids with
        | none => .ok ()
        | some id => .error ⟨"ref_not_allowed","attribute "++quoteLiteral f.1++
            s!": card {id} can't be chosen as a value"⟩
    match project,d.valueType,ids with
      | some p,.cardRef,id::_ => stateCheck env db actor p d id
      | _,_,_ => .ok ()

def scopeChecks (parent : Option Int) (attrs : List (String×Json)) : Except Refusal Unit :=
  if parent.isSome then attrs.forM (scopeAttr env db actor (projectOver db parent)) else .ok ()

/-- The cards a value's text names: digits, without a sign. -/
def plainRefs (v : Json) : List Int :=
  let one (v : Json) : Option Int := (v.unquoted.bind smallText).filter (0 ≤ ·)
  match v with
  | .arr xs => xs.filterMap one
  | v => (one v).toList

/-- Whose private card the new one is, as far as a reference goes. -/
def refOwner (input : Input) : Option Int :=
  if input.isPrivate then accountPerson env.dir db actor
  else (input.parentCardId.bind db.card).bind (·.privateTo)

def privateRefs (input : Input) (f : String×Json) : Except Refusal Unit :=
  match (db.attributeNamed f.1).filter fun d => d.valueType=.cardRef∨d.valueType=.cardRefs with
  | none => .ok ()
  | some _ =>
    match (plainRefs f.2).find? fun id => (db.card id).any fun c =>
        c.privateTo≠none∧c.privateTo≠refOwner env db actor input with
    | none => .ok ()
    | some id => .error ⟨"private_ref","attribute "++quoteLiteral f.1++
        s!": card {id} is private and can only be used on its owner's own cards"⟩

def isScalar (t : ValueType) : Bool := t=.text||t=.bool||t=.number

def scalarCheck (f : String×Json) : Except Refusal Unit :=
  match (db.attributeNamed f.1).filter fun d => f.1≠"title"∧isScalar d.valueType∧f.2≠.null with
  | none => .ok ()
  | some d =>
    match attrScalarNorm d.valueType f.2 with
    | some _ => .ok ()
    | none => refuse "validation" (f.1++": not a "++AttributeUpdate.typeName d.valueType++" value")

/-- The person the card is private to: the parent's, or the actor's for a saved view. -/
def owner (t : CardType) (input : Input) : Except Refusal (Option Int) := do
  let person := accountPerson env.dir db actor
  let privateTo ← if input.isPrivate then
      if t.name≠"filter" then refuse "validation" "only a saved view (filter) can be made private"
      else if person=none then
        refuse "no_person" "your account has no person card to own a private view"
      else if !(input.parentCardId.any fun p =>
          cardVisibleTo db env.areas env.dir actor p) then
        refuse "parent_not_found" ("parent_card_id "++toString (input.parentCardId.getD 0)++
          " not found")
      else .ok person
    else .ok ((input.parentCardId.bind db.card).bind (·.privateTo))
  if privateTo≠none∧t.name="filter"∧500 ≤ (db.cards.filter fun c =>
      !c.deleted∧c.privateTo=privateTo∧db.cardTypeName c=some "filter").length then
    refuse "limit" "you can have at most 500 personal views"
  else .ok privateTo

/-- The form a supplied value is stored in. -/
def stored (d : AttributeDef) (v : Json) : Json :=
  match d.valueType,v with
  | .cardRef,v => canonRef v
  | .cardRefs,.arr xs => .arr (xs.map canonRef)
  | t,v => if isScalar t then (attrScalarNorm t v).getD .null else v

/-- What a row that passed its checks writes. -/
structure Checked where
  cardType : CardType
  parent : Option Int
  phase : CardPhase
  privateTo : Option Int
  titleDef : AttributeDef
  title : String
  attrs : List (String×Json)

def prepare (input : Input) : Except Refusal Checked := do
  let given := spliced input
  let t ← resolveType env db actor input.cardTypeName given
  let name ← titleOf input
  parentRule db t input.parentCardId
  let phase ← phaseOf input
  let titled ← titleDef db t
  given.forM (allowed env db actor t)
  let attrs ← (requiredNames db t).foldlM (withRequired db t input.parentCardId) given
  attrs.forM (dateCheck db)
  scopeChecks env db actor input.parentCardId attrs
  attrs.forM (privateRefs env db actor input)
  attrs.forM (scalarCheck db)
  let privateTo ← owner env db actor t input
  return ⟨t,input.parentCardId,phase,privateTo,titled,name,attrs⟩

/-- The values the row writes itself, the title first. -/
def written (w : Checked) : List (AttributeDef×Json) :=
  (w.titleDef,.str w.title)::w.attrs.filterMap fun f =>
    ((db.attributeNamed f.1).filter fun _ => f.1≠"title"∧f.2≠.null).map fun d => (d,stored d f.2)

/-- The card with its `card_create`, and its values with their activities. -/
def write (w : Checked) : Db :=
  let new := db.nextCardId
  let created := (db.addCard ⟨new,w.cardType.id,w.parent,w.privateTo,false,w.phase⟩).log
    ⟨new,"card_create",none,none,none,actor⟩
  (written db w).foldl (fun db a => writeValue db actor new a.1.id none a.2) created

/-- The standard template: the first live project marked as one, bundles' sources apart. -/
def standardTemplate (new : Int) : Option Int :=
  let marked (name : String) (p : Json → Bool) (id : Int) : Bool :=
    (db.attributeNamed name).any fun d => (db.value id d.id).any p
  ((db.cards.filter fun c => !c.deleted&&c.id≠new&&db.cardTypeName c=some "project"&&
    marked "is_template" (· = .bool true) c.id&&!marked "bundle_key" (fun _ => true) c.id).map
      (·.id)).min?

/-- A new project that is no template itself takes the standard template's structure. -/
def stamp (w : Checked) (new : Int) : Except Refusal Db :=
  let isTemplate := ((w.attrs.lookup "is_template").bind Json.unquoted).any
    fun s => s.toLower="true"
  if w.cardType.name="project"∧!isTemplate then
    match standardTemplate db new with
    | none => .ok db
    | some template => TemplateCopy.copyProjectTemplate env.parse env.areas db actor template new
  else .ok db

/-- `assign_to_me`: an agent is routed to instead, a person is to be the assignee. -/
def assignedTo (input : Input) : Option Int :=
  if input.assignToMe then
    (env.dir.accounts.find? (·.id=actor)).bind fun u =>
      if u.isAgent∧u.parentUserId.isSome then none else accountPerson env.dir db actor
  else none

def assign (input : Input) (new : Int) : Db :=
  match assignedTo env db actor input,db.attributeNamed "assignee" with
  | some person,some d => writeValue db actor new d.id none (.ofInt person)
  | _,_ => db

/-- One row. -/
def insert (input : Input) : Except Refusal Db := do
  let w ← prepare env db actor input
  let new := db.nextCardId
  let stamped ← stamp env (write db actor w) actor w new
  return assign env stamped actor input new

variable {env : Env} {db : Db} {actor : Int} {input : Input} {w : Checked}

theorem parentRule_ok {t : CardType} {parent : Option Int} (h : parentRule db t parent=.ok ()) :
    (parent=none∧t.parentCardTypeId=none)∨∃ p, parent=some p∧(db.card p).isSome∧
      (t.allowSelfParent=true∨t.parentCardTypeId≠none)∧(cardAncestors db p).length<14 := by
  cases parent with
  | none =>
    simp only [parentRule] at h
    split at h
    · cases h
    · rename_i ht
      exact .inl ⟨rfl,by simpa using ht⟩
  | some p =>
    cases hc : db.card p with
    | none => simp [parentRule,hc,refuse] at h
    | some c =>
      simp only [parentRule,hc] at h
      split at h
      · rename_i hkind
        split at h
        · cases h
        · rename_i hlen
          refine .inr ⟨p,rfl,by simp [hc],?_,by omega⟩
          cases hkind with
          | inl hkind => exact .inl hkind.1
          | inr hkind => exact .inr (by simp [hkind])
      · cases h

theorem resolveType_ok {t : CardType} {name : Option String} {given : List (String×Json)}
    (h : resolveType env db actor name given=.ok t) : t∈db.cardTypes := by
  unfold resolveType at h
  split at h
  · cases h
  · rename_i u hu
    have hmem : u∈db.cardTypes := List.mem_of_find?_eq_some hu
    simp only at h
    split at h
    · cases h
    · split at h
      · cases h
      · cases h
        exact hmem

theorem resolveType_name {t : CardType} {name : Option String} {given : List (String×Json)}
    (h : resolveType env db actor name given=.ok t) : name=some t.name := by
  unfold resolveType at h
  split at h
  · cases h
  · rename_i u hu
    have hname : name=some u.name := by simpa using List.find?_some hu
    simp only at h
    split at h
    · cases h
    · split at h
      · cases h
      · cases h
        exact hname

theorem prepare_named (h : prepare env db actor input=.ok w) :
    input.cardTypeName=some w.cardType.name := by
  unfold prepare at h
  obtain ⟨t,ht,h⟩ := bind_ok h
  obtain ⟨name,_,h⟩ := bind_ok h
  obtain ⟨_,_,h⟩ := bind_ok h
  obtain ⟨phase,_,h⟩ := bind_ok h
  obtain ⟨titled,_,h⟩ := bind_ok h
  obtain ⟨_,_,h⟩ := bind_ok h
  obtain ⟨attrs,_,h⟩ := bind_ok h
  obtain ⟨_,_,h⟩ := bind_ok h
  obtain ⟨_,_,h⟩ := bind_ok h
  obtain ⟨_,_,h⟩ := bind_ok h
  obtain ⟨_,_,h⟩ := bind_ok h
  obtain ⟨privateTo,_,h⟩ := bind_ok h
  cases h
  exact resolveType_name ht

/-- What a row that goes on to write was checked for. -/
theorem prepare_ok (h : prepare env db actor input=.ok w) :
    w.cardType∈db.cardTypes∧w.parent=input.parentCardId∧
      parentRule db w.cardType w.parent=.ok ()∧titleDef db w.cardType=.ok w.titleDef∧
      (∀ f∈spliced input, allowed env db actor w.cardType f=.ok ())∧
      (requiredNames db w.cardType).foldlM (withRequired db w.cardType input.parentCardId)
        (spliced input)=.ok w.attrs := by
  unfold prepare at h
  obtain ⟨t,ht,h⟩ := bind_ok h
  obtain ⟨name,_,h⟩ := bind_ok h
  obtain ⟨_,hparent,h⟩ := bind_ok h
  obtain ⟨phase,_,h⟩ := bind_ok h
  obtain ⟨titled,htitle,h⟩ := bind_ok h
  obtain ⟨_,hallowed,h⟩ := bind_ok h
  obtain ⟨attrs,hattrs,h⟩ := bind_ok h
  obtain ⟨_,_,h⟩ := bind_ok h
  obtain ⟨_,_,h⟩ := bind_ok h
  obtain ⟨_,_,h⟩ := bind_ok h
  obtain ⟨_,_,h⟩ := bind_ok h
  obtain ⟨privateTo,_,h⟩ := bind_ok h
  cases h
  exact ⟨resolveType_ok ht,rfl,hparent,htitle,forM_ok hallowed,hattrs⟩

/-- Under a parent the cards of the values were looked up. -/
theorem prepare_scoped (h : prepare env db actor input=.ok w) :
    scopeChecks env db actor w.parent w.attrs=.ok () := by
  unfold prepare at h
  obtain ⟨t,_,h⟩ := bind_ok h
  obtain ⟨name,_,h⟩ := bind_ok h
  obtain ⟨_,_,h⟩ := bind_ok h
  obtain ⟨phase,_,h⟩ := bind_ok h
  obtain ⟨titled,_,h⟩ := bind_ok h
  obtain ⟨_,_,h⟩ := bind_ok h
  obtain ⟨attrs,_,h⟩ := bind_ok h
  obtain ⟨_,_,h⟩ := bind_ok h
  obtain ⟨_,hscope,h⟩ := bind_ok h
  obtain ⟨_,_,h⟩ := bind_ok h
  obtain ⟨_,_,h⟩ := bind_ok h
  obtain ⟨privateTo,_,h⟩ := bind_ok h
  cases h
  exact hscope

/-- No card a value names is another person's; the card is private as its owner says. -/
theorem prepare_private (h : prepare env db actor input=.ok w) :
    (∀ f∈w.attrs, privateRefs env db actor input f=.ok ())∧
      owner env db actor w.cardType input=.ok w.privateTo := by
  unfold prepare at h
  obtain ⟨t,_,h⟩ := bind_ok h
  obtain ⟨name,_,h⟩ := bind_ok h
  obtain ⟨_,_,h⟩ := bind_ok h
  obtain ⟨phase,_,h⟩ := bind_ok h
  obtain ⟨titled,_,h⟩ := bind_ok h
  obtain ⟨_,_,h⟩ := bind_ok h
  obtain ⟨attrs,_,h⟩ := bind_ok h
  obtain ⟨_,_,h⟩ := bind_ok h
  obtain ⟨_,_,h⟩ := bind_ok h
  obtain ⟨_,hrefs,h⟩ := bind_ok h
  obtain ⟨_,_,h⟩ := bind_ok h
  obtain ⟨privateTo,howner,h⟩ := bind_ok h
  cases h
  exact ⟨forM_ok hrefs,howner⟩

/-- A private card is a saved view, its parent one the actor sees. -/
theorem owner_ok {t : CardType} {o : Option Int} (h : owner env db actor t input=.ok o) :
    o=refOwner env db actor input∧(input.isPrivate=true → t.name="filter"∧
      ∃ p, input.parentCardId=some p∧cardVisibleTo db env.areas env.dir actor p=true) := by
  -- the limit on saved views keeps the owner
  have hlimit : ∀ {c : Prop} [Decidable c] {privateTo : Option Int},
      (if c then refuse "limit" "you can have at most 500 personal views"
        else .ok privateTo : Except Refusal (Option Int))=.ok o → o=privateTo := by
    intro c _ privateTo hl
    split at hl
    · cases hl
    · cases hl
      rfl
  unfold owner at h
  dsimp only at h
  split at h
  · rename_i hp
    split at h
    · obtain ⟨_,hr,-⟩ := bind_ok h
      cases hr
    · rename_i hfilter
      split at h
      · obtain ⟨_,hr,-⟩ := bind_ok h
        cases hr
      · split at h
        · obtain ⟨_,hr,-⟩ := bind_ok h
          cases hr
        · rename_i hvisible
          simp only [Bool.not_eq_true',Bool.not_eq_false] at hvisible
          obtain ⟨p,hparent,hsees⟩ := (Option.any_eq_true _ _).mp hvisible
          refine ⟨?_,fun _ => ⟨not_not.mp hfilter,p,hparent,hsees⟩⟩
          rw [hlimit h,refOwner,if_pos hp]
  · rename_i hp
    refine ⟨?_,fun hprivate => absurd hprivate hp⟩
    rw [hlimit h,refOwner,if_neg hp]

theorem insert_ok {db' : Db} (h : insert env db actor input=.ok db') :
    ∃ w stamped, prepare env db actor input=.ok w∧
      stamp env (write db actor w) actor w db.nextCardId=.ok stamped∧
      db'=assign env stamped actor input db.nextCardId := by
  unfold insert at h
  obtain ⟨w,hw,h⟩ := bind_ok h
  obtain ⟨stamped,hs,h⟩ := bind_ok h
  cases h
  exact ⟨w,stamped,hw,hs,rfl⟩

/-- The values a row writes are laid over the created card. -/
theorem write_inv {I : Db → Prop} (hcreate : I ((db.addCard ⟨db.nextCardId,w.cardType.id,w.parent,
      w.privateTo,false,w.phase⟩).log ⟨db.nextCardId,"card_create",none,none,none,actor⟩))
    (hvalue : ∀ db', I db' → ∀ a∈written db w,
      I (writeValue db' actor db.nextCardId a.1.id none a.2)) :
    I (write db actor w) := foldl_inv hcreate hvalue

theorem assign_inv {I : Db → Prop} {new : Int} (h : I db)
    (hvalue : ∀ person d, assignedTo env db actor input=some person →
      db.attributeNamed "assignee"=some d →
      I (writeValue db actor new d.id none (.ofInt person))) :
    I (assign env db actor input new) := by
  unfold assign
  split
  · rename_i person d hp hd
    exact hvalue person d hp hd
  · exact h

theorem stamp_ok {new : Int} {stamped : Db} (h : stamp env db actor w new=.ok stamped) :
    stamped=db∨∃ template, w.cardType.name="project"∧standardTemplate db new=some template∧
      TemplateCopy.copyProjectTemplate env.parse env.areas db actor template new=.ok stamped := by
  simp only [stamp] at h
  split at h
  · rename_i hp
    split at h
    · cases h
      exact .inl rfl
    · rename_i template ht
      exact .inr ⟨template,hp.1,ht,h⟩
  · cases h
    exact .inl rfl

theorem standardTemplate_project {new template : Int} (h : standardTemplate db new=some template) :
    ∃ c∈db.cards, c.id=template∧db.cardTypeName c=some "project"∧template≠new := by
  have hmem := List.min?_mem h
  obtain ⟨c,hc,hid⟩ := List.mem_map.mp hmem
  simp only [List.mem_filter,Bool.and_eq_true,decide_eq_true_eq] at hc
  exact ⟨c,hc.1,hid,hc.2.1.1.2,hid ▸ hc.2.1.1.1.2⟩

end Kitp.CardInsert
