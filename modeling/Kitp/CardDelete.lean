import Kitp.TaskMove

/-! `card_delete_batch` and `card_undelete_batch`: one row of each. -/
namespace Kitp.CardDelete
open Kitp.Store Kitp.FlowGate Kitp.Steps

/-- A step of a flow that names the card. -/
structure Blocker where
  flowStepId : Int
  flowId : Int
  flowName : String
  role : String
  fromLabel : String
  toLabel : String
  stepLabel : String

structure DeleteRefusal extends Refusal where
  blocked : Option (Int×List Blocker)

variable (acc : Access) (db : Db) (actor : Int)

/-- Every row of either call names a card. -/
def cardNamed (process : String) (cardId : Option Int) : Except Refusal Int :=
  match cardId.filter (·≠0) with
  | none => .error ⟨"validation",process++": card_id is required"⟩
  | some id => .ok id

def adminCheck (process : String) (cardId : Int) : Except Refusal Unit :=
  if cardIsAdminOnly db cardId∧!acc.userIsGlobalAdmin db actor then
    .error ⟨"forbidden",process++": only a workspace admin changes a mail account or an activity sink"⟩
  else .ok ()

def stepsNaming (cardId : Int) : List FlowStep :=
  db.flowSteps.filter fun s => s.fromCardId=cardId∨s.toCardId=cardId

/-- A card's title as an answer shows it. -/
def label (cardId : Int) : String :=
  (((db.attributeNamed "title").bind fun d => db.value cardId d.id).bind Json.unquoted).getD ""

def blockers (cardId : Int) : List Blocker :=
  ((stepsNaming db cardId).insertionSort (·.id ≤ ·.id)).flatMap fun s =>
    (db.flows.filter (·.id=s.flowId)).map fun f =>
      { flowStepId := s.id
        flowId := s.flowId
        flowName := f.name
        role := if s.fromCardId=cardId then "from" else "to"
        fromLabel := label db s.fromCardId
        toLabel := label db s.toCardId
        stepLabel := s.label }

/-- A state of a flow stays. -/
def flowCheck (cardId : Int) : Except DeleteRefusal Unit :=
  let steps := stepsNaming db cardId
  if steps≠[] then
    let title := if label db cardId="" then s!"card {cardId}" else label db cardId
    .error ⟨⟨"value_referenced_by_flow","Cannot delete "++quoteLiteral title++
      s!": {steps.length} flow_step row(s) reference it."⟩,some (cardId,blockers db cardId)⟩
  else if db.flows.any (·.defaultCreateStatusId=some cardId) then
    .error ⟨⟨"value_referenced_by_flow",
      s!"card.delete: card {cardId} is a flow's starting state; choose another first"⟩,
      some (cardId,[])⟩
  else .ok ()

def setDeleted (cardId : Int) (deleted : Bool) : Db :=
  db.mapCards fun c => if c.id=cardId then { c with deleted } else c

/-- `card.delete`. -/
def delete (cardId : Option Int) : Except DeleteRefusal Db := do
  let id ← (cardNamed "card.delete" cardId).mapError (⟨·,none⟩)
  (adminCheck acc db actor "card.delete" id).mapError (⟨·,none⟩)
  flowCheck db id
  if !db.live id then
    .error ⟨⟨"card_not_found",
      "card.delete: one or more cards were missing or already deleted"⟩,none⟩
  else .ok ((setDeleted db id true).log ⟨id,"card_delete",none,none,none,actor⟩)

/-- How many cards of a kind a person may have. -/
def personalCap (typeName : String) : Option Nat :=
  match typeName with
  | "screen" => some 200
  | "watch_list" => some 200
  | "calendar" => some 50
  | "filter" => some 500
  | _ => none

/-- The person a calendar is for. -/
def subscriber (cardId : Int) : Option Int :=
  match (db.attributeNamed "subscriber").bind fun d => db.value cardId d.id with
  | some (.num n) => n.whole
  | _ => none

/-- `personal_cap_full`. -/
def personalCapFull (typeName : String) (person : Option Int) : Bool :=
  match personalCap typeName,person with
  | some cap,some p =>
    cap ≤ (db.cards.filter fun c => !c.deleted&&db.cardTypeName c=some typeName&&
      if typeName="calendar" then subscriber db c.id=some p else c.privateTo=some p).length
  | _,_ => false

/-- The deleted card. -/
def deletedCard (cardId : Int) : Except Refusal Card :=
  match db.card cardId with
  | none => .error ⟨"card_not_found",s!"card.undelete: card {cardId} not found"⟩
  | some c =>
    if !c.deleted then
      .error ⟨"card_not_found","card.undelete: one or more cards were missing or already live"⟩
    else .ok c

def capCheck (c : Card) : Except Refusal Unit :=
  if (db.cardTypeName c).any fun t =>
      personalCapFull db t (if t="calendar" then subscriber db c.id else c.privateTo) then
    .error ⟨"limit","card.undelete: its owner already has as many of these as they may; delete one first"⟩
  else .ok ()

/-- A card by its number, or by digits without a sign. -/
def plainId : Json → Option Int
  | .num n => n.whole
  | .str s => (idText s).filter fun _ => s.toList.head?≠some '-'
  | _ => none

/-- The cards of other projects the card's values name, its parent task apart. -/
def strays (cardId project : Int) : List (String×Int) :=
  (db.values.filter (·.cardId=cardId)).flatMap fun v =>
    ((db.attributeDef v.attributeDefId).filter fun d =>
      (d.valueType=.cardRef∨d.valueType=.cardRefs)∧d.name≠"parent_task").elim [] fun d =>
        ((match v.value with
          | .arr xs => xs
          | x => [x]).filterMap plainId).filterMap fun id =>
            (cardEnclosingProject db id).bind fun p =>
              if id≠0∧p≠project then some (d.name,id) else none

def strayCheck (cardId project : Int) : Except Refusal Unit :=
  match ((strays db cardId project).insertionSort
      fun a b => a.1<b.1∨(a.1=b.1∧a.2 ≤ b.2)).head? with
  | none => .ok ()
  | some (attr,id) => .error ⟨"cross_project_ref","card.undelete: attribute "++quoteLiteral attr++
      s!" value card {id} can't be used here; change it first"⟩

/-- Its parent task is in another project. -/
def parentGone (cardId project : Int) : Bool :=
  (db.attributeNamed "parent_task").any fun d => (db.value cardId d.id).any fun v =>
    (match v with
      | .num n => n.whole.bind (cardEnclosingProject db)
      | _ => none)≠some project

/-- A card of a project comes back with values of that project. -/
def rejoin (cardId : Int) : Except Refusal Db :=
  match cardEnclosingProject db cardId with
  | none => .ok db
  | some project => do
    strayCheck db cardId project
    return if parentGone db cardId project then TaskMove.unlink db actor [cardId] else db

/-- `card.undelete`. -/
def undelete (cardId : Option Int) : Except Refusal Db := do
  let id ← cardNamed "card.undelete" cardId
  let c ← deletedCard db id
  adminCheck acc db actor "card.undelete" id
  capCheck db c
  let joined ← rejoin db actor id
  return (setDeleted joined id false).log ⟨id,"card_undelete",none,none,none,actor⟩

variable {acc : Access} {db db' : Db} {actor : Int} {cardId : Option Int}

theorem cardNamed_ok {process : String} {id : Int} (h : cardNamed process cardId=.ok id) :
    cardId=some id := by
  unfold cardNamed at h
  split at h
  · cases h
  · rename_i n hn
    cases h
    exact (Option.filter_eq_some_iff.mp hn).1

theorem mapError_ok {ε ε' α : Type} {f : ε → ε'} {x : Except ε α} {a : α}
    (h : x.mapError f=.ok a) : x=.ok a := by
  cases x with
  | error e => cases h
  | ok b =>
    cases h
    rfl

theorem delete_ok (h : delete acc db actor cardId=.ok db') : ∃ id, cardId=some id∧
    db.live id=true∧db'=(setDeleted db id true).log ⟨id,"card_delete",none,none,none,actor⟩ := by
  unfold delete at h
  obtain ⟨id,hid,h⟩ := bind_ok h
  obtain ⟨_,_,h⟩ := bind_ok h
  obtain ⟨_,_,h⟩ := bind_ok h
  split at h
  · cases h
  · rename_i hlive
    cases h
    exact ⟨id,cardNamed_ok (mapError_ok hid),by simpa using hlive,rfl⟩

/-- A card comes back as it was, or without its link to a parent task. -/
theorem rejoin_ok {id : Int} {joined : Db} (h : rejoin db actor id=.ok joined) :
    (cardEnclosingProject db id=none∧joined=db)∨∃ project, cardEnclosingProject db id=some project∧
      joined=if parentGone db id project then TaskMove.unlink db actor [id] else db := by
  unfold rejoin at h
  split at h
  · rename_i hnone
    cases h
    exact .inl ⟨hnone,rfl⟩
  · rename_i project hp
    obtain ⟨_,_,h⟩ := bind_ok h
    cases h
    exact .inr ⟨project,hp,rfl⟩

theorem undelete_ok (h : undelete acc db actor cardId=.ok db') : ∃ id c joined, cardId=some id∧
    db.card id=some c∧c.deleted=true∧rejoin db actor id=.ok joined∧
      db'=(setDeleted joined id false).log ⟨id,"card_undelete",none,none,none,actor⟩ := by
  unfold undelete at h
  obtain ⟨id,hid,h⟩ := bind_ok h
  obtain ⟨c,hc,h⟩ := bind_ok h
  obtain ⟨_,_,h⟩ := bind_ok h
  obtain ⟨_,_,h⟩ := bind_ok h
  obtain ⟨joined,hjoined,h⟩ := bind_ok h
  cases h
  unfold deletedCard at hc
  split at hc
  · cases hc
  · rename_i r hr
    split at hc
    · cases hc
    · rename_i hdel
      cases hc
      exact ⟨id,_,joined,cardNamed_ok hid,hr,by simpa using hdel,hjoined,rfl⟩

theorem setDeleted_card (db : Db) (id : Int) (deleted : Bool) (x : Int) :
    (setDeleted db id deleted).card x=
      (db.card x).map fun c => if x=id then { c with deleted } else c := by
  rw [setDeleted,mapCards_card (by intro c; split <;> rfl)]
  cases hx : db.card x with
  | none => rfl
  | some c => simp [card_id hx]

end Kitp.CardDelete
