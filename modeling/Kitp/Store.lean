import Kitp.Lib.Forest
import Kitp.Lib.Json

/-! The card store: the rows of its tables and the reads its functions share. -/
namespace Kitp.Store
open Forest

structure CardType where
  id : Int
  name : String
  parentCardTypeId : Option Int
  allowSelfParent : Bool
  deriving DecidableEq

inductive ValueType where
  | text
  | number
  | bool
  | date
  | cardRef
  | cardRefs
  deriving DecidableEq

structure AttributeDef where
  id : Int
  name : String
  valueType : ValueType
  targetCardTypeId : Option Int := none
  targetFilter : Option Json := none

inductive CardPhase where
  | triage
  | active
  | terminal
  deriving DecidableEq

structure Card where
  id : Int
  cardTypeId : Int
  parentCardId : Option Int
  privateTo : Option Int
  deleted : Bool
  phase : CardPhase := .triage
  deriving DecidableEq

structure AttributeValue where
  cardId : Int
  attributeDefId : Int
  value : Json

structure Flow where
  id : Int
  attributeDefId : Int
  scopeCardId : Int
  defaultCreateStatusId : Option Int
  name : String := ""

structure FlowStep where
  id : Int
  flowId : Int
  fromCardId : Int
  toCardId : Int
  requiresRoleId : Option Int
  label : String := ""
  sortOrder : Int := 0
  standalone : Bool := false

/-- A row of the activity log; the newest is the last. -/
structure Activity where
  cardId : Int
  kind : String
  attributeDefId : Option Int := none
  valueOld : Option Json := none
  valueNew : Option Json := none
  actorId : Int
  deriving DecidableEq

structure Edge where
  cardTypeId : Int
  attributeDefId : Int
  isRequired : Bool
  ordering : Int

structure Db where
  cardTypes : List CardType
  attributeDefs : List AttributeDef
  cards : List Card
  values : List AttributeValue := []
  flows : List Flow := []
  flowSteps : List FlowStep := []
  bundleSources : List Int := []
  edges : List Edge := []
  activity : List Activity := []
  /-- The mail accounts with a sending secret. -/
  sendSecrets : List Int := []
  /-- The next id of each sequence. -/
  nextCardId : Int := 0
  nextFlowId : Int := 0
  nextFlowStepId : Int := 0

/-- The answers of the role, area and visibility functions: they only ever refuse. -/
structure Access where
  userIsGlobalAdmin : Db → Int → Bool
  cardVisibleTo : Db → Int → Int → Bool
  userHasGrant : Db → Int → String → String → Int → Bool
  areaWriteBlocked : Db → Int → Int → Int → Bool
  personReferable : Db → Int → Int → Option Int → Bool
  cardFilterIds : Db → Json → List Int → List Int
  userHasStepRole : Db → Int → Option Int → Int → Bool
  hasLogin : Db → Int → Bool

/-- A refused row: the code and the message it answers with. -/
structure Refusal where
  code : String
  message : String
  deriving DecidableEq

def upsert (cardId attributeDefId : Int) (value : Json) : List AttributeValue → List AttributeValue
  | [] => [⟨cardId,attributeDefId,value⟩]
  | v::rows =>
    if v.cardId=cardId∧v.attributeDefId=attributeDefId then { v with value }::rows
    else v::upsert cardId attributeDefId value rows

namespace Db

variable (db : Db)

def card (id : Int) : Option Card := db.cards.find? (·.id=id)

def cardType (id : Int) : Option CardType := db.cardTypes.find? (·.id=id)

def attributeDef (id : Int) : Option AttributeDef := db.attributeDefs.find? (·.id=id)

def live (id : Int) : Bool := (db.card id).any (!·.deleted)

/-- The graph of the `parent_card_id` column. -/
def parent (id : Int) : Option Int := (db.card id).bind (·.parentCardId)

def attributeNamed (name : String) : Option AttributeDef :=
  db.attributeDefs.find? (·.name=name)

def value (cardId attributeDefId : Int) : Option Json :=
  (db.values.find? fun v => v.cardId=cardId∧v.attributeDefId=attributeDefId).map (·.value)

def edge (cardTypeId attributeDefId : Int) : Option Edge :=
  db.edges.find? fun e => e.cardTypeId=cardTypeId∧e.attributeDefId=attributeDefId

/-- The upsert of `attribute_value`. -/
def setValue (cardId attributeDefId : Int) (value : Json) : Db :=
  { db with values := upsert cardId attributeDefId value db.values }

def dropValues (gone : AttributeValue → Bool) : Db :=
  { db with values := db.values.filter (!gone ·) }

def log (a : Activity) : Db := { db with activity := db.activity++[a] }

/-- The insert of a card whose id the sequence has given. -/
def addCard (c : Card) : Db :=
  { db with cards := db.cards++[c], nextCardId := db.nextCardId+1 }

/-- An update of the card rows. -/
def mapCards (f : Card → Card) : Db := { db with cards := db.cards.map f }

def setParent (moved : Int → Bool) (parent : Int) : Db :=
  db.mapCards fun c => if moved c.id then { c with parentCardId := some parent } else c

/-- A row joined with its parent's. -/
def parentCard (c : Card) : Option Card := c.parentCardId.bind db.card

def cardTypeName (c : Card) : Option String := (db.cardType c.cardTypeId).map (·.name)

end Db

/-- `card_ancestors`: from `start` up, at most 17 rows. -/
def cardAncestors (db : Db) (start : Int) : List Card :=
  (db.card start).elim [] (walk db.parentCard 17)

/-- `card_enclosing_project`: the first project of the walk. -/
def cardEnclosingProject (db : Db) (start : Int) : Option Int :=
  ((cardAncestors db start).find? (db.cardTypeName ·=some "project")).map (·.id)

theorem card_id {db : Db} {x : Int} {c : Card} (h : db.card x=some c) : c.id=x := by
  have := List.find?_some h
  simpa using this

/-- The second state may differ in its values, its flows and its log. -/
structure SameCards (db db' : Db) : Prop where
  cards : db'.cards=db.cards
  cardTypes : db'.cardTypes=db.cardTypes
  attributeDefs : db'.attributeDefs=db.attributeDefs
  edges : db'.edges=db.edges
  nextCardId : db'.nextCardId=db.nextCardId

namespace SameCards

variable {db db' db'' : Db}

theorem refl (db : Db) : SameCards db db := ⟨rfl,rfl,rfl,rfl,rfl⟩

theorem trans (h : SameCards db db') (k : SameCards db' db'') : SameCards db db'' where
  cards := k.cards.trans h.cards
  cardTypes := k.cardTypes.trans h.cardTypes
  attributeDefs := k.attributeDefs.trans h.attributeDefs
  edges := k.edges.trans h.edges
  nextCardId := k.nextCardId.trans h.nextCardId

theorem card (h : SameCards db db') : db'.card=db.card := by
  funext x
  simp only [Db.card,h.cards]

theorem parent (h : SameCards db db') : db'.parent=db.parent := by
  funext x
  simp only [Db.parent,h.card]

theorem cardType (h : SameCards db db') : db'.cardType=db.cardType := by
  funext x
  simp only [Db.cardType,h.cardTypes]

theorem cardTypeName (h : SameCards db db') : db'.cardTypeName=db.cardTypeName := by
  funext c
  simp only [Db.cardTypeName,h.cardType]

theorem attributeNamed (h : SameCards db db') : db'.attributeNamed=db.attributeNamed := by
  funext n
  simp only [Db.attributeNamed,h.attributeDefs]

theorem edge (h : SameCards db db') : db'.edge=db.edge := by
  funext t a
  simp only [Db.edge,h.edges]

end SameCards

theorem mapCards_card {f : Card → Card} (hf : ∀ c, (f c).id=c.id) (db : Db) (x : Int) :
    (db.mapCards f).card x=(db.card x).map f := by
  simp [Db.mapCards,Db.card,List.find?_map,Function.comp_def,hf]

theorem addCard_card (db : Db) (c : Card) (x : Int) :
    (db.addCard c).card x=(db.card x).or (if c.id=x then some c else none) := by
  simp only [Db.card,Db.addCard,List.find?_append,List.find?_singleton,decide_eq_true_eq]

theorem setParent_card (db : Db) (moved : Int → Bool) (p x : Int) :
    (db.setParent moved p).card x=
      (db.card x).map fun c => if moved x then { c with parentCardId := some p } else c := by
  rw [Db.setParent,mapCards_card (by intro c; split <;> rfl)]
  cases hx : db.card x with
  | none => rfl
  | some c => simp [card_id hx]

theorem find_upsert_self (c d : Int) (v : Json) (rows : List AttributeValue) :
    (upsert c d v rows).find? (fun w => w.cardId=c∧w.attributeDefId=d)=some ⟨c,d,v⟩ := by
  induction rows with
  | nil => simp [upsert]
  | cons w rows ih =>
    by_cases hw : w.cardId=c∧w.attributeDefId=d
    · simp [upsert,hw]
    · simpa [upsert,hw] using ih

theorem find_upsert_ne {c d c' d' : Int} (h : ¬(c'=c∧d'=d)) (v : Json)
    (rows : List AttributeValue) :
    (upsert c d v rows).find? (fun w => w.cardId=c'∧w.attributeDefId=d')=
      rows.find? fun w => w.cardId=c'∧w.attributeDefId=d' := by
  have hcd : ¬(c=c'∧d=d') := fun e => h ⟨e.1.symm,e.2.symm⟩
  induction rows with
  | nil => simpa [upsert] using hcd
  | cons w rows ih =>
    by_cases hw : w.cardId=c∧w.attributeDefId=d
    · have hne : ¬(w.cardId=c'∧w.attributeDefId=d') := fun e =>
        hcd ⟨hw.1.symm.trans e.1,hw.2.symm.trans e.2⟩
      rw [upsert,if_pos hw,List.find?_cons_of_neg (by simpa using hne),
        List.find?_cons_of_neg (by simpa using hne)]
    · rw [upsert,if_neg hw]
      by_cases hne : w.cardId=c'∧w.attributeDefId=d'
      · rw [List.find?_cons_of_pos (by simpa using hne),List.find?_cons_of_pos (by simpa using hne)]
      · rw [List.find?_cons_of_neg (by simpa using hne),List.find?_cons_of_neg (by simpa using hne),ih]

@[simp] theorem setValue_self (db : Db) (c d : Int) (v : Json) :
    (db.setValue c d v).value c d=some v := by
  simp only [Db.value,Db.setValue,find_upsert_self,Option.map_some]

theorem upsert_of_find {c d : Int} {v : Json} {rows : List AttributeValue}
    (h : (rows.find? fun w => w.cardId=c∧w.attributeDefId=d).map (·.value)=some v) :
    upsert c d v rows=rows := by
  induction rows with
  | nil => cases h
  | cons w rows ih =>
    by_cases hw : w.cardId=c∧w.attributeDefId=d
    · rw [List.find?_cons_of_pos (by simpa using hw)] at h
      cases h
      rw [upsert,if_pos hw]
    · rw [List.find?_cons_of_neg (by simpa using hw)] at h
      rw [upsert,if_neg hw,ih h]

theorem setValue_of_value {db : Db} {c d : Int} {v : Json} (h : db.value c d=some v) :
    db.setValue c d v=db := by
  simp only [Db.setValue,upsert_of_find h]

theorem setValue_ne {c d c' d' : Int} (h : ¬(c'=c∧d'=d)) (db : Db) (v : Json) :
    (db.setValue c d v).value c' d'=db.value c' d' := by
  simp only [Db.value,Db.setValue,find_upsert_ne h]

theorem mem_of_value {db : Db} {c d : Int} {v : Json} (h : db.value c d=some v) :
    ∃ row∈db.values, row.cardId=c∧row.attributeDefId=d∧row.value=v := by
  obtain ⟨row,hrow,hv⟩ := Option.map_eq_some_iff.mp h
  have hkey : row.cardId=c∧row.attributeDefId=d := by simpa using List.find?_some hrow
  exact ⟨row,List.mem_of_find?_eq_some hrow,hkey.1,hkey.2,hv⟩

theorem value_dropValues (db : Db) (gone : Int → Int → Bool) (c d : Int) :
    (db.dropValues fun v => gone v.cardId v.attributeDefId).value c d=
      if gone c d then none else db.value c d := by
  simp only [Db.value,Db.dropValues,List.find?_filter]
  by_cases hg : gone c d
  · rw [if_pos hg,Option.map_eq_none_iff,List.find?_eq_none]
    intro v _ hv
    simp only [Bool.not_eq_true',decide_eq_true_eq] at hv
    rw [hv.2.1,hv.2.2,hg] at hv
    simp at hv
  · rw [if_neg hg]
    congr 2
    funext v
    by_cases hv : v.cardId=c∧v.attributeDefId=d
    · simp [hv.1,hv.2,hg]
    · simp [hv]

theorem reaches_rows {db : Db} {x y : Int} {a b : Card} (h : Reaches db.parent x y)
    (hx : db.card x=some a) (hy : db.card y=some b) : Reaches db.parentCard a b := by
  induction h using Relation.ReflTransGen.head_induction_on generalizing a with
  | refl =>
    have hab : a=b := Option.some.inj (hx.symm.trans hy)
    exact hab ▸ .refl
  | @head x z hxz hzy ih =>
    have hp : a.parentCardId=some z := by simpa [Up,Db.parent,hx] using hxz
    -- `z` has a row: it is `y`, or it has a parent
    have hz : ∃ d, db.card z=some d := by
      cases Relation.ReflTransGen.cases_head hzy with
      | inl hzy => exact ⟨b,hzy ▸ hy⟩
      | inr hzw =>
        obtain ⟨w,hzw,-⟩ := hzw
        obtain ⟨d,hd,-⟩ := Option.bind_eq_some_iff.mp hzw
        exact ⟨d,hd⟩
    obtain ⟨d,hd⟩ := hz
    have had : db.parentCard a=some d := by simp [Db.parentCard,hp,hd]
    exact .head had (ih hd)

/-- Short of its cap, the walk meets every card above. -/
theorem mem_cardAncestors {db : Db} {x y : Int} {b : Card}
    (hlen : (cardAncestors db x).length<17) (h : Reaches db.parent x y) (hxy : x≠y)
    (hy : db.card y=some b) : b∈cardAncestors db x := by
  cases hx : db.card x with
  | none =>
    cases Relation.ReflTransGen.cases_head h with
    | inl h => exact absurd h hxy
    | inr h =>
      obtain ⟨z,hz,-⟩ := h
      simp [Up,Db.parent,hx] at hz
  | some a =>
    have hwalk : (walk db.parentCard 17 a).length<17 := by simpa [cardAncestors,hx] using hlen
    have hmem : b∈walk db.parentCard 17 a := mem_walk_of_reaches hwalk (reaches_rows h hx hy)
    simpa [cardAncestors,hx] using hmem

def children (db : Db) (ids : List Int) : List Int :=
  (db.cards.filter fun c => ids.any (c.parentCardId=some ·)).map (·.id)

/-- The levels of the walk down, the given cards first, at most `n` below them. -/
def levels (db : Db) : Nat → List Int → List (List Int)
  | 0,ids => [ids]
  | n+1,ids => ids::if children db ids=[] then [] else levels db n (children db ids)

/-- The recursive `sub` of the write functions: the card and what is under it, 16 deep. -/
def subtree (db : Db) (root : Int) : List Int := (levels db 16 [root]).flatten

def subtreeDepth (db : Db) (root : Int) : Nat := (levels db 16 [root]).length-1

/-- `card_is_admin_only`. -/
def cardIsAdminOnly (db : Db) (id : Int) : Bool :=
  (db.card id).any fun c =>
    (db.cardTypeName c).any fun t => t="comm_channel"∨t="activity_sink"

/-- `flow_state_ids`: the live states of a flow. -/
def flowStateIds (db : Db) (flowId : Int) : List Int :=
  (db.cards.filter fun c => !c.deleted&&
    (db.flows.any (fun f => f.id=flowId∧f.defaultCreateStatusId=some c.id)||
      db.flowSteps.any fun s => s.flowId=flowId∧(s.fromCardId=c.id∨s.toCardId=c.id))).map (·.id)

/-- Digits after an optional minus sign, as `'^-?\d+$'` accepts them. -/
def idText (s : String) : Option Int :=
  let value (ds : List Char) : Option Int :=
    if ds≠[]∧ds.all Char.isDigit then
      some (ds.foldl (fun n d => 10*n+(d.toNat-48 : Nat)) 0)
    else none
  match s.toList with
  | '-'::ds => (value ds).map (-·)
  | ds => value ds

/-- `value #>> '{}'` of a text, a boolean or a whole number. -/
def scalarText : Json → Option String
  | .str s => some s
  | .bool b => some (toString b)
  | .num n => n.whole.map toString
  | _ => none

/-- The card a reference value names: a number, or a string of digits. -/
def refId : Json → Option Int
  | .num n => n.whole
  | .str s => idText s
  | _ => none

/-- The cards a stored value names, by the type of its attribute. -/
def refIds (t : ValueType) (v : Json) : List Int :=
  match t,v with
  | .cardRef,v => (refId v).toList
  | .cardRefs,.arr xs => xs.filterMap refId
  | _,_ => []

/-- The value is the card's number, or a list that holds it. -/
def namesCard (t : ValueType) (v : Json) (id : Int) : Bool :=
  match t,v with
  | .cardRef,.num n => n.same (.ofInt id)
  | .cardRefs,.arr xs => xs.any fun x => match x with
    | .num n => n.same (.ofInt id)
    | _ => false
  | _,_ => false

/-- `quote_literal`, which `format` applies to `%L`. -/
def quoteLiteral (s : String) : String :=
  let quote := Char.ofNat 39
  let slash := Char.ofNat 92
  let doubled := s.toList.flatMap fun c => if c=quote∨c=slash then [c,c] else [c]
  let body := String.ofList (quote::doubled++[quote])
  if slash∈s.toList then "E"++body else body

end Kitp.Store
