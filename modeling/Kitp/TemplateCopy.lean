import Kitp.Attributes
import Kitp.Lib.Steps
import Kitp.Visibility
import Mathlib.Data.List.Sort

/-! `copy_project_template`: the graph copy of a template project's cards, flows and values
into a fresh project. -/
namespace Kitp.TemplateCopy
open Kitp.Store Kitp.Attributes Kitp.Visibility Kitp.Steps

def remapId (remap : List (Int×Int)) (id : Option Int) (v : Json) : Json :=
  ((id.bind fun i => remap.lookup i).map Json.ofInt).getD v

/-- The new id of a card a stored value names. -/
def remapRef (remap : List (Int×Int)) (v : Json) : Json := remapId remap (refId v) v

/-- The new id in a predicate, where a string is a key as it is written. -/
def remapKey (remap : List (Int×Int)) : Json → Json
  | .num n => remapId remap n.whole (.num n)
  | .str s => remapId remap ((idText s).filter (toString · = s)) (.str s)
  | v => v

mutual

/-- `remap_predicate_tree`: the ids of `values` under a card attribute, through `children`,
`items` and their predicates. -/
def remapPredicateTree (remap : List (Int×Int)) (cardRefAttrs : List String) : Json → Json
  | .arr xs => .arr (remapAll remap cardRefAttrs xs)
  | .obj fields =>
    let onRefs := match fields.lookup "attr" with
      | some (.str a) => a∈cardRefAttrs
      | _ => false
    .obj (remapFields remap cardRefAttrs onRefs fields)
  | v => v

def remapAll (remap : List (Int×Int)) (cardRefAttrs : List String) : List Json → List Json
  | [] => []
  | x::xs => remapPredicateTree remap cardRefAttrs x::remapAll remap cardRefAttrs xs

def remapFields (remap : List (Int×Int)) (cardRefAttrs : List String) (onRefs : Bool) :
    List (String×Json) → List (String×Json)
  | [] => []
  | (k,v)::fields =>
    let v' := match k,v with
      | "children",.arr xs => .arr (remapAll remap cardRefAttrs xs)
      | "items",.arr xs => .arr (remapItems remap cardRefAttrs xs)
      | "values",.arr xs => if onRefs then .arr (xs.map (remapKey remap)) else .arr xs
      | _,v => v
    (k,v')::remapFields remap cardRefAttrs onRefs fields

/-- An item's `predicate`, and the item itself where it nests further. -/
def remapItems (remap : List (Int×Int)) (cardRefAttrs : List String) : List Json → List Json
  | [] => []
  | .obj fields::xs =>
    let nested := (fields.lookup "children").isSome||(fields.lookup "items").isSome
    let onRefs := nested&&match fields.lookup "attr" with
      | some (.str a) => a∈cardRefAttrs
      | _ => false
    .obj (remapItemFields remap cardRefAttrs nested onRefs fields)::remapItems remap cardRefAttrs xs
  | x::xs => x::remapItems remap cardRefAttrs xs

def remapItemFields (remap : List (Int×Int)) (cardRefAttrs : List String) (nested onRefs : Bool) :
    List (String×Json) → List (String×Json)
  | [] => []
  | (k,v)::fields =>
    let v' := match k,v with
      | "predicate",p => remapPredicateTree remap cardRefAttrs p
      | "children",.arr xs => if nested then .arr (remapAll remap cardRefAttrs xs) else .arr xs
      | "items",.arr xs => if nested then .arr (remapItems remap cardRefAttrs xs) else .arr xs
      | "values",.arr xs => if onRefs then .arr (xs.map (remapKey remap)) else .arr xs
      | _,v => v
    (k,v')::remapItemFields remap cardRefAttrs nested onRefs fields

end

variable (parse : String → Option Json) (areas : Areas) (db : Db)

/-- A card is copied when it is live, shared, no thread or message, and in no area that is
off. -/
def copied (c : Card) : Bool :=
  !c.deleted&&c.privateTo.isNone&&
    !(db.cardTypeName c).any (· ∈ ["comm","reply_body"])&&!cardInOffArea db areas c.id

def isTask (c : Card) : Bool := db.cardTypeName c=some "task"

/-- The copied cards under one of `parents`, by id. -/
def nextLevel (parents : List Int) : List Card :=
  (db.cards.filter fun c => c.parentCardId.any (· ∈ parents)&&copied areas db c).insertionSort
    (·.id ≤ ·.id)

/-- The walk down, level by level; it stops at a task. -/
def walkDown : Nat → List Int → List Card
  | 0,_ => []
  | n+1,parents =>
    let level := nextLevel areas db parents
    level++walkDown n ((level.filter (!isTask db ·)).map (·.id))

def descendants (templateId : Int) : List Card :=
  (walkDown areas db 16 [templateId]).filter (!isTask db ·)

/-- One card with its `card_create`; its parent is mapped already. -/
def copyCard (actor : Int) (s : Db×List (Int×Int)) (c : Card) :
    Except Refusal (Db×List (Int×Int)) :=
  match c.parentCardId.map fun p => s.2.lookup p with
  | some none => .error ⟨"P0001",s!"copy_project_template: descendant {c.id} has parent "++
      (c.parentCardId.elim "" toString)++" not in remap"⟩
  | parent =>
    let new := s.1.nextCardId
    .ok ((s.1.addCard ⟨new,c.cardTypeId,parent.join,none,false,c.phase⟩).log
      ⟨new,"card_create",none,none,none,actor⟩,s.2++[(c.id,new)])

/-- The flows of the template, each with the steps between copied states. -/
def copyFlow (remap : List (Int×Int)) (projectId : Int) (db : Db) (f : Flow) : Db :=
  let flow : Flow := { f with
    id := db.nextFlowId
    scopeCardId := projectId
    defaultCreateStatusId := f.defaultCreateStatusId.bind fun d => remap.lookup d }
  let steps := db.flowSteps.filter (·.flowId=f.id)
  steps.foldl (fun db s =>
      match remap.lookup s.fromCardId,remap.lookup s.toCardId with
      | some source,some target =>
        { db with
          flowSteps := db.flowSteps++[{ s with
            id := db.nextFlowStepId, flowId := flow.id, fromCardId := source, toCardId := target }]
          nextFlowStepId := db.nextFlowStepId+1 }
      | _,_ => db)
    { db with flows := db.flows++[flow], nextFlowId := db.nextFlowId+1 }

/-- A value as the copy holds it: the cards and flows it names are the copies. -/
def copyValue (cardRefAttrs : List String) (remap flowRemap : List (Int×Int)) (d : AttributeDef)
    (v : Json) : Json :=
  if d.name="flow_ref" then
    match v with
    | .num n => remapId flowRemap n.whole v
    | v => v
  else if d.name="predicate"∨d.name="toggle_groups" then
    match v with
    | .null => .null
    | .str s => (parse s).elim (.str s) fun tree =>
        .str (remapPredicateTree remap cardRefAttrs tree).text
    | v => remapPredicateTree remap cardRefAttrs v
  else match d.valueType,v with
    | .cardRef,v => remapRef remap v
    | .cardRefs,.arr xs => .arr (xs.map (remapRef remap))
    | _,v => v

/-- The values of the copied cards; a thread's own record stays with it. -/
def valuesToCopy (remap : List (Int×Int)) : List (Int×AttributeDef×Json) :=
  ((db.values.insertionSort fun a b => a.cardId<b.cardId∨
      (a.cardId=b.cardId∧a.attributeDefId ≤ b.attributeDefId)).filterMap fun v =>
    (remap.lookup v.cardId).bind fun new =>
      ((db.attributeDef v.attributeDefId).filter fun d =>
        d.name∉["replies","comm_confirmed","comm_removed"]).map (new,·,v.value))

/-- `copy_project_template`. -/
def copyProjectTemplate (actor templateId projectId : Int) : Except Refusal Db := do
  let (copy,remap) ← (descendants areas db templateId).foldlM (copyCard actor)
    (db,[(templateId,projectId)])
  let flows := copy.flows.filter (·.scopeCardId=templateId)
  let withFlows := flows.foldl (copyFlow remap projectId) copy
  let flowRemap := (flows.map (·.id)).zip ((List.range flows.length).map (copy.nextFlowId+·))
  let refAttrs := (db.attributeDefs.filter fun d =>
    d.valueType=.cardRef∨d.valueType=.cardRefs).map (·.name)
  return (valuesToCopy withFlows (remap.filter (·.1≠templateId))).foldl (fun db w =>
    writeValue db actor w.1 w.2.1.id none (copyValue parse refAttrs remap flowRemap w.2.1 w.2.2))
    withFlows

theorem mem_nextLevel {parents : List Int} {c : Card} (h : c∈nextLevel areas db parents) :
    c∈db.cards∧copied areas db c=true := by
  have hmem := (List.mem_insertionSort _).mp h
  simp only [List.mem_filter,Bool.and_eq_true] at hmem
  exact ⟨hmem.1,hmem.2.2⟩

theorem mem_walkDown {n : Nat} {parents : List Int} {c : Card}
    (h : c∈walkDown areas db n parents) : c∈db.cards∧copied areas db c=true := by
  induction n generalizing parents with
  | zero => simp [walkDown] at h
  | succ n ih =>
    cases List.mem_append.mp h with
    | inl h => exact mem_nextLevel areas db h
    | inr h => exact ih h

theorem mem_descendants {templateId : Int} {c : Card} (h : c∈descendants areas db templateId) :
    c∈db.cards :=
  (mem_walkDown areas db (List.mem_of_mem_filter h)).1

theorem live_descendants {templateId : Int} {c : Card} (h : c∈descendants areas db templateId) :
    c.deleted=false := by
  have hcopied := (mem_walkDown areas db (List.mem_of_mem_filter h)).2
  simp only [copied,Bool.and_eq_true,Bool.not_eq_true'] at hcopied
  exact hcopied.1.1.1

/-- A copied card goes under the copy of its parent. -/
theorem copyCard_ok {actor : Int} {s t : Db×List (Int×Int)} {c : Card}
    (h : copyCard actor s c=.ok t) : ∃ parent a,
      ((c.parentCardId=none∧parent=none)∨
        ∃ p n, c.parentCardId=some p∧parent=some n∧s.2.lookup p=some n)∧
      a.attributeDefId=none∧
      t=((s.1.addCard ⟨s.1.nextCardId,c.cardTypeId,parent,none,false,c.phase⟩).log a,
        s.2++[(c.id,s.1.nextCardId)]) := by
  unfold copyCard at h
  cases hp : c.parentCardId with
  | none =>
    simp only [hp,Option.map_none] at h
    cases h
    exact ⟨none,_,.inl ⟨rfl,rfl⟩,rfl,rfl⟩
  | some p =>
    cases hn : s.2.lookup p with
    | none =>
      simp only [hp,Option.map_some,hn] at h
      cases h
    | some n =>
      simp only [hp,Option.map_some,hn] at h
      cases h
      exact ⟨some n,_,.inr ⟨p,n,rfl,rfl,hn⟩,rfl,rfl⟩

/-- The cards come first, then the flows, which leave cards and values alone, then the values. -/
theorem copyProjectTemplate_ok {actor templateId projectId : Int} {db' : Db}
    (h : copyProjectTemplate parse areas db actor templateId projectId=.ok db') :
    ∃ (copy : Db) (remap : List (Int×Int)) (withFlows : Db) (value : AttributeDef → Json → Json),
      (∃ refAttrs flowRemap, value=copyValue parse refAttrs remap flowRemap)∧
      (descendants areas db templateId).foldlM (copyCard actor) (db,[(templateId,projectId)])=
        .ok (copy,remap)∧
      withFlows=(copy.flows.filter (·.scopeCardId=templateId)).foldl (copyFlow remap projectId) copy∧
      db'=(valuesToCopy withFlows (remap.filter (·.1≠templateId))).foldl (fun db a =>
        writeValue db actor a.1 a.2.1.id none (value a.2.1 a.2.2)) withFlows := by
  unfold copyProjectTemplate at h
  obtain ⟨⟨copy,remap⟩,hcopy,h⟩ := bind_ok h
  cases h
  exact ⟨copy,remap,_,_,⟨_,_,rfl⟩,hcopy,rfl,rfl⟩

/-- What is written is a value of a card the copy was made of. -/
theorem mem_valuesToCopy {db : Db} {remap : List (Int×Int)} {a : Int×AttributeDef×Json}
    (h : a∈valuesToCopy db remap) : ∃ r∈db.values, remap.lookup r.cardId=some a.1∧
      db.attributeDef r.attributeDefId=some a.2.1∧a.2.2=r.value := by
  obtain ⟨r,hr,ha⟩ := List.mem_filterMap.mp h
  obtain ⟨n,hn,ha⟩ := Option.bind_eq_some_iff.mp ha
  obtain ⟨e,he,ha⟩ := Option.map_eq_some_iff.mp ha
  subst ha
  exact ⟨r,(List.mem_insertionSort _).mp hr,hn,(Option.filter_eq_some_iff.mp he).1,rfl⟩

/-- A copied flow touches no card and no value. -/
theorem copyFlow_keeps (remap : List (Int×Int)) (projectId : Int) (db : Db) (f : Flow) :
    SameCards db (copyFlow remap projectId db f)∧
      (copyFlow remap projectId db f).values=db.values∧
      (copyFlow remap projectId db f).activity=db.activity := by
  refine foldl_inv (I := fun db' : Db => SameCards db db'∧db'.values=db.values∧
    db'.activity=db.activity) ⟨⟨rfl,rfl,rfl,rfl,rfl⟩,rfl,rfl⟩ ?_
  intro db' h s _
  split
  · exact ⟨h.1.trans ⟨rfl,rfl,rfl,rfl,rfl⟩,h.2⟩
  · exact h

theorem copyFlows_keep (remap : List (Int×Int)) (projectId : Int) (db : Db) (flows : List Flow) :
    SameCards db (flows.foldl (copyFlow remap projectId) db)∧
      (flows.foldl (copyFlow remap projectId) db).values=db.values∧
      (flows.foldl (copyFlow remap projectId) db).activity=db.activity := by
  refine foldl_inv (I := fun db' : Db => SameCards db db'∧db'.values=db.values∧
    db'.activity=db.activity) ⟨.refl db,rfl,rfl⟩ ?_
  intro db' h f _
  obtain ⟨hsame,hvalues,hactivity⟩ := copyFlow_keeps remap projectId db' f
  exact ⟨h.1.trans hsame,hvalues.trans h.2.1,hactivity.trans h.2.2⟩

end Kitp.TemplateCopy
