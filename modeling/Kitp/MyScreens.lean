import Kitp.CardDelete
import Kitp.Accounts

/-! `my_screen_set_batch`: one row. -/
namespace Kitp.MyScreens
open Kitp.Store Kitp.Accounts Kitp.Attributes Kitp.Steps

/-- One element of `inputs`: each field's text, none where it is absent. -/
structure Input where
  id : Option String
  title : Option String
  layout : Option String
  listCardType : Option String
  predicate : Option String
  sortOrder : Option Json
  defaultFilter : Option String

/-- Whose screens they are, and what a filter's compiler says against a predicate. -/
structure Env where
  dir : Directory
  filterError : Db → Int → String → Option String

variable (env : Env) (db : Db) (actor : Int)

def refuse {α : Type} (code message : String) : Except Refusal α :=
  .error ⟨code,"my_screen.set: "++message⟩

/-- `'^\d+$'`. -/
def digits (s : String) : Option Int := (idText s).filter fun _ => s.toList.head?≠some '-'

def screenId (input : Input) : Except Refusal Int :=
  match digits (input.id.getD "0") with
  | none => refuse "validation" "id must be a card id"
  | some id => .ok id

def ownerOf : Except Refusal Int :=
  match accountPerson env.dir db actor with
  | none => refuse "no_person" "your account has no person card to own a screen"
  | some person => .ok person

/-- The person's own live screen. -/
def ownScreen (person id : Int) : Bool :=
  (db.card id).any fun c => db.cardTypeName c=some "screen"∧c.parentCardId=none∧
    c.privateTo=some person∧!c.deleted

def screenCheck (person id : Int) : Except Refusal Unit :=
  if id≠0∧!ownScreen db person id then refuse "not_found" s!"screen {id} not found" else .ok ()

def titleOf (input : Input) : String := trimBlanks (input.title.getD "")

def titleCheck (id : Int) (input : Input) : Except Refusal Unit :=
  let title := titleOf input
  if (id=0∨input.title.isSome)∧(title=""∨60<title.length) then
    refuse "validation" "a name (up to 60 characters) is required"
  else .ok ()

/-- One of two choices, the first for a new screen that makes none. -/
def choice (name : String) (first second : String) (id : Int) (given : Option String) :
    Except Refusal (Option String) :=
  match given.filter (·≠"") with
  | none => .ok (if id=0 then some first else none)
  | some v =>
    if v=first∨v=second then .ok (some v)
    else refuse "validation" (name++" "++quoteLiteral v++" is not one of "++first++" / "++second)

def predicateCheck (person : Int) (input : Input) : Except Refusal Unit :=
  let text := input.predicate.getD ""
  if trimBlanks text="" then .ok ()
  else match env.filterError db person text with
    | none => .ok ()
    | some e => refuse "validation" ("the filter is not valid: "++e)

/-- The place of the person's last screen. -/
def lastPlace (person : Int) : Int :=
  match db.attributeNamed "sort_order" with
  | none => 0
  | some d =>
    (((db.cards.filter fun c => ownScreen db person c.id).filterMap fun c =>
      (db.value c.id d.id).bind fun v => match v with
        | .num n => n.whole
        | _ => none).max?).getD 0

def sortOf (person id : Int) (input : Input) : Except Refusal (Option Json) :=
  match input.sortOrder with
  | none => .ok (if id=0 then some (.ofInt (lastPlace db person+10)) else none)
  | some (.num n) =>
    match attrScalarNorm .number (.num n) with
    | none => refuse "validation" "sort_order must be a whole number"
    | some _ => .ok (some (.num n))
  | some _ => refuse "validation" "sort_order must be a whole number"

/-- A live view of the screen. -/
def ownView (id view : Int) : Bool :=
  (db.card view).any fun c => db.cardTypeName c=some "filter"∧c.parentCardId=some id∧!c.deleted

def defaultOf (id : Int) (input : Input) : Except Refusal (Option Int) :=
  match input.defaultFilter with
  | none => .ok none
  | some text =>
    match digits text with
    | none => refuse "validation" "default_filter must be a view id or 0"
    | some view =>
      if view≠0∧(id=0∨!ownView db id view) then
        refuse "validation" "default_filter must be one of the screen's own views"
      else .ok (some view)

def capCheck (person id : Int) : Except Refusal Unit :=
  if id=0∧CardDelete.personalCapFull db "screen" (some person) then
    refuse "limit" "you can have at most 200 personal screens"
  else .ok ()

/-- `my_screen_toggles`: New, Active and Closed over the listed type's status. -/
def toggles (listed : String) : Json :=
  let attr := if listed="comm" then "comm_status" else "status"
  let item (name label : String) (on : Bool) : Json := .obj [("name",.str name),
    ("label",.str label),
    ("predicate",.obj [("op",.str "has_phase"),("attr",.str attr),("values",.arr [.str name])]),
    ("default_on",.bool on)]
  .arr [.obj [("mode",.str "multi"),("name",.str "phase_scope"),
    ("items",.arr [item "triage" "New" false,item "active" "Active" true,
      item "terminal" "Closed" false]),("operator",.str "or")]]

/-- What a row that passed its checks writes. -/
structure Checked where
  id : Int
  person : Int
  title : Option String
  layout : Option String
  listed : Option String
  predicate : Option String
  sortOrder : Option Json
  defaultFilter : Option Int

def prepare (input : Input) : Except Refusal Checked := do
  let id ← screenId input
  let person ← ownerOf env db actor
  screenCheck db person id
  titleCheck id input
  let layout ← choice "layout" "list" "grid" id input.layout
  let listed ← choice "list_card_type" "task" "comm" id input.listCardType
  predicateCheck env db person input
  let sortOrder ← sortOf db person id input
  let view ← defaultOf db id input
  capCheck db person id
  let text (given : Option String) : Option String :=
    if id=0 then some (given.getD "") else given
  return ⟨id,person,(text input.title).map trimBlanks,layout,listed,text input.predicate,
    sortOrder,view⟩

/-- The values the row asks for, of the screen `id`. -/
def wanted (w : Checked) (id : Int) (curListed : Option String) : List (String×Json) :=
  (w.title.map fun t => ("title",Json.str t)).toList++
  (if w.id=0 then [("slug",Json.str ("my-"++toString id))] else [])++
  (w.layout.map fun l => ("layout",Json.str l)).toList++
  (w.listed.map fun l => ("list_card_type",Json.str l)).toList++
  ((w.listed.filter fun l => curListed≠some l).map fun l =>
    ("toggle_groups",Json.str (toggles l).text)).toList++
  (w.predicate.map fun p => ("predicate",Json.str p)).toList++
  (w.sortOrder.map fun n => ("sort_order",n)).toList++
  (w.defaultFilter.map fun v => ("default_filter",if v=0 then Json.null else .ofInt v)).toList

/-- The new screen, private to the person. -/
def create (screenType : Int) (person : Int) : Db :=
  (db.addCard ⟨db.nextCardId,screenType,none,some person,false,.triage⟩).log
    ⟨db.nextCardId,"card_create",none,none,none,actor⟩

/-- Only changed attributes are written, each with its activity. -/
def writeChanged (id : Int) (values : List (AttributeDef×Json)) : Db :=
  (values.filter fun a => !holds (db.value id a.1.id) a.2).foldl
    (fun db a => writeValue db actor id a.1.id (db.value id a.1.id) a.2) db

def resolved (values : List (String×Json)) : List (AttributeDef×Json) :=
  values.filterMap fun v => (db.attributeNamed v.1).map (·,v.2)

def listedNow (id : Int) : Option String :=
  ((db.attributeNamed "list_card_type").bind fun d => db.value id d.id).bind Json.unquoted

/-- The screen's type and its own attribute. -/
def screenType : Except Refusal CardType :=
  match db.cardTypes.find? (·.name="screen"),db.attributeNamed "list_card_type" with
  | some t,some _ => .ok t
  | _,_ => .error ⟨"P0001","my_screen.set: the list_card_type attribute is missing (migration 0028)"⟩

/-- One row. -/
def set (input : Input) : Except Refusal Db := do
  let t ← screenType db
  let w ← prepare env db actor input
  return if w.id=0 then
      let made := create db actor t.id w.person
      writeChanged made actor db.nextCardId (resolved made (wanted w db.nextCardId none))
    else writeChanged db actor w.id (resolved db (wanted w w.id (listedNow db w.id)))

variable {env : Env} {db : Db} {actor : Int} {input : Input}

theorem screenType_ok {t : CardType} (h : screenType db=.ok t) :
    t∈db.cardTypes∧t.name="screen" := by
  unfold screenType at h
  split at h
  · rename_i u _ hu _
    cases h
    exact ⟨List.mem_of_find?_eq_some hu,by simpa using List.find?_some hu⟩
  · cases h

theorem ownerOf_ok {person : Int} (h : ownerOf env db actor=.ok person) :
    accountPerson env.dir db actor=some person := by
  unfold ownerOf at h
  split at h
  · cases h
  · rename_i p hp
    cases h
    exact hp

theorem defaultOf_ok {id : Int} {view : Option Int} (h : defaultOf db id input=.ok view) :
    ∀ v, view=some v → v=0∨ownView db id v=true := by
  unfold defaultOf at h
  split at h
  · cases h
    simp
  · split at h
    · cases h
    · split at h
      · cases h
      · rename_i v _ hv
        cases h
        intro u hu
        cases hu
        by_cases h0 : v=0
        · exact .inl h0
        · refine .inr ?_
          simp only [ne_eq,h0,not_false_eq_true,true_and,not_or] at hv
          simpa using hv.2

/-- What a row that passed was checked for. -/
theorem prepare_ok {w : Checked} (h : prepare env db actor input=.ok w) :
    accountPerson env.dir db actor=some w.person∧
      (w.id=0∨ownScreen db w.person w.id=true)∧
      ∀ v, w.defaultFilter=some v → v=0∨ownView db w.id v=true := by
  unfold prepare at h
  obtain ⟨id,_,h⟩ := bind_ok h
  obtain ⟨person,hperson,h⟩ := bind_ok h
  obtain ⟨_,hscreen,h⟩ := bind_ok h
  obtain ⟨_,_,h⟩ := bind_ok h
  obtain ⟨layout,_,h⟩ := bind_ok h
  obtain ⟨listed,_,h⟩ := bind_ok h
  obtain ⟨_,_,h⟩ := bind_ok h
  obtain ⟨sortOrder,_,h⟩ := bind_ok h
  obtain ⟨view,hview,h⟩ := bind_ok h
  obtain ⟨_,_,h⟩ := bind_ok h
  cases h
  refine ⟨ownerOf_ok hperson,?_,defaultOf_ok hview⟩
  by_cases h0 : id=0
  · exact .inl h0
  · by_cases hown : ownScreen db person id
    · exact .inr hown
    · simp [screenCheck,h0,hown,refuse] at hscreen

theorem set_ok {db' : Db} (h : set env db actor input=.ok db') :
    ∃ t w, screenType db=.ok t∧prepare env db actor input=.ok w∧
      ((w.id=0∧db'=writeChanged (create db actor t.id w.person) actor db.nextCardId
        (resolved (create db actor t.id w.person) (wanted w db.nextCardId none)))∨
      (w.id≠0∧∃ listed, db'=writeChanged db actor w.id (resolved db (wanted w w.id listed)))) := by
  unfold set at h
  obtain ⟨t,ht,h⟩ := bind_ok h
  obtain ⟨w,hw,h⟩ := bind_ok h
  cases h
  refine ⟨t,w,ht,hw,?_⟩
  by_cases h0 : w.id=0
  · exact .inl ⟨h0,if_pos h0⟩
  · exact .inr ⟨h0,_,if_neg h0⟩

end Kitp.MyScreens
