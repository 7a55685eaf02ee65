import Kitp.Attributes
import Kitp.Lib.Steps
import Mathlib.Data.List.MinMax

/-! `link_set_batch`: one row. -/
namespace Kitp.LinkSet
open Kitp.Store Kitp.Attributes Kitp.Steps

/-- The lower case and the blanks of the database's locale. -/
structure Locale where
  lower : String → String
  isSpace : Char → Bool

/-- One element of `inputs`; an absent field and a null read alike. -/
structure Input where
  taskId : Option Int
  url : Option String
  title : Option String
  kind : Option String
  state : Option String

/-- The variables of the loop body. -/
structure Request where
  task : Int
  url : String
  title : Option String
  kind : Option String
  state : Option String

/-- The rows the call looks up by name. -/
structure Defs where
  link : CardType
  title : AttributeDef
  url : AttributeDef
  kind : AttributeDef
  state : AttributeDef

structure Answer where
  linkId : Int
  created : Bool
  changed : Bool
  deriving DecidableEq

variable (loc : Locale)

/-- `'^https?://[^[:space:]]+$'`, in either case. -/
def absolute (url : String) : Bool :=
  let after (scheme : String) : Option (List Char) :=
    let n := scheme.toList.length
    if (url.toList.take n).map Char.toLower=scheme.toList then some (url.toList.drop n) else none
  ((after "http://").or (after "https://")).any fun cs => !cs.isEmpty&&cs.all (!loc.isSpace ·)

/-- `'^[a-z][a-z0-9_-]{0,31}$'`. -/
def slug (s : String) : Bool :=
  match s.toList with
  | [] => false
  | c::cs => c.isLower&&decide (cs.length ≤ 31)&&
      cs.all fun c => c.isLower||c.isDigit||c = '_'||c = '-'

def slugCheck (field s : String) : Except Refusal Unit :=
  if s≠""∧!slug s then
    .error ⟨"validation","link.set: "++field++
      " must be a short slug (letters, digits, - or _; at most 32)"⟩
  else .ok ()

def urlOf (input : Input) : Except Refusal String :=
  let url := trimBlanks (input.url.getD "")
  if url="" then .error ⟨"validation","link.set: url is required"⟩
  else if 2048<url.length∨!absolute loc url then
    .error ⟨"validation",
      "link.set: url must be an absolute http(s) URL of at most 2048 characters"⟩
  else .ok url

def titleOf (input : Input) : Except Refusal (Option String) :=
  let title := trimBlanks (input.title.getD "")
  if 500<title.length then
    .error ⟨"validation","link.set: title must be at most 500 characters"⟩
  else .ok (input.title.bind fun _ => if title="" then none else some title)

/-- A kind or a state that is given. -/
def slugOf (s : Option String) : Option String := s.map fun s => loc.lower (trimBlanks s)

def taskOf (input : Input) : Except Refusal Int :=
  match input.taskId.filter (·≠0) with
  | none => .error ⟨"validation","link.set: task_id is required"⟩
  | some task => .ok task

def validate (input : Input) : Except Refusal Request := do
  let task ← taskOf input
  let url ← urlOf loc input
  let title ← titleOf input
  slugCheck "kind" ((slugOf loc input.kind).getD "")
  slugCheck "state" ((slugOf loc input.state).getD "")
  return ⟨task,url,title,slugOf loc input.kind,slugOf loc input.state⟩

variable (db : Db) (actor : Int)

/-- The whole call fails where one of them isn't seeded. -/
def defs : Except Refusal Defs :=
  match db.cardTypes.find? (·.name="link") with
  | none => .error ⟨"P0001","link.set: card_type link missing"⟩
  | some link =>
    match db.attributeNamed "title",db.attributeNamed "link_url",db.attributeNamed "link_kind",
      db.attributeNamed "link_state" with
    | some title,some url,some kind,some state => .ok ⟨link,title,url,kind,state⟩
    | _,_,_,_ => .error ⟨"P0001","link.set: one of the link attribute_defs is missing"⟩

/-- The target is a live task. -/
def taskCheck (task : Int) : Except Refusal Unit :=
  match ((db.card task).filter (!·.deleted)).bind db.cardTypeName with
  | none => .error ⟨"task_not_found",s!"link.set: task {task} not found"⟩
  | some t =>
    if t≠"task" then
      .error ⟨"wrong_card_type",s!"link.set: card {task} is "++quoteLiteral t++", not a task"⟩
    else .ok ()

/-- The live link of the task with the url, the oldest where there are several. -/
def linkOf (d : Defs) (r : Request) : Option Int :=
  ((db.cards.filter fun c => c.parentCardId=some r.task∧c.cardTypeId=d.link.id∧!c.deleted∧
    db.value c.id d.url.id=some (.str r.url)).map (·.id)).min?

/-- What the row is to store, in order. -/
def want (d : Defs) (r : Request) (created : Bool) : List (AttributeDef×String) :=
  (if r.title.isSome||created then [(d.title,r.title.getD r.url)] else [])++
  (if created then [(d.url,r.url)] else [])++
  (r.kind.map (d.kind,·)).toList++(r.state.map (d.state,·)).toList

/-- A blank one that the link never had is no change. -/
def differs (link : Int) (w : AttributeDef×String) : Bool :=
  db.value link w.1.id≠some (.str w.2)&&!((db.value link w.1.id).isNone&&w.2="")

def changed (link : Int) (ws : List (AttributeDef×String)) : List (AttributeDef×String) :=
  ws.filter (differs db link)

/-- The changed values, each with its activity. -/
def write (link : Int) (ws : List (AttributeDef×String)) : Db :=
  (changed db link ws).foldl (fun s w =>
    writeValue s actor link w.1.id (db.value link w.1.id) (.str w.2)) db

/-- A link that the task doesn't have yet. -/
def create (d : Defs) (r : Request) : Db :=
  (db.addCard ⟨db.nextCardId,d.link.id,some r.task,none,false,.triage⟩).log
    ⟨db.nextCardId,"card_create",none,none,none,actor⟩

/-- One row. -/
def set (input : Input) : Except Refusal (Db×Answer) := do
  let d ← defs db
  let r ← validate loc input
  taskCheck db r.task
  return match linkOf db d r with
    | some link => (write db actor link (want d r false),
        ⟨link,false,!(changed db link (want d r false)).isEmpty⟩)
    | none => (write (create db actor d r) actor db.nextCardId (want d r true),
        ⟨db.nextCardId,true,true⟩)

end Kitp.LinkSet
