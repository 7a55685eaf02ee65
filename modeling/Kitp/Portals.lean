import Kitp.Attributes
import Kitp.Lib.Steps

/-! The portals: what each shows of a page, the marks its builder reads, and `portal_set_batch`. -/
namespace Kitp.Portals
open Kitp.Store Kitp.Attributes Kitp.Steps

/-- A page as a portal shows it. -/
structure Snapshot (δ : Type) where
  parentCardId : Option Int
  title : String
  slug : String
  sortOrder : δ
  body : String
  navHidden : Bool
  navHideChildren : Bool
  /-- The place of the page's newest activity in the log. -/
  revision : Option Nat
  publishedAt : Int
  publishedBy : Int

/-- A row of `publication`. -/
structure Publication (δ : Type) where
  portalId : Int
  cardId : Int
  page : Snapshot δ

structure Site (δ : Type) where
  db : Db
  publications : List (Publication δ)
  /-- Every mark a portal was given, the newest last. -/
  marks : List Int

/-- What is not in the store: the switch of the sites area, `lower` and the cast to
`double precision`. -/
structure Env (δ : Type) where
  sitesOff : Db → Bool
  lower : String → String
  double : Json.Number → δ

variable {δ : Type}

/-- The row of a portal and a page. -/
def Site.shown (s : Site δ) (portal page : Int) : Option (Snapshot δ) :=
  (s.publications.find? fun p => p.portalId=portal∧p.cardId=page).map (·.page)

/-- `portal_mark_dirty`. -/
def Site.markDirty (s : Site δ) (portal : Int) : Site δ := { s with marks := s.marks++[portal] }

/-- The card's value of an attribute named by its name. -/
def valueOf (db : Db) (name : String) (cardId : Int) : Option Json :=
  (db.attributeNamed name).bind fun d => db.value cardId d.id

/-- A live card of the named type. -/
def isLive (db : Db) (typeName : String) (id : Int) : Bool :=
  (db.card id).any fun c => !c.deleted∧db.cardTypeName c=some typeName

/-- `theme_mark_portals_dirty`. -/
def themeMarkPortalsDirty (s : Site δ) (theme : Int) : Site δ :=
  ((s.db.cards.filter fun p => isLive s.db "portal" p.id∧
    (valueOf s.db "portal_theme" p.id).any fun v =>
      namesCard .cardRef v theme||v=.str (toString theme)).map (·.id)).foldl Site.markDirty s

/-- One element of `inputs`, its ids cast. -/
structure Input where
  id : Int
  title : Option String
  host : Option String
  root : Option Int
  isPublic : Option Bool
  theme : Option Int
  internal : Option Bool

/-- `'^[a-z0-9]([a-z0-9-]*[a-z0-9])?(\.[a-z0-9]([a-z0-9-]*[a-z0-9])?)*$'`. -/
def hostOk (host : String) : Bool :=
  (host.toList.splitOn '.').all fun label => label≠[]∧label.head?≠some '-'∧
    label.getLast?≠some '-'∧label.all fun c => c.isLower||c.isDigit||c = '-'

/-- The card type and the attributes a portal is made of. -/
structure Defs where
  portal : CardType
  title : AttributeDef
  host : AttributeDef
  root : AttributeDef
  isPublic : AttributeDef
  theme : AttributeDef
  internal : AttributeDef

def defs (db : Db) : Except Refusal Defs :=
  match db.cardTypes.find? (·.name="portal"),db.attributeNamed "title",
    db.attributeNamed "portal_host",db.attributeNamed "portal_root",
    db.attributeNamed "portal_public",db.attributeNamed "portal_theme",
    db.attributeNamed "portal_internal" with
  | some p,some t,some h,some r,some u,some m,some i => .ok ⟨p,t,h,r,u,m,i⟩
  | _,_,_,_,_,_,_ =>
    .error ⟨"P0001","portal.set: portal card_type or its attribute_defs are missing"⟩

def refuse (code message : String) : Except Refusal Unit := .error ⟨code,"portal.set: "++message⟩

def shapeCheck (input : Input) : Except Refusal Unit :=
  let host := input.host.getD ""
  if input.title=some "" then refuse "validation" "title can't be blank"
  else if input.id=0∧input.title=none then refuse "validation" "a new portal needs a title"
  else if host≠""∧(253<host.length∨!hostOk host) then
    refuse "validation" (quoteLiteral host++
      " is not a host name (letters, digits, dots and dashes; no scheme, port or path)")
  else .ok ()

variable (db : Db)

def portalCheck (id : Int) : Except Refusal Unit :=
  if id≠0∧!isLive db "portal" id then refuse "portal_not_found" s!"portal {id} not found"
  else .ok ()

def inTemplate (root : Int) : Bool :=
  (cardEnclosingProject db root).any fun p => valueOf db "is_template" p=some (.bool true)

def rootCheck (root : Int) : Except Refusal Unit :=
  if root=0 then .ok ()
  else if !isLive db "page" root then refuse "validation" s!"card {root} is not a page"
  else if inTemplate db root then
    refuse "root_in_template" s!"page {root} belongs to a template, not a live project"
  else .ok ()

def themeCheck (theme : Int) : Except Refusal Unit :=
  if theme≠0∧!isLive db "theme" theme then
    refuse "theme_not_found" s!"card {theme} is not a theme"
  else .ok ()

/-- One host, one site. -/
def hostCheck (d : Defs) (id : Int) (host : String) : Except Refusal Unit :=
  if host≠""∧db.cards.any fun c => c.cardTypeId=d.portal.id∧!c.deleted∧c.id≠id∧
      db.value c.id d.host.id=some (.str host) then
    refuse "host_taken" ("another portal already serves "++quoteLiteral host)
  else .ok ()

/-- The number of a card, or null for 0. -/
def cardValue (id : Int) : Json := if id=0 then .null else .ofInt id

/-- What the call asks the portal to hold. -/
def wanted (d : Defs) (input : Input) : List (Int×Json) :=
  (input.title.map fun t => (d.title.id,Json.str t)).toList++
  (input.host.map fun h => (d.host.id,Json.str h)).toList++
  (input.root.map fun r => (d.root.id,cardValue r)).toList++
  (input.isPublic.map fun b => (d.isPublic.id,Json.bool b)).toList++
  (input.theme.map fun m => (d.theme.id,cardValue m)).toList++
  (input.internal.map fun b => (d.internal.id,Json.bool b)).toList

/-- The value is held already, or is a blank where there is none. -/
def unchanged (stored : Option Json) (v : Json) : Bool :=
  holds stored v||stored=none&&(v=.null||v=.str "")

/-- The insert of a new portal, which is neither public nor shown in kitp unless it says so. -/
def create (d : Defs) (actor : Int) (input : Input) : Db×Input :=
  if input.id=0 then
    ((db.addCard ⟨db.nextCardId,d.portal.id,none,none,false,.triage⟩).log
      ⟨db.nextCardId,"card_create",none,none,none,actor⟩,
      { input with
        id := db.nextCardId
        isPublic := some (input.isPublic.getD false)
        internal := some (input.internal.getD false) })
  else (db,input)

/-- The changed attributes, each with its activity. -/
def writeWanted (d : Defs) (actor : Int) (input : Input) : Db :=
  ((wanted d input).filter fun w => !unchanged (db.value input.id w.1) w.2).foldl
    (fun db w => writeValue db actor input.id w.1 (db.value input.id w.1) w.2) db

def changes (d : Defs) (input : Input) : Bool :=
  (wanted d input).any fun w => !unchanged (db.value input.id w.1) w.2

def areaCheck (env : Env δ) : Except Refusal Unit :=
  if env.sitesOff db then refuse "area_off" "Sites is switched off for this workspace" else .ok ()

def checks (env : Env δ) (input : Input) : Except Refusal Defs := do
  let d ← defs db
  areaCheck db env
  shapeCheck input
  portalCheck db input.id
  rootCheck db (input.root.getD 0)
  themeCheck db (input.theme.getD 0)
  hostCheck db d input.id (input.host.getD "")
  return d

/-- A title and a host without blanks around them, the host in lower case. -/
def trimmed (env : Env δ) (input : Input) : Input :=
  { input with
    title := input.title.map trimBlanks
    host := input.host.map fun h => env.lower (trimBlanks h) }

/-- `portal.set`: one row. -/
def portalSet (env : Env δ) (s : Site δ) (actor : Int) (input : Input) :
    Except Refusal (Site δ) := do
  let input := trimmed env input
  let d ← checks s.db env input
  let made := create s.db d actor input
  let written := { s with db := writeWanted made.1 d actor made.2 }
  return if input.id=0∨changes made.1 d made.2 then written.markDirty made.2.id else written

theorem portalSet_ok {env : Env δ} {s t : Site δ} {actor : Int} {input : Input}
    (h : portalSet env s actor input=.ok t) : t.publications=s.publications∧
      ∃ d input', t.db=writeWanted (create s.db d actor input').1 d actor
        (create s.db d actor input').2 := by
  unfold portalSet at h
  obtain ⟨d,hd,h⟩ := bind_ok h
  cases h
  split
  · exact ⟨rfl,d,_,rfl⟩
  · exact ⟨rfl,d,_,rfl⟩

end Kitp.Portals
