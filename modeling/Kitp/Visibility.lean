import Kitp.Accounts

/-! Who sees a card: `card_visible_to`, the row condition `VisibilityClause` builds, and
`card_in_off_area`. -/
namespace Kitp.Visibility
open Kitp.Store Kitp.Accounts Forest

inductive AreaScope where
  | project
  | workspace
  deriving DecidableEq

structure Area where
  key : String
  scope : AreaScope
  cardTypes : List String

/-- A project's switch for an area; no row is on. -/
structure ProjectArea where
  projectId : Int
  areaKey : String
  state : String

structure WorkspaceArea where
  areaKey : String
  state : String

structure Areas where
  areas : List Area
  projectAreas : List ProjectArea
  workspaceAreas : List WorkspaceArea

def Areas.anyOff (areas : Areas) : Bool :=
  areas.projectAreas.any (·.state="off")||areas.workspaceAreas.any (·.state="off")

variable (db : Db) (areas : Areas) (dir : Directory)

/-- A message has no parent card of its own. -/
def isMessage (cardId : Int) : Bool :=
  (db.card cardId).any fun c => db.cardTypeName c=some "reply_body"

/-- The threads whose `replies` list the card. -/
def threads (cardId : Int) : List Int :=
  (db.attributeNamed "replies").elim [] fun d =>
    (db.values.filter fun v => v.attributeDefId=d.id∧namesCard .cardRefs v.value cardId).map
      (·.cardId)

/-- `ORDER BY rv.card_id LIMIT 1`. -/
def firstThread (cardId : Int) : Option Int := (threads db cardId).min?

/-- The recursive walk, from a row at depth `17-n`. -/
def upRows (n : Nat) (start : Int) : List Card := (db.card start).elim [] (walk db.parentCard n)

def projectsOf (rows : List Card) : List Int :=
  (rows.filter (db.cardTypeName ·=some "project")).map (·.id)

/-- A row's type belongs to an area that is off, for the workspace or in a project of the
rows. -/
def rowsOff (rows : List Card) : Bool :=
  rows.any fun x => areas.areas.any fun a => (db.cardTypeName x).any (· ∈ a.cardTypes)&&
    ((a.scope=.workspace&&areas.workspaceAreas.any fun w => w.areaKey=a.key∧w.state="off")||
      (a.scope=.project&&areas.projectAreas.any fun p =>
        p.areaKey=a.key∧p.state="off"∧p.projectId∈projectsOf db rows))

/-- The rows a role of the viewer reaches, nothing in them switched off. -/
def rowsVisible (viewer : Int) (rows : List Card) : Bool :=
  (userRoleVisible dir viewer).any fun ur =>
    ur.scopeCardId.all (· ∈ projectsOf db rows)&&(!areas.anyOff||!rowsOff db areas rows)

def cardInOffArea (cardId : Int) : Bool :=
  areas.anyOff&&
    if isMessage db cardId then
      (firstThread db cardId).any fun start => rowsOff db areas (upRows db 17 start)
    else rowsOff db areas (upRows db 17 cardId)

/-- Where `card_visible_to` starts its walk. -/
def start (cardId : Int) : Int :=
  if isMessage db cardId then (firstThread db cardId).getD cardId else cardId

def cardVisibleTo (viewer cardId : Int) : Bool :=
  match (db.card cardId).bind (·.privateTo) with
  | some person => accountPerson dir db viewer=some person
  | none => rowsVisible db areas dir viewer (upRows db 17 (start db cardId))

/-- The clause's walk: the card's own rows, and for a message those of every thread that
lists it, one step further on. -/
def clauseRows (cardId : Int) : List Card :=
  upRows db 17 cardId++
    if isMessage db cardId then (threads db cardId).flatMap (upRows db 16) else []

/-- Something in the rows is switched off. -/
def hidden (rows : List Card) : Bool := areas.anyOff&&rowsOff db areas rows

/-- No set of roles tells the rows apart. -/
def Alike (rows rows' : List Card) : Prop :=
  hidden db areas rows=hidden db areas rows'∧
    (hidden db areas rows=false → ∀ p, p∈projectsOf db rows↔p∈projectsOf db rows')

variable {db areas dir} {rows rows' : List Card} {viewer cardId : Int}

theorem rowsVisible_iff : rowsVisible db areas dir viewer rows=true↔
    hidden db areas rows=false∧∃ ur∈userRoleVisible dir viewer,
      ∀ p, ur.scopeCardId=some p → p∈projectsOf db rows := by
  have hoff : (!areas.anyOff||!rowsOff db areas rows)=!hidden db areas rows := by
    simp [hidden,Bool.not_and]
  have hscope : ∀ ur : UserRole, ur.scopeCardId.all (· ∈ projectsOf db rows)=true↔
      ∀ p, ur.scopeCardId=some p → p∈projectsOf db rows := by
    intro ur
    cases ur.scopeCardId <;> simp
  simp only [rowsVisible,hoff,List.any_eq_true,Bool.and_eq_true,Bool.not_eq_true',hscope]
  constructor
  · intro h
    obtain ⟨ur,hur,hp,hh⟩ := h
    exact ⟨hh,ur,hur,hp⟩
  · intro h
    obtain ⟨hh,ur,hur,hp⟩ := h
    exact ⟨ur,hur,hp,hh⟩

/-- When the clause and the function agree on a card for every viewer, and both hide it
where its area is off: a private card stays out of such areas, and for every other card
the rows of the two walks are alike. -/
structure Agrees (db : Db) (areas : Areas) (cardId : Int) : Prop where
  ownedOn : ∀ person, (db.card cardId).bind (·.privateTo)=some person →
    db.live person=true → cardInOffArea db areas cardId=false
  sharedAlike : (db.card cardId).bind (·.privateTo)=none →
    Alike db areas (clauseRows db cardId) (upRows db 17 (start db cardId))

theorem upRows_succ {n : Nat} {t : Int} (h : (upRows db (n+1) t).length ≤ n) :
    upRows db (n+1) t=upRows db n t := by
  cases ht : db.card t with
  | none => simp [upRows,ht]
  | some c =>
    have hwalk : walk db.parentCard (n+1) c=walk db.parentCard n c := by
      apply walk_succ
      simpa [upRows,ht] using h
    simpa [upRows,ht] using hwalk

theorem alike_of_not_message (h : isMessage db cardId=false) :
    Alike db areas (clauseRows db cardId) (upRows db 17 (start db cardId)) := by
  simp [Alike,clauseRows,start,h]

/-- A row of a type in no area that is no project changes neither. -/
theorem alike_cons {c : Card} (hproject : db.cardTypeName c≠some "project")
    (harea : ∀ a∈areas.areas, ∀ t, db.cardTypeName c=some t → t∉a.cardTypes) :
    Alike db areas (c::rows) rows := by
  have hprojects : projectsOf db (c::rows)=projectsOf db rows := by
    simp [projectsOf,hproject]
  have hrow : ∀ a∈areas.areas, (db.cardTypeName c).any (· ∈ a.cardTypes)=false := by
    intro a ha
    cases ht : db.cardTypeName c with
    | none => rfl
    | some t => simpa using harea a ha t ht
  have hoff : rowsOff db areas (c::rows)=rowsOff db areas rows := by
    simp only [rowsOff,List.any_cons,hprojects,Bool.or_eq_right_iff_imp]
    intro h
    obtain ⟨a,ha,h⟩ := List.any_eq_true.mp h
    simp [hrow a ha] at h
  refine ⟨by rw [hidden,hidden,hoff],fun _ p => ?_⟩
  rw [hprojects]

/-- The walks of a message agree when one thread lists it, it has no parent, no area holds
messages and the thread is not 17 deep. -/
theorem alike_of_thread {c : Card} {t : Int} (hc : db.card cardId=some c)
    (hm : db.cardTypeName c=some "reply_body") (hparent : c.parentCardId=none)
    (harea : ∀ a∈areas.areas, "reply_body"∉a.cardTypes) (ht : threads db cardId=[t])
    (hdeep : (upRows db 17 t).length ≤ 16) :
    Alike db areas (clauseRows db cardId) (upRows db 17 (start db cardId)) := by
  have hmessage : isMessage db cardId=true := by simp [isMessage,hc,hm]
  have hstart : start db cardId=t := by simp [start,hmessage,firstThread,ht]
  have hown : upRows db 17 cardId=[c] := by simp [upRows,hc,walk,Db.parentCard,hparent]
  have hrows : clauseRows db cardId=c::upRows db 17 t := by
    simp [clauseRows,hmessage,ht,hown,upRows_succ hdeep]
  rw [hrows,hstart]
  apply alike_cons
  · simp [hm]
  · intro a ha name hname
    have hn : "reply_body"=name := Option.some.inj (hm.symm.trans hname)
    exact hn ▸ harea a ha

def tasksOff : Areas where
  areas := [⟨"tasks",.project,["task","link"]⟩,⟨"conversations",.project,["comm","comm_channel"]⟩]
  projectAreas := [⟨1,"tasks","off"⟩]
  workspaceAreas := []

end Kitp.Visibility
