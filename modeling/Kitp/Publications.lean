import Kitp.Portals
import Kitp.AttributeUpdate
import Kitp.Lib.Runs

/-! What the portals show of a page: `publication_sync`, the hook `attribute.update` calls after
a write, and the rows over any history of writes. -/
namespace Kitp.Publications
open Kitp.Store Kitp.Portals Kitp.Attributes Kitp.Steps Kitp.Runs

variable {δ : Type}

/-- The card a text of digits alone names: `'^\d+$'`. -/
def digitsId (v : Json) : Option Int :=
  v.unquoted.bind fun s => (idText s).filter fun _ => s.toList.head?≠some '-'

/-- The page's status: a number, or a string of digits. -/
def statusId (db : Db) (page : Int) : Option Int :=
  (valueOf db "publish_status" page).bind fun v =>
    match v with
    | .num n => n.whole
    | .str s => digitsId (.str s)
    | _ => none

/-- The portal's root is a card of the page's own project. -/
def rootedWith (db : Db) (portal page : Int) : Bool :=
  (valueOf db "portal_root" portal).any fun v =>
    match v with
    | .num n => n.whole.any fun root => cardEnclosingProject db root=cardEnclosingProject db page
    | _ => false

/-- The cards a status's `publishes_to` names. -/
def named (db : Db) (status : Int) : List Int :=
  match valueOf db "publishes_to" status with
  | some (.arr xs) => xs.filterMap digitsId
  | _ => []

/-- `_targets`. -/
def targets (db : Db) (status page : Int) : List Int :=
  ((named db status).filter fun p => isLive db "portal" p∧rootedWith db p page).insertionSort
    (· ≤ ·)

/-- The text of a value, empty when there is none. -/
def textOf (db : Db) (name : String) (page : Int) : String :=
  ((valueOf db name page).bind Json.unquoted).getD ""

def numberOf (db : Db) (name : String) (page : Int) : Json.Number :=
  match valueOf db name page with
  | some (.num n) => n
  | _ => .ofInt 0

/-- The place of the card's newest activity. -/
def newestActivity (db : Db) (cardId : Int) : Option Nat :=
  ((db.activity.zipIdx.filter (·.1.cardId=cardId)).getLast?).map (·.2)

/-- The page as it is now. -/
def snapshot (env : Env δ) (db : Db) (page actor now : Int) : Snapshot δ where
  parentCardId := (db.card page).bind (·.parentCardId)
  title := textOf db "title" page
  slug := textOf db "slug" page
  sortOrder := env.double (numberOf db "sort_order" page)
  body := textOf db "description" page
  navHidden := valueOf db "nav_hidden" page=some (.bool true)
  navHideChildren := valueOf db "nav_hide_children" page=some (.bool true)
  revision := newestActivity db page
  publishedAt := now
  publishedBy := actor

/-- The page's rows on these portals go, and each portal is marked. -/
def withdraw (s : Site δ) (page : Int) (gone : Int → Bool) : Site δ :=
  { s with
    publications := s.publications.filter fun p => !(p.cardId=page&&gone p.portalId)
    marks := s.marks++
      (s.publications.filter fun p => p.cardId=page&&gone p.portalId).map (·.portalId) }

/-- The upsert of `publication`. -/
def put (row : Publication δ) : List (Publication δ) → List (Publication δ)
  | [] => [row]
  | p::rows =>
    if p.portalId=row.portalId∧p.cardId=row.cardId then row::rows else p::put row rows

def publish (page : Int) (shown : Snapshot δ) (s : Site δ) (portal : Int) : Site δ :=
  { s with publications := put ⟨portal,page,shown⟩ s.publications }.markDirty portal

/-- `publication_sync`. -/
def sync (env : Env δ) (s : Site δ) (page actor now : Int) : Site δ :=
  match statusId s.db page with
  | none => s
  | some status =>
    let phase := (s.db.card status).map (·.phase)
    if phase=some .terminal then withdraw s page fun _ => true
    else
      let portals := targets s.db status page
      let kept := if phase=some .triage then withdraw s page (·∉portals) else s
      portals.foldl (publish page (snapshot env s.db page actor now)) kept

/-- `publication_after_write`. -/
def afterWrite (env : Env δ) (s : Site δ) (cardId : Int) (attrName : String) (actor now : Int) :
    Site δ :=
  match (s.db.card cardId).bind s.db.cardTypeName with
  | none => s
  | some t =>
    if t="page"∧attrName="publish_status" then sync env s cardId actor now
    else if t="portal" then s.markDirty cardId
    else if t="theme" then themeMarkPortalsDirty s cardId
    else s

/-- What the checks of `attribute.update` ask. -/
structure Gate where
  acc : Access
  dir : Accounts.Directory
  pick : List FlowStep → Option FlowStep

/-- `attribute.update`: one row and the hook after it. -/
def attributeUpdate (env : Env δ) (gate : Gate) (s : Site δ) (actor now : Int)
    (input : AttributeUpdate.Input) : Except FlowGate.FlowRefusal (Site δ) := do
  let (cardId,attrName) ← (AttributeUpdate.required input).mapError (⟨·,none⟩)
  let db ← AttributeUpdate.update gate.acc gate.dir gate.pick s.db actor input
  return afterWrite env { s with db } cardId attrName actor now

def phaseNamed (phase : String) : Option CardPhase :=
  match phase with
  | "triage" => some .triage
  | "active" => some .active
  | "terminal" => some .terminal
  | _ => none

def phaseText : CardPhase → String
  | .triage => "triage"
  | .active => "active"
  | .terminal => "terminal"

/-- `card.set_phase`: one row. -/
def setPhase (db : Db) (actor : Int) (cardId : Option Int) (phase : String) : Except Refusal Db :=
  match cardId.filter (·≠0),phaseNamed phase with
  | none,_ => .error ⟨"validation","card.set_phase: card_id is required"⟩
  | some _,none => .error ⟨"validation","card.set_phase: phase "++quoteLiteral phase++
      ": must be triage|active|terminal"⟩
  | some id,some new =>
    match (db.card id).filter (!·.deleted) with
    | none => .error ⟨"card_not_found",s!"card.set_phase: card {id} not found"⟩
    | some c => .ok ((db.mapCards fun d => if d.id=id then { d with phase := new } else d).log
        ⟨id,"card_set_phase",none,some (.str (phaseText c.phase)),some (.str phase),actor⟩)

/-- A call that writes pages, statuses or portals. -/
inductive Event where
  | attributeUpdate (actor now : Int) (input : AttributeUpdate.Input)
  | setPhase (actor : Int) (cardId : Option Int) (phase : String)
  | portalSet (actor : Int) (input : Portals.Input)

/-- A call that is not refused. -/
def step (env : Env δ) (gate : Gate) (s : Site δ) : Event → Option (Site δ)
  | .attributeUpdate actor now input => (attributeUpdate env gate s actor now input).toOption
  | .setPhase actor cardId phase =>
    (setPhase s.db actor cardId phase).toOption.map fun db => { s with db }
  | .portalSet actor input => (portalSet env s actor input).toOption

/-- The status names the portal, which is live and has its root in the page's project. -/
def Publishes (db : Db) (status page portal : Int) : Prop :=
  portal∈named db status∧isLive db "portal" portal∧rootedWith db portal page

instance (db : Db) (status page portal : Int) : Decidable (Publishes db status page portal) :=
  inferInstanceAs (Decidable (_∧_))

/-- The status the page is in, none when it was cleared. -/
def entered (db : Db) (page : Int) : Option Card := (statusId db page).bind db.card

/-- What a portal is to show of a page that was given a status. -/
def due (env : Env δ) (s : Site δ) (db : Db) (page actor now portal : Int) :
    Option (Snapshot δ) :=
  match entered db page with
  | none => none
  | some status =>
    if status.phase=.terminal then none
    else if Publishes db status.id page portal then some (snapshot env db page actor now)
    else if status.phase=.active then s.shown portal page
    else none

/-- The portals show what the page's status says, and whoever shows another thing of it than
before was marked. -/
structure Follows (env : Env δ) (s t : Site δ) (page actor now : Int) : Prop where
  rows : ∀ portal, t.shown portal page=due env s t.db page actor now portal
  others : ∀ portal other, other≠page → t.shown portal other=s.shown portal other
  marked : ∃ marks, t.marks=s.marks++marks∧
    ∀ portal, t.shown portal page≠s.shown portal page → portal∈marks

section Rows
variable {env : Env δ} {s : Site δ} {page actor now : Int}

theorem find_put (row : Publication δ) (portal other : Int) (rows : List (Publication δ)) :
    (put row rows).find? (fun p => p.portalId=portal∧p.cardId=other)=
      if row.portalId=portal∧row.cardId=other then some row
      else rows.find? fun p => p.portalId=portal∧p.cardId=other := by
  induction rows with
  | nil => simp [put]
  | cons p rows ih =>
    by_cases hp : p.portalId=row.portalId∧p.cardId=row.cardId
    · by_cases hrow : row.portalId=portal∧row.cardId=other
      · simp [put,hp,hrow]
      · simp [put,hp,hrow]
    · by_cases hrow : row.portalId=portal∧row.cardId=other
      · have hne : ¬(p.portalId=portal∧p.cardId=other) := by
          rw [←hrow.1,←hrow.2]
          exact hp
        rw [put,if_neg hp,List.find?_cons_of_neg (by simpa using hne),ih,if_pos hrow,if_pos hrow]
      · rw [put,if_neg hp,List.find?_cons,List.find?_cons,ih,if_neg hrow,if_neg hrow]

theorem publish_shown (shown : Snapshot δ) (p portal other : Int) :
    (publish page shown s p).shown portal other=
      if p=portal∧page=other then some shown else s.shown portal other := by
  simp only [Site.shown,publish,Site.markDirty,find_put]
  split
  · rfl
  · rfl

/-- Every portal of the list gets the snapshot and a mark. -/
theorem publish_all (page : Int) (shown : Snapshot δ) (portals : List Int) (s : Site δ) :
    (portals.foldl (publish page shown) s).db=s.db∧
    (portals.foldl (publish page shown) s).marks=s.marks++portals∧
    ∀ portal other, (portals.foldl (publish page shown) s).shown portal other=
      if portal∈portals∧page=other then some shown else s.shown portal other := by
  induction portals generalizing s with
  | nil => simp
  | cons p portals ih =>
    obtain ⟨hdb,hmarks,hshown⟩ := ih (publish page shown s p)
    refine ⟨hdb,?_,?_⟩
    · rw [List.foldl_cons,hmarks]
      simp [publish,Site.markDirty]
    · intro portal other
      rw [List.foldl_cons,hshown,publish_shown]
      by_cases hpage : page=other
      · by_cases hp : p=portal
        · simp [hpage,hp]
        · simp [hpage,hp,Ne.symm hp]
      · simp [hpage]

theorem withdraw_shown (gone : Int → Bool) (portal other : Int) :
    (withdraw s page gone).shown portal other=
      if other=page∧gone portal then none else s.shown portal other := by
  simp only [Site.shown,withdraw,List.find?_filter]
  by_cases hgone : other=page∧gone portal
  · rw [if_pos hgone,Option.map_eq_none_iff,List.find?_eq_none]
    intro p _ hp
    simp only [Bool.not_eq_true',decide_eq_true_eq] at hp
    rw [hp.2.1,hp.2.2,hgone.1,hgone.2] at hp
    simp at hp
  · rw [if_neg hgone]
    congr 2
    funext p
    by_cases hp : p.portalId=portal∧p.cardId=other
    · by_cases hother : other=page
      · have hstays : gone portal=false := by simpa [hother] using hgone
        simp [hp.1,hp.2,hother,hstays]
      · simp [hp.1,hp.2,hother]
    · simp [hp]

/-- Whoever loses the page's row is marked. -/
theorem withdraw_marked (gone : Int → Bool) : ∃ marks, (withdraw s page gone).marks=s.marks++marks∧
    ∀ portal, (withdraw s page gone).shown portal page≠s.shown portal page → portal∈marks := by
  refine ⟨_,rfl,?_⟩
  intro portal hne
  rw [withdraw_shown] at hne
  split at hne
  · rename_i hgone
    have hrow : ∃ p∈s.publications, p.portalId=portal∧p.cardId=page := by
      simpa [Site.shown] using hne
    obtain ⟨p,hp,hportal,hpage⟩ := hrow
    simp only [List.mem_map,List.mem_filter]
    exact ⟨p,⟨hp,by simp [hportal,hpage,hgone.2]⟩,hportal⟩
  · exact absurd rfl hne

theorem mem_targets {db : Db} {status portal : Int} :
    portal∈targets db status page↔Publishes db status page portal := by
  simp [targets,Publishes]

/-- A page that enters a status is shown as the status says. -/
theorem sync_follows (env : Env δ) (actor now : Int) {status : Card}
    (hentered : entered s.db page=some status) :
    Follows env s (sync env s page actor now) page actor now := by
  obtain ⟨id,hid,hcard⟩ := Option.bind_eq_some_iff.mp hentered
  have hstatus : status.id=id := card_id hcard
  by_cases hterminal : status.phase=.terminal
  · have hsync : sync env s page actor now=withdraw s page fun _ => true := by
      simp [sync,hid,hcard,hterminal]
    rw [hsync]
    refine ⟨?_,?_,withdraw_marked _⟩
    · intro portal
      have hdue : due env s s.db page actor now portal=none := by simp [due,hentered,hterminal]
      rw [withdraw_shown,if_pos ⟨rfl,rfl⟩]
      exact hdue.symm
    · intro portal other hother
      rw [withdraw_shown,if_neg (by simp [hother])]
  · -- what stays before the snapshots are put
    have hkept : ∃ kept : Site δ, kept.db=s.db∧
        sync env s page actor now=(targets s.db id page).foldl
          (publish page (snapshot env s.db page actor now)) kept∧
        (∀ portal other, other≠page → kept.shown portal other=s.shown portal other)∧
        (∀ portal, portal∉targets s.db id page → kept.shown portal page=
          if status.phase=.active then s.shown portal page else none)∧
        ∃ marks, kept.marks=s.marks++marks∧
          ∀ portal, kept.shown portal page≠s.shown portal page → portal∈marks := by
      by_cases htriage : status.phase=.triage
      · refine ⟨withdraw s page fun portal => portal∉targets s.db id page,rfl,?_,?_,?_,
          withdraw_marked _⟩
        · simp [sync,hid,hcard,htriage]
        · intro portal other hother
          rw [withdraw_shown,if_neg (by simp [hother])]
        · intro portal hportal
          rw [withdraw_shown,if_pos ⟨rfl,by simpa using hportal⟩,htriage]
          rfl
      · have hactive : status.phase=.active := by
          cases hphase : status.phase with
          | triage => exact absurd hphase htriage
          | active => rfl
          | terminal => exact absurd hphase hterminal
        refine ⟨s,rfl,?_,?_,?_,[],by simp,by simp⟩
        · simp [sync,hid,hcard,hactive]
        · intro portal other _
          rfl
        · intro portal _
          rw [if_pos hactive]
    obtain ⟨kept,hdb,hsync,hothers,hrows,marks,hmarks,hmarked⟩ := hkept
    obtain ⟨hpdb,hpmarks,hpshown⟩ := publish_all page
      (snapshot env s.db page actor now) (targets s.db id page) kept
    rw [hsync]
    refine ⟨?_,?_,marks++targets s.db id page,?_,?_⟩
    · intro portal
      rw [hpshown,hpdb,hdb,due,hentered]
      simp only [if_neg hterminal,hstatus,←mem_targets,and_true]
      by_cases hportal : portal∈targets s.db id page
      · rw [if_pos hportal,if_pos hportal]
      · rw [if_neg hportal,if_neg hportal,hrows portal hportal]
    · intro portal other hother
      rw [hpshown,if_neg (by simp [Ne.symm hother]),hothers portal other hother]
    · rw [hpmarks,hmarks,List.append_assoc]
    · intro portal hne
      rw [hpshown] at hne
      by_cases hportal : portal∈targets s.db id page
      · exact List.mem_append_right marks hportal
      · rw [if_neg (by simp [hportal])] at hne
        exact List.mem_append_left _ (hmarked portal hne)

/-- A status that is no card, with no portals to its name, leaves every row. -/
theorem sync_cleared (hentered : entered s.db page=none)
    (hnamed : ∀ id, statusId s.db page=some id → named s.db id=[]) :
    sync env s page actor now=s := by
  cases hid : statusId s.db page with
  | none => simp [sync,hid]
  | some id =>
    have hcard : s.db.card id=none := by simpa [entered,hid] using hentered
    simp [sync,hid,hcard,targets,hnamed id hid]

end Rows

/-- No card has the id 0, no value is on it, and a page's status is a card. -/
structure Sound (db : Db) : Prop where
  card : db.card 0=none
  value : ∀ d, db.value 0 d=none
  next : 0<db.nextCardId
  status : ∀ d, db.attributeNamed "publish_status"=some d → d.valueType=.cardRef

namespace Sound

variable {db : Db} {actor : Int}

theorem write {cardId d : Int} (h : Sound db) (hcard : cardId≠0) (old : Option Json) (new : Json) :
    Sound (writeValue db actor cardId d old new) where
  card := h.card
  value := by
    intro e
    rw [writeValue_value,if_neg (fun hk => hcard hk.1.symm)]
    exact h.value e
  next := h.next
  status := h.status

theorem setPhase {db' : Db} {cardId : Option Int} {phase : String} (h : Sound db)
    (hset : Publications.setPhase db actor cardId phase=.ok db') : Sound db' := by
  unfold Publications.setPhase at hset
  split at hset
  · cases hset
  · cases hset
  · rename_i id new _ _
    split at hset
    · cases hset
    · cases hset
      refine ⟨?_,h.value,h.next,h.status⟩
      have hmap := mapCards_card (f := fun d => if d.id=id then { d with phase := new } else d)
        (by intro c; split <;> rfl) db 0
      exact hmap.trans (by rw [h.card]; rfl)

theorem create (h : Sound db) (actor : Int) (d : Defs) (input : Input) :
    Sound (Portals.create db d actor input).1∧(Portals.create db d actor input).2.id≠0 := by
  by_cases h0 : input.id=0
  · simp only [Portals.create,if_pos h0]
    have hnew : db.nextCardId≠0 := Int.ne_of_gt h.next
    refine ⟨⟨?_,h.value,by have := h.next; exact (by omega : (0 : Int)<db.nextCardId+1),h.status⟩,hnew⟩
    exact (addCard_card db _ 0).trans (by simp [h.card,hnew])
  · simp only [Portals.create,if_neg h0]
    exact ⟨h,h0⟩

theorem writeWanted {d : Defs} {input : Input} (h : Sound db) (hid : input.id≠0) :
    Sound (Portals.writeWanted db d actor input) :=
  foldl_inv h fun _ hs _ _ => hs.write hid _ _

end Sound

/-- The page whose status a write of an attribute is about. -/
def statusPage (db : Db) (input : AttributeUpdate.Input) : Option Int :=
  match AttributeUpdate.required input with
  | .ok (page,attrName) =>
    if attrName="publish_status"∧(db.card page).bind db.cardTypeName=some "page" then some page
    else none
  | .error _ => none

/-- The call takes the status away: no value, or the card 0. -/
def Clears (input : AttributeUpdate.Input) : Prop :=
  ∀ v, input.value=some v → v=.null∨refId v=some 0

/-- The state when the row's value is stored and the hook is still to run. -/
def written (s : Site δ) (actor : Int) (w : AttributeUpdate.Checked) : Site δ :=
  { s with db := writeValue s.db actor w.cardId w.attr.id (s.db.value w.cardId w.attr.id) w.norm }

section Writes
variable {env : Env δ} {gate : Gate} {s t : Site δ} {actor now : Int} {input : AttributeUpdate.Input}
  {w : AttributeUpdate.Checked}

theorem attributeUpdate_ok (h : attributeUpdate env gate s actor now input=.ok t) :
    ∃ w, AttributeUpdate.prepare gate.acc s.db actor input=.ok w∧
      t=afterWrite env (written s actor w) w.cardId w.attr.name actor now := by
  unfold attributeUpdate at h
  obtain ⟨⟨cardId,attrName⟩,hrequired,h⟩ := bind_ok h
  obtain ⟨db,hdb,h⟩ := bind_ok h
  cases h
  obtain ⟨w,hw,rfl⟩ := AttributeUpdate.update_ok hdb
  obtain ⟨edge,ids,hreq,-⟩ := AttributeUpdate.prepare_ok hw
  rw [hreq] at hrequired
  cases hrequired
  exact ⟨w,hw,rfl⟩

theorem markAll_rows (portals : List Int) (s : Site δ) :
    (portals.foldl Site.markDirty s).publications=s.publications∧
      (portals.foldl Site.markDirty s).db=s.db := by
  induction portals generalizing s with
  | nil => exact ⟨rfl,rfl⟩
  | cons p portals ih => exact ih (s.markDirty p)

theorem sync_db (page : Int) : (sync env s page actor now).db=s.db := by
  unfold sync
  split
  · rfl
  · dsimp only
    split
    · rfl
    · rw [(publish_all _ _ _ _).1]
      split
      · rfl
      · rfl

theorem afterWrite_db (cardId : Int) (attrName : String) :
    (afterWrite env s cardId attrName actor now).db=s.db := by
  unfold afterWrite
  split
  · rfl
  · split
    · exact sync_db cardId
    · split
      · rfl
      · split
        · exact (markAll_rows _ s).2
        · rfl

/-- The write of a page's status is followed by the sync. -/
theorem afterWrite_page {cardId : Int} {attrName : String} (hname : attrName="publish_status")
    (htype : (s.db.card cardId).bind s.db.cardTypeName=some "page") :
    afterWrite env s cardId attrName actor now=sync env s cardId actor now := by
  simp [afterWrite,htype,hname]

/-- Another write leaves every row. -/
theorem afterWrite_rows {cardId : Int} {attrName : String}
    (h : ¬(attrName="publish_status"∧(s.db.card cardId).bind s.db.cardTypeName=some "page")) :
    (afterWrite env s cardId attrName actor now).publications=s.publications := by
  unfold afterWrite
  split
  · rfl
  · rename_i typeName htype
    have hpage : ¬(typeName="page"∧attrName="publish_status") := by
      rintro ⟨rfl,hname⟩
      exact h ⟨hname,htype⟩
    rw [if_neg hpage]
    split
    · rfl
    · split
      · exact (markAll_rows _ s).1
      · rfl

/-- The card of an update is there, so it isn't 0. -/
theorem prepare_card (hs : Sound s.db)
    (hw : AttributeUpdate.prepare gate.acc s.db actor input=.ok w) : w.cardId≠0 := by
  obtain ⟨c,hc,-⟩ := AttributeUpdate.prepare_edge hw
  intro h0
  rw [h0,hs.card] at hc
  cases hc

/-- A status that is written is a card, unless the call takes it away. -/
theorem entered_written (hs : Sound s.db)
    (hw : AttributeUpdate.prepare gate.acc s.db actor input=.ok w)
    (hname : w.attr.name="publish_status") :
    (Clears input∧entered (written s actor w).db w.cardId=none∧
      ∀ id, statusId (written s actor w).db w.cardId=some id →
        named (written s actor w).db id=[])∨
    (¬Clears input∧∃ status, entered (written s actor w).db w.cardId=some status) := by
  obtain ⟨edge,ids,-,hbound,hnorm,hrefs,-⟩ := AttributeUpdate.prepare_ok hw
  have hattr : s.db.attributeNamed "publish_status"=some w.attr :=
    hname ▸ (AttributeUpdate.boundEdge_spec hbound).1
  have hvalue : valueOf (written s actor w).db "publish_status" w.cardId=some w.norm :=
    (congrArg (·.bind fun d => (written s actor w).db.value w.cardId d.id) hattr).trans
      (writeValue_self s.db actor w.cardId w.attr.id _ w.norm)
  cases AttributeUpdate.normalise_cardRef (hs.status w.attr hattr) hnorm with
  | inl hnull =>
    have hstatus : statusId (written s actor w).db w.cardId=none := by
      simp [statusId,hvalue,hnull.2]
    refine .inl ⟨?_,by simp [entered,hstatus],by simp [hstatus]⟩
    intro v hv
    have hkept := hnull.1
    rw [hv] at hkept
    exact .inl (by simpa using hkept)
  | inr href =>
    obtain ⟨v,id,hv,hid,hcanon,rfl⟩ := href
    obtain ⟨n,hn,hwhole⟩ := AttributeUpdate.canonRef_num hid
    have hstatus : statusId (written s actor w).db w.cardId=some id := by
      simp [statusId,hvalue,hcanon,hn,hwhole]
    have href : refId v=some id := AttributeUpdate.refValue_ok hid
    by_cases h0 : id=0
    · subst h0
      refine .inl ⟨?_,?_,?_⟩
      · intro v' hv'
        cases hv.symm.trans hv'
        exact .inr href
      · exact (congrArg (·.bind (written s actor w).db.card) hstatus).trans hs.card
      · intro id' hid'
        cases hstatus.symm.trans hid'
        have hnone : valueOf (written s actor w).db "publishes_to" 0=none := by
          have hsound : Sound (written s actor w).db := hs.write (prepare_card hs hw) _ _
          cases hd : (written s actor w).db.attributeNamed "publishes_to" with
          | none => simp [valueOf,hd]
          | some d => simpa [valueOf,hd] using hsound.value d.id
        simp [named,hnone]
    · refine .inr ⟨?_,?_⟩
      · intro hclears
        cases hclears v hv with
        | inl hnull =>
          subst hnull
          cases hid
        | inr hzero =>
          rw [href] at hzero
          exact h0 (Option.some.inj hzero)
      · obtain ⟨status,hstat⟩ := Option.isSome_iff_exists.mp
          (AttributeUpdate.refCheck_ok (forM_ok hrefs id (by simp)) h0)
        exact ⟨status,(congrArg (·.bind (written s actor w).db.card) hstatus).trans hstat⟩

/-- The portals follow a page's status, but for one that is taken away from a page they show. -/
theorem status_write (hs : Sound s.db)
    (hw : AttributeUpdate.prepare gate.acc s.db actor input=.ok w)
    (hname : w.attr.name="publish_status") :
    Follows env s (sync env (written s actor w) w.cardId actor now) w.cardId actor now↔
      (Clears input → ∀ portal, s.shown portal w.cardId=none) := by
  rcases entered_written hs hw hname with ⟨hclears,hentered,hnamed⟩ | ⟨hset,status,hentered⟩
  · rw [sync_cleared hentered hnamed]
    constructor
    · intro hfollows _ portal
      have hrow := hfollows.rows portal
      rw [due,hentered] at hrow
      exact hrow
    · intro hunshown
      refine ⟨?_,fun _ _ _ => rfl,[],(List.append_nil s.marks).symm,fun _ hne => absurd rfl hne⟩
      intro portal
      rw [due,hentered]
      exact hunshown hclears portal
  · have hfollows := sync_follows env actor now hentered
    constructor
    · intro _ hclears
      exact absurd hclears hset
    · intro _
      exact ⟨hfollows.rows,hfollows.others,hfollows.marked⟩

end Writes

section Runs
variable {env : Env δ} {gate : Gate} {start s t : Site δ} {es : List Event} {e : Event}

/-- A page given a status is shown as the status says, and any other call leaves every row. -/
def Kept (env : Env δ) (s t : Site δ) : Event → Prop
  | .attributeUpdate actor now input =>
    match statusPage s.db input with
    | some page => Follows env s t page actor now
    | none => t.publications=s.publications
  | _ => t.publications=s.publications

/-- A page is shown nowhere when its status is taken away. -/
def Unshown (s : Site δ) : Event → Prop
  | .attributeUpdate _ _ input =>
    match statusPage s.db input with
    | some page => Clears input → ∀ portal, s.shown portal page=none
    | none => True
  | _ => True

theorem step_sound (hs : Sound s.db) (h : step env gate s e=some t) : Sound t.db := by
  cases e with
  | attributeUpdate actor now input =>
    obtain ⟨w,hw,rfl⟩ := attributeUpdate_ok (ok_of_toOption h)
    rw [afterWrite_db]
    exact hs.write (prepare_card hs hw) _ _
  | setPhase actor cardId phase =>
    obtain ⟨db,hdb,rfl⟩ := Option.map_eq_some_iff.mp h
    exact hs.setPhase (ok_of_toOption hdb)
  | portalSet actor input =>
    obtain ⟨-,d,input',hdb⟩ := portalSet_ok (ok_of_toOption h)
    obtain ⟨hmade,hid⟩ := hs.create actor d input'
    rw [hdb]
    exact hmade.writeWanted hid

/-- One call keeps the rules just when it leaves no row of a page whose status it takes away. -/
theorem step_kept (hs : Sound s.db) (h : step env gate s e=some t) :
    Kept env s t e↔Unshown s e := by
  cases e with
  | setPhase actor cardId phase =>
    obtain ⟨db,-,rfl⟩ := Option.map_eq_some_iff.mp h
    simp [Kept,Unshown]
  | portalSet actor input =>
    have hrows := (portalSet_ok (ok_of_toOption h)).1
    simp [Kept,Unshown,hrows]
  | attributeUpdate actor now input =>
    obtain ⟨w,hw,rfl⟩ := attributeUpdate_ok (ok_of_toOption h)
    obtain ⟨edge,ids,hrequired,-⟩ := AttributeUpdate.prepare_ok hw
    by_cases hpage : w.attr.name="publish_status"∧
        (s.db.card w.cardId).bind s.db.cardTypeName=some "page"
    · have hstatus : statusPage s.db input=some w.cardId := by simp [statusPage,hrequired,hpage]
      simp only [Kept,Unshown,hstatus]
      rw [afterWrite_page (s := written s actor w) hpage.1 hpage.2]
      exact status_write hs hw hpage.1
    · have hstatus : statusPage s.db input=none := by simp [statusPage,hrequired,hpage]
      simp only [Kept,Unshown,hstatus,iff_true]
      exact afterWrite_rows (s := written s actor w) hpage

/-- Over any history of writes of pages, statuses and portals, a call keeps what the portals
show in step with the page's status just when it leaves no row of a page whose status it takes
away. -/
theorem rows_follow (hstart : Sound start.db)
    (h : Run (step env gate) (fun _ _ => True) start es s) (hstep : step env gate s e=some t) :
    Kept env s t e↔Unshown s e := by
  have hs : Sound s.db :=
    h.inv (fun s => Sound s.db) (fun _ _ _ hs _ hst => step_sound hs hst) hstart
  exact step_kept hs hstep

/-- A project with a page in draft, a published status and the portal it publishes to. -/
def home : Site Json.Number where
  db := {
    cardTypes := [⟨1,"project",none,false⟩,⟨2,"page",some 1,true⟩,⟨3,"status",some 1,false⟩,
      ⟨4,"portal",none,false⟩]
    attributeDefs := [⟨1,"title",.text,none,none⟩,⟨2,"publish_status",.cardRef,some 3,none⟩,
      ⟨3,"publishes_to",.cardRefs,some 4,none⟩,⟨4,"portal_root",.cardRef,some 2,none⟩]
    cards := [⟨1,1,none,none,false,.triage⟩,⟨2,2,some 1,none,false,.triage⟩,
      ⟨3,3,some 1,none,false,.triage⟩,⟨4,3,some 1,none,false,.active⟩,
      ⟨5,4,none,none,false,.triage⟩]
    values := [⟨2,1,.str "Home"⟩,⟨2,2,.ofInt 3⟩,⟨4,3,.arr [.str "5"]⟩,⟨5,4,.ofInt 2⟩]
    edges := [⟨2,1,true,0⟩,⟨2,2,true,1⟩]
    nextCardId := 6 }
  publications := []
  marks := []

def plainEnv : Env Json.Number := ⟨fun _ => false,fun s => s,fun n => n⟩

def openGate : Gate :=
  ⟨⟨fun _ _ => true,fun _ _ _ => true,fun _ _ _ _ _ => true,fun _ _ _ _ => false,
    fun _ _ _ _ => true,fun _ _ ids => ids,fun _ _ _ _ => true,fun _ _ => false⟩,⟨[],[],[],[]⟩,
    List.head?⟩

/-- A write of the page's status. -/
def enter (status : Json) : Event := .attributeUpdate 7 0 ⟨some 2,some "publish_status",some status⟩

theorem home_sound : Sound home.db where
  card := rfl
  value := by simp [home,Db.value]
  next := by decide
  status := by
    intro d hd
    cases hd
    rfl

/-- A page is published: its portal shows it, as its status says. -/
theorem published_follows : ∃ s, step plainEnv openGate home (enter (.str "4"))=some s∧
    (s.shown 5 2).isSome∧
    (Kept plainEnv home s (enter (.str "4"))↔Unshown home (enter (.str "4"))) := by
  obtain ⟨s,hs,hshown⟩ : ∃ s, step plainEnv openGate home (enter (.str "4"))=some s∧
      (s.shown 5 2).isSome := ⟨_,rfl,rfl⟩
  exact ⟨s,hs,hshown,rows_follow home_sound (.nil home) hs⟩

/-- A published page whose status is set to the card 0 stays on its portal. -/
theorem cleared_stays : ∃ s t, Sound home.db∧
    Run (step plainEnv openGate) (fun _ _ => True) home [enter (.str "4")] s∧
    step plainEnv openGate s (enter (.str "0"))=some t∧¬Kept plainEnv s t (enter (.str "0")) := by
  have hrun : (step plainEnv openGate home (enter (.str "4"))).bind (fun s =>
      (step plainEnv openGate s (enter (.str "0"))).map fun t =>
        (statusPage s.db ⟨some 2,some "publish_status",some (.str "0")⟩,(t.shown 5 2).isSome,
          entered t.db 2))=some (some 2,true,none) := rfl
  obtain ⟨s,hs,hmap⟩ := Option.bind_eq_some_iff.mp hrun
  obtain ⟨t,ht,hobs⟩ := Option.map_eq_some_iff.mp hmap
  simp only [Prod.mk.injEq] at hobs
  obtain ⟨hpage,hshown,hentered⟩ := hobs
  refine ⟨s,t,home_sound,.single trivial hs,ht,?_⟩
  intro hkept
  simp only [Kept,enter,hpage] at hkept
  have hrow := hkept.rows 5
  rw [due,hentered] at hrow
  rw [hrow] at hshown
  cases hshown

end Runs

end Kitp.Publications
