import Kitp.Store
import Kitp.Lib.Steps
import Mathlib.Data.List.Sort

/-! `card_move_batch`: the statements of one row, each with the checks it makes and the
answer it refuses with. -/
namespace Kitp.CardMove
open Kitp.Store Kitp.Forest Kitp.Steps

/-- One element of `inputs`. -/
structure Input where
  cardId : Option Int
  newParentCardId : Option Int

structure Move where
  cardId : Int
  newParent : Int
  deriving DecidableEq

def validate (input : Input) : Except Refusal Move :=
  match input.cardId,input.newParentCardId with
  | some c,some p =>
    if c=0∨p=0 then
      .error ⟨"validation","card.move: card_id and new_parent_card_id are required"⟩
    else .ok ⟨c,p⟩
  | _,_ => .error ⟨"validation","card.move: card_id and new_parent_card_id are required"⟩

/-- The variables of the loop body. -/
structure Row where
  move : Move
  childTypeId : Int
  childParentTypeId : Option Int
  childAllowSelf : Bool
  parentTypeId : Option Int
  newProject : Option Int
  oldProject : Option Int

/-- The moved card, read as its row is locked. -/
def lockRow (db : Db) (m : Move) : Except Refusal Row :=
  match (db.card m.cardId).bind fun c => (db.cardType c.cardTypeId).map (c,·) with
  | none => .error ⟨"card_not_found",s!"card.move: card {m.cardId} not found"⟩
  | some (c,t) => .ok ⟨m,c.cardTypeId,t.parentCardTypeId,t.allowSelfParent,none,none,none⟩

/-- The statements between the lock and the update, in order. -/
inductive Check where
  | adminOnly
  | parentLive
  | cycle
  | personalParent
  | personalScreen
  | depth
  | edge
  | newProject
  | crossProject
  | oldProject
  | flowState
  | inUse
  | bundleSource
  | grant
  | area
  deriving DecidableEq

def checks : List Check :=
  [.adminOnly,.parentLive,.cycle,.personalParent,.personalScreen,.depth,.edge,.newProject,
    .crossProject,.oldProject,.flowState,.inUse,.bundleSource,.grant,.area]

/-- The references of a card into projects other than the target, global cards apart. -/
def crossing (db : Db) (cardId : Int) (target : Option Int) : List (String×Int×Int) :=
  (db.values.filter (·.cardId=cardId)).flatMap fun v =>
    (db.attributeDef v.attributeDefId).elim [] fun d =>
      (refIds d.valueType v.value).filterMap fun vid =>
        (cardEnclosingProject db vid).bind fun p =>
          if vid≠0∧target≠some p then some (d.name,vid,p) else none

/-- `card_ref_cross_project`: the first of them, by attribute and card. -/
def cardRefCrossProject (db : Db) (cardId : Int) (target : Option Int) :
    Option (String×Int×Int) :=
  ((crossing db cardId target).insertionSort
    fun a b => a.1<b.1∨(a.1=b.1∧a.2.1 ≤ b.2.1)).head?

/-- A card of the subtree that a flow starts at or steps through. -/
def flowStateUnder (db : Db) (root : Int) : Option Int :=
  (subtree db root).find? fun id =>
    db.flows.any (·.defaultCreateStatusId=some id)||
      db.flowSteps.any fun s => s.fromCardId=id∨s.toCardId=id

/-- A card of the subtree that a live card left behind in the project refers to. -/
def usedUnder (db : Db) (root : Int) (project : Option Int) : Option Int :=
  (subtree db root).find? fun id => db.values.any fun v =>
    (db.attributeDef v.attributeDefId).any (fun d => namesCard d.valueType v.value id)&&
      (db.card v.cardId).any (fun c => !c.deleted)&&
      v.cardId∉subtree db root&&cardEnclosingProject db v.cardId=project

def projectText (p : Option Int) : String := p.elim "0" toString

variable (acc : Access) (actor : Int) (db : Db) (row : Row)

def cycleFound (db : Db) (m : Move) : Bool :=
  m.newParent=m.cardId||(cardAncestors db m.newParent).any (·.id=m.cardId)

def tooDeep (db : Db) (m : Move) : Bool :=
  14 ≤ (cardAncestors db m.newParent).length+subtreeDepth db m.cardId

/-- One statement, on the rows it sees. -/
def Check.run : Check → Except Refusal Row
  | .adminOnly =>
    if cardIsAdminOnly db row.move.cardId∧!acc.userIsGlobalAdmin db actor then
      .error ⟨"forbidden","card.move: only a workspace admin changes a mail account or an activity sink"⟩
    else .ok row
  | .parentLive =>
    match db.card row.move.newParent with
    | some p =>
      if !p.deleted∧acc.cardVisibleTo db actor row.move.newParent then
        .ok { row with parentTypeId := some p.cardTypeId }
      else .error ⟨"parent_not_found",s!"card.move: new_parent_card_id {row.move.newParent} not found"⟩
    | none => .error ⟨"parent_not_found",s!"card.move: new_parent_card_id {row.move.newParent} not found"⟩
  | .cycle =>
    if cycleFound db row.move then
      .error ⟨"cycle",s!"card.move: cannot move card {row.move.cardId} under itself or its own descendant {row.move.newParent}"⟩
    else .ok row
  | .personalParent =>
    let parentPrivate := (db.card row.move.newParent).bind (·.privateTo)
    let cardPrivate := (db.card row.move.cardId).bind (·.privateTo)
    if parentPrivate≠none∧cardPrivate≠parentPrivate then
      .error ⟨"forbidden","card.move: only a card private to the same person can go under a personal card"⟩
    else .ok row
  | .personalScreen =>
    if (db.card row.move.cardId).any (fun c =>
        db.cardTypeName c=some "screen"∧c.privateTo≠none) then
      .error ⟨"forbidden","card.move: a personal screen stays on its own, under no project"⟩
    else .ok row
  | .depth =>
    if tooDeep db row.move then .error ⟨"too_deep","card.move: cards nest at most 14 deep"⟩
    else .ok row
  | .edge =>
    if (row.childAllowSelf∧row.parentTypeId=some row.childTypeId)∨
        (row.childParentTypeId≠none∧row.parentTypeId=row.childParentTypeId) then .ok row
    else
      let name (t : Option Int) := ((t.bind db.cardType).map (·.name)).getD "?"
      .error ⟨"edge_violation","card.move: card_type "++quoteLiteral (name row.childTypeId)++
        " is not allowed under parent type "++quoteLiteral (name row.parentTypeId)⟩
  | .newProject => .ok { row with newProject := cardEnclosingProject db row.move.newParent }
  | .crossProject =>
    match cardRefCrossProject db row.move.cardId row.newProject with
    | some (attr,vid,vproj) =>
      .error ⟨"cross_project_ref","card.move: attribute "++quoteLiteral attr++
        s!" value card {vid} belongs to project {vproj} but the move would place card {row.move.cardId} in project "++
        projectText row.newProject⟩
    | none => .ok row
  | .oldProject => .ok { row with oldProject := cardEnclosingProject db row.move.cardId }
  | .flowState =>
    match flowStateUnder db row.move.cardId with
    | some id =>
      if row.newProject≠row.oldProject then
        .error ⟨"value_referenced_by_flow",s!"card.move: card {id} is a state of a flow in its project; take it out of the flow first"⟩
      else .ok row
    | none => .ok row
  | .inUse =>
    match usedUnder db row.move.cardId row.oldProject with
    | some id =>
      if row.newProject≠row.oldProject then
        .error ⟨"value_in_use",s!"card.move: card {id} is used by cards in its project; change them first"⟩
      else .ok row
    | none => .ok row
  | .bundleSource =>
    if row.newProject.any (·∈db.bundleSources) then
      .error ⟨"forbidden","card.move: project "++projectText row.newProject++
        " is a feature bundle's source; kitp maintains it"⟩
    else .ok row
  | .grant =>
    let name := ((db.cardType row.childTypeId).map (·.name)).getD ""
    if row.newProject≠cardEnclosingProject db row.move.cardId∧
        !acc.userHasGrant db actor name "card.update" (row.newProject.getD 0) then
      .error ⟨"forbidden","card.move: you can't move a "++name++" into project "++
        projectText row.newProject⟩
    else .ok row
  | .area =>
    if acc.areaWriteBlocked db row.childTypeId row.move.newParent (row.newProject.getD 0) then
      .error ⟨"area_off","card.move: the destination is in an area that is switched off"⟩
    else .ok row

/-- One row by itself: its checks in order, then the parent with its activity. -/
def move (input : Input) : Except Refusal Db := do
  let m ← validate input
  let locked ← lockRow db m
  let row ← checks.foldlM (fun row c => c.run acc actor db row) locked
  let old := (db.card row.move.cardId).bind (·.parentCardId)
  return (db.setParent (· = row.move.cardId) row.move.newParent).log
    ⟨row.move.cardId,"card_move",none,old.map Json.ofInt,some (.ofInt row.move.newParent),actor⟩

theorem lockRow_ok {db : Db} {m : Move} {row : Row} (h : lockRow db m=.ok row) :
    row.move=m∧∃ c t, db.card m.cardId=some c∧db.cardType c.cardTypeId=some t∧
      row.childParentTypeId=t.parentCardTypeId∧row.childAllowSelf=t.allowSelfParent := by
  unfold lockRow at h
  split at h
  · cases h
  · rename_i c t hct
    cases h
    obtain ⟨c,hc,hct⟩ := Option.bind_eq_some_iff.mp hct
    obtain ⟨t,ht,hct⟩ := Option.map_eq_some_iff.mp hct
    cases hct
    exact ⟨rfl,c,t,hc,ht,rfl,rfl⟩

/-- No statement changes the move in hand. -/
theorem Check.run_move {acc : Access} {actor : Int} {db : Db} {row row' : Row} {c : Check}
    (h : c.run acc actor db row=.ok row') : row'.move=row.move := by
  cases c <;> simp only [Check.run] at h <;> (try split at h) <;> (try split at h) <;> cases h <;> rfl

theorem Check.run_child {acc : Access} {actor : Int} {db : Db} {row row' : Row} {c : Check}
    (h : c.run acc actor db row=.ok row') :
    row'.childParentTypeId=row.childParentTypeId∧row'.childAllowSelf=row.childAllowSelf := by
  cases c <;> simp only [Check.run] at h <;> (try split at h) <;> (try split at h) <;> cases h <;>
    exact ⟨rfl,rfl⟩

theorem parentLive_ok {acc : Access} {actor : Int} {db : Db} {row row' : Row}
    (h : Check.parentLive.run acc actor db row=.ok row') :
    (db.card row.move.newParent).isSome := by
  simp only [Check.run] at h
  split at h
  · rename_i p hp
    simp [hp]
  · cases h

/-- Under a private card goes only a card private to the same person. -/
theorem personalParent_ok {acc : Access} {actor : Int} {db : Db} {row row' : Row}
    (h : Check.personalParent.run acc actor db row=.ok row') :
    (db.card row.move.newParent).bind (·.privateTo)=none∨
      (db.card row.move.cardId).bind (·.privateTo)=
        (db.card row.move.newParent).bind (·.privateTo) := by
  simp only [Check.run] at h
  split at h
  · cases h
  · rename_i hf
    simpa [or_iff_not_imp_left] using hf

theorem cycle_ok {acc : Access} {actor : Int} {db : Db} {row row' : Row}
    (h : Check.cycle.run acc actor db row=.ok row') : cycleFound db row.move=false := by
  simp only [Check.run] at h
  split at h
  · cases h
  · rename_i hf
    exact Bool.eq_false_iff.mpr hf

theorem depth_ok {acc : Access} {actor : Int} {db : Db} {row row' : Row}
    (h : Check.depth.run acc actor db row=.ok row') :
    (cardAncestors db row.move.newParent).length+subtreeDepth db row.move.cardId<14 := by
  simp only [Check.run] at h
  split at h
  · cases h
  · rename_i hf
    simp only [tooDeep,decide_eq_true_eq] at hf
    omega

/-- A type with no parent type, and none of its own kind allowed over it, stays where it is. -/
theorem edge_ok {acc : Access} {actor : Int} {db : Db} {row row' : Row}
    (h : Check.edge.run acc actor db row=.ok row') :
    row.childAllowSelf=true∨row.childParentTypeId≠none := by
  simp only [Check.run] at h
  split at h
  · rename_i hr
    cases hr with
    | inl hr => exact .inl hr.1
    | inr hr => exact .inr hr.1
  · cases h

/-- The cycle check finds no card, so the card is not above the new parent, unless the
walk was capped. -/
theorem not_above_of_cycle_ok {db : Db} {m : Move} (h : cycleFound db m=false)
    (hlen : (cardAncestors db m.newParent).length<17) (hc : (db.card m.cardId).isSome) :
    ¬Reaches db.parent m.newParent m.cardId := by
  intro hr
  simp only [cycleFound,Bool.or_eq_false_iff,decide_eq_false_iff_not,List.any_eq_false,
    decide_eq_true_eq] at h
  obtain ⟨c,hcard⟩ := Option.isSome_iff_exists.mp hc
  have hmem : c∈cardAncestors db m.newParent := mem_cardAncestors hlen hr h.1 hcard
  exact h.2 c hmem (card_id hcard)

/-- Every check of a list that passes was passed by a row with the same move. -/
theorem checks_ok {acc : Access} {actor : Int} {db : Db} {cs : List Check} {row row' : Row}
    (h : cs.foldlM (fun row c => c.run acc actor db row) row=.ok row') :
    row'.move=row.move∧∀ c∈cs, ∃ r r', r.move=row.move∧
      r.childParentTypeId=row.childParentTypeId∧r.childAllowSelf=row.childAllowSelf∧
      c.run acc actor db r=.ok r' := by
  induction cs generalizing row with
  | nil =>
    cases h
    exact ⟨rfl,by simp⟩
  | cons c cs ih =>
    obtain ⟨next,hc,h⟩ := bind_ok (List.foldlM_cons.symm.trans h)
    have hmove := Check.run_move hc
    have hchild := Check.run_child hc
    have hrest := ih h
    refine ⟨hrest.1.trans hmove,?_⟩
    intro d hd
    cases List.mem_cons.mp hd with
    | inl hd => exact ⟨row,next,rfl,rfl,rfl,hd ▸ hc⟩
    | inr hd =>
      obtain ⟨r,r',hr,hp,hs,hrun⟩ := hrest.2 d hd
      exact ⟨r,r',hr.trans hmove,hp.trans hchild.1,hs.trans hchild.2,hrun⟩

/-- A card that is a state of a flow, or has one under it, stays in its project. -/
theorem flowState_ok {acc : Access} {actor : Int} {db : Db} {row row' : Row}
    (h : checks.foldlM (fun row c => c.run acc actor db row) row=.ok row') :
    flowStateUnder db row.move.cardId=none∨
      cardEnclosingProject db row.move.newParent=cardEnclosingProject db row.move.cardId := by
  have hsplit : checks=checks.take 7++(.newProject::.crossProject::.oldProject::
    .flowState::checks.drop 11) := rfl
  rw [hsplit,List.foldlM_append] at h
  obtain ⟨r,hr,h⟩ := bind_ok h
  have hmove := (checks_ok hr).1
  obtain ⟨r₁,h₁,h⟩ := bind_ok (List.foldlM_cons.symm.trans h)
  obtain ⟨r₂,h₂,h⟩ := bind_ok (List.foldlM_cons.symm.trans h)
  obtain ⟨r₃,h₃,h⟩ := bind_ok (List.foldlM_cons.symm.trans h)
  obtain ⟨r₄,h₄,-⟩ := bind_ok (List.foldlM_cons.symm.trans h)
  cases h₁
  have hcross : r₂={ r with newProject := cardEnclosingProject db r.move.newParent } := by
    simp only [Check.run] at h₂
    split at h₂
    · cases h₂
    · cases h₂
      rfl
  subst hcross
  cases h₃
  simp only [Check.run] at h₄
  split at h₄
  · split at h₄
    · cases h₄
    · rename_i heq
      rw [hmove] at heq
      exact .inr (not_not.mp heq)
  · rename_i hnone
    rw [hmove] at hnone
    exact .inl hnone

/-- What a move that went through was checked for, and what it leaves. -/
theorem move_ok {acc : Access} {actor : Int} {db db' : Db} {input : Input}
    (h : move acc actor db input=.ok db') : ∃ m c t, validate input=.ok m∧
      db.card m.cardId=some c∧
      db.cardType c.cardTypeId=some t∧(t.allowSelfParent=true∨t.parentCardTypeId≠none)∧
      (db.card m.newParent).isSome∧cycleFound db m=false∧
      (cardAncestors db m.newParent).length+subtreeDepth db m.cardId<14∧
      (flowStateUnder db m.cardId=none∨
        cardEnclosingProject db m.newParent=cardEnclosingProject db m.cardId)∧
      ∃ a, db'=(db.setParent (· = m.cardId) m.newParent).log a := by
  unfold move at h
  obtain ⟨m,hvalid,h⟩ := bind_ok h
  obtain ⟨locked,hl,h⟩ := bind_ok h
  obtain ⟨row,hrow,h⟩ := bind_ok h
  obtain ⟨hm,c,t,hc,ht,hparent,hself⟩ := lockRow_ok hl
  obtain ⟨hmove,hchecks⟩ := checks_ok hrow
  have at_check (k : Check) (hk : k∈checks) : ∃ r r', r.move=m∧
      r.childParentTypeId=t.parentCardTypeId∧r.childAllowSelf=t.allowSelfParent∧
      k.run acc actor db r=.ok r' := by
    obtain ⟨r,r',hr,hp,hs,hrun⟩ := hchecks k hk
    exact ⟨r,r',hr.trans hm,hp.trans hparent,hs.trans hself,hrun⟩
  obtain ⟨r,r',hr,hp,hs,hedge⟩ := at_check .edge (by simp [checks])
  have hkind := edge_ok hedge
  rw [hs,hp] at hkind
  obtain ⟨r,r',hr,-,-,hlive⟩ := at_check .parentLive (by simp [checks])
  have hlive := parentLive_ok hlive
  obtain ⟨s,s',hs,-,-,hcycle⟩ := at_check .cycle (by simp [checks])
  have hcycle := cycle_ok hcycle
  obtain ⟨u,u',hu,-,-,hdepth⟩ := at_check .depth (by simp [checks])
  have hdepth := depth_ok hdepth
  rw [hr] at hlive
  rw [hs] at hcycle
  rw [hu] at hdepth
  have hflow := flowState_ok hrow
  rw [hm] at hflow
  cases h
  rw [hmove.trans hm]
  exact ⟨m,c,t,hvalid,hc,ht,hkind,hlive,hcycle,hdepth,hflow,_,rfl⟩

/-- What a move that went through leaves, as far as privacy goes. -/
theorem move_private {acc : Access} {actor : Int} {db db' : Db} {input : Input}
    (h : move acc actor db input=.ok db') : ∃ (m : Move) (c p : Card) (a : Activity),
      db.card m.cardId=some c∧
      db.card m.newParent=some p∧(p.privateTo=none∨c.privateTo=p.privateTo)∧
      db'=(db.setParent (· = m.cardId) m.newParent).log a := by
  unfold move at h
  obtain ⟨m,_,h⟩ := bind_ok h
  obtain ⟨locked,hl,h⟩ := bind_ok h
  obtain ⟨row,hrow,h⟩ := bind_ok h
  obtain ⟨hm,c,-,hc,-⟩ := lockRow_ok hl
  obtain ⟨hmove,hchecks⟩ := checks_ok hrow
  obtain ⟨r,_,hr,-,-,hlive⟩ := hchecks .parentLive (by simp [checks])
  obtain ⟨p,hp⟩ := Option.isSome_iff_exists.mp (parentLive_ok hlive)
  obtain ⟨u,_,hu,-,-,hprivate⟩ := hchecks .personalParent (by simp [checks])
  have hprivate := personalParent_ok hprivate
  rw [hr,hm] at hp
  rw [hu,hm,hc,hp] at hprivate
  cases h
  rw [hmove.trans hm]
  exact ⟨m,c,p,_,hc,hp,hprivate,rfl⟩

end Kitp.CardMove
