import Kitp.Lib.Cell
import Kitp.Store

/-! `tag.apply` and `tag.remove` on one card: the whole array is read, changed and written
back, and concurrent transactions do so side by side. -/
namespace Kitp.Tags
open Kitp.Store Kitp.Runs

/-- One element of `inputs`, the target card apart: the tag it names. -/
inductive Op where
  | apply (tagCardId : Option Int)
  | remove (tagCardId : Option Int)
  deriving DecidableEq

/-- A text attribute of a card, empty when it has none. -/
def textOf (db : Db) (cardId : Int) (name : String) : String :=
  (((db.attributeNamed name).bind fun d => db.value cardId d.id).bind scalarText).getD ""

/-- The card may hold tags. -/
def tagsEdge (db : Db) (c : Card) : Bool :=
  (db.attributeNamed "tags").any fun d => (db.edge c.cardTypeId d.id).isSome

variable (db : Db) (target : Int)

def checkApply (tag : Option Int) : Except Refusal Unit :=
  if target=0∨tag=none∨tag=some 0 then
    .error ⟨"validation","tag.apply: target_card_id and tag_card_id are required"⟩
  else
    match (db.card target).filter (!·.deleted) with
    | none => .error ⟨"card_not_found",s!"tag.apply: target card {target} not found"⟩
    | some c =>
      if !tagsEdge db c then
        .error ⟨"edge_violation",s!"tag.apply: card_type id={c.cardTypeId} does not allow 'tags'"⟩
      else
        let tagId := tag.getD 0
        match (db.card tagId).filter fun t => db.cardTypeName t=some "tag"∧!t.deleted with
        | none => .error ⟨"tag_not_found",s!"tag.apply: tag card {tagId} not found or not a tag"⟩
        | some _ =>
          let tagProject := cardEnclosingProject db tagId
          if tagProject≠none∧tagProject≠cardEnclosingProject db target then
            .error ⟨"cross_project_ref","attribute "++quoteLiteral "tags"++
              s!": value card {tagId} can't be used here"⟩
          else .ok ()

def checkRemove (tag : Option Int) : Except Refusal Unit :=
  if target=0 then .error ⟨"validation","tag.remove: target_card_id is required"⟩
  else if tag=none∨tag=some 0 then .error ⟨"validation","tag.remove: tag_card_id is required"⟩
  else
    match db.card target with
    | none => .error ⟨"card_not_found",s!"tag.remove: target card {target} not found"⟩
    | some c =>
      if !tagsEdge db c then
        .error ⟨"edge_violation",s!"tag.remove: card_type id={c.cardTypeId} does not allow 'tags'"⟩
      else .ok ()

/-- The statements before the array is read. -/
def check : Op → Except Refusal Unit
  | .apply tag => checkApply db target tag
  | .remove tag => checkRemove db target tag

/-- The tag is added, and the applied tags whose path's root is its `root_exclusive_at` go. -/
def applyTag (tag : Int) (old : List Int) : List Int :=
  let cur := if tag∈old then old else old++[tag]
  let root := textOf db tag "root_exclusive_at"
  if root="" then cur
  else cur.filter fun id =>
    id=tag∨String.ofList ((textOf db id "path").toList.takeWhile (· ≠ '/'))≠root

def removeTag (tag : Int) (old : List Int) : List Int := old.filter (·≠tag)

/-- The array written, from the one that was read. -/
def written : Op → List Int → List Int
  | .apply tag,old => applyTag db (tag.getD 0) old
  | .remove tag,old => removeTag (tag.getD 0) old

def gate (op : Op) (_ : List Int) : Bool := (check db target op).toBool

variable {ι : Type} [DecidableEq ι]

/-- Neither operation takes `card_list_lock`: the checks, the read of the array and the
upsert are statements of their own. -/
def step : Cell.State ι Op (List Int) → Cell.Event ι → Option (Cell.State ι Op (List Int)) :=
  Cell.step (gate db target) (written db)

/-- The array that whole transactions leave, one after another. -/
def serial (plan : ι → List Op) (order : List ι) (tags : List Int) : List Int :=
  (order.flatMap plan).foldl (fun tags op => written db op tags) tags

/-- Concurrent transactions whose upserts each follow a read that is still current leave
the array that running them one after another, in the order they committed, would leave. -/
theorem tags_serial (tags : List Int) (plan : ι → List Op) (events : List (Cell.Event ι))
    (s : Cell.State ι Op (List Int))
    (hrun : Run (step db target) Cell.Current (Cell.start tags plan) events s) :
    s.order.Nodup∧(∀ i, i∈s.order↔(s.tx i).phase=.committed)∧
      s.value=serial db plan s.order tags := by
  have hinv := Cell.run_chain_of_current (fun _ _ _ => rfl) hrun
  refine ⟨hinv.nodup,hinv.committed,?_⟩
  rw [hinv.chain.value_eq,hinv.ops]
  rfl

/-- A task and two tags in one project. -/
def shelf : Db where
  cardTypes := [⟨1,"project",none,false⟩,⟨2,"task",some 1,true⟩,⟨3,"tag",some 1,true⟩]
  attributeDefs := [⟨7,"tags",.cardRefs,some 3,none⟩,⟨8,"path",.text,none,none⟩,
    ⟨9,"root_exclusive_at",.text,none,none⟩]
  cards := [⟨1,1,none,none,false,.triage⟩,⟨2,2,some 1,none,false,.triage⟩,
    ⟨5,3,some 1,none,false,.triage⟩,⟨6,3,some 1,none,false,.triage⟩]
  values := [⟨5,8,.str "area/ui"⟩,⟨6,8,.str "kind/bug"⟩]
  edges := [⟨2,7,false,4⟩]

def twoTags (first : Bool) : List Op := if first then [.apply (some 5)] else [.apply (some 6)]

/-- The second reads before the first has written. -/
def overlapping : List (Cell.Event Bool) :=
  [.gate true,.load true,.gate false,.load false,.write true,.commit true,.write false,
    .commit false]

/-- Two tags applied at once: the second upsert writes back the array it read before the
first, which no serial order leaves. -/
theorem applied_tag_lost : ∃ s, Run (step shelf 2) (fun _ _ => True) (Cell.start [] twoTags)
    overlapping s∧(∀ i, (s.tx i).phase=.committed)∧
      ∀ order : List Bool, order.Nodup → (∀ i, i∈order) →
        s.value≠serial shelf twoTags order [] := by
  have hend : (overlapping.foldlM (step shelf 2) (Cell.start [] twoTags)).map
      (fun s => (s.value,(s.tx true).phase,(s.tx false).phase))=
      some ([6],.committed,.committed) := rfl
  obtain ⟨s,hs,hend⟩ := Option.map_eq_some_iff.mp hend
  simp only [Prod.mk.injEq] at hend
  obtain ⟨hvalue,htrue,hfalse⟩ := hend
  refine ⟨s,Run.of_foldlM hs fun _ _ _ => trivial,?_,?_⟩
  · intro i
    cases i with
    | true => exact htrue
    | false => exact hfalse
  · intro order hnodup hall
    have h5 : (5 : Int)∈serial shelf twoTags order [] := by
      rcases order with _ | ⟨a,_ | ⟨b,_ | ⟨c,l⟩⟩⟩
      · simpa using hall true
      · have htwo := And.intro (hall true) (hall false)
        revert htwo
        cases a <;> simp
      · revert hnodup
        cases a <;> cases b <;> simp <;> decide
      · revert hnodup
        cases a <;> cases b <;> cases c <;> simp
    intro heq
    rw [← heq,hvalue] at h5
    simp at h5

/-- The same two transactions, the second reading once the first has committed. -/
theorem both_tags_applied : ∃ s, Run (step shelf 2) Cell.Current (Cell.start [] twoTags)
    [.gate true,.gate false,.load true,.write true,.commit true,.load false,.write false,
      .commit false] s∧s.value=[5,6]∧s.value=serial shelf twoTags s.order [] := by
  have hrun : Run (step shelf 2) Cell.Current (Cell.start [] twoTags)
      [.gate true,.gate false,.load true,.write true,.commit true,.load false,.write false,
        .commit false] _ :=
    .cons trivial rfl <| .cons trivial rfl <| .cons trivial rfl <|
      .cons (fun _ _ _ h => by cases h; rfl) rfl <| .cons trivial rfl <| .cons trivial rfl <|
      .cons (fun _ _ _ h => by cases h; rfl) rfl <| .cons trivial rfl <| .nil _
  exact ⟨_,hrun,rfl,(tags_serial shelf 2 [] twoTags _ _ hrun).2.2⟩

end Kitp.Tags
