import Kitp.CardInsert

/-! `card_merge_batch` and `card_merge_into`: one row, from its checks to the references
it repoints. -/
namespace Kitp.CardMerge
open Kitp.Store Kitp.CardInsert Kitp.Steps

/-- One element of `inputs`. -/
structure Input where
  survivorId : Option Int
  loserIds : List Json

variable (env : Env) (db : Db) (actor : Int)

/-- The cards among the given values, each once. -/
def losersOf (input : Input) : List Int :=
  (input.loserIds.filterMap fun v => v.unquoted.bind idText).dedup.insertionSort (· ≤ ·)

def refuse {α : Type} (code message : String) : Except Refusal α :=
  .error ⟨code,"card.merge: "++message⟩

def validate (input : Input) : Except Refusal (Int×List Int) :=
  let losers := losersOf input
  match input.survivorId.filter (·≠0) with
  | none => refuse "validation" "survivor_id is required"
  | some survivor =>
    if losers=[] then refuse "validation" "loser_ids must be a non-empty array"
    else if survivor∈losers then refuse "validation" "survivor_id cannot also be a loser"
    else .ok (survivor,losers)

/-- `card_home_project`: a message's is its thread's. -/
def cardHomeProject (id : Int) : Option Int :=
  if (db.card id).any (db.cardTypeName · =some "reply_body") then
    (((db.values.filter fun v => (db.attributeDef v.attributeDefId).any (·.name="replies")&&
      namesCard .cardRefs v.value id).map (·.cardId)).min?).bind (cardEnclosingProject db)
  else cardEnclosingProject db id

/-- The surviving card: no person, and an admin's own kind only for an admin. -/
def survivorCheck (survivor : Int) : Except Refusal Card :=
  match (db.card survivor).filter (!·.deleted) with
  | none => refuse "card_not_found" s!"survivor {survivor} not found or deleted"
  | some c =>
    if db.cardTypeName c=some "person" then
      refuse "use_person_merge" "people are merged with person.merge, which keeps their logins and private cards apart"
    else if cardIsAdminOnly db survivor∧!env.acc.userIsGlobalAdmin db actor then
      refuse "forbidden" "only a workspace admin changes a mail account or an activity sink"
    else .ok c

/-- A loser is seen, and of the survivor's type, project and privacy; no flow uses it. -/
def loserCheck (s : Card) (loser : Int) : Except Refusal Unit :=
  match (db.card loser).filter (!·.deleted) with
  | none => refuse "card_not_found" s!"loser {loser} not found or deleted"
  | some c =>
    if !env.acc.cardVisibleTo db actor loser then
      refuse "card_not_found" s!"loser {loser} not found or deleted"
    else if c.cardTypeId≠s.cardTypeId then
      refuse "card_type_mismatch" s!"loser {loser} is a different card_type than survivor {s.id}"
    else if cardHomeProject db loser≠cardHomeProject db s.id then
      refuse "forbidden" s!"loser {loser} is in another project than survivor {s.id}"
    else if c.privateTo≠s.privateTo then
      refuse "forbidden" s!"loser {loser} and survivor {s.id} are not both yours, or both shared"
    else if db.flowSteps.any (fun st => st.fromCardId=loser∨st.toCardId=loser)||
        db.flows.any (·.defaultCreateStatusId=some loser) then
      refuse "value_referenced_by_flow" s!"{loser} is a state of a flow; take it out of the flow first"
    else .ok ()

/-- A value of the attribute is the number of a loser. -/
def holdsLoser (losers : List Int) (p : AttributeValue → Bool) : Bool :=
  db.values.any fun v => p v&&losers.any (namesCard .cardRef v.value)

def rootCheck (losers : List Int) : Except Refusal Unit :=
  let isRoot (v : AttributeValue) : Bool :=
    (db.attributeDef v.attributeDefId).any (·.name="portal_root")
  if !env.acc.userIsGlobalAdmin db actor&&holdsLoser db losers isRoot then
    refuse "forbidden" "a page that is a portal's root is merged only by a workspace admin"
  else .ok ()

/-- The cards of the losers could be moved into the survivor by hand. -/
def stateCheck (survivor : Int) (losers : List Int) : Except Refusal Unit :=
  match db.flows.find? fun f => survivor∈flowStateIds db f.id&&
      holdsLoser db losers (·.attributeDefId=f.attributeDefId)&&
      stateRoleGated env db actor f survivor f.scopeCardId with
  | none => .ok ()
  | some _ => refuse "flow_role_required" s!"moving cards into {survivor} needs a role you don't hold"

/-- The live cards under the losers. -/
def orphans (losers : List Int) : List Card :=
  db.cards.filter fun c => !c.deleted&&c.parentCardId.any (· ∈ losers)

/-- The losers' cards have room under the survivor, which is under none of the losers. -/
def orphansCheck (survivor : Int) (losers : List Int) : Except Refusal Unit :=
  let roots := (orphans db losers).map (·.id)
  if roots=[] then .ok ()
  else if (cardAncestors db survivor).any (·.id ∈ losers) then
    refuse "cycle" s!"survivor {survivor} is under a card being merged into it"
  else if 14 ≤ (cardAncestors db survivor).length+((levels db 16 roots).length-1) then
    refuse "too_deep" "the merged cards' children would nest more than 14 deep"
  else .ok ()

/-- The live cards under the losers go under the survivor, each with its activity. -/
def adopt (survivor : Int) (losers : List Int) : Db :=
  let moved := orphans db losers
  let after := db.setParent (· ∈ moved.map (·.id)) survivor
  { after with activity := db.activity++moved.map fun c =>
      ⟨c.id,"card_move",none,c.parentCardId.map Json.ofInt,some (.ofInt survivor),actor⟩ }

def isLoser (losers : List Int) (v : Json) : Bool := (refId v).any (· ∈ losers)

/-- The stored value with the losers' ids made the survivor's. -/
def repointed (survivor : Int) (losers : List Int) (t : ValueType) (v : Json) : Json :=
  match t,v with
  | .cardRef,v => if isLoser losers v then .ofInt survivor else v
  | .cardRefs,.arr xs =>
    if xs.any (isLoser losers) then
      let renamed := xs.map fun x => if isLoser losers x then .ofInt survivor else x
      .arr ((renamed.insertionSort (Json.cmp · · ≠.gt)).eraseRepsBy (Json.cmp · · ==.eq))
    else .arr xs
  | _,v => v

/-- `card_merge_into`. -/
def mergeInto (survivor : Int) (losers : List Int) : Db :=
  let owned := db.mapCards fun c =>
    if c.privateTo.any (· ∈ losers) then { c with privateTo := some survivor } else c
  let gone := owned.mapCards fun c => if c.id∈losers then { c with deleted := true } else c
  { gone with
    values := db.values.map fun v => { v with
      value := (db.attributeDef v.attributeDefId).elim v.value
        fun d => repointed survivor losers d.valueType v.value }
    activity := db.activity++losers.map (fun loser =>
        ⟨loser,"card_merge",none,none,some (.str (toString survivor)),actor⟩)++
      [⟨survivor,"card_merge",none,none,some (.arr (losers.map fun l => .str (toString l))),actor⟩] }

/-- One row. -/
def merge (input : Input) : Except Refusal Db := do
  let (survivor,losers) ← validate input
  let s ← survivorCheck env db actor survivor
  losers.forM (loserCheck env db actor s)
  rootCheck env db actor losers
  stateCheck env db actor survivor losers
  orphansCheck db survivor losers
  return mergeInto (adopt db actor survivor losers) actor survivor losers

variable {env : Env} {db : Db} {actor survivor : Int} {losers : List Int}

theorem validate_ok {input : Input} (h : validate input=.ok (survivor,losers)) :
    survivor∉losers := by
  simp only [validate] at h
  split at h
  · cases h
  · split at h
    · cases h
    · split at h
      · cases h
      · rename_i hs
        cases h
        exact hs

theorem survivorCheck_ok {c : Card} (h : survivorCheck env db actor survivor=.ok c) :
    db.card survivor=some c := by
  unfold survivorCheck at h
  split at h
  · cases h
  · rename_i d hd
    split at h
    · cases h
    · split at h
      · cases h
      · cases h
        exact (Option.filter_eq_some_iff.mp hd).1

theorem survivorCheck_live {c : Card} (h : survivorCheck env db actor survivor=.ok c) :
    c.deleted=false := by
  unfold survivorCheck at h
  split at h
  · cases h
  · rename_i d hd
    split at h
    · cases h
    · split at h
      · cases h
      · cases h
        simpa using (Option.filter_eq_some_iff.mp hd).2

theorem survivorCheck_person {c : Card} (h : survivorCheck env db actor survivor=.ok c) :
    db.cardTypeName c≠some "person" := by
  unfold survivorCheck at h
  split at h
  · cases h
  · split at h
    · cases h
    · rename_i hperson
      split at h
      · cases h
      · cases h
        exact hperson

/-- A loser is of the survivor's type, and private to the same person or shared as it is. -/
theorem loserCheck_private {s : Card} {loser : Int} (h : loserCheck env db actor s loser=.ok ()) :
    ∃ c, db.card loser=some c∧c.cardTypeId=s.cardTypeId∧c.privateTo=s.privateTo := by
  unfold loserCheck at h
  split at h
  · cases h
  · rename_i c hc
    split at h
    · cases h
    · split at h
      · cases h
      · rename_i htype
        split at h
        · cases h
        · split at h
          · cases h
          · rename_i hprivate
            exact ⟨c,(Option.filter_eq_some_iff.mp hc).1,not_not.mp htype,not_not.mp hprivate⟩

/-- A loser is a live card of the survivor's type. -/
theorem loserCheck_ok {s : Card} {loser : Int} (h : loserCheck env db actor s loser=.ok ()) :
    ∃ c, db.card loser=some c∧c.deleted=false∧c.cardTypeId=s.cardTypeId := by
  unfold loserCheck at h
  split at h
  · cases h
  · rename_i c hc
    obtain ⟨hcard,hlive⟩ := Option.filter_eq_some_iff.mp hc
    split at h
    · cases h
    · split at h
      · cases h
      · rename_i htype
        exact ⟨c,hcard,by simpa using hlive,not_not.mp htype⟩

theorem orphansCheck_ok (h : orphansCheck db survivor losers=.ok ())
    (hne : orphans db losers≠[]) :
    (∀ c∈cardAncestors db survivor, c.id∉losers)∧
      (cardAncestors db survivor).length+
        ((levels db 16 ((orphans db losers).map (·.id))).length-1)<14 := by
  simp only [orphansCheck,List.map_eq_nil_iff,hne,if_false] at h
  split at h
  · cases h
  · rename_i hcycle
    split at h
    · cases h
    · rename_i hdeep
      refine ⟨?_,by omega⟩
      simpa using hcycle

/-- What a merge that went through was checked for, and what it leaves. -/
theorem merge_ok {input : Input} {db' : Db} (h : merge env db actor input=.ok db') :
    ∃ survivor losers, validate input=.ok (survivor,losers)∧survivor∉losers∧
      (db.card survivor).isSome∧orphansCheck db survivor losers=.ok ()∧
      db'=mergeInto (adopt db actor survivor losers) actor survivor losers := by
  unfold merge at h
  obtain ⟨⟨survivor,losers⟩,hv,h⟩ := bind_ok h
  obtain ⟨s,hs,h⟩ := bind_ok h
  obtain ⟨_,_,h⟩ := bind_ok h
  obtain ⟨_,_,h⟩ := bind_ok h
  obtain ⟨_,_,h⟩ := bind_ok h
  obtain ⟨_,horphans,h⟩ := bind_ok h
  cases h
  exact ⟨survivor,losers,hv,validate_ok hv,by simp [survivorCheck_ok hs],horphans,rfl⟩

/-- The survivor and the losers are live, and of one type. -/
theorem merge_alike {input : Input} {db' : Db} (h : merge env db actor input=.ok db') :
    ∃ survivor losers s, validate input=.ok (survivor,losers)∧db.card survivor=some s∧
      s.deleted=false∧
      (∀ l∈losers, ∃ c, db.card l=some c∧c.deleted=false∧c.cardTypeId=s.cardTypeId)∧
      db'=mergeInto (adopt db actor survivor losers) actor survivor losers := by
  unfold merge at h
  obtain ⟨⟨survivor,losers⟩,hv,h⟩ := bind_ok h
  obtain ⟨s,hs,h⟩ := bind_ok h
  obtain ⟨_,hlosers,h⟩ := bind_ok h
  obtain ⟨_,_,h⟩ := bind_ok h
  obtain ⟨_,_,h⟩ := bind_ok h
  obtain ⟨_,_,h⟩ := bind_ok h
  cases h
  exact ⟨survivor,losers,s,hv,survivorCheck_ok hs,survivorCheck_live hs,
    fun l hl => loserCheck_ok (forM_ok hlosers l hl),rfl⟩

end Kitp.CardMerge
