import Kitp.CardDelete

/-! `task_purge_batch`: one row, from its checks to the rows it removes. -/
namespace Kitp.TaskPurge
open Kitp.Store Kitp.CardDelete Kitp.Steps

/-- What a refusal adds to its message. -/
inductive Detail where
  | blockedBy (steps : List Blocker)
  | liveSubtasks (count : Nat)

structure PurgeRefusal extends Refusal where
  detail : Option Detail := none

variable (attached : Int → Bool) (db : Db) (cardId : Int)

/-- A purged task may be deleted already. -/
def purgedTask : Except PurgeRefusal Card :=
  match (db.card cardId).bind fun c => (db.cardTypeName c).map (c,·) with
  | none => .error { code := "card_not_found", message := s!"task.purge: card {cardId} not found" }
  | some (c,name) =>
    if name≠"task" then
      .error { code := "wrong_card_type", message := s!"task.purge: card {cardId} is not a task" }
    else .ok c

def stepCheck : Except PurgeRefusal Unit :=
  let steps := stepsNaming db cardId
  if steps≠[] then
    .error { code := "value_referenced_by_flow"
             message := s!"task.purge: card {cardId} is referenced by {steps.length} flow_step row(s); remove the steps first"
             detail := some (.blockedBy (blockers db cardId)) }
  else .ok ()

/-- The live cards whose parent task this is. -/
def subtasks : List AttributeValue :=
  db.values.filter fun v => (db.attributeDef v.attributeDefId).any (·.name="parent_task")&&
    db.live v.cardId&&match v.value with
      | .num n => n.whole=some cardId
      | _ => false

def subtaskCheck : Except PurgeRefusal Unit :=
  let n := (subtasks db cardId).length
  if 0<n then
    .error { code := "has_live_subtasks"
             message := s!"task.purge: card {cardId} has {n} live sub-task(s); purge or re-parent them first"
             detail := some (.liveSubtasks n) }
  else .ok ()

def childrenOf (typeName : String) : List Int :=
  ((db.cards.filter fun c => c.parentCardId=some cardId∧db.cardTypeName c=some typeName).map
    (·.id)).insertionSort (· ≤ ·)

/-- The live children that don't go with the task. -/
def othersUnder : List Card :=
  db.cards.filter fun c => c.parentCardId=some cardId&&!c.deleted&&
    (db.cardTypeName c).any (· ∉ ["comm","link","approval"])

def childCheck : Except PurgeRefusal Unit :=
  let n := (othersUnder db cardId).length
  if 0<n then
    .error { code := "has_live_children"
             message := s!"task.purge: card {cardId} has {n} live non-comm child card(s); detach or delete them first" }
  else .ok ()

/-- The messages the threads list. -/
def messagesOf (threads : List Int) : List Int :=
  ((db.values.filter fun v => v.cardId∈threads&&
      (db.attributeDef v.attributeDefId).any (·.name="replies")).flatMap fun v =>
    match v.value with
    | .arr xs => xs.filterMap fun x =>
        match x with
        | .num n => n.whole.filter fun id =>
            (db.card id).any (db.cardTypeName · =some "reply_body")
        | _ => none
    | _ => []).dedup.insertionSort (· ≤ ·)

/-- The rows of the cards are gone, and the flows of their scope with them. -/
def without (gone : List Int) : Db :=
  let kept := db.flows.filter (·.scopeCardId∉gone)
  { db.dropValues (·.cardId∈gone) with
    activity := db.activity.filter (·.cardId∉gone)
    cards := db.cards.filter (·.id∉gone)
    flows := kept
    flowSteps := db.flowSteps.filter fun s => s.flowId∈kept.map (·.id) }

/-- A row that stays has a key of a row that goes. -/
def stillNamed (gone : List Int) : Bool :=
  (db.cards.any fun c => c.parentCardId.any (· ∈ gone)||c.privateTo.any (· ∈ gone))||
    (db.flows.any fun f => f.defaultCreateStatusId.any (· ∈ gone))||
    db.flowSteps.any fun s => s.fromCardId∈gone||s.toCardId∈gone

/-- `DELETE FROM card`, after the values and the activities of the cards. -/
def dropCards (held : Int → Bool) (gone : List Int) : Except PurgeRefusal Db :=
  let left := without db gone
  if gone.any held||stillNamed left gone then
    .error { code := "23503"
             message := "update or delete on table \"card\" violates foreign key constraint" }
  else .ok left

structure Purged where
  cardIds : List Int
  replyBodyIds : List Int

/-- `task.purge`; `attached` are the cards files hang on, and a thread's and the task's own
files go first. -/
def purge (input : Option Int) : Except PurgeRefusal (Db×Purged) := do
  let id ← (cardNamed "task.purge" input).mapError fun e => { toRefusal := e }
  let _ ← purgedTask db id
  stepCheck db id
  subtaskCheck db id
  childCheck db id
  let threads := childrenOf db id "comm"
  let links := childrenOf db id "link"
  let requests := childrenOf db id "approval"
  let messages := messagesOf db threads
  let db ← dropCards db attached messages
  let db ← dropCards db (fun _ => false) threads
  let db ← dropCards db attached links
  let db ← dropCards db attached requests
  let db ← dropCards db (fun _ => false) [id]
  return (db,⟨messages++threads++links++requests++[id],messages⟩)

/-- The task, what is its own, and the messages of its threads. -/
def own : List Int :=
  messagesOf db (childrenOf db cardId "comm")++childrenOf db cardId "comm"++
    childrenOf db cardId "link"++childrenOf db cardId "approval"++[cardId]

variable {attached : Int → Bool} {db db' : Db} {cardId : Int} {gone : List Int}

theorem dropCards_ok {held : Int → Bool} (h : dropCards db held gone=.ok db') :
    db'=without db gone := by
  simp only [dropCards] at h
  split at h
  · cases h
  · cases h
    rfl

theorem without_card (db : Db) (gone : List Int) (x : Int) :
    (without db gone).card x=if x∈gone then none else db.card x := by
  simp only [Db.card,without,List.find?_filter]
  by_cases hx : x∈gone
  · rw [if_pos hx,List.find?_eq_none]
    intro c _ hc
    simp only [decide_eq_true_eq] at hc
    exact hc.1 (hc.2 ▸ hx)
  · rw [if_neg hx]
    congr 1
    funext c
    by_cases hc : c.id=x
    · simp [hc,hx]
    · simp [hc]

theorem mem_without {v : AttributeValue} :
    v∈(without db gone).values↔v∈db.values∧v.cardId∉gone := by
  simp [without,Db.dropValues]

/-- The second state is the first without some cards and their values. -/
structure Purges (db : Db) (gone : List Int) (db' : Db) : Prop where
  attributeDefs : db'.attributeDefs=db.attributeDefs
  nextCardId : db'.nextCardId=db.nextCardId
  cards : List.Sublist db'.cards db.cards
  values : List.Sublist db'.values db.values
  card : ∀ x, db'.card x=if x∈gone then none else db.card x
  mem : ∀ v, v∈db'.values↔v∈db.values∧v.cardId∉gone

theorem Purges.without (db : Db) (gone : List Int) : Purges db gone (without db gone) where
  attributeDefs := rfl
  nextCardId := rfl
  cards := List.filter_sublist
  values := List.filter_sublist
  card := without_card db gone
  mem _ := mem_without

theorem Purges.trans {db'' : Db} {more : List Int} (h : Purges db gone db')
    (k : Purges db' more db'') : Purges db (gone++more) db'' where
  attributeDefs := k.attributeDefs.trans h.attributeDefs
  nextCardId := k.nextCardId.trans h.nextCardId
  cards := k.cards.trans h.cards
  values := k.values.trans h.values
  card x := by
    rw [k.card,h.card]
    by_cases hm : x∈more
    · simp [hm]
    · simp [hm]
  mem v := by
    rw [k.mem,h.mem,List.mem_append,and_assoc,not_or]

theorem purge_ok {input : Option Int} {p : Purged} (h : purge attached db input=.ok (db',p)) :
    ∃ id, input=some id∧Purges db (own db id) db' := by
  unfold purge at h
  obtain ⟨id,hid,h⟩ := bind_ok h
  obtain ⟨c,_,h⟩ := bind_ok h
  obtain ⟨_,_,h⟩ := bind_ok h
  obtain ⟨_,_,h⟩ := bind_ok h
  obtain ⟨_,_,h⟩ := bind_ok h
  obtain ⟨db₁,h₁,h⟩ := bind_ok h
  obtain ⟨db₂,h₂,h⟩ := bind_ok h
  obtain ⟨db₃,h₃,h⟩ := bind_ok h
  obtain ⟨db₄,h₄,h⟩ := bind_ok h
  obtain ⟨db₅,h₅,h⟩ := bind_ok h
  cases h
  rw [dropCards_ok h₅,dropCards_ok h₄,dropCards_ok h₃,dropCards_ok h₂,dropCards_ok h₁]
  exact ⟨id,cardNamed_ok (mapError_ok hid),((((Purges.without _ _).trans (.without _ _)).trans (.without _ _)).trans
    (.without _ _)).trans (.without _ _)⟩

end Kitp.TaskPurge
