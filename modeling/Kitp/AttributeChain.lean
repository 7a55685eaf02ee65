import Kitp.Lib.Cell
import Kitp.AttributeUpdate

/-! Concurrent `attribute.update` transactions on one attribute of one card: the flow gate,
the value taken for `value_old` and the upsert are statements of their own. -/
namespace Kitp.AttributeChain
open Kitp.Store Kitp.Accounts Kitp.Attributes Kitp.FlowGate Kitp.AttributeUpdate Kitp.Runs

/-- A row of a transaction: who writes, and the value of the request. -/
structure Op where
  actor : Int
  value : Option Json

variable (dir : Directory) (pick : List FlowStep → Option FlowStep) (db : Db) (cardId : Int)
  (attr : AttributeDef) (isRequired : Bool)

/-- The rows with this value of the card's attribute. -/
def withValue (v : Option Json) : Db :=
  { db with values :=
      (db.values.filter fun w => ¬(w.cardId=cardId∧w.attributeDefId=attr.id))++
        v.toList.map (⟨cardId,attr.id,·⟩) }

/-- What the row stores, when its value has a form to store. -/
def stored (op : Op) : Option Json := (normalise attr isRequired op.value).toOption.map (·.1)

/-- The gate, on the value it reads. The checks before it refuse a row or pass it: a refused
row ends its transaction. -/
def gate (op : Op) (v : Option Json) : Bool :=
  (stored attr isRequired op).any fun norm =>
    (flowGate (withValue db cardId attr v) dir pick op.actor cardId attr norm).toBool

variable {ι : Type} [DecidableEq ι]

/-- The card row is held `FOR SHARE`, which keeps no other `attribute.update` out. -/
def step : Cell.State ι Op (Option Json) → Cell.Event ι → Option (Cell.State ι Op (Option Json)) :=
  Cell.step (gate dir pick db cardId attr isRequired) fun op _ => stored attr isRequired op

/-- The flow that governs the attribute on the card. -/
def boundFlow : Option Flow := (cardEnclosingProject db cardId).bind (flowOf db attr.id)

/-- The gate passes on the value, and a governed value is set to a card, not taken away. -/
def sound (op : Op) (v : Option Json) : Bool :=
  gate dir pick db cardId attr isRequired op v&&
    ((boundFlow db cardId attr).isNone||
      (attr.valueType=.cardRef&&(stored attr isRequired op).any (· ≠ .null)))

def stateOf (v : Option Json) : Option Int :=
  match v with
  | some (.num n) => n.whole
  | _ => none

/-- From one state of the flow to itself, or along one of its steps. -/
def Follows (flow : Flow) (old new : Option Json) : Prop :=
  ∃ a b, stateOf old=some a∧stateOf new=some b∧
    (a=b∨∃ s∈db.flowSteps, s.flowId=flow.id∧s.fromCardId=a∧s.toCardId=b)

variable {dir pick db cardId attr isRequired}

theorem value_withValue (v : Option Json) : (withValue db cardId attr v).value cardId attr.id=v := by
  have hnone : (db.values.filter fun w => ¬(w.cardId=cardId∧w.attributeDefId=attr.id)).find?
      (fun w => w.cardId=cardId∧w.attributeDefId=attr.id)=none := by
    rw [List.find?_eq_none]
    intro w hw
    simpa only [decide_eq_true_eq] using (List.mem_filter.mp hw).2
  simp only [Db.value,withValue,List.find?_append,hnone,Option.none_or]
  cases v <;> simp

/-- A `card_ref` is stored as a number, or taken away. -/
theorem stored_cardRef {op : Op} {norm : Json} (ht : attr.valueType=.cardRef)
    (h : stored attr isRequired op=some norm) (hn : norm≠.null) : ∃ n, norm=.num n := by
  cases hnorm : normalise attr isRequired op.value with
  | error e => simp [stored,hnorm,Except.toOption] at h
  | ok form =>
    have hform : form.1=norm := by simpa [stored,hnorm,Except.toOption] using h
    rcases normalise_cardRef ht hnorm with ⟨-,hnull⟩ | ⟨v,id,-,hid,hv,-⟩
    · exact absurd (hform.symm.trans hnull) hn
    · obtain ⟨n,hcanon,-⟩ := canonRef_num hid
      exact ⟨n,hform.symm.trans (hv.trans hcanon)⟩

/-- A gate that passes on a number takes a step of the flow, or none at all. -/
theorem follows_of_gate (hpick : Picks pick) {flow : Flow} {actor : Int} {v : Option Json}
    {n : Json.Number} (ht : attr.valueType=.cardRef) (hflow : boundFlow db cardId attr=some flow)
    (h : flowGate (withValue db cardId attr v) dir pick actor cardId attr (.num n)=.ok ()) :
    Follows db flow v (some (.num n)) := by
  obtain ⟨project,hproject,hof⟩ := Option.bind_eq_some_iff.mp hflow
  have hproject : cardEnclosingProject (withValue db cardId attr v) cardId=some project := hproject
  have hof : flowOf (withValue db cardId attr v) attr.id project=some flow := hof
  have hcur : currentState (withValue db cardId attr v) cardId attr.id=stateOf v := by
    rw [currentState,value_withValue]
    rfl
  obtain ⟨prev,new,hprev,hnew,hgo⟩ := flowGate_ok ht hproject hof h
  refine ⟨prev,new,hcur.symm.trans hprev,hnew,?_⟩
  cases hgo with
  | inl hsame => exact .inl hsame.symm
  | inr hcode => exact .inr (flowCode_step hpick hcode)

/-- Where a sound write goes along the flow. -/
theorem follows_of_sound (hpick : Picks pick) {flow : Flow} {op : Op} {v : Option Json}
    (hflow : boundFlow db cardId attr=some flow)
    (h : sound dir pick db cardId attr isRequired op v=true) :
    Follows db flow v (stored attr isRequired op) := by
  simp only [sound,hflow,Option.isNone_some,Bool.false_or,Bool.and_eq_true,
    decide_eq_true_eq] at h
  obtain ⟨hgate,ht,hset⟩ := h
  cases hnorm : stored attr isRequired op with
  | none => simp [hnorm] at hset
  | some norm =>
    have hne : norm≠.null := by simpa [hnorm] using hset
    obtain ⟨n,rfl⟩ := stored_cardRef ht hnorm hne
    cases hg : flowGate (withValue db cardId attr v) dir pick op.actor cardId attr (.num n) with
    | error e => simp [gate,hnorm,hg,Except.toBool] at hgate
    | ok u => exact follows_of_gate hpick ht hflow hg

/-- The changes that transactions commit side by side form one chain, along the flow, when
each upsert follows a read that is still current, passes the gate there and takes no governed
value away. -/
theorem updates_linked (dir : Directory) (pick : List FlowStep → Option FlowStep) (db : Db)
    (cardId : Int) (attr : AttributeDef) (isRequired : Bool) (hpick : Picks pick)
    (value : Option Json) (plan : ι → List Op) (events : List (Cell.Event ι))
    (s : Cell.State ι Op (Option Json))
    (hrun : Run (step dir pick db cardId attr isRequired)
      (Cell.Fresh (sound dir pick db cardId attr isRequired)) (Cell.start value plan) events s) :
    Cell.Linked value s.log s.value∧∀ flow, boundFlow db cardId attr=some flow →
      ∀ e∈s.log, Follows db flow e.old e.new := by
  have hinv := Cell.run_chain hrun
  refine ⟨hinv.chain.linked,?_⟩
  intro flow hflow e he
  obtain ⟨hsound,hnew⟩ := hinv.chain.entry he
  rw [hnew]
  exact follows_of_sound hpick hflow hsound

/-- A task in status 5, which leads to 6 and to 7; 6 leads back to 5. -/
def board : Db where
  cardTypes := [⟨1,"project",none,false⟩,⟨2,"task",some 1,true⟩,⟨3,"status",some 1,false⟩]
  attributeDefs := [status]
  cards := [⟨1,1,none,none,false,.triage⟩,⟨2,2,some 1,none,false,.triage⟩,
    ⟨5,3,some 1,none,false,.triage⟩,⟨6,3,some 1,none,false,.active⟩,
    ⟨7,3,some 1,none,false,.active⟩]
  values := [⟨2,8,.ofInt 5⟩]
  flows := [taskFlow]
  flowSteps := [⟨1,1,5,6,none,"Start",0,true⟩,⟨2,1,5,7,none,"Park",1,true⟩,
    ⟨3,1,6,5,none,"Back",2,true⟩]

def anyone : Directory := ⟨[],[],[],[]⟩

def goTo (id : Int) : Op := ⟨2,some (.ofInt id)⟩

def rivals (first : Bool) : List Op := if first then [goTo 6] else [goTo 7]

/-- Both gates read status 5 before either write. -/
def overlapping : List (Cell.Event Bool) :=
  [.gate true,.load true,.gate false,.load false,.write true,.commit true,.write false,
    .commit false]

/-- Two moves off status 5, both committed: the second's old value is not what the first
left, and no step leads from one to the other. -/
theorem rival_updates_unlinked : ∃ s, Run (step anyone List.head? board 2 status true)
    (fun _ _ => True) (Cell.start (some (.ofInt 5)) rivals) overlapping s∧
      ¬Cell.Linked (some (.ofInt 5)) s.log s.value∧
      s.log.map (·.new)=[some (.ofInt 6),some (.ofInt 7)]∧
      ¬Follows board taskFlow (some (.ofInt 6)) (some (.ofInt 7)) := by
  have hend : (overlapping.foldlM (step anyone List.head? board 2 status true)
      (Cell.start (some (.ofInt 5)) rivals)).map (fun s => s.log.map fun e => (e.old,e.new))=
      some [(some (.ofInt 5),some (.ofInt 6)),(some (.ofInt 5),some (.ofInt 7))] := rfl
  obtain ⟨s,hs,hend⟩ := Option.map_eq_some_iff.mp hend
  obtain ⟨x,l,hlog,hx,hl⟩ := List.map_eq_cons_iff.mp hend
  obtain ⟨y,l',rfl,hy,hl'⟩ := List.map_eq_cons_iff.mp hl
  have hnil : l'=[] := List.map_eq_nil_iff.mp hl'
  subst hnil
  have hxnew : x.new=some (.ofInt 6) := (Prod.ext_iff.mp hx).2
  have hyold : y.old=some (.ofInt 5) := (Prod.ext_iff.mp hy).1
  have hynew : y.new=some (.ofInt 7) := (Prod.ext_iff.mp hy).2
  refine ⟨s,Run.of_foldlM hs fun _ _ _ => trivial,?_,?_,?_⟩
  · intro h
    have hlast : s.log=[x]++[⟨y.op,y.old,y.new⟩] := hlog
    rw [hlast] at h
    have hfirst : Cell.Linked (some (.ofInt 5)) ([]++[⟨x.op,x.old,x.new⟩]) y.old := h.last.1
    have hold : y.old=x.new := hfirst.last.2
    rw [hyold,hxnew] at hold
    exact absurd hold (by decide)
  · simp [hlog,hxnew,hynew]
  · intro h
    obtain ⟨a,b,ha,hb,h⟩ := h
    have ha : a=6 := Option.some.inj (ha.symm.trans rfl)
    have hb : b=7 := Option.some.inj (hb.symm.trans rfl)
    subst ha
    subst hb
    revert h
    decide

def turns (first : Bool) : List Op := if first then [goTo 6] else [goTo 5]

/-- There and back, the second gate after the first commit. -/
theorem turns_linked : ∃ s, Run (step anyone List.head? board 2 status true)
    (Cell.Fresh (sound anyone List.head? board 2 status true))
    (Cell.start (some (.ofInt 5)) turns)
    [.gate true,.load true,.write true,.commit true,.gate false,.load false,.write false,
      .commit false] s∧s.value=some (.ofInt 5)∧Cell.Linked (some (.ofInt 5)) s.log s.value := by
  have hrun : Run (step anyone List.head? board 2 status true)
      (Cell.Fresh (sound anyone List.head? board 2 status true))
      (Cell.start (some (.ofInt 5)) turns)
      [.gate true,.load true,.write true,.commit true,.gate false,.load false,.write false,
        .commit false] _ :=
    .cons trivial rfl <| .cons trivial rfl <|
      .cons (fun _ _ _ h => by cases h; exact ⟨rfl,rfl⟩) rfl <| .cons trivial rfl <|
      .cons trivial rfl <| .cons trivial rfl <|
      .cons (fun _ _ _ h => by cases h; exact ⟨rfl,rfl⟩) rfl <| .cons trivial rfl <| .nil _
  exact ⟨_,hrun,rfl,(updates_linked anyone List.head? board 2 status true picks_head _ _ _ _
    hrun).1⟩

end Kitp.AttributeChain
