import Kitp.CardTree
import Kitp.FlowSet

/-! Where the states of a flow are, over runs of `flow.set`, `flow_step.set`, the deletes
and `card.move`. -/
namespace Kitp.FlowStates
open Kitp.Store Kitp.Accounts Kitp.Forest Kitp.FlowSet Kitp.Runs Kitp.Steps

/-- The tree, and the keys and references of the flow tables. -/
structure Kept (db : Db) : Prop where
  tree : CardTree.Sound db
  ids : ∀ f∈db.flows, ∀ g∈db.flows, f.id=g.id → f=g
  fresh : ∀ f∈db.flows, f.id<db.nextFlowId
  owners : ∀ s∈db.flowSteps, ∃ f∈db.flows, f.id=s.flowId

/-- A card a flow may have as a state: of its attribute's target type, in its project or
in none. -/
def StateOf (db : Db) (f : Flow) (x : Int) : Prop :=
  Targets db f.attributeDefId x∧Within db f.scopeCardId x

/-- Every default and both ends of every step are such cards. -/
structure Placed (db : Db) : Prop where
  starts : ∀ f∈db.flows, ∀ x, f.defaultCreateStatusId=some x → StateOf db f x
  steps : ∀ f∈db.flows, ∀ s∈db.flowSteps, s.flowId=f.id →
    StateOf db f s.fromCardId∧StateOf db f s.toCardId

/-- One row of a call. -/
inductive Op where
  | flowSet (input : SetInput)
  | flowStepSet (dir : Directory) (input : StepSetInput)
  | flowDelete (flowId : Option Int)
  | flowStepDelete (flowStepId : Option Int)
  | move (acc : Access) (actor : Int) (input : CardMove.Input)

/-- What the call leaves when it succeeds. -/
def step (db : Db) : Op → Option Db
  | .flowSet input => (flowSet db input).toOption
  | .flowStepSet dir input => (flowStepSet db dir input).toOption
  | .flowDelete flowId => (flowDelete db flowId).toOption.map (·.1)
  | .flowStepDelete flowStepId => (flowStepDelete db flowStepId).toOption.map (·.1)
  | .move acc actor input => (CardMove.move acc actor db input).toOption

/-- What the calls leave to the admin: a flow that has steps is set only to an attribute
and a project its steps fit, and a step only to states its flow's project has. -/
def Placing (db : Db) : Op → Prop
  | .flowSet input => input.id.getD 0≠0 → ∀ s∈db.flowSteps, s.flowId=input.id.getD 0 →
      ∀ x, x=s.fromCardId∨x=s.toCardId →
        Targets db (input.attributeDefId.getD 0) x∧Within db (input.scopeCardId.getD 0) x
  | .flowStepSet _ input => ∀ f∈db.flows, f.id=input.flowId.getD 0 →
      Within db f.scopeCardId (input.fromCardId.getD 0)∧
        Within db f.scopeCardId (input.toCardId.getD 0)
  | _ => True

variable {db db' : Db} {f : Flow} {x : Int}

theorem stateOf_congr (h : SameCards db db') : StateOf db' f x↔StateOf db f x := by
  have hdef (i : Int) : db'.attributeDef i=db.attributeDef i := by
    simp only [Db.attributeDef,h.attributeDefs]
  have hup : db'.parentCard=db.parentCard := by
    funext c
    simp only [Db.parentCard,h.card]
  have hproject : cardEnclosingProject db' x=cardEnclosingProject db x := by
    simp only [cardEnclosingProject,cardAncestors,h.card,hup,h.cardTypeName]
  simp only [StateOf,Targets,Within,h.card,hdef,hproject]

section Moves
variable {m : CardMove.Move}

theorem setParent_project (db : Db) (moved : Int → Bool) (s y : Int) :
    (∃ p, (db.setParent moved s).card y=some p∧
      (db.setParent moved s).cardTypeName p=some "project")↔
      ∃ p, db.card y=some p∧db.cardTypeName p=some "project" := by
  have hname (c : Card) : (db.setParent moved s).cardTypeName c=db.cardTypeName c := rfl
  rw [setParent_card]
  cases db.card y with
  | none => simp
  | some c =>
    simp only [Option.map_some,Option.some.injEq,exists_eq_left',hname]
    split <;> rfl

theorem setParent_parent_ne {c s z : Int} (hz : z≠c) :
    (db.setParent (· = c) s).parent z=db.parent z := by
  unfold Db.parent
  rw [setParent_card]
  simp [hz]

theorem setParent_parent_self {c s : Int} (hc : (db.card c).isSome) :
    (db.setParent (· = c) s).parent c=some s := by
  obtain ⟨e,he⟩ := Option.isSome_iff_exists.mp hc
  unfold Db.parent
  rw [setParent_card,he]
  simp

/-- A card that isn't under the moved one stays in its project. -/
theorem enclosing_beside {c s : Int} (h : CardTree.Sound db)
    (h' : CardTree.Sound (db.setParent (· = c) s)) (hx : ¬Reaches db.parent x c) :
    cardEnclosingProject (db.setParent (· = c) s) x=cardEnclosingProject db x := by
  have hagree : ∀ z, Reaches db.parent x z →
      (db.setParent (· = c) s).parent z=db.parent z := by
    intro z hz
    apply setParent_parent_ne
    intro hzc
    exact hx (hzc ▸ hz)
  ext y
  rw [h'.enclosing_iff,h.enclosing_iff,setParent_project,reaches_iff_of_agree hagree]

/-- A card under it goes along, into the project of the new parent. -/
theorem enclosing_moved {c s : Int} (h : CardTree.Sound db)
    (h' : CardTree.Sound (db.setParent (· = c) s)) (hc : (db.card c).isSome)
    (hs : ¬Reaches db.parent s c) (hx : Reaches db.parent x c) :
    cardEnclosingProject (db.setParent (· = c) s) x=cardEnclosingProject db s := by
  have hxc : Reaches (db.setParent (· = c) s).parent x c :=
    reaches_of_agree (fun z hz => (setParent_parent_ne hz).symm) hx
  have hxs : Reaches (db.setParent (· = c) s).parent x s :=
    hxc.tail (setParent_parent_self hc)
  rw [h'.enclosing_above hxs,enclosing_beside h h' hs]

/-- A state of a flow stays in its project. -/
theorem enclosing_move {acc : Access} {actor : Int} {input : CardMove.Input}
    (h : CardTree.Sound db) (hm : CardMove.move acc actor db input=.ok db')
    (hx : db.flows.any (·.defaultCreateStatusId=some x)||
      db.flowSteps.any fun s => s.fromCardId=x∨s.toCardId=x) :
    cardEnclosingProject db' x=cardEnclosingProject db x := by
  have hdb' := h.move hm
  obtain ⟨m,c,t,-,hc,-,-,hparent,hcycle,hdepth,hflow,a,rfl⟩ := CardMove.move_ok hm
  have hmoved : CardTree.Sound (db.setParent (· = m.cardId) m.newParent) :=
    hdb'.congr ⟨rfl,rfl,rfl,rfl,rfl⟩
  have hrow : (db.card m.cardId).isSome := by simp [hc]
  have hs : ¬Reaches db.parent m.newParent m.cardId :=
    CardMove.not_above_of_cycle_ok hcycle (by omega) hrow
  change cardEnclosingProject (db.setParent (· = m.cardId) m.newParent) x=_
  by_cases hr : Reaches db.parent x m.cardId
  · rw [enclosing_moved h hmoved hrow hs hr,h.enclosing_above hr]
    cases hflow with
    | inl hnone =>
      have := List.find?_eq_none.mp hnone x (h.mem_subtree hr)
      exact absurd hx this
    | inr heq => exact heq
  · exact enclosing_beside h hmoved hr

end Moves

section Writes

/-- One flow is written, the steps stay. -/
theorem placed_flow (h : Placed db) (hs : SameCards db db')
    (hflows : ∀ g∈db'.flows, g=f∨(g∈db.flows∧g.id≠f.id)) (hf : f∈db'.flows)
    (hsteps : db'.flowSteps=db.flowSteps)
    (hstart : ∀ x, f.defaultCreateStatusId=some x → StateOf db f x) :
    Placed db'↔∀ s∈db.flowSteps, s.flowId=f.id → ∀ x, x=s.fromCardId∨x=s.toCardId →
      StateOf db f x := by
  constructor
  · intro h' s hmem hid x hx
    have hfit := h'.steps f hf s (hsteps ▸ hmem) hid
    rw [stateOf_congr hs,stateOf_congr hs] at hfit
    cases hx with
    | inl hx => exact hx ▸ hfit.1
    | inr hx => exact hx ▸ hfit.2
  · intro hfit
    refine ⟨?_,?_⟩
    · intro g hg x hx
      rw [stateOf_congr hs]
      cases hflows g hg with
      | inl hgf => exact hgf ▸ hstart x (hgf ▸ hx)
      | inr hold => exact h.starts g hold.1 x hx
    · intro g hg s hmem hid
      rw [stateOf_congr hs,stateOf_congr hs]
      rw [hsteps] at hmem
      cases hflows g hg with
      | inl hgf =>
        subst hgf
        exact ⟨hfit s hmem hid _ (.inl rfl),hfit s hmem hid _ (.inr rfl)⟩
      | inr hold => exact h.steps g hold.1 s hmem hid

/-- One step is written, the flows stay. -/
theorem placed_step {s : FlowStep} (h : Placed db) (hs : SameCards db db')
    (hsteps : ∀ t∈db'.flowSteps, t=s∨t∈db.flowSteps) (hmem : s∈db'.flowSteps)
    (hflows : db'.flows=db.flows) :
    Placed db'↔∀ f∈db.flows, s.flowId=f.id → StateOf db f s.fromCardId∧StateOf db f s.toCardId := by
  constructor
  · intro h' f hf hid
    have hfit := h'.steps f (hflows ▸ hf) s hmem hid
    rwa [stateOf_congr hs,stateOf_congr hs] at hfit
  · intro hfit
    refine ⟨?_,?_⟩
    · intro f hf x hx
      rw [stateOf_congr hs]
      exact h.starts f (hflows ▸ hf) x hx
    · intro f hf t ht hid
      rw [stateOf_congr hs,stateOf_congr hs]
      rw [hflows] at hf
      cases hsteps t ht with
      | inl hts =>
        subst hts
        exact hfit f hf hid
      | inr hold => exact h.steps f hf t hold hid

/-- Rows go, none is written. -/
theorem placed_fewer (h : Placed db) (hs : SameCards db db')
    (hflows : ∀ f∈db'.flows, f∈db.flows) (hsteps : ∀ s∈db'.flowSteps, s∈db.flowSteps) :
    Placed db' where
  starts f hf x hx := (stateOf_congr hs).mpr (h.starts f (hflows f hf) x hx)
  steps f hf s hmem hid :=
    have hfit := h.steps f (hflows f hf) s (hsteps s hmem) hid
    ⟨(stateOf_congr hs).mpr hfit.1,(stateOf_congr hs).mpr hfit.2⟩

theorem mem_setFlow {g : Flow} (hg : g∈(setFlow db f).flows) : g=f∨(g∈db.flows∧g.id≠f.id) := by
  obtain ⟨e,he,heg⟩ := List.mem_map.mp hg
  by_cases hid : e.id=f.id
  · rw [if_pos hid] at heg
    exact .inl heg.symm
  · rw [if_neg hid] at heg
    exact .inr (heg ▸ ⟨he,hid⟩)

theorem self_mem_setFlow (hf : ∃ g∈db.flows, g.id=f.id) : f∈(setFlow db f).flows := by
  obtain ⟨g,hg,hid⟩ := hf
  exact List.mem_map.mpr ⟨g,hg,if_pos hid⟩

theorem mem_setStep {s t : FlowStep} (ht : t∈(setStep db s).flowSteps) : t=s∨t∈db.flowSteps := by
  obtain ⟨e,he,het⟩ := List.mem_map.mp ht
  by_cases hid : e.id=s.id
  · rw [if_pos hid] at het
    exact .inl het.symm
  · rw [if_neg hid] at het
    exact .inr (het ▸ he)

theorem self_mem_setStep {s : FlowStep} (hs : ∃ t∈db.flowSteps, t.id=s.id) :
    s∈(setStep db s).flowSteps := by
  obtain ⟨t,ht,hid⟩ := hs
  exact List.mem_map.mpr ⟨t,ht,if_pos hid⟩

theorem mem_addFlow {g : Flow} : g∈(addFlow db f).flows↔g∈db.flows∨g=f := by
  simp [addFlow]

theorem mem_addStep {s t : FlowStep} : t∈(addStep db s).flowSteps↔t∈db.flowSteps∨t=s := by
  simp [addStep]

/-- No step runs ahead of the flow it is for. -/
theorem Kept.no_steps (h : Kept db) {s : FlowStep} (hs : s∈db.flowSteps) :
    s.flowId≠db.nextFlowId := by
  obtain ⟨f,hf,hid⟩ := h.owners s hs
  have := h.fresh f hf
  omega

theorem Kept.flowSet {input : SetInput} (h : Kept db) (hs : flowSet db input=.ok db') :
    Kept db' := by
  obtain ⟨f,-,hw⟩ := flowSet_ok hs
  cases hw with
  | inl hw =>
    obtain ⟨-,rfl⟩ := hw
    refine ⟨h.tree.congr ⟨rfl,rfl,rfl,rfl,rfl⟩,?_,?_,?_⟩
    · intro a ha b hb hab
      cases mem_addFlow.mp ha with
      | inl ha =>
        cases mem_addFlow.mp hb with
        | inl hb => exact h.ids a ha b hb hab
        | inr hb =>
          have := h.fresh a ha
          simp only [hab,hb] at this
          omega
      | inr ha =>
        cases mem_addFlow.mp hb with
        | inl hb =>
          have := h.fresh b hb
          simp only [← hab,ha] at this
          omega
        | inr hb => exact ha.trans hb.symm
    · intro a ha
      have hnext : (addFlow db { f with id := db.nextFlowId }).nextFlowId=db.nextFlowId+1 := rfl
      cases mem_addFlow.mp ha with
      | inl ha =>
        have := h.fresh a ha
        omega
      | inr ha =>
        subst ha
        simp only [hnext]
        omega
    · intro s hs
      obtain ⟨g,hg,hid⟩ := h.owners s hs
      exact ⟨g,mem_addFlow.mpr (.inl hg),hid⟩
  | inr hw =>
    obtain ⟨-,hf,rfl⟩ := hw
    refine ⟨h.tree.congr ⟨rfl,rfl,rfl,rfl,rfl⟩,?_,?_,?_⟩
    · intro a ha b hb hab
      cases mem_setFlow ha with
      | inl ha =>
        cases mem_setFlow hb with
        | inl hb => exact ha.trans hb.symm
        | inr hb => exact absurd (ha ▸ hab).symm hb.2
      | inr ha =>
        cases mem_setFlow hb with
        | inl hb => exact absurd (hb ▸ hab) ha.2
        | inr hb => exact h.ids a ha.1 b hb.1 hab
    · intro a ha
      cases mem_setFlow ha with
      | inl ha =>
        obtain ⟨g,hg,hid⟩ := hf
        have := h.fresh g hg
        rw [hid] at this
        exact ha ▸ this
      | inr ha => exact h.fresh a ha.1
    · intro s hs
      obtain ⟨g,hg,hid⟩ := h.owners s hs
      by_cases hgf : g.id=f.id
      · exact ⟨f,self_mem_setFlow hf,hgf.symm.trans hid⟩
      · exact ⟨g,List.mem_map.mpr ⟨g,hg,if_neg hgf⟩,hid⟩

theorem Kept.flowStepSet {dir : Directory} {input : StepSetInput} (h : Kept db)
    (hs : flowStepSet db dir input=.ok db') : Kept db' := by
  obtain ⟨s,f,-,hf,-,-,hw⟩ := flowStepSet_ok hs
  have howner : ∃ f∈db.flows, f.id=s.flowId :=
    ⟨f,List.mem_of_find?_eq_some hf,by simpa using List.find?_some hf⟩
  cases hw with
  | inl hw =>
    obtain ⟨-,rfl⟩ := hw
    refine ⟨h.tree.congr ⟨rfl,rfl,rfl,rfl,rfl⟩,h.ids,h.fresh,?_⟩
    intro t ht
    cases mem_addStep.mp ht with
    | inl ht => exact h.owners t ht
    | inr ht =>
      subst ht
      exact howner
  | inr hw =>
    obtain ⟨-,-,rfl⟩ := hw
    refine ⟨h.tree.congr ⟨rfl,rfl,rfl,rfl,rfl⟩,h.ids,h.fresh,?_⟩
    intro t ht
    cases mem_setStep ht with
    | inl ht =>
      subst ht
      exact howner
    | inr ht => exact h.owners t ht

theorem Kept.flowDelete {flowId : Option Int} {deleted : Bool} (h : Kept db)
    (hd : flowDelete db flowId=.ok (db',deleted)) : Kept db' := by
  obtain ⟨hnone,rfl⟩ := flowDelete_ok hd
  refine ⟨h.tree.congr ⟨rfl,rfl,rfl,rfl,rfl⟩,?_,?_,?_⟩
  · intro a ha b hb
    exact h.ids a (List.mem_of_mem_filter ha) b (List.mem_of_mem_filter hb)
  · intro a ha
    exact h.fresh a (List.mem_of_mem_filter ha)
  · intro s hs
    obtain ⟨f,hf,hid⟩ := h.owners s hs
    have hne : f.id≠flowId.getD 0 := fun heq => hnone s hs (hid.symm.trans heq)
    exact ⟨f,List.mem_filter.mpr ⟨hf,by simpa using hne⟩,hid⟩

theorem Kept.flowStepDelete {flowStepId : Option Int} {deleted : Bool} (h : Kept db)
    (hd : flowStepDelete db flowStepId=.ok (db',deleted)) : Kept db' := by
  have hdb := flowStepDelete_ok hd
  subst hdb
  exact ⟨h.tree.congr ⟨rfl,rfl,rfl,rfl,rfl⟩,h.ids,h.fresh,
    fun s hs => h.owners s (List.mem_of_mem_filter hs)⟩

theorem Kept.move {acc : Access} {actor : Int} {input : CardMove.Input} (h : Kept db)
    (hm : CardMove.move acc actor db input=.ok db') : Kept db' := by
  have htree := h.tree.move hm
  obtain ⟨m,c,t,-,-,-,-,-,-,-,-,a,rfl⟩ := CardMove.move_ok hm
  exact ⟨htree,h.ids,h.fresh,h.owners⟩

end Writes

/-- What each call does succeed with. -/
theorem deleted_of_step {σ ε : Type} {r : Except ε (σ×Bool)} {s : σ}
    (h : r.toOption.map (·.1)=some s) : ∃ deleted, r=.ok (s,deleted) := by
  obtain ⟨p,hp,hs⟩ := Option.map_eq_some_iff.mp h
  subst hs
  exact ⟨p.2,ok_of_toOption hp⟩

theorem step_kept (db : Db) (op : Op) (db' : Db) (h : Kept db) (hs : step db op=some db') :
    Kept db' := by
  cases op with
  | flowSet input => exact h.flowSet (ok_of_toOption hs)
  | flowStepSet dir input => exact h.flowStepSet (ok_of_toOption hs)
  | flowDelete flowId =>
    obtain ⟨deleted,hd⟩ := deleted_of_step hs
    exact h.flowDelete hd
  | flowStepDelete flowStepId =>
    obtain ⟨deleted,hd⟩ := deleted_of_step hs
    exact h.flowStepDelete hd
  | move acc actor input => exact h.move (ok_of_toOption hs)

theorem flowSet_placed_iff {input : SetInput} (hk : Kept db) (h : Placed db)
    (hs : flowSet db input=.ok db') : Placed db'↔Placing db (.flowSet input) := by
  obtain ⟨f,hf,hw⟩ := flowSet_ok hs
  obtain ⟨hid,hattr,hscope,hstart⟩ := prepareFlow_ok hf
  cases hw with
  | inl hw =>
    obtain ⟨hzero,rfl⟩ := hw
    -- the new flow has no steps
    refine iff_of_true ?_ fun hne => absurd (hid.symm.trans hzero) hne
    have hsame : SameCards db (addFlow db { f with id := db.nextFlowId }) := ⟨rfl,rfl,rfl,rfl,rfl⟩
    refine (placed_flow (f := { f with id := db.nextFlowId }) h hsame ?_
      (mem_addFlow.mpr (.inr rfl)) rfl hstart).mpr ?_
    · intro g hg
      cases mem_addFlow.mp hg with
      | inl hg =>
        have := hk.fresh g hg
        exact .inr ⟨hg,by simp only; omega⟩
      | inr hg => exact .inl hg
    · intro s hs hnew
      exact absurd hnew (hk.no_steps hs)
  | inr hw =>
    obtain ⟨hne,hold,rfl⟩ := hw
    have hsame : SameCards db (setFlow db f) := ⟨rfl,rfl,rfl,rfl,rfl⟩
    rw [placed_flow h hsame (fun g => mem_setFlow) (self_mem_setFlow hold) rfl hstart]
    simp only [StateOf,hattr,hscope,hid,Placing]
    rw [hid] at hne
    exact ⟨fun hfit _ => hfit,fun hfit => hfit hne⟩

theorem flowStepSet_placed_iff {dir : Directory} {input : StepSetInput} (hk : Kept db)
    (h : Placed db) (hs : flowStepSet db dir input=.ok db') :
    Placed db'↔Placing db (.flowStepSet dir input) := by
  obtain ⟨s,f,hv,hf,hfrom,hto,hw⟩ := flowStepSet_ok hs
  obtain ⟨-,hflow,hsource,htarget⟩ := validateStep_ok hv
  have hmem : f∈db.flows := List.mem_of_find?_eq_some hf
  have hid : f.id=s.flowId := by simpa using List.find?_some hf
  have hwritten : Placed db'↔
      ∀ g∈db.flows, s.flowId=g.id → StateOf db g s.fromCardId∧StateOf db g s.toCardId := by
    cases hw with
    | inl hw =>
      obtain ⟨-,rfl⟩ := hw
      exact placed_step (s := { s with id := db.nextFlowStepId }) h ⟨rfl,rfl,rfl,rfl,rfl⟩
        (fun t ht => (mem_addStep.mp ht).symm) (mem_addStep.mpr (.inr rfl)) rfl
    | inr hw =>
      obtain ⟨-,hold,rfl⟩ := hw
      exact placed_step h ⟨rfl,rfl,rfl,rfl,rfl⟩ (fun t => mem_setStep) (self_mem_setStep hold) rfl
  rw [hwritten]
  simp only [Placing]
  rw [← hflow,← hsource,← htarget]
  constructor
  · intro hfit g hg hgs
    have hstates := hfit g hg hgs.symm
    exact ⟨hstates.1.2,hstates.2.2⟩
  · intro hfit g hg hsg
    have hgf : g=f := hk.ids g hg f hmem (hsg.symm.trans hid.symm)
    subst hgf
    have hwithin := hfit g hg hid
    exact ⟨⟨hfrom,hwithin.1⟩,⟨hto,hwithin.2⟩⟩

/-- The states of a flow stay of their type, and in their project. -/
theorem Placed.move {acc : Access} {actor : Int} {input : CardMove.Input} (hk : Kept db)
    (h : Placed db) (hm : CardMove.move acc actor db input=.ok db') : Placed db' := by
  have hproject := fun x => enclosing_move (x := x) hk.tree hm
  obtain ⟨m,c,t,-,-,-,-,-,-,-,-,a,rfl⟩ := CardMove.move_ok hm
  have hstate : ∀ f x, (db.flows.any (·.defaultCreateStatusId=some x)||
      db.flowSteps.any fun s => s.fromCardId=x∨s.toCardId=x) → StateOf db f x →
      StateOf ((db.setParent (· = m.cardId) m.newParent).log a) f x := by
    intro f x hx hfx
    obtain ⟨⟨c,d,hc,hd,htype⟩,hwithin⟩ := hfx
    refine ⟨?_,?_⟩
    · have hrow := setParent_card db (· = m.cardId) m.newParent x
      rw [hc,Option.map_some] at hrow
      refine ⟨_,d,hrow,hd,?_⟩
      split <;> exact htype
    · unfold Within
      rw [hproject x hx]
      exact hwithin
  refine ⟨?_,?_⟩
  · intro f hf x hx
    apply hstate f x ?_ (h.starts f hf x hx)
    simp only [Bool.or_eq_true,List.any_eq_true,decide_eq_true_eq]
    exact .inl ⟨f,hf,hx⟩
  · intro f hf s hs hid
    have hfit := h.steps f hf s hs hid
    refine ⟨hstate f _ ?_ hfit.1,hstate f _ ?_ hfit.2⟩
    · simp only [Bool.or_eq_true,List.any_eq_true,decide_eq_true_eq]
      exact .inr ⟨s,hs,.inl rfl⟩
    · simp only [Bool.or_eq_true,List.any_eq_true,decide_eq_true_eq]
      exact .inr ⟨s,hs,.inr rfl⟩

/-- A call leaves the states in place just when it doesn't set a flow or a step past
what the calls look at. -/
theorem step_placed_iff {op : Op} (hk : Kept db) (h : Placed db) (hs : step db op=some db') :
    Placed db'↔Placing db op := by
  cases op with
  | flowSet input => exact flowSet_placed_iff hk h (ok_of_toOption hs)
  | flowStepSet dir input => exact flowStepSet_placed_iff hk h (ok_of_toOption hs)
  | flowDelete flowId =>
    obtain ⟨deleted,hd⟩ := deleted_of_step hs
    obtain ⟨-,rfl⟩ := flowDelete_ok hd
    exact iff_of_true (placed_fewer h ⟨rfl,rfl,rfl,rfl,rfl⟩
      (fun f => List.mem_of_mem_filter) fun s hs => hs) trivial
  | flowStepDelete flowStepId =>
    obtain ⟨deleted,hd⟩ := deleted_of_step hs
    have hdb := flowStepDelete_ok hd
    subst hdb
    exact iff_of_true (placed_fewer h ⟨rfl,rfl,rfl,rfl,rfl⟩
      (fun f hf => hf) fun s => List.mem_of_mem_filter) trivial
  | move acc actor input => exact iff_of_true (Placed.move hk h (ok_of_toOption hs)) trivial

/-- Runs whose flows and steps are set to fit keep every state in place, and the first
call that isn't so puts one out of it. -/
theorem fitting_runs_stay_placed {start db : Db} {ops : List Op} (hk : Kept start)
    (h : Placed start) (hrun : Run step Placing start ops db) :
    Placed db∧∀ op db', step db op=some db' → (Placed db'↔Placing db op) := by
  have hdb : Kept db∧Placed db := hrun.inv (fun s => Kept s∧Placed s)
    (fun s op s' hs hop hstep =>
      ⟨step_kept s op s' hs.1 hstep,(step_placed_iff hs.1 hs.2 hstep).mpr hop⟩) ⟨hk,h⟩
  exact ⟨hdb.2,fun op db' hstep => step_placed_iff hdb.1 hdb.2 hstep⟩

/-- Two projects: the first with two statuses and a task, the second with one status. -/
def board : Db where
  cardTypes := [⟨1,"project",none,false⟩,⟨2,"task",some 1,true⟩,⟨3,"status",some 1,false⟩]
  attributeDefs := [⟨11,"status",.cardRef,some 3,none⟩]
  cards := [⟨1,1,none,none,false,.triage⟩,⟨2,1,none,none,false,.triage⟩,
    ⟨3,3,some 1,none,false,.triage⟩,⟨4,3,some 1,none,false,.active⟩,
    ⟨5,3,some 2,none,false,.active⟩,⟨6,2,some 1,none,false,.triage⟩]
  nextCardId := 7
  nextFlowId := 1
  nextFlowStepId := 1

def nobody : Directory := ⟨[],[],[],[]⟩

def setMain : SetInput := ⟨none,some "Main",some 11,some 1,some 3⟩

/-- The first project's flow with its starting state. -/
def started : Db := { board with flows := [⟨1,11,1,some 3,"Main"⟩], nextFlowId := 2 }

def stepTo (state : Int) : StepSetInput := ⟨none,some 1,some 3,some state,some "Start",none,none,none⟩

def stepped (state : Int) : Db :=
  { started with flowSteps := [⟨1,1,3,state,none,"Start",0,false⟩], nextFlowStepId := 2 }

/-- The flow is set to the second project, with no starting state. -/
def setAway : SetInput := ⟨some 1,some "Main",some 11,some 2,none⟩

theorem board_kept : Kept board where
  tree := {
    types := ⟨by decide,by decide,by decide,by decide⟩
    keyed := by decide
    fresh := by decide
    parents := by decide
    projects := by decide
    tasks := by decide
    short := CardTree.short_of_flat (by decide) }
  ids := by simp [board]
  fresh := by simp [board]
  owners := by simp [board]

theorem board_placed : Placed board := ⟨by simp [board],by simp [board]⟩

/-- A step is taken to a status of the second project, which is a legal state of the first
project's flow from then on; and a flow goes to the second project with its step. -/
theorem states_out_of_place : Kept board∧Placed board∧
    (Run step (fun _ _ => True) board
      [.flowSet setMain,.flowStepSet nobody (stepTo 5)] (stepped 5)∧
      ¬Placed (stepped 5)∧5∈flowStateIds (stepped 5) 1)∧
    ∃ db, Run step (fun _ _ => True) board
      [.flowSet setMain,.flowStepSet nobody (stepTo 4),.flowSet setAway] db∧¬Placed db := by
  refine ⟨board_kept,board_placed,⟨?_,?_,by decide⟩,setFlow (stepped 4) ⟨1,11,2,none,"Main"⟩,?_,?_⟩
  · exact .cons trivial (show step board (.flowSet setMain)=some started from rfl)
      (.single trivial rfl)
  · intro h
    have hfit := h.steps ⟨1,11,1,some 3,"Main"⟩ (by simp [stepped,started])
      ⟨1,1,3,5,none,"Start",0,false⟩ (by simp [stepped]) rfl
    have hwithin : ¬Within (stepped 5) 1 5 := by decide
    exact hwithin hfit.2.2
  · exact .cons trivial (show step board (.flowSet setMain)=some started from rfl) <|
      .cons trivial (show step started (.flowStepSet nobody (stepTo 4))=some (stepped 4) from rfl)
        (.single trivial rfl)
  · intro h
    have hfit := h.steps ⟨1,11,2,none,"Main"⟩ (by simp [setFlow,stepped,started])
      ⟨1,1,3,4,none,"Start",0,false⟩ (by simp [setFlow,stepped]) rfl
    have hwithin : ¬Within (setFlow (stepped 4) ⟨1,11,2,none,"Main"⟩) 2 3 := by decide
    exact hwithin hfit.1.2

/-- The flow gets a step between its own statuses, and the task goes to the second
project. -/
theorem own_states_stay_placed : ∃ db, Run step Placing board
    [.flowSet setMain,.flowStepSet nobody (stepTo 4),.move CardMove.allowed 7 ⟨some 6,some 2⟩] db∧
    Placed db∧cardEnclosingProject db 6=some 2 := by
  have hmove : (step (stepped 4) (.move CardMove.allowed 7 ⟨some 6,some 2⟩)).map
      (cardEnclosingProject · 6)=some (some 2) := by decide
  obtain ⟨db,hdb,hproject⟩ := Option.map_eq_some_iff.mp hmove
  have hrun : Run step Placing board [.flowSet setMain,.flowStepSet nobody (stepTo 4),
      .move CardMove.allowed 7 ⟨some 6,some 2⟩] db :=
    .cons (fun hne => absurd rfl hne) (show step board (.flowSet setMain)=some started from rfl) <|
      .cons (show Placing started (.flowStepSet nobody (stepTo 4)) by
          simp only [Placing]
          decide)
        (show step started (.flowStepSet nobody (stepTo 4))=some (stepped 4) from rfl) <|
      .single trivial hdb
  exact ⟨db,hrun,(fitting_runs_stay_placed board_kept board_placed hrun).1,hproject⟩

end Kitp.FlowStates
