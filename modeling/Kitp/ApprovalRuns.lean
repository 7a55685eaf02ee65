import Kitp.ApprovalWrites
import Kitp.CardMoveRuns
import Kitp.Lib.Runs

/-! What a person last answered on an edge, over runs of the approval calls, against what
the tally counts. -/
namespace Kitp.Approvals
open Kitp.Store Kitp.Accounts Kitp.Runs Kitp.Steps

/-- A person's place in the votes on an edge of a task. -/
structure Seat where
  taskId : Int
  fromId : Int
  toId : Int
  person : Int
  deriving DecidableEq

inductive Op where
  | set (env : Env) (actor : Int) (input : SetInput)
  | decide (actor : Int) (input : DecideInput)
  | remove (actor : Int) (id : Option Int)
  | status (actor taskId : Int) (new : Json)
  | link (account : Int) (person : Option Int)

/-- The calls of one transaction share the time it started. -/
structure Call where
  now : Int
  op : Op

/-- What the call leaves when it succeeds. -/
def step (s : Tables) (c : Call) : Option Tables :=
  match c.op with
  | .set env actor input => (approvalSet s c.now actor env input).toOption.map (·.1)
  | .decide actor input => (approvalDecide s c.now actor input).toOption.map (·.1)
  | .remove actor id => (approvalRemove s c.now actor id).toOption
  | .status actor taskId new => changeStatus s c.now actor taskId new
  | .link account person => some (link s account person)

/-- The seat a call votes from, when its account is linked to a person, and the vote. -/
def cast (s : Tables) (actor : Int) (input : DecideInput) : Option (Seat×Decision) := do
  let r ← (validateDecide input).toOption
  let edge ← (votedEdge s.db r).toOption
  let p ← linked s actor
  return (⟨r.taskId,edge.1,edge.2.1,p⟩,r.decision)

/-- The call is taken for a vote sent again. -/
def recast (s : Tables) (actor : Int) (input : DecideInput) : Bool :=
  (do
    let r ← (validateDecide input).toOption
    let edge ← (votedEdge s.db r).toOption
    repeated s actor r edge.1 edge.2.1).isSome

/-- What each person last answered and the task hasn't settled since: the votes as people
see them. -/
abbrev Answers := Seat → Option Decision

/-- The answers after a call that succeeds. -/
def Answers.note (g : Answers) (s : Tables) (c : Call) : Answers :=
  match c.op with
  | .decide actor input => (cast s actor input).elim g fun v => Function.update g v.1 (some v.2)
  | .status _ taskId new => fun seat =>
    if seat.taskId=taskId∧new.unquoted=some (toString seat.toId) then none else g seat
  | _ => g

structure World where
  tables : Tables
  answers : Answers

def World.step (w : World) (c : Call) : Option World :=
  (Approvals.step w.tables c).map fun t => ⟨t,w.answers.note w.tables c⟩

/-- The newest vote that carries the person is `d`. -/
def InForce (s : Tables) (seat : Seat) (d : Decision) : Prop :=
  (latestOf s seat.taskId (some seat.fromId) (some seat.toId) seat.person).map (·.decision)=some d

/-- The tally counts the person's vote as `d`, whoever else is asked, and no open request on
the edge waits on them. -/
structure Counts (acc : Access) (s : Tables) (seat : Seat) (d : Decision) : Prop where
  counted : ∀ approvers, seat.person∈approvers → ∃ b, b.decision=d∧
    (seat.person,some b)∈tallied acc s seat.taskId (some seat.fromId) (some seat.toId) approvers
  answered : ∀ o∈approvalOpen s seat.taskId, o.fromId=some seat.fromId → o.toId=some seat.toId →
    waits acc s seat.taskId [seat.person] o=false

/-- A vote is recorded in a transaction that started after the task last came to the
edge's target, or it is the person's newest vote of the round already. -/
def Timely (w : World) (c : Call) : Prop :=
  match c.op with
  | .decide actor input => ∀ seat d, cast w.tables actor input=some (seat,d) →
      InForce w.tables seat d∨(recast w.tables actor input=false∧
        after (approvalRoundStart w.tables seat.taskId (some seat.toId)) c.now=true)
  | _ => True

/-- The key of `attribute_def`. -/
def Keyed (s : Tables) : Prop :=
  ∀ d∈s.db.attributeDefs, ∀ e∈s.db.attributeDefs, d.id=e.id → d=e

variable {s t u : Tables} {seat : Seat} {d : Decision} {now actor : Int}

theorem counts_iff (acc : Access) : Counts acc s seat d↔InForce s seat d := by
  constructor
  · intro h
    obtain ⟨b,hb,hmem⟩ := h.counted [seat.person] (by simp)
    obtain ⟨p,-,hp⟩ := List.mem_map.mp (List.mem_filter.mp hmem).1
    simp only [Prod.mk.injEq] at hp
    obtain ⟨hp,hlatest⟩ := hp
    rw [hp] at hlatest
    simp [InForce,hlatest,hb]
  · intro h
    obtain ⟨b,hb,hd⟩ := Option.map_eq_some_iff.mp h
    refine ⟨?_,?_⟩
    · intro approvers hmem
      refine ⟨b,hd,List.mem_filter.mpr ⟨?_,by simp⟩⟩
      rw [← hb]
      exact List.mem_map.mpr ⟨seat.person,List.mem_dedup.mpr hmem,rfl⟩
    · intro o _ hfrom hto
      have hvote := List.mem_of_getLast? hb
      obtain ⟨hcur,hperson⟩ := List.mem_filter.mp hvote
      have hany : (current s seat.taskId o.fromId o.toId).any (·.personId=some seat.person)=true := by
        rw [hfrom,hto,List.any_eq_true]
        exact ⟨b,hcur,hperson⟩
      simp only [waits,List.any_eq_false]
      intro e _ he
      simp only [decide_eq_true_eq,List.mem_singleton] at he
      rw [he.2.1] at he
      simp [hany] at he

theorem reaches_congr (h : t.db.attributeDefs=s.db.attributeDefs) (taskId : Int)
    (toId : Option Int) : reaches t taskId toId=reaches s taskId toId := by
  have hnamed : t.db.attributeNamed "status"=s.db.attributeNamed "status" := by
    simp only [Db.attributeNamed,h]
  funext r
  unfold reaches
  rw [hnamed]

/-- New rows that don't bring the task to the target add their votes to the round. -/
theorem current_append {rs : List Record} (taskId : Int) (fromId toId : Option Int)
    (h : t.db.attributeDefs=s.db.attributeDefs) (hlog : t.log=s.log++rs)
    (hquiet : ∀ r∈rs, reaches s taskId toId r=false) :
    current t taskId fromId toId=current s taskId fromId toId++
      (rs.filterMap (ballot taskId)).filter fun b => fromId=some b.fromId∧toId=some b.toId∧
        after (approvalRoundStart s taskId toId) b.createdAt := by
  have hnone : rs.filter (reaches s taskId toId)=[] := by
    simp only [List.filter_eq_nil_iff]
    intro r hr
    simp [hquiet r hr]
  have hstart : approvalRoundStart t taskId toId=approvalRoundStart s taskId toId := by
    simp only [approvalRoundStart,reaches_congr h,hlog,List.filter_append,hnone,List.append_nil]
  simp only [current,ballots,hstart,hlog,List.filterMap_append,List.filter_append]

/-- Rows are added to the log that neither vote nor bring a task to a status. -/
structure Silent (s t : Tables) : Prop where
  attributeDefs : t.db.attributeDefs=s.db.attributeDefs
  rows : ∃ rs, t.log=s.log++rs∧∀ r∈rs, ∀ taskId, ballot taskId r=none∧
    ∀ toId, reaches s taskId toId r=false

theorem Silent.refl (s : Tables) : Silent s s := ⟨rfl,[],by simp,by simp⟩

theorem Silent.trans (h : Silent s t) (k : Silent t u) : Silent s u := by
  obtain ⟨rs,hrs,hquiet⟩ := h.rows
  obtain ⟨us,hus,hstill⟩ := k.rows
  refine ⟨k.attributeDefs.trans h.attributeDefs,rs++us,by rw [hus,hrs,List.append_assoc],?_⟩
  intro r hr taskId
  cases List.mem_append.mp hr with
  | inl hr => exact hquiet r hr taskId
  | inr hr =>
    have hrow := hstill r hr taskId
    refine ⟨hrow.1,fun toId => ?_⟩
    rw [← reaches_congr h.attributeDefs]
    exact hrow.2 toId

/-- The votes stand as they stood. -/
theorem Silent.latestOf_eq (h : Silent s t) : latestOf t=latestOf s := by
  obtain ⟨rs,hrs,hquiet⟩ := h.rows
  funext taskId fromId toId person
  have hnone : rs.filterMap (ballot taskId)=[] := by
    simp only [List.filterMap_eq_nil_iff]
    intro r hr
    exact (hquiet r hr taskId).1
  have hcurrent := current_append taskId fromId toId h.attributeDefs hrs
    fun r hr => (hquiet r hr taskId).2 toId
  simp only [latestOf,hcurrent,hnone,List.filter_nil,List.append_nil]

theorem silent_inForce (h : Silent s t) : InForce t seat d↔InForce s seat d := by
  simp only [InForce,h.latestOf_eq]

theorem silent_record {k : Kind} (cardId : Int) (h : s.db.attributeDefs=u.db.attributeDefs)
    (hlog : s.log=u.log) (hk : k=.cardCreate∨k=.cardDelete) :
    Silent u (record s now actor cardId k) := by
  refine ⟨h,[⟨s.nextRecordId,cardId,k,actor,now⟩],by simp [record,hlog],?_⟩
  intro r hr taskId
  have hr := List.mem_singleton.mp hr
  subst hr
  cases hk with
  | inl hk =>
    subst hk
    exact ⟨rfl,fun toId => rfl⟩
  | inr hk =>
    subst hk
    exact ⟨rfl,fun toId => rfl⟩

/-- A value of another attribute is written. -/
theorem silent_write {cardId attributeDefId : Int} {new : Json}
    (h : (s.db.attributeNamed "status").all (·.id≠attributeDefId)) :
    Silent s (write s now actor cardId attributeDefId new) := by
  refine ⟨rfl,_,rfl,?_⟩
  intro r hr taskId
  have hr := List.mem_singleton.mp hr
  subst hr
  refine ⟨rfl,fun toId => ?_⟩
  cases toId with
  | none => rfl
  | some target =>
    cases hs : s.db.attributeNamed "status" with
    | none => simp [reaches,hs]
    | some e =>
      have hne : e.id≠attributeDefId := by simpa [hs] using h
      simp [reaches,hs,hne]

theorem Keyed.other {d e : AttributeDef} {name : String} (h : Keyed s)
    (hd : s.db.attributeNamed name=some d) (hname : name≠"status")
    (he : s.db.attributeNamed "status"=some e) : e.id≠d.id := by
  intro hid
  have hed := h e (List.mem_of_find?_eq_some he) d (List.mem_of_find?_eq_some hd) hid
  have hdn : d.name=name := by simpa using List.find?_some hd
  have hen : e.name="status" := by simpa using List.find?_some he
  exact hname (by rw [← hdn,← hed,hen])

theorem Keyed.of_silent (h : Keyed s) (k : Silent s t) : Keyed t := by
  unfold Keyed
  rw [k.attributeDefs]
  exact h

theorem silent_writeWanted {id : Int} {x : Tables×Nat} {w : String×Json} (h : Keyed x.1)
    (hw : w.1≠"status") : Silent x.1 (writeWanted now actor id x w).1 := by
  unfold writeWanted
  split
  · exact .refl _
  · rename_i d hd
    split
    · apply silent_write
      cases he : x.1.db.attributeNamed "status" with
      | none => rfl
      | some e => simpa using h.other hd hw he
    · exact .refl _

theorem wanted_names {db : Db} {r : SetRequest} {label : Option String} {commId : Option Int}
    {w : String×Json} (h : w∈wanted db r label commId) : w.1≠"status" := by
  have hnames : w.1∈approvalAttributes := by
    unfold wanted at h
    simp only [List.mem_append] at h
    rcases h with ((h | h) | h) | h
    · cases label with
      | none => simp at h
      | some l =>
        simp only [Option.elim_some,List.mem_cons,List.not_mem_nil,or_false] at h
        rcases h with rfl | rfl | rfl | rfl <;> simp [approvalAttributes]
    · cases hr : r.approvers with
      | none => simp [hr] at h
      | some ids =>
        simp only [hr,Option.elim_some,List.mem_singleton] at h
        simp [h,approvalAttributes]
    · cases hr : r.note with
      | none => simp [hr] at h
      | some n =>
        simp only [hr,Option.elim_some,List.mem_singleton] at h
        simp [h,approvalAttributes]
    · cases commId with
      | none => simp at h
      | some c =>
        simp only [Option.elim_some,List.mem_singleton] at h
        simp [h,approvalAttributes]
  intro hs
  rw [hs] at hnames
  simp [approvalAttributes] at hnames

theorem addThread_keeps (rows : Option CommRows) :
    (addThread s rows).db.attributeDefs=s.db.attributeDefs∧(addThread s rows).log=s.log := by
  cases rows with
  | none => exact ⟨rfl,rfl⟩
  | some t =>
    refine ⟨?_,rfl⟩
    exact foldl_inv (I := fun db : Db => db.attributeDefs=s.db.attributeDefs) rfl
      fun db hdb v _ => hdb

theorem silent_set {env : Env} {input : SetInput} {a : SetAnswer} (hk : Keyed s)
    (h : approvalSet s now actor env input=.ok (t,a)) : Silent s t := by
  unfold approvalSet at h
  obtain ⟨cardType,-,h⟩ := bind_ok h
  obtain ⟨r,-,h⟩ := bind_ok h
  obtain ⟨-,-,h⟩ := bind_ok h
  obtain ⟨label,-,h⟩ := bind_ok h
  obtain ⟨-,-,h⟩ := bind_ok h
  obtain ⟨thread,-,h⟩ := bind_ok h
  cases h
  have hthread := addThread_keeps (s := s) thread
  have hmade : Silent s (if label.isSome then
      addApproval (addThread s thread) now actor cardType.id r.taskId else addThread s thread) := by
    split
    · exact silent_record _ hthread.1 hthread.2 (.inl rfl)
    · exact ⟨hthread.1,[],by simp [hthread.2],by simp⟩
  refine foldl_inv (I := fun x : Tables×Nat => Silent s x.1) hmade ?_
  intro x hx w hw
  exact hx.trans (silent_writeWanted (hk.of_silent hx) (wanted_names hw))

theorem silent_link {account : Int} {person : Option Int} : Silent s (link s account person) :=
  ⟨rfl,[],by simp [link],by simp⟩

theorem silent_remove {id : Option Int} (h : approvalRemove s now actor id=.ok t) :
    Silent s t := by
  obtain ⟨c,-,h⟩ := bind_ok h
  cases h
  exact silent_record _ rfl rfl (.inr rfl)

/-- A change of status settles the votes on the edges it comes to the end of, and no others. -/
theorem changeStatus_inForce {taskId : Int} {new : Json}
    (h : changeStatus s now actor taskId new=some t)
    (hseat : ¬(seat.taskId=taskId∧new.unquoted=some (toString seat.toId))) :
    InForce t seat d↔InForce s seat d := by
  obtain ⟨e,-,rfl⟩ := Option.map_eq_some_iff.mp h
  have hcurrent := current_append (s := s) (t := write s now actor taskId e.id new)
    seat.taskId (some seat.fromId) (some seat.toId) rfl rfl (by
      intro r hr
      have hr := List.mem_singleton.mp hr
      subst hr
      simp only [reaches,decide_eq_false_iff_not]
      intro hreach
      exact hseat ⟨hreach.1.symm,hreach.2.2⟩)
  have hsame : current (write s now actor taskId e.id new) seat.taskId (some seat.fromId)
      (some seat.toId)=current s seat.taskId (some seat.fromId) (some seat.toId) :=
    hcurrent.trans (List.append_nil _)
  simp only [InForce,latestOf,hsame]

theorem cast_eq {input : DecideInput} {r : DecideRequest} {fromId toId : Int} {label : String}
    (hr : validateDecide input=.ok r) (he : votedEdge s.db r=.ok (fromId,toId,label)) :
    cast s actor input=(linked s actor).map fun p => (⟨r.taskId,fromId,toId,p⟩,r.decision) := by
  simp only [cast,hr,Except.toOption,Option.bind_eq_bind,Option.bind_some,he]
  cases linked s actor <;> rfl

theorem recast_eq {input : DecideInput} {r : DecideRequest} {fromId toId : Int} {label : String}
    (hr : validateDecide input=.ok r) (he : votedEdge s.db r=.ok (fromId,toId,label)) :
    recast s actor input=(repeated s actor r fromId toId).isSome := by
  simp only [recast,hr,Except.toOption,Option.bind_eq_bind,Option.bind_some,he]

theorem addReason_keeps (reason : String) :
    (addReason s reason).1.db=s.db∧(addReason s reason).1.log=s.log := by
  unfold addReason
  split <;> exact ⟨rfl,rfl⟩

/-- What a vote adds to the rounds. -/
theorem current_castVote (s : Tables) (now actor : Int) (r : DecideRequest) (fromId toId : Int) (label : String) (seat : Seat) :
    ∃ b : Ballot, b.decision=r.decision∧b.fromId=fromId∧b.toId=toId∧
      b.personId=linked s actor∧b.createdAt=now∧
      current (castVote s now actor r fromId toId label) seat.taskId (some seat.fromId)
          (some seat.toId)=
        current s seat.taskId (some seat.fromId) (some seat.toId)++
          if r.taskId=seat.taskId∧fromId=seat.fromId∧toId=seat.toId∧
            after (approvalRoundStart s seat.taskId (some seat.toId)) now then [b] else [] := by
  obtain ⟨hdb,hlog⟩ := addReason_keeps (s := s) r.reason
  let v : Vote := ⟨r.decision,fromId,toId,label,namedCard s.db r.taskId "status",linked s actor,
    (addReason s r.reason).2⟩
  let row : Record := ⟨(addReason s r.reason).1.nextRecordId,r.taskId,.approvalDecision v,actor,now⟩
  refine ⟨⟨v,row.id,actor,now⟩,rfl,rfl,rfl,rfl,rfl,?_⟩
  have hcast : (castVote s now actor r fromId toId label).log=s.log++[row] := by
    simp only [castVote,record,hlog]
    rfl
  have hdefs : (castVote s now actor r fromId toId label).db.attributeDefs=s.db.attributeDefs := by
    simp only [castVote,record,hdb]
  rw [current_append seat.taskId (some seat.fromId) (some seat.toId) hdefs hcast (by
    intro x hx
    rw [List.mem_singleton.mp hx]
    rfl)]
  congr 1
  by_cases htask : r.taskId=seat.taskId
  · have hballot : ballot seat.taskId row=some ⟨v,row.id,actor,now⟩ := by simp [ballot,row,htask]
    simp only [List.filterMap_cons,hballot,List.filterMap_nil,List.filter_singleton,htask,true_and]
    simp only [v,Option.some.injEq,eq_comm (a := seat.fromId),eq_comm (a := seat.toId)]
    simp only [decide_eq_true_eq,Bool.cond_eq_ite]
  · have hballot : ballot seat.taskId row=none := by simp [ballot,row,htask]
    simp [hballot,htask]

/-- A vote is in force from its seat when it falls in the round, and changes no other's. -/
theorem inForce_castVote {r : DecideRequest} {fromId toId : Int} {label : String} :
    InForce (castVote s now actor r fromId toId label) seat d↔
      if seat.taskId=r.taskId∧seat.fromId=fromId∧seat.toId=toId∧linked s actor=some seat.person∧
        after (approvalRoundStart s seat.taskId (some seat.toId)) now then r.decision=d
      else InForce s seat d := by
  obtain ⟨b,hd,-,-,hp,-,hcurrent⟩ := current_castVote s now actor r fromId toId label seat
  unfold InForce latestOf
  rw [hcurrent,List.filter_append]
  by_cases hround : r.taskId=seat.taskId∧fromId=seat.fromId∧toId=seat.toId∧
      after (approvalRoundStart s seat.taskId (some seat.toId)) now
  · rw [if_pos hround]
    obtain ⟨htask,hfrom,hto,hafter⟩ := hround
    by_cases hperson : linked s actor=some seat.person
    · rw [if_pos ⟨htask.symm,hfrom.symm,hto.symm,hperson,hafter⟩]
      simp [hp,hperson,hd]
    · rw [if_neg fun h => hperson h.2.2.2.1]
      simp [hp,hperson]
  · rw [if_neg hround,if_neg fun h => hround ⟨h.1.symm,h.2.1.symm,h.2.2.1.symm,h.2.2.2.2⟩]
    simp

theorem approvalDecide_ok {input : DecideInput} {a : DecideAnswer}
    (h : approvalDecide s now actor input=.ok (t,a)) : ∃ r fromId toId label,
      validateDecide input=.ok r∧votedEdge s.db r=.ok (fromId,toId,label)∧
      (((repeated s actor r fromId toId).isSome∧t=s)∨
        (repeated s actor r fromId toId=none∧t=castVote s now actor r fromId toId label)) := by
  unfold approvalDecide at h
  obtain ⟨-,-,h⟩ := bind_ok h
  obtain ⟨r,hr,h⟩ := bind_ok h
  obtain ⟨-,-,h⟩ := bind_ok h
  obtain ⟨⟨fromId,toId,label⟩,he,h⟩ := bind_ok h
  refine ⟨r,fromId,toId,label,hr,he,?_⟩
  cases hrep : repeated s actor r fromId toId with
  | none =>
    simp only [hrep,Option.elim_none] at h
    cases h
    exact .inr ⟨rfl,rfl⟩
  | some b =>
    simp only [hrep,Option.elim_some] at h
    cases h
    exact .inl ⟨rfl,rfl⟩

/-- Whether a vote that succeeds is in force. -/
theorem decide_inForce {input : DecideInput} {a : DecideAnswer}
    (h : approvalDecide s now actor input=.ok (t,a)) (hc : cast s actor input=some (seat,d)) :
    InForce t seat d↔InForce s seat d∨(recast s actor input=false∧
      after (approvalRoundStart s seat.taskId (some seat.toId)) now=true) := by
  obtain ⟨r,fromId,toId,label,hr,he,hdone⟩ := approvalDecide_ok h
  rw [cast_eq hr he] at hc
  obtain ⟨p,hp,hc⟩ := Option.map_eq_some_iff.mp hc
  cases hc
  rw [recast_eq hr he]
  cases hdone with
  | inl hrep =>
    obtain ⟨hrep,rfl⟩ := hrep
    simp [hrep]
  | inr hnew =>
    obtain ⟨hnone,rfl⟩ := hnew
    rw [inForce_castVote]
    by_cases hafter : after (approvalRoundStart s r.taskId (some toId)) now=true
    · simp [hnone,hp,hafter]
    · simp [hafter]

/-- It leaves the other seats as they were. -/
theorem decide_inForce_ne {input : DecideInput} {a : DecideAnswer} {d' : Decision}
    (h : approvalDecide s now actor input=.ok (t,a))
    (hc : ∀ v, cast s actor input=some v → v.1≠seat) : InForce t seat d'↔InForce s seat d' := by
  obtain ⟨r,fromId,toId,label,hr,he,hdone⟩ := approvalDecide_ok h
  rw [cast_eq hr he] at hc
  cases hdone with
  | inl hrep =>
    obtain ⟨-,rfl⟩ := hrep
    exact Iff.rfl
  | inr hnew =>
    obtain ⟨-,rfl⟩ := hnew
    rw [inForce_castVote,if_neg]
    intro hseat
    obtain ⟨htask,hfrom,hto,hp,-⟩ := hseat
    refine hc (⟨r.taskId,fromId,toId,seat.person⟩,r.decision) (by simp [hp]) ?_
    rw [← htask,← hfrom,← hto]

theorem ok_of_first {σ α ε : Type} {x : Except ε (σ×α)} {y : σ}
    (h : x.toOption.map (·.1)=some y) : ∃ a, x=.ok (y,a) := by
  obtain ⟨p,hp,hy⟩ := Option.map_eq_some_iff.mp h
  subst hy
  exact ⟨p.2,ok_of_toOption hp⟩

/-- What the answers say is what is in force. -/
structure Agrees (w : World) : Prop where
  keyed : Keyed w.tables
  inForce : ∀ seat d, w.answers seat=some d → InForce w.tables seat d

theorem Agrees.quiet {w : World} (h : Agrees w) (hs : Silent w.tables t) : Agrees ⟨t,w.answers⟩ where
  keyed := h.keyed.of_silent hs
  inForce seat d hd := (silent_inForce hs).mpr (h.inForce seat d hd)

theorem castVote_attributeDefs {r : DecideRequest} {fromId toId : Int} {label : String} :
    (castVote s now actor r fromId toId label).db.attributeDefs=s.db.attributeDefs := by
  simp only [castVote,record,(addReason_keeps (s := s) r.reason).1]

theorem Agrees.decide {w : World} {input : DecideInput} {a : DecideAnswer} (h : Agrees w)
    (hd : approvalDecide w.tables now actor input=.ok (t,a))
    (ht : Timely w ⟨now,.decide actor input⟩) :
    Agrees ⟨t,w.answers.note w.tables ⟨now,.decide actor input⟩⟩ where
  keyed := by
    obtain ⟨r,fromId,toId,label,-,-,hdone⟩ := approvalDecide_ok hd
    have hdefs : t.db.attributeDefs=w.tables.db.attributeDefs := by
      cases hdone with
      | inl hrep => rw [hrep.2]
      | inr hnew => rw [hnew.2,castVote_attributeDefs]
    unfold Keyed
    rw [hdefs]
    exact h.keyed
  inForce seat d hseat := by
    simp only [Answers.note] at hseat
    cases hc : cast w.tables actor input with
    | none =>
      rw [hc] at hseat
      exact (decide_inForce_ne hd (by simp [hc])).mpr (h.inForce seat d hseat)
    | some v =>
      rw [hc,Option.elim_some] at hseat
      by_cases hv : v.1=seat
      · subst hv
        have hvd : v.2=d := by simpa using hseat
        subst hvd
        exact (decide_inForce hd hc).mpr (ht v.1 v.2 hc)
      · rw [Function.update_of_ne (Ne.symm hv)] at hseat
        refine (decide_inForce_ne hd ?_).mpr (h.inForce seat d hseat)
        intro v' hv'
        rw [hc] at hv'
        cases hv'
        exact hv

theorem Agrees.status {w : World} {taskId : Int} {new : Json} (h : Agrees w)
    (hs : changeStatus w.tables now actor taskId new=some t) :
    Agrees ⟨t,w.answers.note w.tables ⟨now,.status actor taskId new⟩⟩ where
  keyed := by
    obtain ⟨e,-,rfl⟩ := Option.map_eq_some_iff.mp hs
    exact h.keyed
  inForce seat d hseat := by
    simp only [Answers.note] at hseat
    split at hseat
    · cases hseat
    · rename_i hne
      exact (changeStatus_inForce hs hne).mpr (h.inForce seat d hseat)

theorem step_agrees (w : World) (c : Call) (w' : World) (h : Agrees w) (ht : Timely w c)
    (hs : w.step c=some w') : Agrees w' := by
  obtain ⟨t,hst,rfl⟩ := Option.map_eq_some_iff.mp hs
  obtain ⟨now,op⟩ := c
  cases op with
  | set env actor input =>
    obtain ⟨a,ha⟩ := ok_of_first hst
    exact h.quiet (silent_set h.keyed ha)
  | decide actor input =>
    obtain ⟨a,ha⟩ := ok_of_first hst
    exact h.decide ha ht
  | remove actor id => exact h.quiet (silent_remove (ok_of_toOption hst))
  | status actor taskId new => exact h.status hst
  | link account person =>
    have hlink := Option.some.inj hst
    subst hlink
    exact h.quiet silent_link

/-- Who has answered every open request that asks them isn't waited on. -/
theorem Agrees.not_waiting {w : World} (h : Agrees w) (acc : Access) {taskId person : Int}
    (hall : ∀ o∈approvalOpen w.tables taskId, person∈o.approvers → ∃ fromId toId d,
      o.fromId=some fromId∧o.toId=some toId∧w.answers ⟨taskId,fromId,toId,person⟩=some d) :
    approvalWaitingOn acc w.tables taskId [person]=false := by
  rw [approvalWaitingOn,List.any_eq_false]
  intro o ho hwaits
  have hasked : person∈o.approvers := by
    obtain ⟨e,he,hwait⟩ := List.any_eq_true.mp hwaits
    simp only [decide_eq_true_eq,List.mem_singleton] at hwait
    exact hwait.2.1 ▸ he
  obtain ⟨fromId,toId,d,hfrom,hto,hd⟩ := hall o ho hasked
  have hcounts := (counts_iff acc).mpr (h.inForce _ d hd)
  have hfalse := hcounts.answered o ho hfrom hto
  rw [hfalse] at hwaits
  cases hwaits

/-- In every run whose votes are timely, what a person last answered on an edge is what the
tally counts and no open request on it waits on them, until the task comes to the edge's
end or they answer again; and one more vote counts just when it is timely. -/
theorem timely_votes_count (acc : Access) {start : Tables} {w : World} {calls : List Call}
    (h : Keyed start) (hrun : Run World.step Timely ⟨start,fun _ => none⟩ calls w) :
    (∀ seat d, w.answers seat=some d → Counts acc w.tables seat d)∧
    (∀ taskId person, (∀ o∈approvalOpen w.tables taskId, person∈o.approvers →
        ∃ fromId toId d, o.fromId=some fromId∧o.toId=some toId∧
          w.answers ⟨taskId,fromId,toId,person⟩=some d) →
      approvalWaitingOn acc w.tables taskId [person]=false)∧
    ∀ now actor input w', w.step ⟨now,.decide actor input⟩=some w' →
      ∀ seat d, cast w.tables actor input=some (seat,d) →
        (Counts acc w'.tables seat d↔Timely w ⟨now,.decide actor input⟩) := by
  have hw : Agrees w := hrun.inv Agrees step_agrees ⟨h,fun seat d hd => by cases hd⟩
  refine ⟨fun seat d hd => (counts_iff acc).mpr (hw.inForce seat d hd),
    fun taskId person => hw.not_waiting acc,?_⟩
  intro now actor input w' hs seat d hc
  obtain ⟨t,hst,rfl⟩ := Option.map_eq_some_iff.mp hs
  obtain ⟨a,ha⟩ := ok_of_first hst
  rw [counts_iff,decide_inForce ha hc]
  constructor
  · intro hforce seat' d' hc'
    rw [hc] at hc'
    cases hc'
    exact hforce
  · intro ht
    exact ht seat d hc

/-- A task in review, two people with an account each, and one step to take. -/
def board : Tables where
  db := {
    cardTypes := [⟨1,"project",none,false⟩,⟨2,"task",some 1,true⟩,⟨3,"status",some 1,false⟩,
      ⟨4,"approval",some 2,false⟩,⟨5,"person",none,false⟩]
    attributeDefs := [⟨10,"title",.text,none,none⟩,⟨11,"status",.cardRef,some 3,none⟩,
      ⟨12,"approval_from",.cardRef,some 3,none⟩,⟨13,"approval_to",.cardRef,some 3,none⟩,
      ⟨14,"approval_action",.text,none,none⟩,⟨15,"approvers",.cardRefs,some 5,none⟩,
      ⟨16,"approval_note",.text,none,none⟩,⟨17,"approval_comm",.cardRef,none,none⟩]
    cards := [⟨1,1,none,none,false,.triage⟩,⟨2,2,some 1,none,false,.triage⟩,
      ⟨3,3,some 1,none,false,.active⟩,⟨4,3,some 1,none,false,.terminal⟩,
      ⟨5,5,none,none,false,.triage⟩,⟨6,5,none,none,false,.triage⟩]
    values := [⟨2,11,.ofInt 3⟩]
    flows := [⟨1,11,1,some 3,"Main"⟩]
    flowSteps := [⟨1,1,3,4,none,"Approve",0,false⟩]
    nextCardId := 7 }
  dir := ⟨[⟨20,none,false⟩,⟨21,none,false⟩],[],[],[⟨20,5⟩,⟨21,6⟩]⟩
  areas := ⟨[],[],[]⟩
  createdAt _ := 0
  log := []
  nextRecordId := 1

def noMail : Env := ⟨CardMove.allowed,fun _ _ _ => .error ⟨"validation",""⟩⟩

def askBoth : Op := .set noMail 20 ⟨none,some 2,some 3,some 4,some [5,6],none,none⟩

def approves (actor : Int) : Op := .decide actor ⟨some 2,none,some 3,some 4,some "approve",none⟩

theorem board_keyed : Keyed board := by
  simp [Keyed,board]

/-- An account votes, is linked to the other person and votes as before: the vote is taken
for the first one. And a vote in the transaction that brings the task to the end of the
edge falls in the round that ends with it. -/
theorem votes_lost : Keyed board∧
    (∃ w, Run World.step (fun _ _ => True) ⟨board,fun _ => none⟩
      [⟨100,askBoth⟩,⟨200,approves 20⟩,⟨300,.link 20 (some 6)⟩,⟨400,approves 20⟩] w∧
      w.answers ⟨2,3,4,6⟩=some .approve∧¬Counts CardMove.allowed w.tables ⟨2,3,4,6⟩ .approve∧
      approvalWaitingOn CardMove.allowed w.tables 2 [6]=true)∧
    ∃ w, Run World.step (fun _ _ => True) ⟨board,fun _ => none⟩
      [⟨100,.status 20 2 (.ofInt 4)⟩,⟨100,approves 21⟩] w∧
      w.answers ⟨2,3,4,6⟩=some .approve∧¬Counts CardMove.allowed w.tables ⟨2,3,4,6⟩ .approve := by
  refine ⟨board_keyed,?_,?_⟩
  · have hend : (([⟨100,askBoth⟩,⟨200,approves 20⟩,⟨300,.link 20 (some 6)⟩,
        ⟨400,approves 20⟩] : List Call).foldlM World.step ⟨board,fun _ => none⟩).map (fun w =>
        (w.answers ⟨2,3,4,6⟩,(latestOf w.tables 2 (some 3) (some 4) 6).map (·.decision),
          approvalWaitingOn CardMove.allowed w.tables 2 [6]))=some (some .approve,none,true) := by
      decide
    obtain ⟨w,hw,hend⟩ := Option.map_eq_some_iff.mp hend
    simp only [Prod.mk.injEq] at hend
    obtain ⟨hanswer,hlatest,hwaits⟩ := hend
    refine ⟨w,Run.of_foldlM hw fun _ _ _ => trivial,hanswer,?_,hwaits⟩
    rw [counts_iff,InForce,hlatest]
    simp
  · have hend : (([⟨100,.status 20 2 (.ofInt 4)⟩,⟨100,approves 21⟩] : List Call).foldlM
        World.step ⟨board,fun _ => none⟩).map (fun w =>
        (w.answers ⟨2,3,4,6⟩,(latestOf w.tables 2 (some 3) (some 4) 6).map (·.decision)))=
        some (some .approve,none) := by
      decide
    obtain ⟨w,hw,hend⟩ := Option.map_eq_some_iff.mp hend
    simp only [Prod.mk.injEq] at hend
    obtain ⟨hanswer,hlatest⟩ := hend
    refine ⟨w,Run.of_foldlM hw fun _ _ _ => trivial,hanswer,?_⟩
    rw [counts_iff,InForce,hlatest]
    simp

/-- Both people vote, each with their own account, and the task stays in review. -/
def answering : List Call :=
  [⟨100,askBoth⟩,⟨200,approves 20⟩,⟨300,approves 21⟩,⟨400,.status 20 2 (.ofInt 3)⟩]

def World.next (w : World) (c : Call) : World := (w.step c).getD w

theorem World.step_next {w : World} {c : Call} (h : (w.step c).isSome) : w.step c=some (w.next c) := by
  obtain ⟨w',hw⟩ := Option.isSome_iff_exists.mp h
  rw [World.next,hw,Option.getD_some]

theorem timely_of_first {w : World} {now actor : Int} {input : DecideInput} (seat : Seat)
    (d : Decision) (hc : cast w.tables actor input=some (seat,d))
    (hfirst : recast w.tables actor input=false∧
      after (approvalRoundStart w.tables seat.taskId (some seat.toId)) now=true) :
    Timely w ⟨now,.decide actor input⟩ := by
  intro seat' d' hc'
  rw [hc] at hc'
  cases hc'
  exact .inr hfirst

theorem both_votes_count : ∃ w, Run World.step Timely ⟨board,fun _ => none⟩ answering w∧
    Counts CardMove.allowed w.tables ⟨2,3,4,5⟩ .approve∧
    Counts CardMove.allowed w.tables ⟨2,3,4,6⟩ .approve∧
    approvalTally CardMove.allowed w.tables 2 (some 3) (some 4) [5,6]=⟨2,2,0⟩ := by
  let w₀ : World := ⟨board,fun _ => none⟩
  let w₁ := w₀.next ⟨100,askBoth⟩
  let w₂ := w₁.next ⟨200,approves 20⟩
  let w₃ := w₂.next ⟨300,approves 21⟩
  let w₄ := w₃.next ⟨400,.status 20 2 (.ofInt 3)⟩
  have hdana : Timely w₁ ⟨200,approves 20⟩ :=
    timely_of_first ⟨2,3,4,5⟩ .approve (by decide) (by decide)
  have hlee : Timely w₂ ⟨300,approves 21⟩ :=
    timely_of_first ⟨2,3,4,6⟩ .approve (by decide) (by decide)
  have hrun : Run World.step Timely w₀ answering w₄ :=
    .cons trivial (World.step_next (by decide)) <| .cons hdana (World.step_next (by decide)) <|
      .cons hlee (World.step_next (by decide)) <| .single trivial (World.step_next (by decide))
  have hcounts := (timely_votes_count CardMove.allowed board_keyed hrun).1
  exact ⟨w₄,hrun,hcounts _ _ (by decide),hcounts _ _ (by decide),by decide⟩

end Kitp.Approvals
