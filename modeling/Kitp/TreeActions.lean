import Kitp.Lib.Runs

/-! Optimistic actions on one path of the data tree (`optimistic`, `DataController.fireAction`):
each patches the leaf at once and puts its snapshot back when its call fails. -/
namespace Kitp.TreeActions
open Kitp.Runs

variable {α : Type*}

inductive Outcome where
  | waiting
  | succeeded
  | failed
  /-- A server value landed after it had succeeded. -/
  | overwritten
  deriving DecidableEq

/-- A fired action: its control, and the transaction's snapshot and `settled`; the patch and the
outcome are what is asked of the path, the transaction keeps neither. -/
structure Action (α : Type*) where
  control : Nat
  snapshot : α
  settled : Bool
  patch : α → α
  outcome : Outcome

/-- The leaf, the actions in the order they were fired and the destroyed controls; `base` is the
last server value, or the one the path started with. -/
structure State (α : Type*) where
  leaf : α
  actions : List (Action α)
  gone : List Nat
  base : α

inductive Event (α : Type*) where
  | fire (control : Nat) (patch : α → α)
  /-- Another call's result is set at the path. -/
  | server (v : α)
  /-- The call of an action succeeds, with what its own sink sets at the path. -/
  | ok (i : Nat) (result : Option α)
  | fault (i : Nat)
  | destroy (control : Nat)

def start (v : α) : State α := ⟨v,[],[],v⟩

variable (s : State α)

/-- `isAlive`. -/
def State.alive (control : Nat) : Bool := control∉s.gone

/-- `optimistic`: the snapshot, and the patch at once. -/
def optimistic (control : Nat) (patch : α → α) : State α :=
  { s with
    leaf := patch s.leaf
    actions := s.actions++[⟨control,s.leaf,false,patch,.waiting⟩] }

def Action.answered (o : Outcome) (a : Action α) : Action α := { a with outcome := o }

/-- `TreeTxn.commit`; the next server read overwrites. -/
def Action.commit (a : Action α) : Action α := { a with settled := true }

/-- `TreeTxn.rollback`. -/
def rollback (i : Nat) (a : Action α) : State α :=
  if a.settled then s
  else { s with leaf := a.snapshot, actions := s.actions.modify i .commit }

def Action.cover (a : Action α) : Action α :=
  if a.outcome=.succeeded then a.answered .overwritten else a

/-- `deliverResult` with `toPath`. -/
def deliver (v : α) : State α :=
  { s with leaf := v, base := v, actions := s.actions.map .cover }

/-- The dispatcher has an answer for the action; a destroyed control doesn't hear it. -/
def answer (i : Nat) (a : Action α) (o : Outcome) (heard : State α → State α) : State α :=
  let s := { s with actions := s.actions.modify i (.answered o) }
  if s.alive a.control then heard s else s

def step : State α → Event α → Option (State α)
  | s,.fire control patch => if s.alive control then some (optimistic s control patch) else none
  | s,.server v => some (deliver s v)
  | s,.ok i result => (s.actions[i]?.filter (·.outcome = .waiting)).map fun a =>
      answer s i a .succeeded fun s =>
        result.elim { s with actions := s.actions.modify i .commit }
          (deliver { s with actions := s.actions.modify i .commit })
  | s,.fault i => (s.actions[i]?.filter (·.outcome = .waiting)).map fun a =>
      answer s i a .failed fun s => rollback s i a
  | s,.destroy control => some { s with gone := control::s.gone }

/-- The patches of these actions, in the order they were fired. -/
def applied (p : Outcome → Bool) (v : α) (actions : List (Action α)) : α :=
  actions.foldl (fun v a => if p a.outcome then a.patch v else v) v

def Outcome.stands : Outcome → Bool
  | .waiting => true
  | .succeeded => true
  | _ => false

/-- What the path is to hold: the patches that succeeded, on the last server value. -/
def State.expected : α := applied (· = .succeeded) s.base s.actions

/-- No server value lands while another action waits; an action fails before its control is
destroyed and after every action fired later has failed. -/
def Calm (s : State α) : Event α → Prop
  | .server _ => ∀ a∈s.actions, a.outcome≠.waiting
  | .ok i (some _) => ∀ a, s.actions[i]?=some a → s.alive a.control=true →
      ∀ j b, s.actions[j]?=some b → b.outcome=.waiting → j=i
  | .fault i => ∀ a, s.actions[i]?=some a → s.alive a.control=true∧
      ∀ j b, i<j → s.actions[j]?=some b → b.outcome=.failed
  | _ => True

variable {s} {t : State α} {e : Event α} {es : List (Event α)} {v w : α} {as bs : List (Action α)}
  {a : Action α} {p : Outcome → Bool} {i : Nat}

@[simp] theorem applied_nil : applied p v []=v := rfl

@[simp] theorem applied_append : applied p v (as++bs)=applied p (applied p v as) bs :=
  List.foldl_append

@[simp] theorem applied_cons :
    applied p v (a::as)=applied p (if p a.outcome then a.patch v else v) as := rfl

/-- Actions that don't count leave the value. -/
theorem applied_none (h : ∀ a∈as, p a.outcome=false) : applied p v as=v := by
  induction as with
  | nil => rfl
  | cons a as ih =>
    have ha : p a.outcome=false := h a List.mem_cons_self
    simp only [applied_cons,ha,Bool.false_eq_true,if_false]
    exact ih fun b hb => h b (List.mem_cons_of_mem _ hb)

/-- Counting is by the outcome, whatever the snapshots are. -/
theorem applied_congr {q : Outcome → Bool} (h : ∀ a∈as, p a.outcome=q a.outcome) :
    applied p v as=applied q v as := by
  induction as generalizing v with
  | nil => rfl
  | cons a as ih =>
    simp only [applied_cons,h a List.mem_cons_self]
    exact ih fun b hb => h b (List.mem_cons_of_mem _ hb)

/-- The leaf has the patches that stand, and a waiting action's snapshot is the leaf below it. -/
structure Layered (s : State α) : Prop where
  leaf : s.leaf=applied Outcome.stands s.base s.actions
  below : ∀ as a bs, s.actions=as++a::bs → a.outcome=.waiting →
    a.settled=false∧a.snapshot=applied Outcome.stands s.base as

theorem layered_start : Layered (start v) := by
  refine ⟨rfl,fun as a bs h _ => ?_⟩
  simp [start] at h

/-- One action of the list is changed. -/
theorem modify_split (h : s.actions[i]?=some a) (f : Action α → Action α) :
    ∃ as bs, s.actions=as++a::bs∧as.length=i∧s.actions.modify i f=as++f a::bs := by
  obtain ⟨hi,ha⟩ := List.getElem?_eq_some_iff.mp h
  refine ⟨s.actions.take i,s.actions.drop (i+1),?_,by simp; omega,?_⟩
  · rw [← ha,List.getElem_cons_drop,List.take_append_drop]
  · rw [List.modify_eq_take_cons_drop hi,ha]

theorem Layered.fire (h : Layered s) (control : Nat) (patch : α → α) :
    Layered (optimistic s control patch) := by
  constructor
  · show patch s.leaf=applied Outcome.stands s.base (s.actions++[_])
    rw [applied_append,← h.leaf]
    rfl
  · intro as a bs hsplit hwait
    have hsplit : s.actions++[⟨control,s.leaf,false,patch,.waiting⟩]=as++a::bs := hsplit
    rcases List.eq_nil_or_concat bs with rfl | ⟨cs,c,rfl⟩
    · obtain ⟨rfl,ha⟩ := List.append_inj' hsplit rfl
      cases ha
      exact ⟨rfl,h.leaf⟩
    · rw [List.concat_eq_append,← List.cons_append,← List.append_assoc] at hsplit
      obtain ⟨hrest,-⟩ := List.append_inj' hsplit rfl
      exact h.below as a cs hrest hwait

/-- A server value is the leaf, and nothing waits below it. -/
theorem Layered.deliver (h : ∀ a∈s.actions, a.outcome≠.waiting) (v : α) :
    Layered (deliver s v) := by
  have hcovered : ∀ a∈s.actions.map Action.cover, a.outcome≠.waiting∧a.outcome.stands=false := by
    intro a ha
    obtain ⟨b,hb,rfl⟩ := List.mem_map.mp ha
    have hwait := h b hb
    unfold Action.cover
    split
    · exact ⟨by simp [Action.answered],rfl⟩
    · rename_i hnot
      refine ⟨hwait,?_⟩
      cases ho : b.outcome with
      | waiting => exact absurd ho hwait
      | succeeded => exact absurd ho hnot
      | failed => rfl
      | overwritten => rfl
  constructor
  · exact (applied_none fun a ha => (hcovered a ha).2).symm
  · intro as a bs hsplit hwait
    have hmem : a∈s.actions.map Action.cover := by
      rw [show s.actions.map Action.cover=as++a::bs from hsplit]
      exact List.mem_append_right as List.mem_cons_self
    exact absurd hwait (hcovered a hmem).1

/-- A waiting action that succeeds goes on standing. -/
theorem Layered.succeed (h : Layered s) {f : Action α → Action α} (ha : s.actions[i]?=some a)
    (hwait : a.outcome=.waiting) (hout : (f a).outcome=.succeeded) (hpatch : (f a).patch=a.patch) :
    Layered { s with actions := s.actions.modify i f } := by
  obtain ⟨as,bs,hsplit,hlength,hmod⟩ := modify_split ha f
  have hsame : ∀ v ds, applied Outcome.stands v (f a::ds)=applied Outcome.stands v (a::ds) := by
    intro v ds
    simp [hout,hwait,hpatch,Outcome.stands]
  constructor
  · show s.leaf=applied Outcome.stands s.base (s.actions.modify i f)
    rw [hmod,applied_append,hsame,← applied_append,← hsplit]
    exact h.leaf
  · intro cs c ds hcs hc
    have hcs : s.actions.modify i f=cs++c::ds := hcs
    rw [hmod] at hcs
    -- the waiting one is before the action that succeeded, or after it
    rcases List.append_eq_append_iff.mp hcs with ⟨es,rfl,htail⟩ | ⟨es,rfl,htail⟩
    · cases es with
      | nil =>
        rw [List.nil_append,List.cons.injEq] at htail
        rw [← htail.1,hout] at hc
        cases hc
      | cons x es =>
        rw [List.cons_append,List.cons.injEq] at htail
        obtain ⟨rfl,rfl⟩ := htail
        have hbelow := h.below (as++a::es) c ds (by rw [hsplit]; simp) hc
        refine ⟨hbelow.1,hbelow.2.trans ?_⟩
        rw [applied_append,applied_append,hsame]
    · cases es with
      | nil =>
        rw [List.nil_append,List.cons.injEq] at htail
        rw [htail.1,hout] at hc
        cases hc
      | cons x es =>
        rw [List.cons_append,List.cons.injEq] at htail
        obtain ⟨rfl,rfl⟩ := htail
        exact h.below cs c (es++a::bs) (by rw [hsplit]; simp) hc

/-- The latest of those that stand fails: what is left is its snapshot. -/
theorem Layered.fail (h : Layered s) (ha : s.actions[i]?=some a) (hwait : a.outcome=.waiting)
    (hlater : ∀ j b, i<j → s.actions[j]?=some b → b.outcome=.failed) {f : Action α → Action α}
    (hout : (f a).outcome=.failed) :
    Layered { s with leaf := a.snapshot, actions := s.actions.modify i f } := by
  obtain ⟨as,bs,hsplit,hlength,hmod⟩ := modify_split ha f
  have hfailed : ∀ b∈f a::bs, b.outcome=.failed := by
    intro b hb
    rcases List.mem_cons.mp hb with rfl | hb
    · exact hout
    · obtain ⟨j,hj⟩ := List.mem_iff_getElem?.mp hb
      refine hlater (i+1+j) b (by omega) ?_
      rw [hsplit,List.getElem?_append_right (by omega),← hlength]
      rw [show as.length+1+j-as.length=j+1 by omega,List.getElem?_cons_succ]
      exact hj
  constructor
  · show a.snapshot=applied Outcome.stands s.base (s.actions.modify i f)
    rw [hmod,applied_append,applied_none fun b hb => by rw [hfailed b hb]; rfl]
    exact (h.below as a bs hsplit hwait).2
  · intro cs c ds hcs hc
    have hcs : s.actions.modify i f=cs++c::ds := hcs
    rw [hmod] at hcs
    rcases List.append_eq_append_iff.mp hcs with ⟨es,rfl,htail⟩ | ⟨es,rfl,htail⟩
    · have hmem : c∈f a::bs := by
        rw [htail]
        exact List.mem_append_right es List.mem_cons_self
      rw [hfailed c hmem] at hc
      cases hc
    · cases es with
      | nil =>
        rw [List.nil_append,List.cons.injEq] at htail
        rw [htail.1,hout] at hc
        cases hc
      | cons x es =>
        rw [List.cons_append,List.cons.injEq] at htail
        obtain ⟨rfl,rfl⟩ := htail
        exact h.below cs c (es++a::bs) (by rw [hsplit]; simp) hc

theorem step_layered (h : Layered s) (hcalm : Calm s e) (hstep : step s e=some t) : Layered t := by
  cases e with
  | fire control patch =>
    obtain ⟨-,rfl⟩ : s.alive control=true∧optimistic s control patch=t := by
      simpa [step] using hstep
    exact h.fire control patch
  | server v =>
    cases hstep
    exact Layered.deliver hcalm v
  | ok i result =>
    obtain ⟨a,ha,rfl⟩ := Option.map_eq_some_iff.mp hstep
    obtain ⟨ha,hwait⟩ := Option.filter_eq_some_iff.mp ha
    have hwait : a.outcome=.waiting := by simpa using hwait
    unfold answer
    dsimp only
    split
    · rename_i halive
      have hboth : (s.actions.modify i (.answered .succeeded)).modify i .commit=
          s.actions.modify i (.commit∘.answered .succeeded) := List.modify_modify_eq ..
      cases result with
      | none =>
        rw [Option.elim_none,hboth]
        exact h.succeed ha hwait rfl rfl
      | some v =>
        rw [Option.elim_some,hboth]
        refine Layered.deliver ?_ v
        intro b hb hbwait
        obtain ⟨j,hj⟩ := List.mem_iff_getElem?.mp hb
        have hj : (s.actions.modify i (.commit∘.answered .succeeded))[j]?=some b := hj
        rw [List.getElem?_modify] at hj
        obtain ⟨c,hc,rfl⟩ := Option.map_eq_some_iff.mp hj
        by_cases hij : i=j
        · rw [if_pos hij] at hbwait
          cases hbwait
        · rw [if_neg hij] at hbwait
          exact hij (hcalm a ha halive j c hc hbwait).symm
    · exact h.succeed ha hwait rfl rfl
  | fault i =>
    obtain ⟨a,ha,rfl⟩ := Option.map_eq_some_iff.mp hstep
    obtain ⟨ha,hwait⟩ := Option.filter_eq_some_iff.mp ha
    have hwait : a.outcome=.waiting := by simpa using hwait
    obtain ⟨halive,hlater⟩ := hcalm a ha
    have hsettled : a.settled=false := by
      obtain ⟨as,bs,hsplit,-,-⟩ := modify_split ha id
      exact (h.below as a bs hsplit hwait).1
    have hheard : State.alive { s with actions := s.actions.modify i (.answered .failed) }
        a.control=true := halive
    have hboth : (s.actions.modify i (.answered .failed)).modify i .commit=
        s.actions.modify i (.commit∘.answered .failed) := List.modify_modify_eq ..
    simp only [answer,hheard,if_true,rollback,hsettled,Bool.false_eq_true,if_false,hboth]
    exact h.fail ha hwait hlater rfl
  | destroy control =>
    cases hstep
    exact ⟨h.leaf,h.below⟩

/-- Once every action is answered, the path holds the patches that succeeded on the last server
value. -/
theorem path_holds (hrun : Run step Calm (start v) es s)
    (hall : ∀ a∈s.actions, a.outcome≠.waiting) : s.leaf=s.expected := by
  have h : Layered s := hrun.inv Layered (fun _ _ _ h hcalm hst => step_layered h hcalm hst)
    layered_start
  rw [h.leaf]
  refine applied_congr fun a ha => ?_
  have hwait := hall a ha
  cases ho : a.outcome with
  | waiting => exact absurd ho hwait
  | succeeded => rfl
  | failed => rfl
  | overwritten => rfl

section Examples

/-- Two rows are added, both are refused. -/
def refused : List (Event (List Nat)) :=
  [.fire 0 (·++[1]),.fire 0 (·++[2]),.fault 1,.fault 0]

/-- In this order nothing is left of them. -/
theorem path_holds_refused : ∃ s, Run step Calm (start [7]) refused s∧s.leaf=s.expected∧s.leaf=[7] := by
  have hlater : ∀ j, 1<j → ∀ acts : List (Action (List Nat)), acts.length=2 → acts[j]?=none :=
    fun j hj acts hlength => List.getElem?_eq_none (by omega)
  have hrun : ∃ s, Run step Calm (start [7]) refused s∧(∀ a∈s.actions, a.outcome≠.waiting)∧
      s.leaf=[7] := by
    refine ⟨_,.cons trivial rfl (.cons trivial rfl (.cons ?second rfl (.cons ?first rfl (.nil _)))),
      by decide,rfl⟩
    case second =>
      intro a ha
      cases ha
      refine ⟨rfl,fun j b hj hb => ?_⟩
      rw [hlater j hj _ rfl] at hb
      cases hb
    case first =>
      intro a ha
      cases ha
      refine ⟨rfl,fun j b hj hb => ?_⟩
      by_cases hj1 : j=1
      · subst hj1
        cases hb
        rfl
      · rw [hlater j (by omega) _ rfl] at hb
        cases hb
  obtain ⟨s,hrun,hall,hleaf⟩ := hrun
  exact ⟨s,hrun,path_holds hrun hall,hleaf⟩

/-- In the other order the first one's row comes back with the second one's snapshot. -/
theorem refused_row_returns : ∃ es s, Run step (fun _ _ => True) (start ([] : List Nat)) es s∧
    (∀ a∈s.actions, a.outcome≠.waiting)∧s.leaf=[1]∧s.expected=[] := by
  refine ⟨[.fire 0 (·++[1]),.fire 0 (·++[2]),.fault 0,.fault 1],_,
    .cons trivial rfl (.cons trivial rfl (.cons trivial rfl (.cons trivial rfl (.nil _)))),?_,rfl,rfl⟩
  decide

end Examples

end Kitp.TreeActions
