import Kitp.DispatchSlots
import Kitp.Lib.Steps

/-! Every dispatch answers all of its slots one way: committed, each slot by its own
last step, or rolled back, with one offending slot and the rest aborted. -/
namespace Kitp.Dispatch
open Kitp.Groups Kitp.Steps
variable {σ In Out Detail : Type}

section Expansion
variable {env : Env σ In Out Detail} {dupOf : Nat → Option Nat} {subs : List SubRequest}
  {sr : SubRequest} {i : Nat} {plan ps : List (Prepared In)}

/-- The leaves of one sub-request: all of its slot, the last alone marked last. -/
structure Leaves (i : Nat) (ps : List (Prepared In)) : Prop where
  slot : ∀ p∈ps, p.outerIdx=i
  fresh : ∀ p∈ps, p.unbornAnchor=0
  last : ∃ init p, ps=init++[p]∧(∀ q∈init, q.isLast=false)∧p.isLast=true

theorem prepareLeaf_ok {h : Handler} {data name : String} {isLast isLeader : Bool}
    {p : Prepared In} (hp : prepareLeaf env i h data name isLast isLeader=.ok p) :
    p.outerIdx=i∧p.unbornAnchor=0∧p.isLast=isLast := by
  unfold prepareLeaf at hp
  split at hp
  · cases hp
  · split at hp
    · cases hp
    · cases hp
    · cases hp
      exact ⟨rfl,rfl,rfl⟩

theorem expandSteps_leaves {data name : String} {n k : Nat} {steps : List Step}
    (hne : steps≠[]) (hn : k+steps.length=n)
    (h : expandSteps env i data name n k steps=.ok ps) : Leaves i ps := by
  induction steps generalizing k ps with
  | nil => contradiction
  | cons step steps ih =>
    simp only [expandSteps] at h
    split at h
    · cases h
    · obtain ⟨p,hp,h⟩ := bind_ok h
      obtain ⟨rest,hrest,h⟩ := bind_ok h
      obtain ⟨hslot,hfresh,hlast⟩ := prepareLeaf_ok hp
      obtain rfl : p::rest=ps := by simpa [pure,Except.pure] using h
      cases steps with
      | nil =>
        obtain rfl : rest=[] := by simpa [expandSteps] using hrest.symm
        have hk : k=n-1 := by
          simp only [List.length_cons,List.length_nil] at hn
          omega
        exact ⟨by simp [hslot],by simp [hfresh],[],p,rfl,by simp,by simp [hlast,hk]⟩
      | cons step' steps =>
        have hlen : k+1+(step'::steps).length=n := by
          simp only [List.length_cons] at hn ⊢
          omega
        obtain ⟨hs,hf,init,q,rfl,hinit,hq⟩ := ih (by simp) hlen hrest
        have hk : k≠n-1 := by
          simp only [List.length_cons] at hn
          omega
        refine ⟨List.forall_mem_cons.mpr ⟨hslot,hs⟩,List.forall_mem_cons.mpr ⟨hfresh,hf⟩,
          p::init,q,rfl,?_,hq⟩
        · intro r hr
          obtain rfl|hr := List.mem_cons.mp hr
          · rw [hlast]
            exact decide_eq_false hk
          · exact hinit r hr

theorem expandSubrequest_leaves (h : expandSubrequest env i sr=.ok ps) : Leaves i ps := by
  unfold expandSubrequest at h
  split at h
  · obtain ⟨p,hp,h⟩ := bind_ok h
    obtain ⟨hslot,hfresh,hlast⟩ := prepareLeaf_ok hp
    obtain rfl : [p]=ps := by simpa [pure,Except.pure] using h
    exact ⟨by simp [hslot],by simp [hfresh],[],p,rfl,by simp,hlast⟩
  · dsimp only at h
    split at h
    · cases h
    · cases h
    · cases h
    · rename_i steps hne _
      exact expandSteps_leaves (fun hs => hne (by simp [hs])) (by simp) h

/-- The leaves to run of the sub-requests that stand from slot `i` on: in input order,
the leaves of each slot its expansion, and none for a repeat. -/
structure InOrder (env : Env σ In Out Detail) (dupOf : Nat → Option Nat) (i : Nat)
    (subs : List SubRequest) (plan : List (Prepared In)) : Prop where
  sorted : plan.Pairwise fun p q => p.outerIdx≤q.outerIdx
  slot : ∀ p∈plan, i≤p.outerIdx∧p.outerIdx < i+subs.length∧dupOf p.outerIdx=none
  expanded : ∀ j sr, subs[j]?=some sr → dupOf (i+j)=none →
    expandSubrequest env (i+j) sr=.ok (plan.filter (·.outerIdx=i+j))

theorem expandAll_inOrder (h : expandAll env dupOf i subs=.ok plan) :
    InOrder env dupOf i subs plan := by
  induction subs generalizing i plan with
  | nil =>
    obtain rfl : plan=[] := by simpa [expandAll] using h.symm
    exact ⟨.nil,by simp,by simp⟩
  | cons sr rest ih =>
    simp only [expandAll] at h
    split at h
    · rename_i leader hdup
      obtain ⟨hs,hslot,hexp⟩ := ih h
      refine ⟨hs,fun p hp => ?_,fun j sr' hj hnone => ?_⟩
      · obtain ⟨h₁,h₂,h₃⟩ := hslot p hp
        exact ⟨by omega,by simp only [List.length_cons]; omega,h₃⟩
      · cases j with
        | zero =>
          rw [Nat.add_zero,hdup] at hnone
          cases hnone
        | succ j =>
          have hij : i+(j+1)=i+1+j := by omega
          rw [hij] at hnone ⊢
          exact hexp j sr' (by simpa using hj) hnone
    · rename_i hdup
      cases hps : expandSubrequest env i sr with
      | error err => simp [hps] at h
      | ok ps =>
        simp only [hps] at h
        obtain ⟨others,hrest,h⟩ := bind_ok h
        obtain rfl : ps++others=plan := by simpa [pure,Except.pure] using h
        obtain ⟨hs,hslot,hexp⟩ := ih hrest
        have hps' := (expandSubrequest_leaves hps).slot
        refine ⟨?_,fun p hp => ?_,fun j sr' hj hnone => ?_⟩
        · refine List.pairwise_append.mpr ⟨?_,hs,fun p hp q hq => ?_⟩
          · refine List.pairwise_of_forall_mem_list fun p hp q hq => ?_
            have hpq : p.outerIdx=q.outerIdx := (hps' p hp).trans (hps' q hq).symm
            omega
          · have := (hslot q hq).1
            rw [hps' p hp]
            omega
        · obtain hp|hp := List.mem_append.mp hp
          · rw [hps' p hp]
            exact ⟨by omega,by simp only [List.length_cons]; omega,hdup⟩
          · obtain ⟨h₁,h₂,h₃⟩ := hslot p hp
            exact ⟨by omega,by simp only [List.length_cons]; omega,h₃⟩
        · rw [List.filter_append]
          cases j with
          | zero =>
            obtain rfl : sr=sr' := by simpa using hj
            have hall : ps.filter (·.outerIdx=i+0)=ps :=
              List.filter_eq_self.mpr fun p hp => by simpa using hps' p hp
            have hnil : others.filter (·.outerIdx=i+0)=[] :=
              List.filter_eq_nil_iff.mpr fun q hq => by
                have := (hslot q hq).1
                simp only [decide_eq_true_eq]
                omega
            rw [hall,hnil,List.append_nil]
            exact hps
          | succ j =>
            have hij : i+(j+1)=i+1+j := by omega
            have hnil : ps.filter (·.outerIdx=i+(j+1))=[] :=
              List.filter_eq_nil_iff.mpr fun p hp => by
                have := hps' p hp
                simp only [decide_eq_true_eq]
                omega
            rw [hnil,List.nil_append]
            rw [hij] at hnone ⊢
            exact hexp j sr' (by simpa using hj) hnone

end Expansion

section Gates
variable {env : Env σ In Out Detail} {plan prepped : List (Prepared In)}

/-- A leaf as its expansion left it. -/
def forget (p : Prepared In) : Prepared In := { p with unbornAnchor := 0 }

theorem authorizeLeaves_ok {known : Int → Bool}
    (h : authorizeLeaves env known prepped=.ok plan) : plan.map forget=prepped.map forget := by
  induction prepped generalizing plan with
  | nil =>
    obtain rfl : plan=[] := by simpa [authorizeLeaves] using h.symm
    rfl
  | cons p rest ih =>
    simp only [authorizeLeaves] at h
    split at h
    · cases h
    · split at h
      · cases h
      · obtain ⟨others,hrest,h⟩ := bind_ok h
        obtain rfl : _=plan := by simpa [pure,Except.pure] using h
        rw [List.map_cons,ih hrest,List.map_cons]
        rfl

theorem runAuthzPass_ok (h : runAuthzPass env prepped=.ok plan) :
    plan.map forget=prepped.map forget := by
  cases prepped with
  | nil =>
    obtain rfl : plan=[] := by simpa [runAuthzPass] using h.symm
    rfl
  | cons first rest =>
    obtain ⟨seeds,_,h⟩ := bind_ok h
    split at h
    · cases h
    · split at h
      · cases h
      · exact authorizeLeaves_ok h

end Gates

section Mirrors
variable {lookup : String → String → Option Handler} {subs : List SubRequest} {i j : Nat}

/-- A repeat names an earlier slot that is no repeat itself. -/
theorem dedup_leader (h : dedupReadSubrequests lookup subs i=some j) :
    j < i∧i < subs.length∧dedupReadSubrequests lookup subs j=none := by
  unfold dedupReadSubrequests at h
  split at h
  · cases h
  · rename_i sr hi
    split at h
    · obtain ⟨hj,hji,hfirst⟩ := List.find?_range_eq_some.mp h
      have hlt : i < subs.length := (List.getElem?_eq_some_iff.mp hi).1
      refine ⟨by simpa using hji,hlt,?_⟩
      unfold dedupReadSubrequests
      split
      · rfl
      · rename_i other hother
        split
        · -- an earlier occurrence for `j` would be one for `i` too
          have hkey : dedupKey other=dedupKey sr := by
            have hj' := hj
            rw [hother] at hj'
            simp only [Bool.and_eq_true,decide_eq_true_eq] at hj'
            exact hj'.2
          refine List.find?_eq_none.mpr fun k hk => ?_
          have := hfirst k (by simpa using hk)
          rw [hkey]
          simpa using this
        · rfl
    · cases h

end Mirrors

section Answers
variable (env : Env σ In Out Detail) (dupOf : Nat → Option Nat) (subs : List SubRequest)

/-- The handlers were called on the first of the maximal runs of the leaves to run. -/
def CalledInOrder (calls : List (Call In Out)) : Prop :=
  calls=[]∨∃ plan gs, InOrder env dupOf 0 subs (plan.map forget)∧MaximalRuns handlerKey plan gs∧
    calls.map (·.group) <+: gs

variable {env dupOf subs} {db : σ}

/-- The result before mirroring, when the batch aborts. -/
def Aborts (r : Result σ In Out Detail) (db : σ) (env : Env σ In Out Detail)
    (dupOf : Nat → Option Nat) (subs : List SubRequest) : Prop :=
  ∃ i e calls, i < subs.length∧dupOf i=none∧r=⟨abortedSlots subs i e,false,db,calls⟩∧
    CalledInOrder env dupOf subs calls

theorem InOrder.forget_eq {plan : List (Prepared In)} (h : InOrder env dupOf 0 subs plan) :
    plan.map forget=plan := by
  refine (List.map_congr_left fun p hp => ?_).trans (List.map_id plan)
  obtain ⟨_,hlt,hnone⟩ := h.slot p hp
  have hexp := h.expanded p.outerIdx subs[p.outerIdx] (by simp)
    (by rwa [Nat.zero_add])
  have hp0 : p.unbornAnchor=0 :=
    (expandSubrequest_leaves hexp).fresh p (List.mem_filter.mpr ⟨hp,by simp⟩)
  cases p
  simp_all [forget]

theorem InOrder.offender {plan : List (Prepared In)} (h : InOrder env dupOf 0 subs plan) {k : Nat}
    (hk : ∃ p∈plan, p.outerIdx=k) : k < subs.length∧dupOf k=none := by
  obtain ⟨p,hp,rfl⟩ := hk
  obtain ⟨_,hlt,hnone⟩ := h.slot p hp
  exact ⟨by omega,hnone⟩

/-- The steps that ran for a slot are its leaves. -/
theorem slotSteps_forget {plan : List (Prepared In)} {steps : List (Prepared In×Option Out)}
    (hsteps : steps.map (·.1)=plan) (i : Nat) :
    (slotSteps steps i).map (fun x => forget x.1)=
      (plan.map forget).filter (fun p => p.outerIdx=i) := by
  rw [← hsteps,List.map_map,List.filter_map]
  refine congrArg (List.map _) (List.filter_congr fun x _ => decide_eq_decide.mpr ?_)
  simp [forget]

/-- The steps that ran for a slot end in its last step, its only one marked so. -/
theorem InOrder.lastStep {plan : List (Prepared In)} {steps : List (Prepared In×Option Out)}
    {i : Nat} {sr : SubRequest} (h : InOrder env dupOf 0 subs (plan.map forget))
    (hsteps : steps.map (·.1)=plan) (hi : subs[i]?=some sr) (hnone : dupOf i=none) :
    ∃ init p out, slotSteps steps i=init++[(p,out)]∧(∀ x∈init, x.1.isLast=false)∧
      p.isLast=true := by
  have hexp := h.expanded i sr hi (by rwa [Nat.zero_add])
  obtain ⟨_,_,init,p,hlast,hinit,hp⟩ := expandSubrequest_leaves hexp
  have hslot : (slotSteps steps i).map (fun x => forget x.1)=init++[p] := by
    rw [← hlast,slotSteps_forget hsteps,Nat.zero_add]
  obtain ⟨init',last,hsplit,hinit',hlast'⟩ := List.map_eq_append_iff.mp hslot
  obtain ⟨⟨q,out⟩,rfl,hq⟩ := List.map_eq_singleton_iff.mp hlast'
  refine ⟨init',q,out,hsplit,fun x hx => ?_,?_⟩
  · have := hinit (forget x.1) (hinit' ▸ List.mem_map_of_mem hx)
    simpa [forget] using this
  · rw [← hp,← hq]
    rfl

end Answers

end Kitp.Dispatch
