import Kitp.Dispatch

/-! A dispatch either commits with every slot answered by its own last step, or
rolls back with one offending slot; handlers are called on maximal runs in input
order. -/
namespace Kitp.Dispatch
open Kitp.Groups
variable {σ In Out Detail : Type}

section Aborts

/-- Every slot of `subs` in error, the offender's and its mirrors' with `e`. -/
def abortedSlots (subs : List SubRequest) (i : Nat) (e : ErrorEnvelope Detail) :
    List (SubResponse Out Detail) :=
  subs.mapIdx fun j sr => ⟨sr.id,false,none,some (if j=i then e else abortedEnvelope)⟩

/-- The slots still stand under the ids of their sub-requests. -/
def SlotIds (subs : List SubRequest) (slots : List (SubResponse Out Detail)) : Prop :=
  slots.map (·.id)=subs.map (·.id)

variable {subs : List SubRequest} {slots : List (SubResponse Out Detail)}

theorem SlotIds.length (h : SlotIds subs slots) : slots.length=subs.length := by
  simpa using congrArg List.length h

theorem SlotIds.abort (h : SlotIds subs slots) (i : Nat) (code msg : String)
    (detail : Option Detail) :
    abortAllWithDetail slots i code msg detail=abortedSlots subs i ⟨code,msg,detail⟩ := by
  apply List.ext_getElem (by simp [abortAllWithDetail,abortedSlots,h.length])
  intro j h₁ h₂
  have hj : j < slots.length := by simpa [abortAllWithDetail] using h₁
  have hj' : j < subs.length := h.length ▸ hj
  have hid : slots[j].id=subs[j].id := by
    have := congrArg (fun l => l[j]?) h
    simpa [hj,hj'] using this
  by_cases hji : j=i
  · simp [abortAllWithDetail,abortedSlots,hji] at hid ⊢
    exact hid
  · simp [abortAllWithDetail,abortedSlots,hji,hid]

theorem SlotIds.abortWithError (h : SlotIds subs slots) (i : Nat) (defCode : String)
    (err : Err Detail) : ∃ e, abortWithError slots i defCode err=abortedSlots subs i e := by
  let e := errEnvelope err defCode
  exact ⟨⟨e.1,e.2.1,e.2.2⟩,h.abort i e.1 e.2.1 e.2.2⟩

theorem slotIds_init :
    SlotIds subs (subs.map fun sr => (⟨sr.id,false,none,none⟩ : SubResponse Out Detail)) := by
  simp [SlotIds]

end Aborts

section Fill
variable {subs : List SubRequest} {slots : List (SubResponse Out Detail)}
  {p : Prepared In} {group group' : List (Prepared In)} {outs outs' : List (Option Out)}

theorem SlotIds.fill (h : SlotIds subs slots) : SlotIds subs (fillSlots subs group outs slots) := by
  induction group generalizing outs slots with
  | nil => simpa [fillSlots] using h
  | cons p group ih =>
    cases outs with
    | nil => simpa [fillSlots] using h
    | cons out outs =>
      simp only [fillSlots]
      refine ih ?_
      split
      · by_cases hp : p.outerIdx < subs.length
        · unfold SlotIds at h ⊢
          rw [List.map_set,h]
          refine List.ext_getElem (by simp) fun j h₁ h₂ => ?_
          by_cases hj : p.outerIdx=j
          · subst hj
            simp [hp]
          · simp [hj]
        · rw [List.set_eq_of_length_le (by rw [h.length]; omega)]
          exact h
      · exact h

theorem fillSlots_append (hlen : outs.length=group.length) :
    fillSlots subs (group++group') (outs++outs') slots=
      fillSlots subs group' outs' (fillSlots subs group outs slots) := by
  induction group generalizing outs slots with
  | nil =>
    obtain rfl : outs=[] := by simpa using hlen
    simp [fillSlots]
  | cons p group ih =>
    cases outs with
    | nil => simp at hlen
    | cons out outs =>
      simp only [List.cons_append,fillSlots]
      exact ih (by simpa using hlen)

/-- The steps that ran for slot `i`, with their outputs. -/
def slotSteps (steps : List (Prepared In×Option Out)) (i : Nat) :
    List (Prepared In×Option Out) :=
  steps.filter fun x => x.1.outerIdx=i

/-- A slot none of whose steps is a last one keeps its response. -/
theorem fillSlots_other {i : Nat}
    (h : ∀ x∈slotSteps (group.zip outs) i, x.1.isLast=false) :
    (fillSlots subs group outs slots)[i]?=slots[i]? := by
  induction group generalizing outs slots with
  | nil => simp [fillSlots]
  | cons p group ih =>
    cases outs with
    | nil => simp [fillSlots]
    | cons out outs =>
      simp only [fillSlots]
      rw [ih fun x hx => h x (by
        simp only [slotSteps,List.zip_cons_cons,List.filter_cons]
        split
        · exact List.mem_cons_of_mem _ hx
        · exact hx)]
      split
      · rename_i hl
        by_cases hi : p.outerIdx=i
        · have := h (p,out) (by simp [slotSteps,hi])
          rw [hl] at this
          cases this
        · rw [List.getElem?_set_ne hi]
      · rfl

/-- A slot is filled by the last of its steps, when that is its only last step. -/
theorem fillSlots_last {i : Nat} {sr : SubRequest} (hi : subs[i]?=some sr)
    (hlen : slots.length=subs.length) {steps : List (Prepared In×Option Out)} {out : Option Out}
    (h : slotSteps (group.zip outs) i=steps++[(p,out)])
    (hinit : ∀ x∈steps, x.1.isLast=false) (hlast : p.isLast=true) :
    (fillSlots subs group outs slots)[i]?=some ⟨sr.id,true,out,none⟩ := by
  induction group generalizing outs slots steps with
  | nil => simp [slotSteps] at h
  | cons q group ih =>
    cases outs with
    | nil => simp [slotSteps] at h
    | cons o outs =>
      simp only [fillSlots]
      simp only [slotSteps,List.zip_cons_cons,List.filter_cons] at h
      split at h
      · rename_i hq
        have hq : q.outerIdx=i := by simpa using hq
        cases steps with
        | nil =>
          simp only [List.nil_append,List.cons.injEq,Prod.mk.injEq] at h
          obtain ⟨⟨rfl,rfl⟩,hrest⟩ := h
          rw [fillSlots_other (by
            intro x hx
            rw [slotSteps,hrest] at hx
            cases hx),if_pos hlast,hq]
          have hlt : i < slots.length := by
            rw [hlen]
            exact (List.getElem?_eq_some_iff.mp hi).1
          simp [hlt,hi]
        | cons x steps =>
          simp only [List.cons_append,List.cons.injEq] at h
          obtain ⟨rfl,hrest⟩ := h
          have hq' : q.isLast=false := hinit (q,o) List.mem_cons_self
          rw [if_neg (by simp [hq'])]
          exact ih hlen hrest fun x hx => hinit x (List.mem_cons_of_mem _ hx)
      · split
        · exact ih (by simpa using hlen) h hinit
        · exact ih hlen h hinit

end Fill

section Groups
variable {env : Env σ In Out Detail} {subs : List SubRequest} {pr : Progress σ In Out Detail}
  {group : List (Prepared In)} {gs : List (List (Prepared In))}

/-- `flush` on each of the groups in order. -/
def flushAll (env : Env σ In Out Detail) (subs : List SubRequest) :
    List (List (Prepared In)) → Progress σ In Out Detail →
    Except (List (SubResponse Out Detail)×List (Call In Out)) (Progress σ In Out Detail)
  | [], pr => .ok pr
  | group::gs, pr =>
    match flush env subs group pr with
    | .error out => .error out
    | .ok pr => flushAll env subs gs pr

theorem runGroups_eq (group rest : List (Prepared In)) (pr : Progress σ In Out Detail) :
    runGroups env subs group rest pr=flushAll env subs (collect handlerKey group rest) pr := by
  fun_induction runGroups env subs group rest pr with
  | case1 group pr =>
    cases group with
    | nil => rfl
    | cons head group =>
      simp only [collect,flushAll]
      cases flush env subs (head::group) pr <;> rfl
  | case2 p rest pr ih => rw [ih,collect]
  | case3 head group p rest pr h ih => rw [ih,collect,if_pos h]
  | case4 head group p rest pr h out hf =>
    rw [collect,if_neg h]
    simp only [flushAll,hf]
  | case5 head group p rest pr h pr' hf ih =>
    rw [ih,collect,if_neg h]
    simp only [flushAll,hf]

theorem runGroups_groups (plan : List (Prepared In)) (pr : Progress σ In Out Detail) :
    runGroups env subs [] plan pr=flushAll env subs (groups handlerKey plan) pr :=
  runGroups_eq [] plan pr

/-- A call that was made for its group's leaves and returned one output for each. -/
def Returned (c : Call In Out) : Prop := ∃ outs, c.outs=some outs∧outs.length=c.group.length

end Groups

end Kitp.Dispatch
