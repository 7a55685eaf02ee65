import Kitp.DispatchCuts

/-! Collapsing repeated reads leaves the responses of a batch as they were, as long as
no step that may write runs between a read and its repeat. -/
namespace Kitp.Dispatch
open Kitp.Groups Kitp.Steps
variable {σ In Out Detail : Type}

section Cover

def repeated (dupOf : Nat → Option Nat) (p : Prepared In) : Bool := (dupOf p.outerIdx).isSome

/-- Each repeat is a read whose first occurrence is among the reads `seen` since the
last leaf that may write. -/
def Covered (lookup : String → String → Option Handler) (dupOf : Nat → Option Nat) :
    List (Prepared In) → List (Prepared In) → Prop
  | _, [] => True
  | seen, p::rest =>
    if readLeaf lookup p then
      (∀ i, dupOf p.outerIdx=some i → ∃ q∈seen, q.outerIdx=i∧Twin q p)∧
        Covered lookup dupOf (p::seen) rest
    else dupOf p.outerIdx=none∧Covered lookup dupOf [] rest

/-- `Covered`, over the units the leaves run in. -/
inductive CoveredUnits (lookup : String → String → Option Handler) (dupOf : Nat → Option Nat) :
    List (Prepared In) → List (List (Prepared In)) → Prop where
  | nil (seen : List (Prepared In)) : CoveredUnits lookup dupOf seen []
  | read {seen : List (Prepared In)} {p : Prepared In} {us : List (List (Prepared In))} : readLeaf lookup p=true →
      (∀ i, dupOf p.outerIdx=some i → ∃ q∈seen, q.outerIdx=i∧Twin q p) →
      CoveredUnits lookup dupOf (p::seen) us → CoveredUnits lookup dupOf seen ([p]::us)
  | write {seen g : List (Prepared In)} {us : List (List (Prepared In))} : (∀ p∈g, dupOf p.outerIdx=none) → CoveredUnits lookup dupOf [] us →
      CoveredUnits lookup dupOf seen (g::us)

variable {env : Env σ In Out Detail} {born : σ → Int → Prop} {dupOf : Nat → Option Nat}
  {lookup : String → String → Option Handler} {seen seen' l group : List (Prepared In)}
  {us : List (List (Prepared In))} {db db' : σ} {steps : List (Prepared In×Option Out)}

theorem CoveredUnits.mono (h : CoveredUnits lookup dupOf seen us) (hsub : seen ⊆ seen') :
    CoveredUnits lookup dupOf seen' us := by
  induction h generalizing seen' with
  | nil => exact .nil _
  | read hr hd _ ih =>
    refine .read hr (fun i hi => ?_) (ih (List.cons_subset_cons _ hsub))
    obtain ⟨q,hq,hqi,ht⟩ := hd i hi
    exact ⟨q,hsub hq,hqi,ht⟩
  | write hd hus _ => exact .write hd hus

/-- Between a repeat and its first occurrence stand only reads. -/
def ReadsBetween (lookup : String → String → Option Handler) (dupOf : Nat → Option Nat)
    (l : List (Prepared In)) : Prop :=
  ∀ pre p post, l=pre++p::post → ∀ i, dupOf p.outerIdx=some i → readLeaf lookup p=true∧
    ∃ pre' q mid, pre=pre'++q::mid∧q.outerIdx=i∧Twin q p∧∀ r∈q::mid, readLeaf lookup r=true

theorem ReadsBetween.covered (pre : List (Prepared In)) (h : ReadsBetween lookup dupOf (pre++l)) :
    Covered lookup dupOf (pre.reverse.takeWhile (readLeaf lookup)) l := by
  induction l generalizing pre with
  | nil => trivial
  | cons p rest ih =>
    have hrest := ih (pre++[p]) (by simpa using h)
    rw [List.reverse_append,List.reverse_singleton,List.singleton_append] at hrest
    rw [Covered]
    split
    · rename_i hp
      rw [List.takeWhile_cons_of_pos hp] at hrest
      refine ⟨fun i hi => ?_,hrest⟩
      obtain ⟨_,pre',q,mid,rfl,hqi,ht,hmid⟩ := h pre p rest rfl i hi
      refine ⟨q,?_,hqi,ht⟩
      have hrev : ∀ r∈(q::mid).reverse, readLeaf lookup r=true :=
        fun r hr => hmid r (List.mem_reverse.mp hr)
      rw [List.reverse_append,List.takeWhile_append_of_pos hrev]
      exact List.mem_append_left _ (by simp)
    · rename_i hp
      rw [List.takeWhile_cons_of_neg hp] at hrest
      refine ⟨?_,hrest⟩
      cases hd : dupOf p.outerIdx with
      | none => rfl
      | some i => exact absurd (h pre p rest rfl i hd).1 hp

theorem ReadsBetween.map {m : Prepared In → Prepared In} (hidx : ∀ p, (m p).outerIdx=p.outerIdx)
    (hh : ∀ p, (m p).handler=p.handler) (ht : ∀ q p, Twin q p → Twin (m q) (m p))
    (h : ReadsBetween lookup dupOf l) : ReadsBetween lookup dupOf (l.map m) := by
  have hread : ∀ p, readLeaf lookup (m p)=readLeaf lookup p := fun p => by
    rw [readLeaf,readLeaf,hh]
  intro pre p' post hl i hd
  obtain ⟨l₁,l₂,rfl,rfl,hl₂⟩ := List.map_eq_append_iff.mp hl
  obtain ⟨p,l₃,rfl,rfl,rfl⟩ := List.map_eq_cons_iff.mp hl₂
  rw [hidx] at hd
  obtain ⟨hp,pre',q,mid,rfl,hqi,htw,hmid⟩ := h l₁ p l₃ rfl i hd
  refine ⟨(hread p).trans hp,pre'.map m,m q,mid.map m,by simp,(hidx q).trans hqi,ht q p htw,?_⟩
  rw [← List.map_cons]
  intro r hr
  obtain ⟨r',hr',rfl⟩ := List.mem_map.mp hr
  exact (hread r').trans (hmid r' hr')

theorem Covered.chain (h : Covered lookup dupOf seen l) :
    l.IsChain fun a b => repeated dupOf b=true → readLeaf lookup a=true := by
  induction l generalizing seen with
  | nil => exact .nil
  | cons p rest ih =>
    rw [Covered] at h
    cases rest with
    | nil => exact .singleton _
    | cons q rest =>
      split at h
      · rename_i hp
        exact .cons_cons (fun _ => hp) (ih h.2)
      · refine .cons_cons (fun hd => ?_) (ih h.2)
        have hq := h.2
        rw [Covered] at hq
        obtain ⟨i,hi⟩ := Option.isSome_iff_exists.mp hd
        split at hq
        · obtain ⟨_,hnil,_⟩ := hq.1 i hi
          cases hnil
        · rw [hq.1] at hi
          cases hi

end Cover

section Expansions
variable {env : Env σ In Out Detail} {subs : List SubRequest} {dupOf : Nat → Option Nat}
  {i j : Nat} {sr sr' : SubRequest} {h : Handler} {ps full part : List (Prepared In)}

theorem prepareLeaf_handler {data name : String} {isLast isLeader : Bool} {p : Prepared In}
    (hp : prepareLeaf env i h data name isLast isLeader=.ok p) : p.handler=h := by
  unfold prepareLeaf at hp
  split at hp
  · cases hp
  · split at hp
    · cases hp
    · cases hp
    · cases hp
      rfl

theorem prepareLeaf_at {data name : String} {isLast isLeader : Bool} {p : Prepared In}
    (hp : prepareLeaf env i h data name isLast isLeader=.ok p) (j : Nat) :
    prepareLeaf env j h data name isLast isLeader=.ok { p with outerIdx := j } := by
  unfold prepareLeaf at hp ⊢
  split at hp
  · cases hp
  · split at hp
    · cases hp
    · cases hp
    · cases hp
      rfl

/-- A direct call expands to one leaf, alike at every slot. -/
theorem expand_direct (hl : env.lookup sr.endpoint sr.action=some h)
    (hps : expandSubrequest env i sr=.ok ps) : ∃ p, ps=[p]∧p.handler=h∧
      ∀ j sr', sr'.endpoint=sr.endpoint → sr'.action=sr.action → sr'.data=sr.data →
        expandSubrequest env j sr'=.ok [{ p with outerIdx := j }] := by
  simp only [expandSubrequest,hl] at hps
  obtain ⟨p,hp,hret⟩ := bind_ok hps
  obtain rfl : [p]=ps := by simpa [pure,Except.pure] using hret
  refine ⟨p,rfl,prepareLeaf_handler hp,fun j sr' he ha hd => ?_⟩
  simp only [expandSubrequest,he,ha,hd,hl,prepareLeaf_at hp j]
  rfl

theorem expandSteps_registered (hreg : Registry env.lookup) {data name : String} {n k : Nat}
    {steps : List Step} (hps : expandSteps env i data name n k steps=.ok ps) :
    ∀ p∈ps, Registered env.lookup p := by
  induction steps generalizing k ps with
  | nil =>
    cases hps
    simp
  | cons step steps ih =>
    simp only [expandSteps] at hps
    split at hps
    · cases hps
    · rename_i h hl
      obtain ⟨p,hp,hps⟩ := bind_ok hps
      obtain ⟨rest,hrest,hps⟩ := bind_ok hps
      obtain rfl : p::rest=ps := by simpa [pure,Except.pure] using hps
      refine List.forall_mem_cons.mpr ⟨?_,ih hrest⟩
      obtain ⟨he,ha⟩ := hreg.named _ _ _ hl
      rw [Registered,prepareLeaf_handler hp,he,ha]
      exact hl

theorem expand_registered (hreg : Registry env.lookup) (hps : expandSubrequest env i sr=.ok ps) :
    ∀ p∈ps, Registered env.lookup p := by
  cases hl : env.lookup sr.endpoint sr.action with
  | some h =>
    obtain ⟨p,rfl,hp,_⟩ := expand_direct hl hps
    obtain ⟨he,ha⟩ := hreg.named _ _ _ hl
    intro q hq
    obtain rfl : q=p := by simpa using hq
    rw [Registered,hp,he,ha]
    exact hl
  | none =>
    simp only [expandSubrequest,hl] at hps
    split at hps
    · cases hps
    · cases hps
    · cases hps
    · exact expandSteps_registered hreg hps

end Expansions

section Repeats
variable {lookup : String → String → Option Handler} {subs : List SubRequest} {i j : Nat}

theorem split_first {α : Type} {x : α} {a a' b b' : List α} (ha : ∀ c∈a, c≠x)
    (ha' : ∀ c∈a', c≠x) (h : a++x::b=a'++x::b') : a=a'∧b=b' := by
  induction a generalizing a' with
  | nil =>
    cases a' with
    | nil => exact ⟨rfl,(List.cons.inj h).2⟩
    | cons c a' => exact absurd (List.cons.inj h).1.symm (ha' c List.mem_cons_self)
  | cons c a ih =>
    cases a' with
    | nil => exact absurd (List.cons.inj h).1 (ha c List.mem_cons_self)
    | cons c' a' =>
      rw [List.forall_mem_cons] at ha ha'
      obtain ⟨rfl,hrest⟩ := List.cons.inj h
      obtain ⟨rfl,hb⟩ := ih ha.2 ha'.2 hrest
      exact ⟨rfl,hb⟩

theorem dedupKey_inj {sr sr' : SubRequest} {h h' : Handler} (hreg : Registry lookup)
    (hl : lookup sr.endpoint sr.action=some h) (hl' : lookup sr'.endpoint sr'.action=some h')
    (hk : dedupKey sr=dedupKey sr') :
    sr.endpoint=sr'.endpoint∧sr.action=sr'.action∧sr.data=sr'.data := by
  obtain ⟨he,ha⟩ := hreg.noNul _ _ _ hl
  obtain ⟨he',ha'⟩ := hreg.noNul _ _ _ hl'
  have hchars : sr.endpoint.toList++ '\x00'::(sr.action.toList++ '\x00'::sr.data.toList)=
      sr'.endpoint.toList++ '\x00'::(sr'.action.toList++ '\x00'::sr'.data.toList) := by
    simpa [dedupKey] using congrArg String.toList hk
  obtain ⟨h₁,hrest⟩ := split_first he he' hchars
  obtain ⟨h₂,h₃⟩ := split_first ha ha' hrest
  exact ⟨String.toList_inj.mp h₁,String.toList_inj.mp h₂,String.toList_inj.mp h₃⟩

/-- A repeat is of a registered read, and asks for the same. -/
theorem dedup_same (hreg : Registry lookup) (h : dedupReadSubrequests lookup subs j=some i) :
    ∃ sr sr' hd, subs[i]?=some sr∧subs[j]?=some sr'∧lookup sr.endpoint sr.action=some hd∧
      hd.isRead=true∧sr'.endpoint=sr.endpoint∧sr'.action=sr.action∧sr'.data=sr.data := by
  unfold dedupReadSubrequests at h
  split at h
  · cases h
  · rename_i sr' hj
    split at h
    · rename_i helig'
      have hfound := List.find?_some h
      split at hfound
      · cases hfound
      · rename_i sr hi
        simp only [Bool.and_eq_true,decide_eq_true_eq] at hfound
        obtain ⟨helig,hkey⟩ := hfound
        simp only [dedupEligible,Bool.and_eq_true] at helig helig'
        cases hl : lookup sr.endpoint sr.action with
        | none => simp [hl] at helig
        | some hd =>
          cases hl' : lookup sr'.endpoint sr'.action with
          | none => simp [hl'] at helig'
          | some hd' =>
            obtain ⟨he,ha,hdata⟩ := dedupKey_inj hreg hl hl' hkey
            exact ⟨sr,sr',hd,hi,hj,hl,by simpa [hl] using helig.2,he.symm,ha.symm,hdata.symm⟩
    · cases h

end Repeats

end Kitp.Dispatch
