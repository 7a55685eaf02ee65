import Kitp.DispatchCollapse

/-! The batch with its repeated reads collapsed against the batch that runs every
sub-request. -/
namespace Kitp.Dispatch
open Kitp.Groups Kitp.Steps
variable {σ In Out Detail : Type}

/-- Only steps of reading handlers stand between a read and its repeat. -/
def QuietBetween (env : Env σ In Out Detail) (subs : List SubRequest) : Prop :=
  ∀ i j k, dedupReadSubrequests env.lookup subs j=some i → i < k → k < j →
    ∀ sr ps, subs[k]?=some sr → expandSubrequest env k sr=.ok ps →
      ∀ p∈ps, p.handler.isRead=true

section Gates
variable {env : Env σ In Out Detail} {known : Int → Bool} {l plan : List (Prepared In)}
  {seeds : List Int}

/-- The seed pass reads a card for the leaf. -/
def seedOf (env : Env σ In Out Detail) (p : Prepared In) : List Int :=
  match env.scopeCardID p with
  | .ok c => if c=0 then [] else [c]
  | .error _ => []

theorem seedCards_ok : seedCards env l=.ok seeds↔
    (∀ p∈l, ∃ c, env.scopeCardID p=.ok c)∧seeds=l.flatMap (seedOf env) := by
  induction l generalizing seeds with
  | nil => simp [seedCards,eq_comm]
  | cons p rest ih =>
    rw [seedCards,List.forall_mem_cons,List.flatMap_cons]
    split
    · rename_i h
      simp [h]
    · rename_i c h
      have hseed : seedOf env p=if c=0 then [] else [c] := by simp [seedOf,h]
      rw [hseed]
      constructor
      · intro hs
        obtain ⟨ids,hids,hret⟩ := bind_ok hs
        obtain ⟨hall,rfl⟩ := ih.mp hids
        refine ⟨⟨⟨c,h⟩,hall⟩,?_⟩
        cases hret
        split <;> rfl
      · rintro ⟨⟨_,hall⟩,rfl⟩
        rw [ih.mpr ⟨hall,rfl⟩]
        change Except.ok (if c=0 then _ else _)=_
        split <;> rfl

/-- The card the per-leaf pass checks the leaf against. -/
def leafAnchor (env : Env σ In Out Detail) (p : Prepared In) : Except (Err Detail) Int :=
  if p.handler.gated then env.anchor p else .ok 0

def LeafOk (env : Env σ In Out Detail) (p : Prepared In) : Prop :=
  (∃ c, leafAnchor env p=.ok c)∧env.leafDenied p=none

/-- The leaf with its unborn anchor recorded. -/
def mark (env : Env σ In Out Detail) (known : Int → Bool) (p : Prepared In) : Prepared In :=
  match leafAnchor env p with
  | .ok c => { p with unbornAnchor := unbornAnchor p.handler c known }
  | .error _ => p

theorem authorizeLeaves_iff : authorizeLeaves env known l=.ok plan↔
    (∀ p∈l, LeafOk env p)∧plan=l.map (mark env known) := by
  induction l generalizing plan with
  | nil => simp [authorizeLeaves,eq_comm]
  | cons p rest ih =>
    rw [authorizeLeaves,← leafAnchor,List.forall_mem_cons,List.map_cons]
    split
    · rename_i h
      simp [LeafOk,h]
    · rename_i c h
      have hmark : mark env known p=
          { p with unbornAnchor := unbornAnchor p.handler c known } := by
        simp [mark,h]
      rw [hmark]
      split
      · rename_i hd
        simp [LeafOk,hd]
      · rename_i hd
        constructor
        · intro hs
          obtain ⟨others,hothers,hret⟩ := bind_ok hs
          obtain ⟨hall,rfl⟩ := ih.mp hothers
          cases hret
          exact ⟨⟨⟨⟨c,h⟩,hd⟩,hall⟩,rfl⟩
        · rintro ⟨⟨_,hall⟩,rfl⟩
          rw [ih.mpr ⟨hall,rfl⟩]
          rfl

theorem runAuthzPass_iff (hne : l≠[]) : runAuthzPass env l=.ok plan↔
    (∀ p∈l, ∃ c, env.scopeCardID p=.ok c)∧env.loadTables=none∧(∀ p∈l, LeafOk env p)∧
      ∃ known, env.preloadCards (l.flatMap (seedOf env))=.ok known∧plan=l.map (mark env known) := by
  cases l with
  | nil => contradiction
  | cons first rest =>
    rw [runAuthzPass]
    constructor
    · intro h
      obtain ⟨seeds,hseeds,h⟩ := bind_ok h
      obtain ⟨hscope,rfl⟩ := seedCards_ok.mp hseeds
      split at h
      · cases h
      · rename_i known hknown
        split at h
        · cases h
        · rename_i hload
          obtain ⟨hok,rfl⟩ := authorizeLeaves_iff.mp h
          exact ⟨hscope,hload,hok,known,hknown,rfl⟩
    · rintro ⟨hscope,hload,hok,known,hknown,rfl⟩
      simp only [seedCards_ok.mpr ⟨hscope,rfl⟩,bind,Except.bind,hknown,hload]
      exact authorizeLeaves_iff.mpr ⟨hok,rfl⟩

end Gates

section Passes
variable {env : Env σ In Out Detail} {dupOf : Nat → Option Nat} {subs : List SubRequest}
  {db db' : σ} {plan : List (Prepared In)} {steps : List (Prepared In×Option Out)}

/-- The batch passes its checks, its leaves run and it commits. -/
structure Passes (env : Env σ In Out Detail) (dupOf : Nat → Option Nat) (subs : List SubRequest)
    (db : σ) (plan : List (Prepared In)) (steps : List (Prepared In×Option Out)) (db' : σ) :
    Prop where
  checked : ∃ prepped, expandAll env dupOf 0 subs=.ok prepped∧secondImport none prepped=none∧
    runRoleGate env prepped=none∧runAuthzPass env prepped=.ok plan
  begun : env.begin=none
  ran : Ran env (groups handlerKey plan) db steps db'
  commit : env.commit db'=none

theorem Passes.result (h : Passes env dupOf subs db plan steps db') :
    (dispatchRun env dupOf subs db).committed=true∧(dispatchRun env dupOf subs db).db=db'∧
      (dispatchRun env dupOf subs db).slots=fillSlots subs (steps.map (·.1)) (steps.map (·.2))
        (subs.map fun sr => ⟨sr.id,false,none,none⟩) := by
  obtain ⟨prepped,hexp,hone,hrole,hauthz⟩ := h.checked
  obtain ⟨calls,hall⟩ := ran_flushAll subs h.ran
    ⟨db,subs.map fun sr => ⟨sr.id,false,none,none⟩,[]⟩ rfl
  simp only [dispatchRun,hexp,hone,hrole,hauthz,h.begun,runGroups_groups,hall,h.commit]
  simp

theorem Ran.steps_eq {gs : List (List (Prepared In))} (h : Ran env gs db steps db') :
    steps.map (·.1)=gs.flatten := by
  induction h with
  | nil => rfl
  | cons hg _ ih =>
    rw [List.map_append,ih,List.map_fst_zip hg.length.ge,List.flatten_cons]

theorem Passes.steps_eq (h : Passes env dupOf subs db plan steps db') : steps.map (·.1)=plan := by
  rw [h.ran.steps_eq,(groups_maximalRuns handlerKey plan).whole]

theorem Passes.inOrder (h : Passes env dupOf subs db plan steps db') :
    InOrder env dupOf 0 subs (plan.map forget) := by
  obtain ⟨prepped,hexp,_,_,hauthz⟩ := h.checked
  have hord := expandAll_inOrder hexp
  rw [runAuthzPass_ok hauthz,hord.forget_eq]
  exact hord

end Passes

section Collapse
variable {env : Env σ In Out Detail} {born : σ → Int → Prop} {subs : List SubRequest}
  {db db' : σ} {full plan : List (Prepared In)} {steps : List (Prepared In×Option Out)}

/-- The only leaf of a slot that is or is repeated. -/
theorem InOrder.single {dupOf : Nat → Option Nat} {l : List (Prepared In)} {i : Nat}
    {sr : SubRequest} {h : Handler} (hord : InOrder env dupOf 0 subs l) (hi : subs[i]?=some sr)
    (hnone : dupOf i=none) (hl : env.lookup sr.endpoint sr.action=some h) :
    ∃ p, l.filter (fun q => q.outerIdx=i)=[p]∧p.outerIdx=i∧p.handler=h∧
      ∀ j sr', sr'.endpoint=sr.endpoint → sr'.action=sr.action → sr'.data=sr.data →
        expandSubrequest env j sr'=.ok [{ p with outerIdx := j }] := by
  have hexp := hord.expanded i sr hi (by rwa [Nat.zero_add])
  rw [Nat.zero_add] at hexp
  obtain ⟨p,hp,hh,hat⟩ := expand_direct hl hexp
  have hmem : p∈l.filter fun q => q.outerIdx=i := by
    rw [hp]
    exact List.mem_cons_self
  exact ⟨p,hp,by simpa using (List.mem_filter.mp hmem).2,hh,hat⟩

/-- A repeat's leaf is the leaf it repeats at another slot. -/
theorem repeat_twin (hreg : Registry env.lookup) {l : List (Prepared In)} {p : Prepared In}
    {i : Nat} (hord : InOrder env (fun _ => none) 0 subs l) (hp : p∈l)
    (hd : dedupReadSubrequests env.lookup subs p.outerIdx=some i) :
    ∃ q, l.filter (fun r => r.outerIdx=i)=[q]∧l.filter (fun r => r.outerIdx=p.outerIdx)=[p]∧
      q∈l∧q.outerIdx=i∧Twin q p∧q.handler.isRead=true := by
  obtain ⟨sr,sr',h,hi,hj,hl,hread,he,ha,hdata⟩ := dedup_same hreg hd
  obtain ⟨q,hq,hqi,hqh,hat⟩ := hord.single hi rfl hl
  have hexp := hord.expanded p.outerIdx sr' hj rfl
  rw [Nat.zero_add,hat p.outerIdx sr' he ha hdata] at hexp
  have hself : p∈l.filter fun r => r.outerIdx=p.outerIdx := List.mem_filter.mpr ⟨hp,by simp⟩
  rw [← Except.ok.inj hexp] at hself ⊢
  have htwin : p={ q with outerIdx := p.outerIdx } := by simpa using hself
  have hmem : q∈l.filter fun r => r.outerIdx=i := by
    rw [hq]
    exact List.mem_cons_self
  exact ⟨q,hq,by rw [← htwin],(List.mem_filter.mp hmem).1,hqi,htwin.symm,hqh ▸ hread⟩

theorem plan_registered (hreg : Registry env.lookup) {l : List (Prepared In)} {p : Prepared In}
    (hord : InOrder env (fun _ => none) 0 subs l) (hp : p∈l) : Registered env.lookup p := by
  obtain ⟨_,hlt,_⟩ := hord.slot p hp
  rw [Nat.zero_add] at hlt
  have hexp := hord.expanded p.outerIdx _ (List.getElem?_eq_getElem hlt) rfl
  rw [Nat.zero_add] at hexp
  exact expand_registered hreg hexp p (List.mem_filter.mpr ⟨hp,by simp⟩)

theorem plan_readsBetween (hreg : Registry env.lookup) (hquiet : QuietBetween env subs)
    {l : List (Prepared In)} (hord : InOrder env (fun _ => none) 0 subs l) :
    ReadsBetween env.lookup (dedupReadSubrequests env.lookup subs) l := by
  rintro pre p post rfl i hd
  obtain ⟨q,hqi,hpj,hq,hqidx,ht,hread⟩ := repeat_twin hreg hord (by simp) hd
  have hij : i < p.outerIdx := (dedup_leader hd).1
  have hsorted := List.pairwise_append.mp hord.sorted
  have hqpre : q∈pre := by
    obtain hq|hq := List.mem_append.mp hq
    · exact hq
    · have hle : p.outerIdx≤q.outerIdx := by
        obtain rfl|hq := List.mem_cons.mp hq
        · exact Nat.le_refl _
        · exact (List.pairwise_cons.mp hsorted.2.1).1 q hq
      omega
  obtain ⟨pre',mid,rfl⟩ := List.append_of_mem hqpre
  have hp : readLeaf env.lookup p=true := by
    rw [(plan_registered hreg hord (by simp)).readLeaf,← ht]
    exact hread
  refine ⟨hp,pre',q,mid,rfl,hqidx,ht,fun r hr => ?_⟩
  have hrmem : r∈pre'++q::mid++p::post :=
    List.mem_append_left _ (List.mem_append_right _ hr)
  rw [(plan_registered hreg hord hrmem).readLeaf]
  have hqr : q.outerIdx ≤ r.outerIdx := by
    obtain rfl|hr := List.mem_cons.mp hr
    · exact Nat.le_refl _
    · exact (List.pairwise_cons.mp (List.pairwise_append.mp hsorted.1).2.1).1 r hr
  have hrp : r.outerIdx≤p.outerIdx :=
    hsorted.2.2 r (List.mem_append_right _ hr) p List.mem_cons_self
  by_cases hri : r.outerIdx=i
  · have hself : r∈(pre'++q::mid++p::post).filter fun s => s.outerIdx=i :=
      List.mem_filter.mpr ⟨hrmem,by simp [hri]⟩
    rw [hqi] at hself
    obtain rfl : r=q := by simpa using hself
    exact hread
  by_cases hrj : r.outerIdx=p.outerIdx
  · have hself : r∈(pre'++q::mid++p::post).filter fun s => s.outerIdx=p.outerIdx :=
      List.mem_filter.mpr ⟨hrmem,by simp [hrj]⟩
    rw [hpj] at hself
    obtain rfl : r=p := by simpa using hself
    rw [← ht]
    exact hread
  obtain ⟨_,hlt,_⟩ := hord.slot r hrmem
  rw [Nat.zero_add] at hlt
  have hexp := hord.expanded r.outerIdx _ (List.getElem?_eq_getElem hlt) rfl
  rw [Nat.zero_add] at hexp
  exact hquiet i p.outerIdx r.outerIdx hd (by omega) (by omega) _ _
    (List.getElem?_eq_getElem hlt) hexp r (List.mem_filter.mpr ⟨hrmem,by simp⟩)

/-- Whether a leaf is of a sub-request that runs. -/
def kept (env : Env σ In Out Detail) (subs : List SubRequest) (p : Prepared In) : Bool :=
  !repeated (dedupReadSubrequests env.lookup subs) p

theorem Twin.handler_eq {q p : Prepared In} (h : Twin q p) : q.handler=p.handler := by
  rw [← h]

theorem mark_twin (hs : Steady env born) {known : Int → Bool} {q p : Prepared In} (ht : Twin q p) :
    Twin (mark env known q) (mark env known p) := by
  have ha : leafAnchor env q=leafAnchor env p := by
    rw [leafAnchor,leafAnchor,ht.handler_eq,(hs.leaf q p ht).2.1]
  rw [Twin,mark,mark,ha]
  split
  · rw [← ht]
  · exact ht

theorem mark_outerIdx (known : Int → Bool) (p : Prepared In) :
    (mark env known p).outerIdx=p.outerIdx := by
  unfold mark
  split <;> rfl

theorem mark_handler (known : Int → Bool) (p : Prepared In) :
    (mark env known p).handler=p.handler := by
  unfold mark
  split <;> rfl

theorem marked (hreg : Registry env.lookup) (hs : Steady env born) (hquiet : QuietBetween env subs)
    {l : List (Prepared In)} (hord : InOrder env (fun _ => none) 0 subs l)
    (hauthz : runAuthzPass env l=.ok plan) :
    (∀ p∈plan, Registered env.lookup p)∧
      ReadsBetween env.lookup (dedupReadSubrequests env.lookup subs) plan := by
  by_cases hne : l=[]
  · subst hne
    obtain rfl : plan=[] := by simpa [runAuthzPass] using hauthz.symm
    exact ⟨by simp,fun pre p post h => by simp at h⟩
  · obtain ⟨_,_,_,known,_,rfl⟩ := (runAuthzPass_iff hne).mp hauthz
    refine ⟨fun p' hp' => ?_,?_⟩
    · obtain ⟨p,hp,rfl⟩ := List.mem_map.mp hp'
      rw [Registered,mark_handler]
      exact plan_registered hreg hord hp
    · exact (plan_readsBetween hreg hquiet hord).map (mark_outerIdx known) (mark_handler known)
        fun q p ht => mark_twin hs ht

/-- A slot is answered by the last step that ran for it. -/
theorem Passes.slot {dupOf : Nat → Option Nat} {i : Nat} {sr : SubRequest}
    (h : Passes env dupOf subs db plan steps db') (hi : subs[i]?=some sr) (hnone : dupOf i=none) :
    ∃ init p out, slotSteps steps i=init++[(p,out)]∧
      (fillSlots subs (steps.map (·.1)) (steps.map (·.2))
        (subs.map fun sr => (⟨sr.id,false,none,none⟩ : SubResponse Out Detail)))[i]?=
          some ⟨sr.id,true,out,none⟩ := by
  obtain ⟨init,p,out,hslot,hinit,hp⟩ := h.inOrder.lastStep h.steps_eq hi hnone
  have hzip : (steps.map (·.1)).zip (steps.map (·.2))=steps := by
    rw [List.zip_map']
    exact List.map_id _
  exact ⟨init,p,out,hslot,fillSlots_last hi slotIds_init.length (hzip.symm ▸ hslot) hinit hp⟩

theorem Aborts.failed {dupOf : Nat → Option Nat} {r : Result σ In Out Detail}
    (h : Aborts r db env dupOf subs) : r.committed=false∧r.db=db∧∀ s∈r.slots, s.ok=false := by
  obtain ⟨i,e,calls,_,_,rfl,_⟩ := h
  refine ⟨rfl,rfl,fun s hs => ?_⟩
  obtain ⟨j,hj,rfl⟩ := List.mem_iff_getElem.mp hs
  simp [abortedSlots]

end Collapse

section Example

end Example

end Kitp.Dispatch
