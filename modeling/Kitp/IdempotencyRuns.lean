import Kitp.Idempotency

/-! Runs of keyed requests: one holder of a claim per key, one kept answer per
key, and what every later request with the key receives. -/
namespace Kitp.Idempotency
open Kitp.Runs State
variable {ρ Body Hash Jsonb : Type*}

/-- The request holds the claim row of its key. -/
def Phase.holds : Phase Body → Bool
  | .claiming b | .claimed b => b
  | .running | .ran _ | .releasing _ => true
  | .arrived | .reading | .missed | .done _ => false

def Phase.executing : Phase Body → Bool
  | .running | .ran _ => true
  | _ => false

def Phase.outcome : Phase Body → Option (Outcome Body)
  | .releasing out | .done out => some out
  | _ => none

/-- The request got past the entry checks. -/
def Phase.admitted : Phase Body → Bool
  | .arrived | .done .bypassed | .done .tooLarge | .done .readBody => false
  | _ => true

/-- The batch of the request is running or has run. -/
def Phase.executed : Phase Body → Bool
  | .running | .ran _ | .releasing (.executed _) | .done (.executed _) => true
  | _ => false

/-- The answer of a finished execution that was kept for replay. -/
def Phase.kept (c : Codec Body Hash Jsonb) (q : Request Body) (p : Phase Body) :
    Option (Captured Body) :=
  match p.outcome with
  | some (.executed (some cap)) => if storable c q (some cap) then some cap else none
  | _ => none

/-- The row an execution of `q` with answer `cap` leaves. -/
def answerRow (c : Codec Body Hash Jsonb) (q : Request Body) (cap : Captured Body) :
    StoredRow Hash Jsonb :=
  ⟨c.sum256 q.body,c.toJsonb cap.buf⟩

/-- An outcome read from the response table agrees with the row there. -/
def Justified (c : Codec Body Hash Jsonb) (q : Request Body)
    (row : Option (StoredRow Hash Jsonb)) : Outcome Body → Prop
  | .replayed txt => ∃ w, row=some w∧w.requestHash=c.sum256 q.body∧txt=c.text w.response
  | .mismatch => ∃ w, row=some w∧w.requestHash≠c.sum256 q.body
  | _ => True

section MoveFacts
variable {c : Codec Body Hash Jsonb} {q : Request Body} {now : Nat} {gone : Bool} {r : ρ}
  {e : Event ρ Body} {p p' : Phase Body} {row row' : Option (StoredRow Hash Jsonb)}
  {cl cl' : Option Nat} {out : Outcome Body}

theorem Phase.kept_eq_some {cap : Captured Body} :
    p.kept c q=some cap ↔
      p.outcome=some (.executed (some cap))∧storable c q (some cap)=true := by
  unfold Phase.kept
  split
  · rename_i cap' ho
    rw [ho]
    by_cases hs : storable c q (some cap')=true
    · rw [if_pos hs]
      constructor
      · intro h
        cases h
        exact ⟨rfl,hs⟩
      · rintro ⟨h,-⟩
        cases h
        rfl
    · rw [if_neg hs]
      constructor
      · intro h
        cases h
      · rintro ⟨h,hs'⟩
        cases h
        exact absurd hs' hs
  · rename_i hn
    simp only [reduceCtorEq,false_iff,not_and]
    intro ho
    exact absurd ho (hn cap)

theorem Justified.mono (h : Justified c q row out)
    (hr : ∀ w, row=some w → row'=some w) : Justified c q row' out := by
  cases out with
  | replayed txt =>
    obtain ⟨w,hw,hh,ht⟩ := h
    exact ⟨w,hr w hw,hh,ht⟩
  | mismatch =>
    obtain ⟨w,hw,hh⟩ := h
    exact ⟨w,hr w hw,hh⟩
  | _ => trivial

theorem Phase.executing_holds (h : p.executing=true) : p.holds=true := by
  cases p <;> simp_all [Phase.executing,Phase.holds]

variable [DecidableEq Hash]

theorem replay_justified (h : replay c q row=some out) : Justified c q row out := by
  cases row with
  | none => simp [replay] at h
  | some w =>
    by_cases hw : w.requestHash=c.sum256 q.body
    · simp only [replay,hw,if_true,Option.some.injEq] at h
      subst h
      exact ⟨w,rfl,hw,rfl⟩
    · simp only [replay,hw,if_false,Option.some.injEq] at h
      subst h
      exact ⟨w,rfl,hw⟩

theorem replay_not_executed (h : replay c q row=some out) (res : Option (Captured Body)) :
    out≠.executed res := by
  cases row with
  | none => simp [replay] at h
  | some w => by_cases hw : w.requestHash=c.sum256 q.body <;> simp [replay,hw] at h <;> simp [← h]

/-- A move takes a claimable row, drops the row it holds, or leaves it alone;
only a lost claim answer then gives up the hold. -/
theorem Move.claim_cases (h : Move c q now gone r e p row cl p' row' cl') :
    (cl'=cl∧(p'.holds=p.holds∨
      p'.holds=false∧e=.claimAnswerLost r∧p=.claiming true))∨
    (claimable now cl=true∧cl'=some now∧p.holds=false∧p'.holds=true)∨
    (p.holds=true∧cl'=none∧p'.holds=false) := by
  cases h
  case claimAnswerLost b _ => cases b <;> simp [Phase.holds]
  all_goals simp_all [Phase.holds]

/-- A move stores the answer of its own execution or leaves the response row alone. -/
theorem Move.row_cases (h : Move c q now gone r e p row cl p' row' cl') :
    (row'=row∧(p'.executing=true → p.executing=true∨row=none)∧
      ∀ cap, p'.kept c q=some cap → p.kept c q=some cap)∨
    ∃ cap, p.executing=true∧p'.executing=false∧p'.kept c q=some cap∧
      row'=some (row.getD (answerRow c q cap)) := by
  cases h
  case store cap hs =>
    exact .inr ⟨cap,rfl,rfl,Phase.kept_eq_some.mpr ⟨rfl,hs⟩,rfl⟩
  case keep res hs =>
    refine .inl ⟨rfl,by simp [Phase.executing],fun cap hk => ?_⟩
    obtain ⟨ho,hs'⟩ := Phase.kept_eq_some.mp hk
    obtain rfl : res=some cap := by simpa [Phase.outcome] using ho
    simp [hs] at hs'
  case release out =>
    exact .inl ⟨rfl,by simp [Phase.executing],fun cap hk => hk⟩
  case answered out hr =>
    refine .inl ⟨rfl,by simp [Phase.executing],fun cap hk => ?_⟩
    have ho := (Phase.kept_eq_some.mp hk).1
    exact absurd (by simpa [Phase.outcome] using ho) (replay_not_executed hr _)
  case reanswered out hr =>
    refine .inl ⟨rfl,by simp [Phase.executing],fun cap hk => ?_⟩
    have ho := (Phase.kept_eq_some.mp hk).1
    exact absurd (by simpa [Phase.outcome] using ho) (replay_not_executed hr _)
  case answeredLate out hr =>
    refine .inl ⟨rfl,by simp [Phase.executing],fun cap hk => ?_⟩
    have ho := (Phase.kept_eq_some.mp hk).1
    exact absurd (by simpa [Phase.outcome] using ho) (replay_not_executed hr _)
  all_goals
    exact .inl ⟨rfl,by simp [Phase.executing],by simp [Phase.kept,Phase.outcome]⟩

theorem Move.row_stable (h : Move c q now gone r e p row cl p' row' cl')
    {w : StoredRow Hash Jsonb} (hw : row=some w) : row'=some w := by
  obtain ⟨hr,-⟩|⟨cap,-,-,-,hr⟩ := h.row_cases
  · exact hr.trans hw
  · simp [hr,hw]

theorem Move.kept_stable (h : Move c q now gone r e p row cl p' row' cl') {cap : Captured Body}
    (hk : p.kept c q=some cap) : p'.kept c q=some cap := by
  cases h
  case release out => exact hk
  all_goals simp [Phase.kept,Phase.outcome] at hk

/-- An outcome already there stays; a new one agrees with the response row. -/
theorem Move.outcome_cases (h : Move c q now gone r e p row cl p' row' cl')
    (ho : p'.outcome=some out) : p.outcome=some out∨Justified c q row out := by
  cases h
  case answered hr | reanswered hr | answeredLate hr =>
    obtain rfl : _=out := by simpa [Phase.outcome] using ho
    exact .inr (replay_justified hr)
  case release => exact .inl ho
  all_goals
    simp only [Phase.outcome,Option.some.injEq,reduceCtorEq] at ho
    try subst ho
    try exact .inr trivial

theorem Move.admitted_cases (h : Move c q now gone r e p row cl p' row' cl')
    (ha : p'.admitted=true) : p.admitted=true∨(q.keyed=true∧c.len q.body ≤ maxBatchBytes) := by
  cases h
  case enter hk hl => exact .inr ⟨hk,hl⟩
  all_goals simp_all [Phase.admitted]

end MoveFacts

/-- No request still holding its claim has let it grow stale. -/
def Timely (req : ρ → Request Body) (s : State ρ Body Hash Jsonb) : Prop :=
  ∀ r t, (s.phase r).holds=true → s.claims (req r).userKey=some t → s.now≤t+claimStale

structure Inv (c : Codec Body Hash Jsonb) (req : ρ → Request Body)
    (s : State ρ Body Hash Jsonb) : Prop where
  claimed : ∀ r, (s.phase r).holds=true → ∃ t, s.claims (req r).userKey=some t
  alone : ∀ r r', (req r).userKey=(req r').userKey →
    (s.phase r).holds=true → (s.phase r').holds=true → r=r'
  unstored : ∀ r, (s.phase r).executing=true → s.responses (req r).userKey=none
  stored : ∀ r cap, (s.phase r).kept c (req r)=some cap →
    s.responses (req r).userKey=some (answerRow c (req r) cap)
  source : ∀ k row, s.responses k=some row → ∃ r cap, (req r).userKey=k∧
    (s.phase r).kept c (req r)=some cap∧row=answerRow c (req r) cap
  keptOnce : ∀ r r' cap cap', (req r).userKey=(req r').userKey →
    (s.phase r).kept c (req r)=some cap → (s.phase r').kept c (req r')=some cap' → r=r'
  justified : ∀ r out, (s.phase r).outcome=some out →
    Justified c (req r) (s.responses (req r).userKey) out
  admitted : ∀ r, (s.phase r).admitted=true →
    (req r).keyed=true∧c.len (req r).body ≤ maxBatchBytes

variable {c : Codec Body Hash Jsonb} {req : ρ → Request Body}
  {s t u : State ρ Body Hash Jsonb} {e : Event ρ Body} {es : List (Event ρ Body)}

theorem inv_init : Inv c req (init : State ρ Body Hash Jsonb) := by
  constructor <;> simp [init,Phase.holds,Phase.executing,Phase.kept,Phase.outcome,Phase.admitted]

/-- No other holder of the key is left when a claimable row is taken. -/
theorem Timely.free (ht : Timely req s) (hi : Inv c req s) {r r' : ρ}
    (hc : claimable s.now (s.claims (req r).userKey)=true)
    (hk : (req r').userKey=(req r).userKey) : (s.phase r').holds=false := by
  by_contra hh
  rw [Bool.not_eq_false] at hh
  obtain ⟨at_,ha⟩ := hi.claimed r' hh
  have hle := ht r' at_ hh ha
  rw [← hk,ha] at hc
  simp only [claimable,decide_eq_true_eq] at hc
  omega

variable [DecidableEq Hash]

/-- The mover holds alone after its step. -/
theorem move_holds {r : ρ} {p : Phase Body} {row : Option (StoredRow Hash Jsonb)}
    {cl : Option Nat} (hi : Inv c req s) (ht : Timely req s)
    (hm : Move c (req r) s.now (s.gone r) r e (s.phase r) (s.responses (req r).userKey)
      (s.claims (req r).userKey) p row cl) (hp : p.holds=true) {r' : ρ} (hr : r'≠r)
    (hk : (req r').userKey=(req r).userKey) : (s.phase r').holds=false := by
  by_contra hh
  rw [Bool.not_eq_false] at hh
  obtain ⟨-,hq|⟨hq,-⟩⟩|⟨hc,-,-⟩|⟨-,-,hq⟩ := hm.claim_cases
  · exact hr (hi.alone r' r hk hh (hq ▸ hp))
  · rw [hp] at hq
    cases hq
  · rw [ht.free hi hc hk] at hh
    cases hh
  · rw [hp] at hq
    cases hq

variable [DecidableEq ρ]

/-- A step is a tick of the clock, a hang-up or the move of one request. -/
theorem step_cases (h : step c req s e=some t) :
    (e=.tick∧t={ s with now := s.now+1 })∨
    (∃ r, e=.hangUp r∧t={ s with gone := Function.update s.gone r true })∨
    ∃ r p row cl, e.request=some r∧
      Move c (req r) s.now (s.gone r) r e (s.phase r) (s.responses (req r).userKey)
        (s.claims (req r).userKey) p row cl∧
      t=s.put r (req r).userKey p row cl := by
  cases hr : e.request with
  | none =>
    cases e <;> simp only [Event.request,reduceCtorEq] at hr
    cases h
    exact .inl ⟨rfl,rfl⟩
  | some r =>
    by_cases hg : e=.hangUp r
    · subst hg
      cases h
      exact .inr (.inl ⟨r,rfl,rfl⟩)
    · obtain ⟨p,row,cl,hm,ht⟩ := step_move h hr hg
      exact .inr (.inr ⟨r,p,row,cl,rfl,hm,ht⟩)

/-- A stored answer is never overwritten. -/
theorem responses_step {k : UserKey} {w : StoredRow Hash Jsonb} (h : step c req s e=some t)
    (hw : s.responses k=some w) : t.responses k=some w := by
  obtain ⟨-,rfl⟩|⟨r,-,rfl⟩|⟨r,p,row,cl,-,hm,rfl⟩ := step_cases h
  · exact hw
  · exact hw
  · by_cases hk : k=(req r).userKey
    · subst hk
      rw [put_responses_self]
      exact hm.row_stable hw
    · rw [put_responses_ne hk]
      exact hw

section Step
variable {r : ρ} {p : Phase Body} {row : Option (StoredRow Hash Jsonb)} {cl : Option Nat}

theorem move_claimed (hi : Inv c req s)
    (hm : Move c (req r) s.now (s.gone r) r e (s.phase r) (s.responses (req r).userKey)
      (s.claims (req r).userKey) p row cl) (r' : ρ)
    (hh : ((s.put r (req r).userKey p row cl).phase r').holds=true) :
    ∃ t, (s.put r (req r).userKey p row cl).claims (req r').userKey=some t := by
  by_cases hr : r'=r
  · subst hr
    rw [put_phase_self] at hh
    rw [put_claims_self]
    obtain ⟨rfl,hp|⟨hp,-⟩⟩|⟨-,rfl,-⟩|⟨-,-,hp⟩ := hm.claim_cases
    · exact hi.claimed r' (hp ▸ hh)
    · rw [hp] at hh
      cases hh
    · exact ⟨_,rfl⟩
    · rw [hp] at hh
      cases hh
  · rw [put_phase_ne hr] at hh
    by_cases hk : (req r').userKey=(req r).userKey
    · rw [hk,put_claims_self]
      obtain ⟨rfl,-⟩|⟨-,rfl,-⟩|⟨hp,-,-⟩ := hm.claim_cases
      · exact hk ▸ hi.claimed r' hh
      · exact ⟨_,rfl⟩
      · exact absurd (hi.alone r' r hk hh hp) hr
    · rw [put_claims_ne hk]
      exact hi.claimed r' hh

/-- A kept answer was kept before, or is the mover's own. -/
theorem move_kept (hm : Move c (req r) s.now (s.gone r) r e (s.phase r)
      (s.responses (req r).userKey) (s.claims (req r).userKey) p row cl)
    {r' : ρ} {cap : Captured Body}
    (hk : ((s.put r (req r).userKey p row cl).phase r').kept c (req r')=some cap) :
    (s.phase r').kept c (req r')=some cap∨(r'=r∧(s.phase r).executing=true) := by
  by_cases hr : r'=r
  · subst hr
    rw [put_phase_self] at hk
    obtain ⟨-,-,hold⟩|⟨-,hx,-⟩ := hm.row_cases
    · exact .inl (hold cap hk)
    · exact .inr ⟨rfl,hx⟩
  · rw [put_phase_ne hr] at hk
    exact .inl hk

theorem move_inv (hi : Inv c req s) (ht : Timely req s)
    (hm : Move c (req r) s.now (s.gone r) r e (s.phase r) (s.responses (req r).userKey)
      (s.claims (req r).userKey) p row cl) :
    Inv c req (s.put r (req r).userKey p row cl) where
  claimed := move_claimed hi hm
  alone := by
    intro r₁ r₂ hk h₁ h₂
    by_cases e₁ : r₁=r
    · by_cases e₂ : r₂=r
      · rw [e₁,e₂]
      · subst e₁
        rw [put_phase_self] at h₁
        rw [put_phase_ne e₂,move_holds hi ht hm h₁ e₂ hk.symm] at h₂
        cases h₂
    · by_cases e₂ : r₂=r
      · subst e₂
        rw [put_phase_self] at h₂
        rw [put_phase_ne e₁,move_holds hi ht hm h₂ e₁ hk] at h₁
        cases h₁
      · rw [put_phase_ne e₁] at h₁
        rw [put_phase_ne e₂] at h₂
        exact hi.alone r₁ r₂ hk h₁ h₂
  unstored := by
    intro r' hx
    by_cases hr : r'=r
    · subst hr
      rw [put_phase_self] at hx
      rw [put_responses_self]
      obtain ⟨rfl,he,-⟩|⟨cap,-,hp,-⟩ := hm.row_cases
      · exact (he hx).elim (hi.unstored r') id
      · rw [hp] at hx
        cases hx
    · rw [put_phase_ne hr] at hx
      by_cases hk : (req r').userKey=(req r).userKey
      · rw [hk,put_responses_self]
        obtain ⟨rfl,-⟩|⟨cap,hp,-⟩ := hm.row_cases
        · exact hk ▸ hi.unstored r' hx
        · exact absurd (hi.alone r' r hk (Phase.executing_holds hx) (Phase.executing_holds hp)) hr
      · rw [put_responses_ne hk]
        exact hi.unstored r' hx
  stored := by
    intro r' cap hkept
    by_cases hr : r'=r
    · subst hr
      rw [put_phase_self] at hkept
      rw [put_responses_self]
      obtain ⟨rfl,-,hold⟩|⟨cap',hp,-,hk',rfl⟩ := hm.row_cases
      · exact hi.stored r' cap (hold cap hkept)
      · rw [hi.unstored r' hp]
        obtain rfl : cap'=cap := by simpa [hk'] using hkept
        rfl
    · rw [put_phase_ne hr] at hkept
      have hs := hi.stored r' cap hkept
      by_cases hk : (req r').userKey=(req r).userKey
      · rw [hk] at hs ⊢
        rw [put_responses_self]
        exact hm.row_stable hs
      · rw [put_responses_ne hk]
        exact hs
  source := by
    intro k w hw
    by_cases hk : k=(req r).userKey
    · subst hk
      rw [put_responses_self] at hw
      have hold : s.responses (req r).userKey=some w → ∃ r' cap,
          (req r').userKey=(req r).userKey∧
          ((s.put r (req r).userKey p row cl).phase r').kept c (req r')=some cap∧
          w=answerRow c (req r') cap := by
        intro hs
        obtain ⟨r',cap,hk',hkept,hrow⟩ := hi.source _ w hs
        refine ⟨r',cap,hk',?_,hrow⟩
        by_cases hr : r'=r
        · subst hr
          rw [put_phase_self]
          exact hm.kept_stable hkept
        · rw [put_phase_ne hr]
          exact hkept
      obtain ⟨rfl,-⟩|⟨cap,hx,-,hkept,rfl⟩ := hm.row_cases
      · exact hold hw
      · rw [hi.unstored r hx] at hw
        refine ⟨r,cap,rfl,by rw [put_phase_self]; exact hkept,?_⟩
        simpa using hw.symm
    · rw [put_responses_ne hk] at hw
      obtain ⟨r',cap,hk',hkept,hrow⟩ := hi.source k w hw
      have hr : r'≠r := by
        rintro rfl
        exact hk hk'.symm
      exact ⟨r',cap,hk',by rw [put_phase_ne hr]; exact hkept,hrow⟩
  keptOnce := by
    have hfresh : ∀ r' cap, (req r').userKey=(req r).userKey →
        (s.phase r).executing=true → (s.phase r').kept c (req r')≠some cap := by
      intro r' cap hk hx hkept
      have hs := hi.stored r' cap hkept
      rw [hk,hi.unstored r hx] at hs
      cases hs
    intro r₁ r₂ cap₁ cap₂ hk h₁ h₂
    rcases move_kept hm h₁ with o₁|⟨rfl,x₁⟩ <;> rcases move_kept hm h₂ with o₂|⟨rfl,x₂⟩
    · exact hi.keptOnce r₁ r₂ cap₁ cap₂ hk o₁ o₂
    · exact absurd o₁ (hfresh r₁ cap₁ hk x₂)
    · exact absurd o₂ (hfresh r₂ cap₂ hk.symm x₁)
    · rfl
  justified := by
    intro r' out ho
    by_cases hr : r'=r
    · subst hr
      rw [put_phase_self] at ho
      rw [put_responses_self]
      have hj := (hm.outcome_cases ho).elim (hi.justified r' out) id
      exact hj.mono fun w hw => hm.row_stable hw
    · rw [put_phase_ne hr] at ho
      have hj := hi.justified r' out ho
      by_cases hk : (req r').userKey=(req r).userKey
      · rw [hk] at hj ⊢
        rw [put_responses_self]
        exact hj.mono fun w hw => hm.row_stable hw
      · rw [put_responses_ne hk]
        exact hj
  admitted := by
    intro r' ha
    by_cases hr : r'=r
    · subst hr
      rw [put_phase_self] at ha
      exact (hm.admitted_cases ha).elim (hi.admitted r') id
    · rw [put_phase_ne hr] at ha
      exact hi.admitted r' ha

end Step

theorem step_inv (hi : Inv c req s) (ht : Timely req s) (h : step c req s e=some t) :
    Inv c req t := by
  obtain ⟨-,rfl⟩|⟨r,-,rfl⟩|⟨r,p,row,cl,-,hm,rfl⟩ := step_cases h
  · exact ⟨hi.claimed,hi.alone,hi.unstored,hi.stored,hi.source,hi.keptOnce,hi.justified,
      hi.admitted⟩
  · exact ⟨hi.claimed,hi.alone,hi.unstored,hi.stored,hi.source,hi.keptOnce,hi.justified,
      hi.admitted⟩
  · exact move_inv hi ht hm

theorem run_inv (h : Run (step c req) (fun s _ => Timely req s) init es s) : Inv c req s :=
  h.inv (Inv c req) (fun _ _ _ hi ht hst => step_inv hi ht hst) inv_init

/-- Every claim row belongs to a request that will release it. -/
def Held (req : ρ → Request Body) (s : State ρ Body Hash Jsonb) : Prop :=
  ∀ k t, s.claims k=some t → ∃ r, (req r).userKey=k∧(s.phase r).holds=true

section Release
variable {r : ρ} {ph p : Phase Body} {row : Option (StoredRow Hash Jsonb)} {cl : Option Nat}

end Release

/-- The two states agree on everything that belongs to user `v`. -/
structure Agree (req : ρ → Request Body) (v : Int) (s s' : State ρ Body Hash Jsonb) : Prop where
  now : s.now=s'.now
  responses : ∀ k, k.1=v → s.responses k=s'.responses k
  claims : ∀ k, k.1=v → s.claims k=s'.claims k
  phase : ∀ r, (req r).user=v → s.phase r=s'.phase r
  gone : ∀ r, (req r).user=v → s.gone r=s'.gone r

/-- The events of the clock and of the requests of user `v`. -/
def ofUser (req : ρ → Request Body) (v : Int) (e : Event ρ Body) : Bool :=
  match e.request with
  | none => true
  | some r => (req r).user=v

section Isolation
variable {v : Int} {s' : State ρ Body Hash Jsonb}

/-- A step of another user's request is invisible to `v`. -/
theorem Agree.skip (hv : ofUser req v e=false) (ha : Agree req v s s')
    (h : step c req s e=some t) : Agree req v t s' := by
  obtain ⟨rfl,-⟩|⟨r,rfl,rfl⟩|⟨r,p,row,cl,hr,-,rfl⟩ := step_cases h
  · simp [ofUser,Event.request] at hv
  · have hne : ∀ r', (req r').user=v → r'≠r := by
      rintro r' hv' rfl
      simp [ofUser,Event.request,hv'] at hv
    exact ⟨ha.now,ha.responses,ha.claims,ha.phase,fun r' hv' => by
      simpa [hne r' hv'] using ha.gone r' hv'⟩
  · have hu : (req r).user≠v := by simpa [ofUser,hr] using hv
    have hne : ∀ r', (req r').user=v → r'≠r := by
      rintro r' hv' rfl
      exact hu hv'
    have hk : ∀ k : UserKey, k.1=v → k≠(req r).userKey := by
      rintro k hk rfl
      exact hu hk
    refine ⟨ha.now,fun k hv' => ?_,fun k hv' => ?_,fun r' hv' => ?_,ha.gone⟩
    · rw [put_responses_ne (hk k hv')]
      exact ha.responses k hv'
    · rw [put_claims_ne (hk k hv')]
      exact ha.claims k hv'
    · rw [put_phase_ne (hne r' hv')]
      exact ha.phase r' hv'

/-- A step of user `v` depends on nothing of the other users. -/
theorem Agree.keep (hv : ofUser req v e=true) (ha : Agree req v s s')
    (h : step c req s e=some t) : ∃ t', step c req s' e=some t'∧Agree req v t t' := by
  obtain ⟨rfl,rfl⟩|⟨r,rfl,rfl⟩|⟨r,p,row,cl,hr,hm,rfl⟩ := step_cases h
  · exact ⟨_,rfl,congrArg (·+1) ha.now,ha.responses,ha.claims,ha.phase,ha.gone⟩
  · refine ⟨_,rfl,ha.now,ha.responses,ha.claims,ha.phase,fun r' hv' => ?_⟩
    by_cases hr : r'=r
    · simp [hr]
    · simpa [hr] using ha.gone r' hv'
  · have hu : (req r).user=v := by simpa [ofUser,hr] using hv
    rw [ha.now,ha.gone r hu,ha.phase r hu,ha.responses _ hu,ha.claims _ hu] at hm
    refine ⟨_,move_step hm,ha.now,fun k hv' => ?_,fun k hv' => ?_,fun r' hv' => ?_,ha.gone⟩
    · by_cases hk : k=(req r).userKey
      · subst hk
        rw [put_responses_self,put_responses_self]
      · rw [put_responses_ne hk,put_responses_ne hk]
        exact ha.responses k hv'
    · by_cases hk : k=(req r).userKey
      · subst hk
        rw [put_claims_self,put_claims_self]
      · rw [put_claims_ne hk,put_claims_ne hk]
        exact ha.claims k hv'
    · by_cases hr' : r'=r
      · subst hr'
        rw [put_phase_self,put_phase_self]
      · rw [put_phase_ne hr',put_phase_ne hr']
        exact ha.phase r' hv'

end Isolation

section Later
variable {r : ρ} {w : StoredRow Hash Jsonb}

/-- Where a request stands that had not looked its key up when `w` was stored. -/
structure Late (c : Codec Body Hash Jsonb) (req : ρ → Request Body) (r : ρ)
    (w : StoredRow Hash Jsonb) (s : State ρ Body Hash Jsonb) : Prop where
  row : s.responses (req r).userKey=some w
  phase : s.phase r=.arrived∨s.phase r=.reading∨∃ out, s.phase r=.done out∧
    (s.gone r=true∨replay c (req r) (some w)=some out)

theorem step_late (hk : (req r).keyed=true) (hl : c.len (req r).body ≤ maxBatchBytes)
    (hi : Late c req r w s) (h : step c req s e=some t) : Late c req r w t := by
  refine ⟨responses_step h hi.row,?_⟩
  obtain ⟨-,rfl⟩|⟨r',-,rfl⟩|⟨r',p,row,cl,-,hm,rfl⟩ := step_cases h
  · exact hi.phase
  · obtain hp|hp|⟨out,hp,ho⟩ := hi.phase
    · exact .inl hp
    · exact .inr (.inl hp)
    · refine .inr (.inr ⟨out,hp,ho.imp_left fun hg => ?_⟩)
      by_cases hr : r=r' <;> simp [hr,hg]
  · by_cases hr : r=r'
    · subst hr
      rw [put_phase_self]
      have hrow := hi.row
      obtain hp|hp|⟨out,hp,ho⟩ := hi.phase
      · rw [hp] at hm
        generalize hg : s.gone r=g at hm
        cases hm
        case bypass hk' => simp [hk] at hk'
        case tooLarge hl' => omega
        case enter => exact .inr (.inl rfl)
        case enterLost hg' => exact .inr (.inr ⟨_,rfl,.inl (hg.trans hg')⟩)
      · rw [hp,hrow] at hm
        generalize hg : s.gone r=g at hm
        cases hm
        case answered hr => exact .inr (.inr ⟨_,rfl,.inr hr⟩)
        case lookupLost hg' => exact .inr (.inr ⟨_,rfl,.inl (hg.trans hg')⟩)
      · rw [hp] at hm
        cases hm
    · rw [put_phase_ne hr]
      exact hi.phase

theorem run_late {ok : State ρ Body Hash Jsonb → Event ρ Body → Prop}
    (hk : (req r).keyed=true) (hl : c.len (req r).body ≤ maxBatchBytes)
    (h : Run (step c req) ok s es t) (hi : Late c req r w s) : Late c req r w t :=
  h.inv (Late c req r w) (fun _ _ _ hi _ hst => step_late hk hl hi hst) hi

end Later

end Kitp.Idempotency
