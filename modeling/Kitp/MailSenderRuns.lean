import Kitp.MailSender

/-! Runs of the senders: a claim in time is the only one on its message, so nothing is
handed over twice at once or after its result. -/
namespace Kitp.MailSender
open Kitp.Runs Kitp.Lease Function

/-- The claim a phase works under. -/
def Phase.claim : Phase → Option Claim
  | .claimed c => some c
  | .sending c => some c
  | .answered c _ _ => some c
  | _ => none

def claims (s : State) (a : Nat) : Option (Int×Nat) :=
  (s.phase a).claim.map fun c => (c.reply,c.heldUntil)

def held (s : State) (r : Int) : Option Nat := (s.attempt r).bind (·.claimedUntil)

/-- How many tries the attempt row has counted. -/
def tried (s : State) (r : Int) : Nat := (s.attempt r).elim 0 (·.attempts)

/-- What a sender knows of a message while its claim lasts. -/
structure Backed (s : State) (c : Claim) : Prop where
  lasts : c.tick+sendClaim ≤ c.heldUntil
  pending : s.now < c.heldUntil → s.status c.reply=some .pending∧tried s c.reply=c.attempts

def PhaseInv (s : State) : Phase → Prop
  | .claimed c => Backed s c
  | .sending c => Backed s c∧s.now+resultTimeout < c.heldUntil
  | .answered c _ since => Backed s c∧since ≤ s.now∧since+resultTimeout < c.heldUntil
  | _ => True

/-- What the tables say of one message. -/
structure RowInv (s : State) (r : Int) : Prop where
  retried : ∀ row u n, s.attempt r=some row → row.claimedUntil=some u →
    row.nextAttemptAt=some n → n ≤ u
  tally : s.status r=some .pending → s.passed r=tried s r∧s.passed r < maxSendAttempts
  bounded : s.passed r ≤ maxSendAttempts
  fresh : s.status r=none → s.attempt r=none∧s.passed r=0

structure Inv (s : State) : Prop where
  lease : Exclusive (held s) (claims s) s.now
  phase : ∀ a, PhaseInv s (s.phase a)
  row : ∀ r, RowInv s r

/-- No send, with the time its result has, outlasts its claim. -/
def InTime (s : State) : Event → Prop
  | .advance t => ∀ a c, s.phase a=.sending c → t+resultTimeout < c.heldUntil
  | _ => True

variable {s t u : State} {a b : Nat} {c d : Claim} {r : Int} {p : Phase}

theorem claims_setPhase : claims (setPhase s a p)=
    update (claims s) a (p.claim.map fun c => (c.reply,c.heldUntil)) := by
  funext b
  by_cases hb : b=a <;> simp [claims,setPhase,hb]

theorem claims_of (h : (s.phase a).claim=some c) : claims s a=some (c.reply,c.heldUntil) := by
  simp [claims,h]

theorem PhaseInv.backed (h : PhaseInv s p) (hc : p.claim=some c) : Backed s c := by
  cases p <;> simp only [Phase.claim,Option.some.injEq,reduceCtorEq] at hc <;> subst hc
  · exact h
  · exact h.1
  · exact h.1

theorem RowInv.of_phase (h : RowInv s r) : RowInv (setPhase s a p) r :=
  ⟨h.retried,h.tally,h.bounded,h.fresh⟩

theorem PhaseInv.of_phase {q : Phase} (h : PhaseInv s q) : PhaseInv (setPhase s a p) q := by
  cases q with
  | claimed c => exact ⟨h.lasts,h.pending⟩
  | sending c => exact ⟨⟨h.1.lasts,h.1.pending⟩,h.2⟩
  | answered c err since => exact ⟨⟨h.1.lasts,h.1.pending⟩,h.2⟩
  | _ => trivial

theorem phase_self : (setPhase s a p).phase a=p := by simp [setPhase]

theorem phase_other (hb : b≠a) : (setPhase s a p).phase b=s.phase b := by simp [setPhase,hb]

theorem inv_start : Inv start := by
  refine ⟨⟨?_,?_⟩,?_,?_⟩
  · intro a r u h
    simp [claims,start,Phase.claim] at h
  · intro a b r u v h
    simp [claims,start,Phase.claim] at h
  · intro a
    trivial
  · intro r
    constructor <;> simp [start]

/-- A sender that keeps its claim, or lets go of it. -/
theorem Inv.setPhase (h : Inv s) (hp : PhaseInv s p)
    (hc : p.claim=none∨p.claim=(s.phase a).claim) : Inv (setPhase s a p) := by
  refine ⟨?_,?_,fun r => (h.row r).of_phase⟩
  · have hclaims : Exclusive (held s) (claims (MailSender.setPhase s a p)) s.now := by
      rw [claims_setPhase]
      rcases hc with hc|hc
      · simpa [hc] using h.lease.forget a
      · have hsame : (p.claim.map fun c => (c.reply,c.heldUntil))=claims s a := by
          rw [hc,claims]
        rw [hsame,update_eq_self]
        exact h.lease
    exact hclaims
  · intro b
    by_cases hb : b=a
    · subst hb
      rw [phase_self]
      exact hp.of_phase
    · rw [phase_other hb]
      exact (h.phase b).of_phase

/-- Nothing but what is kept of `r` differs. -/
structure OnlyAt (r : Int) (s t : State) : Prop where
  now : t.now=s.now
  phase : t.phase=s.phase
  rest : ∀ q, q≠r → t.status q=s.status q∧t.attempt q=s.attempt q∧t.passed q=s.passed q

theorem OnlyAt.row (h : OnlyAt r s t) {q : Int} (hq : q≠r) (hr : RowInv s q) : RowInv t q := by
  obtain ⟨hstatus,hattempt,hpassed⟩ := h.rest q hq
  have htried : tried t q=tried s q := by rw [tried,tried,hattempt]
  exact {
    retried := by rw [hattempt]; exact hr.retried
    tally := by rw [hstatus,hpassed,htried]; exact hr.tally
    bounded := by rw [hpassed]; exact hr.bounded
    fresh := by rw [hstatus,hattempt,hpassed]; exact hr.fresh }

theorem OnlyAt.backed (h : OnlyAt r s t) (hb : Backed s c)
    (hr : s.now < c.heldUntil → c.reply≠r) : Backed t c := by
  refine ⟨hb.lasts,?_⟩
  rw [h.now]
  intro hlt
  obtain ⟨hstatus,hattempt,-⟩ := h.rest c.reply (hr hlt)
  rw [hstatus,tried,hattempt]
  exact hb.pending hlt

theorem OnlyAt.phaseInv (h : OnlyAt r s t) (hp : PhaseInv s p)
    (hr : ∀ c, p.claim=some c → s.now < c.heldUntil → c.reply≠r) : PhaseInv t p := by
  cases p with
  | claimed c => exact h.backed hp (hr c rfl)
  | sending c =>
    refine ⟨h.backed hp.1 (hr c rfl),?_⟩
    rw [h.now]
    exact hp.2
  | answered c err since =>
    refine ⟨h.backed hp.1 (hr c rfl),?_⟩
    rw [h.now]
    exact hp.2
  | _ => trivial

theorem OnlyAt.held (h : OnlyAt r s t) : MailSender.held t=update (MailSender.held s) r (MailSender.held t r) := by
  funext q
  by_cases hq : q=r
  · simp [hq]
  · simp [hq,MailSender.held,(h.rest q hq).2.1]

theorem OnlyAt.claims (h : OnlyAt r s t) : MailSender.claims t=MailSender.claims s := by
  funext a
  simp only [MailSender.claims,h.phase]

/-- A sender whose claim lasts writes what became of its message, and lets go of it. -/
theorem Inv.settle (h : Inv s) (hc : (s.phase a).claim=some c) (hlast : s.now < c.heldUntil)
    (ho : OnlyAt c.reply s t) (hfree : held t c.reply=none) (hrow : RowInv t c.reply)
    (hp : p.claim=none) (hpt : PhaseInv t p) : Inv (MailSender.setPhase t a p) := by
  have hother : ∀ b, b≠a → ∀ d, (s.phase b).claim=some d → s.now < d.heldUntil →
      d.reply≠c.reply := by
    intro b hb d hd hlt heq
    have hclaim : claims s b=some (c.reply,d.heldUntil) := by rw [claims_of hd,heq]
    exact hb (h.lease.alone b a _ _ _ hclaim (claims_of hc) hlt hlast)
  refine ⟨?_,?_,?_⟩
  · have hlease : Exclusive (held t) (claims (MailSender.setPhase t a p)) t.now := by
      rw [claims_setPhase,hp,ho.now,ho.held,hfree,ho.claims]
      exact h.lease.release (claims_of hc) hlast
    exact hlease
  · intro b
    by_cases hb : b=a
    · subst hb
      rw [phase_self]
      exact hpt.of_phase
    · rw [phase_other hb,ho.phase]
      exact (ho.phaseInv (h.phase b) (hother b hb)).of_phase
  · intro q
    by_cases hq : q=c.reply
    · exact (hq ▸ hrow).of_phase
    · exact (ho.row hq (h.row q)).of_phase

/-- A write to a message no lasting claim is on. -/
theorem Inv.write (h : Inv s) (ho : OnlyAt r s t) (hheld : held t r=held s r)
    (hclear : ∀ b d, (s.phase b).claim=some d → s.now < d.heldUntil → d.reply≠r)
    (hrow : RowInv t r) : Inv t := by
  refine ⟨?_,?_,?_⟩
  · rw [ho.held,hheld,update_eq_self,ho.claims,ho.now]
    exact h.lease
  · intro b
    rw [ho.phase]
    exact ho.phaseInv (h.phase b) (hclear b)
  · intro q
    by_cases hq : q=r
    · exact hq ▸ hrow
    · exact ho.row hq (h.row q)

theorem advance_inv (h : Inv s) {n : Nat} (hle : s.now ≤ n)
    (hin : ∀ a c, s.phase a=.sending c → n+resultTimeout < c.heldUntil) :
    Inv { s with now := n } := by
  have hbacked : ∀ c, Backed s c → Backed { s with now := n } c := by
    intro c hc
    exact ⟨hc.lasts,fun hlt => hc.pending (Nat.lt_of_le_of_lt hle hlt)⟩
  refine ⟨h.lease.pass hle,?_,?_⟩
  · intro a
    have ha := h.phase a
    change PhaseInv _ (s.phase a)
    cases hp : s.phase a with
    | claimed c => exact hbacked c (hp ▸ ha : PhaseInv s (.claimed c))
    | sending c =>
      have hs : PhaseInv s (.sending c) := hp ▸ ha
      exact ⟨hbacked c hs.1,hin a c hp⟩
    | answered c err since =>
      have hs : PhaseInv s (.answered c err since) := hp ▸ ha
      exact ⟨hbacked c hs.1,Nat.le_trans hs.2.1 hle,hs.2.2⟩
    | _ => trivial
  · intro r
    have hr := h.row r
    exact ⟨hr.retried,hr.tally,hr.bounded,hr.fresh⟩

theorem Inv.pending (h : Inv s) (hc : (s.phase a).claim=some c) (hlast : s.now < c.heldUntil) :
    s.status c.reply=some .pending∧tried s c.reply=c.attempts :=
  ((h.phase a).backed hc).pending hlast

theorem post_inv (h : Inv s) (hnew : s.status r=none) :
    Inv { s with outbox := s.outbox++[r], status := update s.status r (some .pending) } := by
  obtain ⟨hattempt,hpassed⟩ := (h.row r).fresh hnew
  have ho : OnlyAt r s
      { s with outbox := s.outbox++[r], status := update s.status r (some .pending) } :=
    ⟨rfl,rfl,fun q hq => by simp [hq]⟩
  apply h.write ho rfl
  · intro b d hd hlt heq
    have hpending := (h.pending hd hlt).1
    rw [heq,hnew] at hpending
    simp at hpending
  · constructor <;> simp [hattempt,hpassed,tried,maxSendAttempts]

theorem free_iff {row : Attempt} {n : Nat} : row.free n=true↔
    (∀ u, row.claimedUntil=some u → u ≤ n)∧∀ m, row.nextAttemptAt=some m → m ≤ n := by
  simp [Attempt.free,Option.all_eq_true]

/-- What a claim that succeeds found, and the row it leaves. -/
theorem claim_some {started : Nat} {eligible : Bool} {row : Attempt}
    (h : claim s started eligible r=some row) :
    s.status r=some .pending∧Free (held s) r started∧row.claimedUntil=some (started+sendClaim)∧
      row.attempts=tried s r∧∀ n, row.nextAttemptAt=some n → n ≤ started := by
  unfold claim at h
  split_ifs at h with hp
  cases ha : s.attempt r with
  | none =>
    simp only [ha,Option.some.injEq] at h
    subst h
    simp [hp.1,Free,held,tried,ha]
  | some old =>
    simp only [ha] at h
    split_ifs at h with hfree
    cases h
    obtain ⟨hclaim,hnext⟩ := free_iff.mp hfree
    refine ⟨hp.1,?_,rfl,?_,hnext⟩
    · intro u hu
      exact hclaim u (by simpa [held,ha] using hu)
    · simp [tried,ha]

theorem claim_inv (h : Inv s) {tick started : Nat} {queue : List Int} {eligible : Bool}
    {row : Attempt} (htick : tick ≤ started) (hstarted : started ≤ s.now)
    (hclaim : claim s started eligible r=some row) :
    Inv (setPhase { s with attempt := update s.attempt r (some row) } a
      (.claimed ⟨tick,r,row.attempts,started+sendClaim,queue⟩)) := by
  obtain ⟨hpending,hfree,huntil,htries,hnext⟩ := claim_some hclaim
  have hold : Free (held s) r s.now := fun u hu => Nat.le_trans (hfree u hu) hstarted
  let t : State := { s with attempt := update s.attempt r (some row) }
  have ho : OnlyAt r s t := ⟨rfl,rfl,fun q hq => by simp [t,hq]⟩
  have htried : tried t r=tried s r := by simp [t,tried,htries]
  refine ⟨?_,?_,?_⟩
  · have hlease : Exclusive (held t) (claims (setPhase t a
        (.claimed ⟨tick,r,row.attempts,started+sendClaim,queue⟩))) s.now := by
      have hrow : held t r=some (started+sendClaim) := by simp [held,t,huntil]
      rw [claims_setPhase,ho.held,hrow,ho.claims]
      exact h.lease.take hold _ a
    exact hlease
  · intro b
    by_cases hb : b=a
    · subst hb
      rw [phase_self]
      apply PhaseInv.of_phase (s := t)
      exact ⟨Nat.add_le_add_right htick _,fun _ => ⟨hpending,htried.trans htries.symm⟩⟩
    · rw [phase_other hb]
      apply PhaseInv.of_phase (s := t)
      apply ho.phaseInv (h.phase b)
      intro d hd hlt heq
      have hheld := h.lease.backed b _ _ (claims_of hd) hlt
      have hle := hold d.heldUntil (heq ▸ hheld)
      omega
  · intro q
    apply RowInv.of_phase (s := t)
    by_cases hq : q=r
    · subst hq
      have hr := h.row q
      refine ⟨?_,?_,hr.bounded,?_⟩
      · intro row' u n hrow' hu hn
        have hrow' : row=row' := by simpa [t] using hrow'
        subst hrow'
        have hu : started+sendClaim=u := Option.some.inj (huntil.symm.trans hu)
        have hle := hnext n hn
        omega
      · rw [htried]
        exact hr.tally
      · intro hnone
        exact absurd (hpending.symm.trans hnone) (by simp)
    · exact ho.row hq (h.row q)

theorem result_record {n : Nat} {err : Option SendError} {status : Delivery}
    (h : result n err=.record status) : status≠.pending := by
  have hclass : classifySendResult err≠.pending := by
    cases err with
    | none => simp [classifySendResult]
    | some e => cases e <;> simp [classifySendResult]
  unfold result at h
  split_ifs at h <;> cases h <;> exact hclass

theorem result_retry {n wait : Nat} {err : Option SendError}
    (h : result n err=.retryLater wait) : passing err=true∧n+1 < maxSendAttempts := by
  unfold result at h
  split_ifs at h with hway hfail
  refine ⟨?_,hfail.2⟩
  cases err with
  | none => simp [classifySendResult] at hfail
  | some e => cases e <;> simp [classifySendResult,passing] at hfail hway ⊢

theorem record_inv (h : Inv s) (hc : (s.phase a).claim=some c) (hlast : s.now < c.heldUntil)
    {status : Delivery} (hstatus : status≠.pending) {n : Nat} (hn : n ≤ 1)
    (ht : t={ recordResult s c.reply status with
      passed := update s.passed c.reply (s.passed c.reply+n) })
    (hp : p.claim=none) (hpt : PhaseInv t p) : Inv (setPhase t a p) := by
  have hpending := (h.pending hc hlast).1
  have htally := (h.row c.reply).tally hpending
  have hfit : s.passed c.reply+n ≤ maxSendAttempts := by omega
  have ho : OnlyAt c.reply s t := by
    subst ht
    exact ⟨rfl,rfl,fun q hq => by simp [recordResult,hq]⟩
  apply h.settle hc hlast ho ?_ ?_ hp hpt
  · simp [ht,held,recordResult]
  · constructor <;> simp [ht,recordResult,hstatus,hfit]

theorem retry_inv (h : Inv s) (hc : (s.phase a).claim=some c) (hlast : s.now < c.heldUntil)
    (hlimit : c.attempts+1 < maxSendAttempts) (started wait : Nat)
    (ht : t={ retryLater s c.reply started wait with
      passed := update s.passed c.reply (s.passed c.reply+1) })
    (hp : p.claim=none) (hpt : PhaseInv t p) : Inv (setPhase t a p) := by
  obtain ⟨hpending,htries⟩ := h.pending hc hlast
  have htally := (h.row c.reply).tally hpending
  have hheld := h.lease.backed a _ _ (claims_of hc) hlast
  obtain ⟨row,hrow,-⟩ := Option.bind_eq_some_iff.mp hheld
  have htried : tried s c.reply=row.attempts := by simp [tried,hrow]
  have ho : OnlyAt c.reply s t := by
    subst ht
    exact ⟨rfl,rfl,fun q hq => by simp [retryLater,hq]⟩
  apply h.settle hc hlast ho ?_ ?_ hp hpt
  · simp [ht,held,retryLater,hrow]
  · subst ht
    constructor
    · intro row' u n hrow' hu
      simp only [retryLater,hrow,update_self,Option.map_some,Option.some.injEq] at hrow'
      simp [← hrow'] at hu
    · intro _
      simp only [retryLater,tried,hrow,update_self,Option.map_some,Option.elim_some]
      omega
    · simp only [update_self]
      omega
    · intro hnone
      exact absurd (hpending.symm.trans hnone) (by simp)

/-- A claim outlasts the tick it is part of, and the result of a send in time. -/
theorem Inv.lasts (h : Inv s) (hc : (s.phase a).claim=some c)
    (hnow : s.now ≤ c.tick+sendTickBudget) : s.now+resultTimeout < c.heldUntil := by
  have hlasts := ((h.phase a).backed hc).lasts
  simp only [sendClaim,sendTickBudget,resultTimeout] at *
  omega

theorem writeResult_inv (h : Inv s) {err : Option SendError} {since started : Nat}
    (hp : s.phase a=.answered c err since) (hnow : s.now ≤ since+resultTimeout) (tick : Nat)
    (queue : List Int) : Inv (setPhase (writeResult s c err started) a (.working tick queue)) := by
  have hc : (s.phase a).claim=some c := by simp [hp,Phase.claim]
  have hphase : PhaseInv s (.answered c err since) := hp ▸ h.phase a
  have hlast : s.now < c.heldUntil := Nat.lt_of_le_of_lt hnow hphase.2.2
  unfold writeResult
  cases hr : result c.attempts err with
  | record status =>
    have hone : (if passing err then 1 else 0) ≤ 1 := by split_ifs <;> omega
    exact record_inv h hc hlast (result_record hr) hone rfl rfl trivial
  | retryLater wait =>
    obtain ⟨hpass,hlimit⟩ := result_retry hr
    refine retry_inv h hc hlast hlimit started wait ?_ rfl trivial
    simp [count,hpass,retryLater]

theorem step_inv (h : Inv s) {e : Event} (hin : InTime s e) (hs : step s e=some t) : Inv t := by
  cases e with
  | advance n =>
    simp only [step,Option.ite_none_right_eq_some,Option.some.injEq] at hs
    obtain ⟨hle,rfl⟩ := hs
    exact advance_inv h hle hin
  | post r =>
    simp only [step,Option.ite_none_right_eq_some,Option.some.injEq] at hs
    obtain ⟨⟨-,hnew⟩,rfl⟩ := hs
    exact post_inv h hnew
  | scan a tick enabled eligible =>
    simp only [step] at hs
    split at hs
    · simp only [Option.ite_none_right_eq_some,Option.some.injEq] at hs
      obtain ⟨-,rfl⟩ := hs
      cases enabled with
      | true => exact h.setPhase trivial (.inl rfl)
      | false => exact h
    · cases hs
  | next a =>
    simp only [step] at hs
    split at hs
    · cases hs
      exact h.setPhase trivial (.inl rfl)
    · split_ifs at hs <;> cases hs <;> exact h.setPhase trivial (.inl rfl)
    · cases hs
  | claim a started eligible =>
    simp only [step] at hs
    split at hs
    · rename_i tick r queue hp
      split_ifs at hs with hwhen
      cases hclaim : claim s started eligible r with
      | none =>
        simp only [hclaim,Option.some.injEq] at hs
        subst hs
        exact h.setPhase trivial (.inl rfl)
      | some row =>
        simp only [hclaim,Option.some.injEq] at hs
        subst hs
        exact claim_inv h hwhen.1 hwhen.2.1 hclaim
    · cases hs
  | unfit a =>
    simp only [step] at hs
    split at hs
    · rename_i c hp
      simp only [Option.ite_none_right_eq_some,Option.some.injEq] at hs
      obtain ⟨hnow,rfl⟩ := hs
      have hc : (s.phase a).claim=some c := by simp [hp,Phase.claim]
      have hlast : s.now < c.heldUntil := Nat.lt_of_le_of_lt (Nat.le_add_right _ _) (h.lasts hc hnow)
      have hfailed : Delivery.failed≠.pending := by simp
      refine record_inv (n := 0) h hc hlast hfailed (by omega) ?_ rfl trivial
      simp [recordResult]
    · cases hs
  | handOver a dryRun =>
    simp only [step] at hs
    split at hs
    · rename_i c hp
      simp only [Option.ite_none_right_eq_some,Option.some.injEq] at hs
      obtain ⟨hnow,rfl⟩ := hs
      have hc : (s.phase a).claim=some c := by simp [hp,Phase.claim]
      have hbacked := (h.phase a).backed hc
      have hlasts := h.lasts hc hnow
      cases dryRun with
      | true => exact h.setPhase ⟨hbacked,Nat.le_refl _,hlasts⟩ (.inr hc.symm)
      | false => exact h.setPhase ⟨hbacked,hlasts⟩ (.inr hc.symm)
    · cases hs
  | answer a err =>
    simp only [step] at hs
    split at hs
    · rename_i c hp
      cases hs
      have hphase : PhaseInv s (.sending c) := hp ▸ h.phase a
      have hc : (s.phase a).claim=some c := by simp [hp,Phase.claim]
      exact h.setPhase ⟨hphase.1,Nat.le_refl _,hphase.2⟩ (.inr hc.symm)
    · cases hs
  | result a started =>
    simp only [step] at hs
    split at hs
    · rename_i c err since hp
      simp only [Option.ite_none_right_eq_some,Option.some.injEq] at hs
      obtain ⟨hnow,rfl⟩ := hs
      exact writeResult_inv h hp hnow.2 _ _
    · cases hs
  | fail a =>
    simp only [step] at hs
    split at hs
    all_goals
      cases hs
      try exact h.setPhase trivial (.inl rfl)
  | crash a =>
    cases hs
    exact h.setPhase trivial (.inl rfl)

/-- A message comes in as pending, and leaves that state once. -/
def Moves (before after : Option Delivery) : Prop :=
  after=before∨before=none∧after=some .pending∨
    before=some .pending∧∃ d, d≠.pending∧after=some d

theorem moves_update (h : Moves (s.status r) (some .pending)) {q : Int} :
    Moves (s.status q) (update s.status r (some .pending) q) := by
  by_cases hq : q=r
  · simpa [hq] using h
  · simp [Moves,hq]

theorem moves_record (hpending : s.status r=some .pending) {d : Delivery} (hd : d≠.pending)
    {q : Int} : Moves (s.status q) (update s.status r (some d) q) := by
  by_cases hq : q=r
  · subst hq
    exact .inr (.inr ⟨hpending,d,hd,by simp⟩)
  · simp [Moves,hq]

theorem moves_writeResult {err : Option SendError} {started : Nat}
    (hpending : s.status c.reply=some .pending) {q : Int} :
    Moves (s.status q) ((writeResult s c err started).status q) := by
  unfold writeResult
  cases hr : result c.attempts err with
  | record status => exact moves_record hpending (result_record hr)
  | retryLater wait => exact .inl rfl

theorem step_moves (h : Inv s) {e : Event} (hs : step s e=some t) (q : Int) :
    Moves (s.status q) (t.status q) := by
  cases e with
  | post r =>
    simp only [step,Option.ite_none_right_eq_some,Option.some.injEq] at hs
    obtain ⟨⟨-,hnew⟩,rfl⟩ := hs
    exact moves_update (.inr (.inl ⟨hnew,rfl⟩))
  | unfit a =>
    simp only [step] at hs
    split at hs
    · rename_i c hp
      simp only [Option.ite_none_right_eq_some,Option.some.injEq] at hs
      obtain ⟨hnow,rfl⟩ := hs
      have hc : (s.phase a).claim=some c := by simp [hp,Phase.claim]
      have hlast := Nat.lt_of_le_of_lt (Nat.le_add_right _ _) (h.lasts hc hnow)
      exact moves_record (h.pending hc hlast).1 (by simp)
    · cases hs
  | result a started =>
    simp only [step] at hs
    split at hs
    · rename_i c err since hp
      simp only [Option.ite_none_right_eq_some,Option.some.injEq] at hs
      obtain ⟨hnow,rfl⟩ := hs
      have hc : (s.phase a).claim=some c := by simp [hp,Phase.claim]
      have hphase : PhaseInv s (.answered c err since) := hp ▸ h.phase a
      have hlast := Nat.lt_of_le_of_lt hnow.2 hphase.2.2
      exact moves_writeResult (h.pending hc hlast).1
    · cases hs
  | _ =>
    have hsame : t.status=s.status := by
      simp only [step] at hs
      repeat' split at hs
      all_goals
        cases hs
        try rfl
    rw [hsame]
    exact .inl rfl

/-- What holds of the senders and the tables at any moment. -/
structure Safe (s : State) : Prop where
  alone : ∀ a b c d, s.phase a=.sending c → s.phase b=.sending d → c.reply=d.reply → a=b
  waiting : ∀ a c, s.phase a=.sending c → s.status c.reply=some .pending
  bounded : ∀ r, s.passed r ≤ maxSendAttempts
  /-- A claim that has run out is no obstacle. -/
  again : ∀ r u started, s.status r=some .pending → held s r=some u → u ≤ started →
    (claim s started true r).isSome=true

theorem Inv.sending (h : Inv s) (hp : s.phase a=.sending c) :
    (s.phase a).claim=some c∧s.now < c.heldUntil := by
  have hphase : PhaseInv s (.sending c) := hp ▸ h.phase a
  exact ⟨by simp [hp,Phase.claim],Nat.lt_of_le_of_lt (Nat.le_add_right _ _) hphase.2⟩

theorem Inv.safe (h : Inv s) : Safe s where
  alone a b c d ha hb hsame := by
    obtain ⟨hc,hclast⟩ := h.sending ha
    obtain ⟨hd,hdlast⟩ := h.sending hb
    have hclaim : claims s b=some (c.reply,d.heldUntil) := by rw [claims_of hd,hsame]
    exact h.lease.alone a b _ _ _ (claims_of hc) hclaim hclast hdlast
  waiting a c ha := by
    obtain ⟨hc,hlast⟩ := h.sending ha
    exact (h.pending hc hlast).1
  bounded r := (h.row r).bounded
  again r u started hpending hheld hle := by
    obtain ⟨row,hrow,huntil⟩ := Option.bind_eq_some_iff.mp hheld
    have hfree : row.free started=true := by
      rw [free_iff]
      constructor
      · intro v hv
        have hsame : u=v := Option.some.inj (huntil.symm.trans hv)
        omega
      · intro n hn
        exact Nat.le_trans ((h.row r).retried row u n hrow huntil hn) hle
    simp [claim,hpending,hrow,hfree]

theorem run_inv {es : List Event} (h : Run step InTime s es t) (hi : Inv s) : Inv t :=
  h.inv Inv (fun _ _ _ hi hin hs => step_inv hi hin hs) hi

/-- A result that is recorded stays, and the message is not sent again. -/
theorem recorded_stays {es : List Event} (h : Run step InTime s es t) (hi : Inv s) {d : Delivery}
    (hd : d≠.pending) (hs : s.status r=some d) : t.status r=some d := by
  have hrun : Inv t∧t.status r=some d := by
    apply h.inv (fun u => Inv u∧u.status r=some d)
    · intro u e v hu hin hstep
      refine ⟨step_inv hu.1 hin hstep,?_⟩
      rcases step_moves hu.1 hstep r with heq|⟨hnone,-⟩|⟨hpending,-⟩
      · exact heq.trans hu.2
      · exact absurd (hu.2.symm.trans hnone) (by simp)
      · exact absurd (Option.some.inj (hu.2.symm.trans hpending)) hd
    · exact ⟨hi,hs⟩
  exact hrun.2

/-- A tick's budget and the time for the result fit in a claim: a send that ends with its
tick's context is in time. -/
theorem inTime_of_budget {es : List Event} (h : Run step InTime start es s) {n : Nat}
    (hbudget : ∀ a c, s.phase a=.sending c → n ≤ c.tick+sendTickBudget) :
    InTime s (.advance n) := by
  intro a c ha
  have hi := run_inv h inv_start
  have hlasts := ((hi.phase a).backed (hi.sending ha).1).lasts
  have hn := hbudget a c ha
  simp only [sendClaim,sendTickBudget,resultTimeout] at *
  omega

theorem sends_once {es : List Event} (h : Run step InTime start es s) :
    Safe s∧
      (∀ e t, InTime s e → step s e=some t → ∀ r, Moves (s.status r) (t.status r))∧
      ∀ r d, s.status r=some d → d≠.pending → ∀ fs t, Run step InTime s fs t →
        t.status r=some d∧∀ a c, t.phase a=.sending c → c.reply≠r := by
  have hi := run_inv h inv_start
  refine ⟨hi.safe,fun _ _ _ hs r => step_moves hi hs r,?_⟩
  intro r d hs hd fs t hrun
  have hstays := recorded_stays hrun hi hd hs
  refine ⟨hstays,?_⟩
  intro a c ha heq
  have hpending := (run_inv hrun hi).safe.waiting a c ha
  rw [heq,hstays] at hpending
  exact hd (Option.some.inj hpending)

/-- One sender stops with a message in hand. -/
def stopped : List Event :=
  [.post 7,.scan 0 0 true fun _ => true,.next 0,.claim 0 0 true,.handOver 0 false,.crash 0]

/-- Another claims it once the claim has run out. -/
def resent : List Event :=
  [.scan 1 600 true fun _ => true,.next 1,.claim 1 600 true,.handOver 1 false,.answer 1 none,
    .result 1 600]

theorem resent_safe : ∃ s, s.status 7=some .sent∧Safe s := by
  have hstopped : stopped.foldlM step start=some _ := rfl
  have hrun : Run step InTime start stopped _ := Run.of_foldlM hstopped (by simp [stopped,InTime])
  have hidle : InTime _ (.advance 600) := inTime_of_budget hrun (by
    intro a c ha
    by_cases h0 : a=0 <;> simp [setPhase,update,start,h0] at ha)
  have hwait := hrun.snoc hidle (u := _) rfl
  have hagain := hwait.append
    (Run.of_foldlM (rfl : resent.foldlM step _=some _) (by simp [resent,InTime]))
  exact ⟨_,rfl,(sends_once hagain).1⟩

end Kitp.MailSender
