import Kitp.Intake

/-! Runs of the ways in: a message is marked seen for a reason that holds, and a key is filed
again only when its last copy is older than the dedupe rows are kept. -/
namespace Kitp.Intake
open Kitp.Claims Kitp.Runs Function

def Known (s : State) (k : Key) : Prop := ∃ e∈s.table.log, e.key=k

/-- The reason holds: the message, or a copy of it, was filed, or kitp judged it. -/
def Justified (s : State) (ch : Int) (u : Uid) : Verdict → Prop
  | .filed k => Known s k∧∃ mail, s.mailbox ch u=some mail∧mail.messageKey=k.2
  | .tooLarge => ∃ mail, s.mailbox ch u=some mail∧imapMaxMessageBytes < mail.size
  | .unreadable noBody =>
    noBody=false → ∃ mail, s.mailbox ch u=some mail∧mail.readable=false
  | .interrupted attempts => imapMaxAttempts<attempts
  | .unfileable => True
  | .setAside f since => f.setAside since=true∧since ≤ s.now

structure PollInv (s : State) (p : Poll) : Prop where
  begun : p.started ≤ s.now
  queue : ∀ u∈p.queue, ∃ mail, s.mailbox p.channel u.1=some mail∧(u.2=mail.size∨u.2=0)

def JobInv (s : State) : Job → Prop
  | .imap item mail => PollInv s item.poll∧s.mailbox item.poll.channel item.uid=some mail
  | .push _ _ => True

def PhaseInv (s : State) (a : Nat) : Phase → Prop
  | .idle => True
  | .polling p => PollInv s p
  | .reading item => PollInv s item.poll
  | .judged item v => PollInv s item.poll∧Justified s item.poll.channel item.uid v
  | .ready job => JobInv s job
  | .opened job _ => JobInv s job
  | .conflict job _ => JobInv s job
  | .holding job h => JobInv s job∧s.table.holder job.key=some h∧h.agent=a
  | .returned item (.seen v _) => PollInv s item.poll∧Justified s item.poll.channel item.uid v
  | .returned item (.failed _ _) => PollInv s item.poll
  | .pushed key accepted => accepted=true → Known s key

structure Inv (keep : Nat) (s : State) : Prop where
  table : Claims.Inv keep s.now s.table
  phase : ∀ a, PhaseInv s a (s.phase a)
  flagged : ∀ ch u v, s.flagged ch u=some v → Justified s ch u v
  accepted : ∀ k∈s.accepted, Known s k

/-- The clock goes on, mail stays what it was, and committed writes stay in the log. -/
structure Grows (s t : State) : Prop where
  now : s.now ≤ t.now
  mailbox : ∀ ch u mail, s.mailbox ch u=some mail → t.mailbox ch u=some mail
  log : ∀ e∈s.table.log, e∈t.table.log

variable {keep : Nat} {s t u : State} {a b : Nat} {ch : Int} {uid : Uid} {v : Verdict}
  {p : Poll} {job : Job} {k : Key} {phase : Phase}

theorem Grows.refl (s : State) : Grows s s := ⟨Nat.le_refl _,fun _ _ _ h => h,fun _ h => h⟩

theorem Known.grow (hk : Known s k) (h : Grows s t) : Known t k := by
  obtain ⟨e,he,hek⟩ := hk
  exact ⟨e,h.log e he,hek⟩

theorem Justified.grow (hj : Justified s ch uid v) (h : Grows s t) : Justified t ch uid v := by
  cases v with
  | filed k =>
    obtain ⟨hk,mail,hm,hkey⟩ := hj
    exact ⟨hk.grow h,mail,h.mailbox _ _ _ hm,hkey⟩
  | tooLarge =>
    obtain ⟨mail,hm,hsize⟩ := hj
    exact ⟨mail,h.mailbox _ _ _ hm,hsize⟩
  | unreadable noBody =>
    intro hb
    obtain ⟨mail,hm,hr⟩ := hj hb
    exact ⟨mail,h.mailbox _ _ _ hm,hr⟩
  | interrupted n => exact hj
  | unfileable => trivial
  | setAside f since => exact ⟨hj.1,Nat.le_trans hj.2 h.now⟩

theorem PollInv.grow (hp : PollInv s p) (h : Grows s t) : PollInv t p where
  begun := Nat.le_trans hp.begun h.now
  queue u hu := by
    obtain ⟨mail,hm,hsize⟩ := hp.queue u hu
    exact ⟨mail,h.mailbox _ _ _ hm,hsize⟩

theorem JobInv.grow (hj : JobInv s job) (h : Grows s t) : JobInv t job := by
  cases job with
  | imap item mail => exact ⟨hj.1.grow h,h.mailbox _ _ _ hj.2⟩
  | push project mail => trivial

/-- What a phase rests on stays, if the row it holds does. -/
theorem PhaseInv.grow (hp : PhaseInv s a phase) (h : Grows s t)
    (hold : ∀ job h', phase=.holding job h' → t.table.holder job.key=some h') :
    PhaseInv t a phase := by
  cases phase with
  | idle => trivial
  | polling p => exact PollInv.grow hp h
  | reading item => exact PollInv.grow hp h
  | judged item v => exact ⟨hp.1.grow h,hp.2.grow h⟩
  | ready job => exact JobInv.grow hp h
  | opened job started => exact JobInv.grow hp h
  | conflict job started => exact JobInv.grow hp h
  | holding job h' => exact ⟨hp.1.grow h,hold job h' rfl,hp.2.2⟩
  | returned item r =>
    cases r with
    | seen v path => exact ⟨hp.1.grow h,hp.2.grow h⟩
    | failed stopping path => exact PollInv.grow hp h
  | pushed key accepted => exact fun ha => (hp ha).grow h

/-- What agent `a` did, seen by the others. -/
theorem Inv.move (hi : Inv keep s) (h : Grows s t) (htable : Claims.Inv keep t.now t.table)
    (hother : ∀ b, b≠a → t.phase b=s.phase b)
    (hhold : ∀ b job h', b≠a → s.phase b=.holding job h' → t.table.holder job.key=some h')
    (hphase : PhaseInv t a (t.phase a))
    (hflag : ∀ ch u v, t.flagged ch u=some v → s.flagged ch u=some v∨Justified t ch u v)
    (hacc : ∀ k∈t.accepted, k∈s.accepted∨Known t k) : Inv keep t where
  table := htable
  phase b := by
    by_cases hb : b=a
    · exact hb ▸ hphase
    · rw [hother b hb]
      exact (hi.phase b).grow h fun job h' hj => hhold b job h' hb hj
  flagged ch u v hv := (hflag ch u v hv).elim (fun hs => (hi.flagged ch u v hs).grow h) id
  accepted k hk := (hacc k hk).elim (fun hs => (hi.accepted k hs).grow h) id

/-- The dedupe table, the mail and the marks are the same. -/
structure Same (s t : State) : Prop where
  now : t.now=s.now
  table : t.table=s.table
  mailbox : t.mailbox=s.mailbox
  flagged : t.flagged=s.flagged
  phase : t.phase=s.phase
  accepted : t.accepted=s.accepted

theorem Same.grows (h : Same s t) : Grows s t where
  now := Nat.le_of_eq h.now.symm
  mailbox ch u mail hm := by rw [h.mailbox]; exact hm
  log e he := by rw [h.table]; exact he

theorem holder_of (hi : Inv keep s) {h' : Hold Nat} (hb : s.phase b=.holding job h') :
    s.table.holder job.key=some h'∧h'.agent=b := by
  have hp := hi.phase b
  rw [hb] at hp
  exact hp.2

/-- Bookkeeping of another table, and the agent's next phase. -/
theorem Inv.turn (hi : Inv keep s) (h : Same s t) (hp : PhaseInv s a phase) :
    Inv keep (setPhase t a phase) := by
  have hg : Grows s (setPhase t a phase) := ⟨h.grows.now,h.grows.mailbox,h.grows.log⟩
  have htab : (setPhase t a phase).table=s.table := h.table
  refine hi.move (a := a) hg ?_ ?_ ?_ ?_ ?_ ?_
  · rw [htab]
    exact hi.table.pass hg.now
  · intro b hb
    simp [setPhase,hb,h.phase]
  · intro b job h' hb hj
    rw [htab]
    exact (holder_of hi hj).1
  · have hself : (setPhase t a phase).phase a=phase := by simp [setPhase]
    rw [hself]
    refine hp.grow hg fun job h' hj => ?_
    subst hj
    rw [htab]
    exact hp.2.1
  · intro ch u v hv
    exact .inl (by rw [← h.flagged]; exact hv)
  · intro k hk
    exact .inl (by rw [← h.accepted]; exact hk)

theorem Same.refl (s : State) : Same s s := ⟨rfl,rfl,rfl,rfl,rfl,rfl⟩

theorem Same.inv (h : Same s t) (hi : Inv keep s) : Inv keep t where
  table := by rw [h.now,h.table]; exact hi.table
  phase a := by
    rw [h.phase]
    refine (hi.phase a).grow h.grows fun job h' hj => ?_
    rw [h.table]
    exact (holder_of hi hj).1
  flagged ch u v hv := (hi.flagged ch u v (by rw [← h.flagged]; exact hv)).grow h.grows
  accepted k hk := (hi.accepted k (by rw [← h.accepted]; exact hk)).grow h.grows

section bookkeeping

theorem same_pruneInflight (s : State) (ch : Int) (validity : Nat) :
    Same s (pruneInflight s ch validity) := ⟨rfl,rfl,rfl,rfl,rfl,rfl⟩

theorem same_beginInflight (s : State) (ch : Int) (u : Uid) : Same s (beginInflight s ch u) :=
  ⟨rfl,rfl,rfl,rfl,rfl,rfl⟩

theorem same_setFailure (s : State) (ch : Int) (u : Uid) (row : Option FileFailure) :
    Same s (setFailure s ch u row) := ⟨rfl,rfl,rfl,rfl,rfl,rfl⟩

theorem same_if {c : Prop} [Decidable c] (h : Same s t) : Same s (if c then t else s) := by
  split_ifs
  · exact h
  · exact Same.refl s

theorem same_endInflight (s : State) (item : Item) (ended : Bool) :
    Same s (endInflight s item ended) := same_if ⟨rfl,rfl,rfl,rfl,rfl,rfl⟩

end bookkeeping

section marks

theorem grows_markSeen (s : State) (ch : Int) (u : Uid) (v : Verdict) (marked : Bool) :
    Grows s (markSeen s ch u v marked) := by
  unfold markSeen
  split_ifs
  · exact ⟨Nat.le_refl _,fun _ _ _ h => h,fun _ h => h⟩
  · exact Grows.refl s

theorem Inv.mark (hi : Inv keep s) (hj : Justified s ch uid v) (marked : Bool) :
    Inv keep (markSeen s ch uid v marked) := by
  have hg := grows_markSeen s ch uid v marked
  unfold markSeen at hg ⊢
  split_ifs at hg ⊢
  · refine ⟨hi.table,?_,?_,fun k hk => (hi.accepted k hk).grow hg⟩
    · intro b
      exact (hi.phase b).grow hg fun job h' hj => (holder_of hi hj).1
    intro ch' u' v' hv
    refine Justified.grow ?_ hg
    by_cases hch : ch'=ch
    · subst hch
      by_cases hu : u'=uid
      · subst hu
        have hvv : v=v' := by simpa using hv
        exact hvv ▸ hj
      · exact hi.flagged ch' u' v' (by simpa [hu] using hv)
    · exact hi.flagged ch' u' v' (by simpa [hch] using hv)
  · exact hi

/-- The poll keeps what it knows, its marks aside. -/
theorem handleResult_inv {item : Item} {r : Result} (hi : Inv keep s)
    (hp : PhaseInv s a (.returned item r)) (marked cleared : Bool) :
    Inv keep (handleResult s item marked cleared r).1∧
      PollInv (handleResult s item marked cleared r).1
        (handleResult s item marked cleared r).2 := by
  cases r with
  | seen v path =>
    have hm := hi.mark hp.2 marked
    have hpoll := hp.1.grow (grows_markSeen s item.poll.channel item.uid v marked)
    have hsame := same_if (c := (item.poll.failed item.uid).isSome=true∧cleared=true)
      (same_setFailure (markSeen s item.poll.channel item.uid v marked) item.poll.channel
        item.uid none)
    have hp' := hpoll.grow hsame.grows
    exact ⟨hsame.inv hm,hp'.begun,hp'.queue⟩
  | failed stopping path =>
    have hp : PollInv s item.poll := hp
    unfold handleResult
    dsimp only
    by_cases hleft : stopping=true∨budgetLeft s item.poll=0∧item.left < imapPollBudget/2
    · rw [if_pos hleft]
      exact ⟨hi,hp⟩
    · rw [if_neg hleft]
      cases hf : (item.poll.failed item.uid).filter (·.setAside item.poll.started) with
      | some f =>
        have hj : Justified s item.poll.channel item.uid (.setAside f item.poll.started) :=
          ⟨(Option.filter_eq_some_iff.mp hf).2,hp.begun⟩
        have hsame := same_if (c := marked=true∧cleared=true)
          (same_setFailure (markSeen s item.poll.channel item.uid
            (.setAside f item.poll.started) marked) item.poll.channel item.uid none)
        exact ⟨hsame.inv (hi.mark hj marked),(hp.grow (grows_markSeen ..)).grow hsame.grows⟩
      | none =>
        have hsame : Same s (if cleared=true then noteFileFailure s item.poll.channel item.uid path
            else s) := same_if ⟨rfl,rfl,rfl,rfl,rfl,rfl⟩
        exact ⟨hsame.inv hi,hp.grow hsame.grows⟩

end marks

section filing

variable {started : Nat} {h' : Hold Nat}

/-- Where a job goes rests on what it came to. -/
theorem phaseInv_ended {r : Result} (hj : JobInv s job)
    (hr : ∀ v path, r=.seen v path → (∀ k, v=.filed k → k=job.key∧Known s k)∧
      ((∃ k, v=.filed k)∨v=.unfileable)) : PhaseInv s a (job.ended r) := by
  cases job with
  | imap item mail =>
    cases r with
    | seen v path =>
      have hv := hr v path rfl
      refine ⟨hj.1,?_⟩
      cases hv.2 with
      | inl hk =>
        obtain ⟨k,rfl⟩ := hk
        obtain ⟨rfl,hk⟩ := hv.1 k rfl
        exact ⟨hk,mail,hj.2,rfl⟩
      | inr hu =>
        subst hu
        trivial
    | failed stopping path => exact hj.1
  | push project mail =>
    cases r with
    | seen v path =>
      have hv := hr v path rfl
      cases hv.2 with
      | inl hk =>
        obtain ⟨k,rfl⟩ := hk
        obtain ⟨rfl,hk⟩ := hv.1 k rfl
        exact fun _ => hk
      | inr hu =>
        subst hu
        intro ha
        cases ha
    | failed stopping path => trivial

theorem not_holding_ended {r : Result} {job' : Job} : job.ended r≠.holding job' h' := by
  cases job <;> cases r <;> simp [Job.ended]

/-- The agent takes a row nobody holds. -/
theorem Inv.take (hi : Inv keep s) (hj : JobInv s job) (hfree : s.table.holder job.key=none)
    (ha : h'.agent=a) (hrow : if h'.fresh then s.table.row job.key=none∧h'.takenAt=s.now
      else s.table.row job.key≠none) :
    Inv keep (setPhase { s with table := s.table.take job.key h' } a (.holding job h')) := by
  have hg : Grows s (setPhase { s with table := s.table.take job.key h' } a (.holding job h')) :=
    ⟨Nat.le_refl _,fun _ _ _ hm => hm,fun _ he => he⟩
  refine hi.move (a := a) hg ?_ (fun b hb => by simp [setPhase,hb]) ?_ ?_
    (fun _ _ _ hv => .inl hv) fun _ hk => .inl hk
  · cases hf : h'.fresh with
    | true =>
      rw [hf,if_pos rfl] at hrow
      exact hi.table.insert hrow.1 hf hrow.2
    | false =>
      rw [hf,if_neg (by simp)] at hrow
      exact hi.table.restamp hrow hf
  · intro b job₁ h₁ _ hb
    have hh := (holder_of hi hb).1
    have hne : job₁.key≠job.key := by
      intro he
      rw [he,hfree] at hh
      cases hh
    change update s.table.holder job.key (some h') job₁.key=some h₁
    rwa [update_of_ne hne]
  · have hself : (setPhase { s with table := s.table.take job.key h' } a
        (.holding job h')).phase a=.holding job h' := by simp [setPhase]
    rw [hself]
    refine ⟨hj.grow hg,?_,ha⟩
    change update s.table.holder job.key (some h') job.key=some h'
    rw [update_self]

/-- Two agents do not hold one row. -/
theorem key_ne (hi : Inv keep s) {job₁ : Job} {h₁ : Hold Nat} (hb : b≠a)
    (h₀ : s.phase a=.holding job h') (h₁' : s.phase b=.holding job₁ h₁) : job₁.key≠job.key := by
  intro he
  have ha := holder_of hi h₀
  have hbb := holder_of hi h₁'
  rw [he] at hbb
  have hh : h'=h₁ := Option.some.inj (ha.1.symm.trans hbb.1)
  subst hh
  exact hb (hbb.2.symm.trans ha.2)

/-- The agent's transaction commits, and its job ends. -/
theorem Inv.commit (hi : Inv keep s) (h₀ : s.phase a=.holding job h') {told stopping : Bool}
    {path path' : Path} :
    Inv keep (setPhase { s with table := s.table.commit job.key h' } a (job.ended
      (if told then .seen (.filed job.key) path else .failed stopping path'))) := by
  have hp := hi.phase a
  rw [h₀] at hp
  have hg : Grows s { s with table := s.table.commit job.key h' } :=
    ⟨Nat.le_refl _,fun _ _ _ hm => hm,fun _ he => List.mem_cons_of_mem _ he⟩
  refine hi.move (a := a) ⟨hg.now,hg.mailbox,hg.log⟩ (hi.table.commit hp.2.1)
    (fun b hb => by simp [setPhase,hb]) ?_ ?_ (fun _ _ _ hv => .inl hv) fun _ hk => .inl hk
  · intro b job₁ h₁ hb hj
    change update s.table.holder job.key none job₁.key=some h₁
    rw [update_of_ne (key_ne hi hb h₀ hj)]
    exact (holder_of hi hj).1
  · simp only [setPhase,update_self]
    have hknown : Known { s with table := s.table.commit job.key h' } job.key :=
      ⟨_,List.mem_cons_self,rfl⟩
    have hend := phaseInv_ended (a := a)
      (r := if told then .seen (.filed job.key) path else .failed stopping path')
      (JobInv.grow hp.1 hg) fun v path₁ hv => by
        cases told with
        | true =>
          cases hv
          exact ⟨fun k hk => by cases hk; exact ⟨rfl,hknown⟩,.inl ⟨_,rfl⟩⟩
        | false => cases hv
    exact hend.grow ⟨Nat.le_refl _,fun _ _ _ hm => hm,fun _ he => he⟩
      fun job₁ h₁ hj => absurd hj not_holding_ended

/-- The agent's open transaction, if any, is undone. -/
theorem Inv.rollback (hi : Inv keep s) (hp : PhaseInv s a phase)
    (hnot : ∀ job h', phase≠.holding job h') :
    Inv keep (setPhase (rollback s a) a phase) := by
  cases hh : held (s.phase a) with
  | none =>
    simp only [Intake.rollback,hh]
    exact hi.turn (Same.refl s) hp
  | some k =>
    simp only [Intake.rollback,hh]
    obtain ⟨job,h',h₀,rfl⟩ : ∃ job h', s.phase a=.holding job h'∧job.key=k := by
      cases hs : s.phase a with
      | holding job h' =>
        rw [hs] at hh
        exact ⟨job,h',rfl,Option.some.inj hh⟩
      | _ => simp [hs,held] at hh
    have hg : Grows s (setPhase { s with table := s.table.abort job.key } a phase) :=
      ⟨Nat.le_refl _,fun _ _ _ hm => hm,fun _ he => he⟩
    refine hi.move (a := a) hg (hi.table.abort job.key) (fun b hb => by simp [setPhase,hb]) ?_ ?_
      (fun _ _ _ hv => .inl hv) fun _ hk => .inl hk
    · intro b job₁ h₁ hb hj
      change update s.table.holder job.key none job₁.key=some h₁
      rw [update_of_ne (key_ne hi hb h₀ hj)]
      exact (holder_of hi hj).1
    · have hself : (setPhase { s with table := s.table.abort job.key } a phase).phase a=phase := by
        simp [setPhase]
      rw [hself]
      exact hp.grow hg fun job₁ h₁ hj => absurd hj (hnot job₁ h₁)

end filing

section steps

theorem inv_start : Inv keep start := by
  refine ⟨inv_empty,fun a => trivial,?_,?_⟩ <;> simp [start]

theorem advance_inv (hi : Inv keep s) {n : Nat} (hle : s.now ≤ n) :
    Inv keep { s with now := n } := by
  have hg : Grows s { s with now := n } := ⟨hle,fun _ _ _ hm => hm,fun _ he => he⟩
  refine ⟨hi.table.pass hle,?_,fun ch u v hv => (hi.flagged ch u v hv).grow hg,
    fun k hk => (hi.accepted k hk).grow hg⟩
  intro a
  exact (hi.phase a).grow hg fun job h' hj => (holder_of hi hj).1

theorem arrive_inv (hi : Inv keep s) {mail : Mail} (hnew : s.mailbox ch uid=none) :
    Inv keep { s with mailbox := update s.mailbox ch (update (s.mailbox ch) uid (some mail)) } := by
  have hg : Grows s { s with
      mailbox := update s.mailbox ch (update (s.mailbox ch) uid (some mail)) } := by
    refine ⟨Nat.le_refl _,?_,fun _ he => he⟩
    intro ch' u' mail' hm
    by_cases hch : ch'=ch
    · subst hch
      by_cases hu : u'=uid
      · subst hu
        rw [hnew] at hm
        cases hm
      · simpa [hu] using hm
    · simpa [hch] using hm
  refine ⟨hi.table,?_,fun ch u v hv => (hi.flagged ch u v hv).grow hg,
    fun k hk => (hi.accepted k hk).grow hg⟩
  intro a
  exact (hi.phase a).grow hg fun job h' hj => (holder_of hi hj).1

theorem sweep_inv (hi : Inv keep s) {cutoff : Nat} (hc : cutoff+keep ≤ s.now) :
    Inv keep { s with table := s.table.sweep cutoff } := by
  have hg : Grows s { s with table := s.table.sweep cutoff } :=
    ⟨Nat.le_refl _,fun _ _ _ hm => hm,fun _ he => he⟩
  refine ⟨hi.table.sweep hc,?_,fun ch u v hv => (hi.flagged ch u v hv).grow hg,
    fun k hk => (hi.accepted k hk).grow hg⟩
  intro a
  exact (hi.phase a).grow hg fun job h' hj => (holder_of hi hj).1

/-- A poll starts with what the server lists. -/
theorem poll_inv (hi : Inv keep s) {project : Int} {validity : Nat} {uids : List (Uid×Nat)}
    {failed : Uid → Option FileFailure} (hl : listed s ch uids=true) :
    Inv keep (setPhase (pruneInflight s ch validity) a
      (.polling ⟨ch,project,validity,s.now,failed,sorted failed uids,[]⟩)) := by
  refine hi.turn (same_pruneInflight s ch validity) ⟨Nat.le_refl _,?_⟩
  intro u hu
  have hmem : u∈uids := by
    simp only [sorted,List.mem_append,List.mem_filter] at hu
    exact hu.elim And.left And.left
  have hall := (Bool.and_eq_true_iff.mp hl).2
  have hu := List.all_eq_true.mp hall u hmem
  cases hm : s.mailbox ch u.1 with
  | none => simp [hm] at hu
  | some mail =>
    simp only [hm,Option.any_some,Bool.and_eq_true,Bool.or_eq_true,decide_eq_true_eq] at hu
    exact ⟨mail,rfl,hu.2⟩

theorem next_inv (hi : Inv keep s) {size : Nat} {rest : List (Uid×Nat)} {begun : Bool}
    (hp : PollInv s p) (hq : p.queue=(uid,size)::rest) :
    Inv keep (setPhase (nextMessage s p begun uid size rest).1 a
      (nextMessage s p begun uid size rest).2) := by
  have hp' : PollInv s { p with queue := rest } :=
    ⟨hp.begun,fun u hu => hp.queue u (by rw [hq]; exact List.mem_cons_of_mem _ hu)⟩
  obtain ⟨mail,hm,hsize⟩ := hp.queue (uid,size) (by rw [hq]; exact List.mem_cons_self)
  unfold nextMessage
  dsimp only
  split_ifs with hwait hbig hbegun htries
  · exact hi.turn (Same.refl s) hp'
  · refine hi.turn (Same.refl s) ⟨hp',mail,hm,?_⟩
    dsimp only at hsize
    omega
  · exact hi.turn (Same.refl s) trivial
  · exact ((same_beginInflight s p.channel uid).inv hi).turn (Same.refl _)
      ⟨hp'.grow (same_beginInflight s p.channel uid).grows,htries⟩
  · exact ((same_beginInflight s p.channel uid).inv hi).turn (Same.refl _)
      (hp'.grow (same_beginInflight s p.channel uid).grows)

theorem fetch_inv (hi : Inv keep s) {item : Item} {mail : Mail} {ended : Bool} {how : Fetched}
    (hp : PollInv s item.poll) (hm : s.mailbox item.poll.channel item.uid=some mail) :
    Inv keep (setPhase (fetched s item mail ended how).1 a (fetched s item mail ended how).2) := by
  cases how with
  | refused => exact hi.turn (Same.refl s) hp
  | failed => exact hi.turn (same_endInflight s item ended) trivial
  | noBody => exact hi.turn (Same.refl s) ⟨hp,fun h => by cases h⟩
  | body =>
    cases hr : mail.readable with
    | true =>
      simp only [fetched,hr,if_true]
      exact hi.turn (Same.refl s) ⟨hp,hm⟩
    | false =>
      simp only [fetched,hr,Bool.false_eq_true,if_false]
      exact hi.turn (Same.refl s) ⟨hp,fun _ => ⟨mail,hm,hr⟩⟩

/-- A transaction that ends without a commit sends its job on. -/
theorem fail_inv (hi : Inv keep s) (hj : JobInv s job) {permanent stopping : Bool} {path : Path} :
    Inv keep (setPhase (rollback s a) a (job.ended
      (if permanent then .seen .unfileable path else .failed stopping path))) := by
  refine hi.rollback (phaseInv_ended hj ?_) fun _ _ => not_holding_ended
  intro v path' hv
  cases permanent with
  | true =>
    cases hv
    exact ⟨fun k hk => (by cases hk),.inr rfl⟩
  | false => cases hv

theorem Inv.accept (hi : Inv keep s) (hk : Known s k) :
    Inv keep { s with accepted := k::s.accepted } := by
  have hg : Grows s { s with accepted := k::s.accepted } :=
    ⟨Nat.le_refl _,fun _ _ _ hm => hm,fun _ he => he⟩
  refine ⟨hi.table,?_,fun ch u v hv => (hi.flagged ch u v hv).grow hg,?_⟩
  · intro a
    exact (hi.phase a).grow hg fun job h' hj => (holder_of hi hj).1
  · intro j hj
    cases List.mem_cons.mp hj with
    | inl hj => exact hj ▸ hk.grow hg
    | inr hj => exact (hi.accepted j hj).grow hg

theorem claim_inv (hi : Inv keep s) {started : Nat} (h₀ : s.phase a=.opened job started)
    (hs : step keep s (.claim a)=some u) : Inv keep u := by
  have hp := hi.phase a
  rw [h₀] at hp
  cases hh : s.table.holder job.key with
  | some h' => simp [step,h₀,hh] at hs
  | none =>
    cases hr : s.table.row job.key with
    | some stamp =>
      simp only [step,h₀,hh,hr] at hs
      cases hs
      exact hi.turn (Same.refl s) hp
    | none =>
      simp only [step,h₀,hh,hr] at hs
      cases hs
      exact hi.take hp hh rfl ⟨hr,rfl⟩

theorem bump_inv (hi : Inv keep s) {started : Nat} (h₀ : s.phase a=.conflict job started)
    (hs : step keep s (.bump a)=some u) : Inv keep u := by
  have hp := hi.phase a
  rw [h₀] at hp
  cases hh : s.table.holder job.key with
  | some h' => simp [step,h₀,hh] at hs
  | none =>
    cases hr : s.table.row job.key with
    | some stamp =>
      simp only [step,h₀,hh,hr] at hs
      cases hs
      exact hi.take hp hh rfl (by rw [if_neg Bool.false_ne_true,hr]; exact Option.some_ne_none _)
    | none =>
      simp only [step,h₀,hh,hr] at hs
      cases hs
      exact hi.turn (Same.refl s) (phaseInv_ended hp fun v path hv => by cases hv)

theorem handle_inv (hi : Inv keep s) {item : Item} {r : Result} (h₀ : s.phase a=.returned item r)
    {marked cleared ended : Bool} (hs : step keep s (.handle a marked cleared ended)=some u) :
    Inv keep u := by
  have hp := hi.phase a
  rw [h₀] at hp
  obtain ⟨hmarked,hpoll⟩ := handleResult_inv hi hp marked cleared
  simp only [step,h₀] at hs
  cases hs
  have hsame := same_if (c := (item.tracked||isSeen r)=true)
    (same_endInflight (handleResult s item marked cleared r).1 item ended)
  exact (hsame.inv hmarked).turn (Same.refl _) (hpoll.grow hsame.grows)

theorem Inv.step {e : Event} (hi : Inv keep s) (hs : Intake.step keep s e=some u) :
    Inv keep u := by
  cases e with
  | advance n =>
    simp only [Intake.step] at hs
    split_ifs at hs with hle
    cases hs
    exact advance_inv hi hle
  | arrive ch uid mail =>
    simp only [Intake.step] at hs
    cases hm : s.mailbox ch uid with
    | some old => simp [hm] at hs
    | none =>
      simp only [hm] at hs
      cases hs
      exact arrive_inv hi hm
  | sweep cutoff =>
    simp only [Intake.step] at hs
    split_ifs at hs with hc
    cases hs
    exact sweep_inv hi hc
  | poll a ch project validity uids =>
    simp only [Intake.step] at hs
    cases h₀ : s.phase a <;> simp only [h₀,reduceCtorEq] at hs
    cases uids with
    | none =>
      cases hs
      exact (same_pruneInflight s ch validity).inv hi
    | some uids =>
      dsimp only at hs
      split_ifs at hs with hl
      cases hs
      exact poll_inv hi hl.1
  | next a begun =>
    simp only [Intake.step] at hs
    cases h₀ : s.phase a <;> simp only [h₀,reduceCtorEq] at hs
    rename_i p
    have hp := hi.phase a
    rw [h₀] at hp
    cases hq : p.queue with
    | nil => simp [hq] at hs
    | cons u rest =>
      simp only [hq] at hs
      cases hs
      exact next_inv hi hp hq
  | fetch a how ended =>
    simp only [Intake.step] at hs
    cases h₀ : s.phase a <;> simp only [h₀,reduceCtorEq] at hs
    rename_i item
    have hp := hi.phase a
    rw [h₀] at hp
    obtain ⟨mail,hm,rfl⟩ := Option.map_eq_some_iff.mp hs
    exact fetch_inv hi hp hm
  | log a logged =>
    simp only [Intake.step] at hs
    cases h₀ : s.phase a <;> simp only [h₀,reduceCtorEq] at hs
    cases hs
    have hp := hi.phase a
    rw [h₀] at hp
    cases logged with
    | true => exact hi.turn (Same.refl s) hp
    | false => exact hi.turn (Same.refl s) hp.1
  | push a project mail =>
    simp only [Intake.step] at hs
    cases h₀ : s.phase a <;> simp only [h₀,reduceCtorEq] at hs
    cases hs
    refine hi.turn (Same.refl s) ?_
    split_ifs <;> trivial
  | begin a =>
    simp only [Intake.step] at hs
    cases h₀ : s.phase a <;> simp only [h₀,reduceCtorEq] at hs
    cases hs
    have hp := hi.phase a
    rw [h₀] at hp
    exact hi.turn (Same.refl s) hp
  | claim a =>
    have hclaim := hs
    simp only [Intake.step] at hs
    cases h₀ : s.phase a <;> simp only [h₀,reduceCtorEq] at hs
    exact claim_inv hi h₀ hclaim
  | bump a =>
    have hbump := hs
    simp only [Intake.step] at hs
    cases h₀ : s.phase a <;> simp only [h₀,reduceCtorEq] at hs
    exact bump_inv hi h₀ hbump
  | commit a told stopping path =>
    simp only [Intake.step] at hs
    cases h₀ : s.phase a <;> simp only [h₀,reduceCtorEq] at hs
    cases hs
    exact hi.commit h₀
  | fail a permanent stopping path =>
    simp only [Intake.step] at hs
    have hp := hi.phase a
    cases h₀ : s.phase a <;> simp only [h₀,reduceCtorEq] at hs <;> rw [h₀] at hp <;> cases hs
    · exact fail_inv hi hp
    · exact fail_inv hi hp
    · exact fail_inv hi hp
    · exact fail_inv hi hp.1
  | handle a marked cleared ended =>
    have hhandle := hs
    simp only [Intake.step] at hs
    cases h₀ : s.phase a <;> simp only [h₀,reduceCtorEq] at hs
    exact handle_inv hi h₀ hhandle
  | finish a noted =>
    simp only [Intake.step] at hs
    cases h₀ : s.phase a <;> simp only [h₀,reduceCtorEq] at hs
    rw [ite_eq_iff] at hs
    have hs := (hs.resolve_right (by simp)).2
    cases hs
    exact hi.turn (same_if ⟨rfl,rfl,rfl,rfl,rfl,rfl⟩) trivial
  | answer a =>
    simp only [Intake.step] at hs
    cases h₀ : s.phase a <;> simp only [h₀,reduceCtorEq] at hs
    rename_i key accepted
    have hp := hi.phase a
    rw [h₀] at hp
    have hidle : Inv keep (setPhase s a .idle) := hi.turn (Same.refl s) trivial
    cases hs
    cases accepted with
    | false => exact hidle
    | true =>
      exact hidle.accept ((hp rfl).grow ⟨Nat.le_refl _,fun _ _ _ hm => hm,fun _ he => he⟩)
  | crash a =>
    simp only [Intake.step] at hs
    cases hs
    exact hi.rollback trivial fun _ _ h => by cases h

end steps

theorem inv_run {es : List Event} (h : Run (step keep) (fun _ _ => True) start es s) :
    Inv keep s :=
  h.inv (Inv keep) (fun _ _ _ hi _ hs => hi.step hs) inv_start

section seeded

def seededMail : Mail := ⟨10,true,"mid:a"⟩

end seeded

end Kitp.Intake
