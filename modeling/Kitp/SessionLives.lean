import Kitp.SessionTouchRuns

/-! How long a session lives, whatever runs against it. -/
namespace Kitp.SessionTouches

open Kitp.Runs

variable {ι ρ : Type} [DecidableEq ι] [DecidableEq ρ] {c : Config} {s t : State ι ρ}
  {e : Event ι ρ} {tokens : String → ℚ}

/-- What a run is promised, and that no touch waits, in a batch or a flush, for longer than an
interval after its lookup. -/
def Timely (c : Config) (tokens : String → ℚ) (s : State ι ρ) (e : Event ι ρ) : Prop :=
  Ok tokens s e∧∀ i x, Holds s i x → e.time≤x.first+c.touchInterval

theorem act_sound (h : Sound c s) (hnow : s.now=e.time) (hok : Timely c tokens s e)
    (hs : act c s e=some t) : Sound c t := by
  have hintime : ∀ i x, Holds s i x → s.now≤x.first+c.touchInterval := hnow ▸ hok.2
  have hsound : Fresh c t → (∀ k f, t.flights k=some f → s.flights k=some f∨f.Sound c t) →
      Sound c t := by
    intro hfresh hflights
    refine ⟨hfresh,?_⟩
    intro k f hf
    rcases hflights k f hf with hold | hnew
    · exact (h.flights k f hold).act (act_now hs) hs
    · exact hnew
  have hsame : t.flights=s.flights →
      ∀ k f, t.flights k=some f → s.flights k=some f∨f.Sound c t :=
    fun hflights k f hf => Or.inl (hflights ▸ hf)
  have hfree : ∀ {k}, s.flights k=none →
      ∀ f ids begun, s.flights k=some f → f.work≠.touch ids begun := by
    intro k hk f ids begun hf
    rw [hk] at hf
    cases hf
  cases e with
  | account user account now =>
    rw [← Option.some.inj hs] at hsound hsame ⊢
    exact hsound (h.fresh.same rfl rfl rfl rfl rfl rfl rfl rfl) (hsame rfl)
  | call k call now =>
    simp only [act] at hs
    split at hs
    · rw [← Option.some.inj hs] at hsound hsame ⊢
      exact hsound h.fresh (hsame rfl)
    · split at hs
      · rename_i hk
        rw [← Option.some.inj hs] at hsound ⊢
        refine hsound (setFlight_fresh h.fresh (hfree hk) ?_) ?_
        · intro f ids begun hf hwork
          rw [← Option.some.inj hf] at hwork
          cases call <;> cases hwork
        · intro j f hf
          rcases setFlight_flights hf with ⟨-,hnew⟩ | hstill
          · right
            rw [← Option.some.inj hnew]
            refine ⟨hnow.ge,?_⟩
            cases call with
            | revoke replica id =>
              have hrow : s.rows id≠none := hok.1.2
              obtain ⟨row,hrow⟩ := Option.ne_none_iff_exists'.mp hrow
              by_cases hrevoked : row.revoked=none
              · refine Or.inr ⟨?_,hok.1.2⟩
                dsimp only
                unfold matched
                rw [hrow]
                simp [hrevoked,Call.wants]
              · exact Or.inl ⟨row,hrow,hrevoked⟩
            | create id user sub sid => trivial
            | revokeAll user => trivial
            | revokeOIDC sub sid jti expires => trivial
          · exact Or.inl hstill
      · cases hs
  | take k replica now =>
    simp only [act] at hs
    split at hs
    · rename_i hk
      rw [← Option.some.inj hs] at hsound ⊢
      refine hsound (take_fresh h.fresh hk) ?_
      intro j f hf
      rcases setFlight_flights hf with ⟨-,hnew⟩ | hstill
      · right
        rw [← Option.some.inj hnew]
        exact ⟨hnow.ge,fun hbegun => by cases hbegun⟩
      · exact Or.inl hstill
    · cases hs
  | write k now =>
    simp only [act] at hs
    split at hs
    · rename_i ids now' m hk
      rw [← Option.some.inj hs] at hsound ⊢
      refine hsound (write_fresh h.fresh hk) ?_
      intro j f hf
      rcases setFlight_flights hf with ⟨-,hnew⟩ | hstill
      · right
        rw [← Option.some.inj hnew]
        refine ⟨hnow.ge,?_⟩
        intro _ i x hx
        have hheld : Holds s i x := Or.inr ⟨k,_,ids,false,hk,rfl,hx⟩
        obtain ⟨p,hp,hle⟩ := h.fresh.held i x hheld
        have hclock : s.now=now := hnow
        exact ⟨hle.trans ((h.fresh.head_le hp).trans hclock.le),hok.2 i x hheld⟩
      · exact Or.inl hstill
    · cases hs
  | commit k now =>
    obtain ⟨f,hf,ht⟩ := Option.bind_eq_some_iff.mp hs
    obtain ⟨hfresh,hflights⟩ := commit_sound h hf hintime ht
    exact hsound hfresh hflights
  | fail k now =>
    obtain ⟨f,hf,ht⟩ := Option.bind_eq_some_iff.mp hs
    refine hsound (abort_fresh h.fresh hf ht) ?_
    intro j g hg
    unfold abort at ht
    split at ht
    · rw [← Option.some.inj ht] at hg
      rcases setFlight_flights hg with ⟨-,hnone⟩ | hstill
      · cases hnone
      · exact Or.inl hstill
    · cases ht
    · rw [← Option.some.inj ht] at hg
      rcases setFlight_flights hg with ⟨-,hnone⟩ | hstill
      · cases hnone
      · exact Or.inl hstill
  | forget k now =>
    simp only [act] at hs
    split at hs
    · rename_i replica id now' m hk
      rw [← Option.some.inj hs] at hsound ⊢
      refine hsound (forget_fresh h.fresh (h.flights k _ hk).2 ?_ rfl) ?_
      · intro f ids begun hf hwork
        rw [hk] at hf
        rw [← Option.some.inj hf] at hwork
        cases hwork
      · intro j f hf
        rcases setFlight_flights hf with ⟨-,hnone⟩ | hstill
        · cases hnone
        · exact Or.inl hstill
    · cases hs
  | read k replica id now =>
    simp only [act] at hs
    split at hs
    · have hclock : now=s.now := hnow.symm
      subst hclock
      rw [← Option.some.inj hs] at hsound hsame ⊢
      exact hsound (read_fresh h.fresh hintime) (hsame rfl)
    · cases hs
  | decide k now =>
    obtain ⟨r,hr,rfl⟩ := Option.map_eq_some_iff.mp hs
    have hclock : now=s.now := hnow.symm
    subst hclock
    refine hsound (answer_fresh h.fresh hr) (hsame ?_)
    unfold answer
    dsimp only
    split <;> rfl
  | reap now =>
    rw [← Option.some.inj hs] at hsound hsame ⊢
    exact hsound (h.fresh.same rfl rfl rfl rfl rfl rfl rfl rfl) (hsame rfl)

theorem step_sound (h : Sound c s) (hok : Timely c tokens s e) (hs : step c s e=some t) :
    Sound c t := by
  have hfresh : Fresh c { s with now := e.time } :=
    h.fresh.moved hok.1.1 rfl (fun i => ⟨id,fun row hrow => ⟨row,hrow,rfl,id⟩⟩) (fun _ _ hx => hx)
      (fun _ _ hx => Or.inl hx) (fun _ hd => hd) (fun _ _ hr => hr) rfl
  have hflights : ∀ k f, s.flights k=some f → f.Sound c { s with now := e.time } := by
    intro k f hf
    obtain ⟨htime,hwork⟩ := h.flights k f hf
    refine ⟨htime.trans hok.1.1,?_⟩
    cases hw : f.work <;> rw [hw] at hwork <;> exact hwork
  exact act_sound ⟨hfresh,hflights⟩ rfl ⟨ok_clock hok.1,hok.2⟩ hs

omit [DecidableEq ι] [DecidableEq ρ] in
theorem start_sound (c : Config) : Sound c (start : State ι ρ) := by
  have hfree : ∀ i x, ¬Holds (start : State ι ρ) i x := by
    rintro i x (⟨r,hr⟩ | ⟨k,f,ids,begun,hf,-⟩)
    · cases hr
    · cases hf
  refine ⟨⟨?_,?_,?_,?_,?_,?_⟩,?_⟩
  · exact fun i p hp => absurd hp List.not_mem_nil
  · exact fun i _ => ⟨rfl,hfree i⟩
  · exact fun i x hx => absurd hx (hfree i x)
  · exact fun i row hrow => by cases hrow
  · exact fun k r hr => by cases hr
  · exact fun o ho => absurd ho List.not_mem_nil
  · exact fun k f hf => by cases hf

def known : State String Unit :=
  { (start : State String Unit) with
    accounts := Function.update (fun _ => none) 1 (some ⟨"Ada",none⟩) }

def creating : State String Unit :=
  setFlight known 0 (some ⟨.create "s" 1 "" "",0,matched known (.create "s" 1 "" "")⟩)

/-- A session made at once. -/
def made : State String Unit := setFlight (insertRow creating "s" 1 "" "" 0) 0 none

def asked : Reading String Unit :=
  ⟨(),"s",some ⟨⟨1,"Ada"⟩,0,0,none⟩,6,[0],false,false⟩

/-- It is looked up after six seconds, four before it is idle. -/
def asking : State String Unit :=
  { made with now := 6, lookups := Function.update made.lookups 0 (some asked) }

def used : State String Unit := { asking with
  lookups := Function.update asking.lookups 0 none
  log := [⟨asked,6,.ok ⟨1,"Ada"⟩⟩]
  pending := Function.update (fun _ _ => none) () (Function.update (fun _ => none) "s" (some ⟨6,6⟩))
  seen := Function.update asking.seen "s" [6,0] }

def flushing : State String Unit :=
  setFlight { used with now := 7, pending := Function.update used.pending () (fun _ => none) } 1
    (some ⟨.touch (used.pending ()) false,7,fun _ => false⟩)

/-- The flush fails, and the touch is gone. -/
def lost : State String Unit :=
  setFlight { flushing with dropped := fun i => flushing.dropped i∨(used.pending () i).isSome } 1 none

def reasked : Reading String Unit :=
  ⟨(),"s",some ⟨⟨1,"Ada"⟩,0,0,none⟩,12,[6,0],false,true⟩

def again : State String Unit :=
  { lost with now := 12, lookups := Function.update lost.lookups 2 (some reasked) }

end Kitp.SessionTouches
