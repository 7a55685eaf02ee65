import Kitp.Lib.Runs
import Kitp.SessionTouches

/-! Revocations are final, and a logout token is good once. -/
namespace Kitp.SessionTouches

open Kitp.Runs

variable {ι ρ : Type} [DecidableEq ι] [DecidableEq ρ] {c : Config} {s t : State ι ρ}
  {e : Event ι ρ} {k : Nat} {f : Flight ι ρ} {i : ι} {tokens : String → ℚ}

theorem gates_ok {found : Option Found} {now : ℚ} {u : User} (h : gates c found now=.ok u) :
    ∃ f, found=some f∧f.revoked=none∧now-f.created ≤ c.absoluteCap∧now-f.lastSeen ≤ c.idleTTL := by
  unfold gates at h
  cases found with
  | none => cases h
  | some f =>
    dsimp only at h
    split at h
    · cases h
    · split at h
      · cases h
      · split at h
        · cases h
        · rename_i hrevoked hcap hidle
          exact ⟨f,rfl,not_not.mp hrevoked,not_lt.mp hcap,not_lt.mp hidle⟩

theorem gates_idle {found : Option Found} {now : ℚ}
    (h : gates c found now=.error (.expired .idle)) :
    ∃ f, found=some f∧f.revoked=none∧c.idleTTL<now-f.lastSeen := by
  unfold gates at h
  cases found with
  | none => cases h
  | some f =>
    dsimp only at h
    split at h
    · cases h
    · split at h
      · cases h
      · split at h
        · rename_i hrevoked _ hidle
          exact ⟨f,rfl,not_not.mp hrevoked,hidle⟩
        · cases h

omit [DecidableEq ι] [DecidableEq ρ] in
theorem find_row {found : Found} (h : find s i=some found) :
    ∃ row, s.rows i=some row∧found.lastSeen=row.lastSeen∧
      (found.revoked=none → row.revoked=none) := by
  unfold find at h
  obtain ⟨row,hrow,haccount⟩ := Option.bind_eq_some_iff.mp h
  obtain ⟨account,-,rfl⟩ := Option.map_eq_some_iff.mp haccount
  refine ⟨row,hrow,rfl,?_⟩
  dsimp only
  split
  · intro hnone
    cases hnone
  · exact id

/-- The session's row is revoked. -/
def Over (s : State ι ρ) (i : ι) : Prop := ∃ row, s.rows i=some row∧row.revoked≠none

structure Final (c : Config) (s : State ι ρ) : Prop where
  covered : ∀ i, s.covered i=true → Over s i
  matched : ∀ k f, s.flights k=some f → ∀ i, f.matched i=true → s.rows i≠none
  reading : ∀ k r, s.lookups k=some r → r.covered=true →
    ∀ found, r.found=some found → found.revoked≠none
  log : ∀ o∈s.log, (o.reading.covered=true → ∀ u, o.result≠.ok u)∧
    ∀ u, o.result=.ok u → ∃ found, o.reading.found=some found∧o.now-found.created ≤ c.absoluteCap

omit [DecidableEq ι] [DecidableEq ρ] in
theorem Final.moved (h : Final c s) (hcovered : ∀ i, t.covered i=true → Over t i)
    (hrows : ∀ i, s.rows i≠none → t.rows i≠none)
    (hflights : ∀ k f, t.flights k=some f → (∃ j g, s.flights j=some g∧g.matched=f.matched)∨
      ∀ i, f.matched i=true → t.rows i≠none)
    (hlookups : ∀ k r, t.lookups k=some r → s.lookups k=some r)
    (hlog : t.log=s.log) : Final c t := by
  refine ⟨hcovered,?_,?_,hlog ▸ h.log⟩
  · intro k f hf i hi
    rcases hflights k f hf with ⟨j,g,hg,hsame⟩ | hnew
    · exact hrows i (h.matched j g hg i (hsame ▸ hi))
    · exact hnew i hi
  · intro k r hr
    exact h.reading k r (hlookups k r hr)

omit [DecidableEq ι] [DecidableEq ρ] in
theorem setFlight_flights {g : Option (Flight ι ρ)} {j : Nat} {f : Flight ι ρ}
    (h : (setFlight s k g).flights j=some f) : j=k∧g=some f∨s.flights j=some f := by
  have hupdate : Function.update s.flights k g j=some f := h
  by_cases hj : j=k
  · rw [hj,Function.update_self] at hupdate
    exact Or.inl ⟨hj,hupdate⟩
  · rw [Function.update_of_ne hj] at hupdate
    exact Or.inr hupdate

omit [DecidableEq ι] [DecidableEq ρ] in
/-- A revocation ends each of its rows. -/
theorem endSessions_over (hi : f.matched i=true) (hrow : s.rows i≠none) :
    Over (endSessions s f) i := by
  obtain ⟨row,hrow⟩ := Option.ne_none_iff_exists'.mp hrow
  unfold Over endSessions
  dsimp only
  rw [hrow,Option.map_some]
  refine ⟨_,rfl,?_⟩
  by_cases hnone : row.revoked=none
  · rw [if_pos ⟨hi,hnone⟩]
    exact fun hsome => by cases hsome
  · rw [if_neg fun hboth => hnone hboth.2]
    exact hnone

omit [DecidableEq ι] [DecidableEq ρ] in
theorem Over.endSessions (h : Over s i) : Over (endSessions s f) i := by
  obtain ⟨row,hrow,hrevoked⟩ := h
  unfold Over SessionTouches.endSessions
  dsimp only
  rw [hrow,Option.map_some,if_neg fun hboth => hrevoked hboth.2]
  exact ⟨row,rfl,hrevoked⟩

omit [DecidableEq ρ] in
theorem insertRow_rows {id : ι} {user : Int} {sub sid : String} {now : ℚ} {row : Row}
    (h : s.rows i=some row) : (insertRow s id user sub sid now).rows i=some row := by
  unfold insertRow
  cases hid : s.rows id with
  | some old => exact h
  | none =>
    have hne : i≠id := by
      rintro rfl
      rw [hid] at h
      cases h
    exact (Function.update_of_ne hne _ _).trans h

/-- What a run is promised: the clock doesn't go back; a session's id is known once its row is there;
a logout token, which has one expiry, is taken until then; and no such call is still under way when
its token is reaped, some minutes after. -/
def Ok (tokens : String → ℚ) (s : State ι ρ) (e : Event ι ρ) : Prop :=
  s.now≤e.time∧
    match e with
    | .call _ (.revoke _ id) _ => s.rows id≠none
    | .call _ (.revokeOIDC _ _ jti expires) now => jti=""∨expires=tokens jti∧now≤expires
    | .reap now => ∀ k f jti expires, s.flights k=some f → f.work=.revokeOIDC jti expires →
        jti≠"" → now≤expires
    | _ => True

/-- A call with the token is under way. -/
def Under (s : State ι ρ) (jti : String) (expires : ℚ) : Prop :=
  ∃ k f, s.flights k=some f∧f.work=.revokeOIDC jti expires

/-- A token has ended nothing yet, or is recorded, or is past and gone. -/
structure Once (tokens : String → ℚ) (s : State ι ρ) : Prop where
  expiry : ∀ jti expires, jti≠"" → Under s jti expires → expires=tokens jti
  spent : ∀ jti, jti≠"" → s.ended jti=0∨s.ended jti=1∧
    (s.jtis jti=some (tokens jti)∨tokens jti < s.now∧∀ expires, ¬Under s jti expires)

omit [DecidableEq ι] [DecidableEq ρ] in
theorem Once.moved (h : Once tokens s)
    (hunder : ∀ jti expires, Under t jti expires → Under s jti expires)
    (hjtis : t.jtis=s.jtis) (hended : t.ended=s.ended) (hnow : s.now≤t.now) : Once tokens t := by
  refine ⟨fun jti expires hne hu => h.expiry jti expires hne (hunder jti expires hu),?_⟩
  intro jti hne
  rw [hjtis,hended]
  rcases h.spent jti hne with hzero | ⟨hone,hrecorded | ⟨hpast,hgone⟩⟩
  · exact Or.inl hzero
  · exact Or.inr ⟨hone,Or.inl hrecorded⟩
  · exact Or.inr ⟨hone,Or.inr ⟨hpast.trans_le hnow,fun expires hu => hgone expires
      (hunder jti expires hu)⟩⟩

omit [DecidableEq ι] [DecidableEq ρ] in
theorem ok_clock (h : Ok tokens s e) : Ok tokens { s with now := e.time } e := ⟨le_refl _,h.2⟩

end Kitp.SessionTouches
