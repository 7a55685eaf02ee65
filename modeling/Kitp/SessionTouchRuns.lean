import Mathlib.Data.List.Chain
import Mathlib.Tactic.Linarith
import Kitp.SessionEnds

/-! How far a row's last use lags behind the lookups of its session. -/
namespace Kitp.SessionTouches

open Kitp.Runs

variable {ι ρ : Type} [DecidableEq ι] [DecidableEq ρ] {c : Config} {s t : State ι ρ}
  {e : Event ι ρ} {k : Nat} {f : Flight ι ρ} {i : ι} {x : Touch} {tokens : String → ℚ}

/-- The touch waits in some replica's batch or in a flush under way. -/
def Holds (s : State ι ρ) (i : ι) (x : Touch) : Prop :=
  (∃ r, s.pending r i=some x)∨
    ∃ k f ids begun, s.flights k=some f∧f.work=.touch ids begun∧ids i=some x

/-- Lookups, the newest first, each within `gap` of the one before. -/
def Steady (gap : ℚ) (seen : List ℚ) : Prop := seen.IsChain fun later earlier => later≤earlier+gap

/-- Where every use before the last interval is within an interval of `last`, and so is the first
of all, a steady session's `last` is recent. -/
theorem steady_recent {gap interval now last prev : ℚ} {seen : List ℚ} (hgap : 0≤gap)
    (hne : seen≠[]) (hprev : now-interval≤prev)
    (hhead : ∀ p, seen.head?=some p → prev≤p+gap) (hsteady : Steady gap seen)
    (hsettled : ∀ p∈seen, p<now-interval → p-interval≤last)
    (hfirst : ∀ p, seen.getLast?=some p → p-interval≤last) : now≤last+gap+2*interval := by
  induction seen generalizing prev with
  | nil => exact absurd rfl hne
  | cons p rest ih =>
    have hp := hhead p rfl
    by_cases hold : p<now-interval
    · have hlast := hsettled p List.mem_cons_self hold
      linarith
    · have hrecent : now-interval≤p := not_lt.mp hold
      cases rest with
      | nil =>
        have hlast := hfirst p rfl
        have hnow : now≤last+2*interval := by linarith
        linarith only [hnow,hgap]
      | cons q rest =>
        obtain ⟨hpq,hrest⟩ := List.isChain_cons_cons.mp hsteady
        refine ih (List.cons_ne_nil q rest) hrecent ?_ hrest
          (fun r hr => hsettled r (List.mem_cons_of_mem p hr)) ?_
        · intro r hr
          rw [← Option.some.inj hr]
          exact hpq
        · intro r hr
          exact hfirst r (by rwa [List.getLast?_cons_cons])

/-- How recent a session's last use is, when it was read. -/
structure Reading.Recent (c : Config) (r : Reading ι ρ) (found : Found) : Prop where
  high : ∃ p, r.seen.head?=some p∧p ≤ r.time∧found.lastSeen≤p+c.touchInterval
  low : found.revoked=none → r.dropped=false → ∀ gap p, r.seen.head?=some p →
    Steady gap r.seen → r.time≤p+gap → r.time≤found.lastSeen+gap+2*c.touchInterval

structure Outcome.Timely (c : Config) (o : Outcome ι ρ) : Prop where
  ok : ∀ u, o.result=.ok u →
    ∃ p, o.reading.seen.head?=some p∧o.now≤p+c.idleTTL+c.touchInterval
  idle : o.result=.error (.expired .idle) → o.reading.dropped=false → ∀ gap p,
    o.reading.seen.head?=some p → Steady gap o.reading.seen → o.now≤p+gap →
    c.idleTTL<gap+2*c.touchInterval+(o.now-o.reading.time)

/-- A use that no touch waits for any more is on the row, to within an interval. -/
structure Row.Fresh (c : Config) (s : State ι ρ) (i : ι) (row : Row) : Prop where
  high : ∃ p, (s.seen i).head?=some p∧row.lastSeen≤p+c.touchInterval
  first : ∀ p, (s.seen i).getLast?=some p → p-c.touchInterval ≤ row.lastSeen
  low : row.revoked=none → s.dropped i=false → ∀ p∈s.seen i,
    (∃ x, Holds s i x∧x.first≤p)∨p-c.touchInterval ≤ row.lastSeen

structure Fresh (c : Config) (s : State ι ρ) : Prop where
  past : ∀ i, ∀ p∈s.seen i, p ≤ s.now
  unknown : ∀ i, s.rows i=none → s.seen i=[]∧∀ x, ¬Holds s i x
  held : ∀ i x, Holds s i x → ∃ p, (s.seen i).head?=some p∧x.first≤p
  row : ∀ i row, s.rows i=some row → row.Fresh c s i
  reading : ∀ k r, s.lookups k=some r → r.time ≤ s.now∧
    ∀ found, r.found=some found → s.rows r.id≠none∧r.Recent c found
  log : ∀ o∈s.log, o.Timely c

/-- What a statement under way may rely on. -/
def Flight.Sound (c : Config) (s : State ι ρ) (f : Flight ι ρ) : Prop :=
  f.now ≤ s.now∧
    match f.work with
    | .revoke _ id => Over s id∨f.matched id=true∧s.rows id≠none
    | .touch ids begun => begun=true → ∀ i x, ids i=some x →
        x.first≤f.now∧f.now≤x.first+c.touchInterval
    | .forget _ id => Over s id
    | _ => True

omit [DecidableEq ι] [DecidableEq ρ] in
theorem Fresh.head_le {p : ℚ} (h : Fresh c s) (hp : (s.seen i).head?=some p) : p ≤ s.now :=
  h.past i p (List.mem_of_head? hp)

omit [DecidableEq ι] [DecidableEq ρ] in
/-- A change that leaves the uses alone, and loses a touch only of a session that is over or known
to have lost one. -/
theorem Fresh.moved (h : Fresh c s) (hnow : s.now≤t.now) (hseen : t.seen=s.seen)
    (hrows : ∀ i, (s.rows i=none → t.rows i=none)∧∀ row, s.rows i=some row →
      ∃ row', t.rows i=some row'∧row'.lastSeen=row.lastSeen∧(row'.revoked=none → row.revoked=none))
    (hnew : ∀ i x, Holds t i x → Holds s i x)
    (hold : ∀ i x, Holds s i x → Holds t i x∨Over t i∨t.dropped i=true)
    (hdropped : ∀ i, t.dropped i=false → s.dropped i=false)
    (hlookups : ∀ k r, t.lookups k=some r → s.lookups k=some r) (hlog : t.log=s.log) :
    Fresh c t := by
  have hback : ∀ i row', t.rows i=some row' → ∃ row, s.rows i=some row∧
      row'.lastSeen=row.lastSeen∧(row'.revoked=none → row.revoked=none) := by
    intro i row' hrow'
    cases hrow : s.rows i with
    | none =>
      rw [(hrows i).1 hrow] at hrow'
      cases hrow'
    | some row =>
      obtain ⟨row'',hrow'',hlast,hrevoked⟩ := (hrows i).2 row hrow
      rw [hrow'] at hrow''
      rw [Option.some.inj hrow'']
      exact ⟨row,rfl,hlast,hrevoked⟩
  refine ⟨?_,?_,?_,?_,?_,hlog ▸ h.log⟩
  · intro i p hp
    rw [hseen] at hp
    exact (h.past i p hp).trans hnow
  · intro i hi
    have hnone : s.rows i=none := by
      cases hrow : s.rows i with
      | none => rfl
      | some row =>
        obtain ⟨row',hrow',-⟩ := (hrows i).2 row hrow
        rw [hi] at hrow'
        cases hrow'
    rw [hseen]
    exact ⟨(h.unknown i hnone).1,fun x hx => (h.unknown i hnone).2 x (hnew i x hx)⟩
  · intro i x hx
    rw [hseen]
    exact h.held i x (hnew i x hx)
  · intro i row' hrow'
    obtain ⟨row,hrow,hlast,hrevoked⟩ := hback i row' hrow'
    have hfresh := h.row i row hrow
    refine ⟨?_,?_,?_⟩
    · rw [hseen,hlast]
      exact hfresh.high
    · rw [hseen,hlast]
      exact hfresh.first
    · intro hnone hkept p hp
      rw [hseen] at hp
      rw [hlast]
      rcases hfresh.low (hrevoked hnone) (hdropped i hkept) p hp with ⟨x,hx,hle⟩ | hsettled
      · rcases hold i x hx with hstill | ⟨row'',hrow'',hover⟩ | hlost
        · exact Or.inl ⟨x,hstill,hle⟩
        · rw [hrow'] at hrow''
          rw [← Option.some.inj hrow''] at hover
          exact absurd hnone hover
        · rw [hkept] at hlost
          cases hlost
      · exact Or.inr hsettled
  · intro k r hr
    obtain ⟨htime,hfound⟩ := h.reading k r (hlookups k r hr)
    refine ⟨htime.trans hnow,?_⟩
    intro found hf
    obtain ⟨hrow,hrecent⟩ := hfound found hf
    refine ⟨?_,hrecent⟩
    obtain ⟨row,hrow⟩ := Option.ne_none_iff_exists'.mp hrow
    obtain ⟨row',hrow',-⟩ := (hrows r.id).2 row hrow
    rw [hrow']
    exact Option.some_ne_none row'

omit [DecidableEq ι] [DecidableEq ρ] in
theorem holds_setFlight {g : Option (Flight ι ρ)} (h : Holds (setFlight s k g) i x) :
    Holds s i x∨∃ f ids begun, g=some f∧f.work=.touch ids begun∧ids i=some x := by
  rcases h with hpending | ⟨j,f,ids,begun,hf,hwork,hx⟩
  · exact Or.inl (Or.inl hpending)
  · rcases setFlight_flights hf with ⟨-,hnew⟩ | hold
    · exact Or.inr ⟨f,ids,begun,hnew,hwork,hx⟩
    · exact Or.inl (Or.inr ⟨j,f,ids,begun,hold,hwork,hx⟩)

omit [DecidableEq ι] [DecidableEq ρ] in
theorem setFlight_holds {g : Option (Flight ι ρ)} (h : Holds s i x) :
    Holds (setFlight s k g) i x∨
      ∃ f ids begun, s.flights k=some f∧f.work=.touch ids begun∧ids i=some x := by
  rcases h with hpending | ⟨j,f,ids,begun,hf,hwork,hx⟩
  · exact Or.inl (Or.inl hpending)
  · by_cases hj : j=k
    · subst hj
      exact Or.inr ⟨f,ids,begun,hf,hwork,hx⟩
    · have hstill : (setFlight s k g).flights j=some f := by
        unfold setFlight
        dsimp only
        rw [Function.update_of_ne hj,hf]
      exact Or.inl (Or.inr ⟨j,f,ids,begun,hstill,hwork,hx⟩)

omit [DecidableEq ι] [DecidableEq ρ] in
/-- A statement without touches begins or ends. -/
theorem setFlight_fresh {g : Option (Flight ι ρ)} (h : Fresh c s)
    (hold : ∀ f ids begun, s.flights k=some f → f.work≠.touch ids begun)
    (hnew : ∀ f ids begun, g=some f → f.work≠.touch ids begun) : Fresh c (setFlight s k g) := by
  refine h.moved (le_refl _) rfl (fun i => ⟨id,fun row hrow => ⟨row,hrow,rfl,id⟩⟩) ?_ ?_
    (fun _ hd => hd) (fun _ _ hr => hr) rfl
  · intro i x hx
    rcases holds_setFlight hx with hs | ⟨f,ids,begun,hg,hwork,-⟩
    · exact hs
    · exact absurd hwork (hnew f ids begun hg)
  · intro i x hx
    rcases setFlight_holds (k := k) (g := g) hx with ht | ⟨f,ids,begun,hf,hwork,-⟩
    · exact Or.inl ht
    · exact absurd hwork (hold f ids begun hf)

omit [DecidableEq ι] [DecidableEq ρ] in
theorem endSessions_fresh (h : Fresh c s) : Fresh c (endSessions s f) := by
  refine h.moved (le_refl _) rfl ?_ (fun _ _ hx => hx) (fun _ _ hx => Or.inl hx)
    (fun _ hd => hd) (fun _ _ hr => hr) rfl
  intro i
  refine ⟨fun hnone => Option.map_eq_none_iff.mpr hnone,?_⟩
  intro row hrow
  refine ⟨_,congrArg (Option.map _) hrow,?_⟩
  dsimp only
  split
  · exact ⟨rfl,fun hnone => by cases hnone⟩
  · exact ⟨rfl,id⟩

omit [DecidableEq ι] [DecidableEq ρ] in
theorem endOIDC_fresh {jti : String} {expires : ℚ} (h : Fresh c s) :
    Fresh c (endOIDC s f jti expires) := by
  have hended : Fresh c (endSessions s f) := endSessions_fresh h
  unfold endOIDC
  split
  · exact hended
  · split
    · exact hended.moved (le_refl _) rfl (fun i => ⟨id,fun row hrow => ⟨row,hrow,rfl,id⟩⟩)
        (fun _ _ hx => hx) (fun _ _ hx => Or.inl hx) (fun _ hd => hd) (fun _ _ hr => hr) rfl
    · exact h

omit [DecidableEq ρ] in
/-- A new session was last used when it was made. -/
theorem insertRow_fresh {id : ι} {user : Int} {sub sid : String} {now : ℚ} (h : Fresh c s)
    (hnow : now ≤ s.now) : Fresh c (insertRow s id user sub sid now) := by
  unfold insertRow
  cases hid : s.rows id with
  | some row => exact h
  | none =>
    obtain ⟨-,hfree⟩ := h.unknown id hid
    have htouch := c.touch_pos
    refine ⟨?_,?_,?_,?_,?_,h.log⟩
    · intro i p hp
      dsimp only at hp
      by_cases hi : i=id
      · rw [hi,Function.update_self] at hp
        rw [List.mem_singleton.mp hp]
        exact hnow
      · rw [Function.update_of_ne hi] at hp
        exact h.past i p hp
    · intro i hnone
      dsimp only at hnone ⊢
      by_cases hi : i=id
      · rw [hi,Function.update_self] at hnone
        cases hnone
      · rw [Function.update_of_ne hi] at hnone ⊢
        exact h.unknown i hnone
    · intro i x hx
      have hi : i≠id := fun hi => hfree x (hi ▸ hx)
      dsimp only
      rw [Function.update_of_ne hi]
      exact h.held i x hx
    · intro i row hrow
      dsimp only at hrow
      by_cases hi : i=id
      · subst hi
        rw [Function.update_self] at hrow
        rw [← Option.some.inj hrow]
        refine ⟨⟨now,?_,?_⟩,?_,?_⟩
        · dsimp only
          rw [Function.update_self]
          rfl
        · dsimp only
          linarith
        · intro p hp
          dsimp only at hp ⊢
          rw [Function.update_self] at hp
          have hp' : now=p := Option.some.inj hp
          rw [← hp']
          linarith
        · intro _ _ p hp
          dsimp only at hp ⊢
          rw [Function.update_self] at hp
          rw [List.mem_singleton.mp hp]
          right
          linarith
      · rw [Function.update_of_ne hi] at hrow
        obtain ⟨hhigh,hfirst,hlow⟩ := h.row i row hrow
        have hseen : Function.update s.seen id [now] i=s.seen i := Function.update_of_ne hi _ _
        refine ⟨?_,?_,?_⟩
        · dsimp only
          rw [hseen]
          exact hhigh
        · dsimp only
          rw [hseen]
          exact hfirst
        · dsimp only
          rw [hseen]
          exact hlow
    · intro k r hr
      obtain ⟨htime,hfound⟩ := h.reading k r hr
      refine ⟨htime,fun found hf => ⟨?_,(hfound found hf).2⟩⟩
      have hne : r.id≠id := fun hi => (hfound found hf).1 (hi ▸ hid)
      dsimp only
      rw [Function.update_of_ne hne]
      exact (hfound found hf).1

omit [DecidableEq ι] [DecidableEq ρ] in
/-- A flush that commits in time brings its rows up to an interval ago. -/
theorem touchRows_fresh {ids : ι → Option Touch} (h : Fresh c s)
    (hf : s.flights k=some f) (hwork : f.work=.touch ids true) (hsound : f.Sound c s)
    (hintime : ∀ i x, Holds s i x → s.now≤x.first+c.touchInterval) :
    Fresh c (setFlight (touchRows s ids f.now) k none) := by
  have hbegun : ∀ i x, ids i=some x → x.first≤f.now∧f.now≤x.first+c.touchInterval := by
    have hwhole := hsound.2
    rw [hwork] at hwhole
    exact hwhole rfl
  have hheld : ∀ {i x}, ids i=some x → Holds s i x := fun hx => Or.inr ⟨k,f,ids,true,hf,hwork,hx⟩
  have hfewer : ∀ i x, Holds (setFlight (touchRows s ids f.now) k none) i x → Holds s i x := by
    intro i x hx
    rcases holds_setFlight hx with hs | ⟨g,-,-,hg,-⟩
    · exact hs
    · cases hg
  have hnone : ∀ i, (setFlight (touchRows s ids f.now) k none).rows i=none → s.rows i=none :=
    fun i => Option.map_eq_none_iff.mp
  refine ⟨h.past,?_,?_,?_,?_,h.log⟩
  · intro i hi
    exact ⟨(h.unknown i (hnone i hi)).1,fun x hx => (h.unknown i (hnone i hi)).2 x (hfewer i x hx)⟩
  · intro i x hx
    exact h.held i x (hfewer i x hx)
  · intro i row' hrow'
    obtain ⟨row,hrow,rfl⟩ := Option.map_eq_some_iff.mp hrow'
    obtain ⟨hhigh,hfirst,hlow⟩ := h.row i row hrow
    cases hx : ids i with
    | some x =>
      obtain ⟨hle,hge⟩ := hbegun i x hx
      obtain ⟨p,hp,hxp⟩ := h.held i x (hheld hx)
      have hnow := hintime i x (hheld hx)
      -- whatever the session's uses, they are past, and the flush began an interval ago at most
      have hall : ∀ q∈s.seen i, q-c.touchInterval≤f.now := by
        intro q hq
        have hpast := h.past i q hq
        linarith
      rw [Option.isSome_some,if_pos rfl]
      refine ⟨⟨p,hp,?_⟩,?_,?_⟩
      · dsimp only
        linarith
      · intro q hq
        exact hall q (List.mem_of_getLast? hq)
      · intro _ _ q hq
        exact Or.inr (hall q hq)
    | none =>
      rw [Option.isSome_none,if_neg Bool.false_ne_true]
      refine ⟨hhigh,hfirst,?_⟩
      intro hrevoked hdropped q hq
      rcases hlow hrevoked hdropped q hq with ⟨x,hheld',hle⟩ | hsettled
      · left
        rcases hheld' with hpending | ⟨j,g,ids',begun,hg,hgwork,hgx⟩
        · exact ⟨x,Or.inl hpending,hle⟩
        · refine ⟨x,Or.inr ⟨j,g,ids',begun,?_,hgwork,hgx⟩,hle⟩
          have hj : j≠k := by
            rintro rfl
            rw [hf] at hg
            rw [← Option.some.inj hg,hwork] at hgwork
            injection hgwork with hids
            rw [← hids,hx] at hgx
            cases hgx
          exact (Function.update_of_ne hj _ _).trans hg
      · exact Or.inr hsettled
  · intro j r hr
    obtain ⟨htime,hfound⟩ := h.reading j r hr
    exact ⟨htime,fun found hfd => ⟨fun hi => (hfound found hfd).1 (hnone r.id hi),
      (hfound found hfd).2⟩⟩

omit [DecidableEq ι] [DecidableEq ρ] in
theorem Fresh.same (h : Fresh c s) (hnow : t.now=s.now) (hrows : t.rows=s.rows)
    (hpending : t.pending=s.pending) (hflights : t.flights=s.flights)
    (hlookups : t.lookups=s.lookups) (hseen : t.seen=s.seen) (hdropped : t.dropped=s.dropped)
    (hlog : t.log=s.log) : Fresh c t := by
  have hholds : ∀ i x, Holds t i x↔Holds s i x := by
    intro i x
    unfold Holds
    rw [hpending,hflights]
  refine h.moved hnow.ge hseen ?_ (fun i x => (hholds i x).mp)
    (fun i x hx => Or.inl ((hholds i x).mpr hx)) ?_ ?_ hlog
  · intro i
    rw [hrows]
    exact ⟨id,fun row hrow => ⟨row,hrow,rfl,id⟩⟩
  · intro i hd
    rwa [hdropped] at hd
  · intro k r hr
    rwa [hlookups] at hr

omit [DecidableEq ι] [DecidableEq ρ] in
theorem Row.Fresh.same {row : Row} (h : row.Fresh c s i) (hseen : t.seen i=s.seen i)
    (hdropped : t.dropped i=s.dropped i) (hholds : ∀ x, Holds s i x → Holds t i x) :
    row.Fresh c t i := by
  refine ⟨hseen ▸ h.high,hseen ▸ h.first,?_⟩
  rw [hseen,hdropped]
  intro hnone hkept p hp
  rcases h.low hnone hkept p hp with ⟨x,hx,hle⟩ | hsettled
  · exact Or.inl ⟨x,hholds x hx,hle⟩
  · exact Or.inr hsettled

omit [DecidableEq ι] [DecidableEq ρ] in
/-- A lookup reads a row that is behind the session's uses by an interval at most, or by what
still waits. -/
theorem read_fresh {replica : ρ} {id : ι} (h : Fresh c s)
    (hintime : ∀ i x, Holds s i x → s.now≤x.first+c.touchInterval) :
    Fresh c { s with lookups := Function.update s.lookups k (some
      ⟨replica,id,find s id,s.now,s.seen id,s.covered id,s.dropped id⟩) } := by
  refine ⟨h.past,h.unknown,h.held,?_,?_,h.log⟩
  · exact fun i row hrow => (h.row i row hrow).same rfl rfl fun _ hx => hx
  intro j r hr
  by_cases hj : j=k
  · subst hj
    have hr' : (⟨replica,id,find s id,s.now,s.seen id,s.covered id,s.dropped id⟩ : Reading ι ρ)=r :=
      Option.some.inj ((Function.update_self j _ s.lookups).symm.trans hr)
    rw [← hr']
    refine ⟨le_refl s.now,?_⟩
    intro found hfound
    obtain ⟨row,hrow,hlast,hrevoked⟩ := find_row hfound
    obtain ⟨⟨p,hp,hhigh⟩,hfirst,hlow⟩ := h.row id row hrow
    refine ⟨?_,⟨⟨p,hp,h.head_le hp,hlast ▸ hhigh⟩,?_⟩⟩
    · dsimp only
      rw [hrow]
      exact Option.some_ne_none row
    · intro hnone hdropped gap p' hp' hsteady hgap
      dsimp only at hp' hsteady hgap hdropped ⊢
      have hpast : p' ≤ s.now := h.head_le hp'
      rw [hlast]
      refine steady_recent (by linarith) ?_ (sub_le_self s.now c.touch_pos.le) ?_ hsteady ?_ hfirst
      · intro hempty
        rw [hempty] at hp'
        cases hp'
      · intro q hq
        rw [hp'] at hq
        rw [← Option.some.inj hq]
        exact hgap
      · intro q hq hbefore
        rcases hlow (hrevoked hnone) hdropped q hq with ⟨x,hx,hle⟩ | hsettled
        · have hnow := hintime id x hx
          linarith
        · exact hsettled
  · exact h.reading j r ((Function.update_of_ne hj _ s.lookups).symm.trans hr)

omit [DecidableEq ι] [DecidableEq ρ] in
/-- What a lookup answers, from a row as recent as it was. -/
theorem gates_timely {r : Reading ι ρ} {now : ℚ} (hnow : r.time≤now)
    (hrecent : ∀ found, r.found=some found → r.Recent c found) :
    Outcome.Timely c ⟨r,now,gates c r.found now⟩ := by
  refine ⟨?_,?_⟩
  · intro u hu
    obtain ⟨found,hfound,-,-,hidle⟩ := gates_ok hu
    obtain ⟨p,hp,-,hhigh⟩ := (hrecent found hfound).high
    exact ⟨p,hp,by dsimp only; linarith⟩
  · intro hidle hkept gap p hp hsteady hgap
    obtain ⟨found,hfound,hnone,hlate⟩ := gates_idle hidle
    dsimp only at hgap hp hsteady hkept ⊢
    have hread := (hrecent found hfound).low hnone hkept gap p hp hsteady (hnow.trans hgap)
    linarith

/-- A lookup that succeeds waits for a touch; one already waiting counts from its first lookup. -/
theorem use_fresh {replica : ρ} {id : ι} {first : ℚ} (h : Fresh c s) (hrow : s.rows id≠none)
    (hfirst : ((s.pending replica id).map Touch.first).getD s.now=first)
    (hnow : t.now=s.now) (hrows : t.rows=s.rows)
    (hpending : t.pending=Function.update s.pending replica
      (Function.update (s.pending replica) id (some ⟨s.now,first⟩)))
    (hflights : t.flights=s.flights) (hlookups : ∀ k r, t.lookups k=some r → s.lookups k=some r)
    (hseen : t.seen=Function.update s.seen id (s.now::s.seen id)) (hdropped : t.dropped=s.dropped)
    (hlog : ∀ o∈t.log, o.Timely c) : Fresh c t := by
  have hle : first ≤ s.now := by
    rw [← hfirst]
    cases hp : s.pending replica id with
    | none => exact le_refl _
    | some x =>
      obtain ⟨p,hhead,hxp⟩ := h.held id x (Or.inl ⟨replica,hp⟩)
      exact hxp.trans (h.head_le hhead)
  have hmine : t.seen id=s.now::s.seen id := by rw [hseen,Function.update_self]
  have hothers : ∀ {i}, i≠id → t.seen i=s.seen i := by
    intro i hi
    rw [hseen,Function.update_of_ne hi]
  have hnew : ∀ i x, Holds t i x → Holds s i x∨i=id∧x=⟨s.now,first⟩ := by
    rintro i x (⟨r,hr⟩ | hflight)
    · rw [hpending] at hr
      by_cases hsame : r=replica
      · rw [hsame,Function.update_self] at hr
        by_cases hi : i=id
        · rw [hi,Function.update_self] at hr
          exact Or.inr ⟨hi,(Option.some.inj hr).symm⟩
        · rw [Function.update_of_ne hi] at hr
          exact Or.inl (Or.inl ⟨replica,hr⟩)
      · rw [Function.update_of_ne hsame] at hr
        exact Or.inl (Or.inl ⟨r,hr⟩)
    · rw [hflights] at hflight
      exact Or.inl (Or.inr hflight)
  have htouch : Holds t id ⟨s.now,first⟩ := by
    refine Or.inl ⟨replica,?_⟩
    rw [hpending,Function.update_self,Function.update_self]
  have hold : ∀ i x, Holds s i x → Holds t i x∨i=id∧x.first=first := by
    rintro i x (⟨r,hr⟩ | hflight)
    · by_cases hsame : r=replica∧i=id
      · obtain ⟨rfl,rfl⟩ := hsame
        rw [hr] at hfirst
        exact Or.inr ⟨rfl,hfirst⟩
      · refine Or.inl (Or.inl ⟨r,?_⟩)
        rw [hpending]
        by_cases hreplica : r=replica
        · subst hreplica
          rw [Function.update_self,Function.update_of_ne fun hi => hsame ⟨rfl,hi⟩,hr]
        · rw [Function.update_of_ne hreplica,hr]
    · rw [← hflights] at hflight
      exact Or.inl (Or.inr hflight)
  refine ⟨?_,?_,?_,?_,?_,hlog⟩
  · intro i p hp
    rw [hnow]
    by_cases hi : i=id
    · rw [hi,hmine] at hp
      cases List.mem_cons.mp hp with
      | inl hhead => exact hhead.le
      | inr hrest => exact h.past id p hrest
    · rw [hothers hi] at hp
      exact h.past i p hp
  · intro i hi
    rw [hrows] at hi
    have hne : i≠id := fun hsame => hrow (hsame ▸ hi)
    rw [hothers hne]
    refine ⟨(h.unknown i hi).1,fun x hx => ?_⟩
    rcases hnew i x hx with hs | ⟨hsame,-⟩
    · exact (h.unknown i hi).2 x hs
    · exact hne hsame
  · intro i x hx
    by_cases hi : i=id
    · subst hi
      rw [hmine]
      refine ⟨s.now,rfl,?_⟩
      rcases hnew i x hx with hs | ⟨-,hx⟩
      · obtain ⟨p,hhead,hxp⟩ := h.held i x hs
        exact hxp.trans (h.head_le hhead)
      · rw [hx]
        exact hle
    · rw [hothers hi]
      rcases hnew i x hx with hs | ⟨hsame,-⟩
      · exact h.held i x hs
      · exact absurd hsame hi
  · intro i row hr
    rw [hrows] at hr
    have hfresh := h.row i row hr
    by_cases hi : i=id
    · subst hi
      obtain ⟨⟨p,hp,hhigh⟩,hlast,hlow⟩ := hfresh
      refine ⟨?_,?_,?_⟩
      · rw [hmine]
        have hpast := h.head_le hp
        exact ⟨s.now,rfl,by linarith⟩
      · rw [hmine]
        intro q hq
        refine hlast q ?_
        cases hseen' : s.seen i with
        | nil =>
          rw [hseen'] at hp
          cases hp
        | cons a rest =>
          rwa [hseen',List.getLast?_cons_cons] at hq
      · rw [hmine,hdropped]
        intro hnone hkept q hq
        cases List.mem_cons.mp hq with
        | inl hhead => exact Or.inl ⟨_,htouch,hhead ▸ hle⟩
        | inr hrest =>
          rcases hlow hnone hkept q hrest with ⟨x,hx,hxq⟩ | hsettled
          · left
            rcases hold i x hx with ht | ⟨-,hsame⟩
            · exact ⟨x,ht,hxq⟩
            · exact ⟨_,htouch,hsame ▸ hxq⟩
          · exact Or.inr hsettled
    · refine hfresh.same (hothers hi) (congrFun hdropped i) fun x hx => ?_
      rcases hold i x hx with ht | ⟨hsame,-⟩
      · exact ht
      · exact absurd hsame hi
  · intro k r hr
    rw [hnow,hrows]
    exact h.reading k r (hlookups k r hr)

/-- An answer is a use of the session if it is one that lets in. -/
theorem answer_fresh {r : Reading ι ρ} (h : Fresh c s) (hr : s.lookups k=some r) :
    Fresh c (answer c s k r s.now) := by
  obtain ⟨htime,hfound⟩ := h.reading k r hr
  have htimely := gates_timely htime fun found hf => (hfound found hf).2
  have hlog : ∀ o∈s.log++[⟨r,s.now,gates c r.found s.now⟩], o.Timely c := by
    intro o ho
    cases List.mem_append.mp ho with
    | inl hold => exact h.log o hold
    | inr hnew =>
      rw [List.mem_singleton.mp hnew]
      exact htimely
  have hlookups : ∀ j r', Function.update s.lookups k none j=some r' → s.lookups j=some r' := by
    intro j r' hr'
    by_cases hj : j=k
    · rw [hj,Function.update_self] at hr'
      cases hr'
    · rwa [Function.update_of_ne hj] at hr'
  unfold answer
  cases hgates : gates c r.found s.now with
  | error err =>
    rw [hgates] at hlog
    refine ⟨h.past,h.unknown,h.held,?_,fun j r' hr' => h.reading j r' (hlookups j r' hr'),hlog⟩
    exact fun i row hrow => (h.row i row hrow).same rfl rfl fun _ hx => hx
  | ok u =>
    rw [hgates] at hlog
    obtain ⟨found,hf,-⟩ := gates_ok hgates
    exact use_fresh h (hfound found hf).1 rfl rfl rfl rfl rfl hlookups rfl rfl hlog

omit [DecidableEq ρ] in
theorem commit_rows {row : Row} (ht : commit s k f=some t) (hrow : s.rows i=some row) :
    ∃ row', t.rows i=some row'∧(row.revoked≠none → row'.revoked≠none) := by
  have hended : ∃ row', (endSessions s f).rows i=some row'∧
      (row.revoked≠none → row'.revoked≠none) := by
    refine ⟨_,congrArg (Option.map _) hrow,?_⟩
    intro hrevoked
    dsimp only
    rw [if_neg fun hboth => hrevoked hboth.2]
    exact hrevoked
  unfold commit at ht
  split at ht
  · rw [← Option.some.inj ht]
    exact ⟨row,insertRow_rows hrow,id⟩
  · rw [← Option.some.inj ht]
    exact hended
  · rw [← Option.some.inj ht]
    exact hended
  · rw [← Option.some.inj ht]
    show ∃ row', (endOIDC s f _ _).rows i=some row'∧(row.revoked≠none → row'.revoked≠none)
    unfold endOIDC
    split
    · exact hended
    · split
      · exact hended
      · exact ⟨row,hrow,id⟩
  · split at ht
    · rw [← Option.some.inj ht]
      refine ⟨_,congrArg (Option.map _) hrow,?_⟩
      dsimp only
      split <;> exact id
    · cases ht
  · cases ht

theorem act_rows {row : Row} (hs : act c s e=some t) (hrow : s.rows i=some row) :
    ∃ row', t.rows i=some row'∧(row.revoked≠none → row'.revoked≠none) := by
  have hsame : t.rows=s.rows → ∃ row', t.rows i=some row'∧(row.revoked≠none → row'.revoked≠none) :=
    fun hrows => ⟨row,hrows ▸ hrow,id⟩
  cases e with
  | account user account now =>
    rw [← Option.some.inj hs]
    exact ⟨row,hrow,id⟩
  | call k call now =>
    simp only [act] at hs
    split at hs
    · exact hsame (by rw [← Option.some.inj hs])
    · split at hs
      · exact hsame (by rw [← Option.some.inj hs]; rfl)
      · cases hs
  | take k replica now =>
    simp only [act] at hs
    split at hs
    · exact hsame (by rw [← Option.some.inj hs]; rfl)
    · cases hs
  | write k now =>
    simp only [act] at hs
    split at hs
    · exact hsame (by rw [← Option.some.inj hs]; rfl)
    · cases hs
  | commit k now =>
    obtain ⟨f,-,ht⟩ := Option.bind_eq_some_iff.mp hs
    exact commit_rows ht hrow
  | fail k now =>
    obtain ⟨f,-,ht⟩ := Option.bind_eq_some_iff.mp hs
    unfold abort at ht
    split at ht
    · exact hsame (by rw [← Option.some.inj ht]; rfl)
    · cases ht
    · exact hsame (by rw [← Option.some.inj ht]; rfl)
  | forget k now =>
    simp only [act] at hs
    split at hs
    · exact hsame (by rw [← Option.some.inj hs]; rfl)
    · cases hs
  | read k replica id now =>
    simp only [act] at hs
    split at hs
    · exact hsame (by rw [← Option.some.inj hs])
    · cases hs
  | decide k now =>
    obtain ⟨r,-,rfl⟩ := Option.map_eq_some_iff.mp hs
    refine hsame ?_
    unfold answer
    dsimp only
    split <;> rfl
  | reap now =>
    exact hsame (by rw [← Option.some.inj hs])

theorem Over.act (h : Over s i) (hs : act c s e=some t) : Over t i := by
  obtain ⟨row,hrow,hrevoked⟩ := h
  obtain ⟨row',hrow',hkept⟩ := act_rows hs hrow
  exact ⟨row',hrow',hkept hrevoked⟩

theorem Flight.Sound.act (h : f.Sound c s) (hnow : t.now=s.now) (hs : act c s e=some t) :
    f.Sound c t := by
  obtain ⟨htime,hwork⟩ := h
  refine ⟨hnow ▸ htime,?_⟩
  cases hw : f.work with
  | revoke replica id =>
    rw [hw] at hwork
    rcases hwork with hover | ⟨hmatched,hrow⟩
    · exact Or.inl (hover.act hs)
    · obtain ⟨row,hrow⟩ := Option.ne_none_iff_exists'.mp hrow
      obtain ⟨row',hrow',-⟩ := act_rows hs hrow
      refine Or.inr ⟨hmatched,?_⟩
      rw [hrow']
      exact Option.some_ne_none row'
  | forget replica id =>
    rw [hw] at hwork
    exact hwork.act hs
  | touch ids begun =>
    rw [hw] at hwork
    exact hwork
  | create id user sub sid => trivial
  | revokeAll => trivial
  | revokeOIDC jti expires => trivial

structure Sound (c : Config) (s : State ι ρ) : Prop where
  fresh : Fresh c s
  flights : ∀ k f, s.flights k=some f → f.Sound c s

omit [DecidableEq ρ] in
theorem commit_now (ht : commit s k f=some t) : t.now=s.now := by
  unfold commit at ht
  split at ht
  · rw [← Option.some.inj ht]
    show (insertRow s _ _ _ _ f.now).now=s.now
    unfold insertRow
    split <;> rfl
  · rw [← Option.some.inj ht]
    rfl
  · rw [← Option.some.inj ht]
    rfl
  · rw [← Option.some.inj ht]
    show (endOIDC s f _ _).now=s.now
    unfold endOIDC
    split
    · rfl
    · split <;> rfl
  · split at ht
    · rw [← Option.some.inj ht]
      rfl
    · cases ht
  · cases ht

theorem act_now (hs : act c s e=some t) : t.now=s.now := by
  cases e with
  | account user account now => rw [← Option.some.inj hs]
  | call k call now =>
    simp only [act] at hs
    split at hs
    · rw [← Option.some.inj hs]
    · split at hs
      · rw [← Option.some.inj hs]
        rfl
      · cases hs
  | take k replica now =>
    simp only [act] at hs
    split at hs
    · rw [← Option.some.inj hs]
      rfl
    · cases hs
  | write k now =>
    simp only [act] at hs
    split at hs
    · rw [← Option.some.inj hs]
      rfl
    · cases hs
  | commit k now =>
    obtain ⟨f,-,ht⟩ := Option.bind_eq_some_iff.mp hs
    exact commit_now ht
  | fail k now =>
    obtain ⟨f,-,ht⟩ := Option.bind_eq_some_iff.mp hs
    unfold abort at ht
    split at ht
    · rw [← Option.some.inj ht]
      rfl
    · cases ht
    · rw [← Option.some.inj ht]
      rfl
  | forget k now =>
    simp only [act] at hs
    split at hs
    · rw [← Option.some.inj hs]
      rfl
    · cases hs
  | read k replica id now =>
    simp only [act] at hs
    split at hs
    · rw [← Option.some.inj hs]
    · cases hs
  | decide k now =>
    obtain ⟨r,-,rfl⟩ := Option.map_eq_some_iff.mp hs
    unfold answer
    dsimp only
    split <;> rfl
  | reap now => rw [← Option.some.inj hs]

omit [DecidableEq ρ] in
theorem commit_sound (h : Sound c s) (hf : s.flights k=some f)
    (hintime : ∀ i x, Holds s i x → s.now≤x.first+c.touchInterval) (ht : commit s k f=some t) :
    Fresh c t∧∀ j g, t.flights j=some g → s.flights j=some g∨g.Sound c t := by
  have hsound := h.flights k f hf
  have hgone : ∀ {s' : State ι ρ}, s'.flights=s.flights → ∀ j g,
      (setFlight s' k none).flights j=some g → s.flights j=some g∨g.Sound c (setFlight s' k none) := by
    intro s' hflights j g hg
    rcases setFlight_flights hg with ⟨-,hnone⟩ | hold
    · cases hnone
    · exact Or.inl (hflights ▸ hold)
  have hnone : ∀ f' ids begun, (none : Option (Flight ι ρ))=some f' → f'.work≠.touch ids begun :=
    fun _ _ _ hg => by cases hg
  have hfree : ∀ {s' : State ι ρ}, s'.flights=s.flights → (∀ ids begun, f.work≠.touch ids begun) →
      ∀ f' ids begun, s'.flights k=some f' → f'.work≠.touch ids begun := by
    intro s' hflights hwork f' ids begun hf'
    rw [hflights,hf] at hf'
    rw [← Option.some.inj hf']
    exact hwork ids begun
  unfold commit at ht
  split at ht
  · rename_i id user sub sid hwork
    rw [← Option.some.inj ht]
    have hflights : (insertRow s id user sub sid f.now).flights=s.flights := by
      unfold insertRow
      split <;> rfl
    exact ⟨setFlight_fresh (insertRow_fresh h.fresh hsound.1)
      (hfree hflights fun _ _ hw => by rw [hwork] at hw; cases hw) hnone,hgone hflights⟩
  · rename_i replica id hwork
    rw [← Option.some.inj ht]
    have hover : Over (endSessions s f) id := by
      have hwhole := hsound.2
      rw [hwork] at hwhole
      rcases hwhole with hover | ⟨hmatched,hrow⟩
      · exact hover.endSessions
      · exact endSessions_over hmatched hrow
    refine ⟨setFlight_fresh (endSessions_fresh h.fresh)
      (hfree rfl fun _ _ hw => by rw [hwork] at hw; cases hw) ?_,?_⟩
    · intro f' ids begun hf' hw
      rw [← Option.some.inj hf'] at hw
      cases hw
    · intro j g hg
      rcases setFlight_flights hg with ⟨-,hnew⟩ | hold
      · rw [← Option.some.inj hnew]
        exact Or.inr ⟨hsound.1,hover⟩
      · exact Or.inl hold
  · rename_i hwork
    rw [← Option.some.inj ht]
    exact ⟨setFlight_fresh (endSessions_fresh h.fresh)
      (hfree rfl fun _ _ hw => by rw [hwork] at hw; cases hw) hnone,hgone rfl⟩
  · rename_i jti expires hwork
    rw [← Option.some.inj ht]
    have hflights : (endOIDC s f jti expires).flights=s.flights := by
      unfold endOIDC
      split
      · rfl
      · split <;> rfl
    exact ⟨setFlight_fresh (endOIDC_fresh h.fresh)
      (hfree hflights fun _ _ hw => by rw [hwork] at hw; cases hw) hnone,hgone hflights⟩
  · rename_i ids begun hwork
    split at ht
    · rename_i hbegun
      rw [hbegun] at hwork
      rw [← Option.some.inj ht]
      exact ⟨touchRows_fresh h.fresh hf hwork hsound hintime,hgone rfl⟩
    · cases ht
  · cases ht

omit [DecidableEq ι] [DecidableEq ρ] in
/-- A failing flush loses its touches. -/
theorem abort_fresh (h : Fresh c s) (hf : s.flights k=some f) (ht : abort s k f=some t) :
    Fresh c t := by
  unfold abort at ht
  split at ht
  · rename_i ids begun hwork
    rw [← Option.some.inj ht]
    refine h.moved (le_refl _) rfl (fun i => ⟨id,fun row hrow => ⟨row,hrow,rfl,id⟩⟩) ?_ ?_ ?_
      (fun _ _ hr => hr) rfl
    · intro i x hx
      rcases holds_setFlight hx with hs | ⟨g,-,-,hg,-⟩
      · exact hs
      · cases hg
    · intro i x hx
      rcases setFlight_holds (k := k) (g := none) hx with hstill | ⟨g,ids',begun',hg,hgwork,hgx⟩
      · exact Or.inl hstill
      · right
        right
        rw [hf] at hg
        rw [← Option.some.inj hg,hwork] at hgwork
        injection hgwork with hids
        show decide (s.dropped i=true∨(ids i).isSome=true)=true
        rw [hids,hgx]
        exact decide_eq_true (Or.inr rfl)
    · intro i hd
      have hneither := of_decide_eq_false hd
      exact Bool.eq_false_iff.mpr fun hlost => hneither (Or.inl hlost)
  · cases ht
  · rename_i hnotouch _
    rw [← Option.some.inj ht]
    refine setFlight_fresh h ?_ fun _ _ _ hg => by cases hg
    intro f' ids begun hf' hw
    rw [hf] at hf'
    rw [← Option.some.inj hf'] at hw
    exact hnotouch ids begun hw

omit [DecidableEq ι] in
/-- A flush takes a replica's whole batch with it. -/
theorem take_fresh {replica : ρ} {now : ℚ} (h : Fresh c s) (hk : s.flights k=none) :
    Fresh c (setFlight { s with pending := Function.update s.pending replica (fun _ => none) } k
      (some ⟨.touch (s.pending replica) false,now,fun _ => false⟩)) := by
  refine h.moved (le_refl _) rfl (fun i => ⟨id,fun row hrow => ⟨row,hrow,rfl,id⟩⟩) ?_ ?_
    (fun _ hd => hd) (fun _ _ hr => hr) rfl
  · intro i x hx
    rcases holds_setFlight hx with (⟨r,hr⟩ | hflight) | ⟨f,ids,begun,hf,hwork,hids⟩
    · by_cases hsame : r=replica
      · dsimp only at hr
        rw [hsame,Function.update_self] at hr
        cases hr
      · dsimp only at hr
        rw [Function.update_of_ne hsame] at hr
        exact Or.inl ⟨r,hr⟩
    · exact Or.inr hflight
    · rw [← Option.some.inj hf] at hwork
      injection hwork with hpending
      exact Or.inl ⟨replica,hpending ▸ hids⟩
  · rintro i x (⟨r,hr⟩ | ⟨j,f,ids,begun,hf,hwork,hids⟩)
    · left
      by_cases hsame : r=replica
      · refine Or.inr ⟨k,_,s.pending replica,false,Function.update_self k _ _,rfl,?_⟩
        rw [← hsame,hr]
      · exact Or.inl ⟨r,(congrFun (Function.update_of_ne hsame _ s.pending) i).trans hr⟩
    · have hj : j≠k := by
        rintro rfl
        rw [hk] at hf
        cases hf
      exact Or.inl (Or.inr ⟨j,f,ids,begun,(Function.update_of_ne hj _ s.flights).trans hf,hwork,hids⟩)

omit [DecidableEq ι] [DecidableEq ρ] in
/-- The flush's statement begins. -/
theorem write_fresh {ids : ι → Option Touch} {now now' : ℚ} {m : ι → Bool} (h : Fresh c s)
    (hk : s.flights k=some ⟨.touch ids false,now,m⟩) :
    Fresh c (setFlight s k (some ⟨.touch ids true,now',m⟩)) := by
  refine h.moved (le_refl _) rfl (fun i => ⟨id,fun row hrow => ⟨row,hrow,rfl,id⟩⟩) ?_ ?_
    (fun _ hd => hd) (fun _ _ hr => hr) rfl
  · intro i x hx
    rcases holds_setFlight hx with hs | ⟨f,ids',begun,hf,hwork,hids⟩
    · exact hs
    · rw [← Option.some.inj hf] at hwork
      injection hwork with hsame
      exact Or.inr ⟨k,_,ids,false,hk,rfl,hsame ▸ hids⟩
  · intro i x hx
    rcases setFlight_holds (k := k) (g := some ⟨.touch ids true,now',m⟩) hx with
      hstill | ⟨f,ids',begun,hf,hwork,hids⟩
    · exact Or.inl hstill
    · rw [hk] at hf
      rw [← Option.some.inj hf] at hwork
      injection hwork with hsame
      exact Or.inl (Or.inr ⟨k,_,ids,true,Function.update_self k _ s.flights,rfl,hsame ▸ hids⟩)

/-- Revoke lets the touches of its session go, which is over. -/
theorem forget_fresh {replica : ρ} {id : ι} {pending : ρ → ι → Option Touch} (h : Fresh c s)
    (hover : Over s id) (hk : ∀ f ids begun, s.flights k=some f → f.work≠.touch ids begun)
    (hpending : pending=
      Function.update s.pending replica (Function.update (s.pending replica) id none)) :
    Fresh c (setFlight { s with pending := pending } k none) := by
  subst hpending
  refine setFlight_fresh ?_ hk fun _ _ _ hg => by cases hg
  refine h.moved (le_refl _) rfl (fun i => ⟨fun hnone => hnone,fun row hrow => ⟨row,hrow,rfl,fun hnone => hnone⟩⟩) ?_ ?_
    (fun _ hd => hd) (fun _ _ hr => hr) rfl
  · rintro i x (⟨r,hr⟩ | hflight)
    · dsimp only at hr
      by_cases hsame : r=replica
      · rw [hsame,Function.update_self] at hr
        by_cases hi : i=id
        · rw [hi,Function.update_self] at hr
          cases hr
        · rw [Function.update_of_ne hi] at hr
          exact Or.inl ⟨replica,hr⟩
      · rw [Function.update_of_ne hsame] at hr
        exact Or.inl ⟨r,hr⟩
    · exact Or.inr hflight
  · rintro i x (⟨r,hr⟩ | hflight)
    · by_cases hi : i=id
      · exact Or.inr (Or.inl (hi ▸ hover))
      · left
        refine Or.inl ⟨r,?_⟩
        dsimp only
        by_cases hsame : r=replica
        · rw [hsame,Function.update_self,Function.update_of_ne hi,← hsame,hr]
        · rw [Function.update_of_ne hsame,hr]
    · exact Or.inl (Or.inr hflight)

end Kitp.SessionTouches
