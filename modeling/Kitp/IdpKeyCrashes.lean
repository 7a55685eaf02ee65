import Kitp.IdpKeyRuns

/-! A document that makes a refresh panic, and what no other leaves behind. -/
namespace Kitp.IdpKeys

open Kitp.Runs

variable {ι : Type} [DecidableEq ι] {decodeSegment : String → Option (List UInt8)}
  {jwksTTL : Nat} {s t : State ι} {e : Event ι} {es : List (Event ι)} {i j : ι}

variable (decodeSegment) in
/-- No document that is read has an overlong exponent. -/
def Readable : Event ι → Prop
  | .refresh _ (.jwks (.status 200 (.ok doc))) => ∀ k∈doc, ¬Overlong decodeSegment k
  | _ => True

/-- No refresh has panicked, and a call waits on a fetch whose channel is closed or is to be, as
does the flag. -/
structure Unharmed (s : State ι) : Prop where
  standing : ∀ i, s.call i≠.crashed
  waiting : ∀ i kid wait, s.call i=.waiting kid wait →
    s.closed wait=true∨Closing (s.call wait)
  flagged : ∀ i, s.jwksFetching=some i → InFlight (s.call i)

omit [DecidableEq ι] in
theorem InFlight.closing {c : Call ι} (h : InFlight c) : Closing c := by
  cases c with
  | fetching l r => trivial
  | fetched l err => trivial
  | _ => exact h.elim

theorem Unharmed.moved {c : Call ι} (h : Unharmed s)
    (hfetching : ∀ j, t.jwksFetching=some j → s.jwksFetching=some j)
    (hcall : t.call=Function.update s.call i c)
    (hclosed : ∀ j, s.closed j=true → t.closed j=true) (hstands : c≠.crashed)
    (hwaits : ∀ kid wait, c=.waiting kid wait → t.closed wait=true∨s.jwksFetching=some wait)
    (hcloses : Closing (s.call i) → t.closed i=true∨Closing c)
    (hflight : t.jwksFetching=some i → InFlight (s.call i) → InFlight c) : Unharmed t := by
  have hbusy : ∀ j, Closing (s.call j) → t.closed j=true∨Closing (t.call j) := by
    intro j hj
    rw [hcall]
    by_cases hji : j=i
    · rw [hji,Function.update_self]
      exact hcloses (hji ▸ hj)
    · rw [Function.update_of_ne hji]
      exact Or.inr hj
  refine ⟨?_,?_,?_⟩
  · intro j
    rw [hcall]
    by_cases hji : j=i
    · rw [hji,Function.update_self]
      exact hstands
    · rw [Function.update_of_ne hji]
      exact h.standing j
  · intro j kid wait hj
    rw [hcall] at hj
    by_cases hji : j=i
    · rw [hji,Function.update_self] at hj
      cases hwaits kid wait hj with
      | inl hdone => exact Or.inl hdone
      | inr hwait => exact hbusy wait (h.flagged wait hwait).closing
    · rw [Function.update_of_ne hji] at hj
      cases h.waiting j kid wait hj with
      | inl hdone => exact Or.inl (hclosed wait hdone)
      | inr hopen => exact hbusy wait hopen
  · intro j hj
    have hin := h.flagged j (hfetching j hj)
    rw [hcall]
    by_cases hji : j=i
    · rw [hji,Function.update_self]
      exact hflight (hji ▸ hj) (hji ▸ hin)
    · rw [Function.update_of_ne hji]
      exact hin

/-- A step of a call that isn't on the way to closing a channel. -/
theorem Unharmed.stepped {c : Call ι} (h : Unharmed s) (hidle : ¬Closing (s.call i))
    (hfetching : t.jwksFetching=s.jwksFetching) (hclosed : t.closed=s.closed)
    (hcall : t.call=Function.update s.call i c) (hstands : c≠.crashed)
    (hwaits : ∀ kid wait, c=.waiting kid wait → t.closed wait=true∨s.jwksFetching=some wait) :
    Unharmed t := by
  refine h.moved ?_ hcall ?_ hstands hwaits (fun hc => absurd hc hidle) ?_
  · intro j hj
    exact hfetching ▸ hj
  · intro j hj
    exact hclosed ▸ hj
  · intro _ hin
    exact absurd hin.closing hidle

/-- A step of a refresh that goes on or returns. -/
theorem Unharmed.refreshed {c : Call ι} {going : Refresh → Call ι}
    {returned : Option String → Call ι} {r : Refresh} (h : Unharmed s)
    (hr : Refreshing going returned) (hc : s.call i=going r)
    (hcase : (∃ r', c=going r')∨∃ err, c=returned err)
    (hfetching : t.jwksFetching=s.jwksFetching) (hclosed : t.closed=s.closed)
    (hcall : t.call=Function.update s.call i c) : Unharmed t := by
  obtain ⟨rfl,rfl⟩ | ⟨l,rfl,rfl⟩ := hr
  · refine h.stepped (by rw [hc]; exact id) hfetching hclosed hcall ?_ ?_
    · obtain ⟨r',rfl⟩ | ⟨err,rfl⟩ := hcase <;> exact fun hx => by cases hx
    · obtain ⟨r',rfl⟩ | ⟨err,rfl⟩ := hcase <;> exact fun _ _ hx => by cases hx
  · refine h.moved ?_ hcall ?_ ?_ ?_ ?_ ?_
    · intro j hj
      exact hfetching ▸ hj
    · intro j hj
      exact hclosed ▸ hj
    · obtain ⟨r',rfl⟩ | ⟨err,rfl⟩ := hcase <;> exact fun hx => by cases hx
    · obtain ⟨r',rfl⟩ | ⟨err,rfl⟩ := hcase <;> exact fun _ _ hx => by cases hx
    · obtain ⟨r',rfl⟩ | ⟨err,rfl⟩ := hcase <;> exact fun _ => Or.inr trivial
    · obtain ⟨r',rfl⟩ | ⟨err,rfl⟩ := hcase <;> exact fun _ _ => trivial

theorem Unharmed.step (hst : Stepped decodeSegment jwksTTL s e t) (hok : Readable decodeSegment e)
    (h : Unharmed s) : Unharmed t := by
  have noWait : ∀ {c : Call ι}, (∀ kid wait, c≠.waiting kid wait) →
      ∀ kid wait, c=.waiting kid wait → t.closed wait=true∨s.jwksFetching=some wait :=
    fun hne kid wait hx => absurd hx (hne kid wait)
  cases hst with
  | ticked d => exact ⟨h.standing,h.waiting,h.flagged⟩
  | held hc hkey =>
    exact h.stepped (by rw [hc]; exact id) rfl rfl rfl (fun hx => by cases hx)
      (noWait fun _ _ hx => by cases hx)
  | begun hc hu =>
    exact h.stepped (by rw [hc]; exact id) rfl rfl rfl (fun hx => by cases hx)
      (noWait fun _ _ hx => by cases hx)
  | shared hc hwait hu =>
    exact h.stepped (by rw [hc]; exact id) rfl rfl rfl (fun hx => by cases hx)
      (noWait fun _ _ hx => by cases hx)
  | waits hc hwait =>
    refine h.stepped (by rw [hc]; exact id) rfl rfl rfl (fun hx => by cases hx) ?_
    intro kid wait hx
    cases hx
    exact Or.inr hwait
  | recent hc hnone hx hlt =>
    exact h.stepped (by rw [hc]; exact id) rfl rfl rfl (fun hx => by cases hx)
      (noWait fun _ _ hx => by cases hx)
  | @tries i l hc hnone hdue =>
    have hother : ∀ j, j≠i → Function.update s.call i (.fetching l .starting) j=s.call j :=
      fun j hj => Function.update_of_ne hj _ _
    refine ⟨?_,?_,?_⟩
    · intro j hj
      by_cases hji : j=i
      · rw [hji] at hj
        simp only [Function.update_self] at hj
        cases hj
      · exact h.standing j ((hother j hji).symm.trans hj)
    · intro j kid wait hj
      by_cases hji : j=i
      · rw [hji] at hj
        simp only [Function.update_self] at hj
        cases hj
      · cases h.waiting j kid wait ((hother j hji).symm.trans hj) with
        | inl hdone => exact Or.inl hdone
        | inr hopen =>
          have hwi : wait≠i := by
            rintro rfl
            rw [hc] at hopen
            exact hopen
          refine Or.inr ?_
          show Closing (Function.update s.call i (.fetching l .starting) wait)
          rw [hother wait hwi]
          exact hopen
    · intro j hj
      cases hj
      simp only [Function.update_self]
      trivial
  | gaveUp hc =>
    exact h.stepped (by rw [hc]; exact id) rfl rfl rfl (fun hx => by cases hx)
      (noWait fun _ _ hx => by cases hx)
  | woken hc hclosed =>
    exact h.stepped (by rw [hc]; exact id) rfl rfl rfl (fun hx => by cases hx)
      (noWait fun _ _ hx => by cases hx)
  | going hr hc hgo hp => exact h.refreshed hr hc (Or.inl ⟨_,rfl⟩) rfl rfl rfl
  | failed hr hc hin hp => exact h.refreshed hr hc (Or.inr ⟨_,rfl⟩) rfl rfl rfl
  | fetched hr hc hdoc => exact h.refreshed hr hc (Or.inr ⟨_,rfl⟩) rfl rfl rfl
  | crashed hdoc =>
    obtain ⟨k,hk,hlong⟩ := jwksOf_eq_none.mp hdoc
    exact absurd hlong (hok k hk)
  | cleared hc =>
    refine h.moved (fun _ hj => by cases hj) rfl (fun _ hj => hj) (fun hx => by cases hx)
      (noWait fun _ _ hx => by cases hx) (fun _ => Or.inr trivial) (fun hj => by cases hj)
  | closedFailed hc =>
    refine h.moved (fun _ hj => hj) rfl ?_ (fun hx => by cases hx)
      (noWait fun _ _ hx => by cases hx) (fun _ => Or.inl (Function.update_self ..)) ?_
    · intro j hj
      simp only [State.answer,Function.update_apply]
      split
      · rfl
      · exact hj
    · intro _ hin
      rw [hc] at hin
      exact hin.elim
  | closedFetched hc =>
    refine h.moved (fun _ hj => hj) rfl ?_ (fun hx => by cases hx)
      (noWait fun _ _ hx => by cases hx) (fun _ => Or.inl (Function.update_self ..)) ?_
    · intro j hj
      simp only [State.goto,Function.update_apply]
      split
      · rfl
      · exact hj
    · intro _ hin
      rw [hc] at hin
      exact hin.elim
  | looked hc =>
    exact h.stepped (by rw [hc]; exact id) rfl rfl rfl (fun hx => by cases hx)
      (noWait fun _ _ hx => by cases hx)
  | discovered hc =>
    exact h.stepped (by rw [hc]; exact id) rfl rfl rfl (fun hx => by cases hx)
      (noWait fun _ _ hx => by cases hx)
  | discovering hc =>
    exact h.stepped (by rw [hc]; exact id) rfl rfl rfl (fun hx => by cases hx)
      (noWait fun _ _ hx => by cases hx)

omit [DecidableEq ι] in
theorem start_unharmed (now : Nat) : Unharmed (start now : State ι) :=
  ⟨fun _ hx => (by cases hx),fun _ _ _ hx => (by cases hx),fun _ hx => (by cases hx)⟩

theorem Stepped.moves (hst : Stepped decodeSegment jwksTTL s e t) :
    t.call=s.call∨∃ i c, t.call=Function.update s.call i c∧(c=.crashed∨s.call i≠.crashed) := by
  have moved : ∀ {i : ι} {c c' : Call ι}, s.call i=c' → t.call=Function.update s.call i c →
      c'≠.crashed →
      t.call=s.call∨∃ i c, t.call=Function.update s.call i c∧(c=.crashed∨s.call i≠.crashed) :=
    fun hc ht hne => Or.inr ⟨_,_,ht,Or.inr (hc ▸ hne)⟩
  cases hst with
  | ticked d => exact Or.inl rfl
  | held hc hkey => exact moved hc rfl fun hx => by cases hx
  | begun hc hu => exact moved hc rfl fun hx => by cases hx
  | shared hc hwait hu => exact moved hc rfl fun hx => by cases hx
  | waits hc hwait => exact moved hc rfl fun hx => by cases hx
  | recent hc hnone hx hlt => exact moved hc rfl fun hx => by cases hx
  | tries hc hnone hdue => exact moved hc rfl fun hx => by cases hx
  | gaveUp hc => exact moved hc rfl fun hx => by cases hx
  | woken hc hclosed => exact moved hc rfl fun hx => by cases hx
  | going hr hc hgo hp =>
    refine moved hc rfl ?_
    obtain ⟨rfl,rfl⟩ | ⟨l,rfl,rfl⟩ := hr <;> exact fun hx => by cases hx
  | failed hr hc hin hp =>
    refine moved hc rfl ?_
    obtain ⟨rfl,rfl⟩ | ⟨l,rfl,rfl⟩ := hr <;> exact fun hx => by cases hx
  | fetched hr hc hdoc =>
    refine moved hc rfl ?_
    obtain ⟨rfl,rfl⟩ | ⟨l,rfl,rfl⟩ := hr <;> exact fun hx => by cases hx
  | crashed hdoc => exact Or.inr ⟨_,_,rfl,Or.inl rfl⟩
  | cleared hc => exact moved hc rfl fun hx => by cases hx
  | closedFailed hc => exact moved hc rfl fun hx => by cases hx
  | closedFetched hc => exact moved hc rfl fun hx => by cases hx
  | looked hc => exact moved hc rfl fun hx => by cases hx
  | discovered hc => exact moved hc rfl fun hx => by cases hx
  | discovering hc => exact moved hc rfl fun hx => by cases hx

/-- A call that has panicked never goes on. -/
theorem Stepped.crash_stays (hst : Stepped decodeSegment jwksTTL s e t) (h : s.call i=.crashed) :
    t.call i=.crashed := by
  cases hst.moves with
  | inl hsame => exact hsame ▸ h
  | inr hmove =>
    obtain ⟨j,c,ht,hc⟩ := hmove
    rw [ht]
    by_cases hij : i=j
    · subst hij
      rw [Function.update_self]
      cases hc with
      | inl hcrash => exact hcrash
      | inr hne => exact absurd h hne
    · rw [Function.update_of_ne hij]
      exact h

theorem Stepped.crashes (hst : Stepped decodeSegment jwksTTL s e t)
    (hbad : ¬Readable decodeSegment e) : ∃ i, t.call i=.crashed := by
  cases hst with
  | crashed hdoc => exact ⟨_,Function.update_self ..⟩
  | fetched hr hc hdoc =>
    refine absurd ?_ hbad
    intro k hk hlong
    rw [jwksOf_eq_none.mpr ⟨k,hk,hlong⟩] at hdoc
    cases hdoc
  | going hr hc hgo hp =>
    refine absurd ?_ hbad
    unfold Readable
    split
    · exact absurd (Event.refresh.inj ‹_›).2 (hp _)
    · trivial
  | failed hr hc hin hp =>
    refine absurd ?_ hbad
    unfold Readable
    split
    · exact absurd (Event.refresh.inj ‹_›).2 (hp _)
    · trivial
  | _ => exact absurd trivial hbad

theorem run_crash_stays {ok : State ι → Event ι → Prop}
    (hrun : Run (step decodeSegment jwksTTL) ok s es t) (h : s.call i=.crashed) :
    t.call i=.crashed :=
  hrun.inv (fun s => s.call i=.crashed) (fun _ _ _ hs _ hst => (step_cases hst).crash_stays hs) h

/-- A document with an overlong exponent leaves a call that has panicked. -/
theorem run_crashes {ok : State ι → Event ι → Prop}
    (hrun : Run (step decodeSegment jwksTTL) ok s es t)
    (hbad : ∃ e∈es, ¬Readable decodeSegment e) : ∃ i, t.call i=.crashed := by
  induction hrun with
  | nil s =>
    obtain ⟨e,he,_⟩ := hbad
    cases he
  | cons hok hst hrun ih =>
    obtain ⟨e,he,hlong⟩ := hbad
    cases List.mem_cons.mp he with
    | inl hfirst =>
      obtain ⟨i,hi⟩ := (step_cases hst).crashes (hfirst ▸ hlong)
      exact ⟨i,run_crash_stays hrun hi⟩
    | inr hrest => exact ih ⟨e,hrest,hlong⟩

end Kitp.IdpKeys
