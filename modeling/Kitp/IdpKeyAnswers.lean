import Kitp.IdpKeyCrashes

/-! The first lookup after the wait fetches, and answers with a key that the provider lists. -/
namespace Kitp.IdpKeys

open Kitp.Runs

variable {ι : Type} [DecidableEq ι] {decodeSegment : String → Option (List UInt8)}
  {jwksTTL : Nat} {s t : State ι} {e : Event ι} {es : List (Event ι)} {i j : ι}

/-- The last try is over by the wait. -/
def Due (m : Moment ι) : Prop :=
  ∀ x, m.triedAt=some x → x+jwksMissRefresh ≤ m.now

variable (decodeSegment) in
/-- The call's fetch has returned, and has answered with a key if it did not fail and the
latest document lists one. -/
def Served (s : State ι) (i : ι) (kid : String) (answer : Except String PublicKey) : Prop :=
  ∃ err m, s.returned i=some err∧s.ended i=some m∧
    (err=none → (∀ f∈m.fetches.head?, ∃ key, Lists decodeSegment f.doc kid key) →
      ∃ key, answer=.ok key)

variable (decodeSegment) in
/-- A lookup that takes the lock when the last try is over by the wait never waits for another's
fetch, and is served by its own. -/
structure Accepted (s : State ι) : Prop where
  waiting : ∀ i m kid wait, s.locked i=some m → Due m → s.call i≠.waiting kid wait
  answered : ∀ i m kid answer, s.locked i=some m → Due m → s.call i=.answered kid answer →
    Served decodeSegment s i kid answer

/-- A call in flight is within the client's timeouts. -/
def OnTimeAt (s : State ι) : Call ι → Prop
  | .fetching _ .starting => s.jwksTriedAt=some s.now
  | .fetching _ (.discovery since) =>
    s.jwksTriedAt=some since∧s.now ≤ since+clientTimeout
  | .fetching _ (.jwks since) =>
    ∃ x, s.jwksTriedAt=some x∧since≤x+clientTimeout∧s.now ≤ since+clientTimeout
  | .fetched _ _ => ∃ x, s.jwksTriedAt=some x∧s.now≤x+2*clientTimeout
  | _ => True

def OnTime (s : State ι) : Prop :=
  ∀ i, OnTimeAt s (s.call i)

omit [DecidableEq ι] in
theorem OnTimeAt.in_flight {c : Call ι} (h : OnTimeAt s c) (hc : InFlight c) :
    ∃ x, s.jwksTriedAt=some x∧s.now≤x+2*clientTimeout := by
  cases c with
  | fetching l r =>
    cases r with
    | starting => exact ⟨s.now,h,by omega⟩
    | discovery since => exact ⟨since,h.1,by have := h.2; omega⟩
    | jwks since =>
      obtain ⟨x,hx,hsince,hnow⟩ := h
      exact ⟨x,hx,by omega⟩
  | fetched l err => exact h
  | _ => exact hc.elim

omit [DecidableEq ι] in
theorem OnTimeAt.idle {c : Call ι} (hc : ¬InFlight c) : OnTimeAt s c := by
  cases c with
  | fetching l r => exact absurd trivial hc
  | fetched l err => exact absurd trivial hc
  | _ => trivial

omit [DecidableEq ι] in
theorem OnTimeAt.congr {c : Call ι} (h : OnTimeAt s c) (htried : t.jwksTriedAt=s.jwksTriedAt)
    (hnow : t.now=s.now) : OnTimeAt t c := by
  unfold OnTimeAt at *
  rw [htried,hnow]
  exact h

theorem OnTime.moved {c : Call ι} (h : OnTime s) (htried : t.jwksTriedAt=s.jwksTriedAt)
    (hnow : t.now=s.now) (hcall : t.call=Function.update s.call i c) (hc : OnTimeAt t c) :
    OnTime t := by
  intro j
  rw [hcall]
  by_cases hji : j=i
  · rw [hji,Function.update_self]
    exact hc
  · rw [Function.update_of_ne hji]
    exact (h j).congr htried hnow

theorem OnTime.step (hst : Stepped decodeSegment jwksTTL s e t) (hok : Timely s e)
    (hflag : Flagged s) (h : OnTime s) : OnTime t := by
  cases hst with
  | ticked d =>
    intro i
    have hi := h i
    have hd := hok i
    cases hc : s.call i with
    | fetching l r =>
      rw [hc] at hi hd
      cases r with
      | starting =>
        simp only at hd
        simpa [OnTimeAt,hd] using hi
      | discovery since => exact ⟨hi.1,hd⟩
      | jwks since =>
        obtain ⟨x,hx,hsince,hnow⟩ := hi
        exact ⟨x,hx,hsince,hd⟩
    | fetched l err =>
      rw [hc] at hi hd
      simp only at hd
      simpa [OnTimeAt,hd] using hi
    | _ => trivial
  | held hc hkey => exact h.moved rfl rfl rfl trivial
  | begun hc hu => exact h.moved rfl rfl rfl trivial
  | shared hc hwait hu => exact h.moved rfl rfl rfl trivial
  | waits hc hwait => exact h.moved rfl rfl rfl trivial
  | recent hc hnone hx hlt => exact h.moved rfl rfl rfl trivial
  | @tries i l hc hnone hdue =>
    intro j
    by_cases hji : j=i
    · rw [hji]
      simp only [Function.update_self]
      exact rfl
    · simp only [Function.update_of_ne hji]
      refine OnTimeAt.idle ?_
      intro hj
      have hother := hflag.flag j hj
      rw [hnone] at hother
      cases hother
  | gaveUp hc => exact h.moved rfl rfl rfl trivial
  | woken hc hclosed => exact h.moved rfl rfl rfl trivial
  | @going i p going returned r r' url hr hc hgo hp =>
    refine h.moved rfl rfl rfl ?_
    have hi := h i
    rw [hc] at hi
    obtain ⟨rfl,rfl⟩ | ⟨l,rfl,rfl⟩ := hr
    · trivial
    · cases hgo with
      | inl hfirst =>
        obtain ⟨rfl,hr'⟩ := hfirst
        have hpos : s.now ≤ s.now+clientTimeout := Nat.le_add_right ..
        cases hr' with
        | inl hdisco => exact hdisco ▸ ⟨hi,hpos⟩
        | inr hjwks => exact hjwks ▸ ⟨s.now,hi,hpos,hpos⟩
      | inr hsecond =>
        obtain ⟨⟨since,rfl⟩,rfl⟩ := hsecond
        exact ⟨since,hi.1,hi.2,Nat.le_add_right ..⟩
  | @failed i p going returned r err hr hc hin hp =>
    refine h.moved rfl rfl rfl ?_
    have hi := h i
    rw [hc] at hi
    obtain ⟨rfl,rfl⟩ | ⟨l,rfl,rfl⟩ := hr
    · trivial
    · exact hi.in_flight trivial
  | @fetched i going returned since doc keys hr hc hdoc =>
    refine h.moved rfl rfl rfl ?_
    have hi := h i
    rw [hc] at hi
    obtain ⟨rfl,rfl⟩ | ⟨l,rfl,rfl⟩ := hr
    · trivial
    · exact hi.in_flight trivial
  | crashed hdoc => exact h.moved rfl rfl rfl trivial
  | cleared hc => exact h.moved rfl rfl rfl trivial
  | closedFailed hc => exact h.moved rfl rfl rfl trivial
  | closedFetched hc => exact h.moved rfl rfl rfl trivial
  | looked hc => exact h.moved rfl rfl rfl trivial
  | discovered hc => exact h.moved rfl rfl rfl trivial
  | discovering hc => exact h.moved rfl rfl rfl trivial

omit [DecidableEq ι] in
/-- A fetch is over before the wait is. -/
theorem OnTime.none_flies (h : OnTime s) (hin : InFlight (s.call i)) :
    ¬Due s.moment := by
  intro hdue
  obtain ⟨x,hx,hnow⟩ := (h i).in_flight hin
  have hwait : x+jwksMissRefresh ≤ s.now := hdue x hx
  have hlt : 2*clientTimeout < jwksMissRefresh := by decide
  omega

variable (decodeSegment) in
/-- What a due call has come to. -/
def ServedAt (s : State ι) (i : ι) : Call ι → Prop
  | .idle | .locking _ | .discovering _ | .discovered _ => s.locked i=none
  | .waiting _ _ => ∀ m, s.locked i=some m → ¬Due m
  | .fetched _ err | .closing _ err =>
    s.returned i=some err∧(err=none → s.fetches≠[])
  | .looking _ => ∀ m, s.locked i=some m → Due m → s.returned i=some none∧s.fetches≠[]
  | .answered kid answer => ∀ m, s.locked i=some m → Due m →
    Served decodeSegment s i kid answer
  | .fetching _ _ | .crashed => True

variable (decodeSegment) in
structure Serving (s : State ι) : Prop where
  holds : ∀ f∈s.fetches.head?, ∀ kid key, Lists decodeSegment f.doc kid key → s.jwksKeys kid≠none
  calls : ∀ i, ServedAt decodeSegment s i (s.call i)

omit [DecidableEq ι] in
theorem ServedAt.congr {c : Call ι} (h : ServedAt decodeSegment s i c)
    (hlocked : t.locked i=s.locked i) (hreturned : t.returned i=s.returned i)
    (hended : t.ended i=s.ended i) (hfetches : s.fetches≠[] → t.fetches≠[]) :
    ServedAt decodeSegment t i c := by
  unfold ServedAt Served at *
  rw [hlocked,hreturned,hended]
  cases c with
  | fetched l err => exact ⟨h.1,fun herr => hfetches (h.2 herr)⟩
  | closing l err => exact ⟨h.1,fun herr => hfetches (h.2 herr)⟩
  | looking kid =>
    intro m hm hdue
    exact ⟨(h m hm hdue).1,hfetches (h m hm hdue).2⟩
  | _ => exact h

theorem Serving.moved {c : Call ι} (h : Serving decodeSegment s)
    (hkeys : t.jwksKeys=s.jwksKeys) (hfetches : t.fetches=s.fetches)
    (hcall : t.call=Function.update s.call i c) (hlocked : ∀ j, j≠i → t.locked j=s.locked j)
    (hreturned : ∀ j, j≠i → t.returned j=s.returned j)
    (hended : ∀ j, j≠i → t.ended j=s.ended j) (hc : ServedAt decodeSegment t i c) :
    Serving decodeSegment t := by
  refine ⟨?_,?_⟩
  · rw [hkeys,hfetches]
    exact h.holds
  · intro j
    rw [hcall]
    by_cases hji : j=i
    · rw [hji,Function.update_self]
      exact hc
    · rw [Function.update_of_ne hji]
      exact (h.calls j).congr (hlocked j hji) (hreturned j hji) (hended j hji)
        fun hne => hfetches ▸ hne

omit [DecidableEq ι] in
/-- What `knownKey` finds of a key that the latest document lists. -/
theorem Serving.known {kid : String} (h : Serving decodeSegment s) (hne : s.fetches≠[])
    (hl : ∀ f∈s.fetches.head?, ∃ key, Lists decodeSegment f.doc kid key) :
    ∃ key, knownKey s.jwksKeys kid=.ok key := by
  cases hf : s.fetches with
  | nil => exact absurd hf hne
  | cons f rest =>
    have hmem : f∈s.fetches.head? := by simp [hf]
    obtain ⟨key,hkey⟩ := hl f hmem
    obtain ⟨held,hheld⟩ := Option.ne_none_iff_exists'.mp (h.holds f hmem kid key hkey)
    exact ⟨held,knownKey_ok.mpr hheld⟩

theorem Serving.step (hst : Stepped decodeSegment jwksTTL s e t) (hon : OnTime s)
    (hun : Unharmed s) (h : Serving decodeSegment s) : Serving decodeSegment t := by
  have same : ∀ {β : Type} (f : ι → β) (i j : ι), j≠i → f j=f j := fun _ _ _ _ => rfl
  have other : ∀ {β : Type} (f : ι → β) (i : ι) (b : β) (j : ι), j≠i →
      Function.update f i b j=f j := fun f i b j hj => Function.update_of_ne hj b f
  have arrived : ∀ {i : ι} {m : Moment ι},
      Function.update s.locked i (some s.moment) i=some m → s.moment=m :=
    fun {i m} hm => by
      rw [Function.update_self] at hm
      exact Option.some.inj hm
  cases hst with
  | ticked d => exact ⟨h.holds,fun i => (h.calls i).congr rfl rfl rfl id⟩
  | @held i kid key hc hkey =>
    have hi := h.calls i
    rw [hc] at hi
    refine h.moved rfl rfl rfl (same _ _) (same _ _) (other _ _ _) ?_
    intro m hm
    exact nomatch hi.symm.trans hm
  | @begun i kid usable hc hu =>
    have hi := h.calls i
    rw [hc] at hi
    exact h.moved rfl rfl rfl (same _ _) (same _ _) (same _ _) hi
  | @shared i wait l key hc hwait hu =>
    refine h.moved rfl rfl rfl (other _ _ _) (same _ _) (other _ _ _) ?_
    intro m hm hdue
    cases arrived hm
    exact absurd hdue (hon.none_flies (hun.flagged wait hwait))
  | @waits i wait l hc hwait =>
    refine h.moved rfl rfl rfl (other _ _ _) (same _ _) (same _ _) ?_
    intro m hm
    cases arrived hm
    exact hon.none_flies (hun.flagged wait hwait)
  | @recent i l x hc hnone hx hlt =>
    refine h.moved rfl rfl rfl (other _ _ _) (same _ _) (other _ _ _) ?_
    intro m hm hdue
    cases arrived hm
    have hwait : x+jwksMissRefresh ≤ s.now := hdue x hx
    omega
  | tries hc hnone hdue =>
    exact h.moved rfl rfl rfl (other _ _ _) (same _ _) (same _ _) trivial
  | @gaveUp i wait kid err hc =>
    have hi := h.calls i
    rw [hc] at hi
    refine h.moved rfl rfl rfl (same _ _) (same _ _) (other _ _ _) ?_
    intro m hm hdue
    exact absurd hdue (hi m hm)
  | @woken i wait kid hc hclosed =>
    have hi := h.calls i
    rw [hc] at hi
    refine h.moved rfl rfl rfl (same _ _) (same _ _) (same _ _) ?_
    intro m hm hdue
    exact absurd hdue (hi m hm)
  | @going i p going returned r r' url hr hc hgo hp =>
    have hi := h.calls i
    rw [hc] at hi
    refine h.moved rfl rfl rfl (same _ _) (same _ _) (same _ _) ?_
    obtain ⟨rfl,rfl⟩ | ⟨l,rfl,rfl⟩ := hr
    · exact hi
    · trivial
  | @failed i p going returned r err hr hc hin hp =>
    have hi := h.calls i
    rw [hc] at hi
    refine h.moved rfl rfl rfl (same _ _) (other _ _ _) (same _ _) ?_
    obtain ⟨rfl,rfl⟩ | ⟨l,rfl,rfl⟩ := hr
    · exact hi
    · exact ⟨Function.update_self ..,fun herr => nomatch herr⟩
  | @fetched i going returned since doc keys hr hc hdoc =>
    have hi := h.calls i
    rw [hc] at hi
    refine ⟨?_,?_⟩
    · intro f hf kid key hl
      cases hf
      exact jwksOf_holds hdoc (Or.inl ⟨key,hl⟩)
    · intro j
      by_cases hji : j=i
      · rw [hji]
        simp only [Function.update_self]
        obtain ⟨rfl,rfl⟩ | ⟨l,rfl,rfl⟩ := hr
        · exact hi
        · exact ⟨Function.update_self ..,fun _ => List.cons_ne_nil _ _⟩
      · simp only [Function.update_of_ne hji]
        exact (h.calls j).congr rfl (other _ _ _ j hji) rfl fun _ => List.cons_ne_nil _ _
  | crashed hdoc => exact h.moved rfl rfl rfl (same _ _) (same _ _) (same _ _) trivial
  | @cleared i l err hc =>
    have hi := h.calls i
    rw [hc] at hi
    exact h.moved rfl rfl rfl (same _ _) (same _ _) (same _ _) hi
  | @closedFailed i l err hc =>
    have hi := h.calls i
    rw [hc] at hi
    refine h.moved rfl rfl rfl (same _ _) (same _ _) (other _ _ _) ?_
    intro m hm hdue
    exact ⟨some err,_,hi.1,Function.update_self ..,fun herr => nomatch herr⟩
  | @closedFetched i l hc =>
    have hi := h.calls i
    rw [hc] at hi
    refine h.moved rfl rfl rfl (same _ _) (same _ _) (same _ _) ?_
    intro m hm hdue
    exact ⟨hi.1,hi.2 rfl⟩
  | @looked i kid hc =>
    have hi := h.calls i
    rw [hc] at hi
    refine h.moved rfl rfl rfl (same _ _) (same _ _) (other _ _ _) ?_
    intro m hm hdue
    obtain ⟨hreturned,hne⟩ := hi m hm hdue
    exact ⟨none,_,hreturned,Function.update_self ..,fun _ hl => h.known hne hl⟩
  | @discovered i hc =>
    have hi := h.calls i
    rw [hc] at hi
    exact h.moved rfl rfl rfl (same _ _) (same _ _) (same _ _) hi
  | @discovering i hc =>
    have hi := h.calls i
    rw [hc] at hi
    exact h.moved rfl rfl rfl (same _ _) (same _ _) (same _ _) hi

omit [DecidableEq ι] in
theorem Serving.accepted (h : Serving decodeSegment s) : Accepted decodeSegment s := by
  refine ⟨?_,?_⟩
  · intro i m kid wait hm hdue hc
    have hi := h.calls i
    rw [hc] at hi
    exact hi m hm hdue
  · intro i m kid answer hm hdue hc
    have hi := h.calls i
    rw [hc] at hi
    exact hi m hm hdue

omit [DecidableEq ι] in
theorem start_serving (now : Nat) : Serving decodeSegment (start now : State ι) :=
  ⟨fun _ hf => (nomatch hf),fun _ => rfl⟩

theorem run_accepted {now : Nat} (hrun : Run (step decodeSegment jwksTTL) Timely (start now) es s)
    (hread : ∀ e∈es, Readable decodeSegment e) : Accepted decodeSegment s := by
  have hinv := hrun.with_mem.inv
    (fun s => Flagged s∧Unharmed s∧OnTime s∧Serving decodeSegment s) ?_ ?_
  · exact hinv.2.2.2.accepted
  · intro s e t h hok hst
    obtain ⟨hflag,hun,hon,hserve⟩ := h
    have hs := step_cases hst
    exact ⟨hflag.step hs,hun.step hs (hread e hok.2),hon.step hs hok.1 hflag,
      hserve.step hs hon hun⟩
  · exact ⟨start_flagged now,start_unharmed now,fun _ => trivial,start_serving now⟩

/-- Answers are fresh and fetches are spaced in every run; nothing panics or is left waiting
exactly if every document read is readable, and then a published key is accepted by the first
lookup after the wait. -/
theorem lookups_guarded {now : Nat}
    (hrun : Run (step decodeSegment jwksTTL) (fun _ _ => True) (start now) es s) :
    Fresh decodeSegment jwksTTL s∧Spaced s∧
      (Unharmed s ↔ ∀ e∈es, Readable decodeSegment e)∧
      (Run (step decodeSegment jwksTTL) Timely (start now) es s →
        (∀ e∈es, Readable decodeSegment e) → Accepted decodeSegment s) := by
  refine ⟨?_,?_,?_,run_accepted⟩
  · have hlisted := hrun.inv (Listed decodeSegment jwksTTL)
      (fun _ _ _ h _ hst => h.step (step_cases hst)) (start_listed now)
    intro i kid key hc
    have hi := hlisted.calls i
    rw [hc] at hi
    exact hi key rfl
  · have hflagged := hrun.inv Flagged
      (fun _ _ _ h _ hst => h.step (step_cases hst)) (start_flagged now)
    exact hflagged.spaced
  · constructor
    · intro hun
      by_contra hbad
      simp only [not_forall] at hbad
      obtain ⟨e,he,hlong⟩ := hbad
      obtain ⟨i,hi⟩ := run_crashes hrun ⟨e,he,hlong⟩
      exact hun.standing i hi
    · intro hread
      exact hrun.with_mem.inv Unharmed
        (fun _ e _ h hok hst => h.step (step_cases hst) (hread e hok.2)) (start_unharmed now)

/-- `RawURLEncoding` of two segments. -/
def segments (seg : String) : Option (List UInt8) :=
  if seg="AQAB" then some [1,0,1]
  else if seg="AAAAAAAAAAAA" then some (List.replicate 9 0)
  else none

/-- A lookup that fetches the document, and what comes after. -/
def fetchEvents (doc : List JwksKey) (rest : List (Event Nat)) : List (Event Nat) :=
  [.lookup 0 "a",.lock 0,.refresh 0 .proceed,.refresh 0 (.discovery (.status 200 (.ok "u"))),
    .refresh 0 (.jwks (.status 200 (.ok doc)))]++rest

/-- The events of a lookup that answers with the key it has fetched. -/
def answered : List (Event Nat) :=
  fetchEvents [⟨"a","RSA","AQAB","AQAB"⟩] [.clear 0,.close 0,.look 0]

theorem lookups_guarded_answered : ∃ s, Run (step segments 0) Timely (start 0) answered s∧
    s.call 0=.answered "a" (.ok ⟨65537,65537⟩)∧Fresh segments 0 s∧Spaced s∧Unharmed s∧
      Accepted segments s := by
  have hend : (answered.foldlM (step segments 0) (start 0)).map (fun s => s.call 0)=
      some (.answered "a" (.ok ⟨65537,65537⟩)) := by rfl
  obtain ⟨s,hs,hcall⟩ := Option.map_eq_some_iff.mp hend
  have htimely : Run (step segments 0) Timely (start 0) answered s :=
    Run.of_foldlM hs (by simp [answered,fetchEvents,Timely])
  have hread : ∀ e∈answered, Readable segments e := by
    simp [answered,fetchEvents,Readable,overlong_iff,buildRSAKey,segments]
  have hall := lookups_guarded (htimely.mono fun _ _ _ => trivial)
  exact ⟨s,htimely,hcall,hall.1,hall.2.1,hall.2.2.1.mpr hread,hall.2.2.2 htimely hread⟩

/-- The events of a lookup that fetches an exponent of nine bytes, and of one ten minutes later. -/
def stranded : List (Event Nat) :=
  fetchEvents [⟨"a","RSA","AQAB","AAAAAAAAAAAA"⟩]
    [.tick (600*1000000000),.lookup 1 "a",.lock 1]

/-- The refresh panics, its channel is never closed and the later lookup waits on it. -/
theorem overlong_exponent_strands : ∃ s,
    Run (step segments (600*1000000000)) (fun _ _ => True) (start 0) stranded s∧
    s.call 0=.crashed∧s.closed 0=false∧s.call 1=.waiting "a" 0∧
      s.locked 1=some ⟨600*1000000000,some 0,[]⟩ := by
  have hend : (stranded.foldlM (step segments (600*1000000000)) (start 0)).map
      (fun s => (s.call 0,s.closed 0,s.call 1,s.locked 1))=
        some (.crashed,false,.waiting "a" 0,some ⟨600*1000000000,some 0,[]⟩) := by rfl
  obtain ⟨s,hs,hobs⟩ := Option.map_eq_some_iff.mp hend
  obtain ⟨h0,hrest⟩ := Prod.mk.inj hobs
  obtain ⟨hclosed,hrest⟩ := Prod.mk.inj hrest
  obtain ⟨h1,hlocked⟩ := Prod.mk.inj hrest
  exact ⟨s,Run.of_foldlM hs fun _ _ _ => trivial,h0,hclosed,h1,hlocked⟩

end Kitp.IdpKeys
