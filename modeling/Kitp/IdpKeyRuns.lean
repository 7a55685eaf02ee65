import Kitp.Lib.Runs
import Kitp.IdpKeys

/-! Answers by fresh keys, fetches apart, and what a document that panics leaves behind. -/
namespace Kitp.IdpKeys

open Kitp.Runs

section keys

variable {decodeSegment : String → Option (List UInt8)} {doc : List JwksKey}
  {keys keys' : JwksKeys} {kid : String} {key : PublicKey}

theorem buildRSAKey_crashed {n e : String} :
    buildRSAKey decodeSegment n e=.crashed ↔ ∃ nBytes eBytes, decodeSegment n=some nBytes∧
      decodeSegment e=some eBytes∧8 < eBytes.length := by
  unfold buildRSAKey
  cases decodeSegment n with
  | none => simp
  | some nBytes =>
    cases decodeSegment e with
    | none => simp
    | some eBytes =>
      by_cases h : 8 < eBytes.length <;> simp [h]

theorem overlong_iff {k : JwksKey} :
    Overlong decodeSegment k ↔ k.kty="RSA"∧buildRSAKey decodeSegment k.n k.e=.crashed := by
  rw [Overlong,buildRSAKey_crashed]

/-- The refresh panics over the documents with an overlong exponent, and over no other. -/
theorem jwksOf_eq_none : jwksOf decodeSegment doc keys=none ↔ ∃ k∈doc, Overlong decodeSegment k := by
  induction doc generalizing keys with
  | nil => simp [jwksOf]
  | cons k doc ih =>
    simp only [jwksOf,List.exists_mem_cons_iff,overlong_iff]
    by_cases hrsa : k.kty="RSA"
    · rw [if_neg (not_not_intro hrsa)]
      cases hb : buildRSAKey decodeSegment k.n k.e with
      | failed => simp [ih,overlong_iff]
      | crashed => simp [hrsa]
      | key key => simp [ih,overlong_iff]
    · rw [if_pos hrsa]
      simp [hrsa,ih,overlong_iff]

/-- What the keys hold after a document was held before or is listed. -/
theorem jwksOf_listed (h : jwksOf decodeSegment doc keys=some keys') (hk : keys' kid=some key) :
    Lists decodeSegment doc kid key∨keys kid=some key := by
  induction doc generalizing keys with
  | nil =>
    rw [jwksOf,Option.some.injEq] at h
    exact Or.inr (h ▸ hk)
  | cons k doc ih =>
    have later : Lists decodeSegment doc kid key → Lists decodeSegment (k::doc) kid key :=
      fun ⟨x,hx,hl⟩ => ⟨x,List.mem_cons_of_mem _ hx,hl⟩
    rw [jwksOf] at h
    by_cases hrsa : k.kty="RSA"
    · rw [if_neg (not_not_intro hrsa)] at h
      cases hb : buildRSAKey decodeSegment k.n k.e with
      | failed =>
        rw [hb] at h
        exact (ih h).imp_left later
      | crashed =>
        rw [hb] at h
        cases h
      | key built =>
        rw [hb] at h
        cases ih h with
        | inl hl => exact Or.inl (later hl)
        | inr hu =>
          rw [Function.update_apply] at hu
          split at hu
          · rename_i hkid
            cases hu
            exact Or.inl ⟨k,List.mem_cons_self,hrsa,hkid.symm,hb⟩
          · exact Or.inr hu
    · rw [if_pos hrsa] at h
      exact (ih h).imp_left later

/-- A key id that is listed, or was held, is held after the document. -/
theorem jwksOf_holds (h : jwksOf decodeSegment doc keys=some keys')
    (hk : (∃ key, Lists decodeSegment doc kid key)∨keys kid≠none) : keys' kid≠none := by
  induction doc generalizing keys with
  | nil =>
    rw [jwksOf,Option.some.injEq] at h
    cases hk with
    | inl hl =>
      obtain ⟨key,x,hx,_⟩ := hl
      cases hx
    | inr hn => exact h ▸ hn
  | cons k doc ih =>
    rw [jwksOf] at h
    have later : ∀ key, Lists decodeSegment (k::doc) kid key →
        (k.kty="RSA"∧k.kid=kid∧buildRSAKey decodeSegment k.n k.e=.key key)∨
          Lists decodeSegment doc kid key := by
      intro key hl
      obtain ⟨x,hx,hl⟩ := hl
      cases List.mem_cons.mp hx with
      | inl hxk => exact Or.inl (hxk ▸ hl)
      | inr hx => exact Or.inr ⟨x,hx,hl⟩
    by_cases hrsa : k.kty="RSA"
    · rw [if_neg (not_not_intro hrsa)] at h
      cases hb : buildRSAKey decodeSegment k.n k.e with
      | failed =>
        rw [hb] at h
        refine ih h (hk.imp_left ?_)
        intro ⟨key,hl⟩
        cases later key hl with
        | inl hhere =>
          rw [hb] at hhere
          cases hhere.2.2
        | inr hl => exact ⟨key,hl⟩
      | crashed =>
        rw [hb] at h
        cases h
      | key built =>
        rw [hb] at h
        by_cases hkid : kid=k.kid
        · refine ih h (Or.inr ?_)
          rw [hkid,Function.update_self]
          exact Option.some_ne_none built
        · refine ih h ?_
          rw [Function.update_of_ne hkid]
          refine hk.imp_left ?_
          intro ⟨key,hl⟩
          cases later key hl with
          | inl hhere => exact absurd hhere.2.1.symm hkid
          | inr hl => exact ⟨key,hl⟩
    · rw [if_pos hrsa] at h
      refine ih h (hk.imp_left ?_)
      intro ⟨key,hl⟩
      cases later key hl with
      | inl hhere => exact absurd hhere.1 hrsa
      | inr hl => exact ⟨key,hl⟩

end keys

variable {ι : Type} [DecidableEq ι] {decodeSegment : String → Option (List UInt8)}
  {jwksTTL : Nat} {s t : State ι} {e : Event ι} {es : List (Event ι)} {i j : ι}

theorem orHeld_ok {l : Lookup} {err : String} {key : PublicKey} :
    l.orHeld err=.ok key ↔ l.usable=some key := by
  unfold Lookup.orHeld
  cases l.usable <;> simp

omit [DecidableEq ι] in
theorem younger_iff {d : Nat} :
    s.younger d=true ↔ ∃ x, s.jwksFetchedAt=some x∧s.now-x < d := by
  simp [State.younger,Option.any_eq_true]

/-- A refresh of a lookup, or one of `ensureDiscovery`: what the call is during it and after. -/
def Refreshing (going : Refresh → Call ι) (returned : Option String → Call ι) : Prop :=
  (going=.discovering∧returned=.discovered)∨∃ l, going=.fetching l∧returned=.fetched l

/-- What each step can do. -/
inductive Stepped (decodeSegment : String → Option (List UInt8)) (jwksTTL : Nat) (s : State ι) :
    Event ι → State ι → Prop
  | ticked (d : Nat) : Stepped decodeSegment jwksTTL s (.tick d) { s with now := s.now+d }
  | held {i : ι} {kid : String} {key : PublicKey} : s.call i=.idle → s.jwksKeys kid=some key →
      Stepped decodeSegment jwksTTL s (.lookup i kid)
        ({ s with began := Function.update s.began i (some s.moment) }.answer i kid (.ok key))
  | begun {i : ι} {kid : String} {usable : Option PublicKey} : s.call i=.idle →
      (∀ key, usable=some key →
        s.jwksKeys kid=some key∧s.younger (jwksTTL+jwksMaxStale)=true) →
      Stepped decodeSegment jwksTTL s (.lookup i kid)
        ({ s with began := Function.update s.began i (some s.moment) }.goto i
          (.locking ⟨kid,usable⟩))
  | shared {i wait : ι} {l : Lookup} {key : PublicKey} : s.call i=.locking l →
      s.jwksFetching=some wait → l.usable=some key →
      Stepped decodeSegment jwksTTL s (.lock i)
        ({ s with locked := Function.update s.locked i (some s.moment) }.answer i l.kid (.ok key))
  | waits {i wait : ι} {l : Lookup} : s.call i=.locking l → s.jwksFetching=some wait →
      Stepped decodeSegment jwksTTL s (.lock i)
        ({ s with locked := Function.update s.locked i (some s.moment) }.goto i
          (.waiting l.kid wait))
  | recent {i : ι} {l : Lookup} {x : Nat} : s.call i=.locking l → s.jwksFetching=none →
      s.jwksTriedAt=some x → s.now < x+jwksMissRefresh →
      Stepped decodeSegment jwksTTL s (.lock i)
        ({ s with locked := Function.update s.locked i (some s.moment) }.answer i l.kid
          (l.orHeld (noKey l.kid)))
  | tries {i : ι} {l : Lookup} : s.call i=.locking l → s.jwksFetching=none →
      (∀ x, s.jwksTriedAt=some x → x+jwksMissRefresh ≤ s.now) →
      Stepped decodeSegment jwksTTL s (.lock i)
        { s with
          locked := Function.update s.locked i (some s.moment)
          jwksTriedAt := some s.now
          jwksFetching := some i
          tries := s.now::s.tries
          call := Function.update s.call i (.fetching l .starting) }
  | gaveUp {i wait : ι} {kid err : String} : s.call i=.waiting kid wait →
      Stepped decodeSegment jwksTTL s (.giveUp i err) (s.answer i kid (.error err))
  | woken {i wait : ι} {kid : String} : s.call i=.waiting kid wait → s.closed wait=true →
      Stepped decodeSegment jwksTTL s (.wake i) (s.goto i (.looking kid))
  | going {i : ι} {p : Progress} {going : Refresh → Call ι} {returned : Option String → Call ι}
      {r r' : Refresh} {url : Option String} : Refreshing going returned → s.call i=going r →
      (r=.starting∧(r'=.discovery s.now∨r'=.jwks s.now)∨
        (∃ since, r=.discovery since)∧r'=.jwks s.now) →
      (∀ doc, p≠.jwks (.status 200 (.ok doc))) →
      Stepped decodeSegment jwksTTL s (.refresh i p) ({ s with disco := url }.goto i (going r'))
  | failed {i : ι} {p : Progress} {going : Refresh → Call ι} {returned : Option String → Call ι}
      {r : Refresh} {err : String} : Refreshing going returned → s.call i=going r →
      (∃ since, r=.discovery since∨r=.jwks since) → (∀ doc, p≠.jwks (.status 200 (.ok doc))) →
      Stepped decodeSegment jwksTTL s (.refresh i p)
        { s with
          call := Function.update s.call i (returned (some err))
          returned := Function.update s.returned i (some (some err)) }
  | fetched {i : ι} {going : Refresh → Call ι} {returned : Option String → Call ι}
      {since : Nat} {doc : List JwksKey} {keys : JwksKeys} : Refreshing going returned →
      s.call i=going (.jwks since) → jwksOf decodeSegment doc (fun _ => none)=some keys →
      Stepped decodeSegment jwksTTL s (.refresh i (.jwks (.status 200 (.ok doc))))
        { s with
          jwksKeys := keys
          jwksFetchedAt := some s.now
          fetches := ⟨i,s.now,doc⟩::s.fetches
          call := Function.update s.call i (returned none)
          returned := Function.update s.returned i (some none) }
  | crashed {i : ι} {doc : List JwksKey} :
      jwksOf decodeSegment doc (fun _ => none)=none →
      Stepped decodeSegment jwksTTL s (.refresh i (.jwks (.status 200 (.ok doc))))
        (s.goto i .crashed)
  | cleared {i : ι} {l : Lookup} {err : Option String} : s.call i=.fetched l err →
      Stepped decodeSegment jwksTTL s (.clear i)
        ({ s with jwksFetching := none }.goto i (.closing l err))
  | closedFailed {i : ι} {l : Lookup} {err : String} : s.call i=.closing l (some err) →
      Stepped decodeSegment jwksTTL s (.close i)
        ({ s with closed := Function.update s.closed i true }.answer i l.kid (l.orHeld err))
  | closedFetched {i : ι} {l : Lookup} : s.call i=.closing l none →
      Stepped decodeSegment jwksTTL s (.close i)
        ({ s with closed := Function.update s.closed i true }.goto i (.looking l.kid))
  | looked {i : ι} {kid : String} : s.call i=.looking kid →
      Stepped decodeSegment jwksTTL s (.look i)
        (s.answer i kid (knownKey s.jwksKeys kid))
  | discovered {i : ι} : s.call i=.idle →
      Stepped decodeSegment jwksTTL s (.discover i) (s.goto i (.discovered none))
  | discovering {i : ι} : s.call i=.idle →
      Stepped decodeSegment jwksTTL s (.discover i) (s.goto i (.discovering .starting))

theorem Reply.read_ok {α : Type} {what : String} {reply : Reply α} {a : α}
    (h : reply.read what=.ok a) : reply=.status 200 (.ok a) := by
  cases reply with
  | unsent cause => cases h
  | failed cause => cases h
  | status code body =>
    by_cases hc : code=200
    · cases body with
      | error cause => simp [Reply.read,hc] at h
      | ok doc =>
        simp [Reply.read,hc] at h
        rw [hc,h]
    · simp [Reply.read,hc] at h

theorem refresh_cases {p : Progress} {going : Refresh → Call ι}
    {returned : Option String → Call ι} {r : Refresh} {x : State ι×Outcome}
    (hr : Refreshing going returned) (hc : s.call i=going r)
    (h : refreshJWKS decodeSegment s i r p=some x) :
    Stepped decodeSegment jwksTTL s (.refresh i p) (x.1.after i going returned x.2) := by
  unfold refreshJWKS at h
  split at h
  · cases h
    refine .going hr hc (Or.inl ⟨rfl,?_⟩) fun _ hp => nomatch hp
    by_cases hd : s.disco.isSome <;> simp [hd]
  · split at h
    · cases h
      exact .failed hr hc ⟨_,Or.inl rfl⟩ fun _ hp => nomatch hp
    · cases h
      exact .going hr hc (Or.inr ⟨⟨_,rfl⟩,rfl⟩) fun _ hp => nomatch hp
  · split at h
    · rename_i hread
      cases h
      refine .failed hr hc ⟨_,Or.inr rfl⟩ ?_
      intro doc hp
      cases hp
      cases hread
    · rename_i doc hread
      rw [Reply.read_ok hread]
      split at h
      · rename_i hdoc
        cases h
        exact .crashed hdoc
      · rename_i keys hdoc
        cases h
        exact .fetched hr hc hdoc
  · cases h

theorem lookup_cases {kid : String} (hc : s.call i=.idle) :
    Stepped decodeSegment jwksTTL s (.lookup i kid) (lookup jwksTTL s i kid) := by
  unfold lookup
  dsimp only
  split
  · rename_i key hkey
    split
    · exact .held hc hkey
    · refine .begun hc ?_
      intro k hk
      split at hk
      · rename_i hyoung
        cases hk
        exact ⟨hkey,hyoung⟩
      · cases hk
  · exact .begun hc fun _ hk => nomatch hk

theorem lock_cases {l : Lookup} (hc : s.call i=.locking l) :
    Stepped decodeSegment jwksTTL s (.lock i) (lock s i l) := by
  unfold lock
  dsimp only
  split
  · rename_i wait hwait
    split
    · rename_i held hheld
      exact .shared hc hwait hheld
    · exact .waits hc hwait
  · rename_i hnone
    split
    · rename_i hrecent
      obtain ⟨x,hx,hlt⟩ := Option.any_eq_true _ _ |>.mp hrecent
      have hnow : s.now-x < jwksMissRefresh := of_decide_eq_true hlt
      exact .recent hc hnone hx (by omega)
    · rename_i hdue
      refine .tries hc hnone ?_
      intro x hx
      have hold : ¬s.now-x < jwksMissRefresh := fun hlt => hdue (by simp [hx,hlt])
      have hpos : 0 < jwksMissRefresh := by decide
      omega

theorem close_cases {l : Lookup} {err : Option String} (hc : s.call i=.closing l err) :
    Stepped decodeSegment jwksTTL s (.close i) (close s i l err) := by
  cases err with
  | none => exact .closedFetched hc
  | some err => exact .closedFailed hc

theorem step_cases (h : step decodeSegment jwksTTL s e=some t) :
    Stepped decodeSegment jwksTTL s e t := by
  unfold step at h
  split at h
  · cases h
    exact .ticked _
  · split at h
    · rename_i hc
      cases h
      exact lookup_cases hc
    · cases h
  · split at h
    · rename_i hc
      cases h
      exact lock_cases hc
    · cases h
  · split at h
    · rename_i hc
      cases h
      exact .gaveUp hc
    · cases h
  · split at h
    · rename_i hc
      split at h
      · rename_i hclosed
        cases h
        exact .woken hc hclosed
      · cases h
    · cases h
  · split at h
    · rename_i l r hc
      obtain ⟨x,hx,ht⟩ := Option.map_eq_some_iff.mp h
      exact ht ▸ refresh_cases (Or.inr ⟨l,rfl,rfl⟩) hc hx
    · rename_i r hc
      obtain ⟨x,hx,ht⟩ := Option.map_eq_some_iff.mp h
      exact ht ▸ refresh_cases (Or.inl ⟨rfl,rfl⟩) hc hx
    · cases h
  · split at h
    · rename_i hc
      cases h
      exact .cleared hc
    · cases h
  · split at h
    · rename_i hc
      cases h
      exact close_cases hc
    · cases h
  · split at h
    · rename_i hc
      cases h
      exact .looked hc
    · cases h
  · split at h
    · rename_i hc
      cases h
      by_cases hd : s.disco.isSome=true
      · rw [if_pos hd]
        exact .discovered hc
      · rw [if_neg hd]
        exact .discovering hc
    · cases h

variable (decodeSegment jwksTTL) in
/-- The call began with the key listed by the latest document, no older than the limit. -/
def Held (s : State ι) (i : ι) (kid : String) (key : PublicKey) : Prop :=
  ∃ m, s.began i=some m∧∃ f rest, m.fetches=f::rest∧Lists decodeSegment f.doc kid key∧
    m.now≤f.time+(jwksTTL+jwksMaxStale)

variable (decodeSegment) in
/-- The latest document fetched before the call's answer lists the key. -/
def Latest (s : State ι) (i : ι) (kid : String) (key : PublicKey) : Prop :=
  ∃ m, s.ended i=some m∧∃ f rest, m.fetches=f::rest∧Lists decodeSegment f.doc kid key

variable (decodeSegment jwksTTL) in
def Fresh (s : State ι) : Prop :=
  ∀ i kid key, s.call i=.answered kid (.ok key) →
    Latest decodeSegment s i kid key∨Held decodeSegment jwksTTL s i kid key

variable (decodeSegment jwksTTL) in
/-- What a call may yet answer with is held, what it has answered is fresh. -/
def FreshAt (s : State ι) (i : ι) : Call ι → Prop
  | .locking l | .fetching l _ | .fetched l _ | .closing l _ =>
    ∀ key, l.usable=some key → Held decodeSegment jwksTTL s i l.kid key
  | .answered kid answer => ∀ key, answer=.ok key →
    Latest decodeSegment s i kid key∨Held decodeSegment jwksTTL s i kid key
  | _ => True

variable (decodeSegment jwksTTL) in
/-- The keys are the latest document's. -/
structure Listed (s : State ι) : Prop where
  keys : ∀ kid key, s.jwksKeys kid=some key → ∃ f rest, s.fetches=f::rest∧
    Lists decodeSegment f.doc kid key∧s.jwksFetchedAt=some f.time
  calls : ∀ i, FreshAt decodeSegment jwksTTL s i (s.call i)

omit [DecidableEq ι] in
theorem FreshAt.congr {c : Call ι} (h : FreshAt decodeSegment jwksTTL s i c)
    (hb : t.began i=s.began i) (he : t.ended i=s.ended i) :
    FreshAt decodeSegment jwksTTL t i c := by
  unfold FreshAt Latest Held at *
  rw [hb,he]
  exact h

/-- A step of one call. -/
theorem Listed.moved {c : Call ι} (h : Listed decodeSegment jwksTTL s)
    (hkeys : t.jwksKeys=s.jwksKeys) (hat : t.jwksFetchedAt=s.jwksFetchedAt)
    (hfetches : t.fetches=s.fetches) (hcall : t.call=Function.update s.call i c)
    (hb : ∀ j, j≠i → t.began j=s.began j) (he : ∀ j, j≠i → t.ended j=s.ended j)
    (hc : FreshAt decodeSegment jwksTTL t i c) : Listed decodeSegment jwksTTL t := by
  refine ⟨?_,?_⟩
  · rw [hkeys,hat,hfetches]
    exact h.keys
  · intro j
    rw [hcall]
    by_cases hji : j=i
    · rw [hji,Function.update_self]
      exact hc
    · rw [Function.update_of_ne hji]
      exact (h.calls j).congr (hb j hji) (he j hji)

omit [DecidableEq ι] in
/-- A held answer is fresh where the locals are. -/
theorem FreshAt.orHeld {l : Lookup} {err : String}
    (h : ∀ key, l.usable=some key → Held decodeSegment jwksTTL s i l.kid key)
    (hb : t.began i=s.began i) :
    FreshAt decodeSegment jwksTTL t i (.answered l.kid (l.orHeld err)) := by
  intro key hkey
  have hheld := h key (orHeld_ok.mp hkey)
  unfold Held at *
  rw [hb]
  exact Or.inr hheld

theorem knownKey_ok {keys : JwksKeys} {kid : String} {key : PublicKey} :
    knownKey keys kid=.ok key ↔ keys kid=some key := by
  unfold knownKey
  cases keys kid <;> simp

theorem Listed.step (hst : Stepped decodeSegment jwksTTL s e t)
    (h : Listed decodeSegment jwksTTL s) : Listed decodeSegment jwksTTL t := by
  have other : ∀ {β : Type} (f : ι → β) (i : ι) (b : β) (j : ι), j≠i →
      Function.update f i b j=f j := fun f i b j hj => Function.update_of_ne hj b f
  cases hst with
  | ticked d => exact ⟨h.keys,fun i => (h.calls i).congr rfl rfl⟩
  | @held i kid key hc hkey =>
    obtain ⟨f,rest,hf,hl,-⟩ := h.keys kid key hkey
    refine h.moved rfl rfl rfl rfl (other _ _ _) (other _ _ _) ?_
    intro key' hkey'
    cases hkey'
    exact Or.inl ⟨_,Function.update_self ..,f,rest,hf,hl⟩
  | @begun i kid usable hc hu =>
    refine h.moved rfl rfl rfl rfl (other _ _ _) (fun _ _ => rfl) ?_
    intro key hkey
    obtain ⟨hheld,hyoung⟩ := hu key hkey
    obtain ⟨f,rest,hf,hl,hat⟩ := h.keys kid key hheld
    obtain ⟨x,hx,hage⟩ := younger_iff.mp hyoung
    rw [hat,Option.some.injEq] at hx
    have hlimit : s.now≤f.time+(jwksTTL+jwksMaxStale) := by omega
    exact ⟨_,Function.update_self ..,f,rest,hf,hl,hlimit⟩
  | @shared i wait l key hc hwait hu =>
    have hi := h.calls i
    rw [hc] at hi
    refine h.moved rfl rfl rfl rfl (fun _ _ => rfl) (other _ _ _) ?_
    intro key' hkey'
    cases hkey'
    exact Or.inr (hi key hu)
  | waits hc hwait => exact h.moved rfl rfl rfl rfl (fun _ _ => rfl) (fun _ _ => rfl) trivial
  | @recent i l x hc hnone hx hlt =>
    have hi := h.calls i
    rw [hc] at hi
    exact h.moved rfl rfl rfl rfl (fun _ _ => rfl) (other _ _ _) (FreshAt.orHeld hi rfl)
  | @tries i l hc hnone hdue =>
    have hi := h.calls i
    rw [hc] at hi
    exact h.moved rfl rfl rfl rfl (fun _ _ => rfl) (fun _ _ => rfl) hi
  | gaveUp hc =>
    refine h.moved rfl rfl rfl rfl (fun _ _ => rfl) (other _ _ _) ?_
    intro key hkey
    cases hkey
  | woken hc hclosed => exact h.moved rfl rfl rfl rfl (fun _ _ => rfl) (fun _ _ => rfl) trivial
  | @going i p going returned r r' url hr hc hgo hp =>
    have hi := h.calls i
    rw [hc] at hi
    refine h.moved rfl rfl rfl rfl (fun _ _ => rfl) (fun _ _ => rfl) ?_
    obtain ⟨rfl,rfl⟩ | ⟨l,rfl,rfl⟩ := hr
    · trivial
    · exact hi
  | @failed i p going returned r err hr hc hin hp =>
    have hi := h.calls i
    rw [hc] at hi
    refine h.moved rfl rfl rfl rfl (fun _ _ => rfl) (fun _ _ => rfl) ?_
    obtain ⟨rfl,rfl⟩ | ⟨l,rfl,rfl⟩ := hr
    · trivial
    · exact hi
  | @fetched i going returned since doc keys hr hc hdoc =>
    have hi := h.calls i
    rw [hc] at hi
    refine ⟨?_,?_⟩
    · intro kid key hkey
      cases jwksOf_listed hdoc hkey with
      | inl hl => exact ⟨_,_,rfl,hl,rfl⟩
      | inr hno => cases hno
    · intro j
      by_cases hji : j=i
      · rw [hji]
        simp only [Function.update_self]
        obtain ⟨rfl,rfl⟩ | ⟨l,rfl,rfl⟩ := hr
        · trivial
        · exact hi
      · simp only [Function.update_of_ne hji]
        exact (h.calls j).congr rfl rfl
  | crashed hdoc => exact h.moved rfl rfl rfl rfl (fun _ _ => rfl) (fun _ _ => rfl) trivial
  | @cleared i l err hc =>
    have hi := h.calls i
    rw [hc] at hi
    exact h.moved rfl rfl rfl rfl (fun _ _ => rfl) (fun _ _ => rfl) hi
  | @closedFailed i l err hc =>
    have hi := h.calls i
    rw [hc] at hi
    exact h.moved rfl rfl rfl rfl (fun _ _ => rfl) (other _ _ _) (FreshAt.orHeld hi rfl)
  | closedFetched hc => exact h.moved rfl rfl rfl rfl (fun _ _ => rfl) (fun _ _ => rfl) trivial
  | @looked i kid hc =>
    refine h.moved rfl rfl rfl rfl (fun _ _ => rfl) (other _ _ _) ?_
    intro key hkey
    obtain ⟨f,rest,hf,hl,-⟩ := h.keys kid key (knownKey_ok.mp hkey)
    exact Or.inl ⟨_,Function.update_self ..,f,rest,hf,hl⟩
  | discovered hc => exact h.moved rfl rfl rfl rfl (fun _ _ => rfl) (fun _ _ => rfl) trivial
  | discovering hc => exact h.moved rfl rfl rfl rfl (fun _ _ => rfl) (fun _ _ => rfl) trivial

omit [DecidableEq ι] in
theorem start_listed (now : Nat) : Listed decodeSegment jwksTTL (start now : State ι) :=
  ⟨fun _ _ hkey => (nomatch hkey),fun _ => trivial⟩

/-- The fetch a call has begun isn't over. -/
def InFlight : Call ι → Prop
  | .fetching _ _ | .fetched _ _ => True
  | _ => False

/-- A call is yet to close the channel that others wait on. -/
def Closing : Call ι → Prop
  | .fetching _ _ | .fetched _ _ | .closing _ _ => True
  | _ => False

/-- Fetches of lookups begin apart, one at a time. -/
structure Spaced (s : State ι) : Prop where
  tries : s.tries.Pairwise fun later earlier => earlier+jwksMissRefresh≤later
  one : ∀ i j, InFlight (s.call i) → InFlight (s.call j) → i=j

structure Flagged (s : State ι) : Prop where
  tries : s.tries.Pairwise fun later earlier => earlier+jwksMissRefresh≤later
  tried : s.jwksTriedAt=s.tries.head?
  flag : ∀ i, InFlight (s.call i) → s.jwksFetching=some i

omit [DecidableEq ι] in
theorem Flagged.spaced (h : Flagged s) : Spaced s := by
  refine ⟨h.tries,?_⟩
  intro i j hi hj
  have heq := (h.flag i hi).symm.trans (h.flag j hj)
  exact Option.some.inj heq

theorem Flagged.moved {c : Call ι} (h : Flagged s) (htries : t.tries=s.tries)
    (htried : t.jwksTriedAt=s.jwksTriedAt) (hfetching : t.jwksFetching=s.jwksFetching)
    (hcall : t.call=Function.update s.call i c) (hc : InFlight c → InFlight (s.call i)) :
    Flagged t := by
  refine ⟨htries ▸ h.tries,?_,?_⟩
  · rw [htried,htries]
    exact h.tried
  · intro j hj
    rw [hfetching]
    rw [hcall] at hj
    by_cases hji : j=i
    · rw [hji,Function.update_self] at hj
      exact hji ▸ h.flag i (hc hj)
    · rw [Function.update_of_ne hji] at hj
      exact h.flag j hj

theorem Flagged.step (hst : Stepped decodeSegment jwksTTL s e t) (h : Flagged s) : Flagged t := by
  cases hst with
  | ticked d => exact ⟨h.tries,h.tried,h.flag⟩
  | held hc hkey => exact h.moved rfl rfl rfl rfl False.elim
  | begun hc hu => exact h.moved rfl rfl rfl rfl False.elim
  | shared hc hwait hu => exact h.moved rfl rfl rfl rfl False.elim
  | waits hc hwait => exact h.moved rfl rfl rfl rfl False.elim
  | recent hc hnone hx hlt => exact h.moved rfl rfl rfl rfl False.elim
  | @tries i l hc hnone hdue =>
    refine ⟨?_,rfl,?_⟩
    · refine List.pairwise_cons.mpr ⟨?_,h.tries⟩
      intro x hx
      -- the last try is over long enough, the earlier ones lie before it
      have hpair := h.tries
      have htried := h.tried
      cases htail : s.tries with
      | nil =>
        rw [htail] at hx
        cases hx
      | cons last rest =>
        rw [htail] at hx hpair htried
        have hlast := hdue last htried
        cases List.mem_cons.mp hx with
        | inl hxl => exact hxl ▸ hlast
        | inr hrest =>
          have hbefore := (List.pairwise_cons.mp hpair).1 x hrest
          omega
    · intro j hj
      by_cases hji : j=i
      · rw [hji]
      · have hj' : InFlight (s.call j) := by simpa only [Function.update_of_ne hji] using hj
        have hflag := h.flag j hj'
        rw [hnone] at hflag
        cases hflag
  | gaveUp hc => exact h.moved rfl rfl rfl rfl False.elim
  | woken hc hclosed => exact h.moved rfl rfl rfl rfl False.elim
  | going hr hc hgo hp =>
    refine h.moved rfl rfl rfl rfl ?_
    obtain ⟨rfl,rfl⟩ | ⟨l,rfl,rfl⟩ := hr
    · exact False.elim
    · rw [hc]
      exact id
  | failed hr hc hin hp =>
    refine h.moved rfl rfl rfl rfl ?_
    obtain ⟨rfl,rfl⟩ | ⟨l,rfl,rfl⟩ := hr
    · exact False.elim
    · rw [hc]
      exact id
  | fetched hr hc hdoc =>
    refine h.moved rfl rfl rfl rfl ?_
    obtain ⟨rfl,rfl⟩ | ⟨l,rfl,rfl⟩ := hr
    · exact False.elim
    · rw [hc]
      exact id
  | crashed hdoc => exact h.moved rfl rfl rfl rfl False.elim
  | @cleared i l err hc =>
    refine ⟨h.tries,h.tried,?_⟩
    intro j hj
    by_cases hji : j=i
    · have hj' : InFlight (Call.closing l err : Call ι) := by
        simpa only [State.goto,hji,Function.update_self] using hj
      exact hj'.elim
    · have hj' : InFlight (s.call j) := by
        simpa only [State.goto,Function.update_of_ne hji] using hj
      have hi : InFlight (s.call i) := by
        rw [hc]
        trivial
      exact absurd (h.spaced.one j i hj' hi) hji
  | closedFailed hc => exact h.moved rfl rfl rfl rfl False.elim
  | closedFetched hc => exact h.moved rfl rfl rfl rfl False.elim
  | looked hc => exact h.moved rfl rfl rfl rfl False.elim
  | discovered hc => exact h.moved rfl rfl rfl rfl False.elim
  | discovering hc => exact h.moved rfl rfl rfl rfl False.elim

omit [DecidableEq ι] in
theorem start_flagged (now : Nat) : Flagged (start now : State ι) :=
  ⟨.nil,rfl,fun _ hi => hi.elim⟩

end Kitp.IdpKeys
