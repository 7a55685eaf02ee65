import Kitp.SignIn

/-! `Resolve` with its per-subject cache against provisioning on every token. -/
namespace Kitp.SignIn
open Kitp.Accounts Kitp.PersonEmails Kitp.IdpRoles Kitp.Runs Kitp.Steps

variable {Digest : Type*} [DecidableEq Digest]

/-- A `subRecord`. -/
structure Record (Digest : Type*) where
  userId : Int
  displayName : String
  claimsHash : Digest
  expiresAt : Int

structure Server (Digest : Type*) where
  db : Db
  subCache : String → Option (Record Digest)

variable (cfg : Config) (text : Text) (digest : List (String×Json) → Digest) (subTTL : Int)

def hashedKeys : List String := ["sub","groups","email","name","preferred_username"]

/-- What `claimsHash` writes to its digest. -/
def hashed (claims : Claims) : List (String×Json) :=
  hashedKeys.filterMap fun k => (claims.lookup k).map (k,·)

def claimsHash (claims : Claims) : Digest := digest (hashed claims)

/-- The subject of a token that meets the required claims. -/
def admitted (claims : Claims) : Except String String :=
  let sub := claimText claims "sub"
  if sub="" then .error "oidc: token has empty sub"
  else
    let missing (pair : String×String) : Bool := match claims.lookup pair.1 with
      | some (.str val) => val≠pair.2
      | _ => true
    match cfg.requiredPairs.find? missing with
    | some pair => .error ("oidc: required claim "++pair.1++"="++pair.2++" not present")
    | none => .ok sub

def loginRevoked (db : Db) (user : Int) : Bool := (db.account user).elim true (·.loginRevoked)

abbrev Answer := Except String (Int×String)

/-- A failed provisioning leaves the tables as they were. -/
def provisioned (db : Db) (sub : String) (claims : Claims) : Db×Answer :=
  match provisionUser cfg text db sub claims with
  | .ok (db,user,name) => (db,.ok (user,name))
  | .error e => (db,.error e)

/-- `Resolve` without its cache. -/
def resolveUncached (db : Db) (claims : Claims) : Db×Answer :=
  match admitted cfg claims with
  | .error e => (db,.error e)
  | .ok sub => provisioned cfg text db sub claims

/-- The record a token may be answered from. -/
def unexpired (s : Server Digest) (sub : String) (now : Int) (claims : Claims) :
    Option (Record Digest) :=
  (s.subCache sub).filter fun r => r.claimsHash=claimsHash digest claims∧now < r.expiresAt

/-- The record a token is answered from: its login isn't revoked. -/
def hit (s : Server Digest) (sub : String) (now : Int) (claims : Claims) : Option (Record Digest) :=
  (unexpired digest s sub now claims).filter fun r => !loginRevoked s.db r.userId

/-- A token that isn't answered from the cache. -/
def missed (s : Server Digest) (sub : String) (now : Int) (claims : Claims) : Server Digest×Answer :=
  let cache := if (unexpired digest s sub now claims).isSome then
    Function.update s.subCache sub none else s.subCache
  match provisioned cfg text s.db sub claims with
  | (db,.ok (user,name)) =>
    (⟨db,Function.update cache sub (some ⟨user,name,claimsHash digest claims,now+subTTL⟩)⟩,
      .ok (user,name))
  | (db,.error e) => (⟨db,cache⟩,.error e)

/-- `Resolve`. -/
def resolve (s : Server Digest) (now : Int) (claims : Claims) : Server Digest×Answer :=
  match admitted cfg claims with
  | .error e => (s,.error e)
  | .ok sub =>
    match hit digest s sub now claims with
    | some r => (s,.ok (r.userId,r.displayName))
    | none => missed cfg text digest subTTL s sub now claims

structure Token where
  now : Int
  claims : Claims

/-- The server, the tables as they would be without its cache, what each answered, and the
claims that made a subject's record. -/
structure Both (Digest : Type*) where
  server : Server Digest
  plain : Db
  answers : List (Answer×Answer)
  made : String → Claims

def start (db : Db) : Both Digest := ⟨⟨db,fun _ => none⟩,db,[],fun _ => []⟩

def step (b : Both Digest) (t : Token) : Option (Both Digest) :=
  let (server,answer) := resolve cfg text digest subTTL b.server t.now t.claims
  let (plain,answer') := resolveUncached cfg text b.plain t.claims
  let sub := claimText t.claims "sub"
  let kept := (hit digest b.server sub t.now t.claims).isSome||!answer.toOption.isSome
  some ⟨server,plain,b.answers++[(answer,answer')],
    if kept then b.made else Function.update b.made sub t.claims⟩

/-- Alike in the claims provisioning reads beside the hashed ones. -/
structure ReadAlike (c d : Claims) : Prop where
  loginEmail : loginEmail cfg text c=loginEmail cfg text d
  refusedEmail : refusedEmail cfg text c=refusedEmail cfg text d
  present : cfg.kitpRoles=false → claimPresent c cfg.roleClaim=claimPresent d cfg.roleClaim
  values : cfg.kitpRoles=false → claimValues c cfg.roleClaim=claimValues d cfg.roleClaim

/-- A token answered from the cache is like the one that made the record. -/
def Tame (b : Both Digest) (t : Token) : Prop :=
  ∀ r, hit digest b.server (claimText t.claims "sub") t.now t.claims=some r →
    ReadAlike cfg text (b.made (claimText t.claims "sub")) t.claims

variable {cfg} {text} {digest} {subTTL} {db d e : Db} {sub : String} {claims claims' : Claims}
  {user now : Int} {b c : Both Digest}

theorem lookup_hashed (keys : List String) (claims : Claims) (k : String) :
    (keys.filterMap fun k => (claims.lookup k).map (k,·)).lookup k=
      if k∈keys then claims.lookup k else none := by
  induction keys with
  | nil => rfl
  | cons j keys ih =>
    cases hj : claims.lookup j with
    | none =>
      rw [List.filterMap_cons,hj,Option.map_none,ih]
      by_cases hk : k=j
      · simp [hk,hj]
      · simp [hk]
    | some v =>
      rw [List.filterMap_cons,hj,Option.map_some,List.lookup_cons]
      by_cases hk : k=j
      · simp [hk,hj]
      · have hne : (k==j)=false := by simpa using hk
        rw [ih,hne]
        simp [hk]

omit [DecidableEq Digest] in
/-- Tokens of one hash are alike in the claims it covers. -/
theorem lookup_of_hash (hd : Function.Injective digest)
    (h : claimsHash digest claims=claimsHash digest claims') {k : String} (hk : k∈hashedKeys) :
    claims.lookup k=claims'.lookup k := by
  have hsame : hashed claims=hashed claims' := hd h
  have hlookup := congrArg (List.lookup k) hsame
  simpa only [hashed,lookup_hashed,if_pos hk] using hlookup

omit [DecidableEq Digest] in
theorem displayName_of_hash (hd : Function.Injective digest)
    (h : claimsHash digest claims=claimsHash digest claims') :
    displayName text sub claims=displayName text sub claims' := by
  unfold displayName claimText
  rw [lookup_of_hash hd h (by decide),lookup_of_hash hd h (by decide),
    lookup_of_hash hd h (by decide : "email"∈hashedKeys)]

/-- What signing in again with the same claims would leave as it is. -/
structure Settled (cfg : Config) (text : Text) (db : Db) (user : Int) (sub : String)
    (claims : Claims) : Prop where
  account : ∃ a∈db.accounts, a.id=user∧a.oidcSub=some sub∧keptEmail cfg text claims a.email=a.email
  bootstrapped : db.bootstrap≠none
  justified : cfg.kitpRoles=false → Justified cfg db.idpRoles user claims

theorem SameCore.sound (h : SameCore d e) (hs : Sound d) : Sound e :=
  ⟨h.accounts ▸ hs.ids,by rw [← h.accounts,← h.nextAccount]; exact hs.fresh,h.accounts ▸ hs.subs,
    h.grants ▸ hs.grants⟩

theorem Settled.sameCore (h : SameCore d e) (hset : Settled cfg text d user sub claims) :
    Settled cfg text e user sub claims :=
  ⟨h.accounts ▸ hset.account,h.bootstrap ▸ hset.bootstrapped,
    fun hidp => h.idpRoles ▸ hset.justified hidp⟩

theorem desired_alike (h : claimValues claims cfg.roleClaim=claimValues claims' cfg.roleClaim)
    (s : IdpRoles.State) :
    desired cfg.toConfig s claims=desired cfg.toConfig s claims' := by
  simp only [desired,h]

theorem Justified.alike {s : IdpRoles.State} (hidp : cfg.kitpRoles=false)
    (h : ReadAlike cfg text claims claims') (hj : Justified cfg s user claims) :
    Justified cfg s user claims' :=
  ⟨desired_alike (h.values hidp) s ▸ hj.held,
    fun hsent => desired_alike (h.values hidp) s ▸ hj.only ((h.present hidp).trans hsent)⟩

theorem keptEmail_alike (h : ReadAlike cfg text claims claims') (held : Option String) :
    keptEmail cfg text claims held=keptEmail cfg text claims' held := by
  simp only [keptEmail,h.loginEmail,h.refusedEmail]

/-- A subject whose account is settled reaches it, and changes nothing. -/
theorem Settled.again (hs : Sound db) (hset : Settled cfg text db user sub claims)
    (halike : ReadAlike cfg text claims claims') (hlive : loginRevoked db user=false) :
    ∃ db', provisionUser cfg text db sub claims'=.ok (db',user,displayName text sub claims')∧
      SameCore db' db := by
  obtain ⟨a,ha,rfl,hasub,hkept⟩ := hset.account
  have hfind (p : UserAccount → Bool) (hp : p a=true) (honly : ∀ x∈db.accounts, p x=true → x=a) :
      db.accounts.find? p=some a := by
    cases hf : db.accounts.find? p with
    | none => exact absurd hp (List.find?_eq_none.mp hf a ha)
    | some x => rw [honly x (List.mem_of_find?_eq_some hf) (List.find?_some hf)]
  have hrow : db.account a.id=some a :=
    hfind _ (by simp) fun x hx hxid => hs.ids x hx a ha (by simpa using hxid)
  have hrevoked : a.loginRevoked=false := by
    rwa [loginRevoked,hrow] at hlive
  have hfor : accountFor cfg text db sub claims'=.ok (.held a.id) := by
    unfold accountFor
    rw [hfind _ (by simp [hasub]) fun x hx hxsub => hs.subs x hx a ha sub (by simpa using hxsub) hasub]
    simp [hrevoked]
  obtain ⟨db',hok,hcore⟩ := provision_ok (fun x hx => Int.ne_of_lt (hs.fresh x hx)) hfor
  refine ⟨db',hok,hcore.trans ?_⟩
  have hkept' : keptEmail cfg text claims' a.email=a.email :=
    (keptEmail_alike halike a.email).symm.trans hkept
  have hsync : (syncEmail cfg text db a.id claims').accounts=db.accounts := by
    refine (List.map_congr_left fun x hx => ?_).trans (List.map_id _)
    split
    · rename_i hxid
      rw [hs.ids x hx a ha hxid]
      show { a with email := keptEmail cfg text claims' a.email }=a
      rw [hkept']
    · rfl
  have hcore' : SameCore (syncEmail cfg text db a.id claims') db := ⟨hsync,rfl,rfl,rfl,rfl,rfl⟩
  refine (hcore'.setRoles a.id false claims').trans ?_
  have hroles : signInRoles cfg db.idpRoles a.id false claims'=db.idpRoles :=
    signInRoles_same hset.bootstrapped fun hidp => (hset.justified hidp).alike hidp halike
  exact ⟨rfl,rfl,rfl,rfl,congrArg IdpRoles.State.grants hroles,
    congrArg IdpRoles.State.bootstrap hroles⟩

theorem Arrived.setRoles {first : Bool} (h : Arrived cfg text db d sub claims user) :
    Sound (setRoles cfg d user first claims)∧
      Settled cfg text (setRoles cfg d user first claims) user sub claims := by
  refine ⟨⟨h.sound.ids,h.sound.fresh,h.sound.subs,signInRoles_unique h.sound.grants⟩,h.account,
    signInRoles_bootstrapped,fun hidp => ?_⟩
  rw [setRoles_idpRoles]
  exact signInRoles_justified h.sound.grants hidp

/-- A sign-in leaves what another subject's has settled. -/
theorem Arrived.settled {first : Bool} {user' : Int} {sub' : String}
    (h : Arrived cfg text db d sub claims user) (hne : sub'≠sub)
    (hset : Settled cfg text db user' sub' claims') :
    Settled cfg text (SignIn.setRoles cfg d user first claims) user' sub' claims' := by
  obtain ⟨a,ha,rfl,hasub,hkept⟩ := hset.account
  have huser : a.id≠user := fun hid => by
    rcases h.mine a ha hid with hmine | hmine <;> rw [hasub] at hmine
    · exact hne (Option.some.inj hmine)
    · cases hmine
  have hroles : d.idpRoles.grants=db.idpRoles.grants := h.grants
  have hwanted : desired cfg.toConfig (SignIn.setRoles cfg d user first claims).idpRoles claims'=
      desired cfg.toConfig db.idpRoles claims' := by
    rw [setRoles_idpRoles,desired_signInRoles]
    exact desired_congr h.roles h.mappings claims'
  have hsame {g : Grant} (hg : g.userId=a.id) :
      g∈(SignIn.setRoles cfg d user first claims).grants↔g∈db.grants :=
    (signInRoles_other h.sound.grants (hg ▸ huser)).trans (by rw [hroles]; rfl)
  refine ⟨⟨a,h.others a ha huser,rfl,hasub,hkept⟩,signInRoles_bootstrapped,fun hidp => ?_⟩
  obtain ⟨hheld,honly⟩ := hset.justified hidp
  refine ⟨fun r hr => ?_,fun hsent g hg => ?_⟩
  · obtain ⟨g,hg,hkey⟩ := hheld r (hwanted ▸ hr)
    exact ⟨g,(hsame (congrArg Prod.fst hkey)).mpr hg,hkey⟩
  · rw [hwanted]
    by_cases hmine : g.userId=a.id
    · exact honly hsent g ((hsame hmine).mp hg)
    · simp [unjustified,hmine]

/-- Tables alike but for the people are alike after a token, and answer it alike. -/
theorem provisioned_alike (hcore : SameCore d e) (hs : Sound e) (sub : String) (claims : Claims) :
    (provisioned cfg text d sub claims).2=(provisioned cfg text e sub claims).2∧
      SameCore (provisioned cfg text d sub claims).1 (provisioned cfg text e sub claims).1 := by
  have hfor := hcore.accountFor cfg text sub claims
  have hsd := hcore.symm.sound hs
  unfold provisioned
  cases hfound : accountFor cfg text e sub claims with
  | error msg =>
    rw [provision_error hfound,provision_error (hfor.trans hfound)]
    exact ⟨rfl,hcore⟩
  | ok found =>
    obtain ⟨d',hd,hdcore⟩ := provision_ok (fun a ha => Int.ne_of_lt (hsd.fresh a ha))
      (hfor.trans hfound)
    obtain ⟨e',he,hecore⟩ := provision_ok (fun a ha => Int.ne_of_lt (hs.fresh a ha)) hfound
    obtain ⟨harrive,huser⟩ := hcore.arrive cfg text sub claims found
    rw [hd,he]
    dsimp only
    rw [huser] at hdcore ⊢
    exact ⟨rfl,(hdcore.trans (harrive.setRoles _ _ _)).trans hecore.symm⟩

/-- What a token's provisioning leaves. -/
structure Provisioned (cfg : Config) (text : Text) (db : Db) (sub : String) (claims : Claims)
    (d : Db) (answer : Answer) : Prop where
  sound : Sound d
  settled : ∀ user name, answer=.ok (user,name) →
    name=displayName text sub claims∧Settled cfg text d user sub claims
  others : ∀ user sub' claims', sub'≠sub∨answer.toOption=none →
    Settled cfg text db user sub' claims' → Settled cfg text d user sub' claims'

theorem Sound.provisioned (hs : Sound db) (sub : String) (claims : Claims) :
    Provisioned cfg text db sub claims (provisioned cfg text db sub claims).1
      (provisioned cfg text db sub claims).2 := by
  unfold SignIn.provisioned
  cases hfound : accountFor cfg text db sub claims with
  | error msg =>
    rw [provision_error hfound]
    exact ⟨hs,fun _ _ h => (by cases h),fun _ _ _ _ h => h⟩
  | ok found =>
    obtain ⟨d,hd,hcore⟩ := provision_ok (fun a ha => Int.ne_of_lt (hs.fresh a ha)) hfound
    have harrived := hs.arrive hfound
    rw [hd]
    refine ⟨hcore.symm.sound harrived.setRoles.1,fun user name h => ?_,fun _ _ _ hne hset => ?_⟩
    · cases h
      exact ⟨rfl,harrived.setRoles.2.sameCore hcore.symm⟩
    · exact (harrived.settled (hne.resolve_right (by simp [Except.toOption])) hset).sameCore
        hcore.symm

/-- The two sides agree so far, and what the cache holds is settled. -/
structure Agree (cfg : Config) (text : Text) (digest : List (String×Json) → Digest)
    (b : Both Digest) : Prop where
  core : SameCore b.server.db b.plain
  answers : ∀ a∈b.answers, a.1=a.2
  sound : Sound b.plain
  kept : ∀ sub r, b.server.subCache sub=some r → r.claimsHash=claimsHash digest (b.made sub)∧
    r.displayName=displayName text sub (b.made sub)∧
      Settled cfg text b.plain r.userId sub (b.made sub)

theorem admitted_sub (h : admitted cfg claims=.ok sub) : sub=claimText claims "sub" := by
  unfold admitted at h
  dsimp only at h
  split at h
  · cases h
  · split at h
    · cases h
    · exact (Except.ok.inj h).symm

theorem hit_spec {s : Server Digest} {r : Record Digest} (h : hit digest s sub now claims=some r) :
    s.subCache sub=some r∧r.claimsHash=claimsHash digest claims∧loginRevoked s.db r.userId=false := by
  obtain ⟨h,hlive⟩ := Option.filter_eq_some_iff.mp h
  obtain ⟨hcached,hvalid⟩ := Option.filter_eq_some_iff.mp h
  simp only [decide_eq_true_eq,Bool.not_eq_true'] at hvalid hlive
  exact ⟨hcached,hvalid.1,hlive⟩

theorem answers_append {answers : List (Answer×Answer)} {p q : Answer}
    (h : ∀ a∈answers, a.1=a.2) (hpq : p=q) : ∀ a∈answers++[(p,q)], a.1=a.2 := by
  intro a ha
  rcases List.mem_append.mp ha with ha | ha
  · exact h a ha
  · rw [List.mem_singleton.mp ha]
    exact hpq

/-- A token answered from the cache. -/
theorem hit_agree (hd : Function.Injective digest) (hI : Agree cfg text digest b)
    {r : Record Digest} (hhit : hit digest b.server sub now claims=some r)
    (halike : ReadAlike cfg text (b.made sub) claims) :
    (provisioned cfg text b.plain sub claims).2=.ok (r.userId,r.displayName)∧
      SameCore (provisioned cfg text b.plain sub claims).1 b.plain := by
  obtain ⟨hcached,hhash,hlive⟩ := hit_spec hhit
  obtain ⟨hmade,hname,hset⟩ := hI.kept sub r hcached
  have hlive' : loginRevoked b.plain r.userId=false := by
    rwa [loginRevoked,Db.account,← hI.core.accounts]
  obtain ⟨d,hok,hcore⟩ := hset.again hI.sound halike hlive'
  unfold provisioned
  rw [hok]
  refine ⟨?_,hcore⟩
  rw [hname,displayName_of_hash hd (hmade.symm.trans hhash)]

/-- A token that isn't answered from the cache. -/
theorem missed_agree (hI : Agree cfg text digest b) (sub : String) (now : Int) (claims : Claims) :
    let out := missed cfg text digest subTTL b.server sub now claims
    let plain := provisioned cfg text b.plain sub claims
    Agree cfg text digest ⟨out.1,plain.1,b.answers++[(out.2,plain.2)],
      if !out.2.toOption.isSome then b.made else Function.update b.made sub claims⟩ := by
  have hspec : Provisioned cfg text b.plain sub claims _ _ := hI.sound.provisioned sub claims
  obtain ⟨hsame,hcore⟩ : (provisioned cfg text b.server.db sub claims).2=
      (provisioned cfg text b.plain sub claims).2∧SameCore _ _ :=
    provisioned_alike hI.core hI.sound sub claims
  have hcache {sub' : String} {r : Record Digest}
      (hr : (if (unexpired digest b.server sub now claims).isSome then
        Function.update b.server.subCache sub none else b.server.subCache) sub'=some r) :
      b.server.subCache sub'=some r := by
    split at hr
    · by_cases hsub : sub'=sub
      · rw [hsub,Function.update_self] at hr
        cases hr
      · rwa [Function.update_of_ne hsub] at hr
    · exact hr
  dsimp only
  unfold missed
  dsimp only
  generalize provisioned cfg text b.server.db sub claims=p at hsame hcore ⊢
  generalize provisioned cfg text b.plain sub claims=q at hspec hsame hcore ⊢
  obtain ⟨d,answer⟩ := p
  obtain ⟨e,answer'⟩ := q
  obtain rfl : answer=answer' := hsame
  cases answer with
  | error msg =>
    refine ⟨hcore,answers_append hI.answers rfl,hspec.sound,fun sub' r hr => ?_⟩
    obtain ⟨hmade,hname,hset⟩ := hI.kept sub' r (hcache hr)
    exact ⟨hmade,hname,hspec.others _ _ _ (.inr rfl) hset⟩
  | ok reached =>
    obtain ⟨user,name⟩ := reached
    refine ⟨hcore,answers_append hI.answers rfl,hspec.sound,fun sub' r hr => ?_⟩
    by_cases hsub : sub'=sub
    · subst hsub
      obtain rfl := Option.some.inj ((Function.update_self sub' _ _).symm.trans hr)
      simpa [Except.toOption] using hspec.settled user name rfl
    · have hr' := hcache ((Function.update_of_ne hsub _ _).symm.trans hr)
      obtain ⟨hmade,hname,hset⟩ := hI.kept sub' r hr'
      simp only [Except.toOption,Option.isSome_some,Bool.not_true,Bool.false_eq_true,if_false,
        Function.update_of_ne hsub]
      exact ⟨hmade,hname,hspec.others _ _ _ (.inl hsub) hset⟩

theorem step_agree (hd : Function.Injective digest) (hI : Agree cfg text digest b) {t : Token}
    (hok : Tame cfg text digest b t) (hst : step cfg text digest subTTL b t=some c) :
    Agree cfg text digest c := by
  unfold step at hst
  cases hsub : admitted cfg t.claims with
  | error msg =>
    have hserver : resolve cfg text digest subTTL b.server t.now t.claims=(b.server,.error msg) := by
      rw [resolve,hsub]
    have hplain : resolveUncached cfg text b.plain t.claims=(b.plain,.error msg) := by
      rw [resolveUncached,hsub]
    rw [hserver,hplain] at hst
    cases hst
    exact ⟨hI.core,answers_append hI.answers rfl,hI.sound,by simpa [Except.toOption] using hI.kept⟩
  | ok sub =>
    have hplain : resolveUncached cfg text b.plain t.claims=provisioned cfg text b.plain sub t.claims := by
      rw [resolveUncached,hsub]
    have hspec : Provisioned cfg text b.plain sub t.claims _ _ := hI.sound.provisioned sub t.claims
    cases hhit : hit digest b.server sub t.now t.claims with
    | some r =>
      have hserver : resolve cfg text digest subTTL b.server t.now t.claims=
          (b.server,.ok (r.userId,r.displayName)) := by
        simp only [resolve,hsub,hhit]
      have halike := hok r (admitted_sub hsub ▸ hhit)
      rw [← admitted_sub hsub] at halike
      obtain ⟨hanswer,hcore⟩ := hit_agree hd hI hhit halike
      rw [hserver,hplain,← admitted_sub hsub] at hst
      cases hst
      simp only [hhit,Option.isSome_some,Bool.true_or,if_true]
      refine ⟨hI.core.trans hcore.symm,answers_append hI.answers hanswer.symm,hspec.sound,?_⟩
      intro sub' r' hr'
      obtain ⟨hmade,hname,hset⟩ := hI.kept sub' r' hr'
      exact ⟨hmade,hname,hset.sameCore hcore.symm⟩
    | none =>
      have hserver : resolve cfg text digest subTTL b.server t.now t.claims=
          missed cfg text digest subTTL b.server sub t.now t.claims := by
        simp only [resolve,hsub,hhit]
      rw [hserver,hplain,← admitted_sub hsub] at hst
      cases hst
      simp only [hhit,Option.isSome_none,Bool.false_or]
      exact missed_agree hI sub t.now t.claims

/-- Over any tokens each like the one whose record answers it, the cache changes no answer, no
role and no login email. -/
theorem cached_agrees (hd : Function.Injective digest) (hs : Sound db) {ts : List Token}
    (h : Run (step cfg text digest subTTL) (Tame cfg text digest) (start db) ts b) :
    (∀ a∈b.answers, a.1=a.2)∧SameCore b.server.db b.plain := by
  have hI : Agree cfg text digest b :=
    h.inv (Agree cfg text digest) (fun _ _ _ hI hok hst => step_agree hd hI hok hst)
      ⟨.refl,fun _ ha => (by cases ha),hs,fun _ _ hr => (by cases hr)⟩
  exact ⟨hI.answers,hI.core⟩

section Examples

/-- Roles come from the claim `roles`. -/
def byRoles : Config := ⟨⟨"roles",""⟩,false,[],.unlessRefused⟩

def plainText : Text := ⟨⟨id,(· = ' '),fun _ => false⟩,id,id,id,id⟩

/-- The value `admins` maps to `admin`; nobody has signed in. -/
def unused : Db :=
  ⟨[⟨1,none,"System",none,none,false,false,false,none⟩],2,[],10,[],[],[⟨5,"admin",5⟩],
    [("admins",5)],[],some none⟩

def withRoles (roles : List String) : Claims :=
  [("sub",.str "s"),("name",.str "Ann"),("roles",.arr (roles.map .str))]

theorem unused_sound : Sound unused := by
  refine ⟨fun a ha b hb _ => ?_,fun a ha => ?_,fun a ha b _ s h _ => ?_,fun _ hg => nomatch hg⟩
  · rw [List.mem_singleton.mp ha,List.mem_singleton.mp hb]
  · rw [List.mem_singleton.mp ha]
    decide
  · rw [List.mem_singleton.mp ha] at h
    cases h

/-- The same claims twice within five minutes: the second token is answered from the cache. -/
theorem cached_agrees_twice : ∃ b, Run (step byRoles plainText id 300) (Tame byRoles plainText id)
    (start unused) [⟨0,withRoles ["admins"]⟩,⟨60,withRoles ["admins"]⟩] b∧
      (∀ a∈b.answers, a.1=a.2)∧SameCore b.server.db b.plain := by
  have hrun : ∃ b, Run (step byRoles plainText id 300) (Tame byRoles plainText id)
      (start unused) [⟨0,withRoles ["admins"]⟩,⟨60,withRoles ["admins"]⟩] b := by
    refine ⟨_,.cons (fun r hr => ?_) rfl (.cons (fun r _ => ?_) rfl (.nil _))⟩
    · cases hr
    · exact ⟨rfl,rfl,fun _ => rfl,fun _ => rfl⟩
  obtain ⟨b,hrun⟩ := hrun
  exact ⟨b,hrun,cached_agrees Function.injective_id unused_sound hrun⟩

/-- A minute later the token's roles are gone: with the cache the account keeps them. -/
theorem role_outlives_claim : Sound unused∧∃ b, Run (step byRoles plainText id 300)
    (fun _ _ => True) (start unused) [⟨0,withRoles ["admins"]⟩,⟨60,withRoles []⟩] b∧
      ¬((∀ a∈b.answers, a.1=a.2)∧SameCore b.server.db b.plain) := by
  have hend : ([Token.mk 0 (withRoles ["admins"]),⟨60,withRoles []⟩].foldlM
      (step byRoles plainText id 300) (start unused)).map
        (fun b => (b.server.db.grants,b.plain.grants))=some ([⟨2,5,none,.oidc⟩],[]) := rfl
  obtain ⟨b,hb,hend⟩ := Option.map_eq_some_iff.mp hend
  simp only [Prod.mk.injEq] at hend
  refine ⟨unused_sound,b,.of_foldlM hb (by simp),fun h => ?_⟩
  have hgrants := h.2.grants
  rw [hend.1,hend.2] at hgrants
  cases hgrants

end Examples

end Kitp.SignIn
