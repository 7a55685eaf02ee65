import Kitp.IdpRoles
import Kitp.PersonEmails

/-! `provisionUser`: the account a validated token's subject reaches, and what the sign-in
makes of its email, its person and its roles. -/
namespace Kitp.SignIn
open Kitp.Store Kitp.Accounts Kitp.PersonEmails Kitp.IdpRoles

inductive EmailTrust where
  | verifiedOnly
  | unlessRefused
  | always
  deriving DecidableEq

def EmailTrust.trusts (t : EmailTrust) (verified refused : Bool) : Bool :=
  match t with
  | .always => true
  | .unlessRefused => verified||!refused
  | .verifiedOnly => verified

structure Config extends IdpRoles.Config where
  kitpRoles : Bool
  requiredPairs : List (String×String)
  emailTrust : EmailTrust

/-- `textnorm`'s forms and Go's `strings`, beside the database's text functions. -/
structure Text extends PersonEmails.Text where
  name : String → String
  email : String → String
  trimSpace : String → String
  toLower : String → String

/-- A row of `user_account`. -/
structure UserAccount where
  id : Int
  oidcSub : Option String
  displayName : String
  email : Option String
  parentUserId : Option Int
  isAgent : Bool
  deleted : Bool
  loginRevoked : Bool
  revokedPersonCardId : Option Int
  deriving DecidableEq

structure Db where
  accounts : List UserAccount
  nextAccount : Int
  persons : List Person
  nextCard : Int
  /-- `user_account_person`. -/
  links : List AccountPerson
  emails : List Address
  roles : List Role
  mappings : List (String×Int)
  grants : List Grant
  bootstrap : Option (Option Int)

variable (cfg : Config) (text : Text) (db : Db)

/-- `claimBool`. -/
def claimBool : Option Json → Option Bool
  | some (.bool b) => some b
  | some (.str s) =>
    let s := text.toLower (text.trimSpace s)
    if s∈["true","1"] then some true else if s∈["false","0"] then some false else none
  | _ => none

/-- `emailVerification`: whether the IdP marks the email verified, and whether it refuses it. -/
def emailVerification (claims : Claims) : Bool×Bool :=
  match (claimBool text (claims.lookup "email_verified")).or
      (claimBool text (claims.lookup "xms_edov")) with
  | some v => (v,!v)
  | none => (false,false)

def displayName (sub : String) (claims : Claims) : String :=
  text.name <| [claimText claims "name",claimText claims "preferred_username",
    claimText claims "email"].find? (·≠"") |>.getD sub

def claimedEmail (claims : Claims) : String := text.email (claimText claims "email")

def emailTrusted (claims : Claims) : Bool :=
  cfg.emailTrust.trusts (emailVerification text claims).1 (emailVerification text claims).2

/-- The email the login keeps. -/
def loginEmail (claims : Claims) : String :=
  if emailTrusted cfg text claims then claimedEmail text claims else ""

/-- An email the IdP refuses, and that isn't believed. -/
def refusedEmail (claims : Claims) : String :=
  if !emailTrusted cfg text claims&&(emailVerification text claims).2 then claimedEmail text claims
  else ""

inductive Found where
  /-- The subject's own account. -/
  | held (id : Int)
  /-- One an admin set up, that nobody has signed in to. -/
  | prepared (id : Int)
  | nobody
  deriving DecidableEq

def Db.account (id : Int) : Option UserAccount := db.accounts.find? (·.id=id)

def Db.putAccount (id : Int) (f : UserAccount → UserAccount) : Db :=
  { db with accounts := db.accounts.map fun a => if a.id=id then f a else a }

/-- `ErrLoginRevoked`. -/
def loginRevokedText : String := "oidc: this login was removed by an admin"

/-- A revoked login holds the email. -/
def emailRevoked (email : String) : Bool :=
  db.accounts.any fun a => a.loginRevoked&&a.email.any (text.lower ·=text.lower email)

def isPrepared (email : String) (a : UserAccount) : Bool :=
  a.email.any (text.lower ·=email)&&a.oidcSub.isNone&&a.id≠1&&!a.isAgent&&a.parentUserId.isNone

/-- The oldest unclaimed account with the email. -/
def preCreated (email : String) : Option Int :=
  ((db.accounts.filter (isPrepared text email)).map (·.id)).min?

/-- The subject's account, or the one its email is for. -/
def accountFor (sub : String) (claims : Claims) : Except String Found :=
  match db.accounts.find? (·.oidcSub=some sub) with
  | some a => if a.loginRevoked then .error loginRevokedText else .ok (.held a.id)
  | none =>
    let email := claimedEmail text claims
    if email≠""∧emailTrusted cfg text claims then
      if emailRevoked text db email then .error loginRevokedText
      else .ok ((preCreated text db email).elim .nobody .prepared)
    else .ok .nobody

/-- The subject joins an account nobody had signed in to. -/
def attach (id : Int) (sub name : String) : Db :=
  db.putAccount id fun a =>
    { a with oidcSub := some sub, displayName := if a.displayName="" then name else a.displayName }

def Db.directory : Directory :=
  ⟨db.accounts.map fun a => ⟨a.id,a.parentUserId,a.isAgent⟩,
    db.grants.map fun g => ⟨g.userId,g.roleId,g.scopeCardId⟩,db.roles,db.links⟩

/-- A workspace-wide role of one of these names, now. -/
def holdsRole (names : List String) (user : Int) : Bool :=
  (userRoleEffective db.directory user).any fun ur =>
    ur.scopeCardId=none∧(db.roles.any fun r => r.id=ur.roleId∧r.name∈names)

/-- `user_is_global_admin`, as `activity_set_actor_admin` records it on the row. -/
def stamped (actor : Int) : Written := ⟨actor,some (holdsRole db ["admin","system"] actor)⟩

/-- Written by kitp, or by someone who was an admin then. -/
def trusted : Option Written → Bool
  | none => true
  | some a => a.actorId=1||a.actorAdmin.getD (holdsRole db ["admin"] a.actorId)

/-- A person card with the email, its login and whether that has signed in. -/
structure Match where
  personId : Int
  userAccountId : Option Int
  hasSub : Bool
  trusted : Bool
  deriving DecidableEq

def hasEmail (email : String) (p : Person) : Bool :=
  p.email.any fun e => text.lower e.1=text.lower email

def matchOf (p : Person) : Match :=
  let login := (db.links.find? (·.personCardId=p.id)).map (·.userAccountId)
  ⟨p.id,login,(login.bind db.account).any (·.oidcSub.isSome),p.email.any fun e => trusted db e.2⟩

/-- Of the live people with the email, one that can be reused first, then by id. -/
def personMatch (email : String) : Option Match :=
  let found := (db.persons.filter fun p => !p.deleted&&hasEmail text email p&&
    !db.accounts.any (·.revokedPersonCardId=some p.id)).map (matchOf db)
  let free := found.filter fun m => m.userAccountId.isNone&&m.trusted
  match (free.map (·.personId)).min? with
  | some id => free.find? (·.personId=id)
  | none => (found.map (·.personId)).min?.bind fun id => found.find? (·.personId=id)

/-- The person a new account takes over: one without a login, by an email that counts. -/
def reused (email : String) : Option Int :=
  match personMatch text db email with
  | none => none
  | some m =>
    if m.userAccountId.isSome∧!m.hasSub then none
    else if m.userAccountId.isNone∧!m.trusted then none
    else if m.userAccountId.isNone then some m.personId
    else none

def insertAccount (sub name email : String) : Db :=
  { db with
    accounts := db.accounts++[⟨db.nextAccount,some sub,name,if email="" then none else some email,
      none,false,false,false,none⟩]
    nextAccount := db.nextAccount+1 }

def mapPerson (id : Int) (f : Person → Person) : Db :=
  { db with persons := db.persons.map fun p => if p.id=id then f p else p }

/-- A contact's name gives way to the sign-in's own. -/
def retitleContact (person : Int) (name : String) : Db :=
  if text.trimSpace name="" then db
  else mapPerson db person fun p => if p.kind=some "contact" then { p with title := some name } else p

def elevatePersonKind (person : Int) : Db :=
  mapPerson db person fun p => { p with kind := some "member" }

/-- An account on a person card that is already there. -/
def joinPerson (person : Int) (sub name email : String) : Db :=
  let user := db.nextAccount
  let db := insertAccount db sub name email
  let db := { db with links := db.links++[⟨user,person⟩] }
  elevatePersonKind (retitleContact text db person name) person

/-- An account with a person card of its own. -/
def newPerson (sub name email claimed : String) : Db :=
  let user := db.nextAccount
  let db := insertAccount db sub name email
  { db with
    persons := db.persons++[⟨db.nextCard,false,some name,none,
      if claimed="" then none else some (claimed,some (stamped db user))⟩]
    nextCard := db.nextCard+1
    links := db.links++[⟨user,db.nextCard⟩] }

/-- The email an account keeps after its next sign-in. -/
def keptEmail (claims : Claims) (held : Option String) : Option String :=
  let email := loginEmail cfg text claims
  let refused := refusedEmail cfg text claims
  if email≠"" then some email
  else if refused≠""∧text.lower (held.getD "")=text.lower refused then none
  else held

def syncEmail (user : Int) (claims : Claims) : Db :=
  db.putAccount user fun a => { a with email := keptEmail cfg text claims a.email }

/-- A trusted email joins the addresses of the account's person. -/
def noteEmail (user : Int) (email prev : String) : Db :=
  if email="" then db
  else
    let (persons,emails) := noteSignin text.toText db.persons db.emails
      ((db.links.find? (·.userAccountId=user)).map (·.personCardId)) email prev (stamped db user)
    { db with persons, emails }

/-- What `Kitp.IdpRoles` says of the roles is about these tables. -/
def Db.idpRoles : IdpRoles.State :=
  ⟨db.accounts.map fun a => ⟨a.id,a.parentUserId,a.deleted⟩,db.roles,db.mappings,db.grants,
    db.bootstrap⟩

/-- `grantFirstSignInRole`: kitp's own grant, while the account holds no role. -/
def grantFirstSignInRole (s : IdpRoles.State) (user : Int) : IdpRoles.State :=
  if cfg.defaultRole=""∨s.grants.any (·.userId=user) then s
  else { s with grants :=
    (roleNamed s cfg.defaultRole).elim s.grants fun r => add ⟨user,r.id,none,.manual⟩ s.grants }

/-- The roles after the sign-in; `first` when the subject had no account. -/
def signInRoles (s : IdpRoles.State) (user : Int) (first : Bool) (claims : Claims) :
    IdpRoles.State :=
  if cfg.kitpRoles then
    grantAdminIfInitMode (if first then grantFirstSignInRole cfg s user else s) user false
  else IdpRoles.signIn cfg.toConfig s user claims

def setRoles (user : Int) (first : Bool) (claims : Claims) : Db :=
  let s := signInRoles cfg db.idpRoles user first claims
  { db with grants := s.grants, bootstrap := s.bootstrap }

/-- The account is signed in to: it keeps the email, and its person learns it. -/
def signedIn (user : Int) (first : Bool) (claims : Claims) : Db :=
  let prev := ((db.account user).bind (·.email)).getD ""
  let db := syncEmail cfg text db user claims
  setRoles cfg (noteEmail text db user (loginEmail cfg text claims) prev) user first claims

/-- `provisionUser`: the tables after it, the account reached and the name it goes by. -/
def provisionUser (sub : String) (claims : Claims) : Except String (Db×Int×String) := do
  let name := displayName text sub claims
  let email := loginEmail cfg text claims
  let user := db.nextAccount
  match ← accountFor cfg text db sub claims with
  | .held id => return (signedIn cfg text db id false claims,id,name)
  | .prepared id => return (signedIn cfg text (attach db id sub name) id true claims,id,name)
  | .nobody =>
    match (if email="" then none else reused text db email) with
    | some person =>
      return (signedIn cfg text (joinPerson text db person sub name email) user true claims,user,name)
    | none =>
      let db := newPerson db sub name email (claimedEmail text claims)
      return (setRoles cfg (noteEmail text db user email "") user true claims,user,name)

/-- What a sign-in's answer and the roles and login email it leaves depend on. -/
structure SameCore (d e : Db) : Prop where
  accounts : d.accounts=e.accounts
  nextAccount : d.nextAccount=e.nextAccount
  roles : d.roles=e.roles
  mappings : d.mappings=e.mappings
  grants : d.grants=e.grants
  bootstrap : d.bootstrap=e.bootstrap

/-- What finding the account does to it: the tables, the account and whether it is the
subject's first sign-in. -/
def arrive (sub : String) (claims : Claims) : Found → Db×Int×Bool
  | .held id => (syncEmail cfg text db id claims,id,false)
  | .prepared id =>
    (syncEmail cfg text (attach db id sub (displayName text sub claims)) id claims,id,true)
  | .nobody => (insertAccount db sub (displayName text sub claims) (loginEmail cfg text claims),
      db.nextAccount,true)

variable {cfg} {text} {db} {d e : Db} {sub : String} {claims : Claims} {user id : Int}

theorem SameCore.refl : SameCore d d := ⟨rfl,rfl,rfl,rfl,rfl,rfl⟩

theorem SameCore.symm (h : SameCore d e) : SameCore e d :=
  ⟨h.accounts.symm,h.nextAccount.symm,h.roles.symm,h.mappings.symm,h.grants.symm,h.bootstrap.symm⟩

theorem SameCore.trans {f : Db} (h : SameCore d e) (k : SameCore e f) : SameCore d f :=
  ⟨h.accounts.trans k.accounts,h.nextAccount.trans k.nextAccount,h.roles.trans k.roles,
    h.mappings.trans k.mappings,h.grants.trans k.grants,h.bootstrap.trans k.bootstrap⟩

theorem SameCore.idpRoles (h : SameCore d e) : d.idpRoles=e.idpRoles := by
  simp only [Db.idpRoles,h.accounts,h.roles,h.mappings,h.grants,h.bootstrap]

theorem SameCore.putAccount (h : SameCore d e) (id : Int) (f : UserAccount → UserAccount) :
    SameCore (d.putAccount id f) (e.putAccount id f) :=
  ⟨congrArg (List.map _) h.accounts,h.nextAccount,h.roles,h.mappings,h.grants,h.bootstrap⟩

theorem SameCore.insertAccount (h : SameCore d e) (sub name email : String) :
    SameCore (insertAccount d sub name email) (insertAccount e sub name email) :=
  ⟨by simp only [SignIn.insertAccount,h.accounts,h.nextAccount],
    congrArg (·+1) h.nextAccount,h.roles,h.mappings,h.grants,h.bootstrap⟩

theorem SameCore.setRoles (h : SameCore d e) (user : Int) (first : Bool) (claims : Claims) :
    SameCore (setRoles cfg d user first claims) (setRoles cfg e user first claims) :=
  ⟨h.accounts,h.nextAccount,h.roles,h.mappings,by simp only [SignIn.setRoles,h.idpRoles],
    by simp only [SignIn.setRoles,h.idpRoles]⟩

theorem SameCore.accountFor (h : SameCore d e) (cfg : Config) (text : Text) (sub : String)
    (claims : Claims) :
    accountFor cfg text d sub claims=accountFor cfg text e sub claims := by
  unfold SignIn.accountFor emailRevoked preCreated
  rw [h.accounts]

theorem SameCore.arrive (h : SameCore d e) (cfg : Config) (text : Text) (sub : String)
    (claims : Claims) (found : Found) :
    SameCore (arrive cfg text d sub claims found).1 (arrive cfg text e sub claims found).1∧
      (arrive cfg text d sub claims found).2=(arrive cfg text e sub claims found).2 := by
  cases found with
  | held id => exact ⟨h.putAccount id _,rfl⟩
  | prepared id => exact ⟨(h.putAccount id _).putAccount id _,rfl⟩
  | nobody => exact ⟨h.insertAccount _ _ _,congrArg (·,true) h.nextAccount⟩

theorem noteEmail_core (user : Int) (email prev : String) :
    SameCore (noteEmail text db user email prev) db := by
  unfold noteEmail
  split
  · exact .refl
  · exact ⟨rfl,rfl,rfl,rfl,rfl,rfl⟩

theorem signedIn_core (user : Int) (first : Bool) (claims : Claims) :
    SameCore (signedIn cfg text db user first claims)
      (setRoles cfg (syncEmail cfg text db user claims) user first claims) :=
  (noteEmail_core _ _ _).setRoles user first claims

theorem joinPerson_core (text : Text) (db : Db) (person : Int) (sub name email : String) :
    SameCore (joinPerson text db person sub name email) (insertAccount db sub name email) := by
  unfold joinPerson retitleContact
  dsimp only
  split <;> exact ⟨rfl,rfl,rfl,rfl,rfl,rfl⟩

/-- A new account already has the email a sign-in leaves it. -/
theorem syncEmail_insertAccount (hfresh : ∀ a∈db.accounts, a.id≠db.nextAccount) (sub name : String)
    (hemail : loginEmail cfg text claims≠"") :
    (syncEmail cfg text (insertAccount db sub name (loginEmail cfg text claims)) db.nextAccount
      claims).accounts=(insertAccount db sub name (loginEmail cfg text claims)).accounts := by
  have hold : db.accounts.map (fun a => if a.id=db.nextAccount then
      { a with email := keptEmail cfg text claims a.email } else a)=db.accounts := by
    refine (List.map_congr_left fun a ha => ?_).trans (List.map_id _)
    rw [if_neg (hfresh a ha),id_eq]
  simp only [syncEmail,Db.putAccount,insertAccount,List.map_append,hold]
  simp [keptEmail,hemail]

theorem provision_error {msg : String} (h : accountFor cfg text db sub claims=.error msg) :
    provisionUser cfg text db sub claims=.error msg := by
  unfold provisionUser
  rw [h]
  rfl

/-- A sign-in's account, its roles and its login email, whatever person it gets. -/
theorem provision_ok (hfresh : ∀ a∈db.accounts, a.id≠db.nextAccount) {found : Found}
    (h : accountFor cfg text db sub claims=.ok found) :
    let reached := arrive cfg text db sub claims found
    ∃ db', provisionUser cfg text db sub claims=.ok (db',reached.2.1,displayName text sub claims)∧
      SameCore db' (setRoles cfg reached.1 reached.2.1 reached.2.2 claims) := by
  unfold provisionUser
  rw [h]
  cases found with
  | held id => exact ⟨_,rfl,signedIn_core _ _ _⟩
  | prepared id => exact ⟨_,rfl,signedIn_core _ _ _⟩
  | nobody =>
    generalize hperson : (if loginEmail cfg text claims="" then none
      else reused text db (loginEmail cfg text claims))=person
    cases person with
    | none =>
      refine ⟨_,by simp only [bind,Except.bind,hperson]; rfl,?_⟩
      have hnew : SameCore (newPerson db sub (displayName text sub claims)
          (loginEmail cfg text claims) (claimedEmail text claims))
          (insertAccount db sub (displayName text sub claims) (loginEmail cfg text claims)) :=
        ⟨rfl,rfl,rfl,rfl,rfl,rfl⟩
      exact ((noteEmail_core _ _ _).trans hnew).setRoles _ _ _
    | some person =>
      refine ⟨_,by simp only [bind,Except.bind,hperson]; rfl,?_⟩
      have hemail : loginEmail cfg text claims≠"" := fun hempty => by simp [hempty] at hperson
      have hjoin := joinPerson_core text db person sub
        (displayName text sub claims) (loginEmail cfg text claims)
      have hsync := hjoin.putAccount db.nextAccount fun a =>
        { a with email := keptEmail cfg text claims a.email }
      refine (signedIn_core _ _ _).trans ((hsync.trans ?_).setRoles _ _ _)
      exact ⟨syncEmail_insertAccount hfresh sub _ hemail,rfl,rfl,rfl,rfl,rfl⟩

/-- The keys of the tables. -/
structure Sound (db : Db) : Prop where
  ids : ∀ a∈db.accounts, ∀ b∈db.accounts, a.id=b.id → a=b
  fresh : ∀ a∈db.accounts, a.id<db.nextAccount
  subs : ∀ a∈db.accounts, ∀ b∈db.accounts, ∀ s, a.oidcSub=some s → b.oidcSub=some s → a=b
  grants : Unique db.grants

theorem mem_putAccount {f : UserAccount → UserAccount} {b : UserAccount} :
    b∈(db.putAccount id f).accounts↔∃ a∈db.accounts, (if a.id=id then f a else a)=b :=
  List.mem_map

/-- The account a subject reaches: its own; else, without one, the account its email is for or
a new one. -/
theorem accountFor_cases {found : Found} (h : accountFor cfg text db sub claims=.ok found) :
    (∃ a∈db.accounts, a.oidcSub=some sub∧a.loginRevoked=false∧found=.held a.id)∨
      ((∀ a∈db.accounts, a.oidcSub≠some sub)∧(found=.nobody∨∃ a∈db.accounts,
        isPrepared text (claimedEmail text claims) a=true∧claimedEmail text claims≠""∧
          emailTrusted cfg text claims=true∧found=.prepared a.id)) := by
  unfold accountFor at h
  split at h
  · rename_i a ha
    have hsub := List.find?_some ha
    split at h
    · cases h
    · rename_i hlive
      cases h
      exact .inl ⟨a,List.mem_of_find?_eq_some ha,by simpa using hsub,by simpa using hlive,rfl⟩
  · rename_i hnone
    refine .inr ⟨by simpa using hnone,?_⟩
    dsimp only at h
    split at h
    · rename_i hemail
      split at h
      · cases h
      · generalize hfound : preCreated text db (claimedEmail text claims)=found at h
        cases found with
        | none =>
          cases h
          exact .inl rfl
        | some id =>
          cases h
          obtain ⟨a,ha,rfl⟩ := List.mem_map.mp (List.min?_mem hfound)
          obtain ⟨ha,hprepared⟩ := List.mem_filter.mp ha
          exact .inr ⟨a,ha,hprepared,hemail.1,hemail.2,rfl⟩
    · cases h
      exact .inl rfl

theorem keptEmail_keptEmail (held : Option String) :
    keptEmail cfg text claims (keptEmail cfg text claims held)=keptEmail cfg text claims held := by
  by_cases hemail : loginEmail cfg text claims=""
  · by_cases hrefused : refusedEmail cfg text claims≠""∧
        text.lower (held.getD "")=text.lower (refusedEmail cfg text claims)
    · have hkept : keptEmail cfg text claims held=none := by simp [keptEmail,hemail,hrefused]
      rw [hkept]
      simp [keptEmail,hemail]
    · have hkept : keptEmail cfg text claims held=held := by
        simp only [keptEmail,hemail,ne_eq,not_true_eq_false,if_false,if_neg hrefused]
      rw [hkept,hkept]
  · simp [keptEmail,hemail]

theorem Sound.putAccount (hs : Sound db) {f : UserAccount → UserAccount}
    (hid : ∀ a, (f a).id=a.id)
    (hsub : ∀ a∈db.accounts, a.id=id → ∀ s, (f a).oidcSub=some s →
      ∀ b∈db.accounts, b.oidcSub=some s → b.id=id) : Sound (db.putAccount id f) := by
  have hkeep (a : UserAccount) : (if a.id=id then f a else a).id=a.id := by
    split
    · exact hid a
    · rfl
  refine ⟨fun x hx y hy hxy => ?_,fun x hx => ?_,fun x hx y hy s hxs hys => ?_,hs.grants⟩
  · obtain ⟨a,ha,rfl⟩ := mem_putAccount.mp hx
    obtain ⟨b,hb,rfl⟩ := mem_putAccount.mp hy
    rw [hkeep,hkeep] at hxy
    rw [hs.ids a ha b hb hxy]
  · obtain ⟨a,ha,rfl⟩ := mem_putAccount.mp hx
    rw [hkeep]
    exact hs.fresh a ha
  · obtain ⟨a,ha,rfl⟩ := mem_putAccount.mp hx
    obtain ⟨b,hb,rfl⟩ := mem_putAccount.mp hy
    have hab : a=b := by
      by_cases haid : a.id=id
      · by_cases hbid : b.id=id
        · exact hs.ids a ha b hb (haid.trans hbid.symm)
        · rw [if_pos haid] at hxs
          rw [if_neg hbid] at hys
          exact absurd (hsub a ha haid s hxs b hb hys) hbid
      · rw [if_neg haid] at hxs
        by_cases hbid : b.id=id
        · rw [if_pos hbid] at hys
          exact absurd (hsub b hb hbid s hys a ha hxs) haid
        · rw [if_neg hbid] at hys
          exact hs.subs a ha b hb s hxs hys
    rw [hab]

theorem Sound.syncEmail (hs : Sound db) (user : Int) (claims : Claims) :
    Sound (syncEmail cfg text db user claims) :=
  hs.putAccount (fun _ => rfl) fun a ha haid s has b hb hbs => by
    rw [hs.subs b hb a ha s hbs has,haid]

theorem Sound.insertAccount (hs : Sound db) {sub : String} (name email : String)
    (hsub : ∀ a∈db.accounts, a.oidcSub≠some sub) : Sound (insertAccount db sub name email) := by
  refine ⟨fun a ha b hb hab => ?_,fun a ha => ?_,fun a ha b hb s has hbs => ?_,hs.grants⟩
  · rcases List.mem_append.mp ha with ha | ha <;> rcases List.mem_append.mp hb with hb | hb
    · exact hs.ids a ha b hb hab
    · rw [List.mem_singleton.mp hb] at hab
      exact absurd hab (Int.ne_of_lt (hs.fresh a ha))
    · rw [List.mem_singleton.mp ha] at hab
      exact absurd hab.symm (Int.ne_of_lt (hs.fresh b hb))
    · exact (List.mem_singleton.mp ha).trans (List.mem_singleton.mp hb).symm
  · show a.id<db.nextAccount+1
    rcases List.mem_append.mp ha with ha | ha
    · have := hs.fresh a ha
      omega
    · rw [List.mem_singleton.mp ha]
      show db.nextAccount<db.nextAccount+1
      omega
  · rcases List.mem_append.mp ha with ha | ha <;> rcases List.mem_append.mp hb with hb | hb
    · exact hs.subs a ha b hb s has hbs
    · rw [List.mem_singleton.mp hb] at hbs
      exact absurd (has.trans hbs.symm) (hsub a ha)
    · rw [List.mem_singleton.mp ha] at has
      exact absurd (hbs.trans has.symm) (hsub b hb)
    · exact (List.mem_singleton.mp ha).trans (List.mem_singleton.mp hb).symm

/-- What a sign-in makes of the accounts. -/
structure Arrived (cfg : Config) (text : Text) (db d : Db) (sub : String) (claims : Claims)
    (user : Int) : Prop where
  sound : Sound d
  account : ∃ a∈d.accounts, a.id=user∧a.oidcSub=some sub∧keptEmail cfg text claims a.email=a.email
  others : ∀ a∈db.accounts, a.id≠user → a∈d.accounts
  mine : ∀ a∈db.accounts, a.id=user → a.oidcSub=some sub∨a.oidcSub=none
  roles : d.roles=db.roles
  mappings : d.mappings=db.mappings
  grants : d.grants=db.grants
  bootstrap : d.bootstrap=db.bootstrap

theorem Sound.arrive (hs : Sound db) {found : Found}
    (h : accountFor cfg text db sub claims=.ok found) :
    Arrived cfg text db (arrive cfg text db sub claims found).1 sub claims
      (arrive cfg text db sub claims found).2.1 := by
  obtain ⟨a,ha,hasub,-,rfl⟩ | ⟨hfirst,rfl | ⟨a,ha,hprepared,-,-,rfl⟩⟩ := accountFor_cases h
  · refine ⟨hs.syncEmail a.id claims,⟨_,mem_putAccount.mpr ⟨a,ha,rfl⟩,?_⟩,
      fun b hb hne => mem_putAccount.mpr ⟨b,hb,if_neg hne⟩,
      fun b hb hbid => .inl (hs.ids a ha b hb hbid.symm ▸ hasub),rfl,rfl,rfl,rfl⟩
    rw [if_pos rfl]
    exact ⟨rfl,hasub,keptEmail_keptEmail _⟩
  · refine ⟨hs.insertAccount _ _ hfirst,⟨_,List.mem_append_right _ (List.mem_singleton_self _),
      rfl,rfl,?_⟩,fun b hb _ => List.mem_append_left _ hb,
      fun b hb hbid => absurd hbid (Int.ne_of_lt (hs.fresh b hb)),rfl,rfl,rfl,rfl⟩
    by_cases hemail : loginEmail cfg text claims="" <;> simp [keptEmail,hemail]
  · have hnosub : a.oidcSub=none := by
      simp only [isPrepared,Bool.and_eq_true,Option.isNone_iff_eq_none] at hprepared
      exact hprepared.1.1.1.2
    have hattach : Sound (attach db a.id sub (displayName text sub claims)) :=
      hs.putAccount (fun _ => rfl) fun _ _ _ s has b hb hbs =>
        absurd (hbs.trans has.symm) (hfirst b hb)
    refine ⟨hattach.syncEmail a.id claims,
      ⟨_,mem_putAccount.mpr ⟨_,mem_putAccount.mpr ⟨a,ha,rfl⟩,rfl⟩,?_⟩,
      fun b hb hne => mem_putAccount.mpr ⟨b,mem_putAccount.mpr ⟨b,hb,if_neg hne⟩,if_neg hne⟩,
      fun b hb hbid => .inr (hs.ids a ha b hb hbid.symm ▸ hnosub),rfl,rfl,rfl,rfl⟩
    rw [if_pos rfl,if_pos rfl]
    exact ⟨rfl,rfl,keptEmail_keptEmail _⟩

section Roles

variable {s : IdpRoles.State} {g : Grant} {first revoked : Bool}

theorem grantAdmin_bootstrapped : (grantAdminIfInitMode s user revoked).bootstrap≠none := by
  unfold grantAdminIfInitMode
  split
  · rename_i hboot
    rw [hboot]
    exact Option.some_ne_none _
  · split <;> exact Option.some_ne_none _

theorem grantAdmin_old (hboot : s.bootstrap≠none) : grantAdminIfInitMode s user revoked=s := by
  obtain ⟨row,hrow⟩ := Option.ne_none_iff_exists'.mp hboot
  unfold grantAdminIfInitMode
  rw [hrow]

/-- The first admin's grant is the account's own. -/
theorem grantAdmin_other (hg : g.userId≠user) :
    g∈(grantAdminIfInitMode s user revoked).grants↔g∈s.grants := by
  unfold grantAdminIfInitMode
  split
  · rfl
  · split
    · rfl
    · dsimp only
      cases roleNamed s "admin" with
      | none => rfl
      | some r =>
        refine mem_add.trans ⟨fun h => h.elim id fun h => ?_,.inl⟩
        exact absurd (congrArg Grant.userId h.1) hg

theorem grantFirst_other (hg : g.userId≠user) :
    g∈(grantFirstSignInRole cfg s user).grants↔g∈s.grants := by
  unfold grantFirstSignInRole
  split
  · rfl
  · dsimp only
    cases roleNamed s cfg.defaultRole with
    | none => rfl
    | some r =>
      refine mem_add.trans ⟨fun h => h.elim id fun h => ?_,.inl⟩
      exact absurd (congrArg Grant.userId h.1) hg

theorem grantFirst_unique (hu : Unique s.grants) :
    Unique (grantFirstSignInRole cfg s user).grants := by
  unfold grantFirstSignInRole
  split
  · exact hu
  · dsimp only
    cases roleNamed s cfg.defaultRole with
    | none => exact hu
    | some r => exact hu.add _

theorem applyIdPRoles_other (hu : Unique s.grants) (hg : g.userId≠user) :
    g∈(applyIdPRoles cfg.toConfig s user claims).1.grants↔g∈s.grants := by
  rw [mem_applyIdPRoles,(granted_spec user hu _).2]
  have hfree : unjustified user (desired cfg.toConfig s claims) g=false := by
    simp [unjustified,hg]
  rw [hfree]
  refine ⟨fun h => ?_,fun h => ⟨.inl h,by simp⟩⟩
  cases h.1 with
  | inl h => exact h
  | inr h =>
    obtain ⟨r,-,hr,-⟩ := h
    exact absurd (congrArg Grant.userId hr) hg

theorem signInRoles_unique (hu : Unique s.grants) :
    Unique (signInRoles cfg s user first claims).grants := by
  unfold signInRoles
  split
  · refine (grantAdmin_spec ?_ user false).1
    split
    · exact grantFirst_unique hu
    · exact hu
  · exact hu.signIn

/-- A sign-in leaves everybody else's roles. -/
theorem signInRoles_other (hu : Unique s.grants) (hg : g.userId≠user) :
    g∈(signInRoles cfg s user first claims).grants↔g∈s.grants := by
  unfold signInRoles
  split
  · rw [grantAdmin_other hg]
    split
    · exact grantFirst_other hg
    · rfl
  · exact (grantAdmin_other hg).trans (applyIdPRoles_other hu hg)

theorem signInRoles_bootstrapped : (signInRoles cfg s user first claims).bootstrap≠none := by
  unfold signInRoles
  split
  · exact grantAdmin_bootstrapped
  · exact grantAdmin_bootstrapped

/-- The roles a token asks for, held; and no more by the IdP when it names them. -/
structure Justified (cfg : Config) (s : IdpRoles.State) (user : Int) (claims : Claims) : Prop where
  held : ∀ r∈desired cfg.toConfig s claims, ∃ g∈s.grants, g.key=(user,r,none)
  only : claimPresent claims cfg.roleClaim=true →
    ∀ g∈s.grants, unjustified user (desired cfg.toConfig s claims) g=false

/-- A sign-in writes grants and the bootstrap row alone. -/
theorem signInRoles_rest (cfg : Config) (s : IdpRoles.State) (user : Int) (first : Bool)
    (claims : Claims) : (signInRoles cfg s user first claims).logins=s.logins∧
      (signInRoles cfg s user first claims).roles=s.roles∧
      (signInRoles cfg s user first claims).mappings=s.mappings := by
  unfold signInRoles grantFirstSignInRole IdpRoles.signIn applyIdPRoles grantAdminIfInitMode
  grind

theorem desired_congr {t : IdpRoles.State} (hroles : s.roles=t.roles)
    (hmappings : s.mappings=t.mappings) (c : Claims) :
    desired cfg.toConfig s c=desired cfg.toConfig t c := by
  unfold desired roleNamed
  rw [hroles,hmappings]

theorem desired_signInRoles (cfg : Config) (s : IdpRoles.State) (user : Int) (first : Bool)
    (claims c : Claims) : desired cfg.toConfig (signInRoles cfg s user first claims) c=
      desired cfg.toConfig s c := by
  obtain ⟨-,hroles,hmappings⟩ := signInRoles_rest cfg s user first claims
  exact desired_congr hroles hmappings c

theorem setRoles_idpRoles : (setRoles cfg db user first claims).idpRoles=
    signInRoles cfg db.idpRoles user first claims := by
  obtain ⟨hlogins,hroles,hmappings⟩ := signInRoles_rest cfg db.idpRoles user first claims
  change IdpRoles.State.mk db.idpRoles.logins db.idpRoles.roles db.idpRoles.mappings
    (signInRoles cfg db.idpRoles user first claims).grants
    (signInRoles cfg db.idpRoles user first claims).bootstrap=_
  generalize signInRoles cfg db.idpRoles user first claims=s at hlogins hroles hmappings ⊢
  rw [← hlogins,← hroles,← hmappings]

theorem signInRoles_justified (hu : Unique s.grants) (hidp : cfg.kitpRoles=false) :
    Justified cfg (signInRoles cfg s user first claims) user claims := by
  have hsame := desired_signInRoles cfg s user first claims claims
  have hrun : signInRoles cfg s user first claims=IdpRoles.signIn cfg.toConfig s user claims := by
    rw [signInRoles,if_neg (by simp [hidp])]
  refine ⟨fun r hr => ?_,fun hsent g hg => ?_⟩
  · rw [hsame] at hr
    rw [hrun]
    obtain ⟨g,hg,hkey⟩ : ∃ g∈granted s user (desired cfg.toConfig s claims), g.key=(user,r,none) := by
      by_cases hheld : ∃ g∈s.grants, g.key=(user,r,none)
      · obtain ⟨g,hg,hkey⟩ := hheld
        exact ⟨g,((granted_spec user hu _).2 g).mpr (.inl hg),hkey⟩
      · exact ⟨_,((granted_spec user hu _).2 _).mpr
          (.inr ⟨r,hr,rfl,fun x hx hkey => hheld ⟨x,hx,hkey⟩⟩),rfl⟩
    refine ⟨g,(mem_signIn hu).mpr (.inl (mem_applyIdPRoles.mpr ⟨hg,fun h => ?_⟩)),hkey⟩
    have hrole : g.roleId=r := congrArg (·.2.1) hkey
    simp [unjustified,hrole,hr] at h
  · rw [hsame]
    rw [hrun,mem_signIn hu,mem_applyIdPRoles] at hg
    rcases hg with hg | ⟨-,hmanual,-⟩
    · simpa [hsent] using hg.2
    · simp [unjustified,hmanual]

theorem add_held {grants : List Grant} (h : ∃ x∈grants, x.key=g.key) : add g grants=grants := by
  obtain ⟨x,hx,hkey⟩ := h
  rw [IdpRoles.add,if_pos (List.any_eq_true.mpr ⟨x,hx,decide_eq_true hkey⟩)]

/-- Claims whose roles are held change none. -/
theorem signInRoles_same (hboot : s.bootstrap≠none)
    (hheld : cfg.kitpRoles=false → Justified cfg s user claims) :
    signInRoles cfg s user false claims=s := by
  cases hidp : cfg.kitpRoles with
  | true =>
    rw [signInRoles,if_pos hidp]
    exact grantAdmin_old hboot
  | false =>
    obtain ⟨hheld,honly⟩ := hheld hidp
    have hgranted : granted s user (desired cfg.toConfig s claims)=s.grants := by
      unfold granted
      generalize desired cfg.toConfig s claims=wanted at hheld
      induction wanted with
      | nil => rfl
      | cons r wanted ih =>
        rw [List.foldl_cons,add_held (hheld r List.mem_cons_self)]
        exact ih fun q hq => hheld q (List.mem_cons_of_mem _ hq)
    have happly : applyIdPRoles cfg.toConfig s user claims=(s,false) := by
      unfold applyIdPRoles
      dsimp only
      rw [hgranted]
      split
      · rename_i hsent
        have hkeep : s.grants.filter (!unjustified user (desired cfg.toConfig s claims) ·)=s.grants :=
          List.filter_eq_self.mpr fun g hg => by simp [honly hsent g hg]
        have hgone : (s.grants.any fun g => unjustified user (desired cfg.toConfig s claims) g&&
            isAdmin s g.roleId)=false :=
          List.any_eq_false.mpr fun g hg => by simp [honly hsent g hg]
        rw [hkeep,hgone]
      · rfl
    rw [signInRoles,if_neg (by simp [hidp]),IdpRoles.signIn,happly]
    exact grantAdmin_old hboot

end Roles

end Kitp.SignIn
