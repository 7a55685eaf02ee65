import Kitp.Accounts
import Kitp.Claims
import Kitp.Lib.Runs
import Kitp.Lib.Steps
import Mathlib.Data.List.Induction

/-! The roles an account holds: what a sign-in makes of the token's role claim
(`applyIdPRoles`, `grantAdminIfInitMode`), `user_role.set` and `user_role.revoke`, and the
mapping of claim values to roles. -/
namespace Kitp.IdpRoles
open Kitp.Store Kitp.Accounts Kitp.SignIn Kitp.Runs Kitp.Steps

inductive Via where
  | manual
  | oidc
  deriving DecidableEq

/-- A row of `user_role`. -/
structure Grant where
  userId : Int
  roleId : Int
  scopeCardId : Option Int
  via : Via
  deriving DecidableEq

/-- An account, a role and a scope: what the table's two unique indexes are on. -/
abbrev Key := Int×Int×Option Int

def Grant.key (g : Grant) : Key := (g.userId,g.roleId,g.scopeCardId)

structure Login where
  id : Int
  parentUserId : Option Int
  deleted : Bool

structure State where
  logins : List Login
  roles : List Role
  mappings : List (String×Int)
  grants : List Grant
  /-- The row of `admin_bootstrap`. -/
  bootstrap : Option (Option Int)

structure Config where
  roleClaim : String
  defaultRole : String

/-- `INSERT … ON CONFLICT DO NOTHING`. -/
def add (g : Grant) (grants : List Grant) : List Grant :=
  if grants.any (·.key=g.key) then grants else grants++[g]

variable (cfg : Config) (s : State)

def roleNamed (name : String) : Option Role := s.roles.find? (·.name=name)

def isAdmin (roleId : Int) : Bool := s.roles.any fun r => r.id=roleId∧r.name="admin"

/-- The roles the claim's values map to, or the default one when none does. -/
def desired (claims : Claims) : List Int :=
  let mapped := (claimValues claims cfg.roleClaim).filterMap fun v => s.mappings.lookup v
  if mapped=[]∧cfg.defaultRole≠"" then ((roleNamed s cfg.defaultRole).map (·.id)).toList
  else mapped

/-- A workspace-wide grant by the IdP that the claims no longer justify. -/
def unjustified (user : Int) (wanted : List Int) (g : Grant) : Bool :=
  g.userId=user∧g.via=.oidc∧g.scopeCardId=none∧g.roleId∉wanted

def granted (user : Int) (wanted : List Int) : List Grant :=
  wanted.foldl (fun grants r => add ⟨user,r,none,.oidc⟩ grants) s.grants

/-- `applyIdPRoles`, and whether an admin role went. -/
def applyIdPRoles (user : Int) (claims : Claims) : State×Bool :=
  let wanted := desired cfg s claims
  let grants := granted s user wanted
  if claimPresent claims cfg.roleClaim then
    ({ s with grants := grants.filter (!unjustified user wanted ·) },
      grants.any fun g => unjustified user wanted g&&isAdmin s g.roleId)
  else ({ s with grants },false)

/-- `grantAdminIfInitMode`: the first sign-in of a workspace that never had an admin. -/
def grantAdminIfInitMode (user : Int) (revokedAdmin : Bool) : State :=
  match s.bootstrap with
  | some _ => s
  | none =>
    if revokedAdmin||s.grants.any fun g => isAdmin s g.roleId&&g.userId≠1 then
      { s with bootstrap := some none }
    else { s with
      bootstrap := some (some user)
      grants := (roleNamed s "admin").elim s.grants fun r => add ⟨user,r.id,none,.manual⟩ s.grants }

/-- The roles after a sign-in that reached the account. -/
def signIn (user : Int) (claims : Claims) : State :=
  let (s,revokedAdmin) := applyIdPRoles cfg s user claims
  grantAdminIfInitMode s user revokedAdmin

/-- One element of `inputs`, of `user_role.set` or `user_role.revoke`. -/
structure Input where
  userId : Option Int
  roleName : Option String
  scopeProjectId : Option Int

/-- The row a call is about. -/
def keyOf (process : String) (input : Input) : Except Refusal Key :=
  match input.userId.filter (·≠0),input.roleName.filter (·≠"") with
  | none,_ => .error ⟨"validation",process++": user_id is required"⟩
  | some _,none => .error ⟨"validation",process++": role_name is required"⟩
  | some user,some name =>
    match roleNamed s name with
    | none => .error ⟨"validation",process++": role "++quoteLiteral name++" not found"⟩
    | some r => .ok (user,r.id,input.scopeProjectId)

def deletedCheck (k : Key) : Except Refusal Unit :=
  if s.logins.any fun u => u.id=k.1∧u.deleted then
    .error ⟨"not_found",s!"user_role.set: user {k.1} not found"⟩
  else .ok ()

/-- An agent holds what its owner covers. -/
def ownerCheck (roleName : String) (k : Key) : Except Refusal Unit :=
  let held (owner : Int) : Bool := s.grants.any fun pr => pr.userId=owner&&
    roleCovers ⟨[],[],s.roles,[]⟩ pr.roleId k.2.1&&(pr.scopeCardId=none∨pr.scopeCardId=k.2.2)
  if ((s.logins.find? (·.id=k.1)).bind (·.parentUserId)).any fun owner => !held owner then
    .error ⟨"forbidden","user_role.set: an agent can only hold a role its owner holds or ranks above; its owner has no "++
      match k.2.2 with
      | none => "workspace-wide "++roleName++" role or higher"
      | some scope => roleName++s!" role or higher on project {scope}"⟩
  else .ok ()

/-- `user_role.set`, and the row it is about; foreign keys only ever refuse one. -/
def set (input : Input) : Except Refusal (State×Key) := do
  let k ← keyOf s "user_role.set" input
  deletedCheck s k
  ownerCheck s (input.roleName.getD "") k
  return ({ s with grants := add ⟨k.1,k.2.1,k.2.2,.manual⟩ s.grants },k)

/-- `user_role.revoke`. -/
def revoke (input : Input) : Except Refusal (State×Key) := do
  let k ← keyOf s "user_role.revoke" input
  return ({ s with grants := s.grants.filter (·.key≠k) },k)

/-- `role_mapping.set`. -/
def mapSet (claimValue roleName : Option String) : Except Refusal State :=
  match claimValue.filter (·≠""),roleName.filter (·≠"") with
  | none,_ => .error ⟨"validation","role_mapping.set: claim_value is required"⟩
  | some _,none => .error ⟨"validation","role_mapping.set: role_name is required"⟩
  | some v,some name =>
    match roleNamed s name with
    | none => .error ⟨"validation","role_mapping.set: role "++quoteLiteral name++" not found"⟩
    | some r => .ok { s with mappings := (v,r.id)::s.mappings.filter (·.1≠v) }

/-- `role_mapping.delete`. -/
def mapDelete (claimValue : Option String) : Except Refusal State :=
  match claimValue.filter (·≠"") with
  | none => .error ⟨"validation","role_mapping.delete: claim_value is required"⟩
  | some v => .ok { s with mappings := s.mappings.filter (·.1≠v) }

inductive Event where
  | signIn (user : Int) (claims : Claims)
  | set (input : Input)
  | revoke (input : Input)
  | mapSet (claimValue roleName : Option String)
  | mapDelete (claimValue : Option String)

/-- The tables, and what admins have granted that nobody has revoked since. -/
structure Tracked where
  state : State
  kept : List Key

def step (t : Tracked) : Event → Option Tracked
  | .signIn user claims => some ⟨signIn cfg t.state user claims,t.kept⟩
  | .set input => (set t.state input).toOption.map fun (s,k) => ⟨s,k::t.kept⟩
  | .revoke input => (revoke t.state input).toOption.map fun (s,k) => ⟨s,t.kept.filter (·≠k)⟩
  | .mapSet v name => (mapSet t.state v name).toOption.map fun s => ⟨s,t.kept⟩
  | .mapDelete v => (mapDelete t.state v).toOption.map fun s => ⟨s,t.kept⟩

/-- An admin grants a role where the account doesn't hold it by the IdP's grant. -/
def Tame (t : Tracked) : Event → Prop
  | .set input => ∀ k, keyOf t.state "user_role.set" input=.ok k →
    ∀ g∈t.state.grants, g.key=k → g.via=.manual
  | _ => True

variable {cfg} {s} {user r : Int} {claims : Claims} {grants : List Grant} {g h : Grant} {k : Key}

/-- The unique indexes. -/
def Unique (grants : List Grant) : Prop := ∀ g∈grants, ∀ h∈grants, g.key=h.key → g=h

theorem mem_add : g∈add h grants↔g∈grants∨(g=h∧∀ x∈grants, x.key≠h.key) := by
  unfold add
  by_cases hany : (grants.any (·.key=h.key))=true
  · rw [if_pos hany]
    have hx : ¬∀ x∈grants, x.key≠h.key := by
      simpa using hany
    simp [hx]
  · rw [if_neg hany]
    have hx : ∀ x∈grants, x.key≠h.key := by
      simpa using hany
    rw [List.mem_append,List.mem_singleton,and_iff_left hx]

theorem Unique.add (hu : Unique grants) (h : Grant) : Unique (add h grants) := by
  intro x hx y hy hkey
  rcases mem_add.mp hx with hold | ⟨hxh,hfree⟩
  · rcases mem_add.mp hy with hold' | ⟨hyh,hfree⟩
    · exact hu x hold y hold' hkey
    · exact absurd (hyh ▸ hkey) (hfree x hold)
  · rcases mem_add.mp hy with hold' | ⟨hyh,-⟩
    · exact absurd (hxh ▸ hkey.symm) (hfree y hold')
    · exact hxh.trans hyh.symm

theorem Unique.filter (hu : Unique grants) (p : Grant → Bool) : Unique (grants.filter p) :=
  fun x hx y hy => hu x (List.mem_filter.mp hx).1 y (List.mem_filter.mp hy).1

/-- The IdP's grants join what there is, where there is nothing. -/
theorem granted_spec (user : Int) (hu : Unique s.grants) (wanted : List Int) :
    Unique (granted s user wanted)∧∀ g, g∈granted s user wanted↔g∈s.grants∨
      ∃ r∈wanted, g=⟨user,r,none,.oidc⟩∧∀ x∈s.grants, x.key≠g.key := by
  induction wanted using List.reverseRecOn with
  | nil => exact ⟨hu,fun g => by simp [granted]⟩
  | append_singleton wanted r ih =>
    obtain ⟨hunique,hmem⟩ := ih
    have hstep : granted s user (wanted++[r])=add ⟨user,r,none,.oidc⟩ (granted s user wanted) := by
      simp [granted]
    rw [hstep]
    refine ⟨hunique.add _,fun g => ?_⟩
    rw [mem_add,hmem]
    constructor
    · rintro ((hg | ⟨q,hq,rfl,hfree⟩) | ⟨rfl,hfree⟩)
      · exact .inl hg
      · exact .inr ⟨q,List.mem_append_left _ hq,rfl,hfree⟩
      · refine .inr ⟨r,by simp,rfl,fun x hx => hfree x ((hmem x).mpr (.inl hx))⟩
    · rintro (hg | ⟨q,hq,rfl,hfree⟩)
      · exact .inl (.inl hg)
      · rcases List.mem_append.mp hq with hq | hq
        · exact .inl (.inr ⟨q,hq,rfl,hfree⟩)
        · rw [List.mem_singleton] at hq
          subst hq
          by_cases hold : q∈wanted
          · exact .inl (.inr ⟨q,hold,rfl,hfree⟩)
          · refine .inr ⟨rfl,fun x hx => ?_⟩
            rcases (hmem x).mp hx with hx | ⟨p,hp,rfl,-⟩
            · exact hfree x hx
            · intro hkey
              simp only [Grant.key,Prod.mk.injEq,true_and,and_true] at hkey
              exact hold (hkey ▸ hp)

theorem grantAdmin_spec (hu : Unique s.grants) (user : Int) (revoked : Bool) :
    Unique (grantAdminIfInitMode s user revoked).grants∧
      ∀ g, g∈(grantAdminIfInitMode s user revoked).grants↔g∈s.grants∨
        (g∈(grantAdminIfInitMode s user revoked).grants∧g.via=.manual∧g.scopeCardId=none∧
          ∀ x∈s.grants, x.key≠g.key) := by
  unfold grantAdminIfInitMode
  split
  · exact ⟨hu,fun g => ⟨.inl,fun h => h.elim id (·.1)⟩⟩
  · split
    · exact ⟨hu,fun g => ⟨.inl,fun h => h.elim id (·.1)⟩⟩
    · dsimp only
      cases roleNamed s "admin" with
      | none => exact ⟨hu,fun g => ⟨.inl,fun h => h.elim id (·.1)⟩⟩
      | some r =>
        refine ⟨hu.add _,fun g => ⟨fun hg => ?_,fun h => h.elim (fun hg => mem_add.mpr (.inl hg)) (·.1)⟩⟩
        rcases mem_add.mp hg with hold | ⟨rfl,hfree⟩
        · exact .inl hold
        · exact .inr ⟨hg,rfl,rfl,hfree⟩

theorem mem_applyIdPRoles : g∈(applyIdPRoles cfg s user claims).1.grants↔
    g∈granted s user (desired cfg s claims)∧¬(claimPresent claims cfg.roleClaim=true∧
      unjustified user (desired cfg s claims) g=true) := by
  unfold applyIdPRoles
  by_cases hsent : claimPresent claims cfg.roleClaim=true
  · rw [if_pos hsent,List.mem_filter]
    simp [hsent]
  · rw [if_neg hsent]
    simp [hsent]

theorem Unique.applyIdPRoles (hu : Unique s.grants) :
    Unique (applyIdPRoles cfg s user claims).1.grants := by
  obtain ⟨hgranted,-⟩ := granted_spec user hu (desired cfg s claims)
  exact fun g hg h hh => hgranted g (mem_applyIdPRoles.mp hg).1 h (mem_applyIdPRoles.mp hh).1

/-- A sign-in leaves what its claims leave, and adds at most a first admin's grant. -/
theorem mem_signIn (hu : Unique s.grants) : g∈(signIn cfg s user claims).grants↔
    g∈(applyIdPRoles cfg s user claims).1.grants∨(g∈(signIn cfg s user claims).grants∧
      g.via=.manual∧g.scopeCardId=none∧
        ∀ x∈(applyIdPRoles cfg s user claims).1.grants, x.key≠g.key) :=
  (grantAdmin_spec hu.applyIdPRoles user _).2 g

theorem Unique.signIn (hu : Unique s.grants) : Unique (signIn cfg s user claims).grants :=
  (grantAdmin_spec hu.applyIdPRoles user _).1

/-- Once the claim is sent, the IdP's workspace-wide grants are those it justifies, but for
roles held by hand. -/
theorem signIn_idp (hu : Unique s.grants) (hsent : claimPresent claims cfg.roleClaim=true) (r : Int) :
    ⟨user,r,none,.oidc⟩∈(signIn cfg s user claims).grants↔
      r∈desired cfg s claims∧⟨user,r,none,.manual⟩∉s.grants := by
  have hmem := (granted_spec user hu (desired cfg s claims)).2
  rw [mem_signIn hu,or_iff_left (fun h => by cases h.2.1),mem_applyIdPRoles,hmem]
  simp only [hsent,unjustified,true_and,decide_eq_true_eq,not_not]
  constructor
  · rintro ⟨hheld,hwanted⟩
    refine ⟨hwanted,fun hmanual => ?_⟩
    rcases hheld with hheld | ⟨q,-,hq,hfree⟩
    · cases hu _ hheld _ hmanual rfl
    · exact hfree _ hmanual rfl
  · rintro ⟨hwanted,hmanual⟩
    refine ⟨?_,hwanted⟩
    by_cases hheld : ∃ x∈s.grants, x.key=(user,r,none)
    · -- whoever holds it holds it by the IdP's grant
      obtain ⟨⟨u,q,scope,via⟩,hx,hkey⟩ := hheld
      cases hkey
      cases via with
      | manual => exact absurd hx hmanual
      | oidc => exact .inl hx
    · exact .inr ⟨r,hwanted,rfl,fun x hx hkey => hheld ⟨x,hx,hkey⟩⟩

theorem not_unjustified {wanted : List Int} (h : g.scopeCardId≠none∨g.via=.manual) :
    unjustified user wanted g=false := by
  rcases h with h | h <;> simp [unjustified,h]

/-- A role of a project stays as it is. -/
theorem signIn_scoped (hu : Unique s.grants) (hscope : g.scopeCardId≠none) :
    g∈(signIn cfg s user claims).grants↔g∈s.grants := by
  have hmem := (granted_spec user hu (desired cfg s claims)).2
  rw [mem_signIn hu,or_iff_left (fun h => hscope h.2.2.1),mem_applyIdPRoles,
    not_unjustified (.inl hscope),hmem]
  constructor
  · rintro ⟨hg | ⟨r,-,rfl,-⟩,-⟩
    · exact hg
    · exact absurd rfl hscope
  · exact fun hg => ⟨.inl hg,by simp⟩

/-- So does one that is held by hand. -/
theorem signIn_manual (hu : Unique s.grants) (hh : h∈s.grants) (hvia : h.via=.manual)
    (hkey : g.key=h.key) : g∈(signIn cfg s user claims).grants↔g∈s.grants := by
  have hmem := (granted_spec user hu (desired cfg s claims)).2
  have hstays {x : Grant} (hx : x∈s.grants) (hxvia : x.via=.manual) :
      x∈(applyIdPRoles cfg s user claims).1.grants := by
    rw [mem_applyIdPRoles,not_unjustified (.inr hxvia)]
    exact ⟨(hmem x).mpr (.inl hx),by simp⟩
  rw [mem_signIn hu]
  constructor
  · rintro (hg | ⟨-,-,-,hfree⟩)
    · rcases (hmem g).mp (mem_applyIdPRoles.mp hg).1 with hold | ⟨r,-,-,hfree⟩
      · exact hold
      · exact absurd hkey.symm (hfree h hh)
    · exact absurd hkey.symm (hfree h (hstays hh hvia))
  · intro hg
    have hgh := hu g hg h hh hkey
    exact .inl (hstays hg (hgh ▸ hvia))

/-- What admins granted is held by hand. -/
structure Kept (t : Tracked) : Prop where
  unique : Unique t.state.grants
  held : ∀ k∈t.kept, ∃ g∈t.state.grants, g.key=k∧g.via=.manual

theorem set_ok {input : Input} {s' : State} (h : set s input=.ok (s',k)) :
    keyOf s "user_role.set" input=.ok k∧
      s'={ s with grants := add ⟨k.1,k.2.1,k.2.2,.manual⟩ s.grants } := by
  unfold set at h
  obtain ⟨k',hk,h⟩ := bind_ok h
  obtain ⟨_,-,h⟩ := bind_ok h
  obtain ⟨_,-,h⟩ := bind_ok h
  cases h
  exact ⟨hk,rfl⟩

theorem revoke_ok {input : Input} {s' : State} (h : revoke s input=.ok (s',k)) :
    s'={ s with grants := s.grants.filter (·.key≠k) } := by
  unfold revoke at h
  obtain ⟨k',-,h⟩ := bind_ok h
  cases h
  rfl

theorem mapSet_grants {v name : Option String} {s' : State} (h : mapSet s v name=.ok s') :
    s'.grants=s.grants := by
  unfold mapSet at h
  split at h
  · cases h
  · cases h
  · split at h
    · cases h
    · cases h
      rfl

theorem mapDelete_grants {v : Option String} {s' : State} (h : mapDelete s v=.ok s') :
    s'.grants=s.grants := by
  unfold mapDelete at h
  split at h <;> cases h
  rfl

theorem step_keeps {t u : Tracked} {e : Event} (hk : Kept t) (hok : Tame t e)
    (hstep : step cfg t e=some u) : Kept u := by
  cases e with
  | signIn user claims =>
    cases hstep
    refine ⟨hk.unique.signIn,fun k hkept => ?_⟩
    obtain ⟨g,hg,hkey,hvia⟩ := hk.held k hkept
    exact ⟨g,(signIn_manual hk.unique hg hvia rfl).mpr hg,hkey,hvia⟩
  | set input =>
    obtain ⟨⟨s',k⟩,hset,rfl⟩ := Option.map_eq_some_iff.mp hstep
    obtain ⟨hkey,rfl⟩ := set_ok (ok_of_toOption hset)
    refine ⟨hk.unique.add _,fun k' hkept => ?_⟩
    rcases List.mem_cons.mp hkept with rfl | hkept
    · by_cases hheld : ∃ g∈t.state.grants, g.key=k'
      · obtain ⟨g,hg,hgk⟩ := hheld
        exact ⟨g,mem_add.mpr (.inl hg),hgk,hok k' hkey g hg hgk⟩
      · exact ⟨_,mem_add.mpr (.inr ⟨rfl,fun x hx hxk => hheld ⟨x,hx,hxk⟩⟩),rfl,rfl⟩
    · obtain ⟨g,hg,hgk,hvia⟩ := hk.held k' hkept
      exact ⟨g,mem_add.mpr (.inl hg),hgk,hvia⟩
  | revoke input =>
    obtain ⟨⟨s',k⟩,hrevoke,rfl⟩ := Option.map_eq_some_iff.mp hstep
    have hs := revoke_ok (ok_of_toOption hrevoke)
    subst hs
    refine ⟨hk.unique.filter _,fun k' hkept => ?_⟩
    obtain ⟨hkept,hne⟩ := List.mem_filter.mp hkept
    obtain ⟨g,hg,hgk,hvia⟩ := hk.held k' hkept
    exact ⟨g,List.mem_filter.mpr ⟨hg,by simpa [hgk] using hne⟩,hgk,hvia⟩
  | mapSet v name =>
    obtain ⟨s',hset,rfl⟩ := Option.map_eq_some_iff.mp hstep
    have hs := mapSet_grants (ok_of_toOption hset)
    exact ⟨hs ▸ hk.unique,hs ▸ hk.held⟩
  | mapDelete v =>
    obtain ⟨s',hset,rfl⟩ := Option.map_eq_some_iff.mp hstep
    have hs := mapDelete_grants (ok_of_toOption hset)
    exact ⟨hs ▸ hk.unique,hs ▸ hk.held⟩

/-- What the roles are after a sign-in, against those before it. -/
structure Follows (cfg : Config) (t : Tracked) (user : Int) (claims : Claims) : Prop where
  justified : claimPresent claims cfg.roleClaim=true → ∀ r,
    ⟨user,r,none,.oidc⟩∈(signIn cfg t.state user claims).grants↔
      r∈desired cfg t.state claims∧⟨user,r,none,.manual⟩∉t.state.grants
  projects : ∀ g : Grant, g.scopeCardId≠none →
    (g∈(signIn cfg t.state user claims).grants↔g∈t.state.grants)
  kept : ∀ k∈t.kept, (∃ g∈t.state.grants, g.key=k)∧
    ∀ g : Grant, g.key=k → (g∈(signIn cfg t.state user claims).grants↔g∈t.state.grants)

/-- Over such a run a sign-in's roles are those of its claims, and no role of a project and
none that an admin granted is touched. -/
theorem roles_follow {t u : Tracked} {es : List Event} (hk : Kept t)
    (hrun : Run (step cfg) Tame t es u) (user : Int) (claims : Claims) :
    Follows cfg u user claims := by
  have hu : Kept u := hrun.inv Kept (fun _ _ _ hI hok hst => step_keeps hI hok hst) hk
  refine ⟨fun hsent r => signIn_idp hu.unique hsent r,fun g hg => signIn_scoped hu.unique hg,
    fun k hkept => ?_⟩
  obtain ⟨h,hh,hkey,hvia⟩ := hu.held k hkept
  exact ⟨⟨h,hh,hkey⟩,fun g hg => signIn_manual hu.unique hh hvia (hg.trans hkey.symm)⟩

section Examples

def groups : Config := ⟨"groups","worker"⟩

/-- The group `lead` maps to `manager`. -/
def fresh : Tracked :=
  ⟨⟨[⟨1,none,false⟩,⟨2,none,false⟩],[⟨1,"admin",5⟩,⟨2,"worker",3⟩,⟨3,"manager",4⟩],[("lead",3)],[],
    some none⟩,[]⟩

def inGroup (group : String) : Claims := [("sub",.str "s"),("groups",.arr [.str group])]

def asManager : Input := ⟨some 2,some "manager",none⟩

theorem fresh_kept : Kept fresh :=
  ⟨fun _ hg => (nomatch hg),fun _ hk => (nomatch hk)⟩

/-- The admin's grant comes first, and outlives the group's. -/
theorem roles_follow_granted : ∃ u, Run (step groups) Tame fresh
    [.set asManager,.signIn 2 (inGroup "lead"),.signIn 2 (inGroup "other")] u∧
      Follows groups u 2 (inGroup "lead") := by
  have hrun : ∃ u, Run (step groups) Tame fresh
      [.set asManager,.signIn 2 (inGroup "lead"),.signIn 2 (inGroup "other")] u := by
    refine ⟨_,.cons ?_ rfl (.cons trivial rfl (.cons trivial rfl (.nil _)))⟩
    intro k _ g hg
    cases hg
  obtain ⟨u,hrun⟩ := hrun
  exact ⟨u,hrun,roles_follow fresh_kept hrun 2 (inGroup "lead")⟩

/-- The group's grant comes first, and takes the admin's with it. -/
theorem granted_role_goes : Kept fresh∧∃ u, Run (step groups) (fun _ _ => True) fresh
    [.signIn 2 (inGroup "lead"),.set asManager] u∧¬Follows groups u 2 (inGroup "other") := by
  have hend : ([Event.signIn 2 (inGroup "lead"),.set asManager].foldlM (step groups) fresh).map
      (fun u => (u.kept,u.state.grants,(signIn groups u.state 2 (inGroup "other")).grants))=
      some ([(2,3,none)],[⟨2,3,none,.oidc⟩],[⟨2,2,none,.oidc⟩]) := rfl
  obtain ⟨u,hu,hend⟩ := Option.map_eq_some_iff.mp hend
  simp only [Prod.mk.injEq] at hend
  obtain ⟨hkept,hbefore,hafter⟩ := hend
  refine ⟨fresh_kept,u,.of_foldlM hu (by simp),fun h => ?_⟩
  have hstays := (h.kept (2,3,none) (by simp [hkept])).2 ⟨2,3,none,.oidc⟩ rfl
  rw [hbefore,hafter] at hstays
  exact absurd (hstays.mpr (by simp)) (by decide)

end Examples

end Kitp.IdpRoles
