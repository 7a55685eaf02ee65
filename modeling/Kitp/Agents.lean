import Kitp.Visibility
import Mathlib.Data.Finset.Basic
import Mathlib.Data.Fintype.EquivFin

/-! An agent and its owner: what the one may see and do the other may. -/
namespace Kitp.Agents
open Kitp.Store Kitp.Accounts Kitp.Visibility

/-- The tables' ids are keys. -/
structure Keyed (dir : Directory) : Prop where
  accounts : (dir.accounts.map (·.id)).Nodup
  roles : (dir.roles.map (·.id)).Nodup

/-- A role's grants contain those of the roles it covers. -/
def Nested (dir : Directory) (g : Grants) : Prop :=
  ∀ holder, ∀ rg∈g.roleGrants, roleCovers dir holder rg.roleId=true →
    { rg with roleId := holder }∈g.roleGrants

/-- An account with an owner, who is no agent: an agent makes none. -/
structure Agent (dir : Directory) where
  account : Account
  owner : Account
  mem : account∈dir.accounts
  ownerMem : owner∈dir.accounts
  owned : account.parentUserId=some owner.id
  person : owner.parentUserId=none

variable {dir : Directory} {g : Grants}

/-- The account's own rows. -/
def rowsOf (dir : Directory) (user : Int) : List UserRole := dir.userRoles.filter (·.userId=user)

@[simp] theorem mem_rowsOf {user : Int} {ur : UserRole} :
    ur∈rowsOf dir user↔ur∈dir.userRoles∧ur.userId=user := by simp [rowsOf]

def Global (ur : UserRole) : Prop := ur.scopeCardId=none

def IsSystem (dir : Directory) (ur : UserRole) : Prop :=
  (dir.role ur.roleId).any (·.name="system")=true

/-- A row of the owner reaches as far as the agent's. -/
def Reaches (pr ur : UserRole) : Prop := Global pr∨pr.scopeCardId=ur.scopeCardId

/-- Every check the agent passes its owner passes. -/
structure Within (g : Grants) (a : Agent dir) : Prop where
  grant : ∀ cardType process project,
    userHasGrant dir g a.account.id cardType process project=true →
      userHasGrant dir g a.owner.id cardType process project=true
  step : ∀ (wanted : Option Int) project, (∀ w, wanted=some w → ∃ r∈dir.roles, r.id=w) →
    userHasStepRole dir a.account.id wanted project=true →
      userHasStepRole dir a.owner.id wanted project=true
  sight : ∀ db areas cardId,
    (∀ person, (db.card cardId).bind (·.privateTo)=some person →
      accountPerson dir db a.account.id≠some person) →
    cardVisibleTo db areas dir a.account.id cardId=true →
      cardVisibleTo db areas dir a.owner.id cardId=true

/-- A workspace agent sees by rows of its own, which System has rows to match. An agent's
`system` role counts through a role that covers it; that role is `system`, or the owner
holds roles that cover every one. -/
structure Held (a : Agent dir) : Prop where
  seen : a.owner.id=1 → ∀ ur∈rowsOf dir a.account.id, ∃ pr∈rowsOf dir 1, Reaches pr ur
  system : ∀ ur∈rowsOf dir a.account.id, Global ur → IsSystem dir ur →
    (∃ pr∈rowsOf dir a.owner.id, Global pr∧roleCovers dir pr.roleId ur.roleId=true) →
      (∃ pr∈rowsOf dir a.owner.id, Global pr∧IsSystem dir pr)∨
        ∀ r∈dir.roles, ∃ pr∈rowsOf dir a.owner.id, Global pr∧roleCovers dir pr.roleId r.id=true

theorem roleCovers_iff {holder wanted : Int} : roleCovers dir holder wanted=true↔
    holder=wanted∨∃ h∈dir.roles, h.id=holder∧∃ w∈dir.roles, w.id=wanted∧0<w.rank∧w.rank ≤ h.rank := by
  simp [roleCovers]

theorem roleCovers_trans (hkeyed : Keyed dir) {holder middle wanted : Int}
    (hm : roleCovers dir holder middle=true) (hw : roleCovers dir middle wanted=true) :
    roleCovers dir holder wanted=true := by
  rw [roleCovers_iff] at hm hw
  rcases hm with rfl|⟨h,hh,rfl,m,hmem,hmid,hm0,hmh⟩
  · exact roleCovers_iff.mpr hw
  · rcases hw with rfl|⟨m',hm',hmid',w,hw,rfl,hw0,hwm⟩
    · exact roleCovers_iff.mpr (.inr ⟨h,hh,rfl,m,hmem,hmid,hm0,hmh⟩)
    · have hsame : m=m' := List.inj_on_of_nodup_map hkeyed.roles hmem hm' (hmid.trans hmid'.symm)
      subst hsame
      exact roleCovers_iff.mpr (.inr ⟨h,hh,rfl,w,hw,rfl,hw0,hwm.trans hmh⟩)

theorem account_unique (hkeyed : Keyed dir) {u v : Account} (hu : u∈dir.accounts)
    (hv : v∈dir.accounts) (h : u.id=v.id) : u=v :=
  List.inj_on_of_nodup_map hkeyed.accounts hu hv h

theorem mem_effective (hkeyed : Keyed dir) {u : Account} (hu : u∈dir.accounts) {ur : UserRole} :
    ur∈userRoleEffective dir u.id↔ur∈rowsOf dir u.id∧
      ∀ parent, u.parentUserId=some parent →
        ∃ pr∈rowsOf dir parent, roleCovers dir pr.roleId ur.roleId=true∧Reaches pr ur := by
  simp only [userRoleEffective,List.mem_filter,Bool.and_eq_true,decide_eq_true_eq,
    List.any_eq_true,mem_rowsOf,Option.all_eq_true,and_assoc]
  apply and_congr_right
  intro hmem
  apply and_congr_right
  intro hid
  constructor
  · intro h parent hparent
    obtain ⟨v,hv,hvid,h⟩ := h
    have hsame := account_unique hkeyed hu hv (hid.symm.trans hvid.symm)
    subst hsame
    exact h parent hparent
  · intro h
    exact ⟨u,hu,hid.symm,h⟩

theorem mem_effective_owner (hkeyed : Keyed dir) (a : Agent dir) {ur : UserRole} :
    ur∈userRoleEffective dir a.owner.id↔ur∈rowsOf dir a.owner.id := by
  simp [mem_effective hkeyed a.ownerMem,a.person]

theorem mem_effective_agent (hkeyed : Keyed dir) (a : Agent dir) {ur : UserRole} :
    ur∈userRoleEffective dir a.account.id↔ur∈rowsOf dir a.account.id∧
      ∃ pr∈rowsOf dir a.owner.id, roleCovers dir pr.roleId ur.roleId=true∧Reaches pr ur := by
  simp [mem_effective hkeyed a.mem,a.owned]

theorem mem_visible (hkeyed : Keyed dir) {u : Account} (hu : u∈dir.accounts) {ur : UserRole} :
    ur∈userRoleVisible dir u.id↔∃ row∈rowsOf dir (seesAs u), { row with userId := u.id }=ur := by
  simp only [userRoleVisible,List.mem_flatMap,List.mem_filter,List.mem_map,decide_eq_true_eq,
    mem_rowsOf]
  constructor
  · intro h
    obtain ⟨v,⟨hv,hvid⟩,row,⟨hrow,hid⟩,rfl⟩ := h
    have hsame := account_unique hkeyed hv hu hvid
    subst hsame
    exact ⟨row,⟨hrow,hid⟩,rfl⟩
  · intro h
    obtain ⟨row,⟨hrow,hid⟩,rfl⟩ := h
    exact ⟨u,⟨hu,rfl⟩,row,⟨hrow,hid⟩,rfl⟩

/-- What an account sees is a matter of the scopes it sees by. -/
theorem rowsVisible_mono {db : Db} {areas : Areas} {rows : List Card} {viewer viewer' : Int}
    (h : ∀ ur∈userRoleVisible dir viewer, ∃ pr∈userRoleVisible dir viewer', Reaches pr ur)
    (hv : rowsVisible db areas dir viewer rows=true) :
    rowsVisible db areas dir viewer' rows=true := by
  rw [rowsVisible_iff] at hv ⊢
  obtain ⟨hshown,ur,hur,hscope⟩ := hv
  obtain ⟨pr,hpr,hreach⟩ := h ur hur
  refine ⟨hshown,pr,hpr,?_⟩
  intro p hp
  rcases hreach with hglobal|hsame
  · simp [Global] at hglobal
    simp [hglobal] at hp
  · exact hscope p (hsame.symm.trans hp)

theorem seesAs_owner (a : Agent dir) : seesAs a.owner=a.owner.id := by
  simp [seesAs,a.person]

theorem seesAs_agent (a : Agent dir) :
    seesAs a.account=if a.owner.id=1 then a.account.id else a.owner.id := by
  simp [seesAs,a.owned]

theorem sight_of_seen (hkeyed : Keyed dir) (a : Agent dir)
    (h : a.owner.id=1 → ∀ ur∈rowsOf dir a.account.id, ∃ pr∈rowsOf dir 1, Reaches pr ur) :
    ∀ ur∈userRoleVisible dir a.account.id, ∃ pr∈userRoleVisible dir a.owner.id, Reaches pr ur := by
  intro ur hur
  obtain ⟨row,hrow,rfl⟩ := (mem_visible hkeyed a.mem).mp hur
  rw [seesAs_agent] at hrow
  by_cases howner : a.owner.id=1
  · rw [if_pos howner] at hrow
    obtain ⟨pr,hpr,hreach⟩ := h howner row hrow
    refine ⟨{ pr with userId := a.owner.id },(mem_visible hkeyed a.ownerMem).mpr ⟨pr,?_,rfl⟩,hreach⟩
    rw [seesAs_owner,howner]
    exact hpr
  · rw [if_neg howner] at hrow
    refine ⟨{ row with userId := a.owner.id },
      (mem_visible hkeyed a.ownerMem).mpr ⟨row,?_,rfl⟩,.inr rfl⟩
    rw [seesAs_owner]
    exact hrow

theorem sight_mono {db : Db} {areas : Areas} {cardId viewer viewer' : Int}
    (h : ∀ ur∈userRoleVisible dir viewer, ∃ pr∈userRoleVisible dir viewer', Reaches pr ur)
    (hprivate : ∀ person, (db.card cardId).bind (·.privateTo)=some person →
      accountPerson dir db viewer≠some person)
    (hv : cardVisibleTo db areas dir viewer cardId=true) :
    cardVisibleTo db areas dir viewer' cardId=true := by
  cases hp : (db.card cardId).bind (·.privateTo) with
  | some person =>
    simp only [cardVisibleTo,hp,decide_eq_true_eq] at hv
    exact absurd hv (hprivate person hp)
  | none =>
    simp only [cardVisibleTo,hp] at hv ⊢
    exact rowsVisible_mono h hv

theorem has_grant_iff {user : Int} {cardType process : String} {project : Option Int} :
    userHasGrant dir g user cardType process project=true↔
      ∃ ur∈userRoleEffective dir user,
        (∃ rg∈g.roleGrants, rg.roleId=ur.roleId∧grantNames g rg cardType process=true)∧
          ∀ p, ur.scopeCardId=some p → project=some p := by
  simp [userHasGrant,Option.all_eq_true]

theorem has_step_role_iff {user wanted project : Int} :
    userHasStepRole dir user (some wanted) project=true↔
      (∃ ur∈userRoleEffective dir user, IsSystem dir ur∧Global ur)∨
        ∃ ur∈userRoleEffective dir user, roleCovers dir ur.roleId wanted=true∧
          (ur.scopeCardId=none∨ur.scopeCardId=some project) := by
  simp [userHasStepRole,IsSystem,Global]

/-- An owner's grants contain the agent's. -/
theorem grant_of_nested (hkeyed : Keyed dir) (hnested : Nested dir g) (a : Agent dir)
    {cardType process : String} {project : Option Int}
    (h : userHasGrant dir g a.account.id cardType process project=true) :
    userHasGrant dir g a.owner.id cardType process project=true := by
  rw [has_grant_iff] at h ⊢
  obtain ⟨ur,hur,⟨rg,hrg,hrole,hnames⟩,hscope⟩ := h
  obtain ⟨-,pr,hpr,hcovers,hreach⟩ := (mem_effective_agent hkeyed a).mp hur
  have hgrant := hnested pr.roleId rg hrg (hrole ▸ hcovers)
  refine ⟨pr,(mem_effective_owner hkeyed a).mpr hpr,⟨_,hgrant,rfl,hnames⟩,?_⟩
  intro p hp
  rcases hreach with hglobal|hsame
  · simp [hp,Global] at hglobal
  · exact hscope p (hsame.symm.trans hp)

theorem exists_unscoped (dir : Directory) : ∃ p : Int, ∀ ur∈dir.userRoles, ur.scopeCardId≠some p := by
  obtain ⟨p,hp⟩ := Infinite.exists_notMem_finset (dir.userRoles.filterMap (·.scopeCardId)).toFinset
  refine ⟨p,?_⟩
  simpa using hp

theorem step_of_system (hkeyed : Keyed dir) (a : Agent dir) (hheld : Held a)
    {wanted : Option Int} {project : Int} (hrole : ∀ w, wanted=some w → ∃ r∈dir.roles, r.id=w)
    (h : userHasStepRole dir a.account.id wanted project=true) :
    userHasStepRole dir a.owner.id wanted project=true := by
  cases wanted with
  | none => rfl
  | some w =>
    rw [has_step_role_iff] at h ⊢
    rcases h with ⟨ur,hur,hsystem,hglobal⟩|⟨ur,hur,hcovers,hscope⟩
    · obtain ⟨hown,pr,hpr,hpc,hreach⟩ := (mem_effective_agent hkeyed a).mp hur
      have hprg : Global pr := hreach.elim id fun hsame => hsame.trans hglobal
      rcases hheld.system ur hown hglobal hsystem ⟨pr,hpr,hprg,hpc⟩ with ⟨sr,hsr,hsg,hss⟩|hall
      · exact .inl ⟨sr,(mem_effective_owner hkeyed a).mpr hsr,hss,hsg⟩
      · obtain ⟨r,hr,rfl⟩ := hrole w rfl
        obtain ⟨sr,hsr,hsg,hsc⟩ := hall r hr
        exact .inr ⟨sr,(mem_effective_owner hkeyed a).mpr hsr,hsc,.inl hsg⟩
    · obtain ⟨-,pr,hpr,hpc,hreach⟩ := (mem_effective_agent hkeyed a).mp hur
      refine .inr ⟨pr,(mem_effective_owner hkeyed a).mpr hpr,roleCovers_trans hkeyed hpc hcovers,?_⟩
      rcases hreach with hglobal|hsame
      · exact .inl hglobal
      · rwa [hsame]

/-- A step that needs a role the owner does not cover, on a project none of its rows name. -/
theorem system_of_step (hkeyed : Keyed dir) (a : Agent dir)
    (h : ∀ (wanted : Option Int) project, (∀ w, wanted=some w → ∃ r∈dir.roles, r.id=w) →
      userHasStepRole dir a.account.id wanted project=true →
        userHasStepRole dir a.owner.id wanted project=true)
    {ur pr : UserRole} (hur : ur∈rowsOf dir a.account.id) (hglobal : Global ur)
    (hsystem : IsSystem dir ur) (hpr : pr∈rowsOf dir a.owner.id) (hprg : Global pr)
    (hpc : roleCovers dir pr.roleId ur.roleId=true)
    (hnone : ¬∃ sr∈rowsOf dir a.owner.id, Global sr∧IsSystem dir sr) {r : Role} (hr : r∈dir.roles) :
    ∃ sr∈rowsOf dir a.owner.id, Global sr∧roleCovers dir sr.roleId r.id=true := by
  obtain ⟨project,hfresh⟩ := exists_unscoped dir
  have heffective : ur∈userRoleEffective dir a.account.id :=
    (mem_effective_agent hkeyed a).mpr ⟨hur,pr,hpr,hpc,.inl hprg⟩
  have hagent : userHasStepRole dir a.account.id (some r.id) project=true :=
    has_step_role_iff.mpr (.inl ⟨ur,heffective,hsystem,hglobal⟩)
  have howner := h (some r.id) project (fun w hw => ⟨r,hr,Option.some.inj hw⟩) hagent
  rcases has_step_role_iff.mp howner with ⟨sr,hsr,hss,hsg⟩|⟨sr,hsr,hcovers,hscope⟩
  · exact absurd ⟨sr,(mem_effective_owner hkeyed a).mp hsr,hsg,hss⟩ hnone
  · have hown := (mem_effective_owner hkeyed a).mp hsr
    have hsg := hscope.resolve_right (hfresh sr (mem_rowsOf.mp hown).1)
    exact ⟨sr,hown,hsg,hcovers⟩

/-- A project, or a card of none. -/
def cardOf (project : Option Int) : Db where
  cardTypes := [⟨1,"project",none,false⟩,⟨2,"person",none,false⟩]
  attributeDefs := []
  cards := [⟨project.getD 1,if project.isSome then 1 else 2,none,none,false,.triage⟩]

def allOn : Areas := ⟨[],[],[]⟩

theorem rows_cardOf (project : Option Int) :
    upRows (cardOf project) 17 (start (cardOf project) (project.getD 1))=(cardOf project).cards := by
  cases project with
  | none => rfl
  | some p =>
    simp [upRows,start,isMessage,cardOf,Db.card,Db.cardTypeName,Db.cardType,Forest.walk,Db.parentCard]

theorem projectsOf_cardOf (project : Option Int) :
    projectsOf (cardOf project) (cardOf project).cards=project.toList := by
  cases project <;> simp [projectsOf,cardOf,Db.cardTypeName,Db.cardType]

theorem sees_cardOf {project : Option Int} {viewer : Int} :
    cardVisibleTo (cardOf project) allOn dir viewer (project.getD 1)=true↔
      ∃ ur∈userRoleVisible dir viewer, ∀ p, ur.scopeCardId=some p → project=some p := by
  have hshared : ((cardOf project).card (project.getD 1)).bind (·.privateTo)=none := by
    simp [cardOf,Db.card]
  simp only [cardVisibleTo,hshared,rowsVisible_iff,rows_cardOf,projectsOf_cardOf,Option.mem_toList]
  simp [Visibility.hidden,Areas.anyOff,allOn]

theorem seen_of_sight (hkeyed : Keyed dir) (a : Agent dir)
    (h : ∀ db areas cardId,
      (∀ person, (db.card cardId).bind (·.privateTo)=some person →
        accountPerson dir db a.account.id≠some person) →
      cardVisibleTo db areas dir a.account.id cardId=true →
        cardVisibleTo db areas dir a.owner.id cardId=true)
    (hsystem : a.owner.id=1) {ur : UserRole} (hur : ur∈rowsOf dir a.account.id) :
    ∃ pr∈rowsOf dir 1, Reaches pr ur := by
  have hshared : ((cardOf ur.scopeCardId).card (ur.scopeCardId.getD 1)).bind (·.privateTo)=none := by
    simp [cardOf,Db.card]
  have hvisible : { ur with userId := a.account.id }∈userRoleVisible dir a.account.id := by
    refine (mem_visible hkeyed a.mem).mpr ⟨ur,?_,rfl⟩
    simpa [seesAs_agent,hsystem] using hur
  have hagent := sees_cardOf.mpr ⟨_,hvisible,fun _ hp => hp⟩
  have howner := h (cardOf ur.scopeCardId) allOn (ur.scopeCardId.getD 1)
    (fun person hp => by simp [hshared] at hp) hagent
  obtain ⟨row,hrow,hscope⟩ := sees_cardOf.mp howner
  obtain ⟨pr,hpr,rfl⟩ := (mem_visible hkeyed a.ownerMem).mp hrow
  rw [seesAs_owner,hsystem] at hpr
  refine ⟨pr,hpr,?_⟩
  cases hp : pr.scopeCardId with
  | none => exact .inl hp
  | some p => exact .inr (hp.trans (hscope p hp).symm)

/-- The grants are nested by assumption; the roles and the sight are the owner's as far as
the rows of the two are. -/
theorem owner_passes (hkeyed : Keyed dir) (hnested : Nested dir g) (a : Agent dir) :
    Within g a↔Held a := by
  constructor
  · intro h
    refine ⟨fun hs ur hur => seen_of_sight hkeyed a h.sight hs hur,?_⟩
    rintro ur hur hglobal hsystem ⟨pr,hpr,hprg,hpc⟩
    by_cases hown : ∃ sr∈rowsOf dir a.owner.id, Global sr∧IsSystem dir sr
    · exact .inl hown
    · exact .inr fun r hr =>
        system_of_step hkeyed a h.step hur hglobal hsystem hpr hprg hpc hown hr
  · intro h
    exact {
      grant := fun _ _ _ hagent => grant_of_nested hkeyed hnested a hagent
      step := fun _ _ hrole hagent => step_of_system hkeyed a h hrole hagent
      sight := fun _ _ _ hp hagent => sight_mono (sight_of_seen hkeyed a h.seen) hp hagent }

/-- The seeded roles, System and person 2 with the rows given, and an agent of each. -/
def office (rows : List UserRole) : Directory where
  accounts := [⟨1,none,false⟩,⟨2,none,false⟩,⟨8,some 1,true⟩,⟨9,some 2,true⟩]
  userRoles := rows
  roles := [⟨1,"viewer",1⟩,⟨2,"commenter",2⟩,⟨3,"worker",3⟩,⟨4,"manager",4⟩,⟨5,"admin",5⟩]
  persons := []

/-- Workers write tasks, and those above them. -/
def taskGrants : Grants where
  roleGrants := [⟨3,2,7⟩,⟨4,2,7⟩,⟨5,2,7⟩]
  cardTypes := [⟨1,"project",none,false⟩,⟨2,"task",some 1,true⟩]
  processes := [⟨7,"card.create"⟩]

theorem keyed_office (rows : List UserRole) : Keyed (office rows) where
  accounts := by simp [office]
  roles := by simp [office]

theorem nested_office (rows : List UserRole) : Nested (office rows) taskGrants := by
  intro holder rg hrg hcovers
  rcases roleCovers_iff.mp hcovers with rfl|⟨h,hh,rfl,w,hw,hwid,-,hrank⟩
  · exact hrg
  · simp only [office,taskGrants,List.mem_cons,List.not_mem_nil,or_false] at hh hw hrg ⊢
    rcases hrg with rfl|rfl|rfl <;> rcases hw with rfl|rfl|rfl|rfl|rfl <;> simp at hwid <;>
      rcases hh with rfl|rfl|rfl|rfl|rfl <;> simp at hrank ⊢

/-- An agent of the workspace. -/
def workspaceAgent (rows : List UserRole) : Agent (office rows) where
  account := ⟨8,some 1,true⟩
  owner := ⟨1,none,false⟩
  mem := by simp [office]
  ownerMem := by simp [office]
  owned := rfl
  person := rfl

/-- System as seeded, and its agent a worker on project 4. -/
theorem seeded_passes :
    Within taskGrants (workspaceAgent [⟨1,5,none⟩,⟨1,4,none⟩,⟨1,3,none⟩,⟨8,3,some 4⟩]) := by
  apply (owner_passes (keyed_office _) (nested_office _) _).mpr
  constructor
  · intro hs ur hur
    exact ⟨⟨1,5,none⟩,by simp [office],.inl rfl⟩
  · intro ur hur hglobal hsystem
    have hrow : ur=⟨8,3,some 4⟩ := by
      obtain ⟨hmem,hid⟩ := mem_rowsOf.mp hur
      simp only [office,List.mem_cons,List.not_mem_nil,or_false] at hmem
      rcases hmem with rfl|rfl|rfl|rfl <;> simp [workspaceAgent] at hid ⊢
    simp [hrow,Global] at hglobal

/-- With System's rows revoked the agent still sees. -/
theorem agent_outsees_owner : Keyed (office [⟨8,3,none⟩])∧Nested (office [⟨8,3,none⟩]) taskGrants∧
    ¬Within taskGrants (workspaceAgent [⟨8,3,none⟩]) := by
  refine ⟨keyed_office _,nested_office _,?_⟩
  intro h
  have howner := h.sight (cardOf none) allOn 1 (fun person hp => by simp [cardOf,Db.card] at hp) rfl
  have hblind : cardVisibleTo (cardOf none) allOn (office [⟨8,3,none⟩]) 1 1=false := rfl
  exact Bool.noConfusion (hblind.symm.trans howner)

end Kitp.Agents
