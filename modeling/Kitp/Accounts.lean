import Kitp.Store

/-! Accounts, the role rows they hold, and which of those rows count: for what an account
sees, and for what it may do. -/
namespace Kitp.Accounts
open Kitp.Store

/-- An agent has a parent account; account 1 is the system user's. -/
structure Account where
  id : Int
  parentUserId : Option Int
  isAgent : Bool

structure UserRole where
  userId : Int
  roleId : Int
  scopeCardId : Option Int

structure Role where
  id : Int
  name : String
  rank : Int

structure AccountPerson where
  userAccountId : Int
  personCardId : Int

/-- A role may run a process on a card type. -/
structure RoleGrant where
  roleId : Int
  cardTypeId : Int
  processId : Int

structure Process where
  id : Int
  name : String

structure Grants where
  roleGrants : List RoleGrant
  cardTypes : List CardType
  processes : List Process

structure Directory where
  accounts : List Account
  userRoles : List UserRole
  roles : List Role
  persons : List AccountPerson

variable (dir : Directory)

def Directory.role (id : Int) : Option Role := dir.roles.find? (·.id=id)

/-- `role_covers`: the same role, or a ranked one at or above it. -/
def roleCovers (holder wanted : Int) : Bool :=
  holder=wanted||dir.roles.any fun h => h.id=holder&&
    dir.roles.any fun w => w.id=wanted∧0<w.rank∧w.rank ≤ h.rank

/-- `user_role_effective`: an agent's rows count while its owner covers them. -/
def userRoleEffective (forUser : Int) : List UserRole :=
  dir.userRoles.filter fun ur => ur.userId=forUser&&dir.accounts.any fun u => u.id=ur.userId&&
    u.parentUserId.all fun parent => dir.userRoles.any fun pr => pr.userId=parent&&
      roleCovers dir pr.roleId ur.roleId&&
      (pr.scopeCardId=none∨pr.scopeCardId=ur.scopeCardId)

/-- Whose rows decide what an account sees: a personal agent's owner's. -/
def seesAs (u : Account) : Int :=
  if u.parentUserId=some 1 then u.id else u.parentUserId.getD u.id

/-- `user_role_visible`. -/
def userRoleVisible (forUser : Int) : List UserRole :=
  (dir.accounts.filter (·.id=forUser)).flatMap fun u =>
    (dir.userRoles.filter (·.userId=seesAs u)).map fun ur => { ur with userId := u.id }

def grantNames (g : Grants) (rg : RoleGrant) (cardType process : String) : Bool :=
  (g.cardTypes.any fun ct => ct.id=rg.cardTypeId∧ct.name=cardType)&&
    g.processes.any fun p => p.id=rg.processId∧p.name=process

/-- `user_has_grant`. -/
def userHasGrant (g : Grants) (user : Int) (cardType process : String)
    (project : Option Int) : Bool :=
  (userRoleEffective dir user).any fun ur =>
    (g.roleGrants.any fun rg => rg.roleId=ur.roleId&&grantNames g rg cardType process)&&
      ur.scopeCardId.all (project=some ·)

/-- `user_has_step_role`. -/
def userHasStepRole (actor : Int) (wanted : Option Int) (project : Int) : Bool :=
  wanted.all fun wanted =>
    (userRoleEffective dir actor).any (fun ur =>
      (dir.role ur.roleId).any (·.name="system")&&ur.scopeCardId.isNone)||
    (userRoleEffective dir actor).any fun ur => roleCovers dir ur.roleId wanted&&
      (ur.scopeCardId=none∨ur.scopeCardId=some project)

/-- Whose person an account acts as; a workspace agent has none. -/
def personOf (u : Account) : Option Int :=
  if !u.isAgent then some u.id else u.parentUserId.filter (·≠1)

/-- `account_person`. -/
def accountPerson (db : Db) (actor : Int) : Option Int :=
  ((dir.accounts.filter (·.id=actor)).flatMap fun u =>
    (dir.persons.filter fun p => personOf u=some p.userAccountId∧
      (db.card p.personCardId).any (!·.deleted)).map (·.personCardId)).min?

end Kitp.Accounts
