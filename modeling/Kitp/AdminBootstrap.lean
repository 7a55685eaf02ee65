import Kitp.IdpRoles
import Kitp.Lib.Versions

/-! The first admin under READ COMMITTED: sign-ins with their IdP roles and
`grantAdminIfInitMode`, beside `user_role.set` and `user_role.revoke`, statement by statement. -/
namespace Kitp.AdminBootstrap

open Kitp.Store Kitp.Accounts Kitp.SignIn Kitp.IdpRoles Kitp.Versions

/-- The rest of a row of `user_role`, beside its key. -/
structure Row where
  id : Nat
  via : Via
  deriving DecidableEq

structure Config extends IdpRoles.Config where
  kitpRoles : Bool

/-- What a statement reads of other tables. -/
structure Env where
  logins : List Login
  mappings : List (String×Int)

/-- How far a transaction is, by the statement it is at: `granting`, `deleting`, `giving`,
`recording`, `making`, `setting` and `removing` may wait for another's row. -/
inductive Task where
  | idle
  | mapping (user : Int) (claims : Claims) (todo : List String) (desired : List Int)
  | granting (user : Int) (claims : Claims) (role : Int) (todo : List String) (desired : List Int)
  | reconcile (user : Int) (desired : List Int)
  | deleting (user : Int) (todo : List (Key×Nat)) (gone : Bool)
  | first (user : Int)
  | giving (user role : Int)
  | booting (user : Int) (revokedAdmin : Bool)
  | recording (user : Int) (claim : Bool) (before : Key → Option Row)
  | making (user : Int)
  | signedIn
  | setting (k : Key)
  | removing (k : Key) (id : Nat)

/-- A sign-in that claimed the bootstrap for its account, and the committed grants when its
statement began. -/
structure Made where
  user : Int
  before : Key → Option Row

inductive Answer where
  | set (userRoleId : Nat)
  | revoke (deleted : Bool)
  deriving DecidableEq

/-- `user_role` and `admin_bootstrap`; `claimed`, `made` and `passed` record the claims of open
transactions, those of committed ones, and whether a sign-in has committed. -/
structure State (ι : Type) where
  grants : Table ι Key Row
  nextId : Nat
  bootstrap : Table ι Unit (Option Int)
  task : ι → Task
  answers : ι → List (Except Refusal Answer)
  claimed : ι → Option Made
  made : List Made
  passed : Bool

inductive Event (ι : Type) where
  | signIn (i : ι) (user : Int) (claims : Claims) (firstSignIn : Bool)
  | set (i : ι) (env : Env) (input : Input)
  | revoke (i : ι) (env : Env) (input : Input)
  | next (i : ι) (env : Env)
  | commit (i : ι)
  | abort (i : ι)

variable {ι : Type} [DecidableEq ι] (cfg : Config) (roles : List Role) (s : State ι) (i : ι)
  (env : Env)

namespace State

def goTo (task : Task) : State ι := { s with task := Function.update s.task i task }

def answer (a : Except Refusal Answer) : State ι :=
  { s.goTo i .idle with answers := Function.update s.answers i (s.answers i++[a]) }

/-- `INSERT … ON CONFLICT DO NOTHING`, of a row no other transaction is writing. -/
def add (k : Key) (via : Via) : State ι :=
  match s.grants.view i k with
  | some _ => s
  | none => { s with grants := s.grants.put i k (some ⟨s.nextId,via⟩), nextId := s.nextId+1 }

def delete (k : Key) : State ι := { s with grants := s.grants.put i k none }

/-- The roles as the transaction sees them. -/
def idpRoles : IdpRoles.State where
  logins := env.logins
  roles := roles
  mappings := env.mappings
  grants := (s.grants.scan i).map fun p => ⟨p.1.1,p.1.2.1,p.1.2.2,p.2.via⟩
  bootstrap := s.bootstrap.view i ()

/-- The transaction ends. -/
def close (grants : Table ι Key Row) (bootstrap : Table ι Unit (Option Int)) : State ι :=
  { s with
    grants := grants
    bootstrap := bootstrap
    task := Function.update s.task i .idle
    answers := Function.update s.answers i []
    claimed := Function.update s.claimed i none }

end State

def adminRole (roleId : Int) : Bool := roles.any fun r => r.id=roleId∧r.name="admin"

def named (name : String) : Option Role := roles.find? (·.name=name)

/-- `has_admin`. -/
def hasAdmin : Bool := (s.grants.scan i).any fun p => adminRole roles p.1.2.1&&p.1.1≠1

/-- The rows of the reconcile's `DELETE`. -/
def unjustifiedRows (user : Int) (desired : List Int) : List (Key×Nat) :=
  ((s.grants.scan i).filter fun p =>
    p.1.1=user∧p.2.via=.oidc∧p.1.2.2=none∧p.1.2.1∉desired).map fun p => (p.1,p.2.id)

/-- The sign-in, from where its account is known. -/
def signIn (user : Int) (claims : Claims) (firstSignIn : Bool) : State ι :=
  s.goTo i <|
    if cfg.kitpRoles then if firstSignIn then .first user else .booting user false
    else .mapping user claims (claimValues claims cfg.roleClaim) []

/-- The claim's values are all mapped: the default role, or the reconcile. -/
def mapped (user : Int) (claims : Claims) (desired : List Int) : Task :=
  let after : Task :=
    if claimPresent claims cfg.roleClaim then .reconcile user desired else .booting user false
  if desired=[]∧cfg.defaultRole≠"" then
    (named roles cfg.defaultRole).elim after fun r => .granting user claims r.id [] desired
  else after

/-- `grantFirstSignInRole`. -/
def firstRole (user : Int) : Task :=
  if cfg.defaultRole=""∨(s.grants.scan i).any (·.1.1=user) then .booting user false
  else (named roles cfg.defaultRole).elim (.booting user false) fun r => .giving user r.id

/-- The row of `admin_bootstrap`, and the claim it makes or doesn't. -/
def recordRow (user : Int) (claim : Bool) (before : Key → Option Row) : State ι :=
  match s.bootstrap.view i () with
  | some _ => s.goTo i .signedIn
  | none =>
    if claim then
      { s.goTo i (.making user) with
        bootstrap := s.bootstrap.put i () (some (some user))
        claimed := Function.update s.claimed i (some ⟨user,before⟩) }
    else { s.goTo i .signedIn with bootstrap := s.bootstrap.put i () (some none) }

/-- The rest of `user_role.set` when its row is free. -/
def setRow (k : Key) : State ι :=
  match s.grants.view i k with
  | some row => { s with grants := s.grants.put i k (some row) }.answer i (.ok (.set row.id))
  | none => (s.add i k .manual).answer i (.ok (.set s.nextId))

def holdsId (k : Key) (id : Nat) : Bool := (s.grants.view i k).any (·.id=id)

/-- The next statement of a task, or the next row of one, `none` where it waits. -/
def next : Task → Option (State ι)
  | .idle => none
  | .mapping user claims [] desired => some (s.goTo i (mapped cfg roles user claims desired))
  | .mapping user claims (v::todo) desired =>
    some <| s.goTo i <| match env.mappings.lookup v with
      | none => .mapping user claims todo desired
      | some r => .granting user claims r todo desired
  | .granting user claims r todo desired =>
    if s.grants.free i (user,r,none) then
      some ((s.add i (user,r,none) .oidc).goTo i (.mapping user claims todo (desired++[r])))
    else none
  | .reconcile user desired => some (s.goTo i (.deleting user (unjustifiedRows s i user desired) false))
  | .deleting user [] gone => some (s.goTo i (.booting user gone))
  | .deleting user ((k,id)::todo) gone =>
    if s.grants.free i k then
      some (if holdsId s i k id
        then (s.delete i k).goTo i (.deleting user todo (gone||adminRole roles k.2.1))
        else s.goTo i (.deleting user todo gone))
    else none
  | .first user => some (s.goTo i (firstRole cfg roles s i user))
  | .giving user r =>
    if s.grants.free i (user,r,none) then
      some ((s.add i (user,r,none) .manual).goTo i (.booting user false))
    else none
  | .booting user revokedAdmin =>
    some (s.goTo i (.recording user (!hasAdmin roles s i&&!revokedAdmin) s.grants.row))
  | .recording user claim before =>
    if s.bootstrap.free i () then some (recordRow s i user claim before) else none
  | .making user =>
    match named roles "admin" with
    | none => some (s.goTo i .signedIn)
    | some r =>
      if s.grants.free i (user,r.id,none) then
        some ((s.add i (user,r.id,none) .manual).goTo i .signedIn)
      else none
  | .signedIn => none
  | .setting k => if s.grants.free i k then some (setRow s i k) else none
  | .removing k id =>
    if s.grants.free i k then
      some (if holdsId s i k id then (s.delete i k).answer i (.ok (.revoke true))
        else s.answer i (.ok (.revoke false)))
    else none

/-- The checks of `user_role.set`. -/
def validateSet (input : Input) : Except Refusal Key :=
  let db := s.idpRoles roles i env
  match keyOf db "user_role.set" input with
  | .error e => .error e
  | .ok k =>
    match deletedCheck db k with
    | .error e => .error e
    | .ok _ =>
      match ownerCheck db (input.roleName.getD "") k with
      | .error e => .error e
      | .ok _ => .ok k

def set (input : Input) : State ι :=
  match validateSet roles s i env input with
  | .error e => s.answer i (.error e)
  | .ok k => s.goTo i (.setting k)

def revoke (input : Input) : State ι :=
  match keyOf (s.idpRoles roles i env) "user_role.revoke" input with
  | .error e => s.answer i (.error e)
  | .ok k =>
    match s.grants.view i k with
    | none => s.answer i (.ok (.revoke false))
    | some row => s.goTo i (.removing k row.id)

def commit : State ι :=
  { s.close i (s.grants.commit i) (s.bootstrap.commit i) with
    made := s.made++(s.claimed i).toList
    passed := s.passed||match s.task i with
      | .signedIn => true
      | _ => false }

def step (s : State ι) : Event ι → Option (State ι)
  | .signIn i user claims firstSignIn =>
    match s.task i with
    -- a sign-in has its transaction to itself
    | .idle =>
      if s.grants.writes.all (·.tx≠i) then some (signIn cfg s i user claims firstSignIn) else none
    | _ => none
  | .set i env input =>
    match s.task i with
    | .idle => some (set roles s i env input)
    | _ => none
  | .revoke i env input =>
    match s.task i with
    | .idle => some (revoke roles s i env input)
    | _ => none
  | .next i env => next cfg roles s i env (s.task i)
  | .commit i =>
    match s.task i with
    | .idle => some (commit s i)
    | .signedIn => some (commit s i)
    | _ => none
  | .abort i => some (s.close i (s.grants.abort i) (s.bootstrap.abort i))

/-- No transaction is under way. -/
def start (grants : List (Key×Row)) (bootstrap : List (Unit×Option Int)) : State ι where
  grants := ⟨grants,[]⟩
  nextId := (grants.map (·.2.id)).foldl max 0+1
  bootstrap := ⟨bootstrap,[]⟩
  task _ := .idle
  answers _ := []
  claimed _ := none
  made := []
  passed := false

end Kitp.AdminBootstrap
