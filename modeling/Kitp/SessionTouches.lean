import Mathlib.Algebra.Order.Ring.Rat
import Mathlib.Logic.Function.Basic

/-! `session.Manager` on several replicas: rows, touches kept in memory and written in batches,
and revocations. Sessions go by their stored hash; all read one clock. -/
namespace Kitp.SessionTouches

def DefaultIdleTTL : ℚ := 7*24*3600
def DefaultAbsoluteCap : ℚ := 45*24*3600
def DefaultTouchInterval : ℚ := 180

/-- A manager's configuration, every duration positive. -/
structure Config where
  idleTTL : ℚ
  absoluteCap : ℚ
  touchInterval : ℚ
  idle_pos : 0 < idleTTL
  touch_pos : 0<touchInterval

def orDefault (d given : ℚ) : ℚ := if given≤0 then d else given

theorem orDefault_pos {d given : ℚ} (h : 0<d) : 0<orDefault d given := by
  unfold orDefault
  split
  · exact h
  · exact not_le.mp ‹_›

/-- `New`. -/
def Config.new (idleTTL absoluteCap touchInterval : ℚ) : Config :=
  ⟨orDefault DefaultIdleTTL idleTTL,orDefault DefaultAbsoluteCap absoluteCap,
    orDefault DefaultTouchInterval touchInterval,orDefault_pos (by decide +kernel),
    orDefault_pos (by decide +kernel)⟩

structure Row where
  user : Int
  created : ℚ
  lastSeen : ℚ
  revoked : Option ℚ
  sub : Option String
  sid : Option String

structure Account where
  displayName : String
  loginRevoked : Option ℚ

structure User where
  id : Int
  displayName : String
  deriving DecidableEq

/-- Which gate a session failed at; all give `ErrExpired`. -/
inductive Gate where
  | revoked | absolute | idle
  deriving DecidableEq

inductive Err where
  | notFound
  | expired (gate : Gate)
  deriving DecidableEq

/-- What `Lookup` scans. -/
structure Found where
  user : User
  created : ℚ
  lastSeen : ℚ
  revoked : Option ℚ

/-- An entry of `pendingTouch`, and the first lookup since the last flush. -/
structure Touch where
  last : ℚ
  first : ℚ

variable {ι ρ : Type}

/-- What a statement under way does when it commits; a revoke has its entry to delete afterwards. -/
inductive Work (ι ρ : Type) where
  | create (id : ι) (user : Int) (sub sid : String)
  | revoke (replica : ρ) (id : ι)
  | revokeAll
  | revokeOIDC (jti : String) (expires : ℚ)
  | touch (ids : ι → Option Touch) (begun : Bool)
  | forget (replica : ρ) (id : ι)

/-- `matched` are the rows the statement's snapshot gave a revocation, `now` its `now()`. -/
structure Flight (ι ρ : Type) where
  work : Work ι ρ
  now : ℚ
  matched : ι → Bool

/-- A lookup that has read its row, and what was so then: the times of the session's successful
lookups, whether a revocation had covered it, whether a touch of it had been lost. -/
structure Reading (ι ρ : Type) where
  replica : ρ
  id : ι
  found : Option Found
  time : ℚ
  seen : List ℚ
  covered : Bool
  dropped : Bool

structure Outcome (ι ρ : Type) where
  reading : Reading ι ρ
  now : ℚ
  result : Except Err User

/-- `seen`, `covered`, `dropped`, `ended` and `log` record what happened: each session's creation and
successful lookups, the newest first, whether a revocation covered it, whether a flush that took
a touch of it failed, how often a logout token ended sessions, and what lookups answered. -/
structure State (ι ρ : Type) where
  now : ℚ
  rows : ι → Option Row
  accounts : Int → Option Account
  jtis : String → Option ℚ
  pending : ρ → ι → Option Touch
  flights : Nat → Option (Flight ι ρ)
  lookups : Nat → Option (Reading ι ρ)
  seen : ι → List ℚ
  covered : ι → Bool
  dropped : ι → Bool
  ended : String → Nat
  log : List (Outcome ι ρ)

inductive Call (ι ρ : Type) where
  | create (id : ι) (user : Int) (sub sid : String)
  | revoke (replica : ρ) (id : ι)
  | revokeAll (user : Int)
  | revokeOIDC (sub sid jti : String) (expires : ℚ)

inductive Event (ι ρ : Type) where
  | account (user : Int) (account : Account) (now : ℚ)
  | call (k : Nat) (call : Call ι ρ) (now : ℚ)
  | take (k : Nat) (replica : ρ) (now : ℚ)
  | write (k : Nat) (now : ℚ)
  | commit (k : Nat) (now : ℚ)
  | fail (k : Nat) (now : ℚ)
  | forget (k : Nat) (now : ℚ)
  | read (k : Nat) (replica : ρ) (id : ι) (now : ℚ)
  | decide (k : Nat) (now : ℚ)
  | reap (now : ℚ)

def Event.time : Event ι ρ → ℚ
  | .account _ _ now => now
  | .call _ _ now => now
  | .take _ _ now => now
  | .write _ now => now
  | .commit _ now => now
  | .fail _ now => now
  | .forget _ now => now
  | .read _ _ _ now => now
  | .decide _ now => now
  | .reap now => now

variable [DecidableEq ι] [DecidableEq ρ] (c : Config) (s : State ι ρ)

/-- `NULLIF(:text, '')`. -/
def nullif (text : String) : Option String := if text="" then none else some text

/-- The rows a revocation's `WHERE` gives. -/
def Call.wants : Call ι ρ → ι → Row → Bool
  | .create _ _ _ _,_,_ => false
  | .revoke _ id,i,_ => i=id
  | .revokeAll user,_,row => row.user=user
  | .revokeOIDC sub sid _ _,_,row =>
    if sid≠"" then row.sid=some sid∧(sub=""∨row.sub=some sub) else row.sub=some sub

def matched (call : Call ι ρ) (i : ι) : Bool :=
  match s.rows i with
  | none => false
  | some row => row.revoked.isNone∧call.wants i row

def Call.work : Call ι ρ → Work ι ρ
  | .create id user sub sid => .create id user sub sid
  | .revoke replica id => .revoke replica id
  | .revokeAll _ => .revokeAll
  | .revokeOIDC _ _ jti expires => .revokeOIDC jti expires

/-- Calls that return at once. -/
def Call.empty : Call ι ρ → Bool
  | .revokeAll user => user=0
  | .revokeOIDC sub sid _ _ => sub=""∧sid=""
  | _ => false

def setFlight (k : Nat) (f : Option (Flight ι ρ)) : State ι ρ :=
  { s with flights := Function.update s.flights k f }

/-- `UPDATE session SET revoked_at = now()` of the rows matched, where no other revocation came
first. -/
def endSessions (f : Flight ι ρ) : State ι ρ :=
  { s with
    rows := fun i => (s.rows i).map fun row =>
      if f.matched i∧row.revoked=none then { row with revoked := some f.now } else row
    covered := fun i => s.covered i∨f.matched i }

def insertRow (id : ι) (user : Int) (sub sid : String) (now : ℚ) : State ι ρ :=
  match s.rows id with
  | some _ => s
  | none => { s with
      rows := Function.update s.rows id (some ⟨user,now,now,none,nullif sub,nullif sid⟩)
      seen := Function.update s.seen id [now] }

def touchRows (ids : ι → Option Touch) (now : ℚ) : State ι ρ :=
  { s with rows := fun i => (s.rows i).map fun row =>
      if (ids i).isSome then { row with lastSeen := now } else row }

/-- `RevokeOIDC`'s statement: a token already recorded ends nothing. -/
def endOIDC (f : Flight ι ρ) (jti : String) (expires : ℚ) : State ι ρ :=
  if jti="" then endSessions s f
  else if (s.jtis jti).isNone then
    { endSessions s f with
      jtis := Function.update s.jtis jti (some expires)
      ended := Function.update s.ended jti (s.ended jti+1) }
  else s

/-- A statement commits. -/
def commit (k : Nat) (f : Flight ι ρ) : Option (State ι ρ) :=
  match f.work with
  | .create id user sub sid => some (setFlight (insertRow s id user sub sid f.now) k none)
  | .revoke replica id =>
    some (setFlight (endSessions s f) k (some { f with work := .forget replica id }))
  | .revokeAll => some (setFlight (endSessions s f) k none)
  | .revokeOIDC jti expires => some (setFlight (endOIDC s f jti expires) k none)
  | .touch ids begun => if begun then some (setFlight (touchRows s ids f.now) k none) else none
  | .forget _ _ => none

/-- A statement fails; what a flush took is lost. -/
def abort (k : Nat) (f : Flight ι ρ) : Option (State ι ρ) :=
  match f.work with
  | .touch ids _ => some (setFlight
      { s with dropped := fun i => s.dropped i∨(ids i).isSome } k none)
  | .forget _ _ => none
  | _ => some (setFlight s k none)

/-- `Lookup`'s query. -/
def find (id : ι) : Option Found :=
  (s.rows id).bind fun row => (s.accounts row.user).map fun account =>
    ⟨⟨row.user,account.displayName⟩,row.created,row.lastSeen,
      match account.loginRevoked with
      | some at' => some (row.revoked.getD at')
      | none => row.revoked⟩

def gates (found : Option Found) (now : ℚ) : Except Err User :=
  match found with
  | none => .error .notFound
  | some f =>
    if f.revoked≠none then .error (.expired .revoked)
    else if c.absoluteCap < now-f.created then .error (.expired .absolute)
    else if c.idleTTL < now-f.lastSeen then .error (.expired .idle)
    else .ok f.user

/-- A lookup that has read its row decides. -/
def answer (k : Nat) (r : Reading ι ρ) (now : ℚ) : State ι ρ :=
  let result := gates c r.found now
  let s := { s with
    lookups := Function.update s.lookups k none
    log := s.log++[⟨r,now,result⟩] }
  match result with
  | .error _ => s
  | .ok _ =>
    let first := ((s.pending r.replica r.id).map Touch.first).getD now
    { s with
      pending := Function.update s.pending r.replica
        (Function.update (s.pending r.replica) r.id (some ⟨now,first⟩))
      seen := Function.update s.seen r.id (now::s.seen r.id) }

/-- An event, its time being now. -/
def act : Event ι ρ → Option (State ι ρ)
  | .account user account _ => some { s with
      accounts := Function.update s.accounts user (some account) }
  | .call k call now =>
    if call.empty then some s
    else if s.flights k=none then some (setFlight s k (some ⟨call.work,now,matched s call⟩))
    else none
  | .take k replica now =>
    if s.flights k=none then some (setFlight
      { s with pending := Function.update s.pending replica (fun _ => none) } k
      (some ⟨.touch (s.pending replica) false,now,fun _ => false⟩))
    else none
  | .write k now =>
    match s.flights k with
    | some ⟨.touch ids false,_,m⟩ => some (setFlight s k (some ⟨.touch ids true,now,m⟩))
    | _ => none
  | .commit k _ => (s.flights k).bind fun f => commit s k f
  | .fail k _ => (s.flights k).bind fun f => abort s k f
  | .forget k _ =>
    match s.flights k with
    | some ⟨.forget replica id,_,_⟩ =>
      let pending := Function.update s.pending replica (Function.update (s.pending replica) id none)
      some (setFlight { s with pending := pending } k none)
    | _ => none
  | .read k replica id now =>
    if s.lookups k=none then some { s with
      lookups := Function.update s.lookups k
        (some ⟨replica,id,find s id,now,s.seen id,s.covered id,s.dropped id⟩) }
    else none
  | .decide k now => (s.lookups k).map fun r => answer c s k r now
  | .reap now => some { s with
      jtis := fun j => (s.jtis j).filter fun expires => now≤expires }

def step (e : Event ι ρ) : Option (State ι ρ) := act c { s with now := e.time } e

def start : State ι ρ :=
  ⟨0,fun _ => none,fun _ => none,fun _ => none,fun _ _ => none,fun _ => none,fun _ => none,
    fun _ => [],fun _ => false,fun _ => false,fun _ => 0,[]⟩

end Kitp.SessionTouches
