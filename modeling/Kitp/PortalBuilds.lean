import Kitp.Lib.Versions
import Mathlib.Algebra.Ring.Nat

/-! The portals' builds under READ COMMITTED: transactions that call `portal_mark_dirty`, and
builders on any number of replicas. -/
namespace Kitp.PortalBuilds

open Kitp.Versions

structure File where
  path : String
  mime : String
  addr : String
  size : Nat
  cardId : Option Int
  deriving DecidableEq

/-- What a build renders: its files are in the store. -/
structure Result where
  pageCount : Nat
  warnings : List String
  files : List File

/-- A row of `portal_build` with its rows of `portal_build_file`; `rendered` and `loadedAt` record
what was rendered and when its load began. -/
structure Build where
  id : Nat
  portalId : Int
  pageCount : Nat
  warnings : List String
  files : List File
  rendered : List File
  loadedAt : Nat
  deriving DecidableEq

/-- A row of `portal_state`; the times are in microseconds. -/
structure PortalState where
  activeBuildId : Option Nat
  dirtySince : Option Nat
  builtAt : Option Nat
  lastError : Option String
  failCount : Nat
  failedAt : Option Nat
  deriving DecidableEq

/-- The locals of `RunOnce` at a portal: what it listed, and what is left of that. -/
structure Job where
  portal : Int
  since : Nat
  todo : List (Int×Nat)

inductive BuildError where
  | template (text : String)
  | other

/-- Where a builder is, with the rows of `portal_build` its transaction has written; `flipped`
is before the commit, `orphan` a commit that was sent before the builder was killed. -/
inductive Phase where
  | idle
  | listed (todo : List (Int×Nat))
  | locked (j : Job)
  | attempted (j : Job)
  | loaded (j : Job) (loadedAt : Nat)
  | stored (j : Job) (loadedAt : Nat) (res : Result)
  | inserted (j : Job) (build : Build) (res : Result)
  | filed (j : Job) (build : Build)
  | flipping (j : Job) (build : Build) (prune : List Nat)
  | flipped (j : Job) (build : Build) (prune : List Nat)
  | failed (j : Job) (err : BuildError)
  | releasing (j : Job)
  | orphan (portal : Int) (build : Build) (prune : List Nat)

/-- A committed mark, by the commits before it. -/
structure Mark where
  portal : Int
  time : Nat

/-- The transactions that mark are `ι`, the builders `β`. `pending` is a mark that waits for the
row. `commits`, `touched`, `marks`, `used` (the times `clock_timestamp` gave) and `shown` (those
committed) record what happened. -/
structure State (ι β : Type) where
  states : Table (ι⊕β) Int PortalState
  builds : List Build
  nextBuild : Nat
  lock : Int → Option β
  pending : ι → Option (Int×Nat)
  phase : β → Phase
  commits : Nat
  touched : ι → List Int
  marks : List Mark
  used : List Nat
  shown : List Nat

/-- What a list of dirty portals reads of other tables, and the clock. -/
structure Env where
  sitesOff : Bool
  live : Int → Bool
  now : Nat

inductive Event (ι β : Type) where
  | stamp (i : ι) (portal : Int) (time : Nat)
  | mark (i : ι)
  | commitTx (i : ι)
  | abortTx (i : ι)
  | list (b : β) (env : Env)
  | next (b : β)
  | attempt (b : β) (now : Nat)
  | load (b : β)
  | store (b : β) (res : Result)
  | insertBuild (b : β)
  | insertFiles (b : β)
  | prune (b : β)
  | flip (b : β) (now : Nat)
  | commit (b : β)
  | fail (b : β) (err : BuildError) (landed : Bool)
  | recordError (b : β)
  | skipRecord (b : β)
  | release (b : β)
  | kill (b : β) (sent : Bool)
  | land (b : β) (committed : Bool)

def DefaultKeepBuilds : Nat := 5

/-- `Builder.Keep`. -/
def keepBuilds (keep : Int) : Nat := if keep≤0 then DefaultKeepBuilds else keep.toNat

/-- The portal a builder holds the lock of. -/
def Phase.job : Phase → Option Job
  | .locked j | .attempted j | .loaded j _ | .stored j _ _ | .inserted j _ _ | .filed j _
  | .flipping j _ _ | .flipped j _ _ | .failed j _ | .releasing j => some j
  | _ => none

/-- `portal_mark_dirty`'s row. -/
def markedRow (row : Option PortalState) (time : Nat) : PortalState :=
  match row with
  | none => ⟨none,some time,none,none,0,none⟩
  | some r => { r with dirtySince := some time }

/-- The portal's wait after its last failed build is over. -/
def retryDue (r : PortalState) (now : Nat) : Bool :=
  r.failedAt.all fun f => decide (f+min 3600000000 (5000000*2^min r.failCount 10)≤now)

def attemptedRow (r : PortalState) (now : Nat) : PortalState :=
  { r with
    failCount := r.failCount+1
    failedAt := some now
    lastError := some "The last build didn't finish; the server log has the details." }

/-- The update of the flip. -/
def flippedRow (r : PortalState) (buildId since now : Nat) : PortalState where
  activeBuildId := some buildId
  dirtySince := if r.dirtySince=some since then none else r.dirtySince
  builtAt := some now
  lastError := none
  failCount := 0
  failedAt := none

def BuildError.message : BuildError → String
  | .template text => text
  | .other => "The build failed; the server log has the details."

/-- The builds of a portal beyond the newest ones that are kept. -/
def pruned (keep : Nat) (builds : List Build) (portal : Int) : List Nat :=
  let ids := (builds.filter (·.portalId=portal)).map (·.id)
  ids.filter fun id => decide (keep≤(ids.filter (id < ·)).length)

variable {ι β : Type} [DecidableEq ι] [DecidableEq β] (s : State ι β) (i : ι) (b : β)

/-- The portals to build, the longest dirty first. -/
def dirtyPortals (env : Env) : List (Int×Nat) :=
  let rows := (s.states.scan (.inr b)).filter fun p => env.live p.1&&retryDue p.2 env.now
  ((rows.filterMap fun p => p.2.dirtySince.map (p.1,·)).mergeSort fun x y => x.2≤y.2).take 50

namespace State

def goTo (phase : Phase) : State ι β := { s with phase := Function.update s.phase b phase }

/-- An update of `portal_state` that is a transaction of its own, `none` while it waits. -/
def update (portal : Int) (f : PortalState → PortalState) (phase : Phase) :
    Option (State ι β) :=
  if s.states.free (.inr b) portal then
    match s.states.view (.inr b) portal with
    | none => some (s.goTo b phase)
    | some r =>
      some ({ s with
        states := (s.states.put (.inr b) portal (some (f r))).commit (.inr b) }.goTo b phase)
  else none

/-- The flip's transaction is rolled back. -/
def rollback (phase : Phase) : State ι β :=
  { s.goTo b phase with states := s.states.abort (.inr b) }

/-- The flip's transaction is committed. -/
def landed (portal : Int) (build : Build) (prune : List Nat) (phase : Phase) : State ι β :=
  { s.goTo b phase with
    states := s.states.commit (.inr b)
    builds := (s.builds++[build]).filter fun x => ¬(x.portalId=portal∧x.id∈prune) }

def unlock (portal : Int) : State ι β :=
  { s with lock := Function.update s.lock portal none }

end State

/-- `lockPortal`, for the next portal listed. -/
def nextPortal : List (Int×Nat) → State ι β
  | [] => s.goTo b .idle
  | (p,d)::todo =>
    match s.lock p with
    | some _ => s.goTo b (.listed todo)
    | none => { s.goTo b (.locked ⟨p,d,todo⟩) with lock := Function.update s.lock p (some b) }

def insertBuild (j : Job) (loadedAt : Nat) (res : Result) : State ι β :=
  { s.goTo b (.inserted j
      ⟨s.nextBuild,j.portal,res.pageCount,res.warnings,[],res.files,loadedAt⟩ res) with
    nextBuild := s.nextBuild+1 }

/-- The flip: the builds to prune are chosen before it waits for the row. -/
def flip (j : Job) (build : Build) (prune : List Nat) (now : Nat) : Option (State ι β) :=
  if s.states.free (.inr b) j.portal then
    match s.states.view (.inr b) j.portal with
    | none => some (s.goTo b (.flipped j build prune))
    | some r =>
      some { s.goTo b (.flipped j build prune) with
        states := s.states.put (.inr b) j.portal (some (flippedRow r build.id j.since now)) }
  else none

/-- `RunOnce` returns early, or a build of it fails. -/
def fail (err : BuildError) (landed : Bool) : Option (State ι β) :=
  match s.phase b with
  | .listed _ => some (s.goTo b .idle)
  | .locked j => some (s.goTo b (.releasing { j with todo := [] }))
  | .attempted j | .loaded j _ | .stored j _ _ | .inserted j _ _ | .filed j _ | .flipping j _ _ =>
    some (s.goTo b (.failed j err))
  | .flipped j build prune =>
    -- the answer to the commit may be lost
    some (if landed then s.landed b j.portal build prune (.failed j err)
      else s.rollback b (.failed j err))
  | _ => none

/-- The builder's connections end, and its lock with them. -/
def kill (sent : Bool) : Option (State ι β) :=
  match s.phase b with
  | .idle => none
  | .orphan _ _ _ => none
  | .flipped j build prune =>
    some ((if sent then s.goTo b (.orphan j.portal build prune) else s.rollback b .idle).unlock
      j.portal)
  | phase => some (phase.job.elim (s.goTo b .idle) fun j => (s.goTo b .idle).unlock j.portal)

/-- A transaction that marked portals commits. -/
def commitTx : State ι β :=
  { s with
    states := s.states.commit (.inl i)
    commits := s.commits+1
    touched := Function.update s.touched i []
    marks := s.marks++(s.touched i).map fun p => ⟨p,s.commits⟩
    shown := s.shown++(s.touched i).filterMap fun p => (s.states.view (.inl i) p).bind (·.dirtySince) }

def step (keep : Int) (s : State ι β) : Event ι β → Option (State ι β)
  | .stamp i portal time =>
    match s.pending i with
    | none => some { s with
        pending := Function.update s.pending i (some (portal,time))
        used := time::s.used }
    | some _ => none
  | .mark i =>
    match s.pending i with
    | none => none
    | some (portal,time) =>
      if s.states.free (.inl i) portal then
        some { s with
          states := s.states.put (.inl i) portal
            (some (markedRow (s.states.view (.inl i) portal) time))
          pending := Function.update s.pending i none
          touched := Function.update s.touched i (portal::s.touched i) }
      else none
  | .commitTx i =>
    match s.pending i with
    | none => some (commitTx s i)
    | some _ => none
  | .abortTx i =>
    some { s with
      states := s.states.abort (.inl i)
      pending := Function.update s.pending i none
      touched := Function.update s.touched i [] }
  | .list b env =>
    match s.phase b with
    | .idle => some (if env.sitesOff then s else s.goTo b (.listed (dirtyPortals s b env)))
    | _ => none
  | .next b =>
    match s.phase b with
    | .listed todo => some (nextPortal s b todo)
    | _ => none
  | .attempt b now =>
    match s.phase b with
    | .locked j => s.update b j.portal (attemptedRow · now) (.attempted j)
    | _ => none
  | .load b =>
    match s.phase b with
    | .attempted j => some (s.goTo b (.loaded j s.commits))
    | _ => none
  | .store b res =>
    match s.phase b with
    | .loaded j loadedAt => some (s.goTo b (.stored j loadedAt res))
    | _ => none
  | .insertBuild b =>
    match s.phase b with
    | .stored j loadedAt res => some (insertBuild s b j loadedAt res)
    | _ => none
  | .insertFiles b =>
    match s.phase b with
    | .inserted j build res => some (s.goTo b (.filed j { build with files := res.files }))
    | _ => none
  | .prune b =>
    match s.phase b with
    | .filed j build =>
      some (s.goTo b (.flipping j build (pruned (keepBuilds keep) (s.builds++[build]) j.portal)))
    | _ => none
  | .flip b now =>
    match s.phase b with
    | .flipping j build prune => flip s b j build prune now
    | _ => none
  | .commit b =>
    match s.phase b with
    | .flipped j build prune => some (s.landed b j.portal build prune (.releasing j))
    | _ => none
  | .fail b err landed => fail s b err landed
  | .recordError b =>
    match s.phase b with
    | .failed j err =>
      s.update b j.portal (fun r => { r with lastError := some err.message }) (.releasing j)
    | _ => none
  | .skipRecord b =>
    match s.phase b with
    | .failed j _ => some (s.goTo b (.releasing j))
    | _ => none
  | .release b =>
    match s.phase b with
    | .releasing j => some ((s.goTo b (.listed j.todo)).unlock j.portal)
    | _ => none
  | .kill b sent => kill s b sent
  | .land b committed =>
    match s.phase b with
    | .orphan portal build prune =>
      some (if committed then s.landed b portal build prune .idle else s.rollback b .idle)
    | _ => none

/-- No portal is marked or built yet. -/
def start : State ι β where
  states := ⟨[],[]⟩
  builds := []
  nextBuild := 1
  lock _ := none
  pending _ := none
  phase _ := .idle
  commits := 0
  touched _ := []
  marks := []
  used := []
  shown := []

end Kitp.PortalBuilds
