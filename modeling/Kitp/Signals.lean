import Mathlib.Data.List.Basic
import Mathlib.Logic.Function.Basic

/-! The signal core: signals, computeds and effects, the push of dirty marks and the pull of
values. -/
namespace Kitp.Signals

inductive Source where
  | signal (s : Nat)
  | computed (c : Nat)
  deriving DecidableEq

/-- A `Computation`. -/
inductive Reader where
  | computed (c : Nat)
  | effect (e : Nat)
  deriving DecidableEq

/-- A `SignalCycleError`, or what a function threw. -/
inductive Fault where
  | cycle
  | thrown
  deriving DecidableEq

/-- The function of a computed. -/
inductive Fn (V : Type) where
  | ret (v : V)
  | throw
  | get (src : Source) (k : V → Fn V)

/-- The function of an effect, which may return a cleanup, or other code. `write` makes writes one
after the other (a `set`, or a `bump` where no value is given), which are the group of that name;
`attempt` catches what its body throws. -/
inductive Prog (V : Type) where
  | done
  | doneWith (cleanup : Prog V)
  | throw
  | get (src : Source) (k : V → Prog V)
  | peek (src : Source) (k : V → Prog V)
  | write (g : Nat) (ws : List (Nat×Option V)) (k : Prog V)
  | batch (body k : Prog V)
  | untrack (body k : Prog V)
  | attempt (body k : Prog V)
  | create (fn : Prog V) (k : Nat → Prog V)
  | dispose (e : Nat) (k : Prog V)
  | flushSync (k : Prog V)

/-- An effect's function begins, in a pass of a flush or when it is created. -/
structure Ran where
  pass : Option Nat
  effect : Nat
  disposed : Bool

/-- The graph and the module's variables. The last five are not the code's: the version of each
source when an effect last read it, the passes begun, the functions of effects begun, whether
something went wrong that the flush doesn't repair, and the groups of writes outside any batch at
whose end an effect was pending. -/
structure State (V : Type) where
  value : Nat → V
  version : Source → Nat
  cached : Nat → V
  dirty : Nat → Bool
  running : Reader → Bool
  subs : Source → List Reader
  fn : Nat → Prog V
  made : Nat
  disposed : Nat → Bool
  cleanup : Nat → Option (Prog V)
  pending : List Nat
  cur : Option Reader
  batchDepth : Nat
  flushing : Bool
  queued : Nat
  clock : Nat
  seen : Nat → Source → Nat
  passes : Nat
  ran : List Ran
  broke : Bool
  crowded : Nat → Bool

variable {V : Type}

namespace State

variable (st : State V)

/-- `track`. -/
def track (src : Source) : State V :=
  match st.cur with
  | none => st
  | some r =>
    let rs := if r∈st.subs src then st.subs src else st.subs src++[r]
    { st with subs := Function.update st.subs src rs }

/-- `clearDeps`. -/
def clearDeps (r : Reader) : State V :=
  { st with subs := fun src => (st.subs src).filter (· ≠ r) }

/-- `scheduleFlush`. -/
def schedule : State V :=
  if 0 < st.batchDepth∨st.flushing=true then st
  else { st with flushing := true, queued := st.queued+1 }

/-- `Effect.notify`. -/
def tell (e : Nat) : State V :=
  if st.disposed e then st
  else
    let es := if e∈st.pending then st.pending else st.pending++[e]
    State.schedule { st with pending := es }

/-- The effect has read the source as it is now. -/
def note (src : Source) : State V :=
  match st.cur with
  | some (.effect e) =>
    let read := Function.update (st.seen e) src (st.version src)
    { st with seen := Function.update st.seen e read }
  | _ => st

end State

/-- `notify` of each: a computed that is dirty has told its own subscribers. -/
def notify : Nat → List Reader → State V → Option (State V)
  | _,[],st => some st
  | 0,_,_ => none
  | n+1,.effect e::rs,st => notify n rs (st.tell e)
  | n+1,.computed c::rs,st =>
    if st.dirty c then notify n rs st
    else (notify n (st.subs (.computed c)) { st with dirty := Function.update st.dirty c true }).bind
      (notify n rs)

/-- `Signal.set` past its gate, and `Signal.bump`: the value, and `pushAndSchedule`. -/
def write (n s : Nat) (v : V) (st : State V) : Option (State V) :=
  (notify n (st.subs (.signal s)) { st with
    value := Function.update st.value s v
    clock := st.clock+1
    version := Function.update st.version (.signal s) (st.clock+1) }).map State.schedule

variable [DecidableEq V]

/-- `set` of each, past its gate, or `bump`. -/
def writes (n : Nat) : List (Nat×Option V) → State V → Option (State V)
  | [],st => some st
  | (s,none)::ws,st => (write n s (st.value s) st).bind (writes n ws)
  | (s,some v)::ws,st => if v=st.value s then writes n ws st
    else (write n s v st).bind (writes n ws)

/-- The `finally` of `recompute`. -/
def State.finish (st : State V) (c : Nat) (prev : Option Reader) : State V :=
  { st with
    cur := prev
    running := Function.update st.running (.computed c) false
    dirty := Function.update st.dirty c false }

/-- A computed has its new value, or has thrown: what `recompute` does in the end. -/
def settle (c : Nat) (prev : Option Reader) (r : Except Fault V×State V) :
    Except Fault V×State V :=
  match r with
  | (.ok v,st) => (.ok v,State.finish (if v=st.cached c then st else { st with
      cached := Function.update st.cached c v
      clock := st.clock+1
      version := Function.update st.version (.computed c) (st.clock+1) }) c prev)
  | (.error x,st) => (.error x,{ st.finish c prev with broke := true })

variable (fns : Nat → Fn V)

/-- `Computed.recompute`, given how a function is run. -/
def recompute (run : Fn V → State V → Option (Except Fault V×State V)) (c : Nat) (st : State V) :
    Option (Except Fault V×State V) :=
  if st.running (.computed c) then some (.error .cycle,{ st with broke := true })
  else (run (fns c) (State.clearDeps { st with
      running := Function.update st.running (.computed c) true
      cur := some (.computed c) } (.computed c))).map (settle c st.cur)

/-- A source's value: a dirty computed is recomputed. -/
def pull (run : Fn V → State V → Option (Except Fault V×State V)) (src : Source) (st : State V) :
    Option (Except Fault V×State V) :=
  match src with
  | .signal s => some (.ok (st.value s),st)
  | .computed c => if st.dirty c then recompute fns run c st else some (.ok (st.cached c),st)

/-- The function of a computed runs. -/
def eval : Nat → Fn V → State V → Option (Except Fault V×State V)
  | 0,_,_ => none
  | _+1,.ret v,st => some (.ok v,st)
  | _+1,.throw,st => some (.error .thrown,st)
  | n+1,.get src k,st => (pull fns (eval n) src (st.track src)).bind fun r => match r with
    | (.ok v,st) => eval n (k v) st
    | (.error x,st) => some (.error x,st)

end Kitp.Signals
