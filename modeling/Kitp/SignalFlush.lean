import Kitp.Signals

/-! Effects, `batch` and the flush. -/
namespace Kitp.Signals

variable {V : Type} [DecidableEq V]

/-- What is run: code, an effect, the passes of a flush, one pass. -/
inductive Task (V : Type) where
  | prog (p : Prog V)
  | run (pass : Option Nat) (e : Nat)
  | loop (passes : Nat)
  | pass (number : Nat) (es : List Nat)

/-- What it returned (a cleanup, if one) or threw. -/
abbrev Out (V : Type) := Except Fault (Option (Prog V))×State V

/-- The next, where nothing was thrown. -/
def next (r : Out V) (k : Option (Prog V) → State V → Option (Out V)) : Option (Out V) :=
  match r with
  | (.ok c,st) => k c st
  | (.error x,st) => some (.error x,st)

/-- `Effect.dispose`, before the cleanup. -/
def State.gone (st : State V) (e : Nat) : State V :=
  State.clearDeps { st with
    disposed := Function.update st.disposed e true
    pending := st.pending.filter (· ≠ e)
    cleanup := Function.update st.cleanup e none } (.effect e)

/-- An effect's function begins. -/
def State.entered (st : State V) (pass : Option Nat) (e : Nat) : State V :=
  State.clearDeps { st with
    running := Function.update st.running (.effect e) true
    cur := some (.effect e)
    ran := ⟨pass,e,st.disposed e⟩::st.ran
    broke := st.broke||st.disposed e } (.effect e)

/-- Of the effects, which don't run after all, one is neither disposed nor pending. -/
def State.loses (st : State V) (es : List Nat) : Bool :=
  es.any fun e => !st.disposed e&&e∉st.pending

/-- The `finally` of `Effect.run`. -/
def State.leave (st : State V) (e : Nat) (prev : Option Reader) : State V :=
  { st with
    cur := prev
    running := Function.update st.running (.effect e) false }

/-- An effect's function has returned, perhaps with a cleanup, or has thrown. -/
def Effect.finish (e : Nat) (prev : Option Reader) (r : Out V) : Out V :=
  match r with
  | (.ok c,st) => (.ok none,{ st.leave e prev with cleanup := Function.update st.cleanup e c })
  | (.error x,st) => (.error x,st.leave e prev)

/-- A group of writes has ended. -/
def State.crowd (st : State V) (g : Nat) : State V :=
  let late := st.crowded g||(st.batchDepth=0&&!st.pending.isEmpty)
  { st with crowded := Function.update st.crowded g late }

section

variable (fns : Nat → Fn V) (together : Nat → Bool)
  (call : Task V → State V → Option (Out V)) (n : Nat)

/-- `flush`. -/
def flush (st : State V) : Option (Out V) :=
  if 0 < st.batchDepth then some (.ok none,st)
  else if st.pending=[] then some (.ok none,{ st with flushing := false })
  else (call (.loop 0) st).map fun r => (r.1,{ r.2 with flushing := false })

/-- Code runs; groups of writes that are to be made together are made in a `batch`. -/
def Prog.exec : Prog V → State V → Option (Out V)
  | .done,st => some (.ok none,st)
  | .doneWith p,st => some (.ok (some p),st)
  | .throw,st => some (.error .thrown,st)
  | .get src k,st => (pull fns (eval fns n) src (st.track src)).bind fun r => match r with
    | (.ok v,st) => (k v).exec (st.note src)
    | (.error x,st) => some (.error x,st)
  | .peek src k,st => (pull fns (eval fns n) src st).bind fun r => match r with
    | (.ok v,st) => (k v).exec st
    | (.error x,st) => some (.error x,st)
  | .write g ws k,st =>
    if together g then
      (writes n ws { st with batchDepth := st.batchDepth+1 }).bind fun st =>
        (flush call (State.crowd { st with batchDepth := st.batchDepth-1 } g)).bind fun f =>
          next f fun _ => k.exec
    else (writes n ws st).bind fun st => k.exec (st.crowd g)
  | .batch body k,st =>
    (body.exec { st with batchDepth := st.batchDepth+1 }).bind fun r =>
      (flush call { r.2 with batchDepth := r.2.batchDepth-1 }).bind fun f =>
        next f fun _ st => next (r.1,st) fun _ st => k.exec st
  | .untrack body k,st => (body.exec { st with cur := none }).bind fun r =>
      next (r.1,{ r.2 with cur := st.cur }) fun _ st => k.exec st
  | .attempt body k,st => (body.exec st).bind fun r => k.exec r.2
  | .create fn k,st =>
    (call (.run none st.made) { st with
      made := st.made+1
      fn := Function.update st.fn st.made fn }).bind fun r => next r fun _ => (k st.made).exec
  | .dispose e k,st =>
    if st.disposed e then k.exec st
    else match st.cleanup e with
      | none => k.exec (st.gone e)
      | some p => (call (.prog p) (st.gone e)).bind fun r => next r fun _ => k.exec
  | .flushSync k,st =>
    if st.flushing=true∨st.pending≠[] then
      (flush call { st with flushing := true }).bind fun r => next r fun _ => k.exec
    else k.exec st

/-- An effect's function, past its guards and its cleanup. -/
def Effect.body (pass : Option Nat) (e : Nat) (st : State V) : Option (Out V) :=
  (call (.prog (st.fn e)) (st.entered pass e)).map (Effect.finish e st.cur)

/-- `Effect.run`. -/
def Effect.run (pass : Option Nat) (e : Nat) (st : State V) : Option (Out V) :=
  if st.disposed e then some (.ok none,st)
  else if st.running (.effect e) then
    some (.error .cycle,{ st with broke := st.broke||st.loses [e] })
  else match st.cleanup e with
    | none => Effect.body call pass e st
    | some p => (call (.prog p) { st with cleanup := Function.update st.cleanup e none }).bind
        fun r => match r with
        | (.ok _,st) => Effect.body call pass e st
        | (.error x,st) => some (.error x,{ st with broke := st.broke||st.loses [e] })

end

/-- Everything, with a bound on the depth. -/
def exec (fns : Nat → Fn V) (together : Nat → Bool) : Nat → Task V → State V → Option (Out V)
  | 0,_,_ => none
  | n+1,.prog p,st => p.exec fns together (exec fns together n) n st
  | n+1,.run pass e,st => Effect.run (exec fns together n) pass e st
  | n+1,.loop passes,st =>
    if st.pending=[] then some (.ok none,st)
    else if 100 ≤ passes then some (.error .cycle,{ st with pending := [], broke := true })
    else (exec fns together n (.pass st.passes st.pending) { st with
        pending := []
        passes := st.passes+1 }).bind fun r => next r fun _ => exec fns together n (.loop (passes+1))
  | _+1,.pass _ [],st => some (.ok none,st)
  | n+1,.pass number (e::es),st =>
    (exec fns together n (.run (some number) e) st).bind fun r => match r with
      | (.ok _,st) => exec fns together n (.pass number es) st
      | (.error x,st) => some (.error x,{ st with broke := st.broke||st.loses es })

/-- A task of the event loop; what it throws is reported, and what it did stays. -/
inductive Event (V : Type) where
  | code (n : Nat) (p : Prog V)
  | microtask (n : Nat)

def step (fns : Nat → Fn V) (together : Nat → Bool) (st : State V) : Event V → Option (State V)
  | .code n p => (exec fns together n (.prog p) st).map (·.2)
  | .microtask n =>
    if 0 < st.queued then (flush (exec fns together n) { st with queued := st.queued-1 }).map (·.2)
    else none

/-- Signals with their values, and computeds nobody has read. -/
def start (value cached : Nat → V) : State V where
  value := value
  version _ := 0
  cached := cached
  dirty _ := true
  running _ := false
  subs _ := []
  fn _ := .done
  made := 0
  disposed _ := false
  cleanup _ := none
  pending := []
  cur := none
  batchDepth := 0
  flushing := false
  queued := 0
  clock := 0
  seen _ _ := 0
  passes := 0
  ran := []
  broke := false
  crowded _ := false

end Kitp.Signals
