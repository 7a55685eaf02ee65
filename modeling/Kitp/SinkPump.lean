import Kitp.Lib.Runs
import Kitp.Lib.Window
import Mathlib.Data.Prod.Lex
import Mathlib.Logic.Function.Basic

/-! The activity-sink pump reading the activity stream beside the transactions
that write it: transaction ids, commits, the horizon and one unit's ticks. -/
namespace Kitp.SinkPump
open Kitp.Runs Kitp.Window

/-- Where a unit has read the stream to, in `(txid, id)` order. -/
abbrev Position := Nat ×ₗ Int

def position (txid : Nat) (id : Int) : Position := toLex (txid,id)

/-- One activity row; `body` is what the filters and the digest read. -/
structure Row (β : Type*) where
  txid : Nat
  id : Int
  createdAt : Nat
  body : β

def Row.position {β : Type*} (r : Row β) : Position := SinkPump.position r.txid r.id

/-- A transaction that has been given an id, in this database or another one. -/
inductive Xact where
  | running (ours : Bool)
  | committed
  | aborted
deriving DecidableEq

structure UnitState where
  pos : Position
  pendingSince : Option Nat
  pushedCount : Nat
  lastError : Option String

/-- Where a tick of the unit stands. -/
inductive Phase (β : Type*) where
  | idle
  | loaded (st : UnitState)
  | snapped (st : UnitState) (xip : List Nat) (xmax : Nat)
  | bounded (st : UnitState) (horizon : Nat)
  | scanned (st : UnitState) (horizon : Nat) (rows : List (Row β))

structure State (β : Type*) where
  xacts : Nat → Option Xact
  /-- The next transaction id to be given out. -/
  nextXid : Nat
  latestCompleted : Nat
  rows : List (Row β)
  unit : UnitState
  phase : Phase β
  /-- For each recorded decision, the scanned rows its position moved past. -/
  decided : List (List (Row β))

/-- What one tick reads besides the stream: the unit's settings and clock, the
outcome of its filters and of its delivery. -/
structure Tick (β : Type*) where
  now : Nat
  rollup : Nat
  personal : Bool
  visible : Bool
  eventFilter : Row β → Bool
  /-- `none`: the stored filter does not parse. -/
  cardFilter : Option (Row β → Bool)
  digestBuilt : Bool
  delivered : Except String Unit

/-- The arguments of one `recordState` call. -/
structure Record where
  pos : Position
  pendingSince : Option Nat
  pushed : Nat
  lastError : Option String

variable {β : Type*}

/-- `applyCardFilter`, called only when the event filter left something. -/
def matchedRows (k : Tick β) (rows : List (Row β)) : Option (List (Row β)) :=
  match rows.filter k.eventFilter with
  | [] => some []
  | first::rest => k.cardFilter.map fun f => (first::rest).filter f

/-- `RunOnce` from the scanned batch on: the state it records, if it records one. -/
def runOnce (k : Tick β) (st : UnitState) (rows : List (Row β)) : Option Record :=
  match rows.getLast? with
  | none =>
    if st.pendingSince.isSome then some ⟨st.pos,none,0,none⟩ else none
  | some last =>
    if k.personal&&!k.visible then
      some ⟨last.position,none,0,some "subscriber can no longer see this project"⟩
    else
      match matchedRows k rows with
      | none => none
      | some [] => some ⟨last.position,none,0,none⟩
      | some (first::rest) =>
        if 0 < k.rollup∧k.now < first.createdAt+k.rollup then
          some ⟨position first.txid (first.id-1),some first.createdAt,0,none⟩
        else if !k.digestBuilt then none
        else
          match k.delivered with
          | .error text => some ⟨st.pos,some first.createdAt,0,some text⟩
          | .ok _ => some ⟨last.position,none,(first::rest).length,none⟩

/-- `recordState`: the position only moves forward. -/
def recordState (u : UnitState) (r : Record) : UnitState :=
  { pos := if u.pos < r.pos then r.pos else u.pos, pendingSince := r.pendingSince,
    pushedCount := u.pushedCount+r.pushed, lastError := r.lastError }

def running (s : State β) (ours : Bool) (x : Nat) : Bool :=
  s.xacts x=some (.running ours)

/-- The statement's snapshot: every id in progress below the first one not completed. -/
def snapshotXip (s : State β) : List Nat :=
  (List.range (s.latestCompleted+1)).filter fun x => running s true x||running s false x

/-- `horizon`: the oldest of the snapshot's transactions still running in this
database, or the snapshot's upper end. -/
def horizon (s : State β) (xip : List Nat) (xmax : Nat) : Nat :=
  ((xip.filter (running s true)).min?).getD xmax

/-- The rows a statement sees: those of committed transactions and those written
before transaction ids were recorded. -/
def visible (s : State β) (r : Row β) : Bool :=
  r.txid=0||s.xacts r.txid=some .committed

/-- `loadActivityBatch`: past the position, below the horizon, in scope and not hidden. -/
def loadActivityBatch (s : State β) (pos : Position) (horizon : Nat) (scope : Row β → Bool)
    (limit : Nat) : List (Row β) :=
  window Row.position
    (fun r => visible s r&&(pos < r.position)&&(r.txid < horizon)&&scope r) limit s.rows

inductive Event (β : Type*) where
  | begin (ours : Bool)
  | insert (r : Row β)
  | commit (x : Nat)
  | abort (x : Nat)
  | tick (now rollup : Nat)
  | snapshot
  | horizon
  | scan (scope : Row β → Bool) (limit : Nat)
  | decide (k : Tick β) (written : Bool)
  | giveUp

/-- One step of a transaction or of the unit's tick. A transaction takes its id
with its first write; a tick may end early anywhere (`giveUp`), and its last
write may fail. -/
def step (s : State β) : Event β → Option (State β)
  | .begin ours =>
    some { s with xacts := Function.update s.xacts s.nextXid (some (.running ours)),
                  nextXid := s.nextXid+1 }
  | .insert r =>
    if running s true r.txid∧0 < r.id∧∀ x∈s.rows, x.id≠r.id then
      some { s with rows := r::s.rows }
    else none
  | .commit x =>
    if running s true x∨running s false x then
      some { s with xacts := Function.update s.xacts x (some .committed),
                    latestCompleted := max s.latestCompleted x }
    else none
  | .abort x =>
    if running s true x∨running s false x then
      some { s with xacts := Function.update s.xacts x (some .aborted),
                    latestCompleted := max s.latestCompleted x }
    else none
  | .tick now rollup =>
    match s.phase with
    | .idle =>
      match s.unit.pendingSince with
      | some since =>
        if now < since+rollup then some s else some { s with phase := .loaded s.unit }
      | none => some { s with phase := .loaded s.unit }
    | _ => none
  | .snapshot =>
    match s.phase with
    | .loaded st =>
      some { s with phase := .snapped st (snapshotXip s) (s.latestCompleted+1) }
    | _ => none
  | .horizon =>
    match s.phase with
    | .snapped st xip xmax => some { s with phase := .bounded st (horizon s xip xmax) }
    | _ => none
  | .scan scope limit =>
    match s.phase with
    | .bounded st h =>
      some { s with phase := .scanned st h (loadActivityBatch s st.pos h scope limit) }
    | _ => none
  | .decide k written =>
    match s.phase with
    | .scanned st _ rows =>
      match runOnce k st rows with
      | some w =>
        if written then
          let unit := recordState s.unit w
          some { s with unit := unit, phase := .idle,
                        decided := s.decided++[rows.filter fun r => r.position ≤ unit.pos] }
        else some { s with phase := .idle }
      | none => some { s with phase := .idle }
    | _ => none
  | .giveUp =>
    match s.phase with
    | .idle => none
    | _ => some { s with phase := .idle }

end Kitp.SinkPump
