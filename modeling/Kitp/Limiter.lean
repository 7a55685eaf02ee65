import Mathlib.Algebra.Order.Ring.Rat
import Mathlib.Data.List.Sort
import Mathlib.Logic.Function.Basic

/-! `Limiter`: token buckets by key, the least recently used forgotten first. Tokens and seconds
are exact. -/
namespace Kitp.Limiter

/-- A limiter as its callers make them: no rate or burst is negative, and a key is kept. -/
structure Config where
  perMinute : Nat
  burst : Nat
  maxKeys : Nat
  keeps : 0 < maxKeys

def Config.perSec (c : Config) : ℚ := c.perMinute/60

structure Bucket (κ : Type) where
  key : κ
  tokens : ℚ
  at' : ℚ
  deriving DecidableEq

/-- An element of the list, by its address. -/
structure Element (κ : Type) where
  addr : Nat
  bucket : Bucket κ
  deriving DecidableEq

/-- The map and the list, the most recently used first. `clock` is when the last call ended; `calls`,
`lastUse`, `granted` and `evicted` record what happened: how many calls there were, each key's last
one, what `Allow` granted it in all, and how often it was forgotten. -/
structure State (κ : Type) where
  keys : κ → Option Nat
  lru : List (Element κ)
  fresh : Nat
  clock : ℚ
  calls : Nat
  lastUse : κ → Nat
  granted : κ → ℚ
  evicted : κ → Nat

/-- `Throttled` reads the clock for each bucket. -/
inductive Event (κ : Type) where
  | allow (key : κ) (cost now : ℚ)
  | charge (key : κ) (cost now : ℚ)
  | throttled (clock : Nat → ℚ)

variable {κ : Type} [LinearOrder κ] (c : Config) (s : State κ)

def refill (b : Bucket κ) (now : ℚ) : Bucket κ :=
  let tokens := b.tokens+(now-b.at')*c.perSec
  { b with tokens := if tokens > c.burst then c.burst else tokens, at' := now }

/-- The list's back goes. -/
def removeBack : State κ :=
  match s.lru.getLast? with
  | none => s
  | some old => { s with
      keys := Function.update s.keys old.bucket.key none
      lru := s.lru.dropLast
      evicted := Function.update s.evicted old.bucket.key (s.evicted old.bucket.key+1) }

/-- The loop of `bucket`, its turns bounded by the list's length. -/
def evict : Nat → State κ → State κ
  | 0,s => s
  | n+1,s => if c.maxKeys ≤ s.lru.length∧0 < s.lru.length then evict n (removeBack s) else s

/-- `MoveToFront`, with the element's bucket as it is now. -/
def moveToFront (e : Element κ) : State κ :=
  { s with lru := e::s.lru.filter (·.addr≠e.addr) }

def insert (b : Bucket κ) : State κ :=
  { s with
    keys := Function.update s.keys b.key (some s.fresh)
    lru := ⟨s.fresh,b⟩::s.lru
    fresh := s.fresh+1 }

def element (key : κ) : Option (Element κ) :=
  (s.keys key).bind fun a => s.lru.find? (·.addr=a)

/-- `bucket`: the key's element, at the front. -/
def bucket (key : κ) (now : ℚ) : State κ×Element κ :=
  match element s key with
  | some e =>
    let e := { e with bucket := refill c e.bucket now }
    (moveToFront s e,e)
  | none =>
    let t := evict c s.lru.length s
    let b : Bucket κ := ⟨key,c.burst,now⟩
    (insert t b,⟨t.fresh,b⟩)

/-- The call is the key's last use. -/
def use (key : κ) (now : ℚ) : State κ :=
  { s with clock := now, calls := s.calls+1, lastUse := Function.update s.lastUse key (s.calls+1) }

def setTokens (e : Element κ) (tokens : ℚ) : State κ :=
  { s with lru := s.lru.map fun x =>
      if x.addr=e.addr then { x with bucket := { x.bucket with tokens := tokens } } else x }

def allow (key : κ) (cost now : ℚ) : State κ×Bool :=
  let (t,e) := bucket c s key now
  let t := use t key now
  if e.bucket.tokens < cost then (t,false)
  else ({ setTokens t e (e.bucket.tokens-cost) with
    granted := Function.update t.granted key (t.granted key+cost) },true)

def charge (key : κ) (cost now : ℚ) : State κ :=
  let (t,e) := bucket c s key now
  let tokens := e.bucket.tokens-cost
  setTokens (use t key now) e (if tokens < -c.burst then -c.burst else tokens)

/-- The keys that can't make a request now, sorted. -/
def throttled (clock : Nat → ℚ) : State κ×List κ :=
  let lru := s.lru.mapIdx fun i e => { e with bucket := refill c e.bucket (clock i) }
  ({ s with
      lru := lru
      clock := clock (s.lru.length-1) },
    ((lru.filter (·.bucket.tokens < 1)).map (·.bucket.key)).mergeSort)

def step (s : State κ) : Event κ → Option (State κ)
  | .allow key cost now => some (allow c s key cost now).1
  | .charge key cost now => some (charge c s key cost now)
  | .throttled clock => some (throttled c s clock).1

def start (clock : ℚ) : State κ :=
  ⟨fun _ => none,[],0,clock,0,fun _ => 0,fun _ => 0,fun _ => 0⟩

end Kitp.Limiter
