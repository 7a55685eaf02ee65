import Mathlib.Logic.Function.Basic

/-! The identity provider's keys: `lookupKey` by any number of callers, the fetches they and
`ensureDiscovery` start, and the clock. -/
namespace Kitp.IdpKeys

/-- `rsa.PublicKey`. -/
structure PublicKey where
  n : Nat
  e : Int
  deriving DecidableEq

structure JwksKey where
  kid : String
  kty : String
  n : String
  e : String

abbrev JwksKeys := String → Option PublicKey

/-- `jwksMissRefresh`, in nanoseconds, as are all times. -/
def jwksMissRefresh : Nat := 30*1000000000

def jwksMaxStale : Nat := 24*3600*1000000000

/-- The timeout of `client`, on each request with its answer. -/
def clientTimeout : Nat := 5*1000000000

inductive Built where
  | failed
  | crashed
  | key (key : PublicKey)
  deriving DecidableEq

/-- `big.Int.SetBytes` and, of eight bytes, `binary.BigEndian.Uint64`. -/
def ofBytes (bytes : List UInt8) : Nat :=
  bytes.foldl (fun v b => v*256+b.toNat) 0

section keys

variable (decodeSegment : String → Option (List UInt8))

def buildRSAKey (nB64 eB64 : String) : Built :=
  match decodeSegment nB64 with
  | none => .failed
  | some nBytes =>
    match decodeSegment eB64 with
    | none => .failed
    | some eBytes =>
      -- the slice `eBuf[8-len(eBytes):]` has a negative bound
      if 8 < eBytes.length then .crashed
      else .key ⟨ofBytes nBytes,(BitVec.ofNat 64 (ofBytes eBytes)).toInt⟩

/-- The loop of `refreshJWKS` over a document, `none` where it panics. -/
def jwksOf : List JwksKey → JwksKeys → Option JwksKeys
  | [],keys => some keys
  | k::doc,keys =>
    if k.kty≠"RSA" then jwksOf doc keys
    else
      match buildRSAKey decodeSegment k.n k.e with
      | .failed => jwksOf doc keys
      | .crashed => none
      | .key key => jwksOf doc (Function.update keys k.kid (some key))

/-- The document lists the key under the id. -/
def Lists (doc : List JwksKey) (kid : String) (key : PublicKey) : Prop :=
  ∃ k∈doc, k.kty="RSA"∧k.kid=kid∧buildRSAKey decodeSegment k.n k.e=.key key

/-- An RSA key whose modulus decodes and whose exponent decodes to more than eight bytes. -/
def Overlong (k : JwksKey) : Prop :=
  k.kty="RSA"∧∃ nBytes eBytes, decodeSegment k.n=some nBytes∧decodeSegment k.e=some eBytes∧
    8 < eBytes.length

end keys

/-- What comes of a request: it can't be built, it isn't answered, or its answer's status and
the body, or why that doesn't decode. -/
inductive Reply (α : Type) where
  | unsent (cause : String)
  | failed (cause : String)
  | status (code : Nat) (body : Except String α)

/-- How far a `refreshJWKS` is: the request it waits on and since when. -/
inductive Refresh where
  | starting
  | discovery (since : Nat)
  | jwks (since : Nat)

inductive Outcome where
  | going (r : Refresh)
  | returned (err : Option String)
  | crashed

/-- The locals of a `lookupKey`: `usable` is the key held at its start where it is usable. -/
structure Lookup where
  kid : String
  usable : Option PublicKey

/-- `held` where it is usable, else the error. -/
def Lookup.orHeld (l : Lookup) (err : String) : Except String PublicKey :=
  match l.usable with
  | some held => .ok held
  | none => .error err

inductive Call (ι : Type) where
  | idle
  | locking (l : Lookup)
  | waiting (kid : String) (wait : ι)
  | fetching (l : Lookup) (r : Refresh)
  | fetched (l : Lookup) (err : Option String)
  | closing (l : Lookup) (err : Option String)
  | looking (kid : String)
  | answered (kid : String) (answer : Except String PublicKey)
  | discovering (r : Refresh)
  | discovered (err : Option String)
  | crashed

/-- A document that was fetched and put in place. -/
structure Fetched (ι : Type) where
  runner : ι
  time : Nat
  doc : List JwksKey

/-- A moment of a call: the clock, the last try and the documents so far, the latest first. -/
structure Moment (ι : Type) where
  now : Nat
  triedAt : Option Nat
  fetches : List (Fetched ι)

/-- The validator (each channel named by the call that made it) and the calls. `fetches`,
`tries`, `began`, `locked`, `returned` (of a call's refresh) and `ended` record what happened. -/
structure State (ι : Type) where
  now : Nat
  disco : Option String
  jwksKeys : JwksKeys
  jwksFetchedAt : Option Nat
  jwksTriedAt : Option Nat
  jwksFetching : Option ι
  closed : ι → Bool
  call : ι → Call ι
  fetches : List (Fetched ι)
  tries : List Nat
  began : ι → Option (Moment ι)
  locked : ι → Option (Moment ι)
  returned : ι → Option (Option String)
  ended : ι → Option (Moment ι)

/-- `NewValidator`. -/
def start {ι : Type} (now : Nat) : State ι where
  now := now
  disco := none
  jwksKeys _ := none
  jwksFetchedAt := none
  jwksTriedAt := none
  jwksFetching := none
  closed _ := false
  call _ := .idle
  fetches := []
  tries := []
  began _ := none
  locked _ := none
  returned _ := none
  ended _ := none

inductive Progress where
  | proceed
  | discovery (reply : Reply String)
  | jwks (reply : Reply (List JwksKey))

inductive Event (ι : Type) where
  | tick (d : Nat)
  | lookup (i : ι) (kid : String)
  | lock (i : ι)
  | giveUp (i : ι) (err : String)
  | wake (i : ι)
  | refresh (i : ι) (p : Progress)
  | clear (i : ι)
  | close (i : ι)
  | look (i : ι)
  | discover (i : ι)

variable {ι : Type} [DecidableEq ι]

def State.moment (s : State ι) : Moment ι :=
  ⟨s.now,s.jwksTriedAt,s.fetches⟩

def State.goto (s : State ι) (i : ι) (c : Call ι) : State ι :=
  { s with call := Function.update s.call i c }

def State.answer (s : State ι) (i : ι) (kid : String) (answer : Except String PublicKey) :
    State ι :=
  { s with
    call := Function.update s.call i (.answered kid answer)
    ended := Function.update s.ended i (some s.moment) }

/-- The age of the keys is below `d`; before the first fetch it is above every bound in use. -/
def State.younger (s : State ι) (d : Nat) : Bool :=
  s.jwksFetchedAt.any fun t => decide (s.now-t < d)

def noKey (kid : String) : String := s!"oidc: no key for kid={kid}"

/-- The read of `lookupKey` under the read lock, and the answer by a held key. -/
def lookup (jwksTTL : Nat) (s : State ι) (i : ι) (kid : String) : State ι :=
  let s := { s with began := Function.update s.began i (some s.moment) }
  match s.jwksKeys kid with
  | some held =>
    if s.younger jwksTTL then s.answer i kid (.ok held)
    else s.goto i (.locking ⟨kid,if s.younger (jwksTTL+jwksMaxStale) then some held else none⟩)
  | none => s.goto i (.locking ⟨kid,none⟩)

/-- `lookupKey` under the lock. -/
def lock (s : State ι) (i : ι) (l : Lookup) : State ι :=
  let s := { s with locked := Function.update s.locked i (some s.moment) }
  match s.jwksFetching with
  | some wait =>
    match l.usable with
    | some held => s.answer i l.kid (.ok held)
    | none => s.goto i (.waiting l.kid wait)
  | none =>
    if s.jwksTriedAt.any fun t => decide (s.now-t < jwksMissRefresh) then
      s.answer i l.kid (l.orHeld (noKey l.kid))
    else
      { s with
        jwksTriedAt := some s.now
        jwksFetching := some i
        tries := s.now::s.tries
        call := Function.update s.call i (.fetching l .starting) }

def knownKey (keys : JwksKeys) (kid : String) : Except String PublicKey :=
  match keys kid with
  | some key => .ok key
  | none => .error (noKey kid)

/-- The body of an answer with status 200, else the error of `refreshJWKS`. -/
def Reply.read {α : Type} (what : String) : Reply α → Except String α
  | .unsent cause => .error cause
  | .failed cause => .error s!"oidc: {what}: {cause}"
  | .status code body =>
    if code≠200 then .error s!"oidc: {what} status {code}"
    else
      match body with
      | .error cause => .error s!"oidc: {what} decode: {cause}"
      | .ok doc => .ok doc

variable (decodeSegment : String → Option (List UInt8))

/-- A part of `refreshJWKS`: the reads of `disco`, or what it does with a reply. -/
def refreshJWKS (s : State ι) (i : ι) : Refresh → Progress → Option (State ι×Outcome)
  | .starting,.proceed =>
    some (s,.going (if s.disco.isSome then .jwks s.now else .discovery s.now))
  | .discovery _,.discovery reply =>
    match reply.read "discovery" with
    | .error err => some (s,.returned (some err))
    | .ok url => some ({ s with disco := some url },.going (.jwks s.now))
  | .jwks _,.jwks reply =>
    match reply.read "jwks" with
    | .error err => some (s,.returned (some err))
    | .ok doc =>
      match jwksOf decodeSegment doc fun _ => none with
      | none => some (s,.crashed)
      | some keys =>
        some ({ s with
          jwksKeys := keys
          jwksFetchedAt := some s.now
          fetches := ⟨i,s.now,doc⟩::s.fetches },.returned none)
  | _,_ => none

/-- A call after a part of its refresh. -/
def State.after (s : State ι) (i : ι) (going : Refresh → Call ι)
    (returned : Option String → Call ι) : Outcome → State ι
  | .going r => s.goto i (going r)
  | .returned err =>
    { s with
      call := Function.update s.call i (returned err)
      returned := Function.update s.returned i (some err) }
  | .crashed => s.goto i .crashed

/-- The channel is closed and the fetch's result is looked at. -/
def close (s : State ι) (i : ι) (l : Lookup) (err : Option String) : State ι :=
  let s := { s with closed := Function.update s.closed i true }
  match err with
  | some err => s.answer i l.kid (l.orHeld err)
  | none => s.goto i (.looking l.kid)

def step (jwksTTL : Nat) (s : State ι) : Event ι → Option (State ι)
  | .tick d => some { s with now := s.now+d }
  | .lookup i kid =>
    match s.call i with
    | .idle => some (lookup jwksTTL s i kid)
    | _ => none
  | .lock i =>
    match s.call i with
    | .locking l => some (lock s i l)
    | _ => none
  | .giveUp i err =>
    match s.call i with
    | .waiting kid _ => some (s.answer i kid (.error err))
    | _ => none
  | .wake i =>
    match s.call i with
    | .waiting kid wait => if s.closed wait then some (s.goto i (.looking kid)) else none
    | _ => none
  | .refresh i p =>
    match s.call i with
    | .fetching l r =>
      (refreshJWKS decodeSegment s i r p).map fun x =>
        x.1.after i (.fetching l) (.fetched l) x.2
    | .discovering r =>
      (refreshJWKS decodeSegment s i r p).map fun x =>
        x.1.after i .discovering .discovered x.2
    | _ => none
  | .clear i =>
    match s.call i with
    | .fetched l err => some ({ s with jwksFetching := none }.goto i (.closing l err))
    | _ => none
  | .close i =>
    match s.call i with
    | .closing l err => some (close s i l err)
    | _ => none
  | .look i =>
    match s.call i with
    | .looking kid => some (s.answer i kid (knownKey s.jwksKeys kid))
    | _ => none
  | .discover i =>
    match s.call i with
    | .idle =>
      some (s.goto i (if s.disco.isSome then .discovered none else .discovering .starting))
    | _ => none

/-- The client's timeouts hold, and a fetch with nothing to wait for goes on at once. -/
def Timely (s : State ι) : Event ι → Prop
  | .tick d => ∀ i,
    match s.call i with
    | .fetching _ .starting => d=0
    | .fetching _ (.discovery since) => s.now+d ≤ since+clientTimeout
    | .fetching _ (.jwks since) => s.now+d ≤ since+clientTimeout
    | .fetched _ _ => d=0
    | _ => True
  | _ => True

end Kitp.IdpKeys
