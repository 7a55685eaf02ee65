import Kitp.Lib.Runs
import Mathlib.Logic.Function.Basic

/-! The Idempotency-Key middleware as a transition system: every lookup, claim,
run, store and release of every request is a step of its own, and a client may
hang up between any two of them. -/
namespace Kitp.Idempotency
open Kitp.Runs

/-- One sub-response of a batch answer. -/
structure SubResponse where
  ok : Bool
  error : Option String

/-- The decoders, the digest and the `jsonb` column the middleware works over. -/
structure Codec (Body Hash Jsonb : Type*) where
  len : Body → Nat
  sum256 : Body → Hash
  /-- The endpoint and action of each sub-request; `none` when the body does not parse. -/
  subrequests : Body → Option (List (String×String))
  subresponses : Body → Option (List SubResponse)
  /-- The registry has this handler and it is marked secret. -/
  secret : String → String → Bool
  toJsonb : Body → Jsonb
  text : Jsonb → Body

structure Request (Body : Type*) where
  user : Int
  method : String
  key : String
  body : Body

/-- What the wrapped handler left in the capturing writer. -/
structure Captured (Body : Type*) where
  status : Nat
  buf : Body

structure StoredRow (Hash Jsonb : Type*) where
  requestHash : Hash
  response : Jsonb

inductive Outcome (Body : Type*) where
  | bypassed
  | tooLarge
  | readBody
  | replayed (text : Body)
  | mismatch
  | inProgress
  | failed
  | executed (res : Option (Captured Body))

/-- Where a request stands. `claiming c` has run the claim statement with
answer `c`, which the client has not received yet. -/
inductive Phase (Body : Type*) where
  | arrived
  | reading
  | missed
  | claiming (claimed : Bool)
  | claimed (claimed : Bool)
  | running
  | ran (res : Option (Captured Body))
  | releasing (out : Outcome Body)
  | done (out : Outcome Body)

inductive Event (ρ Body : Type*) where
  | tick
  | hangUp (r : ρ)
  | enter (r : ρ)
  | enterLost (r : ρ)
  | lookup (r : ρ)
  | lookupLost (r : ρ)
  | claim (r : ρ)
  | claimUnsent (r : ρ)
  | claimAnswer (r : ρ)
  | claimAnswerLost (r : ρ)
  | relookup (r : ρ)
  | relookupLost (r : ρ)
  | finish (r : ρ) (res : Option (Captured Body))
  | store (r : ρ)
  | release (r : ρ)

/-- The primary key of both tables. -/
abbrev UserKey := Int×String

structure State (ρ Body Hash Jsonb : Type*) where
  now : Nat
  responses : UserKey → Option (StoredRow Hash Jsonb)
  claims : UserKey → Option Nat
  phase : ρ → Phase Body
  gone : ρ → Bool

variable {ρ Body Hash Jsonb : Type*}

def init : State ρ Body Hash Jsonb :=
  { now := 0, responses := fun _ => none, claims := fun _ => none,
    phase := fun _ => .arrived, gone := fun _ => false }

def Request.userKey (q : Request Body) : UserKey := (q.user,q.key)

/-- Requests without a key, or of another method, pass through unchanged. -/
def Request.keyed (q : Request Body) : Bool := q.key≠""∧q.method="POST"

def maxBatchBytes : Nat := 32*1024*1024

/-- `claimStale`, in seconds. -/
def claimStale : Nat := 15*60

def batchHasSecret (c : Codec Body Hash Jsonb) (body : Body) : Bool :=
  match c.subrequests body with
  | none => true
  | some srs => srs.any fun sr => c.secret sr.1 sr.2

def batchSucceeded (c : Codec Body Hash Jsonb) (body : Body) : Bool :=
  match c.subresponses body with
  | none => false
  | some srs => srs.all fun sr => sr.ok&&sr.error.isNone

/-- The answers `WrapAuthed` keeps. -/
def storable (c : Codec Body Hash Jsonb) (q : Request Body) (res : Option (Captured Body)) :
    Bool :=
  match res with
  | none => false
  | some cap => cap.status=200&&(0<c.len cap.buf)&&batchSucceeded c cap.buf&&
      !batchHasSecret c q.body

/-- The `ON CONFLICT … WHERE claimed_at < now() - stale` insert: whether it returns a row. -/
def claimable (now : Nat) (held : Option Nat) : Bool :=
  match held with
  | none => true
  | some at_ => at_+claimStale<now

/-- The `ON CONFLICT DO NOTHING` insert of an answer. -/
def insertRow (old : Option (StoredRow Hash Jsonb)) (row : StoredRow Hash Jsonb) :
    StoredRow Hash Jsonb :=
  old.getD row

variable [DecidableEq ρ]

namespace State

def setPhase (s : State ρ Body Hash Jsonb) (r : ρ) (p : Phase Body) : State ρ Body Hash Jsonb :=
  { s with phase := Function.update s.phase r p }

/-- The request moves on, with the rows of its own key rewritten. -/
def put (s : State ρ Body Hash Jsonb) (r : ρ) (k : UserKey) (p : Phase Body)
    (row : Option (StoredRow Hash Jsonb)) (cl : Option Nat) : State ρ Body Hash Jsonb :=
  { s with phase := Function.update s.phase r p,
           responses := Function.update s.responses k row,
           claims := Function.update s.claims k cl }

theorem setPhase_eq_put (s : State ρ Body Hash Jsonb) (r : ρ) (k : UserKey)
    (p : Phase Body) : s.setPhase r p=s.put r k p (s.responses k) (s.claims k) := by
  simp [setPhase,put]

section Put
variable {s : State ρ Body Hash Jsonb} {r r' : ρ} {k k' : UserKey} {p : Phase Body}
  {row : Option (StoredRow Hash Jsonb)} {cl : Option Nat}

@[simp] theorem put_phase_self : (s.put r k p row cl).phase r=p := by
  simp [put]

theorem put_phase_ne (h : r'≠r) : (s.put r k p row cl).phase r'=s.phase r' := by
  simp [put,h]

@[simp] theorem put_responses_self : (s.put r k p row cl).responses k=row := by
  simp [put]

theorem put_responses_ne (h : k'≠k) : (s.put r k p row cl).responses k'=s.responses k' := by
  simp [put,h]

@[simp] theorem put_claims_self : (s.put r k p row cl).claims k=cl := by
  simp [put]

theorem put_claims_ne (h : k'≠k) : (s.put r k p row cl).claims k'=s.claims k' := by
  simp [put,h]

end Put

end State

variable [DecidableEq Hash]

/-- `replay`: what a lookup's result answers the client with, if anything. -/
def replay (c : Codec Body Hash Jsonb) (q : Request Body)
    (found : Option (StoredRow Hash Jsonb)) : Option (Outcome Body) :=
  match found with
  | none => none
  | some row =>
    if row.requestHash=c.sum256 q.body then some (.replayed (c.text row.response))
    else some .mismatch

theorem replay_none {c : Codec Body Hash Jsonb} {q : Request Body}
    {row : Option (StoredRow Hash Jsonb)} :
    replay c q row=none ↔ row=none := by
  cases row with
  | none => simp [replay]
  | some row => by_cases h : row.requestHash=c.sum256 q.body <;> simp [replay,h]

/-- One step of one request, or of the clock. The statements that run under the
request's context (`lookup`, `claim`) can lose their answer once the client is
gone; `store` and `release` run without its cancellation. -/
def step (c : Codec Body Hash Jsonb) (req : ρ → Request Body) (s : State ρ Body Hash Jsonb) :
    Event ρ Body → Option (State ρ Body Hash Jsonb)
  | .tick => some { s with now := s.now+1 }
  | .hangUp r => some { s with gone := Function.update s.gone r true }
  | .enter r =>
    match s.phase r with
    | .arrived =>
      if !(req r).keyed then some (s.setPhase r (.done .bypassed))
      else if c.len (req r).body> maxBatchBytes then some (s.setPhase r (.done .tooLarge))
      else some (s.setPhase r .reading)
    | _ => none
  | .enterLost r =>
    match s.phase r with
    | .arrived => if s.gone r then some (s.setPhase r (.done .readBody)) else none
    | _ => none
  | .lookup r =>
    match s.phase r with
    | .reading =>
      match replay c (req r) (s.responses (req r).userKey) with
      | some out => some (s.setPhase r (.done out))
      | none => some (s.setPhase r .missed)
    | _ => none
  | .lookupLost r =>
    match s.phase r with
    | .reading => if s.gone r then some (s.setPhase r (.done .failed)) else none
    | _ => none
  | .claim r =>
    match s.phase r with
    | .missed =>
      if claimable s.now (s.claims (req r).userKey) then
        some { s.setPhase r (.claiming true) with
          claims := Function.update s.claims (req r).userKey (some s.now) }
      else some (s.setPhase r (.claiming false))
    | _ => none
  | .claimUnsent r =>
    match s.phase r with
    | .missed => if s.gone r then some (s.setPhase r (.done .failed)) else none
    | _ => none
  | .claimAnswer r =>
    match s.phase r with
    | .claiming b => some (s.setPhase r (.claimed b))
    | _ => none
  | .claimAnswerLost r =>
    -- `begin` returns the error without a `release`
    match s.phase r with
    | .claiming _ => if s.gone r then some (s.setPhase r (.done .failed)) else none
    | _ => none
  | .relookup r =>
    match s.phase r with
    | .claimed b =>
      match replay c (req r) (s.responses (req r).userKey), b with
      | some out, true => some (s.setPhase r (.releasing out))
      | some out, false => some (s.setPhase r (.done out))
      | none, true => some (s.setPhase r .running)
      | none, false => some (s.setPhase r (.done .inProgress))
    | _ => none
  | .relookupLost r =>
    match s.phase r with
    | .claimed b =>
      if s.gone r then some (s.setPhase r (if b then .releasing .failed else .done .failed))
      else none
    | _ => none
  | .finish r res =>
    match s.phase r with
    | .running => some (s.setPhase r (.ran res))
    | _ => none
  | .store r =>
    match s.phase r with
    | .ran res =>
      match res with
      | some cap =>
        if storable c (req r) res then
          some { s.setPhase r (.releasing (.executed res)) with
            responses := Function.update s.responses (req r).userKey
              (some (insertRow (s.responses (req r).userKey)
                ⟨c.sum256 (req r).body,c.toJsonb cap.buf⟩)) }
        else some (s.setPhase r (.releasing (.executed res)))
      | none => some (s.setPhase r (.releasing (.executed res)))
    | _ => none
  | .release r =>
    match s.phase r with
    | .releasing out =>
      some { s.setPhase r (.done out) with
        claims := Function.update s.claims (req r).userKey none }
    | _ => none

/-- The request an event belongs to. -/
def Event.request : Event ρ Body → Option ρ
  | .tick => none
  | .hangUp r | .enter r | .enterLost r | .lookup r | .lookupLost r | .claim r
  | .claimUnsent r | .claimAnswer r | .claimAnswerLost r | .relookup r | .relookupLost r
  | .finish r _ | .store r | .release r => some r

/-- What one step of request `r` can do to its phase, to the stored row and to
the claim of its key. -/
inductive Move (c : Codec Body Hash Jsonb) (q : Request Body) (now : Nat) (gone : Bool) (r : ρ) :
    Event ρ Body → Phase Body → Option (StoredRow Hash Jsonb) → Option Nat →
    Phase Body → Option (StoredRow Hash Jsonb) → Option Nat → Prop
  | bypass {row cl} : q.keyed=false →
      Move c q now gone r (.enter r) .arrived row cl (.done .bypassed) row cl
  | tooLarge {row cl} : q.keyed=true → c.len q.body> maxBatchBytes →
      Move c q now gone r (.enter r) .arrived row cl (.done .tooLarge) row cl
  | enter {row cl} : q.keyed=true → c.len q.body ≤ maxBatchBytes →
      Move c q now gone r (.enter r) .arrived row cl .reading row cl
  | enterLost {row cl} : gone=true →
      Move c q now gone r (.enterLost r) .arrived row cl (.done .readBody) row cl
  | answered {row cl out} : replay c q row=some out →
      Move c q now gone r (.lookup r) .reading row cl (.done out) row cl
  | miss {cl} : Move c q now gone r (.lookup r) .reading none cl .missed none cl
  | lookupLost {row cl} : gone=true →
      Move c q now gone r (.lookupLost r) .reading row cl (.done .failed) row cl
  | take {row cl} : claimable now cl=true →
      Move c q now gone r (.claim r) .missed row cl (.claiming true) row (some now)
  | refuse {row cl} : claimable now cl=false →
      Move c q now gone r (.claim r) .missed row cl (.claiming false) row cl
  | claimUnsent {row cl} : gone=true →
      Move c q now gone r (.claimUnsent r) .missed row cl (.done .failed) row cl
  | claimAnswer {row cl b} :
      Move c q now gone r (.claimAnswer r) (.claiming b) row cl (.claimed b) row cl
  | claimAnswerLost {row cl b} : gone=true →
      Move c q now gone r (.claimAnswerLost r) (.claiming b) row cl (.done .failed) row cl
  | reanswered {row cl out} : replay c q row=some out →
      Move c q now gone r (.relookup r) (.claimed true) row cl (.releasing out) row cl
  | answeredLate {row cl out} : replay c q row=some out →
      Move c q now gone r (.relookup r) (.claimed false) row cl (.done out) row cl
  | start {cl} : Move c q now gone r (.relookup r) (.claimed true) none cl .running none cl
  | busy {cl} :
      Move c q now gone r (.relookup r) (.claimed false) none cl (.done .inProgress) none cl
  | relookupLost {row cl} : gone=true →
      Move c q now gone r (.relookupLost r) (.claimed true) row cl (.releasing .failed) row cl
  | relookupLostLate {row cl} : gone=true →
      Move c q now gone r (.relookupLost r) (.claimed false) row cl (.done .failed) row cl
  | finish {row cl res} :
      Move c q now gone r (.finish r res) .running row cl (.ran res) row cl
  | store {row cl cap} : storable c q (some cap)=true →
      Move c q now gone r (.store r) (.ran (some cap)) row cl
        (.releasing (.executed (some cap)))
        (some (insertRow row ⟨c.sum256 q.body,c.toJsonb cap.buf⟩)) cl
  | keep {row cl res} : storable c q res=false →
      Move c q now gone r (.store r) (.ran res) row cl (.releasing (.executed res)) row cl
  | release {row cl out} :
      Move c q now gone r (.release r) (.releasing out) row cl (.done out) row none

section Moves
variable {c : Codec Body Hash Jsonb} {req : ρ → Request Body} {s t : State ρ Body Hash Jsonb}
  {e : Event ρ Body} {r : ρ}

/-- Every accepted event of a request other than its hang-up is one of the moves. -/
theorem step_move (h : step c req s e=some t) (hr : e.request=some r)
    (hg : e≠.hangUp r) :
    ∃ p row cl, Move c (req r) s.now (s.gone r) r e (s.phase r)
        (s.responses (req r).userKey) (s.claims (req r).userKey) p row cl∧
      t=s.put r (req r).userKey p row cl := by
  have hput := s.setPhase_eq_put r (req r).userKey
  generalize hph : s.phase r=ph
  generalize hrow : s.responses (req r).userKey=row at *
  generalize hcl : s.claims (req r).userKey=cl at *
  cases e with
  | tick => simp [Event.request] at hr
  | hangUp r' =>
    obtain rfl : r'=r := by simpa [Event.request] using hr
    exact absurd rfl hg
  | enter r' =>
    obtain rfl : r'=r := by simpa [Event.request] using hr
    cases ph <;> simp only [step,hph,hput] at h <;> try cases h
    split at h <;> rename_i hk
    · cases h
      exact ⟨_,_,_,.bypass (by simpa using hk),rfl⟩
    · have hk' : (req r').keyed=true := by simpa using hk
      split at h <;> rename_i hl <;> cases h
      · exact ⟨_,_,_,.tooLarge hk' hl,rfl⟩
      · exact ⟨_,_,_,.enter hk' (by omega),rfl⟩
  | enterLost r' =>
    obtain rfl : r'=r := by simpa [Event.request] using hr
    cases ph <;> simp only [step,hph,hput] at h <;> try cases h
    split at h <;> cases h
    exact ⟨_,_,_,.enterLost ‹_›,rfl⟩
  | lookup r' =>
    obtain rfl : r'=r := by simpa [Event.request] using hr
    cases ph <;> simp only [step,hph,hrow,hput] at h <;> try cases h
    split at h <;> cases h
    · exact ⟨_,_,_,.answered ‹_›,rfl⟩
    · obtain rfl := replay_none.mp ‹_›
      exact ⟨_,_,_,.miss,rfl⟩
  | lookupLost r' =>
    obtain rfl : r'=r := by simpa [Event.request] using hr
    cases ph <;> simp only [step,hph,hput] at h <;> try cases h
    split at h <;> cases h
    exact ⟨_,_,_,.lookupLost ‹_›,rfl⟩
  | claim r' =>
    obtain rfl : r'=r := by simpa [Event.request] using hr
    cases ph <;> simp only [step,hph,hcl,hput] at h <;> try cases h
    split at h <;> rename_i hc <;> cases h
    · exact ⟨_,_,_,.take hc,by simp [State.put]⟩
    · exact ⟨_,_,_,.refuse (by simpa using hc),rfl⟩
  | claimUnsent r' =>
    obtain rfl : r'=r := by simpa [Event.request] using hr
    cases ph <;> simp only [step,hph,hput] at h <;> try cases h
    split at h <;> cases h
    exact ⟨_,_,_,.claimUnsent ‹_›,rfl⟩
  | claimAnswer r' =>
    obtain rfl : r'=r := by simpa [Event.request] using hr
    cases ph <;> simp only [step,hph,hput] at h <;> cases h
    exact ⟨_,_,_,.claimAnswer,rfl⟩
  | claimAnswerLost r' =>
    obtain rfl : r'=r := by simpa [Event.request] using hr
    cases ph <;> simp only [step,hph,hput] at h <;> try cases h
    split at h <;> cases h
    exact ⟨_,_,_,.claimAnswerLost ‹_›,rfl⟩
  | relookup r' =>
    obtain rfl : r'=r := by simpa [Event.request] using hr
    cases ph <;> simp only [step,hph,hrow,hput] at h <;> try cases h
    split at h <;> cases h
    · exact ⟨_,_,_,.reanswered ‹_›,rfl⟩
    · exact ⟨_,_,_,.answeredLate ‹_›,rfl⟩
    · obtain rfl := replay_none.mp ‹_›
      exact ⟨_,_,_,.start,rfl⟩
    · obtain rfl := replay_none.mp ‹_›
      exact ⟨_,_,_,.busy,rfl⟩
  | relookupLost r' =>
    obtain rfl : r'=r := by simpa [Event.request] using hr
    cases ph <;> simp only [step,hph,hput] at h <;> try cases h
    rename_i b
    split at h <;> cases h
    cases b with
    | true => exact ⟨_,_,_,.relookupLost ‹_›,rfl⟩
    | false => exact ⟨_,_,_,.relookupLostLate ‹_›,rfl⟩
  | finish r' res =>
    obtain rfl : r'=r := by simpa [Event.request] using hr
    cases ph <;> simp only [step,hph,hput] at h <;> cases h
    exact ⟨_,_,_,.finish,rfl⟩
  | store r' =>
    obtain rfl : r'=r := by simpa [Event.request] using hr
    cases ph <;> simp only [step,hph,hrow,hput] at h <;> try cases h
    split at h
    · split at h <;> rename_i hk <;> cases h
      · exact ⟨_,_,_,.store hk,by simp [State.put]⟩
      · exact ⟨_,_,_,.keep (by simpa using hk),rfl⟩
    · cases h
      exact ⟨_,_,_,.keep rfl,rfl⟩
  | release r' =>
    obtain rfl : r'=r := by simpa [Event.request] using hr
    cases ph <;> simp only [step,hph,hput] at h <;> cases h
    exact ⟨_,_,_,.release,by simp [State.put]⟩

/-- Conversely every move is an accepted step. -/
theorem move_step {p : Phase Body} {row : Option (StoredRow Hash Jsonb)} {cl : Option Nat}
    (h : Move c (req r) s.now (s.gone r) r e (s.phase r)
        (s.responses (req r).userKey) (s.claims (req r).userKey) p row cl) :
    step c req s e=some (s.put r (req r).userKey p row cl) := by
  have hput := s.setPhase_eq_put r (req r).userKey
  generalize hph : s.phase r=ph at h
  generalize hrow : s.responses (req r).userKey=old at h hput
  generalize hcl : s.claims (req r).userKey=ocl at h hput
  generalize hgo : s.gone r=g at h
  cases h
  case enter hk hl =>
    have hl' : ¬c.len (req r).body> maxBatchBytes := by omega
    simp [step,hph,hk,hl',hput]
  case keep res hk => cases res <;> simp_all [step]
  all_goals simp_all [step,replay,State.put]

end Moves

end Kitp.Idempotency
