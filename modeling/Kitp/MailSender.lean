import Kitp.Lib.Lease
import Kitp.Lib.Runs

/-! The senders of outgoing mail, on any number of replicas: what each lists, claims, hands
to the transport and records. Times are in seconds, on the database's clock. -/
namespace Kitp.MailSender
open Function

/-- `delivery_status`. -/
inductive Delivery where
  | pending
  | sent
  | bounced
  | failed
  deriving DecidableEq

/-- A row of `comm_send_attempt`. -/
structure Attempt where
  claimedUntil : Option Nat
  attempts : Nat
  nextAttemptAt : Option Nat

def sendClaim : Nat := 600
def sendTickBudget : Nat := 120
def sendTimeout : Nat := 75
def resultTimeout : Nat := 15
def maxSendAttempts : Nat := 6
def sendBackoff : List Nat := [60,300,900,3600,10800]

/-- How many messages one scan reads. -/
def scanLimit : Nat := 10

/-- What `Deliver` returns: an account with no way out, a message taken for some of its
recipients only, a 5xx answer, or anything else (a 4xx answer, a dropped connection, a
timeout). -/
inductive SendError where
  | noWayOut
  | refusedSome
  | bounce
  | other
  deriving DecidableEq

/-- `classifySendResult`. -/
def classifySendResult : Option SendError → Delivery
  | none => .sent
  | some .refusedSome => .sent
  | some .bounce => .bounced
  | some _ => .failed

/-- What `processOne` writes after a send. -/
inductive Result where
  | record (status : Delivery)
  | retryLater (wait : Nat)
  deriving DecidableEq

/-- A failure that may pass is tried again, up to `maxSendAttempts`. -/
def result (attempts : Nat) (err : Option SendError) : Result :=
  if err=some .noWayOut then .record (classifySendResult err)
  else if classifySendResult err=.failed∧attempts+1 < maxSendAttempts then
    .retryLater (sendBackoff.getD (min attempts (sendBackoff.length-1)) 0)
  else .record (classifySendResult err)

/-- A try that ended in a failure that may pass. -/
def passing (err : Option SendError) : Bool := err=some .other

/-- A message a sender has claimed. -/
structure Claim where
  /-- When the tick started that the claim is part of. -/
  tick : Nat
  reply : Int
  attempts : Nat
  heldUntil : Nat
  /-- The rest of the scan. -/
  queue : List Int

inductive Phase where
  | idle
  | working (tick : Nat) (queue : List Int)
  | chosen (tick : Nat) (reply : Int) (queue : List Int)
  | claimed (c : Claim)
  | sending (c : Claim)
  | answered (c : Claim) (err : Option SendError) (since : Nat)

structure State where
  now : Nat
  /-- The messages written in kitp, in the order of their ids. -/
  outbox : List Int
  status : Int → Option Delivery
  attempt : Int → Option Attempt
  phase : Nat → Phase
  /-- How many tries of each message ended in a recorded failure that may pass. -/
  passed : Int → Nat

def start : State where
  now := 0
  outbox := []
  status _ := none
  attempt _ := none
  phase _ := .idle
  passed _ := 0

variable (s : State)

/-- Neither claimed nor waiting out a retry at `t`. -/
def Attempt.free (row : Attempt) (t : Nat) : Bool :=
  row.claimedUntil.all (· ≤ t)&&row.nextAttemptAt.all (· ≤ t)

/-- `loadPending`; `eligible` is what it asks of the message's thread, task, area and
account. -/
def loadPending (eligible : Int → Bool) : List Int :=
  (s.outbox.filter fun r => s.status r=some .pending&&eligible r&&
    (s.attempt r).all (·.free s.now)).take scanLimit

/-- `claim`, in a transaction that started at `started`: the row it leaves. -/
def claim (started : Nat) (eligible : Bool) (r : Int) : Option Attempt :=
  if s.status r=some .pending∧eligible then
    match s.attempt r with
    | none => some ⟨some (started+sendClaim),0,none⟩
    | some row =>
      if row.free started then some { row with claimedUntil := some (started+sendClaim) }
      else none
  else none

def setPhase (a : Nat) (p : Phase) : State := { s with phase := update s.phase a p }

/-- `recordResult`: the status, and the attempt row goes. -/
def recordResult (r : Int) (status : Delivery) : State :=
  { s with status := update s.status r (some status), attempt := update s.attempt r none }

/-- `retryLater`: the claim is dropped and the try counted. -/
def retryLater (r : Int) (started wait : Nat) : State :=
  { s with attempt := update s.attempt r ((s.attempt r).map fun row =>
      { row with claimedUntil := none, attempts := row.attempts+1,
                 nextAttemptAt := some (started+wait) }) }

/-- A try counts once its failure is written. -/
def count (r : Int) (err : Option SendError) : State :=
  { s with passed := update s.passed r (s.passed r+if passing err then 1 else 0) }

/-- The write of a send's result, in a transaction that started at `started`. -/
def writeResult (c : Claim) (err : Option SendError) (started : Nat) : State :=
  match result c.attempts err with
  | .record status => count (recordResult s c.reply status) c.reply err
  | .retryLater wait => count (retryLater s c.reply started wait) c.reply err

inductive Event where
  | advance (t : Nat)
  | post (r : Int)
  | scan (a tick : Nat) (enabled : Bool) (eligible : Int → Bool)
  | next (a : Nat)
  | claim (a started : Nat) (eligible : Bool)
  | unfit (a : Nat)
  | handOver (a : Nat) (dryRun : Bool)
  | answer (a : Nat) (err : Option SendError)
  | result (a started : Nat)
  | fail (a : Nat)
  | crash (a : Nat)

/-- One step of the clock, of kitp or of a sender. A statement on the tick's context runs
within its budget, a result's write within `resultTimeout` of the answer; any of them may
fail, and a sender may stop anywhere. -/
def step (s : State) : Event → Option State
  | .advance t => if s.now ≤ t then some { s with now := t } else none
  | .post r =>
    if s.outbox.all (· < r)∧s.status r=none then
      some { s with outbox := s.outbox++[r], status := update s.status r (some .pending) }
    else none
  | .scan a tick enabled eligible =>
    match s.phase a with
    | .idle =>
      if tick ≤ s.now∧s.now ≤ tick+sendTickBudget then
        some (if enabled then setPhase s a (.working tick (loadPending s eligible)) else s)
      else none
    | _ => none
  | .next a =>
    match s.phase a with
    | .working _ [] => some (setPhase s a .idle)
    | .working tick (r::queue) =>
      -- a send starts only with its whole budget left in the tick
      if tick+sendTickBudget < s.now+sendTimeout then some (setPhase s a .idle)
      else some (setPhase s a (.chosen tick r queue))
    | _ => none
  | .claim a started eligible =>
    match s.phase a with
    | .chosen tick r queue =>
      if tick ≤ started∧started ≤ s.now∧s.now ≤ tick+sendTickBudget then
        match claim s started eligible r with
        | none => some (setPhase s a (.working tick queue))
        | some row => some (setPhase { s with attempt := update s.attempt r (some row) } a
            (.claimed ⟨tick,r,row.attempts,started+sendClaim,queue⟩))
      else none
    | _ => none
  | .unfit a =>
    match s.phase a with
    | .claimed c =>
      -- its attachments are too large or cannot be read
      if s.now ≤ c.tick+sendTickBudget then
        some (setPhase (recordResult s c.reply .failed) a (.working c.tick c.queue))
      else none
    | _ => none
  | .handOver a dryRun =>
    match s.phase a with
    | .claimed c =>
      if s.now ≤ c.tick+sendTickBudget then
        some (setPhase s a (if dryRun then .answered c none s.now else .sending c))
      else none
    | _ => none
  | .answer a err =>
    match s.phase a with
    | .sending c => some (setPhase s a (.answered c err s.now))
    | _ => none
  | .result a started =>
    match s.phase a with
    | .answered c err since =>
      if started ≤ s.now∧s.now ≤ since+resultTimeout then
        some (setPhase (writeResult s c err started) a (.working c.tick c.queue))
      else none
    | _ => none
  | .fail a =>
    match s.phase a with
    | .chosen tick _ queue => some (setPhase s a (.working tick queue))
    | .claimed c => some (setPhase s a (.working c.tick c.queue))
    | .answered c _ _ => some (setPhase s a (.working c.tick c.queue))
    | _ => none
  | .crash a => some (setPhase s a .idle)

end Kitp.MailSender
