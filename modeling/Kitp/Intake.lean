import Kitp.Lib.Claims
import Kitp.Lib.Runs

/-! Received mail on its ways in: the IMAP pollers with the mailboxes they read, the messages
that POST and SMTP push, the filing transactions and the sweep of the dedupe rows. Times are
in seconds, on one clock. -/
namespace Kitp.Intake
open Kitp.Claims Function

/-- A UID names a message while the mailbox's UIDVALIDITY stays. -/
structure Uid where
  validity : Nat
  uid : Nat
  deriving DecidableEq

/-- A message as it lies in a mailbox; `messageKey` is what kitp makes of it. -/
structure Mail where
  size : Nat
  readable : Bool
  messageKey : String

/-- `comm_inbound_seen`'s key: a project and a message key. -/
abbrev Key := Int×String

/-- The path a message is filed down; a failure before the thread match is on none. -/
inductive Path where
  | unknown
  | reply
  | notificationReply
  | task
  | thread
  | ignored
  | duplicate
  deriving DecidableEq

/-- A row of `comm_imap_file_failure`. -/
structure FileFailure where
  failures : Nat
  firstFailedAt : Nat
  lastFailedAt : Nat
  othersFiled : Bool
  path : Path

/-- A row of `comm_imap_inflight`. -/
structure Inflight where
  attempts : Nat
  startedAt : Nat

def imapMaxMessageBytes : Nat := 50*1048576
def imapPollBudget : Nat := 120
def imapFetchBatch : Nat := 50
def imapMaxAttempts : Nat := 2
def imapSetAsideFailures : Nat := 3
def fileFailureSetAsideAfter : Nat := 86400
def week : Nat := 7*86400

/-- A message that keeps failing while others file is due to be set aside. -/
def FileFailure.setAside (f : FileFailure) (now : Nat) : Bool :=
  f.othersFiled&&imapSetAsideFailures ≤ f.failures&&f.firstFailedAt+fileFailureSetAsideAfter ≤ now

/-- Why a message was marked seen. -/
inductive Verdict where
  | filed (key : Key)
  | tooLarge
  | unreadable (noBody : Bool)
  | interrupted (attempts : Nat)
  | unfileable
  | setAside (f : FileFailure) (since : Nat)

/-- A poll of an account's mailbox. -/
structure Poll where
  channel : Int
  project : Int
  validity : Nat
  started : Nat
  failed : Uid → Option FileFailure
  queue : List (Uid×Nat)
  filedPaths : List Path

/-- The message a poll is at: what was left of its budget, and whether it is in flight. -/
structure Item where
  poll : Poll
  uid : Uid
  left : Nat
  tracked : Bool

inductive Job where
  | imap (item : Item) (mail : Mail)
  | push (project : Int) (mail : Mail)

def Job.key : Job → Key
  | .imap item mail => (item.poll.project,mail.messageKey)
  | .push project mail => (project,mail.messageKey)

/-- What `fileFetched` returns. -/
inductive Result where
  | seen (v : Verdict) (path : Path)
  | failed (stopping : Bool) (path : Path)

inductive Phase where
  | idle
  | polling (p : Poll)
  | reading (item : Item)
  | judged (item : Item) (v : Verdict)
  | ready (job : Job)
  | opened (job : Job) (started : Nat)
  | conflict (job : Job) (started : Nat)
  | holding (job : Job) (h : Hold Nat)
  | returned (item : Item) (r : Result)
  | pushed (key : Key) (accepted : Bool)

structure State where
  now : Nat
  table : Table Key Nat
  /-- What each mailbox ever held. -/
  mailbox : Int → Uid → Option Mail
  /-- The messages kitp has marked seen, and why. -/
  flagged : Int → Uid → Option Verdict
  inflight : Int → Uid → Option Inflight
  failure : Int → Uid → Option FileFailure
  phase : Nat → Phase
  /-- The pushed messages whose sender was told they are filed. -/
  accepted : List Key

def start : State where
  now := 0
  table := .empty
  mailbox _ _ := none
  flagged _ _ := none
  inflight _ _ := none
  failure _ _ := none
  phase _ := .idle
  accepted := []

variable (s : State)

def setPhase (a : Nat) (p : Phase) : State := { s with phase := update s.phase a p }

def setInflight (ch : Int) (u : Uid) (row : Option Inflight) : State :=
  { s with inflight := update s.inflight ch (update (s.inflight ch) u row) }

def setFailure (ch : Int) (u : Uid) (row : Option FileFailure) : State :=
  { s with failure := update s.failure ch (update (s.failure ch) u row) }

/-- `pruneInflight`: the rows of another UIDVALIDITY go, and those untouched for a week. -/
def pruneInflight (ch : Int) (validity : Nat) : State :=
  { s with
    inflight := update s.inflight ch fun u =>
      (s.inflight ch u).filter fun row => u.validity=validity&&s.now ≤ row.startedAt+week
    failure := update s.failure ch fun u =>
      (s.failure ch u).filter fun row => u.validity=validity&&s.now ≤ row.lastFailedAt+week }

/-- `beginInflight`: how many polls have started on the message without finishing. -/
def beginInflight (ch : Int) (u : Uid) : State :=
  setInflight s ch u (some ⟨(s.inflight ch u).elim 1 (·.attempts+1),s.now⟩)

/-- `noteFileFailure`. -/
def noteFileFailure (ch : Int) (u : Uid) (path : Path) : State :=
  setFailure s ch u (some (match s.failure ch u with
    | none => ⟨1,s.now,s.now,false,path⟩
    | some f => ⟨f.failures+1,f.firstFailedAt,s.now,f.othersFiled&&f.path=path,path⟩))

/-- `noteOthersFiled`. -/
def noteOthersFiled (ch : Int) (validity : Nat) (paths : List Path) : State :=
  { s with failure := update s.failure ch fun u => (s.failure ch u).map fun f =>
      if u.validity=validity∧(f.path=.unknown∨f.path∈paths) then { f with othersFiled := true }
      else f }

/-- A mark that may have reached the server or not. -/
def markSeen (ch : Int) (u : Uid) (v : Verdict) (marked : Bool) : State :=
  if marked then { s with flagged := update s.flagged ch (update (s.flagged ch) u (some v)) }
  else s

/-- The messages still to read: the rest of the list, those that failed before last. -/
def sorted (failed : Uid → Option FileFailure) (uids : List (Uid×Nat)) : List (Uid×Nat) :=
  (uids.filter fun u => (failed u.1).isNone)++uids.filter fun u => (failed u.1).isSome

/-- A poll holds what `ListUnseen` answers: unseen messages, with their sizes or 0. -/
def listed (ch : Int) (uids : List (Uid×Nat)) : Bool :=
  uids.length ≤ imapFetchBatch&&uids.all fun u =>
    (s.flagged ch u.1).isNone&&(s.mailbox ch u.1).any fun mail => u.2=mail.size||u.2=0

def budgetLeft (p : Poll) : Nat := p.started+imapPollBudget-s.now

/-- The next message of a poll, unless its last try waits for more time. -/
def nextMessage (p : Poll) (begun : Bool) (u : Uid) (size : Nat) (rest : List (Uid×Nat)) :
    State×Phase :=
  let p' := { p with queue := rest }
  let left := budgetLeft s p
  if (p.failed u).any (·.setAside p.started)∧left < imapPollBudget/2 then (s,.polling p')
  else if imapMaxMessageBytes < size then (s,.judged ⟨p',u,left,false⟩ .tooLarge)
  else if !begun then (s,.idle)
  else
    let s' := beginInflight s p.channel u
    let attempts := (s'.inflight p.channel u).elim 0 (·.attempts)
    if imapMaxAttempts<attempts then (s',.judged ⟨p',u,left,false⟩ (.interrupted attempts))
    else (s',.reading ⟨p',u,left,true⟩)

/-- How a fetch ends. -/
inductive Fetched where
  | refused
  | failed
  | noBody
  | body
  deriving DecidableEq

def endInflight (item : Item) (ended : Bool) : State :=
  if ended then setInflight s item.poll.channel item.uid none else s

def fetched (item : Item) (mail : Mail) (ended : Bool) : Fetched → State×Phase
  | .refused => (s,.polling item.poll)
  | .failed => (endInflight s item ended,.idle)
  | .noBody => (s,.judged item (.unreadable true))
  | .body =>
    if mail.readable then (s,.ready (.imap item mail)) else (s,.judged item (.unreadable false))

/-- Where a job goes once its filing has ended, well or not. -/
def Job.ended : Job → Result → Phase
  | .imap item _,r => .returned item r
  | .push project mail,.seen v _ =>
    .pushed (project,mail.messageKey) (match v with | .filed _ => true | _ => false)
  | .push _ _,.failed _ _ => .idle

/-- What the poll does with a message's result. -/
def handleResult (item : Item) (marked cleared : Bool) : Result → State×Poll
  | .seen v path =>
    let ch := item.poll.channel
    let s := markSeen s ch item.uid v marked
    let s := if (item.poll.failed item.uid).isSome∧cleared then setFailure s ch item.uid none else s
    let paths := match v with
      | .filed _ => if path=.duplicate then [] else [path]
      | _ => []
    (s,{ item.poll with filedPaths := paths++item.poll.filedPaths })
  | .failed stopping path =>
    let ch := item.poll.channel
    if stopping∨budgetLeft s item.poll=0∧item.left < imapPollBudget/2 then (s,item.poll)
    else match (item.poll.failed item.uid).filter (·.setAside item.poll.started) with
      | some f =>
        let s' := markSeen s ch item.uid (.setAside f item.poll.started) marked
        (if marked∧cleared then setFailure s' ch item.uid none else s',item.poll)
      | none => (if cleared then noteFileFailure s ch item.uid path else s,item.poll)

def isSeen : Result → Bool
  | .seen _ _ => true
  | .failed _ _ => false

inductive Event where
  | advance (t : Nat)
  | arrive (ch : Int) (u : Uid) (mail : Mail)
  | sweep (cutoff : Nat)
  | poll (a : Nat) (ch project : Int) (validity : Nat) (uids : Option (List (Uid×Nat)))
  | next (a : Nat) (begun : Bool)
  | fetch (a : Nat) (how : Fetched) (ended : Bool)
  | log (a : Nat) (logged : Bool)
  | push (a : Nat) (project : Int) (mail : Mail)
  | begin (a : Nat)
  | claim (a : Nat)
  | bump (a : Nat)
  | commit (a : Nat) (told stopping : Bool) (path : Path)
  | fail (a : Nat) (permanent stopping : Bool) (path : Path)
  | handle (a : Nat) (marked cleared ended : Bool)
  | finish (a : Nat) (noted : Bool)
  | answer (a : Nat)
  | crash (a : Nat)

/-- The transaction a phase has open holds a row. -/
def held : Phase → Option Key
  | .holding job _ => some job.key
  | _ => none

/-- A transaction that ends without a commit. -/
def rollback (a : Nat) : State :=
  match held (s.phase a) with
  | some k => { s with table := s.table.abort k }
  | none => s

/-- One step of the clock, of a mailbox, of a poller, of a pushed message or of the sweep.
Anything may fail where it says so, and any of them may stop anywhere. -/
def step (keep : Nat) (s : State) : Event → Option State
  | .advance t => if s.now ≤ t then some { s with now := t } else none
  | .arrive ch u mail =>
    match s.mailbox ch u with
    | some _ => none
    | none => some { s with mailbox := update s.mailbox ch (update (s.mailbox ch) u (some mail)) }
  | .sweep cutoff =>
    if cutoff+keep ≤ s.now then some { s with table := s.table.sweep cutoff } else none
  | .poll a ch project validity uids =>
    match s.phase a with
    | .idle =>
      let pruned := pruneInflight s ch validity
      match uids with
      -- the list fails
      | none => some pruned
      | some uids =>
        if listed s ch uids∧uids.all (·.1.validity=validity) then
          some (setPhase pruned a (.polling
            ⟨ch,project,validity,s.now,pruned.failure ch,sorted (pruned.failure ch) uids,[]⟩))
        else none
    | _ => none
  | .next a begun =>
    match s.phase a with
    | .polling p =>
      match p.queue with
      | [] => none
      | (u,size)::rest =>
        let (s,phase) := nextMessage s p begun u size rest
        some (setPhase s a phase)
    | _ => none
  | .fetch a how ended =>
    match s.phase a with
    | .reading item => (s.mailbox item.poll.channel item.uid).map fun mail =>
        let (s,phase) := fetched s item mail ended how
        setPhase s a phase
    | _ => none
  | .log a logged =>
    match s.phase a with
    | .judged item v => some (setPhase s a (.returned item
        (if logged then .seen v .unknown else .failed false .unknown)))
    | _ => none
  | .push a project mail =>
    match s.phase a with
    | .idle => some (setPhase s a (if mail.readable then .ready (.push project mail) else .idle))
    | _ => none
  | .begin a =>
    match s.phase a with
    | .ready job => some (setPhase s a (.opened job s.now))
    | _ => none
  | .claim a =>
    match s.phase a with
    | .opened job started =>
      match s.table.holder job.key,s.table.row job.key with
      -- an uncommitted row is waited for
      | some _,_ => none
      | none,some _ => some (setPhase s a (.conflict job started))
      | none,none =>
        let h : Hold Nat := ⟨a,true,started,s.now⟩
        some (setPhase { s with table := s.table.take job.key h } a (.holding job h))
    | _ => none
  | .bump a =>
    match s.phase a with
    | .conflict job started =>
      match s.table.holder job.key,s.table.row job.key with
      | some _,_ => none
      | none,some _ =>
        let h : Hold Nat := ⟨a,false,started,s.now⟩
        some (setPhase { s with table := s.table.take job.key h } a (.holding job h))
      -- the row was swept in between
      | none,none => some (setPhase s a (job.ended (.failed false .unknown)))
    | _ => none
  | .commit a told stopping path =>
    match s.phase a with
    | .holding job h =>
      some (setPhase { s with table := s.table.commit job.key h } a (job.ended
        (if told then .seen (.filed job.key) (if h.fresh then path else .duplicate)
          else .failed stopping path)))
    | _ => none
  | .fail a permanent stopping path =>
    match s.phase a with
    | .ready job | .opened job _ | .conflict job _ | .holding job _ =>
      some (setPhase (rollback s a) a (job.ended
        (if permanent then .seen .unfileable path else .failed stopping path)))
    | _ => none
  | .handle a marked cleared ended =>
    match s.phase a with
    | .returned item r =>
      let (s,p) := handleResult s item marked cleared r
      let s := if item.tracked||isSeen r then endInflight s item ended else s
      some (setPhase s a (.polling p))
    | _ => none
  | .finish a noted =>
    match s.phase a with
    | .polling p =>
      if p.queue=[]∨budgetLeft s p=0 then
        let s := if p.filedPaths≠[]∧noted then noteOthersFiled s p.channel p.validity p.filedPaths
          else s
        some (setPhase s a .idle)
      else none
    | _ => none
  | .answer a =>
    match s.phase a with
    | .pushed key accepted =>
      let s := setPhase s a .idle
      some (if accepted then { s with accepted := key::s.accepted } else s)
    | _ => none
  | .crash a => some (setPhase (rollback s a) a .idle)

end Kitp.Intake
