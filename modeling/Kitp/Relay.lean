import Kitp.Accounts
import Kitp.Lib.Runs

/-! Sending an emailed reply on to the rest of its thread: the mail kitp receives, the lists
of people it keeps for a thread, and the copy `relayReplyTx` queues. -/
namespace Kitp.Relay
open Kitp.Accounts

/-- What kitp takes from Go, from the database and from the address parser of `net/mail`. -/
structure Library where
  toLower : String → String
  trimSpace : String → String
  equalFold : String → String → Bool
  nfc : String → String
  /-- `lower` and `btrim` of the database. -/
  lower : String → String
  btrim : String → String
  /-- `AddressParser.ParseList` and `Parse`: the bare addresses. -/
  parseList : String → Option (List String)
  parse : String → Option String
  parseList_of_parse : ∀ {s a}, parse s=some a → parseList s=some [a]
  /-- Small letters and dashes stay as they are. -/
  plainText : ∀ s : String, (∀ c∈s.toList, c.isLower∨c = '-') → trimSpace s=s∧toLower s=s

structure Person where
  id : Int
  deleted : Bool
  email : Option String

structure Login extends Account where
  email : Option String
  deleted : Bool

structure PersonEmail where
  personCardId : Int
  email : String
  verified : Bool

/-- A mail account; `canSend` is `channel_can_send`. -/
structure Channel where
  id : Int
  deleted : Bool
  fromAddress : String
  relay : Bool
  canSend : Bool

/-- What the threads share. -/
structure World where
  people : List Person
  logins : List Login
  links : List AccountPerson
  personEmails : List PersonEmail
  channels : List Channel
  routeDomain : String
  nextCardId : Int

structure Copy where
  relayOf : Int
  createdAt : Nat
  account : Int
  fromAddress : String
  addresses : List String

structure Thread where
  recipients : List Int
  confirmed : List Int
  removed : List Int
  channelRef : Option Int
  copies : List Copy

/-- The header fields of a message, under their canonical names, in order. -/
abbrev Header := List (String×String)

structure InboundMessage where
  fromHdr : String
  toHdr : String
  ccHdr : String
  inReplyTo : String
  references : String
  notificationHdr : String
  autoKind : String

def maxCommRecipients : Nat := 100
def maxSyncPeople : Nat := 50
def maxRelayRecipients : Nat := 20
def maxRelaysPerHour : Nat := 20

section addresses

/-- `unicode.IsSpace`. -/
def isSpace (c : Char) : Bool :=
  let n := c.toNat
  (9 ≤ n&&n ≤ 13)||n=32||n=0x85||n=0xA0||n=0x1680||(0x2000 ≤ n&&n ≤ 0x200A)||n=0x2028||
    n=0x2029||n=0x202F||n=0x205F||n=0x3000

/-- `unicode.IsControl`. -/
def isControl (c : Char) : Bool := c.toNat<32||(127 ≤ c.toNat&&c.toNat<160)

/-- What only a quoted local part or a domain literal can hold. -/
def oddChars : List Char :=
  [ ',', ';', ':', Char.ofNat 34, '<', '>', '[',']', '(', ')', Char.ofNat 92]

def plainAddress (addr : String) : Bool :=
  let localPart := addr.toList.takeWhile (·≠ '@')
  let domain := addr.toList.drop (localPart.length+1)
  localPart≠[]&&domain≠[]&& '@'∉domain&&
    addr.toList.all fun c => !isSpace c&&!isControl c&&c∉oddChars

variable (lib : Library)

def parseAddressList (s : String) : Option (List String) :=
  (lib.parseList s).filter (·.all plainAddress)

def parseAddress (s : String) : Option String := (lib.parse s).filter plainAddress

def peopleIn (s : String) : List String := ((lib.parseList s).getD []).filter plainAddress

def addressesIn (headers : List String) : List String :=
  (headers.flatMap fun raw =>
    if lib.trimSpace raw="" then []
    else (peopleIn lib (lib.trimSpace raw)).map fun a => lib.toLower (lib.trimSpace a)).filter (·≠"")

/-- The one address a From header names, or "". -/
def senderOf (fromHdr : String) : String :=
  if lib.trimSpace fromHdr="" then ""
  else match parseAddressList lib (lib.trimSpace fromHdr) with
    | some [a] => lib.toLower (lib.trimSpace a)
    | some _ => ""
    | none => (parseAddress lib (lib.trimSpace fromHdr)).elim "" fun a =>
        lib.toLower (lib.trimSpace a)

def trimDot (s : List Char) : List Char := if s.getLast?=some '.' then s.dropLast else s

/-- One of kitp's own SMTP route addresses. -/
def isRouteAddress (routeDomain addr : String) : Bool :=
  routeDomain≠""&& '@'∈addr.toList&&lib.equalFold
    (String.ofList (trimDot (addr.toList.reverse.takeWhile (·≠ '@')).reverse)) routeDomain

/-- `textnorm.Email`. -/
def normalEmail (s : String) : String :=
  if lib.trimSpace s="" then "" else lib.toLower (lib.nfc (lib.trimSpace s))

end addresses

section messages

/-- `Header.Get`: the first field of the name. -/
def get (h : Header) (key : String) : String := ((h.find? (·.1=key)).map (·.2)).getD ""

/-- `textnorm.Storable`. -/
def storable (s : String) : String := String.ofList (s.toList.filter (·≠Char.ofNat 0))

variable (lib : Library)

def automaticKind (h : Header) : String :=
  let field key := lib.trimSpace (get h key)
  let auto := lib.toLower (field "Auto-Submitted")
  if auto≠""∧auto≠"no" then "auto_submitted"
  else if lib.toLower (field "Precedence")∈["bulk","junk","list","auto_reply"] then "precedence"
  else if field "X-Autoreply"≠""∨field "X-Autorespond"≠"" then "auto_reply"
  else if field "List-Id"≠"" then "mailing_list"
  else if field "X-Loop"≠"" then "loop"
  else if "multipart/report".toList.isPrefixOf (lib.toLower (field "Content-Type")).toList then
    "report"
  else if (h.find? (·.1="Return-Path")).any (lib.trimSpace ·.2="<>") then "bounce"
  else if (parseAddress lib (get h "From")).any fun a =>
      (lib.toLower a).toList.takeWhile (·≠ '@')∈["mailer-daemon".toList,"postmaster".toList] then
    "bounce"
  else ""

/-- What `ParseInboundMessage` keeps of the header. -/
def parseInboundMessage (h : Header) : InboundMessage where
  fromHdr := storable (lib.trimSpace (get h "From"))
  toHdr := storable (lib.trimSpace (get h "To"))
  ccHdr := storable (lib.trimSpace (get h "Cc"))
  inReplyTo := storable (lib.trimSpace (get h "In-Reply-To"))
  references := storable (lib.trimSpace (get h "References"))
  notificationHdr := storable (lib.trimSpace (get h "X-Kitp-Notification"))
  autoKind := automaticKind lib h

def blank (c : Char) : Bool := c∈[' ', '\t', '\n', '\r', Char.ofNat 12]

/-- A notification's Message-ID starts here: `<kitp-notify.[^>@\s]*@[^>\s]*>`. -/
def notificationRefAt (s : List Char) : Bool :=
  "<kitp-notify.".toList.isPrefixOf s&&
    match (s.drop 13).dropWhile fun c => c≠ '>'&&c≠ '@'&&!blank c with
    | '@'::domain => (domain.dropWhile fun c => c≠ '>'&&!blank c).head?=some '>'
    | _ => false

def notificationRef (s : String) : Bool := s.toList.tails.any notificationRefAt

def isNotificationReply (m : InboundMessage) : Bool :=
  lib.trimSpace m.notificationHdr≠""||notificationRef m.inReplyTo||notificationRef m.references

end messages

section lists

/-- `comm_people_edit`: the old ids and the added ones, each once. -/
def commPeopleEdit (old add drop : List Int) : List Int :=
  if add=[]∧drop=[] then old else (old++add).eraseDups.filter (·∉drop)

variable (t : Thread)

def commConfirm (people : List Int) : Thread :=
  { t with confirmed := commPeopleEdit t.confirmed people []
           removed := commPeopleEdit t.removed [] people }

def commRemove (people : List Int) : Thread :=
  { t with confirmed := commPeopleEdit t.confirmed [] people
           removed := commPeopleEdit t.removed people [] }

/-- The new people at the end, as far as they fit; who was taken off stays off. -/
def mergeInto (removed : List Int) : List Int → List Int → List Int
  | merged,[] => merged
  | merged,id::add =>
    if id∈merged∨id∈removed∨maxCommRecipients ≤ merged.length then mergeInto removed merged add
    else mergeInto removed (merged++[id]) add

def mergeCommRecipients (add : List Int) : Thread :=
  { t with recipients := mergeInto t.removed t.recipients add }

end lists

section world

variable (lib : Library) (w : World)

def World.person (id : Int) : Option Person := w.people.find? (·.id=id)

def World.channel (id : Int) : Option Channel := w.channels.find? (·.id=id)

/-- A live person's email. -/
def liveEmail (id : Int) : Option String := ((w.person id).filter (!·.deleted)).bind (·.email)

def linked (person : Int) : Bool := w.links.any (·.personCardId=person)

/-- An address as the thread's lists give it. -/
def storedAddress (email : String) : String := lib.lower (lib.btrim email)

/-- A login's email, or the primary or a verified address of a person linked to a login. -/
def senderIsUser (addr : String) : Bool :=
  (w.logins.any fun u => !u.deleted&&u.email.any (lib.lower ·=lib.toLower addr))||
  (w.links.any fun l => ((w.person l.personCardId).bind (·.email)).any
    (storedAddress lib ·=lib.toLower addr))||
  w.personEmails.any fun pe => pe.verified&&pe.email=lib.toLower addr&&linked w pe.personCardId

/-- The person an address is filed under: by a verified address first, for the sender. -/
def existingPerson (trimmed : String) (byVerified : Bool) : Option Int :=
  let live id := (w.person id).any (!·.deleted)
  let verified := (w.personEmails.filter fun pe =>
    byVerified&&pe.verified&&pe.email=lib.lower trimmed&&live pe.personCardId).map (·.personCardId)
  let primary := (w.people.filter fun p =>
    !p.deleted&&p.email.any (lib.lower ·=lib.lower trimmed)).map (·.id)
  verified.min?.or primary.min?

def upsertPersonByEmail (email : String) (byVerified : Bool) : Option (World×Int) :=
  let trimmed := normalEmail lib email
  if trimmed=""∨!plainAddress trimmed then none
  else match existingPerson lib w trimmed byVerified with
    | some id => some (w,id)
    | none => some ({ w with people := w.people++[⟨w.nextCardId,false,some trimmed⟩]
                             nextCardId := w.nextCardId+1 },w.nextCardId)

/-- The people of several addresses; `sender` may be found by a verified one. -/
def upsertPeople (sender : String) : World → List String → Option (World×List Int)
  | w,[] => some (w,[])
  | w,a::rest =>
    (upsertPersonByEmail lib w a (sender≠""&&lib.equalFold a sender)).bind fun (w',id) =>
      (upsertPeople sender w' rest).map fun (w'',ids) => (w'',id::ids)

/-- One address of a message joins those found, the account's own and routes apart. -/
def addOne (own : String) (found : List String) (a : String) : List String :=
  let email := lib.trimSpace a
  let key := lib.toLower email
  if email=""∨own≠""∧key=own∨isRouteAddress lib w.routeDomain key∨key∈found.map lib.toLower∨
      maxSyncPeople ≤ found.length then found
  else found++[email]

def foundIn (receivedOn : Int) (m : InboundMessage) : List String :=
  let own := lib.toLower (lib.trimSpace (((w.channel receivedOn).map (·.fromAddress)).getD ""))
  ([m.fromHdr,m.toHdr,m.ccHdr].flatMap fun raw =>
    if lib.trimSpace raw="" then [] else peopleIn lib (lib.trimSpace raw)).foldl (addOne lib w own) []

/-- `syncCommRecipientsFromInbound`; one address that is refused undoes it all. -/
def syncCommRecipientsFromInbound (t : Thread) (receivedOn : Int) (m : InboundMessage) :
    World×Thread :=
  let found := foundIn lib w receivedOn m
  if found=[]∨maxCommRecipients ≤ t.recipients.length then (w,t)
  else match upsertPeople lib (senderOf lib m.fromHdr) w found with
    | none => (w,t)
    | some (w',ids) => (w',mergeCommRecipients t ids)

def threadRecipientAddresses (t : Thread) : List String :=
  ((t.recipients.filterMap fun id => (w.person id).bind (·.email)).map
    (storedAddress lib)).filter (·≠"")

def threadConfirmed (t : Thread) : List String :=
  ((t.confirmed.filterMap (liveEmail w)).map (storedAddress lib)).filter (·≠"")

def confirmStarter (t : Thread) (fromHdr : String) : Thread :=
  let addr := senderOf lib fromHdr
  let people := t.recipients.filter fun id => (liveEmail w id).any (storedAddress lib ·=addr)
  if addr=""∨people=[] then t else commConfirm t people

/-- `comm_author_join`: an agent writes for its owner, who needs an email. -/
def authorPerson (author : Int) : Option Int :=
  (w.logins.find? (·.id=author)).bind fun u =>
    (w.links.filter fun l => personOf u.toAccount=some l.userAccountId∧
      (liveEmail w l.personCardId).any (·≠"")).head?.map (·.personCardId)

def commAuthorJoin (t : Thread) (author : Int) : Thread :=
  match authorPerson w author with
  | none => t
  | some p =>
    if p∈t.recipients∨maxCommRecipients ≤ t.recipients.length then t
    else { t with recipients := t.recipients++[p] }

end world

section relay

variable (lib : Library) (w : World) (t : Thread)

inductive Relayed where
  | off
  | skipped (reason : String)
  | nobody
  | queued (c : Copy)

/-- The thread's own mail account, or the one the reply came in on. -/
def threadAccount (receivedOn : Int) : Option Channel :=
  ((t.channelRef.bind w.channel).filter (!·.deleted)).or (w.channel receivedOn)

/-- The copies of the last hour. -/
def recentRelays (now : Nat) : Nat := t.copies.countP fun c => now<c.createdAt+3600

/-- The addresses not seen and not reached, each once. -/
def collect (reached : List String) : List String → List String → List String
  | _,[] => []
  | seen,a::rest =>
    let key := lib.toLower a
    if key=""∨!plainAddress key∨key∈reached∨key∈seen then collect reached seen rest
    else a::collect reached (key::seen) rest

def relayRecipients (reached : List String) : List String :=
  collect lib reached [] ((t.recipients.filter (!linked w ·)).filterMap
    fun id => (liveEmail w id).map lib.btrim)

/-- Why a message on a relaying account's thread is not sent on. -/
def skip (ch : Channel) (before : List String) (m : InboundMessage) (now : Nat) : Option String :=
  let accountAddr := lib.btrim ch.fromAddress
  let sender := senderOf lib m.fromHdr
  if m.autoKind≠"" then some m.autoKind
  else if isNotificationReply lib m then some "notification_reply"
  else if accountAddr="" then some "no_from_address"
  else if !ch.canSend then some "cannot_send"
  else if sender="" then some "no_sender"
  else if sender=lib.toLower accountAddr then some "own_address"
  else if senderIsUser lib w sender then some "sender_is_user"
  else if maxRelaysPerHour ≤ recentRelays t now then some "rate_limited"
  else if sender∉before then some "sender_not_on_thread"
  else if sender∉threadConfirmed lib w t then some "sender_unconfirmed"
  else none

/-- Everyone the message already reached, and the account itself. -/
def reachedBy (ch : Channel) (m : InboundMessage) : List String :=
  lib.toLower (lib.btrim ch.fromAddress)::addressesIn lib [m.fromHdr,m.toHdr,m.ccHdr]

/-- Who takes part: on the thread before the message, confirmed, and no route of kitp's. -/
def takesPart (before : List String) (a : String) : Bool :=
  lib.toLower a∈before&&lib.toLower a∈threadConfirmed lib w t&&!isRouteAddress lib w.routeDomain a

def relayReplyTx (before : List String) (m : InboundMessage) (receivedOn replyId : Int)
    (now : Nat) : Relayed :=
  match (threadAccount w t receivedOn).filter (·.relay) with
  | none => .off
  | some ch =>
    match skip lib w t ch before m now with
    | some reason => .skipped reason
    | none =>
      let addresses := (relayRecipients lib w t (reachedBy lib ch m)).filter
        (takesPart lib w t before)
      if addresses=[] then .nobody
      else if maxRelayRecipients<addresses.length then .skipped "too_many_recipients"
      else .queued ⟨replyId,now,ch.id,lib.btrim ch.fromAddress,addresses⟩

/-- The fields the sender gives a copy beside those of any message of kitp's. -/
def copyMarks (c : Copy) : Header :=
  ("Auto-Submitted","auto-forwarded")::
    (parseAddress lib c.fromAddress).toList.map fun a => ("X-Loop",a)

end relay

/-- One thread, from before it starts. -/
structure State where
  world : World
  thread : Option Thread
  /-- Whom a person in kitp took off the thread and has not put back. -/
  off : Int → Bool

inductive Event where
  | world (w : World)
  | create (ids : List Int) (referable : Int → Bool) (channel : Int) (author : Option Int)
  | start (h : Header) (receivedOn : Int)
  | receive (h : Header) (receivedOn : Int) (now : Nat)
  | setRecipients (ids : List Int) (referable : Int → Bool)
  | authorJoin (author : Int)
  | setChannel (channelRef : Option Int)

section steps

variable (lib : Library) (w : World) (t : Thread)

def livePerson (id : Int) : Bool := (w.person id).any (!·.deleted)

/-- `comm.create`, up to the thread it starts. -/
def commCreate (ids : List Int) (referable : Int → Bool) (channel : Int) (author : Option Int) :
    Option Thread :=
  let ids := ids.eraseDups
  let blank : Thread := ⟨ids,[],[],some channel,[]⟩
  if (author.isSome∧ids=[])∨maxCommRecipients < ids.length∨¬ids.all (livePerson w)∨
      ¬ids.all referable then none
  else
    let t := if ids=[] then blank else commConfirm blank ids
    some (author.elim t (commAuthorJoin w t))

/-- `createComm`: a thread started by mail. -/
def createComm (receivedOn : Int) (m : InboundMessage) : World×Thread :=
  let (w,t) := syncCommRecipientsFromInbound lib { w with nextCardId := w.nextCardId+2 }
    ⟨[],[],[],some receivedOn,[]⟩ receivedOn m
  (w,confirmStarter lib w t m.fromHdr)

/-- `appendReceivedReply`: a message on the thread, and the people it names. -/
def appendReceivedReply (receivedOn : Int) (m : InboundMessage) : World×Thread :=
  syncCommRecipientsFromInbound lib { w with nextCardId := w.nextCardId+1 } t receivedOn m

/-- What becomes of a message on the thread, once it is filed. -/
def relayReply (receivedOn : Int) (m : InboundMessage) (now : Nat) : Relayed :=
  let filed := appendReceivedReply lib w t receivedOn m
  relayReplyTx lib filed.1 filed.2 (threadRecipientAddresses lib w t) m receivedOn w.nextCardId now

def receiveReply (receivedOn : Int) (m : InboundMessage) (now : Nat) : World×Thread :=
  let (w',t') := appendReceivedReply lib w t receivedOn m
  match relayReply lib w t receivedOn m now with
  | .queued c => ({ w' with nextCardId := w'.nextCardId+1 },{ t' with copies := t'.copies++[c] })
  | _ => (w',t')

/-- `comm.set_recipients`. -/
def commSetRecipients (ids : List Int) (referable : Int → Bool) : Option Thread :=
  let ids := ids.eraseDups
  let added := ids.filter (·∉t.recipients)
  let dropped := t.recipients.filter (·∉ids)
  if (maxCommRecipients < ids.length∧added≠[])∨¬ids.all (livePerson w)∨¬added.all referable then none
  else
    let t := if added=[] then t else commConfirm t added
    let t := if dropped=[] then t else commRemove t dropped
    some { t with recipients := ids }

/-- Taking off and putting back, as the people in kitp see it. -/
def offAfter (off : Int → Bool) (ids : List Int) (p : Int) : Bool :=
  if p∈ids then (if p∈t.recipients then off p else false) else p∈t.recipients||off p

end steps

def step (lib : Library) (s : State) : Event → Option State
  | .world w => some { s with world := w }
  | .create ids referable channel author =>
    match s.thread with
    | some _ => none
    | none => (commCreate s.world ids referable channel author).map fun t =>
        ⟨s.world,some t,fun _ => false⟩
  | .start h receivedOn =>
    match s.thread with
    | some _ => none
    | none =>
      let (w,t) := createComm lib s.world receivedOn (parseInboundMessage lib h)
      some ⟨w,some t,fun _ => false⟩
  | .receive h receivedOn now => s.thread.map fun t =>
      let (w,t) := receiveReply lib s.world t receivedOn (parseInboundMessage lib h) now
      ⟨w,some t,s.off⟩
  | .setRecipients ids referable => s.thread.bind fun t =>
      (commSetRecipients s.world t ids referable).map fun t' =>
        ⟨s.world,some t',offAfter t s.off ids⟩
  | .authorJoin author => s.thread.map fun t =>
      { s with thread := some (commAuthorJoin s.world t author) }
  | .setChannel channelRef => s.thread.map fun t =>
      { s with thread := some { t with channelRef } }

end Kitp.Relay
