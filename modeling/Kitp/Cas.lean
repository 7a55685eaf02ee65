import Kitp.Accounts
import Kitp.FlowGate
import Kitp.Lib.Runs
import Mathlib.Logic.Function.Basic

/-! Stored bytes and what refers to them: the store's writers, files and attachments, and
the reaper that drops what nothing uses. Times are in seconds; a statement is one step, as
its row locks make it. -/
namespace Kitp.Cas
open Kitp.Store Kitp.Accounts Kitp.FlowGate Function

/-- A file and its `file_chunk` rows. -/
structure File where
  id : Int
  createdAt : Nat
  chunks : List String

structure Attachment where
  id : Int
  fileId : Int
  thumbFileId : Option Int
  deleted : Bool

/-- Someone was told that the bytes are stored, while the blob's clock stood at `clock`;
an answer to an account rests on the row that says who sent them. -/
structure Answer where
  address : String
  clock : Nat
  since : Nat
  holder : Option Int

/-- Where a `Storage.Put` stands. -/
inductive PutPhase where
  | idle
  | found (address : String)
  | missing (address : String)

/-- A row the reaper may drop. -/
inductive Key where
  | file (id : Int)
  | blob (address : String)
  deriving DecidableEq

/-- Where a pass stands: its cutoff is the grace period before `since`. -/
inductive Sweep where
  | idle
  | sweeping (since : Nat) (keys : List Key)
  | locked (since : Nat) (key : Key) (keys : List Key)

structure State where
  now : Nat
  /-- `cas_blob.created_at`. -/
  blobs : String → Option Nat
  /-- `cas_blob_data` has the row. -/
  bytes : String → Bool
  /-- `cas_blob_holder`. -/
  holders : List (String×Int)
  files : List File
  nextFile : Int
  attachments : List Attachment
  nextAttachment : Int
  /-- `import_job.file_id`. -/
  importJobs : List Int
  /-- The addresses of `portal_build_file` and `theme_file`, which have no foreign key. -/
  published : List String
  put : Nat → PutPhase
  sweep : Nat → Sweep
  answers : List Answer

def start : State where
  now := 0
  blobs _ := none
  bytes _ := false
  holders := []
  files := []
  nextFile := 1
  attachments := []
  nextAttachment := 1
  importJobs := []
  published := []
  put _ := .idle
  sweep _ := .idle
  answers := []

/-- `account_principal`. -/
def accountPrincipal (dir : Directory) (account : Int) : Int :=
  (((dir.accounts.find? fun u => u.id=account∧u.isAgent).bind (·.parentUserId)).filter
    (·≠1)).getD account

/-- `cas_reader_principals`. -/
def readerPrincipals (dir : Directory) (reader : Int) : List Int :=
  accountPrincipal dir reader::
    (dir.accounts.filter fun u => u.isAgent∧u.parentUserId=some (accountPrincipal dir reader)∧
      u.parentUserId≠some 1).map (·.id)

variable (dir : Directory) (s : State)

/-- Who of the reader's sent the bytes. -/
def holderOf (reader : Int) (address : String) : Option Int :=
  (readerPrincipals dir reader).find? fun u => (address,u)∈s.holders

/-- `cas.missing_chunks`: what the caller has to send. -/
def missingChunks (actor : Int) (addresses : List String) : List String :=
  addresses.filter fun a => (holderOf dir s actor a).isNone

/-- What it says is there already. -/
def presentChunks (actor : Int) (addresses : List String) : List Answer :=
  addresses.filterMap fun a => (holderOf dir s actor a).bind fun u =>
    (s.blobs a).map fun clock => ⟨a,clock,s.now,some u⟩

structure Chunk where
  address : String
  sizeBytes : String

structure FileInput where
  filename : String
  chunks : List Chunk

/-- `^[0-9]{1,18}$` -/
def isSize (t : String) : Bool :=
  t.toList.all Char.isDigit&&0 < t.toList.length&&t.toList.length ≤ 18

def chunkProblem (i : Nat) (c : Chunk) : Option Refusal :=
  if c.address="" then
    some ⟨"validation",s!"file.create: chunks[{i}].address is required"⟩
  else if !isSize (if c.sizeBytes="" then "0" else c.sizeBytes) then
    some ⟨"validation",s!"file.create: chunks[{i}].size_bytes must be non-negative"⟩
  else none

def notUploaded (i : Nat) (address : String) : Refusal :=
  ⟨"validation",s!"file.create: chunk {i} ({address}) hasn't been uploaded"⟩

/-- The first chunk with a problem of its own. -/
def checkChunks (chunks : List Chunk) : Option Refusal :=
  chunks.zipIdx.findSome? fun c => chunkProblem c.2 c.1

def checkFile (input : FileInput) : Except Refusal Unit :=
  if input.filename="" then .error ⟨"validation","file.create: filename is empty"⟩
  else if '.' ∉ input.filename.toList∨input.filename.toList.head?=some '.'∨
      input.filename.toList.getLast?=some '.' then
    .error ⟨"validation","file.create: filename must have an extension"⟩
  else if input.chunks=[] then
    .error ⟨"validation","file.create: at least one chunk is required"⟩
  else if 100000 < input.chunks.length then
    .error ⟨"validation","file.create: a file has at most 100000 chunks"⟩
  else match checkChunks input.chunks with
    | some r => .error r
    | none => .ok ()

/-- The first chunk whose bytes the caller does not hold. -/
def checkHeld (actor : Int) (chunks : List Chunk) : Except Refusal Unit :=
  match chunks.zipIdx.find? fun c => (holderOf dir s actor c.1.address).isNone with
  | some (c,i) => .error (notUploaded i c.address)
  | none => .ok ()

/-- A file row and its chunks; each chunk's foreign key finds the blob's row. -/
def insertFile (addresses : List String) : Except Refusal State :=
  if addresses.all fun a => (s.blobs a).isSome then
    .ok { s with files := s.files++[⟨s.nextFile,s.now,addresses⟩], nextFile := s.nextFile+1 }
  else .error ⟨"fk_violation","references a record that does not exist"⟩

/-- `file.create`. -/
def fileCreate (actor : Int) (input : FileInput) : Except Refusal State := do
  checkFile input
  checkHeld dir s actor input.chunks
  insertFile s (input.chunks.map (·.address))

/-- The file an attachment or a job names is there. -/
def hasFile (f : Int) : Bool := s.files.any (·.id=f)

def Attachment.names (a : Attachment) (f : Int) : Bool := a.fileId=f∨a.thumbFileId=some f

def createdAt : Key → Option Nat
  | .file f => (s.files.find? (·.id=f)).map (·.createdAt)
  | .blob a => s.blobs a

/-- `unused`: nothing that counts uses the row. A deleted attachment does not count. -/
def unused : Key → Bool
  | .file f => !s.attachments.any (fun a => !a.deleted&&a.names f)&&!s.importJobs.any (·=f)
  | .blob a => !s.files.any (·.chunks.any (·=a))&&!s.published.any (·=a)

/-- Older than the grace period was when the pass began. -/
def old (grace since : Nat) (k : Key) : Bool := (createdAt s k).any (·+grace < since)

def orphan (grace since : Nat) (k : Key) : Bool := old s grace since k&&unused s k

/-- `reapOne` on a file: the deleted attachments that name it go first; another row that
names it refuses the delete. -/
def dropFile (f : Int) : Option State :=
  let attachments := s.attachments.filter fun a => !(a.deleted&&a.names f)
  if attachments.any (·.names f)||s.importJobs.any (·=f) then none
  else some { s with files := s.files.filter (·.id≠f), attachments }

/-- `reapOne` on a blob: a chunk that names it refuses the delete; the bytes and the rows
that say who sent them go with the row. -/
def dropBlob (a : String) : Option State :=
  if s.files.any (·.chunks.any (·=a)) then none
  else some { s with blobs := update s.blobs a none, bytes := update s.bytes a false,
                     holders := s.holders.filter (·.1≠a) }

def dropRow : Key → Option State
  | .file f => dropFile s f
  | .blob a => dropBlob s a

/-- `Touch`: the clock starts again; the row may be gone. -/
def touch (a : String) : Option State :=
  (s.blobs a).map fun _ => { s with blobs := update s.blobs a (some s.now) }

/-- The head backend's `Put`, in a transaction that started at `started`. -/
def write (a : String) (started : Nat) : State :=
  { s with blobs := update s.blobs a ((s.blobs a).or (some started)),
           bytes := update s.bytes a true }

def answer (a : String) (holder : Option Int) : State :=
  { s with answers := s.answers++((s.blobs a).map fun clock => ⟨a,clock,s.now,holder⟩).toList }

inductive Event where
  | advance (t : Nat)
  | has (p : Nat) (address : String)
  | touch (p : Nat)
  | write (p started : Nat)
  | giveUp (p : Nat)
  | noteHolder (user : Int) (address : String)
  | missingChunks (actor : Int) (addresses : List String)
  | fileCreate (actor : Int) (input : FileInput)
  | storeFile (address : String)
  | attach (fileId : Int)
  | setThumb (attachment fileId : Int)
  | detach (attachment : Int)
  | importJob (fileId : Int)
  | publish (address : String)
  | unpublish (address : String)
  | sweep (r : Nat) (keys : List Key)
  | look (r : Nat)
  | drop (r : Nat)
  | stop (r : Nat)

variable (grace : Nat)

/-- One step of the clock, a writer, a caller or a reaper; a call that is refused changes
nothing. -/
def step (s : State) : Event → Option State
  | .advance t => if s.now ≤ t then some { s with now := t } else none
  | .has p a =>
    match s.put p with
    | .idle => some { s with put := update s.put p (if s.bytes a then .found a else .missing a) }
    | _ => none
  | .touch p =>
    match s.put p with
    | .found a =>
      match touch s a with
      | some t => some { answer t a none with put := update s.put p .idle }
      | none => some { s with put := update s.put p (.missing a) }
    | _ => none
  | .write p started =>
    match s.put p with
    | .missing a =>
      if started ≤ s.now then
        some { answer (write s a started) a none with put := update s.put p .idle }
      else none
    | _ => none
  | .giveUp p => some { s with put := update s.put p .idle }
  | .noteHolder u a =>
    if (s.blobs a).isSome then
      some (answer { s with holders := if (a,u)∈s.holders then s.holders
                                       else s.holders++[(a,u)] } a (some u))
    else some s
  | .missingChunks actor addresses =>
    some { s with answers := s.answers++presentChunks dir s actor addresses }
  | .fileCreate actor input => some ((fileCreate dir s actor input).toOption.getD s)
  | .storeFile a => some ((insertFile s [a]).toOption.getD s)
  | .attach f =>
    if hasFile s f then
      some { s with attachments := s.attachments++[⟨s.nextAttachment,f,none,false⟩],
                    nextAttachment := s.nextAttachment+1 }
    else some s
  | .setThumb id f =>
    if hasFile s f then
      some { s with attachments := s.attachments.map fun a =>
        if a.id=id then { a with thumbFileId := some f } else a }
    else some s
  | .detach id =>
    some { s with attachments := s.attachments.map fun a =>
      if a.id=id then { a with deleted := true } else a }
  | .importJob f =>
    if hasFile s f then some { s with importJobs := s.importJobs++[f] } else some s
  | .publish a => some { s with published := s.published++[a] }
  | .unpublish a => some { s with published := s.published.erase a }
  | .sweep r keys =>
    match s.sweep r with
    | .idle =>
      if keys.all (orphan s grace s.now) then
        some { s with sweep := update s.sweep r (.sweeping s.now keys) }
      else none
    | _ => none
  | .look r =>
    match s.sweep r with
    | .sweeping since (k::keys) =>
      let phase := if orphan s grace since k then .locked since k keys else .sweeping since keys
      some { s with sweep := update s.sweep r phase }
    | _ => none
  | .drop r =>
    match s.sweep r with
    | .locked since k keys =>
      -- a row written since it was found is looked at again
      let t := if old s grace since k then (dropRow s k).getD s else s
      some { t with sweep := update s.sweep r (.sweeping since keys) }
    | _ => none
  | .stop r => some { s with sweep := update s.sweep r .idle }

end Kitp.Cas
