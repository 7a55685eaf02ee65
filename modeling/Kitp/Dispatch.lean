import Kitp.Lib.Groups

/-! The batch dispatcher: read-dedup, process expansion, the gates before the
transaction, grouping, the handler calls and the per-slot responses. -/
namespace Kitp.Dispatch
open Kitp.Groups

structure SubRequest where
  id : String
  endpoint : String
  action : String
  ref : String
  key : String
  data : String

structure ErrorEnvelope (Detail : Type) where
  code : String
  message : String
  detail : Option Detail

structure SubResponse (Out Detail : Type) where
  id : String
  ok : Bool
  data : Option Out
  error : Option (ErrorEnvelope Detail)

/-- An error on its way to the envelope: a `HandlerError`, or any other one. -/
inductive Err (Detail : Type) where
  | handler (inputIndex : Int) (code message : String) (detail : Option Detail)
  | other (text : String)

/-- What the dispatcher reads of a registered handler. `gated` is a handler with
a process and a card type to authorize against. -/
structure Handler where
  endpoint : String
  action : String
  isRead : Bool
  onePerBatch : Bool
  gated : Bool
  sqlFunc : Bool
  preRun : Bool
  postRun : Bool

structure Prepared (In : Type) where
  outerIdx : Nat
  handler : Handler
  input : In
  isLast : Bool
  isLeader : Bool
  processName : String
  unbornAnchor : Int

structure Step where
  ordinal : Nat
  endpoint : String
  action : String

/-- One row of a handler function's result table. -/
inductive RowResult (Out : Type) where
  | null
  | undecodable
  | value (out : Out)

structure ResultRow (Out Detail : Type) where
  idx : Int
  ok : Bool
  code : String
  message : String
  result : RowResult Out
  detail : Option Detail

/-- Statements of the request's transaction over its database `σ`. -/
abbrev Tx (σ Detail : Type) := ExceptT (Err Detail) (StateM σ)

/-- Everything the dispatcher calls: the registry, the checks that run before the
transaction, and the handlers. -/
structure Env (σ In Out Detail : Type) where
  lookup : String → String → Option Handler
  processSteps : String → Except (Err Detail) (Option (List Step))
  decode : Handler → String → Except String In
  authzHook : Handler → In → Option (Err Detail)
  checkLeafRoles : Handler → Option (Err Detail)
  /-- The card a leaf is checked against, as the seed pass reads it. -/
  scopeCardID : Prepared In → Except (Err Detail) Int
  /-- Which of the cards exist, ancestors included. -/
  preloadCards : List Int → Except (Err Detail) (Int → Bool)
  /-- The project type, the actor's grants, areas, bundle sources and person. -/
  loadTables : Option (Err Detail)
  /-- The card a leaf is checked against, as the per-leaf pass reads it. -/
  anchor : Prepared In → Except (Err Detail) Int
  /-- The first of the private, grant, bundle and area checks to refuse the leaf,
  with its default code. -/
  leafDenied : Prepared In → Option (String×Err Detail)
  begin : Option (Err Detail)
  preRun : Handler → List In → Tx σ Detail (List In)
  query : Handler → List In → Tx σ Detail (List (ResultRow Out Detail))
  postRun : Handler → List In → List (Option Out) → Tx σ Detail (List (Option Out))
  run : Handler → List In → Tx σ Detail (List (Option Out))
  /-- Which of the ids have a card now. -/
  bornCards : List Int → Tx σ Detail (List Int)
  commit : σ → Option (Err Detail)

variable {σ In Out Detail : Type}

section Slots

def errEnvelope (err : Err Detail) (defCode : String) : String×String×Option Detail :=
  match err with
  | .handler _ code message detail => (if code="" then defCode else code,message,detail)
  | .other _ => ("internal","internal error",none)

def abortedEnvelope : ErrorEnvelope Detail :=
  ⟨"aborted","batch aborted by sibling sub-request",none⟩

def abortAllWithDetail (slots : List (SubResponse Out Detail)) (offender : Nat)
    (code msg : String) (detail : Option Detail) : List (SubResponse Out Detail) :=
  slots.mapIdx fun i slot =>
    if i=offender then ⟨slot.id,false,none,some ⟨code,msg,detail⟩⟩
    else ⟨slot.id,false,none,some abortedEnvelope⟩

def abortWithError (slots : List (SubResponse Out Detail)) (offender : Nat) (defCode : String)
    (err : Err Detail) : List (SubResponse Out Detail) :=
  let e := errEnvelope err defCode
  abortAllWithDetail slots offender e.1 e.2.1 e.2.2

end Slots

section Dedup

def dedupKey (sr : SubRequest) : String :=
  sr.endpoint++"\x00"++sr.action++"\x00"++sr.data

/-- A repeat can only be of a registered read without key and ref. -/
def dedupEligible (lookup : String → String → Option Handler) (sr : SubRequest) : Bool :=
  sr.key=""&&sr.ref=""&&
    match lookup sr.endpoint sr.action with
    | some h => h.isRead
    | none => false

/-- The first occurrence of the read at slot `i`, when `i` repeats it. -/
def dedupReadSubrequests (lookup : String → String → Option Handler) (subs : List SubRequest)
    (i : Nat) : Option Nat :=
  match subs[i]? with
  | none => none
  | some sr =>
    if dedupEligible lookup sr then
      (List.range i).find? fun j =>
        match subs[j]? with
        | none => false
        | some other => dedupEligible lookup other&&dedupKey other=dedupKey sr
    else none

end Dedup

section Expand

def prepareLeaf (env : Env σ In Out Detail) (outerIdx : Nat) (h : Handler) (data : String)
    (processName : String) (isLast isLeader : Bool) : Except (Err Detail) (Prepared In) :=
  match env.decode h data with
  | .error text =>
    .error (.handler 0 "bad_input" s!"decode {h.endpoint}.{h.action} data: {text}" none)
  | .ok input =>
    match env.authzHook h input with
    | some (.handler k code msg detail) => .error (.handler k code msg detail)
    | some (.other _) => .error (.handler 0 "unauthorized" "not authorized" none)
    | none => .ok ⟨outerIdx,h,input,isLast,isLeader,processName,0⟩

/-- The steps of a process from position `i` on, of `n` in all. -/
def expandSteps (env : Env σ In Out Detail) (outerIdx : Nat) (data procName : String) (n : Nat) :
    Nat → List Step → Except (Err Detail) (List (Prepared In))
  | _, [] => .ok []
  | i, step::steps =>
    match env.lookup step.endpoint step.action with
    | none => .error (.handler 0 "unknown_step"
        s!"process {procName} step {step.ordinal} targets unknown handler {step.endpoint}.{step.action}"
        none)
    | some h => do
      let p ← prepareLeaf env outerIdx h data procName (i=n-1) (i=0)
      let rest ← expandSteps env outerIdx data procName n (i+1) steps
      return p::rest

def expandSubrequest (env : Env σ In Out Detail) (outerIdx : Nat) (sr : SubRequest) :
    Except (Err Detail) (List (Prepared In)) :=
  match env.lookup sr.endpoint sr.action with
  | some h => do return [← prepareLeaf env outerIdx h sr.data "" true true]
  | none =>
    let procName := sr.endpoint++"."++sr.action
    match env.processSteps procName with
    | .error err => .error err
    | .ok none | .ok (some []) => .error (.handler 0 "unknown_handler"
        s!"no handler or process registered for {sr.endpoint}.{sr.action}" none)
    | .ok (some steps) => expandSteps env outerIdx sr.data procName steps.length 0 steps

/-- Pass 1, from slot `i` on: every sub-request that is not a repeat, in input order. -/
def expandAll (env : Env σ In Out Detail) (dupOf : Nat → Option Nat) :
    Nat → List SubRequest → Except (Nat×Err Detail) (List (Prepared In))
  | _, [] => .ok []
  | i, sr::rest =>
    match dupOf i with
    | some _ => expandAll env dupOf (i+1) rest
    | none =>
      match expandSubrequest env i sr with
      | .error err => .error (i,err)
      | .ok expanded => do
        let others ← expandAll env dupOf (i+1) rest
        return expanded++others

/-- Pass 1.25: a second sub-request with a one-per-batch handler. -/
def secondImport : Option Nat → List (Prepared In) → Option (Prepared In)
  | _, [] => none
  | first, p::rest =>
    if p.handler.onePerBatch then
      match first with
      | some f => if p.outerIdx≠f then some p else secondImport (some p.outerIdx) rest
      | none => secondImport (some p.outerIdx) rest
    else secondImport first rest

/-- Pass 1.5: the first leaf the role gate refuses. -/
def runRoleGate (env : Env σ In Out Detail) : List (Prepared In) → Option (Nat×Err Detail)
  | [] => none
  | p::rest =>
    match env.checkLeafRoles p.handler with
    | some err => some (p.outerIdx,err)
    | none => runRoleGate env rest

def unbornAnchor (h : Handler) (anchor : Int) (known : Int → Bool) : Int :=
  if !h.gated||anchor=0||known anchor then 0 else anchor

/-- The cards the seed pass starts its walks from. -/
def seedCards (env : Env σ In Out Detail) :
    List (Prepared In) → Except (Nat×String×Err Detail) (List Int)
  | [] => .ok []
  | p::rest =>
    match env.scopeCardID p with
    | .error err => .error (p.outerIdx,"validation",err)
    | .ok cid => do
      let ids ← seedCards env rest
      return if cid=0 then ids else cid::ids

/-- The checks of each leaf in order; a leaf that passes keeps its unborn anchor. -/
def authorizeLeaves (env : Env σ In Out Detail) (known : Int → Bool) :
    List (Prepared In) → Except (Nat×String×Err Detail) (List (Prepared In))
  | [] => .ok []
  | p::rest =>
    match if p.handler.gated then env.anchor p else .ok 0 with
    | .error err => .error (p.outerIdx,"validation",err)
    | .ok cid =>
      match env.leafDenied p with
      | some (defCode,err) => .error (p.outerIdx,defCode,err)
      | none => do
        let others ← authorizeLeaves env known rest
        return { p with unbornAnchor := unbornAnchor p.handler cid known }::others

/-- Pass 2: scope-aware authorization. -/
def runAuthzPass (env : Env σ In Out Detail) (prepped : List (Prepared In)) :
    Except (Nat×String×Err Detail) (List (Prepared In)) :=
  match prepped with
  | [] => .ok []
  | first::_ => do
    let seeds ← seedCards env prepped
    match env.preloadCards seeds with
    | .error err => .error (first.outerIdx,"validation",err)
    | .ok known =>
      match env.loadTables with
      | some err => .error (first.outerIdx,"validation",err)
      | none => authorizeLeaves env known prepped

end Expand

section Calls

/-- The first leaf of a group whose unborn anchor has a card by now. -/
def firstBorn (born : List Int) : Nat → List (Prepared In) → Option Nat
  | _, [] => none
  | i, p::rest =>
    if p.unbornAnchor≠0∧p.unbornAnchor∈born then some i else firstBorn born (i+1) rest

def checkUnborn (env : Env σ In Out Detail) (group : List (Prepared In)) : Tx σ Detail Unit := do
  let ids := (group.map (·.unbornAnchor)).filter (·≠0)
  if ids.isEmpty then return ()
  let born ← env.bornCards ids
  match firstBorn born 0 group with
  | some i => throw (.handler i "card_not_found"
      "that card didn't exist when this request was checked; send it again" none)
  | none => return ()

/-- The loop over a handler function's result rows. -/
def readRows (n : Nat) : List (ResultRow Out Detail) → List (Option Out) → Nat →
    Except (Err Detail) (List (Option Out)×Nat)
  | [], outs, filled => .ok (outs,filled)
  | row::rows, outs, filled =>
    if row.idx < 0∨row.idx ≥ n then .error (.other "row idx out of range")
    else if !row.ok then .error (.handler row.idx row.code row.message row.detail)
    else
      match row.result with
      | .null => .error (.other "ok=true but result is null")
      | .undecodable => .error (.other "unmarshal result")
      | .value out => readRows n rows (outs.set row.idx.toNat (some out)) (filled+1)

/-- The statement of a handler function and the reading of its result table. -/
def queryRows (env : Env σ In Out Detail) (h : Handler) (ins : List In) :
    Tx σ Detail (List (Option Out)) := do
  let rows ← env.query h ins
  let read ← ExceptT.mk (pure (readRows ins.length rows (List.replicate ins.length none) 0))
  if read.2≠ins.length then throw (.other "returned another number of rows")
  return read.1

def runSQLFunc (env : Env σ In Out Detail) (h : Handler) (group : List (Prepared In))
    (ins : List In) : Tx σ Detail (List (Option Out)) := do
  let newIns ← if h.preRun then env.preRun h ins else pure ins
  if newIns.length≠ins.length then throw (.other "pre_run returned another number of inputs")
  let outs ← queryRows env h newIns
  checkUnborn env group
  if h.postRun then env.postRun h newIns outs else pure outs

/-- The handler call of one group. -/
def callHandler (env : Env σ In Out Detail) (h : Handler) (group : List (Prepared In)) :
    Tx σ Detail (List (Option Out)) := do
  let ins := group.map (·.input)
  if h.sqlFunc then runSQLFunc env h group ins
  else
    let outs ← env.run h ins
    checkUnborn env group
    return outs

/-- The slot an error of a group is laid to. -/
def offender (group : List (Prepared In)) (first : Prepared In) (err : Err Detail) : Nat :=
  match err with
  | .handler k _ _ _ =>
    if 0 ≤ k then
      match group[k.toNat]? with
      | some p => p.outerIdx
      | none => first.outerIdx
    else first.outerIdx
  | .other _ => first.outerIdx

/-- Writes a group's outputs into the slots of its last steps. -/
def fillSlots (subs : List SubRequest) : List (Prepared In) → List (Option Out) →
    List (SubResponse Out Detail) → List (SubResponse Out Detail)
  | p::group, out::outs, slots =>
    let slots :=
      if p.isLast then
        slots.set p.outerIdx ⟨((subs[p.outerIdx]?).map (·.id)).getD "",true,out,none⟩
      else slots
    fillSlots subs group outs slots
  | _, _, slots => slots

/-- One handler call: the group and the outputs it returned, if it did. -/
structure Call (In Out : Type) where
  group : List (Prepared In)
  outs : Option (List (Option Out))

/-- The state of a dispatch in its transaction; `calls` records the handler calls. -/
structure Progress (σ In Out Detail : Type) where
  db : σ
  slots : List (SubResponse Out Detail)
  calls : List (Call In Out)

/-- `flush`: the check, the call and the slots of one group. -/
def flush (env : Env σ In Out Detail) (subs : List SubRequest) (group : List (Prepared In))
    (pr : Progress σ In Out Detail) : Except (List (SubResponse Out Detail)×List (Call In Out))
      (Progress σ In Out Detail) :=
  match group with
  | [] => .ok pr
  | first::_ =>
    match (checkUnborn env group).run pr.db with
    | (.error err,_) =>
      .error (abortWithError pr.slots (offender group first err) "card_not_found" err,pr.calls)
    | (.ok _,db) =>
      match (callHandler env first.handler group).run db with
      | (.error err,_) =>
        .error (abortWithError pr.slots (offender group first err) "handler_error" err,
          pr.calls++[⟨group,none⟩])
      | (.ok outs,db) =>
        if outs.length≠group.length then
          .error (abortAllWithDetail pr.slots first.outerIdx "handler_protocol" "internal error"
            none,pr.calls++[⟨group,some outs⟩])
        else .ok ⟨db,fillSlots subs group outs pr.slots,pr.calls++[⟨group,some outs⟩]⟩

def handlerKey (p : Prepared In) : String×String := (p.handler.endpoint,p.handler.action)

/-- The loop over the prepared leaves: a group is flushed when the handler changes. -/
def runGroups (env : Env σ In Out Detail) (subs : List SubRequest) :
    List (Prepared In) → List (Prepared In) → Progress σ In Out Detail →
    Except (List (SubResponse Out Detail)×List (Call In Out)) (Progress σ In Out Detail)
  | group, [], pr => flush env subs group pr
  | [], p::rest, pr => runGroups env subs [p] rest pr
  | head::group, p::rest, pr =>
    if handlerKey head=handlerKey p then runGroups env subs (head::group++[p]) rest pr
    else
      match flush env subs (head::group) pr with
      | .error out => .error out
      | .ok pr => runGroups env subs [p] rest pr

end Calls

/-- What a dispatch leaves: the responses, whether the transaction committed, the
database it leaves and the handler calls it made. -/
structure Result (σ In Out Detail : Type) where
  slots : List (SubResponse Out Detail)
  committed : Bool
  db : σ
  calls : List (Call In Out)

/-- The dispatch over the slots to run, before the responses are mirrored. -/
def dispatchRun (env : Env σ In Out Detail) (dupOf : Nat → Option Nat) (subs : List SubRequest)
    (db : σ) : Result σ In Out Detail :=
  let slots : List (SubResponse Out Detail) := subs.map fun sr => ⟨sr.id,false,none,none⟩
  match expandAll env dupOf 0 subs with
  | .error (i,err) => ⟨abortWithError slots i "unknown_handler" err,false,db,[]⟩
  | .ok prepped =>
    match secondImport none prepped with
    | some p => ⟨abortAllWithDetail slots p.outerIdx "validation"
        s!"{p.handler.endpoint}.{p.handler.action}: one import file per request" none,false,db,[]⟩
    | none =>
      match runRoleGate env prepped with
      | some (i,err) => ⟨abortWithError slots i "unauthorized" err,false,db,[]⟩
      | none =>
        match runAuthzPass env prepped with
        | .error (i,defCode,err) => ⟨abortWithError slots i defCode err,false,db,[]⟩
        | .ok prepped =>
          match env.begin with
          | some err => ⟨abortWithError slots 0 "tx_begin" err,false,db,[]⟩
          | none =>
            match runGroups env subs [] prepped ⟨db,slots,[]⟩ with
            | .error (slots,calls) => ⟨slots,false,db,calls⟩
            | .ok pr =>
              match env.commit pr.db with
              | some err => ⟨abortWithError pr.slots 0 "tx_commit" err,false,db,pr.calls⟩
              | none => ⟨pr.slots,true,pr.db,pr.calls⟩

end Kitp.Dispatch
