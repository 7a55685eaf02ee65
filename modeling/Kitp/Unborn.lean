import Kitp.Lib.Bounded
import Kitp.Lib.Runs
import Kitp.Dispatch

/-! The authorization of a batch against cards made meanwhile: the readings of its
anchors before the transaction, the two looks around each handler group, and what
others commit in between. -/
namespace Kitp.Unborn
open Kitp.Dispatch Kitp.Groups Kitp.Runs

/-- What the input of a leaf names: its card, or a row (an activity, an import job, an
attachment) that belongs to one. -/
inductive Target where
  | card (id : Int)
  | row (id : Nat)

structure Db where
  cards : List Int
  row : Nat → Option Int

/-- `ScopeCardID`: a missing row names no card. -/
def scopeCardID (db : Db) : Target → Int
  | .card id => id
  | .row r => (db.row r).getD 0

/-- What the transaction of the batch has written so far. -/
structure Writes where
  made : List Int
  gone : List Int
  rows : List (Nat×Int)

/-- What a statement of the transaction sees. -/
def view (db : Db) (own : Writes) : Db where
  cards := (db.cards++own.made).filter (·∉own.gone)
  row r := (own.rows.lookup r).or (db.row r)

/-- A leaf that passed its checks: the card its input named then, and the cards there
were. -/
structure Decided where
  leaf : Prepared Target
  anchor : Int
  existed : List Int

inductive Phase where
  | seed (todo : List (Prepared Target)) (seeds : List Int)
  | expand (known : List Int)
  | decide (todo : List (Prepared Target)) (known : List Int)
  | check
  | run
  | done
  | aborted

/-- The database, the batch and what it did. `used` are the card ids handed out so far,
and `touched` the leaves that ran with the card each ran against. -/
structure State where
  db : Db
  used : List Int
  plan : List (Prepared Target)
  phase : Phase
  decided : List Decided
  groups : List (List Decided)
  own : Writes
  touched : List (Decided×Int)

inductive Event where
  /-- Another transaction commits new cards and rows. -/
  | others (cards : List Int) (rows : List (Nat×Int))
  | seed
  | load
  | expand (ancestors : List Int)
  | decide
  | fail
  | begin
  | check
  /-- A leaf of the group meets its card, on the snapshot of a statement. -/
  | touch (i : Nat)
  /-- A statement of the group writes. -/
  | write (w : Writes)
  | recheck
  | commit

/-- The checks of `unbornAnchor` on one leaf, as the per-leaf pass reads its anchor. -/
def decideLeaf (db : Db) (known : List Int) (p : Prepared Target) : Decided :=
  let anchor := if p.handler.gated then scopeCardID db p.input else 0
  ⟨{ p with unbornAnchor := unbornAnchor p.handler anchor (·∈known) },anchor,db.cards⟩

/-- `checkUnborn` finds a leaf of the group whose card was born since. -/
def foundBorn (s : State) (group : List Decided) : Bool :=
  (firstBorn (view s.db s.own).cards 0 (group.map (·.leaf))).isSome

def step (s : State) : Event → Option State
  | .others cards rows =>
    if (∀ c∈cards, c≠0∧c∉s.used)∧∀ x∈rows, (view s.db s.own).row x.1=none then
      some { s with
        db := ⟨s.db.cards++cards,fun r => (s.db.row r).or (rows.lookup r)⟩
        used := s.used++cards }
    else none
  | .seed =>
    match s.phase with
    | .seed (p::todo) seeds =>
      let cid := scopeCardID s.db p.input
      some { s with phase := .seed todo (if cid=0 then seeds else cid::seeds) }
    | _ => none
  | .load =>
    match s.phase with
    | .seed [] seeds => some { s with phase := .expand (seeds.filter (·∈s.db.cards)) }
    | _ => none
  | .expand ancestors =>
    match s.phase with
    | .expand known =>
      if ∀ c∈ancestors, c∈s.db.cards then
        some { s with phase := .decide s.plan (known++ancestors) }
      else none
    | _ => none
  | .decide =>
    match s.phase with
    | .decide (p::todo) known =>
      some { s with
        phase := .decide todo known
        decided := s.decided++[decideLeaf s.db known p] }
    | _ => none
  | .fail =>
    match s.phase with
    | .done => none
    | _ => some { s with phase := .aborted }
  | .begin =>
    match s.phase with
    | .decide [] _ =>
      some { s with
        phase := .check
        groups := Groups.groups (fun d => handlerKey d.leaf) s.decided }
    | _ => none
  | .check =>
    match s.phase, s.groups with
    | .check, group::_ =>
      if foundBorn s group then some { s with phase := .aborted }
      else some { s with phase := .run }
    | _, _ => none
  | .touch i =>
    match s.phase, s.groups with
    | .run, group::_ =>
      match group[i]? with
      | some d =>
        let card := scopeCardID (view s.db s.own) d.leaf.input
        if card∈(view s.db s.own).cards then some { s with touched := s.touched++[(d,card)] }
        else none
      | none => none
    | _, _ => none
  | .write w =>
    match s.phase with
    | .run =>
      if (∀ c∈w.made, c≠0∧c∉s.used)∧∀ c∈w.gone, c∈(view s.db s.own).cards then
        some { s with
          own := ⟨s.own.made++w.made,s.own.gone++w.gone,w.rows++s.own.rows⟩
          used := s.used++w.made }
      else none
    | _ => none
  | .recheck =>
    match s.phase, s.groups with
    | .run, group::rest =>
      if foundBorn s group then some { s with phase := .aborted }
      else some { s with phase := .check, groups := rest }
    | _, _ => none
  | .commit =>
    match s.phase, s.groups with
    | .check, [] => some { s with phase := .done, db := view s.db s.own, own := ⟨[],[],[]⟩ }
    | _, _ => none

/-- A batch about to be authorized. -/
def start (db : Db) (used : List Int) (plan : List (Prepared Target)) : State :=
  ⟨db,used,plan,.seed plan [],[],[],⟨[],[],[]⟩,[]⟩

/-- A gated leaf ran against a card that did not exist when the leaf was authorized. -/
def RanUnchecked (s : State) : Prop :=
  ∃ x∈s.touched, x.1.leaf.handler.gated=true∧x.2∉x.1.existed

/-- The reference of a gated leaf that runs names the card it named when the leaf was
authorized, and no card a leaf ran against unborn is deleted before the second look. -/
def Anchored (s : State) : Event → Prop
  | .touch i => ∀ group rest d, s.groups=group::rest → group[i]?=some d →
      d.leaf.handler.gated=true → scopeCardID (view s.db s.own) d.leaf.input=d.anchor
  | .write w => ∀ x∈s.touched, x.2=x.1.leaf.unbornAnchor → x.2∉w.gone
  | _ => True

end Kitp.Unborn
