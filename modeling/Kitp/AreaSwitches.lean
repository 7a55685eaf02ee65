import Kitp.Lib.Versions
import Kitp.Store

/-! `area.set` under READ COMMITTED: the statements of any number of calls, in any order. -/
namespace Kitp.AreaSwitches

open Kitp.Store Kitp.Versions

inductive Scope where
  | project
  | workspace
  deriving DecidableEq

/-- A row of `area`. -/
structure Area where
  key : String
  title : String
  scope : Scope
  sortOrder : Int
  dependsOn : List String
  starts : List String

/-- The areas: keys are unique, dependencies stay within a scope (the loader checks both) and are
one level deep. -/
structure Catalog where
  areas : List Area
  unique : (areas.map (·.key)).Nodup
  sameScope : ∀ a∈areas, ∀ b∈areas, b.key∈a.dependsOn → b.scope=a.scope
  shallow : ∀ a∈areas, ∀ b∈areas, b.key∈a.dependsOn → b.dependsOn=[]

/-- The `state` of a `project_area` or `workspace_area` row. -/
inductive Switch where
  | on
  | off
  deriving DecidableEq

/-- What `area_state` returns. -/
inductive AreaState where
  | on
  | off
  | unused
  deriving DecidableEq

/-- An input of `area.set`: no project where the text isn't a card id (0 where there is none), no
switch where `on` isn't a boolean. -/
structure Input where
  project : Option Int
  key : Option String
  on : Option Bool
  start : Option String

/-- What a statement reads of other tables: the live projects, the caller's roles and their
scopes, `area_present`, and what `bundle_apply` comes to. -/
structure Env where
  live : Int → Bool
  roles : List (String×Option Int)
  present : Int → String → Bool
  bundleApply : Int → String → String×Option String

structure Done where
  key : String
  on : Bool
  applied : List String

abbrev Answer := Except Refusal Done

/-- How far a transaction is: an area's `starting` comes before its row is `turning`, `checking`
the dependents before the row goes `off`. -/
inductive Task where
  | idle
  | failed (message : String)
  | starting (project : Int) (key : String) (start : Option String) (todo applied : List String)
  | turning (project : Int) (key : String) (start : Option String) (k : String)
      (todo applied : List String)
  | checking (project : Int) (area : Area)
  | off (project : Int) (key : String)

structure State (ι : Type) where
  rows : Table ι (Option Int×String) Switch
  task : ι → Task
  answers : ι → List Answer

inductive Event (ι : Type) where
  | call (i : ι) (env : Env) (input : Input)
  | next (i : ι) (env : Env)
  | commit (i : ι)
  | abort (i : ι)

/-- The row of an area: `project_area`'s, or `workspace_area`'s for project 0. -/
def rowOf (project : Int) (key : String) : Option Int×String :=
  (if project=0 then none else some project,key)

def Catalog.find (c : Catalog) (key : String) : Option Area := c.areas.find? (·.key=key)

variable {ι : Type} [DecidableEq ι] (c : Catalog) (s : State ι) (i : ι) (env : Env)

/-- `area_state`, as the transaction sees it. -/
def areaState (project : Int) (key : String) : AreaState :=
  match c.find key with
  | none => .unused
  | some a => match a.scope with
    | .workspace => if s.rows.view i (none,key)=some .off then .off else .on
    | .project => match s.rows.view i (some project,key) with
      | some .on => .on
      | some .off => .off
      | none => if env.present project key then .on else .unused

/-- Admins turn on, and switch workspace areas; managers can also turn a project area off. -/
def maySwitch (project : Int) (on : Bool) : Bool :=
  let held := env.roles.filter fun r => r.2=none∨project≠0∧r.2=some project
  if on∨project=0 then held.any (·.1="admin")
  else held.any fun r => r.1="admin"∨r.1="manager"

/-- The checks before the switch. -/
def validate (input : Input) : Except Refusal (Int×Area×Bool×Option String) :=
  match input.project with
  | none => .error ⟨"validation","area.set: project_id must be a card id"⟩
  | some project => match input.key,input.on with
    | none,_ => .error ⟨"validation","area.set: key and on are required"⟩
    | _,none => .error ⟨"validation","area.set: key and on are required"⟩
    | some key,some on => match c.find key with
      | none => .error ⟨"not_found","area.set: there is no area "++quoteLiteral key⟩
      | some area =>
        if ¬(area.scope=.project↔project≠0) then .error ⟨"validation",match area.scope with
          | .project => "area.set: "++area.title++" is switched per project; give project_id"
          | .workspace => "area.set: "++area.title++
              " is switched for the whole workspace; give no project_id"⟩
        else if project≠0∧!env.live project then
          .error ⟨"not_found",s!"area.set: project {project} not found"⟩
        else if input.start.any (· ∉ area.starts) then
          .error ⟨"validation","area.set: "++quoteLiteral (input.start.getD "")++
            " isn't a starting point of "++area.title⟩
        else if !maySwitch env project on then .error ⟨"forbidden",
          if on then "area.set: only an admin can switch "++area.title++" on"
          else "area.set: only a manager or admin can switch "++area.title++" off"⟩
        else .ok (project,area,on,input.start)

namespace State

def goTo (task : Task) : State ι := { s with task := Function.update s.task i task }

/-- An input is answered. -/
def answer (a : Answer) : State ι :=
  { s.goTo i .idle with answers := Function.update s.answers i (s.answers i++[a]) }

def write (k : Option Int×String) (x : Switch) : State ι :=
  { s with rows := s.rows.put i k (some x) }

/-- The transaction ends. -/
def close (rows : Table ι (Option Int×String) Switch) : State ι where
  rows := rows
  task := Function.update s.task i .idle
  answers := Function.update s.answers i []

end State

def call (input : Input) : State ι :=
  match validate c env input with
  | .error e => s.answer i (.error e)
  | .ok (project,area,true,start) =>
    s.goTo i (.starting project area.key start (area.dependsOn++[area.key]) [])
  | .ok (project,area,false,_) => s.goTo i (.checking project area)

/-- The first of the areas in their order. -/
def first (areas : List Area) : Option Area := (areas.mergeSort (·.sortOrder ≤ ·.sortOrder)).head?

/-- A starting point, if the project doesn't have the area yet. -/
def startArea (project : Int) (key : String) (start : Option String) (k : String)
    (todo applied : List String) : Task :=
  match c.find k with
  | none => .turning project key start k todo applied
  | some a => match a.starts with
    | [] => .turning project key start k todo applied
    | st::_ =>
      if project=0∨env.present project k then .turning project key start k todo applied
      else
        let st := if k=key then start.getD st else st
        let r := env.bundleApply project st
        if r.1="applied"∨r.1="updated" then .turning project key start k todo (applied++[st])
        else .failed ("area.set: "++a.title++" couldn't start from "++st++": "++r.2.getD r.1)

/-- The next statement of a task, none where it waits for another transaction. -/
def next : Task → Option (State ι)
  | .idle => none
  | .failed _ => none
  | .starting _ key _ [] applied => some (s.answer i (.ok ⟨key,true,applied⟩))
  | .starting project key start (k::todo) applied =>
    some (s.goTo i (startArea c env project key start k todo applied))
  | .turning project key start k todo applied =>
    if s.rows.free i (rowOf project k) then
      some ((s.write i (rowOf project k) .on).goTo i (.starting project key start todo applied))
    else none
  | .checking project area =>
    some (match first (c.areas.filter fun d =>
        area.key∈d.dependsOn∧areaState c s i env project d.key=.on) with
      | some d => s.answer i (.error ⟨"area_needed","area.set: "++d.title++" uses "++area.title++
          "; switch "++d.title++" off first"⟩)
      | none => s.goTo i (.off project area.key))
  | .off project key =>
    if s.rows.free i (rowOf project key) then
      some ((s.write i (rowOf project key) .off).answer i (.ok ⟨key,false,[]⟩))
    else none

def step (s : State ι) : Event ι → Option (State ι)
  | .call i env input => match s.task i with
    | .idle => some (call c s i env input)
    | _ => none
  | .next i env => next c s i env (s.task i)
  | .commit i => match s.task i with
    | .idle => some (s.close i (s.rows.commit i))
    | _ => none
  | .abort i => some (s.close i (s.rows.abort i))

/-- No transaction is under way. -/
def start (rows : List ((Option Int×String)×Switch)) : State ι where
  rows := ⟨rows,[]⟩
  task _ := .idle
  answers _ := []

end Kitp.AreaSwitches
