import Kitp.Lib.Json

/-! The client's filters: their trees, the form that goes to the server, and what the filter bar
does to them. -/
namespace Kitp.Filters

inductive Op where
  | eq
  | ne
  | isIn
  | notIn
  | exist
  | notExist
  | contains
  | notTerminal
  | hasPhase
  | parentStatusPhase
  | snippet
  | beforeToday
  | withinDays
  | withinLastDays
  deriving DecidableEq,Repr

/-- `OP_TO_WIRE`. -/
def opToWire : Op → String
  | .eq => "="
  | .ne => "!="
  | .isIn => "in"
  | .notIn => "not in"
  | .exist => "exists"
  | .notExist => "not exists"
  | .contains => "contains"
  | .notTerminal => "not terminal"
  | .hasPhase => "has_phase"
  | .parentStatusPhase => "parent_status_phase"
  | .snippet => "snippet"
  | .beforeToday => "before_today"
  | .withinDays => "within_days"
  | .withinLastDays => "within_last_days"

/-- `WIRE_TO_OP`. -/
def wireToOp : List (String×Op) :=
  [("=",.eq),("eq",.eq),("!=",.ne),("ne",.ne),("in",.isIn),("not in",.notIn),("exists",.exist),
    ("not exists",.notExist),("contains",.contains),("not terminal",.notTerminal),
    ("has_phase",.hasPhase),("parent_status_phase",.parentStatusPhase),("snippet",.snippet),
    ("before_today",.beforeToday),("within_days",.withinDays),("within_last_days",.withinLastDays)]

inductive Connective where
  | and
  | or
  | not
  deriving DecidableEq,Repr

def connectiveName : Connective → String
  | .and => "and"
  | .or => "or"
  | .not => "not"

structure Leaf where
  attr : String
  op : Op
  values : Option (List Json)
  deriving DecidableEq,Repr

inductive Predicate where
  | leaf (l : Leaf)
  | group (connective : Connective) (children : List Predicate)
  deriving Repr

/-- `leaf`: no values where there are none. -/
def leaf (attr : String) (op : Op) (values : List Json) : Leaf :=
  ⟨attr,op,if values=[] then none else some values⟩

/-! The form that goes to the server. -/

def leafWire (l : Leaf) : Json :=
  .obj ([("attr",.str l.attr),("op",.str (opToWire l.op))]++
    match l.values with
    | some (v::vs) => [("values",.arr (v::vs))]
    | _ => [])

mutual

def toWire : Predicate → Json
  | .leaf l => leafWire l
  | .group c children =>
    .obj [("connective",.str (connectiveName c)),("children",.arr (toWires children))]

def toWires : List Predicate → List Json
  | [] => []
  | p::ps => toWire p::toWires ps

end

inductive DecodeError where
  | notObject
  | unknownConnective (c : Json)
  | childrenNotArray
  | notArity (n : Nat)
  | attrNotString
  | unknownOperator (s : String)
  | valuesNotArray
  deriving DecidableEq

def opFromWire (s : String) : Except DecodeError Op :=
  match wireToOp.lookup s with
  | none => .error (.unknownOperator s)
  | some op => .ok op

/-- A property of an object: the last one written under the name. -/
def prop (fields : List (String×Json)) (name : String) : Option Json := fields.reverse.lookup name

def connectiveFromWire (c : Json) : Except DecodeError Connective :=
  if c=.str "and" then .ok .and
  else if c=.str "or" then .ok .or
  else if c=.str "not" then .ok .not
  else .error (.unknownConnective c)

/-- The nodes of `decodeChildren`. -/
def childNodes (raw : Option Json) : Except DecodeError (List Json) :=
  match raw with
  | none => .ok []
  | some .null => .ok []
  | some (.arr xs) => .ok xs
  | some _ => .error .childrenNotArray

def leafValues (fields : List (String×Json)) : Except DecodeError (Option (List Json)) :=
  match prop fields "values" with
  | some (.arr vs) => .ok (some vs)
  | none => .ok ((prop fields "value").map fun v => [v])
  | some .null => .ok ((prop fields "value").map fun v => [v])
  | some _ => .error .valuesNotArray

def leafFromWire (fields : List (String×Json)) : Except DecodeError Leaf := do
  let attr ←
    match prop fields "attr" with
    | some (.str s) => pure s
    | _ => throw .attrNotString
  let op ←
    match prop fields "op" with
    | some (.str s) => opFromWire (if s="" then "=" else s)
    | _ => opFromWire "="
  return ⟨attr,op,← leafValues fields⟩

/-- What kind of node an object is. -/
inductive View where
  | group (connective : Connective) (nodes : List Json)
  | leaf (l : Leaf)

/-- A connective, the first version's `and`, or a leaf. -/
def view (fields : List (String×Json)) : Except DecodeError View :=
  match prop fields "connective" with
  | some c =>
    if c≠.str "" then do
      let connective ← connectiveFromWire c
      return .group connective (← childNodes (prop fields "children"))
    else withoutConnective
  | none => withoutConnective
where
  withoutConnective : Except DecodeError View :=
    match prop fields "and" with
    | some (.arr nodes) => .ok (.group .and nodes)
    | _ => do return .leaf (← leafFromWire fields)

theorem mem_of_prop {fields : List (String×Json)} {name : String} {v : Json}
    (h : prop fields name=some v) : (name,v)∈fields := by
  obtain ⟨before,behind,hsplit,-⟩ := List.lookup_eq_some_iff.mp h
  apply List.mem_reverse.mp
  rw [hsplit]
  simp

theorem prop_lt {fields : List (String×Json)} {name : String} {xs : List Json}
    (h : prop fields name=some (.arr xs)) : sizeOf xs < sizeOf (Json.obj fields) := by
  have hmem := List.sizeOf_lt_of_mem (mem_of_prop h)
  simp only [Prod.mk.sizeOf_spec,Json.arr.sizeOf_spec] at hmem
  rw [Json.obj.sizeOf_spec]
  omega

theorem childNodes_lt {fields : List (String×Json)} {name : String} {xs : List Json}
    (h : childNodes (prop fields name)=.ok xs) : sizeOf xs < sizeOf (Json.obj fields) := by
  have hpos : 0 < sizeOf fields := by
    cases fields with
    | nil => decide
    | cons f fs =>
      rw [List.cons.sizeOf_spec]
      omega
  unfold childNodes at h
  split at h
  · cases h
    simpa using hpos
  · cases h
    simpa using hpos
  · rename_i hprop
    cases h
    exact prop_lt hprop
  · cases h

theorem view_lt {fields : List (String×Json)} {c : Connective} {nodes : List Json}
    (h : view fields=.ok (.group c nodes)) : sizeOf nodes < sizeOf (Json.obj fields) := by
  have hand : ∀ {c nodes}, view.withoutConnective fields=.ok (.group c nodes) →
      sizeOf nodes < sizeOf (Json.obj fields) := by
    intro c nodes h
    rw [view.withoutConnective] at h
    split at h
    · rename_i hprop
      cases h
      exact prop_lt hprop
    · cases hleaf : leafFromWire fields with
      | error e =>
        rw [hleaf] at h
        cases h
      | ok l =>
        rw [hleaf] at h
        cases h
  rw [view] at h
  split at h
  · split at h
    · rename_i c' _ _
      cases hc : connectiveFromWire c' with
      | error e =>
        rw [hc] at h
        cases h
      | ok connective =>
        cases hn : childNodes (prop fields "children") with
        | error e =>
          rw [hc,hn] at h
          cases h
        | ok xs =>
          rw [hc,hn] at h
          cases h
          exact childNodes_lt hn
    · exact hand h
  · exact hand h

mutual

def fromWire : Json → Except DecodeError Predicate
  | .obj fields =>
    match _h : view fields with
    | .error e => .error e
    | .ok (.leaf l) => .ok (.leaf l)
    | .ok (.group c nodes) =>
      match fromWires nodes with
      | .error e => .error e
      | .ok children =>
        if c=.not∧children.length≠1 then .error (.notArity children.length)
        else .ok (.group c children)
  | _ => .error .notObject
termination_by raw => sizeOf raw
decreasing_by exact view_lt _h

def fromWires : List Json → Except DecodeError (List Predicate)
  | [] => .ok []
  | x::xs => do return (← fromWire x)::(← fromWires xs)
termination_by xs => sizeOf xs

end

/-! What a filter is. -/

mutual

def isValid : Predicate → Bool
  | .leaf l => l.attr≠""
  | .group c children => !(c=.not&&children.length≠1)&&allValid children

def allValid : List Predicate → Bool
  | [] => true
  | p::ps => isValid p&&allValid ps

end

variable (sat : Leaf → Prop)

mutual

/-- What a filter says of a card, whose leaves say sat. -/
def Means : Predicate → Prop
  | .leaf l => sat l
  | .group .and children => MeansAll children
  | .group .or children => MeansAny children
  | .group .not children => ¬MeansAll children

def MeansAll : List Predicate → Prop
  | [] => True
  | p::ps => Means p∧MeansAll ps

def MeansAny : List Predicate → Prop
  | [] => False
  | p::ps => Means p∨MeansAny ps

end

/-! The filter bar's slots: the children of the top-level conjunction. -/

/-- The children of `rootView`. -/
def rootChildren : Option Predicate → List Predicate
  | none => []
  | some (.leaf l) => [.leaf l]
  | some (.group .and children) => children
  | some p => [p]

def fromRootChildren : List Predicate → Option Predicate
  | [] => none
  | [p] => some p
  | children => some (.group .and children)

/-- A leaf of the attribute that isn't its phase slot. -/
def ownLeaf (attr : String) : Predicate → Bool
  | .leaf l => l.attr=attr&&l.op≠.hasPhase
  | .group _ _ => false

def firstLeaf (attr : String) : List Predicate → Option Leaf
  | [] => none
  | .leaf l::ps => if ownLeaf attr (.leaf l) then some l else firstLeaf attr ps
  | .group _ _::ps => firstLeaf attr ps

def topLevelLeafForAttr (p : Option Predicate) (attr : String) : Option Leaf :=
  match p with
  | none => none
  | some (.leaf l) => if ownLeaf attr (.leaf l) then some l else none
  | some (.group .and children) => firstLeaf attr children
  | some _ => none

def upsertTopLevelLeaf (p : Option Predicate) (newLeaf : Leaf) : Option Predicate :=
  fromRootChildren (((rootChildren p).filter fun c => !ownLeaf newLeaf.attr c)++[.leaf newLeaf])

def removeTopLevelLeaf (p : Option Predicate) (attr : String) : Option Predicate :=
  fromRootChildren ((rootChildren p).filter fun c => !ownLeaf attr c)

/-- The leaf of the attribute's phase slot. -/
def phaseLeaf (attr : String) : Predicate → Bool
  | .leaf l => l.attr=attr&&l.op=.hasPhase
  | .group _ _ => false

def phases : List String := ["triage","active","terminal"]

def isPhase : Json → Bool
  | .str s => phases.contains s
  | _ => false

def firstPhases (attr : String) : List Predicate → List Json
  | [] => []
  | .leaf l::ps =>
    if phaseLeaf attr (.leaf l) then (l.values.getD []).filter isPhase else firstPhases attr ps
  | .group _ _::ps => firstPhases attr ps

def topLevelPhases (p : Option Predicate) (attr : String) : List Json :=
  firstPhases attr (rootChildren p)

def withTopLevelPhases (p : Option Predicate) (chosen : List String) (attr : String) :
    Option Predicate :=
  fromRootChildren (((rootChildren p).filter fun c => !phaseLeaf attr c)++
    if chosen=[] then [] else [.leaf (leaf attr .hasPhase (chosen.map Json.str))])

end Kitp.Filters
