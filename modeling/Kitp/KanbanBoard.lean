import Mathlib.Algebra.Order.Ring.Rat
import Mathlib.Logic.Function.Basic

/-! The Kanban board: cards in columns by a key, and the writes of a drop. Ids are integers, a card's
attributes what reading them gives. -/
namespace Kitp.KanbanBoard

/-- A JavaScript number; the finite ones are rational. -/
inductive Number where
  | finite (q : ℚ)
  | infinite (negative : Bool)
  | nan

/-- A value an attribute can hold; of any other object only its text is read. -/
inductive Value where
  | undefined
  | null
  | text (text : String)
  | bigint (n : Int)
  | number (x : Number)
  | boolean (b : Bool)
  | object (text : String)

structure CardWithAttrs where
  id : Int
  attributes : String → Value

def UNSET_KEY : String := "__unset__"
def SORT_ORDER_STEP : ℚ := 100

section keys
variable (shown : ℚ → String)

/-- `String(v)` of a number, `shown` being the text of a finite one. -/
def numberText : Number → String
  | .finite q => shown q
  | .infinite negative => if negative then "-Infinity" else "Infinity"
  | .nan => "NaN"

def bucketKeyOf : Value → String
  | .undefined => UNSET_KEY
  | .null => UNSET_KEY
  | .text text => if text="" then UNSET_KEY else text
  | .bigint n => toString n
  | .number x => numberText shown x
  | .boolean b => if b then "true" else "false"
  | .object text => text

/-- The key of an ordinary axis. -/
def keyer (attr : String) (c : CardWithAttrs) : String := bucketKeyOf shown (c.attributes attr)

end keys

/-- What `{}` answers to without having it itself. -/
def inherited : List String :=
  ["constructor","__proto__","toString","toLocaleString","valueOf","hasOwnProperty","isPrototypeOf",
    "propertyIsEnumerable","__defineGetter__","__defineSetter__","__lookupGetter__",
    "__lookupSetter__"]

/-- An object's own properties, the first set first. -/
abbrev Buckets := List (String×List CardWithAttrs)

/-- One card: what isn't `undefined` and isn't a bucket has no `push`. -/
def addCard (keyOf : CardWithAttrs → String) (out : Buckets) (c : CardWithAttrs) :
    Except String Buckets :=
  let k := keyOf c
  match out.lookup k with
  | some _ => .ok (out.map fun e => if e.1=k then (k,e.2++[c]) else e)
  | none =>
    if k∈inherited then .error "TypeError: bucket.push is not a function" else .ok (out++[(k,[c])])

def bucketByKey (cards : List CardWithAttrs) (keyOf : CardWithAttrs → String) :
    Except String Buckets :=
  cards.foldlM (addCard keyOf) []

/-- An array index, which `Object.keys` puts first. -/
def arrayIndex (key : String) : Option Nat :=
  key.toNat?.filter fun n => n < 2^32-1∧toString n=key

def objectKeys (out : Buckets) : List String :=
  let keys := out.map Prod.fst
  (keys.filter fun k => (arrayIndex k).isSome).mergeSort
      (fun a b => (arrayIndex a).getD 0≤(arrayIndex b).getD 0)++
    keys.filter fun k => (arrayIndex k).isNone

def addKey (out : List String) (k : String) : List String := if k∈out then out else out++[k]

def columnOrder (valueCardIds : List Int) (seenKeys : List String) : List String :=
  let out := valueCardIds.foldl (fun out id => addKey out (toString id)) []
  let out := seenKeys.foldl (fun out k => if k=UNSET_KEY then out else addKey out k) out
  out++[UNSET_KEY]

def sortOrderOf (c : CardWithAttrs) : Option ℚ :=
  match c.attributes "sort_order" with
  | .number (.finite q) => some q
  | _ => none

def compareIds (a b : CardWithAttrs) : ℚ := if a.id < b.id then -1 else if b.id < a.id then 1 else 0

/-- `sortByOrder`'s comparator, of which a sort sees the sign. -/
def compareCards (a b : CardWithAttrs) : ℚ :=
  match sortOrderOf a,sortOrderOf b with
  | some sa,some sb => if sa-sb≠0 then sa-sb else compareIds a b
  | none,none => compareIds a b
  | none,some _ => 1
  | some _,none => -1

def sortByOrder (cards : List CardWithAttrs) : List CardWithAttrs :=
  cards.mergeSort fun a b => compareCards a b≤0

/-- The columns in order, each with its cards sorted. -/
def board (valueCardIds : List Int) (keyOf : CardWithAttrs → String) (cards : List CardWithAttrs) :
    Except String (List (String×List CardWithAttrs)) :=
  (bucketByKey cards keyOf).map fun buckets =>
    (columnOrder valueCardIds (objectKeys buckets)).map fun key =>
      (key,sortByOrder ((buckets.lookup key).getD []))

def bucketColumn (keyOf : CardWithAttrs → String) (cards : List CardWithAttrs) (columnKey : String) :
    List CardWithAttrs :=
  sortByOrder (cards.filter fun t => keyOf t=columnKey)

structure SortUpdate where
  cardId : Int
  sortOrder : ℚ

/-- A slot within a stack of `length` cards. -/
def targetSlot (slot : Int) (length : Nat) : Nat :=
  if slot < 0 then 0 else if slot > length then length else slot.toNat

def finalOrder (destStack : List CardWithAttrs) (movedCard : CardWithAttrs) (slot : Int) :
    List CardWithAttrs :=
  let target := targetSlot slot destStack.length
  destStack.take target++movedCard::destStack.drop target

def planSortRewrite (destStack : List CardWithAttrs) (movedCard : CardWithAttrs) (slot : Int) :
    List SortUpdate :=
  (finalOrder destStack movedCard slot).zipIdx.filterMap fun (card,i) =>
    let desired : ℚ := (i+1)*SORT_ORDER_STEP
    if sortOrderOf card≠some desired then some ⟨card.id,desired⟩ else none

structure UpdateOp where
  cardId : Int
  attributeName : String
  value : Value

def columnKeyOf : Option Int → String
  | none => UNSET_KEY
  | some id => toString id

def computeMoveBatch (shown : ℚ → String) (card : CardWithAttrs)
    (targetColumnAttrValue : Option Int) (sortUpdates : List SortUpdate) (columnAttrName : String) :
    List UpdateOp :=
  let ops := sortUpdates.map fun u => ⟨u.cardId,"sort_order",.number (.finite u.sortOrder)⟩
  if bucketKeyOf shown (card.attributes columnAttrName)≠columnKeyOf targetColumnAttrValue then
    ops++[⟨card.id,columnAttrName,
      match targetColumnAttrValue with
      | none => .null
      | some id => .bigint id⟩]
  else ops

/-- `attribute.update`. -/
def UpdateOp.set (op : UpdateOp) (c : CardWithAttrs) : CardWithAttrs :=
  if c.id=op.cardId then
    { c with attributes := Function.update c.attributes op.attributeName op.value }
  else c

def applyOps (ops : List UpdateOp) (cards : List CardWithAttrs) : List CardWithAttrs :=
  ops.foldl (fun cards op => cards.map op.set) cards

/-- The cards after `card` is dropped into a slot of a column. -/
def drop (shown : ℚ → String) (attr : String) (cards : List CardWithAttrs) (card : CardWithAttrs)
    (targetColumnAttrValue : Option Int) (slot : Int) : List CardWithAttrs :=
  let column := bucketColumn (keyer shown attr) cards (columnKeyOf targetColumnAttrValue)
  let destStack := column.filter fun c => c.id≠card.id
  applyOps (computeMoveBatch shown card targetColumnAttrValue
    (planSortRewrite destStack card slot) attr) cards

end Kitp.KanbanBoard
