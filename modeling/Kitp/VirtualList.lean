import Mathlib.Data.Rat.Floor

/-! `core/virtual-list`: a long list in a pool of rows that swap their content. Pixels are exact. -/
namespace Kitp.VirtualList

structure WindowInput where
  scrollTop : ℚ
  viewportHeight : ℚ
  rowHeight : ℚ
  total : Nat
  overscan : Nat

structure WindowResult where
  firstIndex : ℤ
  renderCount : ℤ
  offsetTop : ℚ
  spacerHeight : ℚ
  deriving DecidableEq

def WindowInput.clampedScroll (input : WindowInput) : ℚ :=
  let maxScroll := max 0 (input.total*input.rowHeight-input.viewportHeight)
  min (max input.scrollTop 0) maxScroll

def computeWindow (input : WindowInput) : WindowResult :=
  if input.rowHeight≤0∨input.total=0 then ⟨0,0,0,0⟩
  else
    let rawFirst := ⌊input.clampedScroll/input.rowHeight⌋-input.overscan
    let firstIndex := max 0 (min rawFirst (input.total-1))
    let visibleRows := ⌈input.viewportHeight/input.rowHeight⌉
    let want := visibleRows+input.overscan*2
    let renderCount := max 0 (min want (input.total-firstIndex))
    ⟨firstIndex,renderCount,firstIndex*input.rowHeight,input.total*input.rowHeight⟩

def poolSize (viewportHeight rowHeight : ℚ) (overscan : Nat) : ℤ :=
  if rowHeight≤0 then 0 else ⌈viewportHeight/rowHeight⌉+overscan*2+1

def DEFAULT_OVERSCAN : Nat := 4

structure Options (α : Type) where
  rowHeight : ℚ
  key : Option (α → ℤ → String)
  overscan : Option Nat

def Options.rows {α : Type} (o : Options α) : Nat := o.overscan.getD DEFAULT_OVERSCAN

/-- The scroll viewport, as a render reads it. -/
structure Container where
  scrollTop : ℚ
  clientHeight : ℚ
  nonneg : 0 ≤ clientHeight

/-- A pooled row. `shown` is the item and the index `update` was last called with. -/
structure Slot (α : Type) where
  visible : Bool
  transform : ℚ
  index : ℤ
  key : Option String
  shown : Option (α×ℤ)
  deriving DecidableEq

/-- `items` is `currentItems`; the content layer is translated by `offsetTop`. -/
structure State (α : Type) where
  items : List α
  pool : List (Slot α)
  spacerHeight : ℚ
  offsetTop : ℚ
  deriving DecidableEq

variable {α : Type} (o : Options α) (view : Container) (s : State α)

def makeSlot : Slot α := ⟨false,0,-1,none,none⟩

def ensurePool (pool : List (Slot α)) (n : ℤ) : List (Slot α) :=
  pool++List.replicate (n.toNat-pool.length) makeSlot

def parkSlot (slot : Slot α) : Slot α :=
  if slot.visible=false∧slot.index=-1 then slot
  else { slot with visible := false, index := -1, key := none }

/-- Slot `i` gets the item of `index`; the update is skipped when its key is there already. -/
def fillSlot (slot : Slot α) (i index : ℤ) (item : α) : Slot α :=
  let k := o.key.map fun key => key item index
  let slot := { slot with transform := i*o.rowHeight, visible := true }
  if slot.index=index∧k≠none∧slot.key=k then slot
  else { slot with shown := some (item,index), index := index, key := k }

def windowInput (items : List α) : WindowInput :=
  ⟨view.scrollTop,view.clientHeight,o.rowHeight,items.length,o.rows⟩

/-- `rerender`. A slot of the window has an item: the window ends with the list. -/
def render : State α :=
  let win := computeWindow (windowInput o view s.items)
  { s with
    spacerHeight := win.spacerHeight
    offsetTop := win.offsetTop
    pool := (ensurePool s.pool win.renderCount).mapIdx fun i slot =>
      if win.renderCount ≤ i then parkSlot slot
      else
        match s.items[(win.firstIndex+i).toNat]? with
        | none => slot
        | some item => fillSlot o slot i (win.firstIndex+i) item }

/-- Each event finds the viewport as it is then. -/
inductive Event (α : Type) where
  | data (items : List α) (view : Container)
  | scroll (view : Container)
  | resize (view : Container)

def Event.container : Event α → Container
  | .data _ view => view
  | .scroll view => view
  | .resize view => view

def step : Event α → Option (State α)
  | .data items view => some (render o view { s with items := items })
  | .scroll view => some (render o view s)
  | .resize view => some (render o view
      { s with pool := ensurePool s.pool (poolSize view.clientHeight o.rowHeight o.rows) })

/-- Before the effect first runs; a list is made by `data` and `resize`. -/
def empty : State α := ⟨[],[],0,0⟩

end Kitp.VirtualList
