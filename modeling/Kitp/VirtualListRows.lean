import Kitp.Lib.Runs
import Kitp.VirtualList
import Mathlib.Tactic.Linarith

/-! Which rows a render of the list shows, and with what. -/
namespace Kitp.VirtualList

open Kitp.Runs

variable {α : Type} {o : Options α} {view : Container} {s t : State α} {input : WindowInput}
  {i : Nat} {item : α} {slot : Slot α}

/-- The row has a part inside the viewport. -/
def WindowInput.Intersects (input : WindowInput) (i : Nat) : Prop :=
  max (i*input.rowHeight) input.clampedScroll<
    min ((i+1)*input.rowHeight) (input.clampedScroll+input.viewportHeight)

/-- The row at the viewport's top edge. -/
def WindowInput.top (input : WindowInput) : ℤ := ⌊input.clampedScroll/input.rowHeight⌋

/-- The row below the viewport's bottom edge. -/
def WindowInput.bottom (input : WindowInput) : ℤ :=
  ⌈(input.clampedScroll+input.viewportHeight)/input.rowHeight⌉

def WindowInput.visibleRows (input : WindowInput) : ℤ := ⌈input.viewportHeight/input.rowHeight⌉

theorem clampedScroll_nonneg (input : WindowInput) : 0 ≤ input.clampedScroll :=
  le_min (le_max_right _ _) (le_max_left _ _)

theorem top_nonneg (h : 0 < input.rowHeight) : 0 ≤ input.top :=
  Int.floor_nonneg.mpr (div_nonneg (clampedScroll_nonneg input) h.le)

theorem visibleRows_nonneg (h : 0 < input.rowHeight) (hv : 0 ≤ input.viewportHeight) :
    0 ≤ input.visibleRows :=
  Int.ceil_nonneg (div_nonneg hv h.le)

theorem intersects_iff (h : 0 < input.rowHeight) :
    input.Intersects i ↔ 0 < input.viewportHeight∧input.top ≤ i∧(i : ℤ) < input.bottom := by
  have htop : input.top ≤ i ↔ input.clampedScroll<(i+1)*input.rowHeight := by
    rw [← Int.lt_add_one_iff,WindowInput.top,Int.floor_lt,div_lt_iff₀ h]
    push_cast
    rfl
  have hbottom : (i : ℤ) < input.bottom ↔
      i*input.rowHeight < input.clampedScroll+input.viewportHeight := by
    rw [WindowInput.bottom,Int.lt_ceil,lt_div_iff₀ h]
    push_cast
    rfl
  rw [WindowInput.Intersects,max_lt_iff,lt_min_iff,lt_min_iff,htop,hbottom]
  constructor
  · rintro ⟨⟨-,hb⟩,ht,hpos⟩
    exact ⟨by linarith,ht,hb⟩
  · rintro ⟨hpos,ht,hb⟩
    exact ⟨⟨by linarith,hb⟩,ht,by linarith⟩

theorem top_lt_total (h : 0 < input.rowHeight) (hv : 0 < input.viewportHeight)
    (hn : 0 < input.total) : input.top < input.total := by
  have hn' : (0 : ℚ) < input.total := Nat.cast_pos.mpr hn
  have hend : input.clampedScroll < input.total*input.rowHeight := by
    have hmax := min_le_right (max input.scrollTop 0)
      (max 0 (input.total*input.rowHeight-input.viewportHeight))
    have hlist : 0 < input.total*input.rowHeight := mul_pos hn' h
    refine lt_of_le_of_lt hmax (max_lt hlist ?_)
    linarith
  rw [WindowInput.top,Int.floor_lt,div_lt_iff₀ h]
  exact_mod_cast hend

theorem bottom_le (input : WindowInput) :
    input.bottom ≤ input.top+input.visibleRows+1 := by
  have htop := Int.lt_floor_add_one (input.clampedScroll/input.rowHeight)
  have hrows := Int.le_ceil (input.viewportHeight/input.rowHeight)
  rw [WindowInput.bottom,Int.ceil_le,add_div]
  push_cast [WindowInput.top,WindowInput.visibleRows]
  linarith

/-- The first row of the window and their number, when there is something to show. -/
theorem computeWindow_eq (h : 0 < input.rowHeight) (hn : 0 < input.total) :
    computeWindow input=
      ⟨max 0 (min (input.top-input.overscan) (input.total-1)),
        max 0 (min (input.visibleRows+input.overscan*2)
          (input.total-max 0 (min (input.top-input.overscan) (input.total-1)))),
        (max 0 (min (input.top-input.overscan) (input.total-1)) : ℤ)*input.rowHeight,
        input.total*input.rowHeight⟩ := by
  unfold computeWindow
  rw [if_neg]
  · rfl
  · rintro (hneg | hzero)
    · exact absurd hneg (not_le.mpr h)
    · exact absurd hzero (Nat.ne_of_gt hn)

theorem firstIndex_nonneg (input : WindowInput) : 0≤(computeWindow input).firstIndex := by
  unfold computeWindow
  split
  · exact le_refl _
  · exact le_max_left _ _

theorem renderCount_nonneg (input : WindowInput) : 0≤(computeWindow input).renderCount := by
  unfold computeWindow
  split
  · exact le_refl _
  · exact le_max_left _ _

/-- A window ends with the list. -/
theorem window_in_list (input : WindowInput) (hpos : 0<(computeWindow input).renderCount) :
    (computeWindow input).firstIndex+(computeWindow input).renderCount ≤ input.total := by
  unfold computeWindow at hpos ⊢
  split at hpos
  · exact absurd hpos (lt_irrefl _)
  · rename_i hdeg
    rw [if_neg hdeg]
    dsimp only at hpos ⊢
    omega

theorem window_in_pool (input : WindowInput) (h : 0 < input.rowHeight) (hv : 0 ≤ input.viewportHeight) :
    (computeWindow input).renderCount≤
      poolSize input.viewportHeight input.rowHeight input.overscan := by
  have hrows := visibleRows_nonneg h hv
  have hpool : poolSize input.viewportHeight input.rowHeight input.overscan=
      input.visibleRows+input.overscan*2+1 := if_neg (not_le.mpr h)
  rw [hpool]
  unfold computeWindow
  split
  · dsimp only
    omega
  · show max 0 (min (input.visibleRows+input.overscan*2) _)≤_
    omega

/-- With a row more on each side, or when the viewport doesn't cut one row more than it has room
for, the window covers it. -/
def Covers (input : WindowInput) : Prop :=
  0 < input.overscan∨input.viewportHeight=0∨input.bottom ≤ input.top+input.visibleRows∨
    input.total ≤ input.top+input.visibleRows

theorem window_covers (input : WindowInput) (h : 0 < input.rowHeight) (hv : 0 ≤ input.viewportHeight) :
    (∀ i < input.total, input.Intersects i → (computeWindow input).firstIndex ≤ i∧
      (i : ℤ)<(computeWindow input).firstIndex+(computeWindow input).renderCount) ↔
      Covers input := by
  have htop := top_nonneg h
  have hrows := visibleRows_nonneg h hv
  have hbottom := bottom_le input
  constructor
  · intro hall
    by_contra hnot
    simp only [Covers,not_or,not_le] at hnot
    obtain ⟨hover,hview,hcut,hlist⟩ := hnot
    have hpos : 0 < input.viewportHeight := lt_of_le_of_ne hv (Ne.symm hview)
    obtain ⟨i,hi⟩ := Int.eq_ofNat_of_zero_le (add_nonneg htop hrows)
    have hlt : i < input.total := by omega
    have hmeets : input.Intersects i := (intersects_iff h).mpr ⟨hpos,by omega,by omega⟩
    have hshown := (hall i hlt hmeets).2
    have hfirst := top_lt_total h hpos (by omega)
    rw [computeWindow_eq h (by omega)] at hshown
    dsimp only at hshown
    omega
  · intro hcovers i hi hmeets
    obtain ⟨hpos,hge,hlt⟩ := (intersects_iff h).mp hmeets
    have hfirst := top_lt_total h hpos (by omega)
    rw [computeWindow_eq h (by omega)]
    dsimp only
    have hless : input.bottom ≤ input.top+input.visibleRows+input.overscan∨
        input.total ≤ input.top+input.visibleRows := by
      rcases hcovers with hover | hzero | hcut | hlist
      · exact Or.inl (by omega)
      · exact absurd hzero (ne_of_gt hpos)
      · exact Or.inl (by omega)
      · exact Or.inr hlist
    omega

/-- A slot before it is filled. -/
def State.slotAt (s : State α) (j : Nat) : Slot α := (s.pool[j]?).getD makeSlot

theorem ensurePool_get {pool : List (Slot α)} {n : ℤ} {j : Nat}
    (h : (ensurePool pool n)[j]?=some slot) : (pool[j]?).getD makeSlot=slot := by
  unfold ensurePool at h
  by_cases hj : j < pool.length
  · rw [List.getElem?_append_left hj] at h
    rw [h,Option.getD_some]
  · rw [List.getElem?_append_right (not_lt.mp hj),List.getElem?_replicate] at h
    rw [List.getElem?_eq_none (not_lt.mp hj),Option.getD_none]
    split at h
    · exact Option.some.inj h
    · cases h

theorem ensurePool_length {pool : List (Slot α)} {n : ℤ} {j : Nat} (h : (j : ℤ)<n) :
    j < (ensurePool pool n).length := by
  unfold ensurePool
  rw [List.length_append,List.length_replicate]
  omega

theorem parkSlot_hidden (slot : Slot α) :
    (parkSlot slot).visible=false∧(parkSlot slot).index=-1 := by
  unfold parkSlot
  split
  · assumption
  · exact ⟨rfl,rfl⟩

/-- What a slot shows once it is filled: its own item, or what its key says is the same. -/
theorem fillSlot_spec (o : Options α) (slot : Slot α) (i index : ℤ) (item : α) :
    (fillSlot o slot i index item).visible=true∧
      (fillSlot o slot i index item).index=index∧
      (fillSlot o slot i index item).transform=i*o.rowHeight∧
      (fillSlot o slot i index item).key=o.key.map (fun key => key item index)∧
      ((fillSlot o slot i index item).shown=some (item,index)∨
        slot.index=index∧slot.key≠none∧slot.key=o.key.map (fun key => key item index)∧
          (fillSlot o slot i index item).shown=slot.shown) := by
  unfold fillSlot
  dsimp only
  split
  · rename_i hkept
    obtain ⟨hindex,hsome,hkey⟩ := hkept
    exact ⟨rfl,hindex,rfl,hkey,Or.inr ⟨hindex,hkey ▸ hsome,hkey,rfl⟩⟩
  · exact ⟨rfl,rfl,rfl,rfl,Or.inl rfl⟩

def State.win (o : Options α) (view : Container) (s : State α) : WindowResult :=
  computeWindow (windowInput o view s.items)

/-- A slot after a render is filled with its row's item, or hidden. -/
theorem render_get {j : Nat} (h : (render o view s).pool[j]?=some slot) :
    ((j : ℤ)<(s.win o view).renderCount∧∃ item,
      s.items[((s.win o view).firstIndex+j).toNat]?=some item∧
      slot=fillSlot o (s.slotAt j) j ((s.win o view).firstIndex+j) item)∨
    (s.win o view).renderCount≤j∧slot=parkSlot (s.slotAt j) := by
  have h : ((ensurePool s.pool (s.win o view).renderCount).mapIdx _)[j]?=some slot := h
  rw [List.getElem?_mapIdx] at h
  obtain ⟨old,hold,hslot⟩ := Option.map_eq_some_iff.mp h
  have hslot' : s.slotAt j=old := ensurePool_get hold
  have hwin : computeWindow (windowInput o view s.items)=s.win o view := rfl
  rw [hwin] at hslot
  rw [hslot']
  by_cases hj : (s.win o view).renderCount≤j
  · rw [if_pos hj] at hslot
    exact Or.inr ⟨hj,hslot.symm⟩
  · rw [if_neg hj] at hslot
    have hfirst : 0≤(s.win o view).firstIndex := firstIndex_nonneg _
    have hend : (s.win o view).firstIndex+(s.win o view).renderCount ≤ s.items.length :=
      window_in_list (windowInput o view s.items)
        (lt_of_le_of_lt (Int.natCast_nonneg j) (not_le.mp hj))
    have hlt : ((s.win o view).firstIndex+j).toNat < s.items.length := by omega
    rw [List.getElem?_eq_getElem hlt] at hslot ⊢
    exact Or.inl ⟨not_le.mp hj,_,rfl,hslot.symm⟩

/-- Each slot of the window is there after a render. -/
theorem render_exists {j : Nat} (h : (j : ℤ)<(s.win o view).renderCount) :
    ∃ slot, (render o view s).pool[j]?=some slot := by
  have hlen : j < (render o view s).pool.length := by
    show j < (List.mapIdx _ (ensurePool s.pool (s.win o view).renderCount)).length
    rw [List.length_mapIdx]
    exact ensurePool_length h
  exact ⟨_,List.getElem?_eq_getElem hlen⟩

/-- The row is shown by one visible slot, at its own offset with its own item. -/
def ShowsRow (o : Options α) (t : State α) (i : Nat) (item : α) : Prop :=
  ∃ (j : Nat) (slot : Slot α), t.pool[j]?=some slot∧slot.visible=true∧slot.index=i∧
    t.offsetTop+slot.transform=i*o.rowHeight∧slot.shown=some (item,(i : ℤ))∧
    ∀ (j' : Nat) (slot' : Slot α), t.pool[j']?=some slot' → slot'.visible=true →
      slot'.index=i → j'=j

/-- What a list shows: the rows in the viewport, none outside the list, and no more than its pool
may hold. -/
structure Shown (o : Options α) (view : Container) (t : State α) : Prop where
  rows : ∀ (i : Nat) item, t.items[i]?=some item →
    (windowInput o view t.items).Intersects i → ShowsRow o t i item
  inside : ∀ slot∈t.pool, slot.visible=true → 0 ≤ slot.index∧slot.index < t.items.length
  count : (t.pool.countP (·.visible) : ℤ)≤poolSize view.clientHeight o.rowHeight o.rows

/-- A row in the viewport would keep, by its key, what its slot shows of another item. -/
def Stale (o : Options α) (view : Container) (s : State α) : Prop :=
  ∃ (i j : Nat) (item : α), s.items[i]?=some item∧
    (windowInput o view s.items).Intersects i∧
    (j : ℤ)=i-max 0 ((windowInput o view s.items).top-o.rows)∧
    (s.slotAt j).index=i∧(s.slotAt j).key≠none∧(s.slotAt j).key=o.key.map (fun key => key item i)∧
    (s.slotAt j).shown≠some (item,(i : ℤ))

theorem fillSlot_kept {j index : ℤ} (hindex : slot.index=index) (hsome : slot.key≠none)
    (hkey : slot.key=o.key.map fun key => key item index) :
    (fillSlot o slot j index item).shown=slot.shown := by
  unfold fillSlot
  dsimp only
  rw [if_pos ⟨hindex,hkey ▸ hsome,hkey⟩]

theorem offsetTop_eq (input : WindowInput) :
    (computeWindow input).offsetTop=(computeWindow input).firstIndex*input.rowHeight := by
  unfold computeWindow
  split
  · rw [Int.cast_zero,zero_mul]
  · rfl

theorem countP_le {p : Slot α → Bool} {n : Nat} {pool : List (Slot α)}
    (h : ∀ (j : Nat) slot, pool[j]?=some slot → p slot=true → j < n) : pool.countP p≤n := by
  have hrest : (pool.drop n).countP p=0 := by
    rw [List.countP_eq_zero]
    intro slot hslot hp
    obtain ⟨j,hj⟩ := List.mem_iff_getElem?.mp hslot
    rw [List.getElem?_drop] at hj
    exact absurd (h _ _ hj hp) (Nat.not_lt.mpr (Nat.le_add_right n j))
  have hfirst : (pool.take n).countP p≤n :=
    List.countP_le_length.trans (List.length_take_le n pool)
  rw [← List.take_append_drop n pool,List.countP_append]
  omega

/-- A visible slot is in the window, with the item of its row. -/
theorem render_visible {j : Nat} (h : (render o view s).pool[j]?=some slot)
    (hv : slot.visible=true) : (j : ℤ)<(s.win o view).renderCount∧
      slot.index=(s.win o view).firstIndex+j∧∃ item,
        s.items[((s.win o view).firstIndex+j).toNat]?=some item∧
        slot=fillSlot o (s.slotAt j) j ((s.win o view).firstIndex+j) item := by
  rcases render_get h with ⟨hj,item,hitem,hslot⟩ | ⟨-,hslot⟩
  · refine ⟨hj,?_,item,hitem,hslot⟩
    rw [hslot]
    exact (fillSlot_spec o _ _ _ _).2.1
  · rw [hslot,(parkSlot_hidden _).1] at hv
    cases hv

/-- The window begins at the viewport's first row, less the overscan. -/
theorem firstIndex_eq (h : 0 < input.rowHeight) (hi : i < input.total)
    (hmeets : input.Intersects i) :
    (computeWindow input).firstIndex=max 0 (input.top-input.overscan) := by
  obtain ⟨hpos,-,-⟩ := (intersects_iff h).mp hmeets
  have htop := top_lt_total h hpos (by omega)
  rw [computeWindow_eq h (by omega)]
  dsimp only
  omega

/-- A render shows what it should exactly when its window covers the viewport and no key hides a
changed item. -/
theorem render_shown_iff (h : 0<o.rowHeight) :
    Shown o view (render o view s) ↔ Covers (windowInput o view s.items)∧¬Stale o view s := by
  have hcover := window_covers (windowInput o view s.items) h view.nonneg
  constructor
  · intro hshown
    constructor
    · refine hcover.mp ?_
      intro i hi hmeets
      obtain ⟨j,slot,hslot,hv,hindex,-⟩ :=
        hshown.rows i _ (List.getElem?_eq_getElem hi) hmeets
      obtain ⟨hj,hsame,-⟩ := render_visible hslot hv
      have hfirst : (computeWindow (windowInput o view s.items)).firstIndex+j=i :=
        hsame.symm.trans hindex
      have hcount : (j : ℤ)<(computeWindow (windowInput o view s.items)).renderCount := hj
      omega
    · rintro ⟨i,j,item,hitem,hmeets,hj,hkept,hsome,hkey,hother⟩
      have hi : i < s.items.length := (List.getElem?_eq_some_iff.mp hitem).1
      obtain ⟨j',slot,hslot,hv,hindex,-,hown,-⟩ := hshown.rows i item hitem hmeets
      obtain ⟨-,hsame,item',hitem',hfill⟩ := render_visible hslot hv
      have hfirst := firstIndex_eq h hi hmeets
      have hrow : (s.win o view).firstIndex+j'=i := hsame.symm.trans hindex
      have hpos : j'=j := by
        have hwin : (s.win o view).firstIndex=max 0 ((windowInput o view s.items).top-o.rows) :=
          hfirst
        omega
      rw [hrow,Int.toNat_natCast,hitem] at hitem'
      rw [hfill,hrow,hpos,← Option.some.inj hitem',fillSlot_kept hkept hsome hkey] at hown
      exact hother hown
  · rintro ⟨hcovers,hfresh⟩
    refine ⟨?_,?_,?_⟩
    · intro i item hitem hmeets
      have hi : i < s.items.length := (List.getElem?_eq_some_iff.mp hitem).1
      obtain ⟨hge,hlt⟩ := hcover.mpr hcovers i hi hmeets
      have hwin : s.win o view=computeWindow (windowInput o view s.items) := rfl
      rw [← hwin] at hge hlt
      have hnonneg : 0≤(s.win o view).firstIndex := firstIndex_nonneg _
      obtain ⟨j,hj⟩ := Int.eq_ofNat_of_zero_le (Int.sub_nonneg_of_le hge)
      have hrow : (s.win o view).firstIndex+j=i := by omega
      have hcount : (j : ℤ)<(s.win o view).renderCount := by omega
      obtain ⟨slot,hslot⟩ := render_exists hcount
      rcases render_get hslot with ⟨-,item',hitem',hfill⟩ | ⟨hout,-⟩
      · rw [hrow,Int.toNat_natCast] at hitem'
        rw [hrow,Option.some.inj (hitem'.symm.trans hitem)] at hfill
        obtain ⟨hv,hindex,hoffset,-,hcontent⟩ := fillSlot_spec o (s.slotAt j) j i item
        refine ⟨j,slot,hslot,hfill ▸ hv,hfill ▸ hindex,?_,?_,?_⟩
        · have htop : (render o view s).offsetTop=(s.win o view).firstIndex*o.rowHeight :=
            offsetTop_eq _
          have hsum : ((s.win o view).firstIndex : ℚ)+j=i := by exact_mod_cast hrow
          rw [htop,hfill,hoffset,← hsum,add_mul]
          rfl
        · rw [hfill]
          rcases hcontent with hown | ⟨hkept,hsome,hkey,hshown⟩
          · exact hown
          · by_contra hother
            rw [hshown] at hother
            have hfirst : (s.win o view).firstIndex=
                max 0 ((windowInput o view s.items).top-o.rows) := firstIndex_eq h hi hmeets
            exact hfresh ⟨i,j,item,hitem,hmeets,by omega,hkept,hsome,hkey,hother⟩
        · intro j' slot' hslot' hv' hindex'
          obtain ⟨-,hsame,-⟩ := render_visible hslot' hv'
          omega
      · exact absurd hcount (not_lt.mpr hout)
    · intro slot hslot hv
      obtain ⟨j,hj⟩ := List.mem_iff_getElem?.mp hslot
      obtain ⟨hlt,hindex,-⟩ := render_visible hj hv
      have hnonneg : 0≤(s.win o view).firstIndex := firstIndex_nonneg _
      have hend : (s.win o view).firstIndex+(s.win o view).renderCount ≤ s.items.length :=
        window_in_list (windowInput o view s.items)
          (lt_of_le_of_lt (Int.natCast_nonneg j) hlt)
      have hlen : (render o view s).items.length=s.items.length := rfl
      omega
    · have hcount : (render o view s).pool.countP (·.visible)≤(s.win o view).renderCount.toNat := by
        refine countP_le ?_
        intro j slot hslot hv
        have hlt := (render_visible hslot hv).1
        omega
      have hnonneg : 0≤(s.win o view).renderCount := renderCount_nonneg _
      have hpool : (s.win o view).renderCount≤poolSize view.clientHeight o.rowHeight o.rows :=
        window_in_pool (windowInput o view s.items) h view.nonneg
      omega

/-- Rows of 30 pixels, their keys the cards' ids. -/
def listOptions (overscan : Option Nat) : Options (Nat×String) :=
  ⟨30,some fun card _ => toString card.1,overscan⟩

def cards : List (Nat×String) := [(7,"Draft"),(8,"Review"),(9,"Send")]

def halfScrolled : Container := ⟨15,30,by norm_num⟩

/-- The default overscan shows the rows of a half scrolled viewport. -/
theorem render_shown_halfScrolled : Shown (listOptions none) halfScrolled
    (render (listOptions none) halfScrolled { empty with items := cards }) := by
  have hrows : (0 : ℚ)<(listOptions none).rowHeight := show (0 : ℚ)<30 by norm_num
  refine (render_shown_iff hrows).mpr ⟨Or.inl (by decide),?_⟩
  rintro ⟨i,j,item,-,-,-,-,hsome,-⟩
  exact hsome rfl

/-- Without overscan the second row, half of it in the viewport, isn't shown. -/
theorem render_not_shown_halfScrolled : ¬Shown (listOptions (some 0)) halfScrolled
    (render (listOptions (some 0)) halfScrolled { empty with items := cards }) := by
  intro hshown
  have hscroll : (windowInput (listOptions (some 0)) halfScrolled cards).clampedScroll=15 := by
    decide +kernel
  have hmeets : (windowInput (listOptions (some 0)) halfScrolled cards).Intersects 1 := by
    unfold WindowInput.Intersects
    rw [hscroll]
    show max (((1 : Nat) : ℚ)*30) 15 < min ((((1 : Nat) : ℚ)+1)*30) (15+30)
    norm_num
  have hpool : ∀ slot∈(render (listOptions (some 0)) halfScrolled
      { empty with items := cards }).pool, slot.index≠1 := by decide +kernel
  obtain ⟨j,slot,hslot,-,hindex,-⟩ := hshown.rows 1 (8,"Review") rfl hmeets
  exact hpool slot (List.mem_of_getElem? hslot) hindex

/-- What a slot's key says it shows, it shows. -/
def Recorded (o : Options α) (s : State α) : Prop :=
  ∀ slot∈s.pool, slot.key≠none → ∃ item, slot.shown=some (item,slot.index)∧
    slot.key=o.key.map fun key => key item slot.index

theorem Recorded.slotAt (h : Recorded o s) (j : Nat) (hkey : (s.slotAt j).key≠none) :
    ∃ item, (s.slotAt j).shown=some (item,(s.slotAt j).index)∧
      (s.slotAt j).key=o.key.map fun key => key item (s.slotAt j).index := by
  unfold State.slotAt at hkey ⊢
  cases hslot : s.pool[j]? with
  | none =>
    rw [hslot] at hkey
    exact absurd rfl hkey
  | some slot =>
    rw [hslot] at hkey
    exact h slot (List.mem_of_getElem? hslot) hkey

theorem render_recorded (h : Recorded o s) : Recorded o (render o view s) := by
  intro slot hslot hkey
  obtain ⟨j,hj⟩ := List.mem_iff_getElem?.mp hslot
  rcases render_get hj with ⟨-,item,-,hfill⟩ | ⟨-,hpark⟩
  · obtain ⟨-,hindex,-,hown,hcontent⟩ :=
      fillSlot_spec o (s.slotAt j) j ((s.win o view).firstIndex+j) item
    rw [← hfill] at hindex hown hcontent
    rcases hcontent with hnew | ⟨hold,hsome,hsame,hshown⟩
    · exact ⟨item,hindex.symm ▸ hnew,hindex.symm ▸ hown⟩
    · obtain ⟨old,hwas,hwaskey⟩ := h.slotAt j hsome
      rw [hold] at hwas hwaskey
      rw [hindex,hshown]
      exact ⟨old,hwas,hown.trans (hsame.symm.trans hwaskey)⟩
  · rw [hpark] at hkey ⊢
    unfold parkSlot at hkey ⊢
    split at hkey
    · rename_i hhidden
      rw [if_pos hhidden]
      exact h.slotAt j hkey
    · exact absurd rfl hkey

theorem ensurePool_recorded {n : ℤ} (h : Recorded o s) :
    Recorded o { s with pool := ensurePool s.pool n } := by
  intro slot hslot hkey
  cases List.mem_append.mp hslot with
  | inl hold => exact h slot hold hkey
  | inr hnew =>
    rw [List.eq_of_mem_replicate hnew] at hkey
    exact absurd rfl hkey

/-- Items with one key are one item. -/
def Identifies (o : Options α) : Prop :=
  ∀ key, o.key=some key → ∀ a b index, key a index=key b index → a=b

theorem Recorded.not_stale (h : Recorded o s) (hid : Identifies o) : ¬Stale o view s := by
  rintro ⟨i,j,item,-,-,-,hindex,hsome,hkey,hother⟩
  obtain ⟨old,hshown,hold⟩ := h.slotAt j hsome
  rw [hindex] at hshown hold
  cases ho : o.key with
  | none =>
    rw [ho] at hkey
    exact hsome hkey
  | some key =>
    rw [hkey,ho] at hold
    have hsame : item=old := hid key ho item old i (Option.some.inj hold)
    exact hother (hsame ▸ hshown)

theorem step_recorded {ev : Event α} (h : Recorded o s) (hs : step o s ev=some t) :
    Recorded o t := by
  cases ev with
  | data items view =>
    rw [← Option.some.inj hs]
    exact render_recorded h
  | scroll view =>
    rw [← Option.some.inj hs]
    exact render_recorded h
  | resize view =>
    rw [← Option.some.inj hs]
    exact render_recorded (ensurePool_recorded h)

/-- Whatever happens to a list with a row more on each side, whose keys tell its items apart, it
shows what it should. -/
theorem list_shown {es : List (Event α)} {ev : Event α} (h : 0<o.rowHeight) (hover : 0<o.rows)
    (hid : Identifies o) (hr : Run (step o) (fun _ _ => True) empty es s)
    (hs : step o s ev=some t) : Shown o ev.container t := by
  have hstart : Recorded o (empty : State α) := fun slot hslot => absurd hslot List.not_mem_nil
  have hrec : Recorded o s := hr.inv (Recorded o) (fun _ _ _ hi _ hs => step_recorded hi hs) hstart
  cases ev with
  | data items view =>
    have hnew : Recorded o { s with items := items } := hrec
    rw [← Option.some.inj hs]
    exact (render_shown_iff h).mpr ⟨Or.inl hover,hnew.not_stale hid⟩
  | scroll view =>
    rw [← Option.some.inj hs]
    exact (render_shown_iff h).mpr ⟨Or.inl hover,hrec.not_stale hid⟩
  | resize view =>
    rw [← Option.some.inj hs]
    exact (render_shown_iff h).mpr ⟨Or.inl hover,(ensurePool_recorded hrec).not_stale hid⟩

/-- Rows whose keys are their names. -/
def namedOptions : Options String := ⟨30,some fun name _ => name,none⟩

/-- A list that is filled and then scrolled. -/
theorem list_shown_scrolled : ∃ s t : State String,
    Run (step namedOptions) (fun _ _ => True) empty
      [.data ["Draft","Review","Send"] halfScrolled] s∧
    step namedOptions s (.scroll halfScrolled)=some t∧Shown namedOptions halfScrolled t := by
  have hrows : (0 : ℚ)<namedOptions.rowHeight := show (0 : ℚ)<30 by norm_num
  have hid : Identifies namedOptions := by
    intro key hkey a b index hsame
    cases hkey
    exact hsame
  obtain ⟨s,hrun⟩ : ∃ s : State String, Run (step namedOptions) (fun _ _ => True) empty
      [.data ["Draft","Review","Send"] halfScrolled] s := ⟨_,.single trivial rfl⟩
  obtain ⟨t,ht⟩ : ∃ t, step namedOptions s (.scroll halfScrolled)=some t := ⟨_,rfl⟩
  exact ⟨s,t,hrun,ht,list_shown hrows (by decide) hid hrun ht⟩

end Kitp.VirtualList
