import Mathlib.Data.Prod.Lex
import Mathlib.Order.WithBot
import Mathlib.Tactic.Linarith
import Kitp.KanbanColumns

/-! A drop moves one card, to the slot it was dropped at. -/
namespace Kitp.KanbanBoard

variable {keyOf : CardWithAttrs → String} {cards l : List CardWithAttrs}
  {a b c m : CardWithAttrs} {shown : ℚ → String} {attr : String} {start : Nat}

/-- Where a card stands in its column: by its sort order, those without one last, then its id. -/
def rank (c : CardWithAttrs) : WithTop ℚ×ₗInt :=
  toLex ((match sortOrderOf c with
    | some q => (q : WithTop ℚ)
    | none => ⊤),c.id)

theorem compareIds_iff : compareIds a b≤0↔a.id≤b.id := by
  unfold compareIds
  split
  · simpa using (‹a.id < b.id›).le
  · split
    · have hnot : ¬a.id≤b.id := not_le.mpr ‹b.id < a.id›
      exact ⟨fun hle => absurd hle (by norm_num),fun hle => absurd hle hnot⟩
    · simpa using not_lt.mp ‹¬b.id < a.id›

theorem compareCards_iff : compareCards a b≤0↔rank a ≤ rank b := by
  unfold compareCards rank
  rw [Prod.Lex.toLex_le_toLex]
  cases sortOrderOf a with
  | none =>
    cases sortOrderOf b with
    | none => simpa using compareIds_iff
    | some sb => simp
  | some sa =>
    cases sortOrderOf b with
    | none => simp
    | some sb =>
      simp only [WithTop.coe_lt_coe,WithTop.coe_inj]
      split
      · rename_i hne
        have hdiff : sa≠sb := fun hsame => hne (sub_eq_zero.mpr hsame)
        rw [sub_nonpos,or_iff_left fun hboth => hdiff hboth.1]
        exact ⟨fun hle => lt_of_le_of_ne hle hdiff,le_of_lt⟩
      · rename_i hzero
        have hsame : sa=sb := sub_eq_zero.mp (not_not.mp hzero)
        simpa [hsame] using compareIds_iff

theorem sortByOrder_pairwise (cards : List CardWithAttrs) :
    (sortByOrder cards).Pairwise fun a b => rank a ≤ rank b := by
  have hsorted : (sortByOrder cards).Pairwise fun a b => decide (compareCards a b≤0)=true := by
    refine List.pairwise_mergeSort ?_ ?_ cards
    · intro a b c hab hbc
      rw [decide_eq_true_eq,compareCards_iff] at hab hbc ⊢
      exact hab.trans hbc
    · intro a b
      rw [Bool.or_eq_true,decide_eq_true_eq,decide_eq_true_eq,compareCards_iff,compareCards_iff]
      exact le_total _ _
  exact hsorted.imp fun hle => compareCards_iff.mp (of_decide_eq_true hle)

theorem eq_of_id (hids : (cards.map CardWithAttrs.id).Nodup) (ha : a∈cards) (hb : b∈cards)
    (h : a.id=b.id) : a=b :=
  List.inj_on_of_nodup_map hids ha hb h

/-- Cards with distinct ids have one order. -/
theorem sort_unique (hids : (cards.map CardWithAttrs.id).Nodup) (hperm : l.Perm cards)
    (hsorted : l.Pairwise fun a b => rank a ≤ rank b) : sortByOrder cards=l := by
  refine List.Perm.eq_of_pairwise ?_ (sortByOrder_pairwise cards) hsorted
    ((sortByOrder_perm cards).trans hperm.symm)
  intro a b ha hb hab hba
  have hrank : rank a=rank b := le_antisymm hab hba
  exact eq_of_id hids ((sortByOrder_perm cards).mem_iff.mp ha) (hperm.mem_iff.mp hb)
    (congrArg (fun r => (ofLex r).2) hrank)

theorem sort_filter (hids : (cards.map CardWithAttrs.id).Nodup) (p : CardWithAttrs → Bool) :
    sortByOrder (cards.filter p)=(sortByOrder cards).filter p :=
  sort_unique (hids.sublist (List.filter_sublist.map _)) ((sortByOrder_perm cards).filter p)
    ((sortByOrder_pairwise cards).filter p)

/-- What the operations make of one card. -/
def settle (ops : List UpdateOp) (c : CardWithAttrs) : CardWithAttrs :=
  ops.foldl (fun c op => op.set c) c

theorem applyOps_map (ops : List UpdateOp) (cards : List CardWithAttrs) :
    applyOps ops cards=cards.map (settle ops) := by
  induction ops generalizing cards with
  | nil => exact (List.map_id cards).symm
  | cons op ops ih =>
    unfold applyOps at ih ⊢
    rw [List.foldl_cons,ih,List.map_map]
    rfl

theorem settle_append (ops more : List UpdateOp) (c : CardWithAttrs) :
    settle (ops++more) c=settle more (settle ops c) :=
  List.foldl_append

@[simp]
theorem set_id (op : UpdateOp) (c : CardWithAttrs) : (op.set c).id=c.id := by
  unfold UpdateOp.set
  split <;> rfl

@[simp]
theorem settle_id (ops : List UpdateOp) (c : CardWithAttrs) : (settle ops c).id=c.id := by
  induction ops generalizing c with
  | nil => rfl
  | cons op ops ih => exact (ih (op.set c)).trans (set_id op c)

theorem settle_other {ops : List UpdateOp} (h : ∀ op∈ops, op.cardId≠c.id) : settle ops c=c := by
  induction ops generalizing c with
  | nil => rfl
  | cons op ops ih =>
    have hset : op.set c=c := if_neg fun hsame => h op List.mem_cons_self hsame.symm
    show settle ops (op.set c)=c
    rw [hset]
    exact ih fun op' hop' => h op' (List.mem_cons_of_mem op hop')

/-- An attribute no operation names. -/
theorem settle_attribute {ops : List UpdateOp} {name : String}
    (h : ∀ op∈ops, op.attributeName≠name) : (settle ops c).attributes name=c.attributes name := by
  induction ops generalizing c with
  | nil => rfl
  | cons op ops ih =>
    have hset : (op.set c).attributes name=c.attributes name := by
      unfold UpdateOp.set
      split
      · exact Function.update_of_ne (h op List.mem_cons_self).symm _ _
      · rfl
    exact (ih fun op' hop' => h op' (List.mem_cons_of_mem op hop')).trans hset

/-- The operations that space cards evenly from a slot on. -/
def spacing (l : List CardWithAttrs) (start : Nat) : List UpdateOp :=
  ((l.zipIdx start).filterMap fun (card,i) =>
    let desired : ℚ := (i+1)*SORT_ORDER_STEP
    if sortOrderOf card≠some desired then some (⟨card.id,desired⟩ : SortUpdate) else none).map
      fun u => ⟨u.cardId,"sort_order",.number (.finite u.sortOrder)⟩

theorem spacing_cons (c : CardWithAttrs) (l : List CardWithAttrs) (start : Nat) :
    spacing (c::l) start=(if sortOrderOf c≠some ((start+1)*SORT_ORDER_STEP) then
      [⟨c.id,"sort_order",.number (.finite ((start+1)*SORT_ORDER_STEP))⟩] else [])++
        spacing l (start+1) := by
  unfold spacing
  rw [List.zipIdx_cons,List.filterMap_cons]
  by_cases hsame : sortOrderOf c≠some ((start+1)*SORT_ORDER_STEP)
  · dsimp only
    rw [if_pos hsame,if_pos hsame]
    rfl
  · dsimp only
    rw [if_neg hsame,if_neg hsame]
    rfl

theorem spacing_mem {op : UpdateOp} (h : op∈spacing l start) :
    op.attributeName="sort_order"∧op.cardId∈l.map CardWithAttrs.id := by
  induction l generalizing start with
  | nil => exact absurd h List.not_mem_nil
  | cons c l ih =>
    rw [spacing_cons,List.mem_append] at h
    rw [List.map_cons]
    cases h with
    | inl hfirst =>
      split at hfirst
      · rw [List.mem_singleton.mp hfirst]
        exact ⟨rfl,List.mem_cons_self⟩
      · exact absurd hfirst List.not_mem_nil
    | inr hrest => exact ⟨(ih hrest).1,List.mem_cons_of_mem _ (ih hrest).2⟩

/-- The first of the spaced cards gets its slot's value, one it may have already. -/
theorem spacing_head (hids : c.id∉l.map CardWithAttrs.id) :
    sortOrderOf (settle (spacing (c::l) start) c)=some ((start+1)*SORT_ORDER_STEP) := by
  have hrest : ∀ c' : CardWithAttrs, c'.id=c.id → settle (spacing l (start+1)) c'=c' := by
    intro c' hsame
    refine settle_other fun op hop heq => hids ?_
    rw [← hsame,← heq]
    exact (spacing_mem hop).2
  rw [spacing_cons,settle_append]
  split
  · rw [hrest _ (settle_id _ c)]
    have hset : settle [(⟨c.id,"sort_order",.number (.finite ((start+1)*SORT_ORDER_STEP))⟩ :
        UpdateOp)] c=
        ⟨c.id,Function.update c.attributes "sort_order"
          (.number (.finite ((start+1)*SORT_ORDER_STEP)))⟩ := if_pos rfl
    rw [hset]
    unfold sortOrderOf
    dsimp only
    rw [Function.update_self]
  · rename_i hsame
    show sortOrderOf (settle (spacing l (start+1)) c)=_
    rw [hrest c rfl]
    exact not_not.mp hsame

theorem spacing_tail (hids : c.id∉l.map CardWithAttrs.id) (hm : m∈l) :
    settle (spacing (c::l) start) m=settle (spacing l (start+1)) m := by
  rw [spacing_cons,settle_append]
  have hne : c.id≠m.id := fun hsame => hids (hsame ▸ List.mem_map_of_mem hm)
  congr 1
  refine settle_other ?_
  intro op hop
  split at hop
  · rw [List.mem_singleton.mp hop]
    exact hne
  · exact absurd hop List.not_mem_nil

/-- Spaced cards are in order. -/
theorem spacing_sorted (hids : (l.map CardWithAttrs.id).Nodup) :
    (∀ c∈l, ∃ q, sortOrderOf (settle (spacing l start) c)=some q∧(start+1)*SORT_ORDER_STEP≤q)∧
      l.Pairwise fun a b => ∃ p q, sortOrderOf (settle (spacing l start) a)=some p∧
        sortOrderOf (settle (spacing l start) b)=some q∧p < q := by
  induction l generalizing start with
  | nil => exact ⟨fun c hc => absurd hc List.not_mem_nil,List.Pairwise.nil⟩
  | cons c l ih =>
    obtain ⟨hc,hnodup⟩ := List.nodup_cons.mp hids
    obtain ⟨hlow,hsorted⟩ := @ih (start+1) hnodup
    have hhead : sortOrderOf (settle (spacing (c::l) start) c)=some ((start+1)*SORT_ORDER_STEP) :=
      spacing_head hc
    have hstep : (0 : ℚ) < SORT_ORDER_STEP := by unfold SORT_ORDER_STEP; norm_num
    have habove : ∀ m∈l, ∃ q, sortOrderOf (settle (spacing (c::l) start) m)=some q∧
        (start+1)*SORT_ORDER_STEP < q := by
      intro m hm
      obtain ⟨q,hq,hle⟩ := hlow m hm
      rw [spacing_tail hc hm]
      refine ⟨q,hq,?_⟩
      push_cast at hle
      linarith
    refine ⟨?_,?_⟩
    · intro m hm
      cases List.mem_cons.mp hm with
      | inl hsame => exact ⟨_,hsame ▸ hhead,le_refl _⟩
      | inr hrest =>
        obtain ⟨q,hq,hlt⟩ := habove m hrest
        exact ⟨q,hq,hlt.le⟩
    · refine List.Pairwise.cons ?_ ?_
      · intro m hm
        obtain ⟨q,hq,hlt⟩ := habove m hm
        exact ⟨_,q,hhead,hq,hlt⟩
      · refine hsorted.imp_of_mem ?_
        intro a b ha hb hab
        rw [spacing_tail hc ha,spacing_tail hc hb]
        exact hab

/-- The rewrite of a column's attribute, if the card is to leave its column. -/
def rekey (shown : ℚ → String) (attr : String) (m : CardWithAttrs) (target : Option Int) :
    List UpdateOp :=
  if bucketKeyOf shown (m.attributes attr)≠columnKeyOf target then
    [⟨m.id,attr,match target with
      | none => .null
      | some id => .bigint id⟩]
  else []

theorem computeMoveBatch_eq (destStack : List CardWithAttrs) (m : CardWithAttrs)
    (target : Option Int) (slot : Int) :
    computeMoveBatch shown m target (planSortRewrite destStack m slot) attr=
      spacing (finalOrder destStack m slot) 0++rekey shown attr m target := by
  unfold computeMoveBatch rekey
  dsimp only
  split
  · rfl
  · exact (List.append_nil _).symm

theorem rekey_mem {target : Option Int} {op : UpdateOp} (h : op∈rekey shown attr m target) :
    op.attributeName=attr∧op.cardId=m.id := by
  unfold rekey at h
  split at h
  · rw [List.mem_singleton.mp h]
    exact ⟨rfl,rfl⟩
  · exact absurd h List.not_mem_nil

theorem settle_set {name : String} {value : Value} (hid : c.id=m.id) :
    (settle [⟨m.id,name,value⟩] c).attributes name=value := by
  have hset : settle [⟨m.id,name,value⟩] c=⟨c.id,Function.update c.attributes name value⟩ :=
    if_pos hid
  rw [hset]
  dsimp only
  rw [Function.update_self]

/-- The moved card's key is then its column's. -/
theorem rekey_key {target : Option Int} (hid : c.id=m.id)
    (hsame : c.attributes attr=m.attributes attr) :
    keyer shown attr (settle (rekey shown attr m target) c)=columnKeyOf target := by
  unfold rekey keyer
  split
  · cases target with
    | none =>
      rw [settle_set hid]
      rfl
    | some id =>
      rw [settle_set hid]
      rfl
  · show bucketKeyOf shown (c.attributes attr)=_
    rw [hsame]
    exact not_not.mp ‹_›

section drop
variable {target : Option Int} {slot : Int}

/-- The target column without the moved card, and its order with it. -/
def destStack (shown : ℚ → String) (attr : String) (cards : List CardWithAttrs) (m : CardWithAttrs)
    (target : Option Int) : List CardWithAttrs :=
  (bucketColumn (keyer shown attr) cards (columnKeyOf target)).filter fun c => c.id≠m.id

def moveOps (shown : ℚ → String) (attr : String) (cards : List CardWithAttrs) (m : CardWithAttrs)
    (target : Option Int) (slot : Int) : List UpdateOp :=
  spacing (finalOrder (destStack shown attr cards m target) m slot) 0++rekey shown attr m target

theorem drop_eq : drop shown attr cards m target slot=
    cards.map (settle (moveOps shown attr cards m target slot)) := by
  unfold drop moveOps
  rw [← computeMoveBatch_eq,applyOps_map]
  rfl

theorem finalOrder_perm (stack : List CardWithAttrs) (m : CardWithAttrs) (slot : Int) :
    (finalOrder stack m slot).Perm (m::stack) := by
  unfold finalOrder
  dsimp only
  refine List.perm_middle.trans (List.Perm.cons m ?_)
  rw [List.take_append_drop]

theorem mem_bucketColumn {key : String} :
    c∈bucketColumn keyOf cards key↔c∈cards∧keyOf c=key := by
  unfold bucketColumn
  rw [(sortByOrder_perm _).mem_iff,List.mem_filter,decide_eq_true_eq]

theorem mem_destStack :
    c∈destStack shown attr cards m target↔
      c∈cards∧keyer shown attr c=columnKeyOf target∧c.id≠m.id := by
  unfold destStack
  rw [List.mem_filter,mem_bucketColumn,decide_eq_true_eq,and_assoc]

theorem destStack_nodup (hids : (cards.map CardWithAttrs.id).Nodup) :
    ((destStack shown attr cards m target).map CardWithAttrs.id).Nodup := by
  have hcolumn : ((bucketColumn (keyer shown attr) cards (columnKeyOf target)).map
      CardWithAttrs.id).Nodup := by
    refine ((sortByOrder_perm _).map CardWithAttrs.id).nodup_iff.mpr ?_
    exact hids.sublist (List.filter_sublist.map _)
  exact hcolumn.sublist (List.filter_sublist.map _)

theorem finalOrder_nodup (hids : (cards.map CardWithAttrs.id).Nodup) :
    ((finalOrder (destStack shown attr cards m target) m slot).map CardWithAttrs.id).Nodup := by
  refine ((finalOrder_perm _ m slot).map CardWithAttrs.id).nodup_iff.mpr ?_
  rw [List.map_cons,List.nodup_cons]
  refine ⟨?_,destStack_nodup hids⟩
  intro hm
  obtain ⟨c,hc,hsame⟩ := List.mem_map.mp hm
  exact (mem_destStack.mp hc).2.2 hsame

/-- A card that isn't in the target column stays as it was. -/
theorem settle_moved_other (hne : c.id≠m.id)
    (hout : ∀ d∈destStack shown attr cards m target, d.id≠c.id) :
    settle (moveOps shown attr cards m target slot) c=c := by
  refine settle_other ?_
  intro op hop
  cases List.mem_append.mp hop with
  | inl hspacing =>
    obtain ⟨d,hd,hid⟩ := List.mem_map.mp (spacing_mem hspacing).2
    rw [← hid]
    cases List.mem_cons.mp ((finalOrder_perm _ m slot).mem_iff.mp hd) with
    | inl hsame => exact hsame ▸ hne.symm
    | inr hstack => exact hout d hstack
  | inr hrekey =>
    rw [(rekey_mem hrekey).2]
    exact hne.symm

/-- The moved card's column is the target, any other card's what it was. -/
theorem keyer_settle (hattr : attr≠"sort_order") (hids : (cards.map CardWithAttrs.id).Nodup)
    (hm : m∈cards) (hc : c∈cards) :
    keyer shown attr (settle (moveOps shown attr cards m target slot) c)=
      if c.id=m.id then columnKeyOf target else keyer shown attr c := by
  unfold moveOps
  rw [settle_append]
  have hspaced : ∀ c : CardWithAttrs,
      (settle (spacing (finalOrder (destStack shown attr cards m target) m slot) 0) c).attributes
        attr=c.attributes attr :=
    fun c => settle_attribute fun op hop hname => hattr (hname ▸ (spacing_mem hop).1)
  split
  · rename_i hid
    have hsame : c=m := eq_of_id hids hc hm hid
    exact rekey_key (by rw [settle_id,hid]) (by rw [hspaced,hsame])
  · rename_i hne
    rw [settle_other]
    · unfold keyer
      rw [hspaced]
    · intro op hop
      rw [(rekey_mem hop).2,settle_id]
      exact fun hsame => hne hsame.symm

theorem sortOrderOf_settle (hattr : attr≠"sort_order") (l : List CardWithAttrs) :
    sortOrderOf (settle (spacing l 0++rekey shown attr m target) c)=
      sortOrderOf (settle (spacing l 0) c) := by
  rw [settle_append]
  unfold sortOrderOf
  rw [settle_attribute fun op hop hname => hattr ((rekey_mem hop).1.symm.trans hname)]

/-- Before and after the drop a card has its place by the same id. -/
theorem settle_ids (ops : List UpdateOp) (l : List CardWithAttrs) :
    (l.map (settle ops)).map CardWithAttrs.id=l.map CardWithAttrs.id := by
  rw [List.map_map]
  exact List.map_congr_left fun c _ => settle_id ops c

/-- The rewritten column is in the order it was to have. -/
theorem finalOrder_sorted (hattr : attr≠"sort_order")
    (hids : (cards.map CardWithAttrs.id).Nodup) :
    ((finalOrder (destStack shown attr cards m target) m slot).map
      (settle (moveOps shown attr cards m target slot))).Pairwise fun a b => rank a ≤ rank b := by
  rw [List.pairwise_map]
  have hspaced := (@spacing_sorted (finalOrder (destStack shown attr cards m target) m slot) 0
    (finalOrder_nodup hids)).2
  refine hspaced.imp ?_
  rintro a b ⟨p,q,ha,hb,hlt⟩
  unfold moveOps rank
  rw [sortOrderOf_settle hattr,sortOrderOf_settle hattr,ha,hb,Prod.Lex.toLex_le_toLex]
  exact Or.inl (WithTop.coe_lt_coe.mpr hlt)

/-- The target column, rebuilt. -/
theorem column_target (hattr : attr≠"sort_order") (hids : (cards.map CardWithAttrs.id).Nodup)
    (hm : m∈cards) :
    bucketColumn (keyer shown attr) (drop shown attr cards m target slot) (columnKeyOf target)=
      (finalOrder (destStack shown attr cards m target) m slot).map
        (settle (moveOps shown attr cards m target slot)) := by
  have hfinal : (finalOrder (destStack shown attr cards m target) m slot).Nodup :=
    List.Nodup.of_map CardWithAttrs.id (finalOrder_nodup hids)
  rw [drop_eq]
  unfold bucketColumn
  rw [List.filter_map]
  refine sort_unique ?_ (List.Perm.map _ ?_) (finalOrder_sorted hattr hids)
  · rw [settle_ids]
    exact hids.sublist (List.filter_sublist.map _)
  · have hcards : cards.Nodup := List.Nodup.of_map CardWithAttrs.id hids
    refine (List.perm_ext_iff_of_nodup hfinal (hcards.sublist List.filter_sublist)).mpr ?_
    intro c
    rw [(finalOrder_perm _ m slot).mem_iff,List.mem_cons,mem_destStack,List.mem_filter,
      Function.comp_apply,decide_eq_true_eq]
    constructor
    · rintro (hsame | ⟨hc,hkey,hne⟩)
      · rw [hsame]
        exact ⟨hm,by rw [keyer_settle hattr hids hm hm,if_pos rfl]⟩
      · exact ⟨hc,by rw [keyer_settle hattr hids hm hc,if_neg hne,hkey]⟩
    · rintro ⟨hc,hkey⟩
      rw [keyer_settle hattr hids hm hc] at hkey
      by_cases hid : c.id=m.id
      · exact Or.inl (eq_of_id hids hc hm hid)
      · rw [if_neg hid] at hkey
        exact Or.inr ⟨hc,hkey,hid⟩

/-- Any other column, rebuilt: the moved card is gone from it. -/
theorem column_other {key : String} (hattr : attr≠"sort_order")
    (hids : (cards.map CardWithAttrs.id).Nodup) (hm : m∈cards) (hkey : key≠columnKeyOf target) :
    bucketColumn (keyer shown attr) (drop shown attr cards m target slot) key=
      (bucketColumn (keyer shown attr) cards key).filter fun c => c.id≠m.id := by
  have hsame : (cards.filter fun c => keyer shown attr (settle
      (moveOps shown attr cards m target slot) c)=key)=
      (cards.filter fun c => keyer shown attr c=key).filter fun c => c.id≠m.id := by
    rw [List.filter_filter]
    refine List.filter_congr fun c hc => ?_
    rw [keyer_settle hattr hids hm hc]
    by_cases hid : c.id=m.id
    · simp [hid,hkey.symm]
    · simp [hid]
  have hstay : ((cards.filter fun c => keyer shown attr c=key).filter fun c => c.id≠m.id).map
      (settle (moveOps shown attr cards m target slot))=
      (cards.filter fun c => keyer shown attr c=key).filter fun c => c.id≠m.id := by
    refine (List.map_congr_left fun c hc => ?_).trans (List.map_id _)
    obtain ⟨hcolumn,hne⟩ := List.mem_filter.mp hc
    obtain ⟨hmem,hc⟩ := List.mem_filter.mp hcolumn
    refine settle_moved_other (of_decide_eq_true hne) ?_
    intro d hd hid
    obtain ⟨hdc,hdkey,-⟩ := mem_destStack.mp hd
    rw [eq_of_id hids hdc hmem hid] at hdkey
    exact hkey ((of_decide_eq_true hc).symm.trans hdkey)
  rw [drop_eq]
  unfold bucketColumn
  rw [List.filter_map]
  show sortByOrder ((cards.filter fun c => keyer shown attr (settle
    (moveOps shown attr cards m target slot) c)=key).map _)=_
  rw [hsame,hstay,sort_filter (hids.sublist (List.filter_sublist.map _))]

/-- The ids in a column of the board, none where there is no such column. -/
def cell (b : List (String×List CardWithAttrs)) (key : String) : List Int :=
  ((b.lookup key).getD []).map CardWithAttrs.id

/-- A column's ids with `m` taken out and put back at a slot. -/
def placed (ids : List Int) (m : Int) (slot : Int) : List Int :=
  let rest := ids.filter (·≠m)
  let at' := targetSlot slot rest.length
  rest.take at'++m::rest.drop at'

theorem Shown.cell {b : List (String×List CardWithAttrs)} (h : Shown keyOf cards b) (key : String) :
    cell b key=(bucketColumn keyOf cards key).map CardWithAttrs.id := by
  unfold KanbanBoard.cell
  cases hkey : b.lookup key with
  | some column =>
    have hcolumn : column=bucketColumn keyOf cards key := h.column _ (lookup_mem hkey)
    rw [Option.getD_some,hcolumn]
  | none =>
    have hempty : bucketColumn keyOf cards key=[] := by
      rw [List.eq_nil_iff_forall_not_mem]
      intro c hc
      obtain ⟨hmem,rfl⟩ := mem_bucketColumn.mp hc
      exact lookup_none hkey (h.key c hmem)
    rw [hempty]
    rfl

theorem map_filter_id (l : List CardWithAttrs) (m : Int) :
    (l.filter fun c => c.id≠m).map CardWithAttrs.id=(l.map CardWithAttrs.id).filter (·≠m) := by
  rw [List.filter_map]
  rfl

theorem board_drop {valueCardIds : List Int} {b : List (String×List CardWithAttrs)}
    (hattr : attr≠"sort_order") (hids : (cards.map CardWithAttrs.id).Nodup)
    (hkeys : ∀ c∈cards, keyer shown attr c∉inherited) (hshown : Shown (keyer shown attr) cards b)
    (hm : m∈cards) :
    ∃ b', board valueCardIds (keyer shown attr) (drop shown attr cards m target slot)=.ok b'∧
      ∀ key, cell b' key=
        if key=columnKeyOf target then placed (cell b key) m.id slot
        else (cell b key).filter (·≠m.id) := by
  have hown : ∀ c∈drop shown attr cards m target slot, keyer shown attr c∉inherited := by
    intro c hc
    rw [drop_eq] at hc
    obtain ⟨c,hmem,rfl⟩ := List.mem_map.mp hc
    rw [keyer_settle hattr hids hm hmem]
    split
    · exact columnKeyOf_own target
    · exact hkeys c hmem
  obtain ⟨b',hb',hshown'⟩ := board_shown valueCardIds hown
  refine ⟨b',hb',?_⟩
  intro key
  rw [hshown'.cell,hshown.cell]
  by_cases hkey : key=columnKeyOf target
  · rw [if_pos hkey,hkey,column_target hattr hids hm,settle_ids]
    have hrest : (destStack shown attr cards m target).map CardWithAttrs.id=
        ((bucketColumn (keyer shown attr) cards (columnKeyOf target)).map CardWithAttrs.id).filter
          (·≠m.id) := map_filter_id _ m.id
    unfold finalOrder placed
    dsimp only
    rw [← hrest,List.map_append,List.map_cons,List.map_take,List.map_drop,List.length_map]
  · rw [if_neg hkey,column_other hattr hids hm hkey,map_filter_id]

/-- The board lists each card once, and a drop moves its card to the slot it was dropped at and no
other card, exactly when no card's key is one that every object answers to. -/
theorem board_keeps_iff (hattr : attr≠"sort_order") (hids : (cards.map CardWithAttrs.id).Nodup)
    (shown : ℚ → String) (valueCardIds : List Int) :
    (∀ keyOf : CardWithAttrs → String,
      (∃ b, board valueCardIds keyOf cards=.ok b∧(b.flatMap Prod.snd).Perm cards)↔
        ∀ c∈cards, keyOf c∉inherited)∧
    ((∃ b, board valueCardIds (keyer shown attr) cards=.ok b∧(b.flatMap Prod.snd).Perm cards∧
      ∀ m∈cards, ∀ target slot,
        ∃ b', board valueCardIds (keyer shown attr) (drop shown attr cards m target slot)=.ok b'∧
          ∀ key, cell b' key=
            if key=columnKeyOf target then placed (cell b key) m.id slot
            else (cell b key).filter (·≠m.id))↔
      ∀ c∈cards, keyer shown attr c∉inherited) := by
  refine ⟨fun keyOf => board_lists_iff,?_,?_⟩
  · rintro ⟨b,hb,hperm,-⟩
    exact board_lists_iff.mp ⟨b,hb,hperm⟩
  · intro hkeys
    obtain ⟨b,hb,hshown⟩ := board_shown valueCardIds hkeys
    exact ⟨b,hb,hshown.lists,fun m hm target slot => board_drop hattr hids hkeys hshown hm⟩

end drop

def seventh : CardWithAttrs :=
  ⟨1,fun name => if name="status" then .bigint 7 else .undefined⟩

def eighth : CardWithAttrs :=
  ⟨2,fun name => if name="status" then .text "8" else .undefined⟩

/-- The first card is dropped over the second. -/
theorem board_keeps_two : ∃ b b', board [7,8] (keyer (fun _ => "") "status") [seventh,eighth]=.ok b∧
    board [7,8] (keyer (fun _ => "") "status")
      (drop (fun _ => "") "status" [seventh,eighth] seventh (some 8) 0)=.ok b'∧
    cell b' "8"=placed (cell b "8") 1 0 := by
  have hattr : "status"≠"sort_order" := by decide
  have hids : ([seventh,eighth].map CardWithAttrs.id).Nodup := by decide
  have hkeys : ∀ c∈[seventh,eighth], keyer (fun _ => "") "status" c∉inherited := by decide
  obtain ⟨-,-,hmpr⟩ := board_keeps_iff hattr hids (fun _ => "") [7,8]
  obtain ⟨b,hb,-,hdrop⟩ := hmpr hkeys
  obtain ⟨b',hb',hcell⟩ := hdrop seventh List.mem_cons_self (some 8) 0
  exact ⟨b,b',hb,hb',hcell "8"⟩

/-- A card whose value is the text `constructor`. -/
def built : CardWithAttrs :=
  ⟨1,fun name => if name="label" then .text "constructor" else .undefined⟩

/-- Its board isn't there. -/
theorem board_constructor : ¬∃ b, board [] (keyer (fun _ => "") "label") [built]=.ok b∧
    (b.flatMap Prod.snd).Perm [built] := by
  rintro ⟨b,hb,-⟩
  have herror : bucketByKey [built] (keyer (fun _ => "") "label")=
      .error "TypeError: bucket.push is not a function" := by rfl
  unfold board at hb
  rw [herror] at hb
  cases hb

end Kitp.KanbanBoard
