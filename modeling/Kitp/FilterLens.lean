import Kitp.Filters

/-! The filter bar's slot of an attribute as a lens: reading, setting and clearing it. -/
namespace Kitp.Filters
variable {p : Option Predicate} {ps qs : List Predicate} {attr b : String} {l : Leaf}

/-- The children of the top-level conjunction outside the attribute's slot. -/
def others (p : Option Predicate) (attr : String) : List Predicate :=
  (rootChildren p).filter fun c => !ownLeaf attr c

/-- The laws of the slot of a leaf's attribute. -/
structure LensLaws (p : Option Predicate) (l : Leaf) : Prop where
  removed : topLevelLeafForAttr (removeTopLevelLeaf p l.attr) l.attr=none
  upserted : topLevelLeafForAttr (upsertTopLevelLeaf p l) l.attr=some l
  meaning : ∃ q, upsertTopLevelLeaf p l=some q∧
    ∀ sat, Means sat q ↔ MeansAll sat (others p l.attr)∧sat l
  untouched : others (removeTopLevelLeaf p l.attr) l.attr=others p l.attr∧
    others (upsertTopLevelLeaf p l) l.attr=others p l.attr
  otherLeaves : ∀ b≠l.attr,
    topLevelLeafForAttr (removeTopLevelLeaf p l.attr) b=topLevelLeafForAttr p b∧
      topLevelLeafForAttr (upsertTopLevelLeaf p l) b=topLevelLeafForAttr p b
  phaseSlot : ∀ b, topLevelPhases (removeTopLevelLeaf p l.attr) b=topLevelPhases p b∧
    topLevelPhases (upsertTopLevelLeaf p l) b=topLevelPhases p b

theorem meansAll_append (sat : Leaf → Prop) :
    MeansAll sat (ps++qs) ↔ MeansAll sat ps∧MeansAll sat qs := by
  induction ps with
  | nil => simp [MeansAll]
  | cons p ps ih => rw [List.cons_append,MeansAll,MeansAll,ih,and_assoc]

/-! Reading the children. -/

theorem firstLeaf_append : firstLeaf attr (ps++qs)=(firstLeaf attr ps).or (firstLeaf attr qs) := by
  induction ps with
  | nil => rfl
  | cons p ps ih =>
    cases p with
    | leaf l =>
      rw [List.cons_append,firstLeaf,firstLeaf,ih]
      split <;> rfl
    | group c children => rw [List.cons_append,firstLeaf,firstLeaf,ih]

theorem topLevelLeaf_children : topLevelLeafForAttr p attr=firstLeaf attr (rootChildren p) := by
  cases p with
  | none => rfl
  | some p =>
    cases p with
    | leaf l => rfl
    | group c children => cases c <;> rfl

theorem firstLeaf_others_own : firstLeaf attr (ps.filter fun c => !ownLeaf attr c)=none := by
  induction ps with
  | nil => rfl
  | cons p ps ih =>
    cases p with
    | leaf l =>
      by_cases hown : ownLeaf attr (.leaf l)=true
      · rw [List.filter_cons_of_neg (by simp [hown]),ih]
      · rw [List.filter_cons_of_pos (by simp [hown]),firstLeaf,if_neg hown,ih]
    | group c children => rw [List.filter_cons_of_pos (by simp [ownLeaf]),firstLeaf,ih]

theorem firstLeaf_others (hb : b≠attr) :
    firstLeaf b (ps.filter fun c => !ownLeaf attr c)=firstLeaf b ps := by
  induction ps with
  | nil => rfl
  | cons p ps ih =>
    cases p with
    | leaf l =>
      by_cases hown : ownLeaf attr (.leaf l)=true
      · have hl : ¬ownLeaf b (.leaf l)=true := by
          simp only [ownLeaf,Bool.and_eq_true,decide_eq_true_eq] at hown ⊢
          exact fun h => hb (h.1.symm.trans hown.1)
        rw [List.filter_cons_of_neg (by simp [hown]),ih,firstLeaf,if_neg hl]
      · rw [List.filter_cons_of_pos (by simp [hown]),firstLeaf,firstLeaf,ih]
    | group c children => rw [List.filter_cons_of_pos (by simp [ownLeaf]),firstLeaf,firstLeaf,ih]

/-- A phase leaf is in no attribute's own slot. -/
theorem firstPhases_others : firstPhases b (ps.filter fun c => !ownLeaf attr c)=firstPhases b ps := by
  induction ps with
  | nil => rfl
  | cons p ps ih =>
    cases p with
    | leaf l =>
      by_cases hown : ownLeaf attr (.leaf l)=true
      · have hl : ¬phaseLeaf b (.leaf l)=true := by
          simp only [ownLeaf,phaseLeaf,Bool.and_eq_true,decide_eq_true_eq] at hown ⊢
          exact fun h => hown.2 h.2
        rw [List.filter_cons_of_neg (by simp [hown]),ih,firstPhases,if_neg hl]
      · rw [List.filter_cons_of_pos (by simp [hown]),firstPhases,firstPhases,ih]
    | group c children =>
      rw [List.filter_cons_of_pos (by simp [ownLeaf]),firstPhases,firstPhases,ih]

theorem firstPhases_append_own (hop : l.op≠.hasPhase) :
    firstPhases b (ps++[.leaf l])=firstPhases b ps := by
  induction ps with
  | nil =>
    simp [firstPhases,phaseLeaf,hop]
  | cons p ps ih =>
    cases p with
    | leaf l' => rw [List.cons_append,firstPhases,firstPhases,ih]
    | group c children => rw [List.cons_append,firstPhases,firstPhases,ih]

/-! Putting the children back. -/

/-- One conjunction left alone takes the root's place; else the children are the root's. -/
theorem rootChildren_back (h : ∀ children, ps≠[.group .and children]) :
    rootChildren (fromRootChildren ps)=ps := by
  cases ps with
  | nil => rfl
  | cons p ps =>
    cases ps with
    | cons q ps => rfl
    | nil =>
      cases p with
      | leaf l => rfl
      | group c children =>
        cases c with
        | and => exact absurd rfl (h children)
        | or => rfl
        | not => rfl

theorem rootChildren_alone (children : List Predicate) :
    rootChildren (fromRootChildren [.group .and children])=children := rfl

theorem append_leaf_ne (children : List Predicate) : ps++[.leaf l]≠[.group .and children] := by
  intro h
  have hlast := congrArg List.getLast? h
  rw [List.getLast?_append] at hlast
  cases hlast

theorem rootChildren_upsert :
    rootChildren (upsertTopLevelLeaf p l)=others p l.attr++[.leaf l] :=
  rootChildren_back append_leaf_ne

theorem means_upsert (p : Option Predicate) (l : Leaf) : ∃ q, upsertTopLevelLeaf p l=some q∧
    ∀ sat, Means sat q ↔ MeansAll sat (others p l.attr)∧sat l := by
  have hchildren : ∀ ps, ∃ q, fromRootChildren (ps++[.leaf l])=some q∧
      ∀ sat, Means sat q ↔ MeansAll sat (ps++[.leaf l]) := by
    intro ps
    cases ps with
    | nil => exact ⟨_,rfl,by simp [MeansAll]⟩
    | cons p ps =>
      cases ps with
      | nil => exact ⟨_,rfl,by simp [Means]⟩
      | cons q ps => exact ⟨_,rfl,by simp [Means]⟩
  obtain ⟨q,hq,hmeans⟩ := hchildren (others p l.attr)
  refine ⟨q,hq,?_⟩
  intro sat
  rw [hmeans sat,meansAll_append]
  simp [MeansAll,Means]

theorem others_idem (ps : List Predicate) :
    ((ps.filter fun c => !ownLeaf attr c).filter fun c => !ownLeaf attr c)=
      ps.filter fun c => !ownLeaf attr c := by
  rw [List.filter_filter]
  simp

/-- A conjunction isn't among its own children. -/
theorem children_ne (children : List Predicate) :
    (children.filter fun c => !ownLeaf attr c)≠[.group .and children] := by
  intro h
  have hmem : Predicate.group .and children∈children := by
    have hin : Predicate.group .and children∈children.filter fun c => !ownLeaf attr c := by
      rw [h]
      exact List.mem_singleton.mpr rfl
    exact (List.mem_filter.mp hin).1
  have hlt := List.sizeOf_lt_of_mem hmem
  rw [Predicate.group.sizeOf_spec] at hlt
  omega

/-- The laws hold unless clearing the slot leaves one conjunction alone, whose children then become
top-level. -/
theorem lens_laws (p : Option Predicate) (l : Leaf) (hop : l.op≠.hasPhase) :
    LensLaws p l ↔ ∀ children, others p l.attr≠[.group .and children] := by
  have hown : ownLeaf l.attr (.leaf l)=true := by simp [ownLeaf,hop]
  constructor
  · intro hlaws children halone
    have hback := hlaws.untouched.1
    have hchildren : rootChildren (removeTopLevelLeaf p l.attr)=children := by
      rw [removeTopLevelLeaf,← others,halone,rootChildren_alone]
    rw [halone,others,hchildren] at hback
    exact children_ne children hback
  · intro halone
    have hremove : rootChildren (removeTopLevelLeaf p l.attr)=others p l.attr :=
      rootChildren_back halone
    have hupsert : rootChildren (upsertTopLevelLeaf p l)=others p l.attr++[.leaf l] :=
      rootChildren_upsert
    refine ⟨?_,?_,?_,⟨?_,?_⟩,?_,?_⟩
    · rw [topLevelLeaf_children,hremove,others,firstLeaf_others_own]
    · rw [topLevelLeaf_children,hupsert,firstLeaf_append,others,firstLeaf_others_own,firstLeaf,
        if_pos hown]
      rfl
    · exact means_upsert p l
    · rw [others,hremove,others,others_idem]
    · rw [others,hupsert,List.filter_append,others,others_idem,List.filter_cons_of_neg (by simp [hown]),
        List.filter_nil,List.append_nil]
    · intro b hb
      have hno : ¬ownLeaf b (.leaf l)=true := by
        simp only [ownLeaf,Bool.and_eq_true,decide_eq_true_eq]
        exact fun h => hb h.1.symm
      constructor
      · rw [topLevelLeaf_children,hremove,others,firstLeaf_others hb,topLevelLeaf_children]
      · rw [topLevelLeaf_children,hupsert,firstLeaf_append,others,firstLeaf_others hb,firstLeaf,
          if_neg hno,topLevelLeaf_children]
        cases firstLeaf b (rootChildren p) <;> rfl
    · intro b
      constructor
      · rw [topLevelPhases,hremove,others,firstPhases_others,topLevelPhases]
      · rw [topLevelPhases,hupsert,firstPhases_append_own hop,others,firstPhases_others,
          topLevelPhases]

theorem lens_laws_flat : LensLaws (some (.group .and [.leaf ⟨"assignee",.isIn,some [.str "7"]⟩,
    .leaf ⟨"status",.hasPhase,some [.str "active"]⟩])) ⟨"assignee",.isIn,some [.str "8"]⟩ :=
  (lens_laws _ _ (by decide)).mpr fun _ h => by cases h

/-- Clearing the slot of a filter whose other child is a conjunction: its leaf is read in the slot. -/
theorem nested_leaf_surfaces :
    ∃ p l, l.op≠.hasPhase∧topLevelLeafForAttr p l.attr=some l∧
      topLevelLeafForAttr (removeTopLevelLeaf p l.attr) l.attr≠none :=
  ⟨some (.group .and [.leaf ⟨"assignee",.isIn,some [.str "7"]⟩,
    .group .and [.leaf ⟨"assignee",.isIn,some [.str "7",.str "8"]⟩,.leaf ⟨"milestone",.exist,none⟩]]),
    ⟨"assignee",.isIn,some [.str "7"]⟩,by decide,by decide,by decide⟩

end Kitp.Filters
