import Kitp.Lib.Bounded
import Kitp.Lib.Reps
import Kitp.Attributes
import Kitp.CardMerge
import Kitp.CardMoveRuns
import Mathlib.Data.Prod.Lex

/-! What `card.merge` leaves of the references, of the losers' children and of the losers. -/
namespace Kitp.CardMergeRefs
open Kitp.Store Kitp.Attributes Kitp.CardMerge Kitp.Steps

/-- `(value)::text::bigint` of a reference that is a number. -/
def castRef : Json → Except Refusal Unit
  | .num n => (castBigint n).map fun _ => ()
  | _ => .ok ()

def valueTypeOf (db : Db) (attributeDefId : Int) : Option ValueType :=
  (db.attributeDef attributeDefId).map (·.valueType)

/-- The casts of the two updates of the references. -/
def castRefs (db : Db) : Except Refusal Unit :=
  db.values.forM fun v =>
    match valueTypeOf db v.attributeDefId,v.value with
    | some .cardRef,j => castRef j
    | some .cardRefs,.arr xs => xs.forM castRef
    | _,_ => .ok ()

/-- One row, the casts included. -/
def mergeRow (env : CardInsert.Env) (db : Db) (actor : Int) (input : Input) : Except Refusal Db := do
  let db' ← merge env db actor input
  castRefs db
  return db'

/-- The cards a value names; none unless it is a reference. -/
def namedIn (t : Option ValueType) (v : Json) : List Int := t.elim [] fun t => refIds t v

def number : Json → Option Int
  | .num n => n.whole
  | _ => none

/-- The elements of an array that are numbers. -/
def numbers : Json → List Int
  | .arr xs => xs.filterMap number
  | _ => []

/-- A stored value once the losers are the survivor. -/
structure Repointed (survivor : Int) (losers : List Int) (t : Option ValueType) (v v' : Json) :
    Prop where
  names : ∀ id, id∈namedIn t v'↔
    id∈namedIn t v∧id∉losers∨id=survivor∧∃ l∈losers, l∈namedIn t v
  scalar : t=some .cardRef → (∃ l∈losers, l∈namedIn t v) → v'=.ofInt survivor
  once : t=some .cardRefs → (∃ l∈losers, l∈namedIn t v) → (numbers v').Nodup
  same : (∀ l∈losers, l∉namedIn t v) → v'=v

variable {env : CardInsert.Env} {db db' : Db} {actor survivor x c d : Int} {losers : List Int}
  {v : Json} {xs : List Json} {r : Card}

/-- The numbers sort by their value, apart from every other kind. -/
def sortKey (v : Json) : Lex (Nat×Int) := toLex (v.rank,(number v).getD 0)

def Whole (v : Json) : Prop := ∀ n, v=.num n → n.decimals=0

theorem cmp_rank {a b : Json} (h : a.rank≠b.rank) : a.cmp b=compare a.rank b.rank := by
  cases a <;> cases b <;> first | rfl | exact absurd rfl h

theorem sortKey_rank {a b : Json} (h : a.rank<b.rank) : sortKey a < sortKey b :=
  Prod.Lex.toLex_lt_toLex.mpr (.inl h)

/-- Values of one kind are numbers, or have one key. -/
theorem same_rank {a b : Json} (h : a.rank=b.rank) :
    (∃ m n, a=.num m∧b=.num n)∨sortKey a=sortKey b := by
  cases a <;> cases b <;> first | exact .inr rfl | exact .inl ⟨_,_,rfl,rfl⟩ | cases h

theorem cmp_num {m n : Json.Number} (hm : m.decimals=0) (hn : n.decimals=0) :
    (Json.num m).cmp (.num n)=compare m.digits n.digits := by
  simp [Json.cmp,hm,hn]

theorem sortKey_num {m : Json.Number} (hm : m.decimals=0) :
    sortKey (.num m)=toLex (2,m.digits) := by
  simp [sortKey,number,Json.Number.whole,hm,Json.rank]

theorem sortKey_le {a b : Json} (ha : Whole a) (hb : Whole b) (h : a.cmp b≠.gt) :
    sortKey a ≤ sortKey b := by
  by_cases hrank : a.rank=b.rank
  · cases same_rank hrank with
    | inr hsame => exact le_of_eq hsame
    | inl hnum =>
      obtain ⟨m,n,rfl,rfl⟩ := hnum
      rw [cmp_num (ha m rfl) (hb n rfl)] at h
      rw [sortKey_num (ha m rfl),sortKey_num (hb n rfl)]
      exact Prod.Lex.toLex_le_toLex.mpr (.inr ⟨rfl,compare_le_iff_le.mp h⟩)
  · rw [cmp_rank hrank] at h
    have hle : a.rank ≤ b.rank := compare_le_iff_le.mp h
    exact le_of_lt (sortKey_rank (lt_of_le_of_ne hle hrank))

theorem sortKey_ge {a b : Json} (ha : Whole a) (hb : Whole b) (h : a.cmp b=.gt) :
    sortKey b ≤ sortKey a := by
  by_cases hrank : a.rank=b.rank
  · cases same_rank hrank with
    | inr hsame => exact le_of_eq hsame.symm
    | inl hnum =>
      obtain ⟨m,n,rfl,rfl⟩ := hnum
      rw [cmp_num (ha m rfl) (hb n rfl)] at h
      rw [sortKey_num (ha m rfl),sortKey_num (hb n rfl)]
      exact Prod.Lex.toLex_le_toLex.mpr (.inr ⟨rfl,le_of_lt (compare_gt_iff_gt.mp h)⟩)
  · rw [cmp_rank hrank] at h
    exact le_of_lt (sortKey_rank (compare_gt_iff_gt.mp h))

/-- Values that sort alike name the same card. -/
theorem refId_of_cmp {a b : Json} (ha : Whole a) (hb : Whole b) (h : a.cmp b=.eq) :
    refId a=refId b := by
  by_cases hrank : a.rank=b.rank
  · cases a <;> cases b <;> first | rfl | (cases hrank; done) | skip
    · rename_i m n
      rw [cmp_num (ha m rfl) (hb n rfl)] at h
      have hdigits : m.digits=n.digits := compare_eq_iff_eq.mp h
      simp [refId,Json.Number.whole,ha m rfl,hb n rfl,hdigits]
    · rename_i s t
      simp only [Json.cmp,compareOfLessAndEq] at h
      split at h
      · cases h
      · split at h
        · rename_i hst
          rw [hst]
        · cases h
  · rw [cmp_rank hrank] at h
    exact absurd (compare_eq_iff_eq.mp h) hrank

theorem castRef_whole (h : castRef v=.ok ()) : Whole v := by
  intro n hn
  subst hn
  simp only [castRef,castBigint,Json.Number.whole] at h
  split at h
  · rename_i i hi
    exact (Option.ite_none_right_eq_some.mp hi).1
  · cases h

theorem isLoser_iff : isLoser losers v=true↔∃ l∈losers, refId v=some l := by
  rw [isLoser,Option.any_eq_true]
  constructor
  · intro h
    obtain ⟨l,hl,hmem⟩ := h
    exact ⟨l,by simpa using hmem,hl⟩
  · intro h
    obtain ⟨l,hmem,hl⟩ := h
    exact ⟨l,hl,by simpa using hmem⟩

/-- A value that names no loser stays. -/
theorem Repointed.unchanged {t : Option ValueType} (h : ∀ l∈losers, l∉namedIn t v) :
    Repointed survivor losers t v v where
  names := by
    intro id
    constructor
    · intro hid
      exact .inl ⟨hid,fun hl => h id hl hid⟩
    · intro hid
      cases hid with
      | inl hid => exact hid.1
      | inr hid =>
        obtain ⟨-,l,hl,hmem⟩ := hid
        exact absurd hmem (h l hl)
  scalar := by
    intro _ hl
    obtain ⟨l,hl,hmem⟩ := hl
    exact absurd hmem (h l hl)
  once := by
    intro _ hl
    obtain ⟨l,hl,hmem⟩ := hl
    exact absurd hmem (h l hl)
  same := fun _ => rfl

theorem repointed_ref : Repointed survivor losers (some .cardRef) v
    (repointed survivor losers .cardRef v) := by
  by_cases hloser : isLoser losers v=true
  · have hnew : repointed survivor losers .cardRef v=.ofInt survivor := by
      simp [repointed,hloser]
    obtain ⟨l,hl,hid⟩ := isLoser_iff.mp hloser
    have hnamed : namedIn (some .cardRef) v=[l] := by simp [namedIn,refIds,hid]
    rw [hnew]
    refine ⟨?_,fun _ _ => rfl,(fun h => by cases h),?_⟩
    · intro id
      have hleft : namedIn (some .cardRef) (.ofInt survivor)=[survivor] := by
        simp [namedIn,refIds,refId,Json.ofInt]
      rw [hleft,hnamed]
      constructor
      · intro h
        exact .inr ⟨by simpa using h,l,hl,by simp⟩
      · intro h
        cases h with
        | inl h => exact absurd ((List.mem_singleton.mp h.1) ▸ hl) h.2
        | inr h => simp [h.1]
    · intro h
      exact absurd (by simp [hnamed]) (h l hl)
  · have hnew : repointed survivor losers .cardRef v=v := by simp [repointed,hloser]
    rw [hnew]
    apply Repointed.unchanged
    intro l hl hmem
    exact hloser (isLoser_iff.mpr ⟨l,hl,by simpa [namedIn,refIds] using hmem⟩)

/-- An element of an array with its loser renamed. -/
def renamed (survivor : Int) (losers : List Int) (v : Json) : Json :=
  if isLoser losers v then .ofInt survivor else v

theorem renamed_whole (h : Whole v) : Whole (renamed survivor losers v) := by
  intro n hn
  unfold renamed at hn
  split at hn
  · cases hn
    rfl
  · exact h n hn

theorem refId_renamed {id : Int} : refId (renamed survivor losers v)=some id↔
    refId v=some id∧id∉losers∨id=survivor∧∃ l∈losers, refId v=some l := by
  by_cases hloser : isLoser losers v=true
  · obtain ⟨l,hl,hid⟩ := isLoser_iff.mp hloser
    have hleft : refId (renamed survivor losers v)=some survivor := by
      simp [renamed,hloser,refId,Json.ofInt]
    rw [hleft]
    constructor
    · intro h
      exact .inr ⟨(Option.some.inj h).symm,l,hl,hid⟩
    · intro h
      cases h with
      | inl h => exact absurd (Option.some.inj (hid.symm.trans h.1) ▸ hl) h.2
      | inr h => rw [h.1]
  · have hleft : renamed survivor losers v=v := by simp [renamed,hloser]
    rw [hleft]
    constructor
    · intro h
      exact .inl ⟨h,fun hl => hloser (isLoser_iff.mpr ⟨id,hl,h⟩)⟩
    · intro h
      cases h with
      | inl h => exact h.1
      | inr h => exact absurd (isLoser_iff.mpr h.2) hloser

/-- The array a touched one becomes. -/
def distinct (xs : List Json) : List Json :=
  (xs.insertionSort (Json.cmp · · ≠.gt)).eraseRepsBy (Json.cmp · · ==.eq)

theorem refIds_distinct (hw : ∀ x∈xs, Whole x) (id : Int) :
    id∈(distinct xs).filterMap refId↔∃ x∈xs, refId x=some id := by
  have hsorted : ∀ x∈xs.insertionSort (Json.cmp · · ≠.gt), Whole x :=
    fun x hx => hw x ((List.mem_insertionSort _).mp hx)
  have hkept : some id∈(distinct xs).map refId↔
      some id∈(xs.insertionSort (Json.cmp · · ≠.gt)).map refId :=
    Reps.mem_map_eraseRepsBy fun a ha b hb hab =>
      refId_of_cmp (hsorted a ha) (hsorted b hb) (by simpa using hab)
  simpa only [List.mem_map,List.mem_filterMap,List.mem_insertionSort] using hkept

theorem numbers_distinct (hw : ∀ x∈xs, Whole x) : (numbers (.arr (distinct xs))).Nodup := by
  have hsorted : ∀ x∈xs.insertionSort (Json.cmp · · ≠.gt), Whole x :=
    fun x hx => hw x ((List.mem_insertionSort _).mp hx)
  have hkeys : (xs.insertionSort (Json.cmp · · ≠.gt)).Pairwise fun a b => sortKey a ≤ sortKey b :=
    Reps.pairwise_insertionSort_key (fun a ha b hb h => sortKey_le (hw a ha) (hw b hb) h)
      fun a ha b hb h => sortKey_ge (hw a ha) (hw b hb) (not_not.mp h)
  have hapart : (distinct xs).Pairwise fun a b =>
      sortKey a ≤ sortKey b∧((∃ n, a=.num n) → sortKey a < sortKey b) := by
    refine Reps.eraseRepsBy_apart (fun a ha b hb hnum hkey => ?_) hkeys
    obtain ⟨m,rfl⟩ := hnum
    have hm := hsorted _ ha m rfl
    rw [sortKey_num hm] at hkey
    cases b with
    | num n =>
      have hn := hsorted _ hb n rfl
      rw [sortKey_num hn] at hkey
      have hdigits : m.digits=n.digits := congrArg (fun k => (ofLex k).2) hkey
      simp [cmp_num hm hn,hdigits]
    | _ => exact absurd (congrArg (fun k => (ofLex k).1) hkey) (by simp [sortKey,Json.rank])
  refine (List.pairwise_filterMap.mpr (hapart.imp fun {a b} hab i hi j hj => ?_))
  cases a with
  | num m =>
    cases b with
    | num n =>
      intro hij
      have hlt := hab.2 ⟨m,rfl⟩
      have hi : m.whole=some i := hi
      have hj : n.whole=some j := hj
      have hsame : sortKey (.num m)=sortKey (.num n) := by
        simp [sortKey,number,hi,hj,hij,Json.rank]
      exact absurd hsame (ne_of_lt hlt)
    | _ => cases hj
  | _ => cases hi

theorem repointed_refs (hw : ∀ x∈xs, Whole x) : Repointed survivor losers (some .cardRefs) (.arr xs)
    (repointed survivor losers .cardRefs (.arr xs)) := by
  have hnamed (id : Int) : id∈namedIn (some .cardRefs) (.arr xs)↔∃ x∈xs, refId x=some id := by
    simp [namedIn,refIds]
  by_cases htouched : xs.any (isLoser losers)=true
  · have hnew : repointed survivor losers .cardRefs (.arr xs)=
        .arr (distinct (xs.map (renamed survivor losers))) := if_pos htouched
    have hwhole : ∀ y∈xs.map (renamed survivor losers), Whole y := by
      intro y hy
      obtain ⟨x,hx,rfl⟩ := List.mem_map.mp hy
      exact renamed_whole (hw x hx)
    obtain ⟨x,hx,hloser⟩ := List.any_eq_true.mp htouched
    obtain ⟨l,hl,hid⟩ := isLoser_iff.mp hloser
    rw [hnew]
    refine ⟨?_,(fun h => by cases h),fun _ _ => numbers_distinct hwhole,?_⟩
    · intro id
      have hleft : id∈namedIn (some .cardRefs) (.arr (distinct (xs.map (renamed survivor losers))))↔
          ∃ x∈xs, refId (renamed survivor losers x)=some id := by
        have := refIds_distinct hwhole id
        simpa [namedIn,refIds] using this
      rw [hleft]
      simp only [hnamed,refId_renamed]
      constructor
      · intro h
        obtain ⟨y,hy,h⟩ := h
        cases h with
        | inl h => exact .inl ⟨⟨y,hy,h.1⟩,h.2⟩
        | inr h =>
          obtain ⟨hs,k,hk,hyk⟩ := h
          exact .inr ⟨hs,k,hk,y,hy,hyk⟩
      · intro h
        cases h with
        | inl h =>
          obtain ⟨⟨y,hy,hyid⟩,hout⟩ := h
          exact ⟨y,hy,.inl ⟨hyid,hout⟩⟩
        | inr h =>
          obtain ⟨hs,k,hk,y,hy,hyk⟩ := h
          exact ⟨y,hy,.inr ⟨hs,k,hk,hyk⟩⟩
    · intro h
      exact absurd ((hnamed l).mpr ⟨x,hx,hid⟩) (h l hl)
  · have hnew : repointed survivor losers .cardRefs (.arr xs)=.arr xs := if_neg htouched
    rw [hnew]
    apply Repointed.unchanged
    intro l hl hmem
    obtain ⟨x,hx,hid⟩ := (hnamed l).mp hmem
    exact htouched (List.any_eq_true.mpr ⟨x,hx,isLoser_iff.mpr ⟨l,hl,hid⟩⟩)

/-- The casts of a row's value went through. -/
def Casts (t : Option ValueType) (v : Json) : Prop :=
  t=some .cardRefs → ∀ xs, v=.arr xs → ∀ x∈xs, Whole x

theorem castRefs_ok (h : castRefs db=.ok ()) {row : AttributeValue} (hrow : row∈db.values) :
    Casts (valueTypeOf db row.attributeDefId) row.value := by
  intro ht xs hv x hx
  have hcast := forM_ok h row hrow
  rw [ht,hv] at hcast
  exact castRef_whole (forM_ok hcast x hx)

theorem repointed_spec {t : Option ValueType} (h : Casts t v) :
    Repointed survivor losers t v (t.elim v fun t => repointed survivor losers t v) := by
  have hplain (t : ValueType) (hnew : repointed survivor losers t v=v) (hnone : refIds t v=[]) :
      Repointed survivor losers (some t) v (repointed survivor losers t v) := by
    rw [hnew]
    apply Repointed.unchanged
    intro l _
    simp [namedIn,hnone]
  cases t with
  | none =>
    apply Repointed.unchanged
    intro l _
    simp [namedIn]
  | some t =>
    cases t with
    | cardRef => exact repointed_ref
    | cardRefs =>
      cases v with
      | arr xs => exact repointed_refs (h rfl xs rfl)
      | _ => exact hplain .cardRefs rfl rfl
    | text => exact hplain .text rfl rfl
    | number => exact hplain .number rfl rfl
    | bool => exact hplain .bool rfl rfl
    | date => exact hplain .date rfl rfl

/-- The row of a card after the merge. -/
def afterMerge (survivor : Int) (losers moved : List Int) (r : Card) : Card :=
  { r with
    parentCardId := if r.id∈moved then some survivor else r.parentCardId
    privateTo := if r.privateTo.any (· ∈ losers) then some survivor else r.privateTo
    deleted := r.deleted||decide (r.id∈losers) }

theorem mergeInto_card : (mergeInto (adopt db actor survivor losers) actor survivor losers).card x=
    (db.card x).map (afterMerge survivor losers ((orphans db losers).map (·.id))) := by
  let owner (r : Card) : Card :=
    if r.privateTo.any (· ∈ losers) then { r with privateTo := some survivor } else r
  let drop (r : Card) : Card := if r.id∈losers then { r with deleted := true } else r
  have hrows : (mergeInto (adopt db actor survivor losers) actor survivor losers).card x=
      ((((db.setParent (· ∈ (orphans db losers).map (·.id)) survivor).mapCards owner).mapCards
        drop).card x) := rfl
  rw [hrows,mapCards_card (by intro r; simp only [drop]; split <;> rfl),
    mapCards_card (by intro r; simp only [owner]; split <;> rfl),setParent_card]
  cases hr : db.card x with
  | none => rfl
  | some r =>
    have hid : r.id=x := card_id hr
    subst hid
    simp only [Option.map_some,owner,drop,afterMerge,decide_eq_true_eq]
    congr 1
    split <;> split <;> split <;> simp_all

theorem mem_orphans (hkey : ∀ r∈db.cards, db.card r.id=some r) (hr : db.card x=some r) :
    x∈(orphans db losers).map (·.id)↔r.deleted=false∧∃ l∈losers, r.parentCardId=some l := by
  have hparent : r.parentCardId.any (· ∈ losers)=true↔∃ l∈losers, r.parentCardId=some l := by
    rw [Option.any_eq_true]
    constructor
    · intro h
      obtain ⟨l,hl,hmem⟩ := h
      exact ⟨l,by simpa using hmem,hl⟩
    · intro h
      obtain ⟨l,hmem,hl⟩ := h
      exact ⟨l,hl,by simpa using hmem⟩
  constructor
  · intro h
    obtain ⟨q,hq,hid⟩ := List.mem_map.mp h
    obtain ⟨hmem,hcond⟩ := List.mem_filter.mp hq
    have hqr : q=r := Option.some.inj ((hkey q hmem).symm.trans (hid ▸ hr))
    subst hqr
    have hcond : q.deleted=false∧q.parentCardId.any (· ∈ losers)=true := by simpa using hcond
    exact ⟨hcond.1,hparent.mp hcond.2⟩
  · intro h
    refine List.mem_map.mpr ⟨r,List.mem_filter.mpr ⟨List.mem_of_find?_eq_some hr,?_⟩,card_id hr⟩
    have hany := hparent.mpr h.2
    simp [h.1,hany]

theorem mergeInto_value : (mergeInto (adopt db actor survivor losers) actor survivor losers).value c d=
    (db.value c d).map fun v =>
      (valueTypeOf db d).elim v fun t => repointed survivor losers t v := by
  simp only [Db.value,mergeInto,adopt,Db.setParent,Db.mapCards,List.find?_map,Option.map_map,
    Function.comp_def]
  cases hrow : db.values.find? fun w => w.cardId=c∧w.attributeDefId=d with
  | none => rfl
  | some row =>
    have hkeys : row.cardId=c∧row.attributeDefId=d := by simpa using List.find?_some hrow
    simp only [Option.map_some,hkeys.2,valueTypeOf,Option.elim_map]
    rfl

theorem mergeRow_ok {input : Input} (h : mergeRow env db actor input=.ok db') :
    merge env db actor input=.ok db'∧castRefs db=.ok () := by
  unfold mergeRow at h
  obtain ⟨left,hleft,h⟩ := bind_ok h
  obtain ⟨_,hcasts,h⟩ := bind_ok h
  cases h
  exact ⟨hleft,hcasts⟩

/-- After a merge no reference names a loser: each is as it was with the losers made the
survivor, every other value is as it was, the losers' live cards are the survivor's, and the
losers are deleted. -/
theorem merge_leaves {input : Input} (hkey : ∀ r∈db.cards, db.card r.id=some r)
    (h : mergeRow env db actor input=.ok db') :
    ∃ survivor losers, validate input=.ok (survivor,losers)∧
      (∀ c d, (db'.value c d).isSome=(db.value c d).isSome)∧
      (∀ c d v v', db.value c d=some v → db'.value c d=some v' →
        Repointed survivor losers (valueTypeOf db d) v v'∧
          ∀ l∈losers, l∉namedIn (valueTypeOf db d) v')∧
      (∀ x r, db.card x=some r → db'.parent x=
        if r.deleted=false∧∃ l∈losers, r.parentCardId=some l then some survivor
        else r.parentCardId)∧
      ∀ l∈losers, ∃ r, db'.card l=some r∧r.deleted=true := by
  obtain ⟨hmerge,hcasts⟩ := mergeRow_ok h
  obtain ⟨survivor,losers,s,hvalid,-,-,hlosers,rfl⟩ := merge_alike hmerge
  have hout : survivor∉losers := validate_ok hvalid
  refine ⟨survivor,losers,hvalid,?_,?_,?_,?_⟩
  · intro c d
    rw [mergeInto_value,Option.isSome_map]
  · intro c d v v' hv hv'
    rw [mergeInto_value,hv] at hv'
    obtain ⟨row,hrow,hrowv⟩ := Option.map_eq_some_iff.mp hv
    have hkeys : row.cardId=c∧row.attributeDefId=d := by simpa using List.find?_some hrow
    have hcast := castRefs_ok hcasts (List.mem_of_find?_eq_some hrow)
    rw [hkeys.2,hrowv] at hcast
    have hspec : Repointed survivor losers (valueTypeOf db d) v v' :=
      Option.some.inj hv' ▸ repointed_spec hcast
    refine ⟨hspec,fun l hl hmem => ?_⟩
    cases (hspec.names l).mp hmem with
    | inl hkept => exact hkept.2 hl
    | inr hnew => exact hout (hnew.1 ▸ hl)
  · intro x r hr
    have hmoved : x∈(orphans db losers).map (·.id)↔
        r.deleted=false∧∃ l∈losers, r.parentCardId=some l := mem_orphans hkey hr
    have hrow : (mergeInto (adopt db actor survivor losers) actor survivor losers).card x=
        some (afterMerge survivor losers ((orphans db losers).map (·.id)) r) := by
      rw [mergeInto_card,hr,Option.map_some]
    simp only [Db.parent,hrow,Option.bind_some,afterMerge,card_id hr,hmoved]
  · intro l hl
    obtain ⟨r,hr,-⟩ := hlosers l hl
    exact ⟨_,by rw [mergeInto_card,hr]; rfl,by simp [afterMerge,card_id hr,hl]⟩

/-- A project, a task with a list of components, and a component with a deleted card under it. -/
def shop : Db where
  cardTypes := [⟨1,"project",none,false⟩,⟨2,"task",some 1,true⟩,⟨3,"component",some 1,true⟩]
  attributeDefs := [⟨7,"components",.cardRefs,some 3,none⟩]
  cards := [⟨1,1,none,none,false,.triage⟩,⟨2,2,some 1,none,false,.triage⟩,
    ⟨4,3,some 1,none,false,.triage⟩,⟨5,3,some 1,none,false,.triage⟩,
    ⟨6,3,some 1,none,false,.triage⟩,⟨9,3,some 1,none,false,.triage⟩,
    ⟨12,3,some 9,none,true,.triage⟩]
  values := [⟨2,7,.arr [.ofInt 9,.ofInt 6,.ofInt 5]⟩]
  edges := [⟨2,7,false,0⟩]

def anyone : CardInsert.Env := ⟨CardMove.allowed,⟨[],[],[],[]⟩,⟨[],[],[]⟩,fun _ => none⟩

/-- The ninth is merged into the fourth. -/
def ninth : Input := ⟨some 4,[.str "9"]⟩

/-- The list comes back sorted, and the deleted card stays under the loser. -/
theorem order_lost : ∃ db', mergeRow anyone shop 7 ninth=.ok db'∧validate ninth=.ok (4,[9])∧
    shop.value 2 7=some (.arr [.ofInt 9,.ofInt 6,.ofInt 5])∧
      db'.value 2 7=some (.arr [.ofInt 4,.ofInt 5,.ofInt 6])∧
        shop.parent 12=some 9∧db'.parent 12=some 9 := by
  have hend : (mergeRow anyone shop 7 ninth).toOption.map (fun db' => (db'.value 2 7,db'.parent 12))=
      some (some (.arr [.ofInt 4,.ofInt 5,.ofInt 6]),some 9) := by decide
  obtain ⟨db',hdb,hend⟩ := Option.map_eq_some_iff.mp hend
  simp only [Prod.mk.injEq] at hend
  exact ⟨db',ok_of_toOption hdb,by decide,rfl,hend.1,rfl,hend.2⟩

theorem ninth_merged : ∃ db', mergeRow anyone shop 7 ninth=.ok db'∧
    ∃ r, db'.card 9=some r∧r.deleted=true := by
  have hend : ((mergeRow anyone shop 7 ninth).toOption).isSome=true := by decide
  obtain ⟨db',hdb⟩ := Option.isSome_iff_exists.mp hend
  have hok := ok_of_toOption hdb
  obtain ⟨survivor,losers,hvalid,-,-,-,hgone⟩ := merge_leaves (by decide) hok
  have hlosers : (survivor,losers)=(4,[9]) :=
    Except.ok.inj (hvalid.symm.trans (by decide : validate ninth=.ok (4,[9])))
  have h9 : (9 : Int)∈losers := by
    have hlist : losers=[9] := congrArg Prod.snd hlosers
    rw [hlist]
    exact List.mem_singleton_self 9
  exact ⟨db',hok,hgone 9 h9⟩

end Kitp.CardMergeRefs
