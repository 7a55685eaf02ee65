import Kitp.Lib.Bounded
import Kitp.KanbanBoard
import Mathlib.Data.List.Perm.Basic
import Mathlib.Data.List.Sort

/-! Each card is in one column. -/
namespace Kitp.KanbanBoard

variable {keyOf : CardWithAttrs → String} {cards : List CardWithAttrs} {out : Buckets}
  {c : CardWithAttrs} {k : String}

/-- The buckets of the cards, each with all its cards. -/
structure Filed (keyOf : CardWithAttrs → String) (cards : List CardWithAttrs) (out : Buckets) :
    Prop where
  nodup : (out.map Prod.fst).Nodup
  bucket : ∀ e∈out, e.2=cards.filter fun c => keyOf c=e.1
  key : ∀ c∈cards, keyOf c∈out.map Prod.fst
  own : ∀ e∈out, e.1∉inherited

theorem lookup_mem {bucket : List CardWithAttrs} (h : out.lookup k=some bucket) :
    (k,bucket)∈out := by
  obtain ⟨before,after,rfl,-⟩ := List.lookup_eq_some_iff.mp h
  exact List.mem_append_right before List.mem_cons_self

theorem lookup_none (h : out.lookup k=none) : k∉out.map Prod.fst := by
  intro hk
  obtain ⟨e,he,rfl⟩ := List.mem_map.mp hk
  have hne := List.lookup_eq_none_iff.mp h e he
  rw [bne_self_eq_false] at hne
  cases hne

theorem Filed.cell (h : Filed keyOf cards out) :
    (out.lookup k).getD []=cards.filter fun c => keyOf c=k := by
  cases hk : out.lookup k with
  | some bucket =>
    rw [Option.getD_some]
    exact h.bucket _ (lookup_mem hk)
  | none =>
    symm
    rw [Option.getD_none,List.filter_eq_nil_iff]
    intro c hc hsame
    exact lookup_none hk (of_decide_eq_true hsame ▸ h.key c hc)

/-- A card goes to its bucket, or to a new one. -/
theorem addCard_filed (h : Filed keyOf cards out) (hc : keyOf c∉inherited) :
    ∃ out', addCard keyOf out c=.ok out'∧Filed keyOf (cards++[c]) out' := by
  have hlast : ∀ {k}, k≠keyOf c →
      (cards++[c]).filter (fun c => keyOf c=k)=cards.filter fun c => keyOf c=k := by
    intro k hne
    simp [List.filter_append,hne.symm]
  have hmine : (cards++[c]).filter (fun c' => keyOf c'=keyOf c)=
      (cards.filter fun c' => keyOf c'=keyOf c)++[c] := by
    simp [List.filter_append]
  unfold addCard
  dsimp only
  cases hk : out.lookup (keyOf c) with
  | some bucket =>
    have hkeys : (out.map fun e => if e.1=keyOf c then (keyOf c,e.2++[c]) else e).map Prod.fst=
        out.map Prod.fst := by
      rw [List.map_map]
      refine List.map_congr_left fun e _ => ?_
      dsimp only [Function.comp_apply]
      split
      · exact (‹e.1=keyOf c›).symm
      · rfl
    refine ⟨_,rfl,hkeys ▸ h.nodup,?_,?_,?_⟩
    · intro e he
      obtain ⟨old,hold,rfl⟩ := List.mem_map.mp he
      split
      · rename_i hsame
        dsimp only
        rw [hmine,h.bucket old hold,hsame]
      · rename_i hne
        rw [hlast hne]
        exact h.bucket old hold
    · rw [hkeys]
      intro c' hc'
      cases List.mem_append.mp hc' with
      | inl hold => exact h.key c' hold
      | inr hnew =>
        rw [List.mem_singleton.mp hnew]
        exact List.mem_map.mpr ⟨_,lookup_mem hk,rfl⟩
    · intro e he
      obtain ⟨old,hold,rfl⟩ := List.mem_map.mp he
      split
      · exact hc
      · exact h.own old hold
  | none =>
    have hnew := lookup_none hk
    have hempty : (cards.filter fun c' => keyOf c'=keyOf c)=[] := by
      rw [List.filter_eq_nil_iff]
      intro c' hc' hsame
      exact hnew (of_decide_eq_true hsame ▸ h.key c' hc')
    dsimp only
    rw [if_neg hc]
    refine ⟨_,rfl,?_,?_,?_,?_⟩
    · rw [List.map_append,List.nodup_append]
      refine ⟨h.nodup,List.nodup_singleton _,?_⟩
      intro a ha b hb hab
      rw [hab,List.mem_singleton.mp hb] at ha
      exact hnew ha
    · intro e he
      cases List.mem_append.mp he with
      | inl hold =>
        have hne : e.1≠keyOf c := fun hsame => hnew (hsame ▸ List.mem_map_of_mem hold)
        rw [hlast hne]
        exact h.bucket e hold
      | inr hlast' =>
        rw [List.mem_singleton.mp hlast',hmine,hempty]
        rfl
    · intro c' hc'
      rw [List.map_append]
      cases List.mem_append.mp hc' with
      | inl hold => exact List.mem_append_left _ (h.key c' hold)
      | inr hnew' =>
        rw [List.mem_singleton.mp hnew']
        exact List.mem_append_right _ List.mem_cons_self
    · intro e he
      cases List.mem_append.mp he with
      | inl hold => exact h.own e hold
      | inr hlast' =>
        rw [List.mem_singleton.mp hlast']
        exact hc

/-- A key that every object answers to stops the grouping. -/
theorem addCard_inherited (h : Filed keyOf cards out) (hc : keyOf c∈inherited) :
    addCard keyOf out c=.error "TypeError: bucket.push is not a function" := by
  unfold addCard
  dsimp only
  cases hk : out.lookup (keyOf c) with
  | some bucket => exact absurd hc (h.own _ (lookup_mem hk))
  | none =>
    dsimp only
    rw [if_pos hc]

theorem fold_filed {rest : List CardWithAttrs} (h : Filed keyOf cards out)
    (hrest : ∀ c∈rest, keyOf c∉inherited) :
    ∃ out', rest.foldlM (addCard keyOf) out=.ok out'∧Filed keyOf (cards++rest) out' := by
  induction rest generalizing cards out with
  | nil => exact ⟨out,rfl,by rwa [List.append_nil]⟩
  | cons c rest ih =>
    obtain ⟨out',hadd,hfiled⟩ := addCard_filed h (hrest c List.mem_cons_self)
    obtain ⟨out'',hfold,hall⟩ := ih hfiled fun c' hc' => hrest c' (List.mem_cons_of_mem c hc')
    refine ⟨out'',?_,by simpa using hall⟩
    rw [List.foldlM_cons,hadd]
    exact hfold

theorem fold_inherited {rest : List CardWithAttrs} (h : Filed keyOf cards out) (hc : c∈rest)
    (hk : keyOf c∈inherited) :
    rest.foldlM (addCard keyOf) out=.error "TypeError: bucket.push is not a function" := by
  induction rest generalizing cards out with
  | nil => exact absurd hc List.not_mem_nil
  | cons first rest ih =>
    rw [List.foldlM_cons]
    by_cases hfirst : keyOf first∈inherited
    · rw [addCard_inherited h hfirst]
      rfl
    · obtain ⟨out',hadd,hfiled⟩ := addCard_filed h hfirst
      rw [hadd]
      have hne : c≠first := fun hsame => hfirst (hsame ▸ hk)
      exact ih hfiled ((List.mem_cons.mp hc).resolve_left hne)

theorem filed_nil (keyOf : CardWithAttrs → String) : Filed keyOf [] [] := by
  refine ⟨List.nodup_nil,?_,?_,?_⟩
  · exact fun e he => absurd he List.not_mem_nil
  · exact fun c hc => absurd hc List.not_mem_nil
  · exact fun e he => absurd he List.not_mem_nil

theorem bucketByKey_filed (hkeys : ∀ c∈cards, keyOf c∉inherited) :
    ∃ out, bucketByKey cards keyOf=.ok out∧Filed keyOf cards out :=
  fold_filed (filed_nil keyOf) hkeys

theorem bucketByKey_inherited (hc : c∈cards) (hk : keyOf c∈inherited) :
    bucketByKey cards keyOf=.error "TypeError: bucket.push is not a function" :=
  fold_inherited (filed_nil keyOf) hc hk

theorem objectKeys_perm (out : Buckets) : (objectKeys out).Perm (out.map Prod.fst) := by
  have hsplit := List.filter_append_perm (fun k => (arrayIndex k).isSome) (out.map Prod.fst)
  have hrest : ∀ k : String, (!(arrayIndex k).isSome)=(arrayIndex k).isNone := by
    intro k
    cases arrayIndex k <;> rfl
  unfold objectKeys
  refine ((List.mergeSort_perm _ _).append_right _).trans ?_
  simpa only [hrest] using hsplit

theorem addKey_nodup {keys : List String} (h : keys.Nodup) : (addKey keys k).Nodup := by
  unfold addKey
  split
  · exact h
  · rw [List.nodup_append]
    refine ⟨h,List.nodup_singleton k,?_⟩
    intro a ha b hb hab
    rw [hab,List.mem_singleton.mp hb] at ha
    exact absurd ha ‹_›

theorem mem_addKey {keys : List String} {a : String} : a∈addKey keys k↔a∈keys∨a=k := by
  unfold addKey
  split
  · constructor
    · exact Or.inl
    · rintro (ha | rfl)
      · exact ha
      · assumption
  · rw [List.mem_append,List.mem_singleton]

/-- The text of a bigint. -/
theorem int_text {n : Int} {ch : Char} (h : ch∈(toString n).toList) : ch.isDigit=true∨ch = '-' := by
  cases n with
  | ofNat m =>
    have hdigits : ch∈(Nat.repr m).toList := h
    rw [Nat.toList_repr] at hdigits
    exact Or.inl (Nat.isDigit_of_mem_toDigits (by omega) (by omega) hdigits)
  | negSucc m =>
    have hsigned : ch∈("-"++Nat.repr (m+1)).toList := h
    rw [String.toList_append,List.mem_append,Nat.toList_repr] at hsigned
    cases hsigned with
    | inl hsign => exact Or.inr (by simpa using hsign)
    | inr hdigits => exact Or.inl (Nat.isDigit_of_mem_toDigits (by omega) (by omega) hdigits)

theorem int_text_ne (n : Int) : toString n≠UNSET_KEY∧toString n∉inherited := by
  have hall : ∀ k∈UNSET_KEY::inherited, ∃ ch∈k.toList, ¬(ch.isDigit=true∨ch = '-') := by decide
  have hne : ∀ k∈UNSET_KEY::inherited, toString n≠k := by
    rintro k hk rfl
    obtain ⟨ch,hch,hnot⟩ := hall _ hk
    exact hnot (int_text hch)
  exact ⟨hne _ List.mem_cons_self,fun hmem => hne _ (List.mem_cons_of_mem _ hmem) rfl⟩

theorem columnKeyOf_own (target : Option Int) : columnKeyOf target∉inherited := by
  cases target with
  | none => decide
  | some id => exact (int_text_ne id).2

/-- The columns so far: one for each key, the unset ones' still to come. -/
structure Ordered (keys : List String) : Prop where
  nodup : keys.Nodup
  unset : UNSET_KEY∉keys

theorem addKey_ordered {keys : List String} (h : Ordered keys) (hk : k≠UNSET_KEY) :
    Ordered (addKey keys k) := by
  refine ⟨addKey_nodup h.nodup,?_⟩
  intro hunset
  cases mem_addKey.mp hunset with
  | inl hold => exact h.unset hold
  | inr hsame => exact hk hsame.symm

theorem fold_ordered {α : Type} {f : List String → α → List String} {keys : List String}
    (hf : ∀ keys a, Ordered keys → Ordered (f keys a)∧∀ k∈keys, k∈f keys a) (l : List α)
    (h : Ordered keys) : Ordered (l.foldl f keys)∧∀ k∈keys, k∈l.foldl f keys := by
  induction l generalizing keys with
  | nil => exact ⟨h,fun _ hk => hk⟩
  | cons a l ih =>
    obtain ⟨hnext,hkept⟩ := hf keys a h
    obtain ⟨hlast,hall⟩ := ih hnext
    exact ⟨hlast,fun k hk => hall k (hkept k hk)⟩

theorem seen_ordered (keys : List String) (k : String) (h : Ordered keys) :
    Ordered (if k=UNSET_KEY then keys else addKey keys k)∧
      ∀ k'∈keys, k'∈if k=UNSET_KEY then keys else addKey keys k := by
  split
  · exact ⟨h,fun _ hk => hk⟩
  · exact ⟨addKey_ordered h ‹_›,fun _ hk => mem_addKey.mpr (Or.inl hk)⟩

theorem seen_listed {seenKeys keys : List String} (h : Ordered keys) (hk : k∈seenKeys) :
    k=UNSET_KEY∨
      k∈seenKeys.foldl (fun keys k => if k=UNSET_KEY then keys else addKey keys k) keys := by
  induction seenKeys generalizing keys with
  | nil => exact absurd hk List.not_mem_nil
  | cons first rest ih =>
    by_cases hunset : k=UNSET_KEY
    · exact Or.inl hunset
    · have hnext := seen_ordered keys first h
      cases List.mem_cons.mp hk with
      | inl hfirst =>
        subst hfirst
        right
        refine (fold_ordered seen_ordered rest hnext.1).2 k ?_
        rw [if_neg hunset]
        exact mem_addKey.mpr (Or.inr rfl)
      | inr hrest => exact ih hnext.1 hrest

/-- Each column once, with every key among them. -/
theorem columnOrder_spec (valueCardIds : List Int) (seenKeys : List String) :
    (columnOrder valueCardIds seenKeys).Nodup∧∀ k∈seenKeys, k∈columnOrder valueCardIds seenKeys := by
  have hids := (fold_ordered (f := fun out id => addKey out (toString id))
    (fun keys id h => ⟨addKey_ordered h (int_text_ne id).1,
      fun _ hk => mem_addKey.mpr (Or.inl hk)⟩) valueCardIds ⟨List.nodup_nil,List.not_mem_nil⟩).1
  have hall := (fold_ordered seen_ordered seenKeys hids).1
  unfold columnOrder
  dsimp only
  refine ⟨?_,?_⟩
  · rw [List.nodup_append]
    refine ⟨hall.nodup,List.nodup_singleton _,?_⟩
    intro a ha b hb hab
    rw [hab,List.mem_singleton.mp hb] at ha
    exact hall.unset ha
  · intro k hk
    cases seen_listed hids hk with
    | inl hunset => exact List.mem_append_right _ (hunset ▸ List.mem_cons_self)
    | inr hlisted => exact List.mem_append_left _ hlisted

/-- Filing by distinct keys that cover all loses and doubles nothing. -/
theorem filed_perm {keys : List String} (hkeys : keys.Nodup) (hall : ∀ c∈cards, keyOf c∈keys) :
    (keys.flatMap fun k => cards.filter fun c => keyOf c=k).Perm cards := by
  induction keys generalizing cards with
  | nil =>
    cases cards with
    | nil => exact List.Perm.refl []
    | cons c rest => exact absurd (hall c List.mem_cons_self) List.not_mem_nil
  | cons k keys ih =>
    obtain ⟨hk,hnodup⟩ := List.nodup_cons.mp hkeys
    have hothers : (keys.flatMap fun k' => cards.filter fun c => keyOf c=k')=
        keys.flatMap fun k' => (cards.filter fun c => !decide (keyOf c=k)).filter
          fun c => keyOf c=k' := by
      refine List.flatMap_congr fun k' hk' => ?_
      rw [List.filter_filter]
      refine List.filter_congr fun c _ => ?_
      by_cases hc : keyOf c=k'
      · have hne : keyOf c≠k := fun hsame => hk (hsame ▸ hc ▸ hk')
        simp [hc,hc ▸ hne]
      · simp [hc]
    rw [List.flatMap_cons,hothers]
    refine (List.Perm.append_left _ (ih hnodup ?_)).trans (List.filter_append_perm _ cards)
    intro c hc
    obtain ⟨hmem,hne⟩ := List.mem_filter.mp hc
    refine (List.mem_cons.mp (hall c hmem)).resolve_left ?_
    simpa using hne

theorem sortByOrder_perm (cards : List CardWithAttrs) : (sortByOrder cards).Perm cards :=
  List.mergeSort_perm cards _

/-- The board of cards with keys of their own. -/
structure Shown (keyOf : CardWithAttrs → String) (cards : List CardWithAttrs)
    (b : List (String×List CardWithAttrs)) : Prop where
  nodup : (b.map Prod.fst).Nodup
  column : ∀ e∈b, e.2=bucketColumn keyOf cards e.1
  key : ∀ c∈cards, keyOf c∈b.map Prod.fst

theorem board_shown (valueCardIds : List Int) (hkeys : ∀ c∈cards, keyOf c∉inherited) :
    ∃ b, board valueCardIds keyOf cards=.ok b∧Shown keyOf cards b := by
  obtain ⟨out,hout,hfiled⟩ := bucketByKey_filed hkeys
  obtain ⟨hnodup,hall⟩ := columnOrder_spec valueCardIds (objectKeys out)
  have hfst : ∀ keys : List String, (keys.map fun key =>
      (key,sortByOrder ((out.lookup key).getD []))).map Prod.fst=keys := by
    intro keys
    rw [List.map_map]
    exact List.map_id keys
  unfold board
  rw [hout]
  refine ⟨_,rfl,(hfst _).symm ▸ hnodup,?_,?_⟩
  · intro e he
    obtain ⟨key,-,rfl⟩ := List.mem_map.mp he
    dsimp only
    rw [hfiled.cell]
    rfl
  · intro c hc
    rw [hfst]
    exact hall _ ((objectKeys_perm out).mem_iff.mpr (hfiled.key c hc))

theorem Shown.lists {b : List (String×List CardWithAttrs)} (h : Shown keyOf cards b) :
    (b.flatMap Prod.snd).Perm cards := by
  have hcolumns : b.flatMap Prod.snd=
      (b.map Prod.fst).flatMap fun key => bucketColumn keyOf cards key := by
    rw [List.flatMap_map]
    exact List.flatMap_congr fun e he => h.column e he
  rw [hcolumns]
  refine (List.Perm.flatMap_left _ fun key _ => sortByOrder_perm _).trans ?_
  exact filed_perm h.nodup h.key

/-- The board lists every card once, unless a card's key is one every object answers to. -/
theorem board_lists_iff {valueCardIds : List Int} :
    (∃ b, board valueCardIds keyOf cards=.ok b∧(b.flatMap Prod.snd).Perm cards)↔
      ∀ c∈cards, keyOf c∉inherited := by
  constructor
  · rintro ⟨b,hb,-⟩ c hc hk
    unfold board at hb
    rw [bucketByKey_inherited hc hk] at hb
    cases hb
  · intro hkeys
    obtain ⟨b,hb,hshown⟩ := board_shown valueCardIds hkeys
    exact ⟨b,hb,hshown.lists⟩

end Kitp.KanbanBoard
