import Mathlib.Order.Lattice
import Mathlib.Data.List.Basic
import Mathlib.Data.List.Sort

/-! Lists with each run of like elements cut down to its first. -/
namespace Kitp.Reps

variable {α β : Type*} {r : α → α → Bool} {l : List α} {a x : α}

theorem loop_append (r : α → α → Bool) (a : α) (l acc : List α) :
    List.eraseRepsBy.loop r a l acc=acc.reverse++List.eraseRepsBy.loop r a l [] := by
  induction l generalizing a acc with
  | nil => simp [List.eraseRepsBy.loop]
  | cons b l ih =>
    rw [List.eraseRepsBy.loop,List.eraseRepsBy.loop]
    split
    · exact ih a acc
    · rw [ih b (a::acc),ih b [a],List.reverse_cons,List.append_assoc]
      rfl

theorem eraseRepsBy_cons (r : α → α → Bool) (a b : α) (l : List α) :
    (a::b::l).eraseRepsBy r=
      if r a b then (a::l).eraseRepsBy r else a::(b::l).eraseRepsBy r := by
  change List.eraseRepsBy.loop r a (b::l) []=_
  rw [List.eraseRepsBy.loop]
  split
  · rename_i h
    simp [h,List.eraseRepsBy]
  · rename_i h
    rw [loop_append]
    simp [h,List.eraseRepsBy]

theorem mem_eraseRepsBy (h : x∈l.eraseRepsBy r) : x∈l := by
  cases l with
  | nil => simp [List.eraseRepsBy] at h
  | cons a l =>
    induction l generalizing a with
    | nil => simpa [List.eraseRepsBy,List.eraseRepsBy.loop] using h
    | cons b l ih =>
      rw [eraseRepsBy_cons] at h
      split at h
      · cases List.mem_cons.mp (ih a h) with
        | inl h => exact h ▸ List.mem_cons_self
        | inr h => exact List.mem_cons_of_mem _ (List.mem_cons_of_mem _ h)
      · cases List.mem_cons.mp h with
        | inl h => exact h ▸ List.mem_cons_self
        | inr h => exact List.mem_cons_of_mem _ (ih b h)

theorem map_eraseRepsBy (f : β → α) (l : List β) :
    (l.map f).eraseRepsBy r=(l.eraseRepsBy fun a b => r (f a) (f b)).map f := by
  cases l with
  | nil => rfl
  | cons a l =>
    induction l generalizing a with
    | nil => rfl
    | cons b l ih =>
      rw [List.map_cons,List.map_cons,eraseRepsBy_cons,eraseRepsBy_cons]
      split
      · exact ih a
      · have hb : (f b::l.map f).eraseRepsBy r=_ := ih b
        rw [hb,List.map_cons]

/-- In a sorted list every element stays, once. -/
theorem eraseRepsBy_sorted [LinearOrder α] (hr : ∀ a b, r a b=true↔a=b)
    (hl : l.Pairwise (· ≤ ·)) : (l.eraseRepsBy r).Pairwise (· < ·)∧
      ∀ x, x∈l.eraseRepsBy r↔x∈l := by
  cases l with
  | nil => simp [List.eraseRepsBy]
  | cons a l =>
    induction l generalizing a with
    | nil => simp [List.eraseRepsBy,List.eraseRepsBy.loop]
    | cons b l ih =>
      obtain ⟨ha,htail⟩ := List.pairwise_cons.mp hl
      rw [eraseRepsBy_cons]
      split
      · rename_i hab
        have hab : a=b := (hr a b).mp hab
        subst hab
        obtain ⟨hlt,hmem⟩ := ih a htail
        exact ⟨hlt,fun x => by rw [hmem]; simp⟩
      · rename_i hab
        have hab : a≠b := fun heq => hab ((hr a b).mpr heq)
        obtain ⟨hlt,hmem⟩ := ih b htail
        refine ⟨List.pairwise_cons.mpr ⟨fun x hx => ?_,hlt⟩,fun x => by simp [hmem]⟩
        have hxb := (hmem x).mp hx
        have hle : b ≤ x := by
          cases List.mem_cons.mp hxb with
          | inl hx => exact hx ▸ le_refl _
          | inr hx => exact (List.pairwise_cons.mp htail).1 x hx
        exact lt_of_lt_of_le (lt_of_le_of_ne (ha b List.mem_cons_self) hab) hle

/-- Nothing that like elements share is lost. -/
theorem mem_map_eraseRepsBy {f : α → β} {y : β}
    (hr : ∀ a∈l, ∀ b∈l, r a b=true → f a=f b) : y∈(l.eraseRepsBy r).map f↔y∈l.map f := by
  cases l with
  | nil => simp [List.eraseRepsBy]
  | cons a l =>
    induction l generalizing a with
    | nil => simp [List.eraseRepsBy,List.eraseRepsBy.loop]
    | cons b l ih =>
      rw [eraseRepsBy_cons]
      split
      · rename_i hab
        have hsame : f a=f b := hr a (by simp) b (by simp) hab
        rw [ih a fun x hx z hz => hr x (by grind) z (by grind)]
        simp [hsame]
      · have htail := ih b fun x hx z hz => hr x (List.mem_cons_of_mem _ hx) z (List.mem_cons_of_mem _ hz)
        rw [List.map_cons,List.mem_cons,htail]
        simp

/-- In a list sorted by a key, what is like everything of its own key stays once. -/
theorem eraseRepsBy_apart {κ : Type*} [LinearOrder κ] {key : α → κ} {p : α → Prop}
    (hr : ∀ a∈l, ∀ b∈l, p a → key a=key b → r a b=true)
    (hl : l.Pairwise fun a b => key a ≤ key b) :
    (l.eraseRepsBy r).Pairwise fun a b => key a ≤ key b∧(p a → key a<key b) := by
  cases l with
  | nil => simp [List.eraseRepsBy]
  | cons a l =>
    induction l generalizing a with
    | nil => simp [List.eraseRepsBy,List.eraseRepsBy.loop]
    | cons b l ih =>
      obtain ⟨ha,htail⟩ := List.pairwise_cons.mp hl
      rw [eraseRepsBy_cons]
      split
      · apply ih a
        · exact fun x hx z hz => hr x (by grind) z (by grind)
        · obtain ⟨_,hrest⟩ := List.pairwise_cons.mp htail
          exact List.pairwise_cons.mpr ⟨fun x hx => ha x (List.mem_cons_of_mem _ hx),hrest⟩
      · rename_i hab
        have hkept := ih b (fun x hx z hz =>
          hr x (List.mem_cons_of_mem _ hx) z (List.mem_cons_of_mem _ hz)) htail
        refine List.pairwise_cons.mpr ⟨fun x hx => ?_,hkept⟩
        have hmem : x∈b::l := mem_eraseRepsBy hx
        have hax := ha x hmem
        refine ⟨hax,fun hp => lt_of_le_of_ne hax fun hsame => hab ?_⟩
        -- what stands between two of one key has that key as well
        have hbx : key b ≤ key x := by
          cases List.mem_cons.mp hmem with
          | inl hx => exact hx ▸ le_refl _
          | inr hx => exact (List.pairwise_cons.mp htail).1 x hx
        exact hr a (by simp) b (by simp) hp (le_antisymm (ha b (by simp)) (hsame ▸ hbx))

/-- An insertion sort by any relation that decides a key sorts by that key. -/
theorem pairwise_insertionSort_key {κ : Type*} [LinearOrder κ] {key : α → κ} {s : α → α → Prop}
    [DecidableRel s] (hle : ∀ a∈l, ∀ b∈l, s a b → key a ≤ key b)
    (hgt : ∀ a∈l, ∀ b∈l, ¬s a b → key b ≤ key a) :
    (l.insertionSort s).Pairwise fun a b => key a ≤ key b := by
  induction l with
  | nil => simp
  | cons a l ih =>
    have htail := ih (fun x hx y hy => hle x (List.mem_cons_of_mem _ hx) y (List.mem_cons_of_mem _ hy))
      fun x hx y hy => hgt x (List.mem_cons_of_mem _ hx) y (List.mem_cons_of_mem _ hy)
    have hmem : ∀ x∈l.insertionSort s, x∈a::l := fun x hx =>
      List.mem_cons_of_mem _ ((List.mem_insertionSort s).mp hx)
    rw [List.insertionSort_cons]
    generalize l.insertionSort s=sorted at htail hmem
    induction sorted with
    | nil => simp
    | cons b sorted ih =>
      obtain ⟨hb,hsorted⟩ := List.pairwise_cons.mp htail
      by_cases hab : s a b
      · have hkey := hle a List.mem_cons_self b (hmem b List.mem_cons_self) hab
        rw [List.orderedInsert_cons_of_le _ _ hab]
        refine List.pairwise_cons.mpr ⟨fun x hx => ?_,htail⟩
        cases List.mem_cons.mp hx with
        | inl hx => exact hx ▸ hkey
        | inr hx => exact le_trans hkey (hb x hx)
      · have hkey := hgt a List.mem_cons_self b (hmem b List.mem_cons_self) hab
        rw [List.orderedInsert_of_not_le _ _ hab]
        have hrest := ih hsorted fun x hx => hmem x (List.mem_cons_of_mem _ hx)
        refine List.pairwise_cons.mpr ⟨fun x hx => ?_,hrest⟩
        cases (List.mem_orderedInsert s).mp hx with
        | inl hx => exact hx ▸ hkey
        | inr hx => exact hb x hx

end Kitp.Reps
