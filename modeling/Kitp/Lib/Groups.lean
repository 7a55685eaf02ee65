import Mathlib.Data.List.Chain

/-! Splitting a sequence into its maximal runs of one key, by the loop that
collects a group and starts the next one when the key changes. -/
namespace Kitp.Groups

variable {α κ : Type*} [DecidableEq κ]

/-- The loop: `group` is collected so far, the list is still to come. -/
def collect (key : α → κ) : List α → List α → List (List α)
  | [], [] => []
  | head::group, [] => [head::group]
  | [], p::rest => collect key [p] rest
  | head::group, p::rest =>
    if key head=key p then collect key (head::group++[p]) rest
    else (head::group)::collect key [p] rest

def groups (key : α → κ) (l : List α) : List (List α) := collect key [] l

/-- `gs` cuts `l` into its maximal runs of equal keys. -/
structure MaximalRuns (key : α → κ) (l : List α) (gs : List (List α)) : Prop where
  whole : gs.flatten=l
  nonempty : ∀ g∈gs, g≠[]
  uniform : ∀ g∈gs, ∀ a∈g, ∀ b∈g, key a=key b
  maximal : gs.IsChain fun g h => ∀ a∈g, ∀ b∈h, key a≠key b

section
variable {key : α → κ} {l group : List α} {a : α}

theorem collect_flatten (key : α → κ) (group l : List α) :
    (collect key group l).flatten=group++l := by
  fun_induction collect key group l with
  | case1 => rfl
  | case2 head group => simp
  | case3 p rest ih => simpa using ih
  | case4 head group p rest h ih => simpa using ih
  | case5 head group p rest h ih => simp [ih]

theorem collect_nonempty : ∀ g∈collect key group l, g≠[] := by
  fun_induction collect key group l with
  | case1 => simp
  | case2 head group => simp
  | case3 p rest ih => exact ih
  | case4 head group p rest h ih => exact ih
  | case5 head group p rest h ih => simpa using ih

omit [DecidableEq κ] in
theorem uniform_snoc {head : α} (h : ∀ a∈head::group, ∀ b∈head::group, key a=key b)
    (ha : key head=key a) : ∀ x∈head::group++[a], ∀ y∈head::group++[a], key x=key y := by
  have hall : ∀ x∈head::group++[a], key x=key head := by
    intro x hx
    obtain hx|hx := List.mem_append.mp hx
    · exact h x hx head List.mem_cons_self
    · obtain rfl : x=a := by simpa using hx
      exact ha.symm
  exact fun x hx y hy => (hall x hx).trans (hall y hy).symm

theorem collect_uniform (h : ∀ a∈group, ∀ b∈group, key a=key b) :
    ∀ g∈collect key group l, ∀ a∈g, ∀ b∈g, key a=key b := by
  fun_induction collect key group l with
  | case1 => simp
  | case2 head group =>
    intro g hg
    obtain rfl : g=head::group := by simpa using hg
    exact h
  | case3 p rest ih => exact ih (by simp)
  | case4 head group p rest hk ih => exact ih (uniform_snoc h hk)
  | case5 head group p rest hk ih =>
    intro g hg
    obtain rfl|hg := List.mem_cons.mp hg
    · exact h
    · exact ih (by simp) g hg

/-- The group being collected is the start of the first group. -/
theorem collect_first (key : α → κ) (head : α) (group l : List α) :
    ∃ g gs, collect key (head::group) l=g::gs∧head∈g := by
  induction l generalizing group with
  | nil => exact ⟨_,_,by rw [collect],List.mem_cons_self⟩
  | cons p rest ih =>
    rw [collect]
    split
    · exact ih (group++[p])
    · exact ⟨_,_,rfl,List.mem_cons_self⟩

theorem collect_maximal (h : ∀ a∈group, ∀ b∈group, key a=key b) :
    (collect key group l).IsChain fun g h => ∀ a∈g, ∀ b∈h, key a≠key b := by
  fun_induction collect key group l with
  | case1 => exact .nil
  | case2 head group => exact .singleton _
  | case3 p rest ih => exact ih (by simp)
  | case4 head group p rest hk ih => exact ih (uniform_snoc h hk)
  | case5 head group p rest hk ih =>
    obtain ⟨g,gs,hc,hp⟩ := collect_first key p [] rest
    have hu : ∀ g∈collect key [p] rest, ∀ a∈g, ∀ b∈g, key a=key b := collect_uniform (by simp)
    rw [hc] at ih hu ⊢
    refine .cons_cons (fun a ha b hb hab => hk ?_) (ih (by simp))
    calc key head=key a := h head List.mem_cons_self a ha
      _=key b := hab
      _=key p := hu g List.mem_cons_self b hb p hp

theorem groups_maximalRuns (key : α → κ) (l : List α) : MaximalRuns key l (groups key l) where
  whole := collect_flatten key [] l
  nonempty := collect_nonempty
  uniform := collect_uniform (by simp)
  maximal := collect_maximal (by simp)

end

section Units
variable {key : α → κ} {single drop : α → Bool} {l group : List α} {a : α}

/-- A group is cut into its elements when its first one is to stand alone. -/
def cut (single : α → Bool) : List α → List (List α)
  | [] => []
  | a::g => if single a then (a::g).map ([·]) else [a::g]

/-- The groups, with those to stand alone cut into their elements. -/
def units (key : α → κ) (single : α → Bool) (l : List α) : List (List α) :=
  (groups key l).flatMap (cut single)

end Units

end Kitp.Groups
