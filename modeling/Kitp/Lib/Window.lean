import Mathlib.Order.Basic
import Mathlib.Order.Defs.LinearOrder
import Mathlib.Data.List.Sort

/-! A sorted, filtered and limited read of an unordered table: what such a window
contains, and that nothing below its last entry is missing from it. -/
namespace Kitp.Window

variable {α κ : Type*} [LinearOrder κ]

/-- `SELECT … WHERE p ORDER BY key LIMIT n`. -/
def window (key : α → κ) (p : α → Bool) (n : Nat) (l : List α) : List α :=
  ((l.filter p).insertionSort fun a b => key a ≤ key b).take n

section
variable {key : α → κ} {p : α → Bool} {n : Nat} {l : List α} {x y : α}

theorem mem_of_mem_window (h : x∈window key p n l) : x∈l∧p x=true := by
  have hm := List.mem_of_mem_take h
  rw [(List.perm_insertionSort _ _).mem_iff] at hm
  exact List.mem_filter.mp hm

theorem pairwise_sorted (key : α → κ) (p : α → Bool) (l : List α) :
    ((l.filter p).insertionSort fun a b => key a ≤ key b).Pairwise fun a b => key a ≤ key b := by
  have : Std.Total fun a b : α => key a ≤ key b := ⟨fun a b => le_total (key a) (key b)⟩
  have : IsTrans α fun a b => key a ≤ key b := ⟨fun _ _ _ => le_trans⟩
  exact List.pairwise_insertionSort _ _

/-- With distinct keys the window is strictly increasing. -/
theorem window_pairwise (hn : (l.map key).Nodup) :
    (window key p n l).Pairwise fun a b => key a < key b := by
  have hs := pairwise_sorted key p l
  have hd : (((l.filter p).insertionSort fun a b => key a ≤ key b).map key).Nodup := by
    rw [((List.perm_insertionSort _ _).map key).nodup_iff]
    exact hn.sublist (List.filter_sublist.map key)
  rw [List.Nodup,List.pairwise_map] at hd
  exact (hs.and hd).imp (fun h => lt_of_le_of_ne h.1 h.2) |>.sublist (List.take_sublist _ _)

/-- An entry the window leaves out comes after everything in it, and it is full. -/
theorem mem_window_or_full (key : α → κ) (n : Nat) (hx : x∈l) (hp : p x=true) :
    x∈window key p n l∨
      ((window key p n l).length=n∧∀ y∈window key p n l, key y ≤ key x) := by
  have hs := pairwise_sorted key p l
  have hm : x∈(l.filter p).insertionSort fun a b => key a ≤ key b := by
    rw [(List.perm_insertionSort _ _).mem_iff]
    exact List.mem_filter.mpr ⟨hx,hp⟩
  unfold window
  generalize ((l.filter p).insertionSort fun a b => key a ≤ key b)=s at hs hm ⊢
  rw [← List.take_append_drop n s] at hs hm
  obtain h|h := List.mem_append.mp hm
  · exact .inl h
  · refine .inr ⟨?_,fun y hy => (List.pairwise_append.mp hs).2.2 y hy x h⟩
    have hlt : n < s.length := by
      by_contra hle
      rw [List.drop_eq_nil_of_le (by omega)] at h
      cases h
    rw [List.length_take]
    omega

/-- Nothing at or below an entry of the window is missing from it. -/
theorem mem_window_of_le (hn : (l.map key).Nodup) (hx : x∈l) (hp : p x=true)
    (hy : y∈window key p n l) (hle : key x ≤ key y) : x∈window key p n l := by
  obtain h|⟨-,hall⟩ := mem_window_or_full key n hx hp
  · exact h
  · have heq : key y=key x := le_antisymm (hall y hy) hle
    have hxy : y=x := List.inj_on_of_nodup_map hn (mem_of_mem_window hy).1 hx heq
    exact hxy ▸ hy

end

end Kitp.Window
