import Mathlib.Data.List.Basic

/-! Quantifiers over the members of a list or an option are decided by it, also where the type is
finite. -/
namespace Kitp.Bounded
variable {α : Type} {p : α → Prop} [DecidablePred p]

instance (priority := high) decidableForall (l : List α) : Decidable (∀ a, a∈l → p a) :=
  List.decidableBAll p l

instance (priority := high) decidableExists (l : List α) : Decidable (∃ a, a∈l∧p a) :=
  List.decidableBEx p l

instance (priority := high) decidableForallOption (o : Option α) : Decidable (∀ a, a∈o → p a) :=
  match o with
  | none => .isTrue (by simp)
  | some a => decidable_of_iff (p a) (by simp)

end Kitp.Bounded
