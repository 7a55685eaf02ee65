import Kitp.SinkPumpRuns

/-! Every activity row past a unit's starting position is accounted in exactly
one recorded decision. -/
namespace Kitp.SinkPump
open Kitp.Runs Kitp.Window
variable {β : Type*}

/-- A unit that starts at `start` beside any stream and any running transactions. -/
structure Start (start : Position) (s : State β) : Prop where
  wf : WellFormed s
  pos : s.unit.pos=start
  decided : s.decided=[]
  phase : s.phase=.idle

variable {start : Position} {wanted : Row β → Prop} {s₀ s t u : State β} {e : Event β}
  {es : List (Event β)}

theorem Start.inv (h : Start start s) : Inv start wanted s where
  wf := h.wf
  from_start := le_of_eq h.pos.symm
  pos := .inl h.pos
  ordered := by simp [h.decided]
  covered := by simp [h.decided]
  complete := by
    intro r _ _ _ hs hle
    exact absurd (h.pos ▸ hle) (not_le_of_gt hs)
  phase := h.phase ▸ trivial

theorem run_inv {ok : State β → Event β → Prop} (h : Run step ok s es t)
    (hsc : ∀ scope limit, .scan scope limit∈es → ∀ r, wanted r → scope r=true)
    (hi : Inv start wanted s) : Inv start wanted t :=
  h.with_mem.inv (Inv start wanted)
    (fun _ _ _ hi hok hst => step_inv hi
      (fun scope limit he => hsc scope limit (he ▸ hok.2)) hst) hi

theorem run_late {ok : State β → Event β → Prop} (hi : Inv start (fun _ => False) s)
    (h : Run step ok s es u) {r : Row β} (hr : r∈u.rows) (hv : visible u r=true)
    (hs : start < r.position) : (r∈s.rows∧visible s r=true)∨s.unit.pos < r.position := by
  have hall := h.inv (fun v => Inv start (fun _ => False) v∧s.unit.pos ≤ v.unit.pos∧
      ∀ r∈v.rows, visible v r=true → start < r.position →
        (r∈s.rows∧visible s r=true)∨s.unit.pos < r.position)
    (fun v e w ⟨hv,hle,hr⟩ _ hst => ⟨step_inv hv (fun _ _ _ _ hf => hf.elim) hst,
      le_trans hle (unit_forward hst),fun r hm hvis hs => by
        obtain ⟨hm',hvis'⟩|hrun := step_fresh hv.wf hst hm hvis
        · exact hr r hm' hvis' hs
        · exact .inr (lt_of_le_of_lt hle (hv.above hrun hs))⟩)
    ⟨hi,le_rfl,fun r hm hvis _ => .inl ⟨hm,hvis⟩⟩
  exact hall.2.2 r hr hv hs

section Example
end Example

end Kitp.SinkPump
