import Mathlib.Data.List.Basic

/-! Finite runs of a partial transition system, each step meeting a side
condition on the state it starts from and on the event it takes. -/
namespace Kitp.Runs

variable {σ ε τ : Type*}

/-- `Run step ok s es t`: the events `es`, all accepted and all meeting `ok`,
lead from `s` to `t`. -/
inductive Run (step : σ → ε → Option σ) (ok : σ → ε → Prop) : σ → List ε → σ → Prop
  | nil (s : σ) : Run step ok s [] s
  | cons {s t u : σ} {e : ε} {es : List ε} :
      ok s e → step s e=some t → Run step ok t es u → Run step ok s (e::es) u

variable {step : σ → ε → Option σ} {ok ok' : σ → ε → Prop} {s t u : σ} {e : ε} {es fs : List ε}

theorem Run.single (hok : ok s e) (h : step s e=some t) : Run step ok s [e] t :=
  .cons hok h (.nil t)

theorem Run.append (h : Run step ok s es t) (k : Run step ok t fs u) :
    Run step ok s (es++fs) u := by
  induction h with
  | nil s => exact k
  | cons hok hs _ ih => exact .cons hok hs (ih k)

theorem Run.snoc (h : Run step ok s es t) (hok : ok t e) (hs : step t e=some u) :
    Run step ok s (es++[e]) u :=
  h.append (.single hok hs)

theorem Run.mono (h : Run step ok s es t) (hw : ∀ s e, ok s e → ok' s e) :
    Run step ok' s es t := by
  induction h with
  | nil s => exact .nil s
  | cons hok hs _ ih => exact .cons (hw _ _ hok) hs ih

/-- A run computed step by step, when the condition holds of its events in every state. -/
theorem Run.of_foldlM (h : es.foldlM step s=some t) (hok : ∀ s, ∀ e∈es, ok s e) :
    Run step ok s es t := by
  induction es generalizing s with
  | nil =>
    have hst : s=t := by simpa using h
    exact hst ▸ .nil s
  | cons e es ih =>
    obtain ⟨u,hu,ht⟩ := Option.bind_eq_some_iff.mp (List.foldlM_cons.symm.trans h)
    exact .cons (hok s e List.mem_cons_self) hu
      (ih ht fun s e he => hok s e (List.mem_cons_of_mem _ he))

/-- A run computed together with its condition. -/
theorem Run.of_checked [∀ s e, Decidable (ok s e)]
    (h : es.foldlM (fun s e => if ok s e then step s e else none) s=some t) :
    Run step ok s es t := by
  induction es generalizing s with
  | nil =>
    have hst : s=t := by simpa using h
    exact hst ▸ .nil s
  | cons e es ih =>
    obtain ⟨u,hu,ht⟩ := Option.bind_eq_some_iff.mp (List.foldlM_cons.symm.trans h)
    obtain ⟨hok,hu'⟩ := Option.ite_none_right_eq_some.mp hu
    exact .cons hok hu' (ih ht)

/-- Every step of a run takes one of its own events. -/
theorem Run.with_mem (h : Run step ok s es t) :
    Run step (fun s e => ok s e∧e∈es) s es t := by
  induction h with
  | nil s => exact .nil s
  | cons hok hs _ ih =>
    exact .cons ⟨hok,List.mem_cons_self⟩ hs
      (ih.mono fun _ _ hm => ⟨hm.1,List.mem_cons_of_mem _ hm.2⟩)

/-- The invariant rule: what every admissible step preserves, every run preserves. -/
theorem Run.inv (h : Run step ok s es t) (I : σ → Prop)
    (hstep : ∀ s e t, I s → ok s e → step s e=some t → I t) (hs : I s) : I t := by
  induction h with
  | nil s => exact hs
  | cons hok hst _ ih => exact ih (hstep _ _ _ hs hok hst)

/-- An invariant may be used to meet a stronger condition at every step. -/
theorem Run.strengthen (h : Run step ok s es t) (I : σ → Prop)
    (hstep : ∀ s e t, I s → ok s e → step s e=some t → I t)
    (hok : ∀ s e, I s → ok s e → ok' s e) (hs : I s) : Run step ok' s es t := by
  induction h with
  | nil s => exact .nil s
  | cons hk hst _ ih => exact .cons (hok _ _ hs hk) hst (ih (hstep _ _ _ hs hk hst))

/-- The invariant rule relative to an invariant `J` that is already known. -/
theorem Run.inv_of (h : Run step ok s es t) (J I : σ → Prop)
    (hJ : ∀ s e t, J s → ok s e → step s e=some t → J t)
    (hI : ∀ s e t, J s → I s → ok s e → step s e=some t → I t)
    (hs : J s) (hi : I s) : I t :=
  (h.inv (fun s => J s∧I s)
    (fun _ _ _ hji hok hst => ⟨hJ _ _ _ hji.1 hok hst, hI _ _ _ hji.1 hji.2 hok hst⟩)
    ⟨hs,hi⟩).2

/-- Simulation with stuttering: a second system that agrees with the first up to
`R` follows every run of it on the events in `keep`, the others being invisible. -/
theorem Run.project {step' : τ → ε → Option τ} (keep : ε → Bool) (R : σ → τ → Prop)
    (hskip : ∀ s e t s', keep e=false → R s s' → step s e=some t → R t s')
    (hkeep : ∀ s e t s', keep e=true → R s s' → step s e=some t →
      ∃ t', step' s' e=some t'∧R t t')
    (h : Run step ok s es t) :
    ∀ s', R s s' →
      ∃ t', Run step' (fun _ _ => True) s' (es.filter keep) t'∧R t t' := by
  induction h with
  | nil s => exact fun s' hr => ⟨s',.nil s',hr⟩
  | @cons s t u e es _ hst _ ih =>
    intro s' hr
    cases hk : keep e with
    | false =>
      obtain ⟨t',ht,hu⟩ := ih s' (hskip s e t s' hk hr hst)
      exact ⟨t',by simpa [hk] using ht,hu⟩
    | true =>
      obtain ⟨m,hm,hrm⟩ := hkeep s e t s' hk hr hst
      obtain ⟨t',ht,hu⟩ := ih m hrm
      exact ⟨t',by simpa [hk] using Run.cons trivial hm ht,hu⟩

end Kitp.Runs
