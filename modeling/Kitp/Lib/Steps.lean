import Mathlib.Data.List.Basic

/-! What a composed step of an `Except` computation came from, and what a step of one
over a state runs to. -/
namespace Kitp.Steps
universe u v
variable {ε : Type u} {α β : Type v}

theorem bind_ok {x : Except ε α} {f : α → Except ε β} {b : β} (h : (x >>= f)=.ok b) :
    ∃ a, x=.ok a∧f a=.ok b := by
  cases x with
  | error e => cases h
  | ok a => exact ⟨a,rfl,h⟩

theorem ok_of_toOption {ε α : Type} {x : Except ε α} {a : α} (h : x.toOption=some a) :
    x=.ok a := by
  cases x with
  | error e => cases h
  | ok b =>
    cases h
    rfl

/-- What every step of a fold keeps, the fold keeps. -/
theorem foldl_inv {α β : Type*} {f : β → α → β} {xs : List α} {b : β} {I : β → Prop} (hb : I b)
    (hf : ∀ b, I b → ∀ a∈xs, I (f b a)) : I (xs.foldl f b) := by
  induction xs generalizing b with
  | nil => exact hb
  | cons a xs ih =>
    exact ih (hf b hb a List.mem_cons_self) fun b hb a ha => hf b hb a (List.mem_cons_of_mem _ ha)

theorem foldlM_inv {α : Type*} {f : β → α → Except ε β} {xs : List α} {b b' : β} {I : β → Prop}
    (h : xs.foldlM f b=.ok b') (hb : I b)
    (hf : ∀ b a b', I b → a∈xs → f b a=.ok b' → I b') : I b' := by
  induction xs generalizing b with
  | nil =>
    cases h
    exact hb
  | cons a xs ih =>
    obtain ⟨c,hc,h⟩ := bind_ok (List.foldlM_cons.symm.trans h)
    exact ih h (hf b a c hb List.mem_cons_self hc)
      fun b a b' hb ha => hf b a b' hb (List.mem_cons_of_mem _ ha)

theorem forM_ok {α : Type*} {ε : Type} {f : α → Except ε Unit} {xs : List α}
    (h : xs.forM f=.ok ()) : ∀ x∈xs, f x=.ok () := by
  induction xs with
  | nil => simp
  | cons a xs ih =>
    obtain ⟨u,hu,h⟩ := bind_ok (List.forM_cons.symm.trans h)
    intro x hx
    cases List.mem_cons.mp hx with
    | inl hx => exact hx ▸ hu
    | inr hx => exact ih h x hx

theorem mapM_mem {α β ε : Type} {f : α → Except ε β} {xs : List α} {ys : List β} {y : β}
    (h : xs.mapM f=.ok ys) (hy : y∈ys) : ∃ x∈xs, f x=.ok y := by
  induction xs generalizing ys with
  | nil =>
    rw [← Except.ok.inj h] at hy
    exact absurd hy List.not_mem_nil
  | cons x xs ih =>
    rw [List.mapM_cons] at h
    obtain ⟨first,hfirst,hrest⟩ := bind_ok h
    obtain ⟨more,hmore,hys⟩ := bind_ok hrest
    rw [← Except.ok.inj hys] at hy
    cases List.mem_cons.mp hy with
    | inl hsame => exact ⟨x,List.mem_cons_self,hsame ▸ hfirst⟩
    | inr hmem =>
      obtain ⟨z,hz,hfz⟩ := ih hmore hmem
      exact ⟨z,List.mem_cons_of_mem _ hz,hfz⟩

theorem mapM_hits {α β ε : Type} {f : α → Except ε β} {xs : List α} {ys : List β} {x : α}
    (h : xs.mapM f=.ok ys) (hx : x∈xs) : ∃ y∈ys, f x=.ok y := by
  induction xs generalizing ys with
  | nil => exact absurd hx List.not_mem_nil
  | cons a xs ih =>
    rw [List.mapM_cons] at h
    obtain ⟨first,hfirst,hrest⟩ := bind_ok h
    obtain ⟨more,hmore,hys⟩ := bind_ok hrest
    rw [← Except.ok.inj hys]
    cases List.mem_cons.mp hx with
    | inl hsame => exact ⟨first,List.mem_cons_self,hsame ▸ hfirst⟩
    | inr hmem =>
      obtain ⟨y,hy,hfy⟩ := ih hmore hmem
      exact ⟨y,List.mem_cons_of_mem _ hy,hfy⟩

theorem mapM_total {α β ε : Type} {f : α → Except ε β} (hf : ∀ x, ∃ y, f x=.ok y) (xs : List α) :
    ∃ ys, xs.mapM f=.ok ys := by
  induction xs with
  | nil => exact ⟨[],rfl⟩
  | cons x xs ih =>
    obtain ⟨y,hy⟩ := hf x
    obtain ⟨ys,hys⟩ := ih
    refine ⟨y::ys,?_⟩
    rw [List.mapM_cons,hy,hys]
    rfl

theorem mapM_map {α β γ ε : Type} {f : α → Except ε β} {xs : List α} {ys : List β} {g : β → γ}
    {k : α → γ} (h : xs.mapM f=.ok ys) (hf : ∀ x∈xs, ∀ y, f x=.ok y → g y=k x) :
    ys.map g=xs.map k := by
  induction xs generalizing ys with
  | nil =>
    rw [← Except.ok.inj h]
    rfl
  | cons x xs ih =>
    rw [List.mapM_cons] at h
    obtain ⟨first,hfirst,hrest⟩ := bind_ok h
    obtain ⟨more,hmore,hys⟩ := bind_ok hrest
    rw [← Except.ok.inj hys]
    show g first::more.map g=k x::xs.map k
    rw [hf x List.mem_cons_self first hfirst,
      ih hmore fun x hx => hf x (List.mem_cons_of_mem _ hx)]

section Answers
variable {σ ε α β : Type} {x : ExceptT ε (StateM σ) α} {f : α → ExceptT ε (StateM σ) β} {s t : σ}

theorem run_bind_ok {a : α} (h : x.run s=(.ok a,t)) : (x >>= f).run s=(f a).run t := by
  change (match x.run s with | (r,t) => ExceptT.bindCont f r t : Except ε β×σ)=_
  rw [h]
  rfl

theorem run_bind_error {e : ε} (h : x.run s=(.error e,t)) : (x >>= f).run s=(.error e,t) := by
  change (match x.run s with | (r,t) => ExceptT.bindCont f r t : Except ε β×σ)=_
  rw [h]
  rfl

/-- The computation leaves the state alone and returns just the values of `P`. -/
def Answers (x : ExceptT ε (StateM σ) α) (s : σ) (P : α → Prop) : Prop :=
  ∃ r, x.run s=(r,s)∧∀ a, r=.ok a↔P a

theorem Answers.run {P : α → Prop} {a : α} (h : Answers x s P) (ha : P a) :
    x.run s=(.ok a,s) := by
  obtain ⟨r,hr,hP⟩ := h
  rw [hr,(hP a).mpr ha]

theorem Answers.ok {P : α → Prop} {a : α} (h : Answers x s P) (hx : x.run s=(.ok a,t)) :
    P a∧t=s := by
  obtain ⟨r,hr,hP⟩ := h
  rw [hr] at hx
  cases hx
  exact ⟨(hP a).mp rfl,rfl⟩

theorem Answers.congr {P Q : α → Prop} (h : Answers x s P) (hPQ : ∀ a, P a↔Q a) :
    Answers x s Q := by
  obtain ⟨r,hr,hP⟩ := h
  exact ⟨r,hr,fun a => (hP a).trans (hPQ a)⟩

theorem Answers.bind {P : α → Prop} {Q : α → β → Prop} (hx : Answers x s P)
    (hf : ∀ a, P a → Answers (f a) s (Q a)) :
    Answers (x >>= f) s fun b => ∃ a, P a∧Q a b := by
  obtain ⟨r,hr,hP⟩ := hx
  cases r with
  | error e =>
    refine ⟨.error e,run_bind_error hr,fun b => iff_of_false (by simp) ?_⟩
    rintro ⟨a,ha,_⟩
    cases (hP a).mpr ha
  | ok a =>
    obtain ⟨r',hr',hQ⟩ := hf a ((hP a).mp rfl)
    refine ⟨r',(run_bind_ok hr).trans hr',fun b => (hQ b).trans ⟨fun h => ⟨a,(hP a).mp rfl,h⟩,?_⟩⟩
    rintro ⟨a',ha',hb⟩
    cases (hP a').mpr ha'
    exact hb

end Answers

end Kitp.Steps
