import Kitp.SignalReads

/-! The induction over whatever runs: code, effects, passes and flushes, nested in each other. -/
namespace Kitp.Signals

variable {V : Type}

/-- Which pass a task runs its effects in. -/
def Task.number : Task V → Option Nat
  | .prog _ => none
  | .run k _ => k
  | .loop _ => none
  | .pass k _ => some k

/-- The effects a task is to run. -/
def Task.owes : Task V → List Nat
  | .prog _ => []
  | .run _ e => [e]
  | .loop _ => []
  | .pass _ es => es

variable [DecidableEq V]

/-- A relation between the states before and after, given the effects to run and their pass, that
each thing done respects. -/
structure Kept (fns : Nat → Fn V) (R : Option Nat → List Nat → State V → State V → Prop) :
    Prop where
  refl : ∀ st, R none [] st st
  trans : ∀ {k es es' a b c}, R k es a b → R k es' b c → R k (es++es') a c
  within : ∀ {k es a b c}, R k es a b → R none [] b c → R k es a c
  any : ∀ {k st st'}, R none [] st st' → R k [] st st'
  quiet : ∀ st depth flushing queued,
    R none [] st { st with batchDepth := depth, flushing := flushing, queued := queued }
  crowd : ∀ st g, R none [] st (st.crowd g)
  get : ∀ {n src st st' r}, pull fns (eval fns n) src (st.track src)=some (r,st') →
    R none [] st (match r with
      | .ok _ => st'.note src
      | .error _ => st')
  peek : ∀ {n src st st' r}, pull fns (eval fns n) src st=some (r,st') → R none [] st st'
  write : ∀ {n s v st st'}, write n s v st=some st' → R none [] st st'
  aside : ∀ {st st'}, R none [] { st with cur := none } st' →
    R none [] st { st' with cur := st.cur }
  create : ∀ {st st' fn}, R none [st.made] { st with
    made := st.made+1
    fn := Function.update st.fn st.made fn } st' → R none [] st st'
  gone : ∀ {st e}, st.disposed e=false → R none [] st (st.gone e)
  idle : ∀ {k st e}, st.disposed e=true → R k [e] st st
  clean : ∀ {st st' e}, R none [] { st with cleanup := Function.update st.cleanup e none } st' →
    R none [] st st'
  body : ∀ {k st mid e}, R none [] (st.entered k e) mid →
    ∀ q, R k [e] st (Effect.finish e st.cur (q,mid)).2
  drop : ∀ k es st, R k es st { st with broke := st.broke||st.loses es }
  limit : ∀ st, R none [] st { st with pending := [], broke := true }
  pass : ∀ {st st'}, R (some st.passes) st.pending { st with
    pending := []
    passes := st.passes+1 } st' → R none [] st st'

section

variable {fns : Nat → Fn V} {together : Nat → Bool}
  {R : Option Nat → List Nat → State V → State V → Prop}
  {call : Task V → State V → Option (Out V)} {n : Nat}

theorem next_kept (hk : Kept fns R) {r : Out V} {k : Option (Prog V) → State V → Option (Out V)}
    {s : Out V} (h : next r k=some s) (hs : ∀ c st, k c st=some s → R none [] st s.2) :
    R none [] r.2 s.2 := by
  obtain ⟨q,st⟩ := r
  cases q with
  | ok c => exact hs c st h
  | error x =>
    cases h
    exact hk.refl st

/-- What is called respects the relation. -/
def Calls (R : Option Nat → List Nat → State V → State V → Prop)
    (call : Task V → State V → Option (Out V)) : Prop :=
  ∀ t st r, call t st=some r → R t.number t.owes st r.2

theorem flush_kept (hk : Kept fns R) (hc : Calls R call) {st : State V} {r : Out V}
    (h : flush call st=some r) : R none [] st r.2 := by
  unfold flush at h
  split at h
  · cases h
    exact hk.refl st
  · split at h
    · cases h
      exact hk.quiet st st.batchDepth false st.queued
    · obtain ⟨q,hq,hr⟩ := Option.map_eq_some_iff.mp h
      subst hr
      exact hk.within (hc _ _ _ hq) (hk.quiet q.2 q.2.batchDepth false q.2.queued)

theorem writes_kept (hk : Kept fns R) {ws : List (Nat×Option V)} {st st' : State V}
    (h : writes n ws st=some st') : R none [] st st' := by
  induction ws generalizing st with
  | nil =>
    cases h
    exact hk.refl _
  | cons w ws ih =>
    obtain ⟨s,v⟩ := w
    cases v with
    | none =>
      obtain ⟨mid,hm,hr⟩ := Option.bind_eq_some_iff.mp h
      exact hk.within (hk.write hm) (ih hr)
    | some v =>
      simp only [writes] at h
      split at h
      · exact ih h
      · obtain ⟨mid,hm,hr⟩ := Option.bind_eq_some_iff.mp h
        exact hk.within (hk.write hm) (ih hr)

/-- Code respects what its parts do. -/
theorem prog_kept (hk : Kept fns R) (hc : Calls R call) (p : Prog V) :
    ∀ {st : State V} {r : Out V}, p.exec fns together call n st=some r → R none [] st r.2 := by
  induction p with
  | done =>
    intro st r h
    cases h
    exact hk.refl st
  | doneWith c _ =>
    intro st r h
    cases h
    exact hk.refl st
  | throw =>
    intro st r h
    cases h
    exact hk.refl st
  | get src k ih =>
    intro st r h
    simp only [Prog.exec] at h
    obtain ⟨⟨q,mid⟩,hq,hr⟩ := Option.bind_eq_some_iff.mp h
    have hg := hk.get hq
    cases q with
    | ok v => exact hk.within hg (ih v hr)
    | error x =>
      cases hr
      exact hg
  | peek src k ih =>
    intro st r h
    simp only [Prog.exec] at h
    obtain ⟨⟨q,mid⟩,hq,hr⟩ := Option.bind_eq_some_iff.mp h
    have hg := hk.peek hq
    cases q with
    | ok v => exact hk.within hg (ih v hr)
    | error x =>
      cases hr
      exact hg
  | write g ws k ih =>
    intro st r h
    simp only [Prog.exec] at h
    split at h
    · obtain ⟨mid,hm,h⟩ := Option.bind_eq_some_iff.mp h
      obtain ⟨f,hf,h⟩ := Option.bind_eq_some_iff.mp h
      have hin := hk.quiet st (st.batchDepth+1) st.flushing st.queued
      have hws := hk.within hin (writes_kept hk hm)
      have hout := hk.within hws (hk.quiet mid (mid.batchDepth-1) mid.flushing mid.queued)
      have hend := hk.within hout (hk.crowd _ g)
      exact hk.within (hk.within hend (flush_kept hk hc hf)) (next_kept hk h fun _ _ => ih)
    · obtain ⟨mid,hm,h⟩ := Option.bind_eq_some_iff.mp h
      exact hk.within (hk.within (writes_kept hk hm) (hk.crowd mid g)) (ih h)
  | batch body k ihb ih =>
    intro st r h
    obtain ⟨b,hb,h⟩ := Option.bind_eq_some_iff.mp h
    obtain ⟨f,hf,h⟩ := Option.bind_eq_some_iff.mp h
    have hbody := hk.within (hk.quiet st (st.batchDepth+1) st.flushing st.queued) (ihb hb)
    have hleft := hk.within hbody (hk.quiet b.2 (b.2.batchDepth-1) b.2.flushing b.2.queued)
    refine hk.within (hk.within hleft (flush_kept hk hc hf)) (next_kept hk h ?_)
    intro _ mid hm
    exact next_kept hk (r := (b.1,mid)) hm fun _ _ => ih
  | untrack body k ihb ih =>
    intro st r h
    obtain ⟨b,hb,h⟩ := Option.bind_eq_some_iff.mp h
    have hbody := hk.aside (ihb hb)
    exact hk.within hbody (next_kept hk (r := (b.1,{ b.2 with cur := st.cur })) h fun _ _ => ih)
  | attempt body k ihb ih =>
    intro st r h
    obtain ⟨b,hb,h⟩ := Option.bind_eq_some_iff.mp h
    exact hk.within (ihb hb) (ih h)
  | create fn k _ ih =>
    intro st r h
    obtain ⟨b,hb,h⟩ := Option.bind_eq_some_iff.mp h
    exact hk.within (hk.create (hc _ _ _ hb)) (next_kept hk h fun _ _ => ih _)
  | dispose e k ih =>
    intro st r h
    simp only [Prog.exec] at h
    split at h
    · exact ih h
    · rename_i hd
      have hg := hk.gone (Bool.eq_false_iff.mpr hd)
      split at h
      · exact hk.within hg (ih h)
      · obtain ⟨b,hb,h⟩ := Option.bind_eq_some_iff.mp h
        exact hk.within (hk.within hg (hc _ _ _ hb)) (next_kept hk h fun _ _ => ih)
  | flushSync k ih =>
    intro st r h
    simp only [Prog.exec] at h
    split at h
    · obtain ⟨b,hb,h⟩ := Option.bind_eq_some_iff.mp h
      have hq := hk.quiet st st.batchDepth true st.queued
      exact hk.within (hk.within hq (flush_kept hk hc hb)) (next_kept hk h fun _ _ => ih)
    · exact ih h

theorem body_kept (hk : Kept fns R) (hc : Calls R call) {k : Option Nat} {e : Nat} {st : State V}
    {r : Out V} (h : Effect.body call k e st=some r) : R k [e] st r.2 := by
  obtain ⟨⟨q,mid⟩,hq,hr⟩ := Option.map_eq_some_iff.mp h
  subst hr
  have hm : R none [] (st.entered k e) mid := hc _ _ _ hq
  exact hk.body hm q

theorem run_kept (hk : Kept fns R) (hc : Calls R call) {k : Option Nat} {e : Nat} {st : State V}
    {r : Out V} (h : Effect.run call k e st=some r) : R k [e] st r.2 := by
  unfold Effect.run at h
  split at h
  · rename_i hd
    cases h
    exact hk.idle hd
  · split at h
    · cases h
      exact hk.drop k [e] st
    · split at h
      · exact body_kept hk hc h
      · obtain ⟨⟨q,mid⟩,hq,hr⟩ := Option.bind_eq_some_iff.mp h
        have hm : R none [] _ mid := hc _ _ _ hq
        have hclean : R k [] st mid := hk.any (hk.clean hm)
        cases q with
        | ok c => exact hk.trans hclean (body_kept hk hc hr)
        | error x =>
          cases hr
          exact hk.trans hclean (hk.drop k [e] mid)

/-- Whatever runs respects what each thing it does respects. -/
theorem exec_kept (hk : Kept fns R) (n : Nat) : Calls R (exec fns together n) := by
  induction n with
  | zero =>
    intro t st r h
    cases t <;> simp [exec] at h
  | succ n ih =>
    intro t st r h
    cases t with
    | prog p => exact prog_kept hk ih p h
    | run k e => exact run_kept hk ih h
    | loop passes =>
      simp only [exec] at h
      split at h
      · cases h
        exact hk.refl st
      · split at h
        · cases h
          exact hk.limit st
        · obtain ⟨p,hp,hr⟩ := Option.bind_eq_some_iff.mp h
          have hpass : R none [] st p.2 := hk.pass (ih _ _ _ hp)
          exact hk.within hpass (next_kept hk hr fun _ _ hl => ih _ _ _ hl)
    | pass k es =>
      cases es with
      | nil =>
        cases h
        exact hk.any (hk.refl st)
      | cons e es =>
        simp only [exec] at h
        obtain ⟨⟨q,mid⟩,hq,hr⟩ := Option.bind_eq_some_iff.mp h
        have hrun : R (some k) [e] st mid := ih _ _ _ hq
        cases q with
        | ok c => exact hk.trans hrun (ih _ _ _ hr)
        | error x =>
          cases hr
          exact hk.trans hrun (hk.drop (some k) es mid)

theorem step_kept (hk : Kept fns R) {st st' : State V} {ev : Event V}
    (h : step fns together st ev=some st') : R none [] st st' := by
  cases ev with
  | code n p =>
    obtain ⟨r,hr,hst⟩ := Option.map_eq_some_iff.mp h
    subst hst
    exact exec_kept hk n _ _ _ hr
  | microtask n =>
    simp only [step] at h
    split at h
    · obtain ⟨r,hr,hst⟩ := Option.map_eq_some_iff.mp h
      subst hst
      exact hk.within (hk.quiet st st.batchDepth st.flushing (st.queued-1))
        (flush_kept hk (exec_kept hk n) hr)
    · simp at h

end

end Kitp.Signals
