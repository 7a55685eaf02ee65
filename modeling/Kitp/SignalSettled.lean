import Kitp.SignalRules

/-! What the flush has to see to: computeds that hold what they should, and effects that have seen
what they read. -/
namespace Kitp.Signals

variable {V : Type}

/-- Nothing is stale, but for what the effects of the list have yet to see. -/
structure Settled (fns : Nat → Fn V) (es : List Nat) (st : State V) : Prop where
  coherent : Coherent fns st
  idle : ∀ c, st.running (.computed c)=false
  outer : ∀ c, st.cur≠some (.computed c)
  effects : ∀ e src, st.disposed e=false → e∉st.pending → e∉es → .effect e∈st.subs src →
    st.seen e src=st.version src∧∀ c, src=.computed c → st.dirty c=false

section

variable {fns : Nat → Fn V} {es es' : List Nat} {st st' : State V}

theorem Settled.mono (h : Settled fns es st) (hs : ∀ e∈es, e∈es') : Settled fns es' st where
  coherent := h.coherent
  idle := h.idle
  outer := h.outer
  effects e src hd hp he := h.effects e src hd hp fun hm => he (hs e hm)

/-- What else changes in the state doesn't matter. -/
theorem Settled.frame (h : Settled fns es st) (hcoh : Coherent fns st')
    (hrun : ∀ c, st'.running (.computed c)=st.running (.computed c))
    (hcur : ∀ c, st'.cur≠some (.computed c)) (hdirty : st'.dirty=st.dirty)
    (hver : st'.version=st.version) (hseen : st'.seen=st.seen)
    (heff : ∀ e src, st'.disposed e=false → e∉st'.pending → e∉es' → .effect e∈st'.subs src →
      st.disposed e=false∧e∉st.pending∧e∉es∧.effect e∈st.subs src) : Settled fns es' st' where
  coherent := hcoh
  idle c := by rw [hrun]; exact h.idle c
  outer := hcur
  effects e src hd hp he hm := by
    obtain ⟨hd,hp,he,hm⟩ := heff e src hd hp he hm
    rw [hseen,hver,hdirty]
    exact h.effects e src hd hp he hm

/-- The same, where the graph and what is pending is as it was. -/
theorem Settled.quiet (h : Settled fns es st) (hval : st'.value=st.value)
    (hcached : st'.cached=st.cached) (hdirty : st'.dirty=st.dirty)
    (hver : st'.version=st.version) (hseen : st'.seen=st.seen) (hsubs : st'.subs=st.subs)
    (hdis : st'.disposed=st.disposed) (hpend : st'.pending=st.pending)
    (hrun : ∀ c, st'.running (.computed c)=st.running (.computed c))
    (hcur : ∀ c, st'.cur≠some (.computed c)) : Settled fns es st' := by
  refine h.frame ?_ hrun hcur hdirty hver hseen ?_
  · refine h.coherent.frame hval hdirty hcached ?_ ?_
    · intro c src hm
      rw [hsubs]
      exact hm
    · intro c hc
      rw [← hrun]
      exact hc
  · rw [hdis,hpend,hsubs]
    exact fun e src hd hp he hm => ⟨hd,hp,he,hm⟩

theorem Settled.under (h : Settled fns es st) : st.Under [] := by
  intro c
  simp [h.idle c]

theorem note_seen (st : State V) (src : Source) (e : Nat) (src' : Source) :
    (st.note src).seen e src'=if st.cur=some (.effect e)∧src'=src then st.version src
      else st.seen e src' := by
  unfold State.note
  split
  · rename_i e' hc
    by_cases he : e=e'
    · subst he
      by_cases hs : src'=src
      · simp [hc,hs]
      · simp [hs]
    · have hne : ¬e'=e := fun h => he h.symm
      simp [hc,he,hne]
  · rename_i hc
    have hne : st.cur≠some (.effect e) := fun h => hc e h
    simp [hne]

theorem note_rest (st : State V) (src : Source) :
    st.note src={ st with seen := (st.note src).seen } := by
  unfold State.note
  split
  · rfl
  · rfl

theorem Settled.write {s : Nat} {v : V} (h : Settled fns es st) (hw : Written s v st st') :
    Settled fns es st' := by
  have hrest := hw.rest
  have hdis : st'.disposed=st.disposed := by rw [hrest]
  have hsubs : st'.subs=st.subs := by rw [hrest]
  have hseen : st'.seen=st.seen := by rw [hrest]
  have hver : st'.version=Function.update st.version (.signal s) (st.clock+1) := by rw [hrest]
  refine ⟨h.coherent.write hw,?_,?_,?_⟩
  · rw [hrest]
    exact h.idle
  · rw [hrest]
    exact h.outer
  · intro e src hd hp he hm
    have hnot : ¬st'.Told (.effect e) := by simp [State.Told,hd,hp]
    rw [hdis] at hd
    rw [hsubs] at hm
    obtain ⟨hs,hc⟩ := h.effects e src hd (fun hp' => hp (hw.pending e hp')) he hm
    have hne : src≠.signal s := by
      intro heq
      subst heq
      exact hnot (hw.readers _ hm)
    refine ⟨by simp [hseen,hver,hne,hs],?_⟩
    intro c hsrc
    subst hsrc
    cases hd' : st'.dirty c with
    | false => rfl
    | true => exact absurd (hw.told c (hc c rfl) hd' _ hm) hnot

theorem Pulled.current {mid : State V} (hp : Pulled st mid) {src : Source}
    (hc : ∀ c, src=.computed c → st.dirty c=false) :
    mid.version src=st.version src∧∀ c, src=.computed c → mid.dirty c=false := by
  cases src with
  | signal s => exact ⟨hp.signal s,by simp⟩
  | computed d =>
    obtain ⟨hcl,-,hv⟩ := hp.clean d (hc d rfl)
    refine ⟨hv,?_⟩
    intro c hdc
    cases hdc
    exact hcl

theorem Settled.get [DecidableEq V] {n : Nat} {src : Source} {v : V} {mid : State V} (h : Settled fns es st)
    (hp : pull fns (eval fns n) src (st.track src)=some (.ok v,mid)) :
    Settled fns es (mid.note src)∧mid.broke=st.broke := by
  have ht := track_rest st src
  have htrack : (st.track src).Under [] := by
    rw [ht]
    exact h.under
  obtain ⟨hpull,hcoh,hb,hsrc⟩ := pull_spec (eval_spec n) hp htrack (h.coherent.track src)
  have hn := note_rest mid src
  have hcur : mid.cur=st.cur := by
    rw [hpull.cur,ht]
  refine ⟨⟨?_,?_,?_,?_⟩,?_⟩
  · rw [hn]
    exact hcoh.frame rfl rfl rfl (fun _ _ hm => hm) fun _ hc => hc
  · rw [hn]
    have hrun : mid.running=st.running := by
      rw [hpull.running,ht]
    rw [hrun]
    exact h.idle
  · rw [hn,hcur]
    exact h.outer
  · intro e src' hd hpend he hm
    rw [hn] at hd hpend hm ⊢
    have hdis : mid.disposed=st.disposed := by
      rw [hpull.rest,ht]
    have hpe : mid.pending=st.pending := by
      rw [hpull.rest,ht]
    have hseen : mid.seen=st.seen := by
      rw [hpull.rest,ht]
    have hver : (st.track src).version=st.version := by rw [ht]
    have hdirty : (st.track src).dirty=st.dirty := by rw [ht]
    rw [note_seen,hcur,hseen]
    by_cases hnew : st.cur=some (.effect e)∧src'=src
    · rw [if_pos hnew,hnew.2]
      refine ⟨rfl,?_⟩
      intro c hc
      subst hc
      exact hsrc.1
    · rw [if_neg hnew]
      have hm' := mem_track.mp ((hpull.effect e src').mp hm)
      have hold : .effect e∈st.subs src' := hm'.resolve_right fun hm' => hnew ⟨hm'.2,hm'.1⟩
      obtain ⟨hs,hc⟩ := h.effects e src' (by rw [← hdis]; exact hd)
        (by rw [← hpe]; exact hpend) he hold
      obtain ⟨hv,hc'⟩ := hpull.current (by rw [hdirty]; exact hc)
      rw [hv,hver]
      exact ⟨hs,hc'⟩
  · rw [hb,ht]

/-- What pends is done with, once the effects of the list have run. -/
def Clears (fns : Nat → Fn V) (es : List Nat) (st st' : State V) : Prop :=
  (st.broke=true → st'.broke=true)∧
    ∀ fs, Settled fns (es++fs) st → st'.broke=false → Settled fns fs st'

theorem Clears.refl (st : State V) : Clears fns [] st st :=
  ⟨fun h => h,fun _ h _ => h⟩

theorem Clears.trans {a b c : State V} (h : Clears fns es a b) (h' : Clears fns es' b c) :
    Clears fns (es++es') a c := by
  refine ⟨fun hb => h'.1 (h.1 hb),?_⟩
  intro fs hs hc
  have hb : b.broke=false := by
    cases hb : b.broke with
    | false => rfl
    | true => simp [h'.1 hb] at hc
  refine h'.2 fs (h.2 (es'++fs) ?_ hb) hc
  rw [← List.append_assoc]
  exact hs

theorem Settled.gone (h : Settled fns es st) (e : Nat) : Settled fns es (st.gone e) := by
  refine h.frame (h.coherent.frame rfl rfl rfl ?_ fun _ hc => hc) (fun _ => rfl) h.outer rfl rfl
    rfl ?_
  · intro c src hm
    simpa [State.gone,State.clearDeps] using hm
  · intro d src hd hp he hm
    have hde : d≠e := by
      intro heq
      simp [heq,State.gone,State.clearDeps] at hd
    simp only [State.gone,State.clearDeps,Function.update_of_ne hde] at hd
    refine ⟨hd,?_,he,?_⟩
    · simpa [State.gone,State.clearDeps,hde] using hp
    · have hm' := List.mem_of_mem_filter hm
      exact hm'

theorem Settled.entered (pass : Option Nat) {e : Nat} (h : Settled fns (e::es) st) :
    Settled fns es (st.entered pass e) := by
  refine h.frame (h.coherent.frame rfl rfl rfl ?_ ?_) ?_ (by simp [State.entered,State.clearDeps])
    rfl rfl rfl ?_
  · intro c src hm
    simpa [State.entered,State.clearDeps] using hm
  · intro c hc
    simpa [State.entered,State.clearDeps] using hc
  · intro c
    simp [State.entered,State.clearDeps]
  · intro d src hd hp he hm
    have hmem := List.mem_filter.mp hm
    have hde : d≠e := by
      intro heq
      subst heq
      simp at hmem
    exact ⟨hd,hp,by simp [hde,he],hmem.1⟩

theorem Settled.leave {mid : State V} (h : Settled fns es mid) (hs : Settled fns es' st) (e : Nat)
    (cleanup : Nat → Option (Prog V)) :
    Settled fns es { mid.leave e st.cur with cleanup := cleanup } := by
  refine h.quiet rfl rfl rfl rfl rfl rfl rfl rfl ?_ hs.outer
  intro c
  simp [State.leave]

/-- A pass that an effect's throw ends has dropped nothing, where the rest of it is pending or
disposed. -/
theorem Settled.dropped {fs : List Nat} (h : Settled fns (es++fs) st) (hl : st.loses es=false) :
    Settled fns fs st := by
  refine h.frame h.coherent (fun _ => rfl) h.outer rfl rfl rfl ?_
  intro e src hd hp he hm
  refine ⟨hd,hp,?_,hm⟩
  intro hmem
  cases List.mem_append.mp hmem with
  | inl hes =>
    have hn := List.any_eq_false.mp hl e hes
    simp [hd,hp] at hn
  | inr hfs => exact he hfs

end

end Kitp.Signals
