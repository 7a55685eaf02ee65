import Kitp.SignalFlush

/-! What the dirty marks are worth: a computed that is clean holds what its function returns on
the signals as they are. -/
namespace Kitp.Signals

variable {V : Type}

section

variable (fns : Nat → Fn V) (value : Nat → V)

/-- What a function returns on the signals' values. -/
inductive Yields : Fn V → V → Prop where
  | ret (v : V) : Yields (.ret v) v
  | signal {s : Nat} {k : V → Fn V} {v : V} : Yields (k (value s)) v →
      Yields (.get (.signal s) k) v
  | computed {c : Nat} {k : V → Fn V} {v w : V} : Yields (fns c) v → Yields (k v) w →
      Yields (.get (.computed c) k) w

/-- What it throws, called from the computeds of the path: it throws, or what it reads does, or
it reads one it was called from. -/
inductive Throws : List Nat → Fn V → Fault → Prop where
  | thrown (path : List Nat) : Throws path .throw .thrown
  | cycle {path : List Nat} {c : Nat} (k : V → Fn V) : c∈path →
      Throws path (.get (.computed c) k) .cycle
  | inside {path : List Nat} {c : Nat} (k : V → Fn V) {x : Fault} : c∉path →
      Throws (c::path) (fns c) x → Throws path (.get (.computed c) k) x
  | signal {path : List Nat} {s : Nat} {k : V → Fn V} {x : Fault} :
      Throws path (k (value s)) x → Throws path (.get (.signal s) k) x
  | computed {path : List Nat} {c : Nat} {k : V → Fn V} {v : V} {x : Fault} :
      Yields fns value (fns c) v → Throws path (k v) x → Throws path (.get (.computed c) k) x

end

/-- The notification has reached the reader. -/
def State.Told (st : State V) : Reader → Prop
  | .computed c => st.dirty c=true
  | .effect e => st.disposed e=true∨e∈st.pending

/-- What a notification does: marks and pending effects only, and whoever depends on a computed
it marks is told. -/
structure Pushed (st st' : State V) : Prop where
  rest : st'={ st with
    dirty := st'.dirty, pending := st'.pending, flushing := st'.flushing, queued := st'.queued }
  dirty : ∀ c, st.dirty c=true → st'.dirty c=true
  pending : ∀ e∈st.pending, e∈st'.pending
  nodup : st.pending.Nodup → st'.pending.Nodup
  told : ∀ c, st.dirty c=false → st'.dirty c=true → ∀ r∈st.subs (.computed c), st'.Told r

theorem Pushed.refl (st : State V) : Pushed st st :=
  ⟨rfl,fun _ h => h,fun _ h => h,id,fun _ h h' => by simp [h] at h'⟩

theorem Pushed.keeps {st st' : State V} (h : Pushed st st') {r : Reader} (hr : st.Told r) :
    st'.Told r := by
  cases r with
  | computed c => exact h.dirty c hr
  | effect e =>
    have hd : st'.disposed=st.disposed := by rw [h.rest]
    cases hr with
    | inl hr => exact Or.inl (by rw [hd]; exact hr)
    | inr hr => exact Or.inr (h.pending e hr)

theorem Pushed.trans {a b c : State V} (h : Pushed a b) (h' : Pushed b c) : Pushed a c where
  rest := by
    have hb := h.rest
    have hc := h'.rest
    rw [hb] at hc
    exact hc
  dirty d hd := h'.dirty d (h.dirty d hd)
  pending e he := h'.pending e (h.pending e he)
  nodup hn := h'.nodup (h.nodup hn)
  told d hd hd' r hr := by
    cases hb : b.dirty d with
    | true => exact h'.keeps (h.told d hd hb r hr)
    | false =>
      refine h'.told d hb hd' r ?_
      rw [h.rest]
      exact hr

/-- A `Signal.set` or `Signal.bump`: whoever depends on the signal is told. -/
structure Written (s : Nat) (v : V) (st st' : State V) : Prop where
  rest : st'={ st with
    value := Function.update st.value s v
    clock := st.clock+1
    version := Function.update st.version (.signal s) (st.clock+1)
    dirty := st'.dirty, pending := st'.pending, flushing := st'.flushing, queued := st'.queued }
  dirty : ∀ c, st.dirty c=true → st'.dirty c=true
  pending : ∀ e∈st.pending, e∈st'.pending
  nodup : st.pending.Nodup → st'.pending.Nodup
  told : ∀ c, st.dirty c=false → st'.dirty c=true → ∀ r∈st.subs (.computed c), st'.Told r
  readers : ∀ r∈st.subs (.signal s), st'.Told r

section

variable (fns : Nat → Fn V)

/-- The function of a computed, reading what it reads of others from what they hold, returns the
value; each of them is clean and tells the computed of a change. -/
inductive Fresh (st : State V) : Nat → Fn V → V → Prop where
  | ret (c : Nat) (v : V) : Fresh st c (.ret v) v
  | signal {c s : Nat} {k : V → Fn V} {v : V} : .computed c∈st.subs (.signal s) →
      Fresh st c (k (st.value s)) v → Fresh st c (.get (.signal s) k) v
  | computed {c d : Nat} {k : V → Fn V} {v : V} : .computed c∈st.subs (.computed d) →
      st.dirty d=false → Fresh st d (fns d) (st.cached d) → Fresh st c (k (st.cached d)) v →
      Fresh st c (.get (.computed d) k) v

/-- Clean computeds hold their function's value; a running one is dirty. -/
structure Coherent (st : State V) : Prop where
  fresh : ∀ c, st.dirty c=false → Fresh fns st c (fns c) (st.cached c)
  running : ∀ c, st.running (.computed c)=true → st.dirty c=true

end

variable {fns : Nat → Fn V}

theorem Fresh.yields {st : State V} {c : Nat} {f : Fn V} {v : V} (h : Fresh fns st c f v) :
    Yields fns st.value f v := by
  induction h with
  | ret c v => exact Yields.ret v
  | signal _ _ ih => exact Yields.signal ih
  | computed _ _ _ _ ihd ih => exact Yields.computed ihd ih

/-- What a computed reads is as it was. -/
def Holds (st st' : State V) (c : Nat) : Prop :=
  ∀ src, .computed c∈st.subs src → .computed c∈st'.subs src∧match src with
    | .signal s => st'.value s=st.value s
    | .computed d => st.dirty d=false → st'.dirty d=false∧st'.cached d=st.cached d

theorem Fresh.mono {st st' : State V} {c : Nat} {f : Fn V} {v : V} (h : Fresh fns st c f v)
    (hc : Holds st st' c)
    (hh : ∀ d, st.dirty d=false → st'.dirty d=false → Holds st st' d) : Fresh fns st' c f v := by
  induction h with
  | ret c v => exact Fresh.ret c v
  | @signal c s k v hm _ ih =>
    obtain ⟨hm',hv⟩ := hc _ hm
    have hk := ih hc
    dsimp only at hv
    rw [← hv] at hk
    exact Fresh.signal hm' hk
  | @computed c d k v hm hd _ _ ihd ih =>
    obtain ⟨hm',hv⟩ := hc _ hm
    obtain ⟨hd',hv⟩ := hv hd
    have hk := ih hc
    have hf := ihd (hh d hd hd')
    rw [← hv] at hk hf
    exact Fresh.computed hm' hd' hf hk

theorem Coherent.frame {st st' : State V} (hi : Coherent fns st) (hval : st'.value=st.value)
    (hdirty : st'.dirty=st.dirty) (hcached : st'.cached=st.cached)
    (hsubs : ∀ c src, .computed c∈st.subs src → .computed c∈st'.subs src)
    (hrun : ∀ c, st'.running (.computed c)=true → st.running (.computed c)=true) :
    Coherent fns st' := by
  have hold : ∀ d, Holds st st' d := by
    intro d src hm
    refine ⟨hsubs d src hm,?_⟩
    cases src with
    | signal s => simp [hval]
    | computed e => exact fun he => ⟨by rw [hdirty]; exact he,by rw [hcached]⟩
  constructor
  · intro d hd
    rw [hdirty] at hd
    rw [hcached]
    exact (hi.fresh d hd).mono (hold d) fun e _ _ => hold e
  · intro d hd
    rw [hdirty]
    exact hi.running d (hrun d hd)

theorem Coherent.write {s : Nat} {v : V} {st st' : State V} (hi : Coherent fns st)
    (h : Written s v st st') : Coherent fns st' := by
  have hsubs : st'.subs=st.subs := by rw [h.rest]
  have hcached : st'.cached=st.cached := by rw [h.rest]
  have hval : st'.value=Function.update st.value s v := by rw [h.rest]
  have hclean : ∀ c, st'.dirty c=false → st.dirty c=false := by
    intro c hc
    cases hd : st.dirty c with
    | false => rfl
    | true => simp [h.dirty c hd] at hc
  -- a computed that is still clean wasn't told, so nothing it reads has changed
  have hold : ∀ c, st'.dirty c=false → Holds st st' c := by
    intro c hc src hm
    refine ⟨by rw [hsubs]; exact hm,?_⟩
    have hnot : ¬st'.Told (.computed c) := by simp [State.Told,hc]
    cases src with
    | signal t =>
      have hts : t≠s := by
        intro he
        subst he
        exact hnot (h.readers _ hm)
      simp [hval,hts]
    | computed d =>
      intro hd
      refine ⟨?_,by rw [hcached]⟩
      cases hd' : st'.dirty d with
      | false => rfl
      | true => exact absurd (h.told d hd hd' _ hm) hnot
  constructor
  · intro c hc
    rw [hcached]
    exact (hi.fresh c (hclean c hc)).mono (hold c hc) fun d _ hd => hold d hd
  · intro c hc
    refine h.dirty c (hi.running c ?_)
    rw [h.rest] at hc
    exact hc

/-- What reads do: they recompute computeds that were dirty. -/
structure Pulled (st st' : State V) : Prop where
  rest : st'={ st with
    cached := st'.cached, version := st'.version, dirty := st'.dirty, subs := st'.subs
    clock := st'.clock, broke := st'.broke }
  signal : ∀ s, st'.version (.signal s)=st.version (.signal s)
  clean : ∀ c, st.dirty c=false → st'.dirty c=false∧st'.cached c=st.cached c∧
    st'.version (.computed c)=st.version (.computed c)
  computed : ∀ c, st.dirty c=false∨st.running (.computed c)=true →
    ∀ src, .computed c∈st.subs src → .computed c∈st'.subs src
  effect : ∀ e src, .effect e∈st'.subs src↔.effect e∈st.subs src

theorem Pulled.refl (st : State V) : Pulled st st :=
  ⟨rfl,fun _ => rfl,fun _ h => ⟨h,rfl,rfl⟩,fun _ _ _ h => h,fun _ _ => Iff.rfl⟩

theorem Pulled.running {st st' : State V} (h : Pulled st st') : st'.running=st.running := by
  rw [h.rest]

theorem Pulled.value {st st' : State V} (h : Pulled st st') : st'.value=st.value := by
  rw [h.rest]

theorem Pulled.cur {st st' : State V} (h : Pulled st st') : st'.cur=st.cur := by
  rw [h.rest]

theorem Pulled.trans {a b c : State V} (h : Pulled a b) (h' : Pulled b c) : Pulled a c where
  rest := by
    have hb := h.rest
    have hc := h'.rest
    rw [hb] at hc
    exact hc
  signal s := (h'.signal s).trans (h.signal s)
  clean d hd := by
    obtain ⟨hb,hv,hn⟩ := h.clean d hd
    obtain ⟨hc,hv',hn'⟩ := h'.clean d hb
    exact ⟨hc,hv'.trans hv,hn'.trans hn⟩
  computed d hd src hm := by
    refine h'.computed d ?_ src (h.computed d hd src hm)
    cases hd with
    | inl hd => exact Or.inl (h.clean d hd).1
    | inr hd => exact Or.inr (by rw [h.running]; exact hd)
  effect e src := (h'.effect e src).trans (h.effect e src)

/-- The computeds that are running. -/
def State.Under (st : State V) (path : List Nat) : Prop :=
  ∀ c, st.running (.computed c)=true↔c∈path

/-- What the function of a computed comes to, however it is run. -/
def Evaluates (fns : Nat → Fn V) (run : Fn V → State V → Option (Except Fault V×State V)) : Prop :=
  ∀ (c : Nat) (path : List Nat) (f : Fn V) (st st' : State V) (r : Except Fault V),
    run f st=some (r,st') → st.cur=some (.computed c) → c∈path → st.Under path →
    Coherent fns st → match r with
      | .ok v => Pulled st st'∧Coherent fns st'∧st'.broke=st.broke∧Fresh fns st' c f v
      | .error x => Throws fns st.value path f x

/-- The function reads none of the computeds from a bound on. -/
def Fn.Within (N : Nat) : Fn V → Prop
  | .ret _ => True
  | .throw => True
  | .get src k => (∀ c, src=.computed c → c<N)∧∀ v, (k v).Within N

/-- A computed about to be recomputed. -/
def State.opened (st : State V) (c : Nat) : State V :=
  State.clearDeps { st with
    running := Function.update st.running (.computed c) true
    cur := some (.computed c) } (.computed c)

theorem Coherent.opened {st : State V} (hi : Coherent fns st) {c : Nat} (hc : st.dirty c=true) :
    Coherent fns (st.opened c) := by
  have hold : ∀ d, st.dirty d=false → Holds st (st.opened c) d := by
    intro d hd src hm
    have hdc : d≠c := by
      intro he
      simp [he,hc] at hd
    refine ⟨by simpa [State.opened,State.clearDeps,hdc] using hm,?_⟩
    cases src with
    | signal s => rfl
    | computed e => exact fun he => ⟨he,rfl⟩
  constructor
  · intro d hd
    exact (hi.fresh d hd).mono (hold d hd) fun e he _ => hold e he
  · intro d hd
    by_cases hdc : d=c
    · subst hdc
      exact hc
    · exact hi.running d (by simpa [State.opened,State.clearDeps,hdc] using hd)

theorem opened_under {st : State V} {path : List Nat} (h : st.Under path) (c : Nat) :
    (st.opened c).Under (c::path) := by
  intro d
  by_cases hdc : d=c
  · simp [State.opened,State.clearDeps,hdc]
  · simpa [State.opened,State.clearDeps,hdc] using h d

/-- A computed after a recomputation that returned. -/
def State.closed (st : State V) (c : Nat) (prev : Option Reader) (v : V) (clock n : Nat) :
    State V :=
  { st with
    cur := prev
    running := Function.update st.running (.computed c) false
    dirty := Function.update st.dirty c false
    cached := Function.update st.cached c v
    clock := clock
    version := Function.update st.version (.computed c) n }

/-- What is running before a recomputation is running after it. -/
theorem settled_running {st mid : State V} {c : Nat} (h : mid.running=(st.opened c).running)
    (hr : ¬st.running (.computed c)=true) :
    Function.update mid.running (.computed c) false=st.running := by
  rw [h]
  funext x
  by_cases hx : x=.computed c
  · simp [hx,Bool.eq_false_iff.mpr hr]
  · simp [State.opened,State.clearDeps,hx]

/-- A computed that has its new value is clean, and so are those that were. -/
theorem Coherent.closed {st : State V} (hi : Coherent fns st) {c : Nat} {v : V}
    (hc : st.dirty c=true) (hf : Fresh fns st c (fns c) v) (prev : Option Reader) (clock n : Nat) :
    Coherent fns (st.closed c prev v clock n) := by
  have hold : ∀ d, Holds st (st.closed c prev v clock n) d := by
    intro d src hm
    refine ⟨hm,?_⟩
    cases src with
    | signal s => rfl
    | computed e =>
      intro he
      have hec : e≠c := by
        intro heq
        simp [heq,hc] at he
      simp [State.closed,hec,he]
  constructor
  · intro d hd
    by_cases hdc : d=c
    · subst hdc
      simpa [State.closed] using hf.mono (hold d) fun e _ _ => hold e
    · have hd' : st.dirty d=false := by simpa [State.closed,hdc] using hd
      simpa [State.closed,hdc] using (hi.fresh d hd').mono (hold d) fun e _ _ => hold e
  · intro d hd
    by_cases hdc : d=c
    · simp [State.closed,hdc] at hd
    · simpa [State.closed,hdc] using hi.running d (by simpa [State.closed,hdc] using hd)

theorem mem_track {st : State V} {src src' : Source} {r : Reader} :
    r∈(st.track src).subs src'↔r∈st.subs src'∨src'=src∧st.cur=some r := by
  unfold State.track
  cases hc : st.cur with
  | none => simp
  | some r' =>
    by_cases hs : src'=src
    · subst hs
      by_cases hm : r'∈st.subs src'
      · simp only [hm,if_true,Function.update_self]
        constructor
        · exact Or.inl
        · rintro (h|⟨-,h⟩)
          · exact h
          · cases h
            exact hm
      · simp [hm,eq_comm]
    · simp [hs]

theorem track_rest (st : State V) (src : Source) :
    st.track src={ st with subs := (st.track src).subs } := by
  cases hc : st.cur with
  | none =>
    have h : st.track src=st := by simp [State.track,hc]
    rw [h,← hc]
  | some r => simp [State.track,hc]

theorem Coherent.track {st : State V} (hi : Coherent fns st) (src : Source) :
    Coherent fns (st.track src) := by
  have hrest := track_rest st src
  refine hi.frame (by rw [hrest]) (by rw [hrest]) (by rw [hrest]) ?_ ?_
  · exact fun c src' hm => mem_track.mpr (Or.inl hm)
  · intro c hc
    rw [hrest] at hc
    exact hc

/-- A read in a computed's function. -/
theorem track_pulled {st : State V} {c : Nat} (hc : st.cur=some (.computed c)) (src : Source) :
    Pulled st (st.track src) := by
  have hrest := track_rest st src
  refine ⟨?_,?_,?_,?_,?_⟩
  · rw [hrest]
  · intro s
    rw [hrest]
  · intro d hd
    rw [hrest]
    exact ⟨hd,rfl,rfl⟩
  · exact fun d _ src' hm => mem_track.mpr (Or.inl hm)
  · intro e src'
    rw [mem_track,hc]
    simp

section

variable [DecidableEq V]

/-- The end of a recomputation that returned. -/
theorem settle_ok (c : Nat) (prev : Option Reader) (v : V) (st : State V) :
    ∃ clock n, settle c prev (.ok v,st)=(.ok v,st.closed c prev v clock n) := by
  by_cases h : v=st.cached c
  · refine ⟨st.clock,st.version (.computed c),?_⟩
    subst h
    simp [settle,State.finish,State.closed]
  · exact ⟨st.clock+1,st.clock+1,by simp [settle,State.finish,State.closed,h]⟩

/-- What no read changes, whatever it comes to. -/
structure Framed (st st' : State V) : Prop where
  rest : st'={ st with
    cached := st'.cached, version := st'.version, dirty := st'.dirty, subs := st'.subs
    clock := st'.clock, broke := st'.broke }
  broke : st.broke=true → st'.broke=true

omit [DecidableEq V] in
theorem Framed.refl (st : State V) : Framed st st := ⟨rfl,fun h => h⟩

omit [DecidableEq V] in
theorem Framed.trans {a b c : State V} (h : Framed a b) (h' : Framed b c) : Framed a c where
  rest := by
    have hb := h.rest
    have hc := h'.rest
    rw [hb] at hc
    exact hc
  broke hb := h'.broke (h.broke hb)

theorem recompute_spec {run : Fn V → State V → Option (Except Fault V×State V)}
    (hrun : Evaluates fns run) {path : List Nat} {c : Nat} {st st' : State V}
    {r : Except Fault V} (h : recompute fns run c st=some (r,st')) (hd : st.dirty c=true)
    (hu : st.Under path) (hi : Coherent fns st) : match r with
      | .ok v => Pulled st st'∧Coherent fns st'∧st'.broke=st.broke∧
          st'.dirty c=false∧st'.cached c=v
      | .error x => st'.broke=true∧
          (c∈path∧x=.cycle∨c∉path∧Throws fns st.value (c::path) (fns c) x) := by
  unfold recompute at h
  by_cases hr : st.running (.computed c)=true
  · rw [if_pos hr] at h
    cases h
    exact ⟨rfl,Or.inl ⟨(hu c).mp hr,rfl⟩⟩
  · rw [if_neg hr] at h
    obtain ⟨⟨q,mid⟩,hrun',hset⟩ := Option.map_eq_some_iff.mp h
    have hspec := hrun c (c::path) (fns c) (st.opened c) mid q hrun' rfl (by simp)
      (opened_under hu c) (hi.opened hd)
    have hp : c∉path := fun hm => hr ((hu c).mpr hm)
    cases q with
    | error x =>
      cases hset
      exact ⟨rfl,Or.inr ⟨hp,hspec⟩⟩
    | ok v =>
      obtain ⟨hpull,hcoh,hb,hf⟩ := hspec
      obtain ⟨clock,n,hs⟩ := settle_ok c st.cur v mid
      rw [hs] at hset
      cases hset
      have hrest := hpull.rest
      have hrun1 : mid.running=(st.opened c).running := hpull.running
      have hdm : mid.dirty c=true := hcoh.running c (by simp [hrun1,State.opened,State.clearDeps])
      refine ⟨⟨?_,?_,?_,?_,?_⟩,hcoh.closed hdm hf st.cur clock n,hb,by simp [State.closed],
        by simp [State.closed]⟩
      · unfold State.closed
        rw [settled_running hrun1 hr,hrest]
        rfl
      · intro s
        simpa [State.closed,State.opened,State.clearDeps] using hpull.signal s
      · intro d hdd
        have hdc : d≠c := by
          intro he
          simp [he,hd] at hdd
        obtain ⟨h1,h2,h3⟩ := hpull.clean d hdd
        simp only [State.closed,Function.update_of_ne hdc]
        refine ⟨h1,h2,?_⟩
        simpa [State.opened,State.clearDeps,hdc] using h3
      · intro d hdd src hm
        have hdc : d≠c := by
          intro he
          subst he
          simp [hd,hr] at hdd
        refine hpull.computed d ?_ src (by simpa [State.opened,State.clearDeps,hdc] using hm)
        simpa [State.opened,State.clearDeps,hdc] using hdd
      · intro e src
        have he := hpull.effect e src
        simpa [State.closed,State.opened,State.clearDeps] using he

/-- A read, past `track`. -/
theorem pull_spec {run : Fn V → State V → Option (Except Fault V×State V)}
    (hrun : Evaluates fns run) {path : List Nat} {src : Source} {st st' : State V}
    {r : Except Fault V} (h : pull fns run src st=some (r,st')) (hu : st.Under path)
    (hi : Coherent fns st) : match r with
      | .ok v => Pulled st st'∧Coherent fns st'∧st'.broke=st.broke∧(match src with
          | .signal s => st.value s=v
          | .computed c => st'.dirty c=false∧st'.cached c=v)
      | .error x => st'.broke=true∧∃ c, src=.computed c∧
          (c∈path∧x=.cycle∨c∉path∧Throws fns st.value (c::path) (fns c) x) := by
  cases src with
  | signal s =>
    cases h
    exact ⟨Pulled.refl st,hi,rfl,rfl⟩
  | computed c =>
    simp only [pull] at h
    by_cases hd : st.dirty c=true
    · rw [if_pos hd] at h
      have hs := recompute_spec hrun h hd hu hi
      cases r with
      | ok v => exact hs
      | error x => exact ⟨hs.1,c,rfl,hs.2⟩
    · rw [if_neg hd] at h
      cases h
      exact ⟨Pulled.refl st,hi,rfl,by simpa using hd,rfl⟩

theorem eval_spec (n : Nat) : Evaluates fns (eval fns n) := by
  induction n with
  | zero =>
    intro c path f st st' r h
    cases f <;> simp [eval] at h
  | succ n ih =>
    intro c path f st st' r h hc hp hu hi
    cases f with
    | ret v =>
      cases h
      exact ⟨Pulled.refl st,hi,rfl,Fresh.ret c v⟩
    | throw =>
      cases h
      exact Throws.thrown path
    | get src k =>
      obtain ⟨⟨q,mid⟩,hq,hk⟩ := Option.bind_eq_some_iff.mp h
      have htrack := track_pulled hc src
      have htu : (st.track src).Under path := by
        intro d
        rw [htrack.running]
        exact hu d
      have hs := pull_spec ih hq htu (hi.track src)
      cases q with
      | error x =>
        cases hk
        obtain ⟨-,d,hd,hx⟩ := hs
        subst hd
        rw [htrack.value] at hx
        cases hx with
        | inl hx =>
          obtain ⟨hm,hx⟩ := hx
          subst hx
          exact Throws.cycle k hm
        | inr hx => exact Throws.inside k hx.1 hx.2
      | ok w =>
        obtain ⟨hpull,hcoh,hb,hw⟩ := hs
        have hall := htrack.trans hpull
        have hmu : mid.Under path := by
          intro d
          rw [hall.running]
          exact hu d
        have hrc : mid.running (.computed c)=true := (hmu c).mpr hp
        have hm : .computed c∈mid.subs src := by
          refine hpull.computed c (Or.inr ?_) src (mem_track.mpr (Or.inr ⟨rfl,hc⟩))
          exact (htu c).mpr hp
        have hend := ih c path (k w) mid st' r hk (by rw [hall.cur]; exact hc) hp hmu hcoh
        have hval : mid.value=st.value := hall.value
        cases r with
        | error x =>
          dsimp only at hend
          rw [hval] at hend
          cases src with
          | signal s =>
            have hw' : st.value s=w := by
              rw [← htrack.value]
              exact hw
            subst hw'
            exact Throws.signal hend
          | computed d =>
            obtain ⟨hdd,hw⟩ := hw
            have hy := (hcoh.fresh d hdd).yields
            rw [hw,hval] at hy
            exact Throws.computed hy hend
        | ok v =>
          obtain ⟨hpull',hcoh',hb',hf⟩ := hend
          have htb : (st.track src).broke=st.broke := by rw [track_rest]
          refine ⟨hall.trans hpull',hcoh',hb'.trans (hb.trans htb),?_⟩
          have hm' := hpull'.computed c (Or.inr hrc) src hm
          cases src with
          | signal s =>
            have hw' : st'.value s=w := by
              rw [hpull'.value,hpull.value]
              exact hw
            subst hw'
            exact Fresh.signal hm' hf
          | computed d =>
            obtain ⟨hdd,hw⟩ := hw
            obtain ⟨hdd',hcd,-⟩ := hpull'.clean d hdd
            have hw' : st'.cached d=w := by
              rw [hcd]
              exact hw
            subst hw'
            exact Fresh.computed hm' hdd' (hcoh'.fresh d hdd') hf

end

end Kitp.Signals
