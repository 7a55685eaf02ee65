import Kitp.SignalRuns

/-! Groups of writes in a `batch` and out of one. -/
namespace Kitp.Signals

open Kitp.Runs

variable {V : Type}

/-- The states differ in the depth of batches and in the flush that is queued only. -/
def Near (st st' : State V) : Prop :=
  ∃ depth flushing queued,
    st'={ st with batchDepth := depth, flushing := flushing, queued := queued }

theorem Near.refl (st : State V) : Near st st := ⟨_,_,_,rfl⟩

theorem Near.symm {st st' : State V} (h : Near st st') : Near st' st := by
  obtain ⟨d,f,q,rfl⟩ := h
  exact ⟨st.batchDepth,st.flushing,st.queued,rfl⟩

theorem Near.trans {a b c : State V} (h : Near a b) (h' : Near b c) : Near a c := by
  obtain ⟨_,_,_,rfl⟩ := h
  obtain ⟨d,f,q,rfl⟩ := h'
  exact ⟨d,f,q,rfl⟩

section

variable [DecidableEq V] {fns : Nat → Fn V}

end

/-- The states differ in the flush that is queued only. -/
def Alike (st st' : State V) : Prop :=
  ∃ flushing queued, st'={ st with flushing := flushing, queued := queued }

theorem Alike.refl (st : State V) : Alike st st := ⟨_,_,rfl⟩

theorem Alike.symm {st st' : State V} (h : Alike st st') : Alike st' st := by
  obtain ⟨f,q,rfl⟩ := h
  exact ⟨st.flushing,st.queued,rfl⟩

theorem Alike.trans {a b c : State V} (h : Alike a b) (h' : Alike b c) : Alike a c := by
  obtain ⟨_,_,rfl⟩ := h
  obtain ⟨f,q,rfl⟩ := h'
  exact ⟨f,q,rfl⟩

theorem Alike.depth {st st' : State V} (h : Alike st st') : st'.batchDepth=st.batchDepth := by
  obtain ⟨f,q,rfl⟩ := h
  rfl

theorem Near.alike {st st' : State V} (h : Near st st') (hd : st'.batchDepth=st.batchDepth) :
    Alike st st' := by
  obtain ⟨d,f,q,rfl⟩ := h
  dsimp only at hd
  subst hd
  exact ⟨f,q,rfl⟩

/-- None of the groups that the two treat differently has ended with an effect pending. -/
def Calm (together together' : Nat → Bool) (st : State V) : Prop :=
  ∀ g, together g≠together' g → st.crowded g=false

/-- A group that ended with an effect pending stays marked. -/
def Grows (st st' : State V) : Prop :=
  ∀ g, st.crowded g=true → st'.crowded g=true

theorem Grows.trans {a b c : State V} (h : Grows a b) (h' : Grows b c) : Grows a c :=
  fun g hg => h' g (h g hg)

/-- The second returns what the first does, or throws it, in a state alike. -/
def Matches (r : Out V) (o : Option (Out V)) : Prop :=
  ∃ r', o=some r'∧r'.1=r.1∧Alike r.2 r'.2

theorem Matches.bind {r s : Out V} {o : Option (Out V)} {k : Out V → Option (Out V)}
    (h : Matches r o) (hk : ∀ st', Alike r.2 st' → Matches s (k (r.1,st'))) :
    Matches s (o.bind k) := by
  obtain ⟨⟨q,st'⟩,ho,hq,ha⟩ := h
  subst ho
  dsimp only at hq
  subst hq
  exact hk st' ha

section

variable [DecidableEq V] {fns : Nat → Fn V} {together together' : Nat → Bool}

omit [DecidableEq V] in
/-- What ends calm was calm. -/
theorem Calm.before {st st' : State V} (h : Calm together together' st')
    (hg : Grows st st') : Calm together together' st := by
  intro g hne
  cases hc : st.crowded g with
  | false => rfl
  | true =>
    have hc' := hg g hc
    rw [h g hne] at hc'
    cases hc'

/-- What is called matches, where the groups that are treated differently end calm. -/
def Follows (together together' : Nat → Bool) (call call' : Task V → State V → Option (Out V)) :
    Prop :=
  ∀ t st st' r, call t st=some r → Alike st st' → Calm together together' r.2 →
    Matches r (call' t st')

end

section

variable [DecidableEq V] {fns : Nat → Fn V} {together together' : Nat → Bool}
  {call call' : Task V → State V → Option (Out V)} {n : Nat}

end

section

variable [DecidableEq V] {fns : Nat → Fn V} {together together' : Nat → Bool}
  {call call' : Task V → State V → Option (Out V)}

end

end Kitp.Signals
