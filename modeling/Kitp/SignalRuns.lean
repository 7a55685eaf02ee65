import Kitp.Lib.Runs
import Kitp.SignalSettled

/-! Whole runs of the signal core: what computeds return, and which effects have yet to run. -/
namespace Kitp.Signals

open Kitp.Runs

variable {V : Type}

/-- An effect runs once in a pass, and not when it is disposed. -/
structure Once (st : State V) : Prop where
  pending : st.pending.Nodup
  passes : ∀ x∈st.ran, ∀ p, x.pass=some p → p < st.passes
  once : st.ran.Pairwise fun x y => x.pass=none∨x.pass≠y.pass∨x.effect≠y.effect
  disposed : ∀ x∈st.ran, x.disposed=true → st.broke=true

/-- The pass has yet to run each of the effects. -/
structure Due (number : Option Nat) (es : List Nat) (st : State V) : Prop where
  begun : ∀ p, number=some p → p < st.passes
  nodup : es.Nodup
  fresh : ∀ x∈st.ran, x.pass≠none → x.pass=number → x.effect∉es

/-- The effects of the list run in their pass, and whatever else runs does so in a later one. -/
def Logs (number : Option Nat) (es : List Nat) (st st' : State V) : Prop :=
  Once st → Due number es st → Once st'∧st.passes ≤ st'.passes∧
    ∀ x∈st'.ran, x∈st.ran∨x.pass=none∨(∃ p, x.pass=some p∧st.passes≤p)∨
      x.pass=number∧x.effect∈es

section

variable {number : Option Nat} {es es' : List Nat} {st st' : State V}

theorem Logs.quiet (hpend : st.pending.Nodup → st'.pending.Nodup) (hpass : st'.passes=st.passes)
    (hran : st'.ran=st.ran) (hb : st.broke=true → st'.broke=true) : Logs number es st st' := by
  intro ho _
  refine ⟨⟨hpend ho.pending,?_,?_,?_⟩,Nat.le_of_eq hpass.symm,?_⟩
  · rw [hpass,hran]
    exact ho.passes
  · rw [hran]
    exact ho.once
  · rw [hran]
    exact fun x hx hd => hb (ho.disposed x hx hd)
  · rw [hran]
    exact fun x hx => Or.inl hx

theorem Logs.trans {a b c : State V} (h : Logs number es a b) (h' : Logs number es' b c) :
    Logs number (es++es') a c := by
  intro ho hd
  obtain ⟨hn,hn',hdis⟩ := List.nodup_append.mp hd.nodup
  have hda : Due number es a := by
    refine ⟨hd.begun,hn,?_⟩
    exact fun x hx hx' hp hm => hd.fresh x hx hx' hp (List.mem_append_left _ hm)
  obtain ⟨hob,hpb,hrb⟩ := h ho hda
  have hdb : Due number es' b := by
    refine ⟨fun p hp => Nat.lt_of_lt_of_le (hd.begun p hp) hpb,hn',?_⟩
    intro x hx hx' hp hm
    rcases hrb x hx with hold|hnone|⟨p,hxp,hlt⟩|hnew
    · exact hd.fresh x hold hx' hp (List.mem_append_right _ hm)
    · exact hx' hnone
    · have hlt' := hd.begun p (by rw [← hp]; exact hxp)
      omega
    · exact hdis _ hnew.2 _ hm rfl
  obtain ⟨hoc,hpc,hrc⟩ := h' hob hdb
  refine ⟨hoc,Nat.le_trans hpb hpc,?_⟩
  intro x hx
  rcases hrc x hx with hold|hnone|⟨p,hxp,hlt⟩|hnew
  · rcases hrb x hold with hold|hnone|hlater|hnew
    · exact Or.inl hold
    · exact Or.inr (Or.inl hnone)
    · exact Or.inr (Or.inr (Or.inl hlater))
    · exact Or.inr (Or.inr (Or.inr ⟨hnew.1,List.mem_append_left _ hnew.2⟩))
  · exact Or.inr (Or.inl hnone)
  · exact Or.inr (Or.inr (Or.inl ⟨p,hxp,Nat.le_trans hpb hlt⟩))
  · exact Or.inr (Or.inr (Or.inr ⟨hnew.1,List.mem_append_right _ hnew.2⟩))

/-- Where nothing is due, what happens is in no pass begun before. -/
theorem Logs.within {a b c : State V} (h : Logs none [] b c) (h' : Logs number es a b) :
    Logs number es a c := by
  intro ho hd
  obtain ⟨hob,hpb,hrb⟩ := h' ho hd
  obtain ⟨hoc,hpc,hrc⟩ := h hob ⟨by simp,by simp,by simp⟩
  refine ⟨hoc,Nat.le_trans hpb hpc,?_⟩
  intro x hx
  rcases hrc x hx with hold|hnone|⟨p,hxp,hlt⟩|hnew
  · exact hrb x hold
  · exact Or.inr (Or.inl hnone)
  · exact Or.inr (Or.inr (Or.inl ⟨p,hxp,Nat.le_trans hpb hlt⟩))
  · simp at hnew

end

section

variable [DecidableEq V]

variable {fns : Nat → Fn V} {together : Nat → Bool} {st st' : State V} {value cached : Nat → V}

end

/-- No group in a batch. -/
abbrev apart (_ : Nat) : Bool := false

end Kitp.Signals
