import Mathlib.Logic.Function.Basic

/-! Leases: a resource is held until a time, and whoever took it remembers that time. A
lease that has run out is free to be taken by another. -/
namespace Kitp.Lease
open Function

variable {ρ α : Type*} {held : ρ → Option Nat} {claims : α → Option (ρ×Nat)}
  {now later u : Nat} {a : α} {r : ρ}

/-- A claim that has not run out stands behind its resource's lease, and is the only one. -/
structure Exclusive (held : ρ → Option Nat) (claims : α → Option (ρ×Nat)) (now : Nat) :
    Prop where
  backed : ∀ a r u, claims a=some (r,u) → now < u → held r=some u
  alone : ∀ a b r u v, claims a=some (r,u) → claims b=some (r,v) → now < u → now < v → a=b

/-- Nobody holds it, or no longer. -/
def Free (held : ρ → Option Nat) (r : ρ) (now : Nat) : Prop := ∀ u, held r=some u → u ≤ now

theorem Exclusive.pass (h : Exclusive held claims now) (hle : now ≤ later) :
    Exclusive held claims later where
  backed a r u hc hu := h.backed a r u hc (Nat.lt_of_le_of_lt hle hu)
  alone a b r u v ha hb hu hv :=
    h.alone a b r u v ha hb (Nat.lt_of_le_of_lt hle hu) (Nat.lt_of_le_of_lt hle hv)

theorem Exclusive.of_claims {claims' : α → Option (ρ×Nat)} (h : Exclusive held claims now)
    (hsub : ∀ b c, claims' b=some c → claims b=some c) : Exclusive held claims' now where
  backed a r u hc hu := h.backed a r u (hsub _ _ hc) hu
  alone a b r u v ha hb hu hv := h.alone a b r u v (hsub _ _ ha) (hsub _ _ hb) hu hv

variable [DecidableEq α]

theorem Exclusive.forget (h : Exclusive held claims now) (a : α) :
    Exclusive held (update claims a none) now := by
  apply h.of_claims
  intro b c hb
  by_cases hba : b=a
  · simp [hba] at hb
  · simpa [hba] using hb

variable [DecidableEq ρ]

/-- Whoever held it before has run out. -/
theorem Exclusive.take (h : Exclusive held claims now) (hfree : Free held r now) (u : Nat)
    (a : α) : Exclusive (update held r (some u)) (update claims a (some (r,u))) now := by
  have hother : ∀ b v, claims b=some (r,v) → ¬now < v := by
    intro b v hb hv
    have hle := hfree v (h.backed b r v hb hv)
    omega
  constructor
  · intro b q v hb hv
    by_cases hba : b=a
    · subst hba
      simp only [update_self,Option.some.injEq,Prod.mk.injEq] at hb
      obtain ⟨rfl,rfl⟩ := hb
      simp
    · have hold : claims b=some (q,v) := by simpa [hba] using hb
      by_cases hq : q=r
      · exact absurd hv (hother b v (hq ▸ hold))
      · simpa [hq] using h.backed b q v hold hv
  · intro b c q v w hb hc hv hw
    by_cases hba : b=a <;> by_cases hca : c=a
    · exact hba.trans hca.symm
    · subst hba
      simp only [update_self,Option.some.injEq,Prod.mk.injEq] at hb
      obtain ⟨rfl,rfl⟩ := hb
      exact absurd hw (hother c w (by simpa [hca] using hc))
    · subst hca
      simp only [update_self,Option.some.injEq,Prod.mk.injEq] at hc
      obtain ⟨rfl,rfl⟩ := hc
      exact absurd hv (hother b v (by simpa [hba] using hb))
    · exact h.alone b c q v w (by simpa [hba] using hb) (by simpa [hca] using hc) hv hw

/-- A holder that drops its lease in time drops nobody else's. -/
theorem Exclusive.release (h : Exclusive held claims now) (ha : claims a=some (r,u))
    (hu : now < u) : Exclusive (update held r none) (update claims a none) now := by
  have hkeep := h.forget a
  refine ⟨?_,hkeep.alone⟩
  intro b q v hb hv
  have hheld := hkeep.backed b q v hb hv
  by_cases hq : q=r
  · subst hq
    by_cases hba : b=a
    · simp [hba] at hb
    · exact absurd (h.alone b a q v u (by simpa [hba] using hb) ha hv hu) hba
  · simpa [hq] using hheld

end Kitp.Lease
