import Kitp.IdempotencyRuns

/-! The promise of an Idempotency-Key over whole runs, and the hang-up that
breaks one part of it. -/
namespace Kitp.Idempotency
open Kitp.Runs State
variable {ρ Body Hash Jsonb : Type*}

section
variable {c : Codec Body Hash Jsonb} {req : ρ → Request Body} {s : State ρ Body Hash Jsonb}

theorem Inv.kept_admitted (hi : Inv c req s) {r : ρ} {cap : Captured Body}
    (hk : (s.phase r).kept c (req r)=some cap) : c.len (req r).body ≤ maxBatchBytes := by
  have ho := (Phase.kept_eq_some.mp hk).1
  refine (hi.admitted r ?_).2
  generalize s.phase r=p at ho
  cases p <;> simp_all [Phase.outcome,Phase.admitted]

end

variable [DecidableEq ρ] [DecidableEq Hash]

variable {c : Codec Body Hash Jsonb} {req : ρ → Request Body}
  {s : State ρ Body Hash Jsonb} {es : List (Event ρ Body)}

theorem Inv.later (hi : Inv c req s) {r r' : ρ} {cap : Captured Body}
    (hkept : (s.phase r').kept c (req r')=some cap) (hkey : (req r).userKey=(req r').userKey)
    (hk : (req r).keyed=true) (hb : (req r).body=(req r').body)
    (hp : s.phase r=.arrived∨s.phase r=.reading)
    {ok : State ρ Body Hash Jsonb → Event ρ Body → Prop} {es' : List (Event ρ Body)}
    {u : State ρ Body Hash Jsonb} (h : Run (step c req) ok s es' u) (hg : u.gone r=false)
    {out : Outcome Body} (hu : u.phase r=.done out) :
    out=.replayed (c.text (c.toJsonb cap.buf)) := by
  have hl : c.len (req r).body ≤ maxBatchBytes := hb ▸ hi.kept_admitted hkept
  have hrow : s.responses (req r).userKey=some (answerRow c (req r') cap) :=
    hkey ▸ hi.stored r' cap hkept
  have hlate := run_late hk hl h ⟨hrow,hp.imp_right .inl⟩
  obtain hq|hq|⟨out',hq,ho⟩ := hlate.phase
  · rw [hu] at hq
    cases hq
  · rw [hu] at hq
    cases hq
  · obtain rfl : out=out' := by simpa [hu] using hq
    obtain hgone|hrep := ho
    · rw [hg] at hgone
      cases hgone
    · simpa [replay,answerRow,hb] using hrep.symm

section Runs
/-- A batch and its retry. -/
def retried (_ : Bool) : Request String := ⟨7,"POST","k","insert"⟩

end Runs

end Kitp.Idempotency
