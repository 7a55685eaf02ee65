import Mathlib.Data.List.Basic
import Mathlib.Logic.Function.Basic

/-! Cells with a log of their changes: what the cells hold once the log is replayed, and
the newest entry for each. -/
namespace Kitp.Ledger

variable {κ υ : Type*} [DecidableEq κ] {h : κ → Option υ} {log : List (κ×Option υ)} {k : κ}

/-- The cells after the logged changes, the oldest first. -/
def replay (h : κ → Option υ) (log : List (κ×Option υ)) : κ → Option υ :=
  log.foldl (fun h e => Function.update h e.1 e.2) h

/-- The newest change of a cell, if there is one. -/
def newest (log : List (κ×Option υ)) (k : κ) : Option (Option υ) :=
  ((log.filter (·.1=k)).getLast?).map (·.2)

@[simp] theorem replay_nil (h : κ → Option υ) : replay h []=h := rfl

theorem replay_append (h : κ → Option υ) (log more : List (κ×Option υ)) :
    replay h (log++more)=replay (replay h log) more := List.foldl_append

theorem newest_append (log more : List (κ×Option υ)) (k : κ) :
    newest (log++more) k=(newest more k).or (newest log k) := by
  simp [newest,List.getLast?_append,Option.map_or]

theorem replay_eq (h : κ → Option υ) (log : List (κ×Option υ)) (k : κ) :
    replay h log k=(newest log k).getD (h k) := by
  induction log generalizing h with
  | nil => rfl
  | cons e log ih =>
    have hlog := ih (Function.update h e.1 e.2)
    have hcons := newest_append [e] log k
    have hreplay : replay h (e::log) k=replay (Function.update h e.1 e.2) log k := rfl
    rw [hreplay,hlog]
    change _=(newest ([e]++log) k).getD (h k)
    rw [hcons]
    by_cases hk : e.1=k
    · subst hk
      cases newest log e.1 <;> simp [newest]
    · rw [Function.update_of_ne (Ne.symm hk)]
      cases newest log k <;> simp [newest,hk]

/-- A cell that no entry names keeps what it held. -/
theorem replay_of_not_mem (hk : ∀ e∈log, e.1≠k) : replay h log k=h k := by
  have hnone : log.filter (·.1=k)=[] := by simpa using hk
  simp [replay_eq,newest,hnone]

/-- A cell that all its entries clear is empty after one of them. -/
theorem replay_cleared (hk : ∃ e∈log, e.1=k) (hclear : ∀ e∈log, e.1=k → e.2=none) :
    replay h log k=none := by
  rw [replay_eq]
  cases hlast : (log.filter (·.1=k)).getLast? with
  | none =>
    obtain ⟨e,he,hek⟩ := hk
    have hnil := List.getLast?_eq_none_iff.mp hlast
    have hmem : e∈log.filter (·.1=k) := List.mem_filter.mpr ⟨he,by simpa using hek⟩
    simp [hnil] at hmem
  | some e =>
    obtain ⟨he,hek⟩ := List.mem_filter.mp (List.mem_of_getLast? hlast)
    have hnone := hclear e he (by simpa using hek)
    simp [newest,hlast,hnone]

end Kitp.Ledger
