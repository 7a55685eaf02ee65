import Mathlib.Logic.Function.Basic

/-! A table of claimed keys. The first transaction to insert a key's row claims it; a later
one finds the row and stamps it anew; rows not stamped for long enough are swept, and the key
may be claimed again. Whoever writes a row holds it until its transaction ends. -/
namespace Kitp.Claims
open Function

/-- An open transaction's write of a row. -/
structure Hold (α : Type*) where
  agent : α
  /-- The row is inserted, not stamped anew. -/
  fresh : Bool
  /-- When the transaction started: the row's stamp. -/
  started : Nat
  takenAt : Nat

/-- A committed write. -/
structure Entry (κ : Type*) where
  key : κ
  fresh : Bool
  started : Nat
  takenAt : Nat

/-- The committed rows with their stamps, who holds one, and the committed writes, the newest
first. -/
structure Table (κ α : Type*) where
  row : κ → Option Nat
  holder : κ → Option (Hold α)
  log : List (Entry κ)

variable {κ α : Type*} [DecidableEq κ]

def last (log : List (Entry κ)) (k : κ) : Option (Entry κ) := log.find? (·.key=k)

/-- A key is claimed anew only when its last write is more than `keep` old. -/
def Spaced (keep : Nat) : List (Entry κ) → Prop
  | [] => True
  | e::log => (e.fresh=true → ∀ f, last log e.key=some f → f.started+keep < e.takenAt)∧
      Spaced keep log

namespace Table

variable (t : Table κ α)

def empty : Table κ α := ⟨fun _ => none,fun _ => none,[]⟩

def take (k : κ) (h : Hold α) : Table κ α := { t with holder := update t.holder k (some h) }

def abort (k : κ) : Table κ α := { t with holder := update t.holder k none }

def commit (k : κ) (h : Hold α) : Table κ α where
  row := update t.row k (some h.started)
  holder := update t.holder k none
  log := ⟨k,h.fresh,h.started,h.takenAt⟩::t.log

/-- Rows whose stamp is older than the cutoff go, unless an open transaction holds them. -/
def sweep (cutoff : Nat) : Table κ α :=
  { t with row := fun k => (t.row k).filter fun stamp => (t.holder k).isSome||cutoff ≤ stamp }

end Table

structure Inv (keep now : Nat) (t : Table κ α) : Prop where
  stamped : ∀ k stamp, t.row k=some stamp → ∃ e, last t.log k=some e∧e.started=stamp
  swept : ∀ k e, t.row k=none → last t.log k=some e → e.started+keep < now
  inserting : ∀ k h, t.holder k=some h → h.fresh=true → t.row k=none∧
    ∀ e, last t.log k=some e → e.started+keep < h.takenAt
  stamping : ∀ k h, t.holder k=some h → h.fresh=false → t.row k≠none
  spaced : Spaced keep t.log
  claimed : ∀ e∈t.log, ∃ f∈t.log, f.key=e.key∧f.fresh=true

variable {keep now later : Nat} {t : Table κ α} {k : κ} {h : Hold α}

theorem inv_empty : Inv keep now (Table.empty : Table κ α) := by
  constructor <;> simp [Table.empty,last,Spaced]

theorem Inv.pass (ht : Inv keep now t) (hle : now ≤ later) : Inv keep later t :=
  { ht with swept := fun k e hr he => Nat.lt_of_lt_of_le (ht.swept k e hr he) hle }

/-- An insert goes through where there is no row. -/
theorem Inv.insert (ht : Inv keep now t) (hrow : t.row k=none) (hf : h.fresh=true)
    (hat : h.takenAt=now) : Inv keep now (t.take k h) := by
  refine ⟨ht.stamped,ht.swept,?_,?_,ht.spaced,ht.claimed⟩
  · intro j g hg hfresh
    by_cases hj : j=k
    · subst hj
      have hgh : h=g := by simpa [Table.take] using hg
      subst hgh
      exact ⟨hrow,fun e he => hat ▸ ht.swept j e hrow he⟩
    · exact ht.inserting j g (by simpa [Table.take,hj] using hg) hfresh
  · intro j g hg hfresh
    by_cases hj : j=k
    · subst hj
      have hgh : h=g := by simpa [Table.take] using hg
      subst hgh
      simp [hf] at hfresh
    · exact ht.stamping j g (by simpa [Table.take,hj] using hg) hfresh

/-- A row that stands is stamped anew. -/
theorem Inv.restamp (ht : Inv keep now t) (hrow : t.row k≠none) (hf : h.fresh=false) :
    Inv keep now (t.take k h) := by
  refine ⟨ht.stamped,ht.swept,?_,?_,ht.spaced,ht.claimed⟩
  · intro j g hg hfresh
    by_cases hj : j=k
    · subst hj
      have hgh : h=g := by simpa [Table.take] using hg
      subst hgh
      simp [hf] at hfresh
    · exact ht.inserting j g (by simpa [Table.take,hj] using hg) hfresh
  · intro j g hg hfresh
    by_cases hj : j=k
    · exact hj ▸ hrow
    · exact ht.stamping j g (by simpa [Table.take,hj] using hg) hfresh

theorem Inv.abort (ht : Inv keep now t) (k : κ) : Inv keep now (t.abort k) := by
  have hold : ∀ j g, (t.abort k).holder j=some g → t.holder j=some g := by
    intro j g hg
    by_cases hj : j=k
    · simp [Table.abort,hj] at hg
    · simpa [Table.abort,hj] using hg
  exact ⟨ht.stamped,ht.swept,fun j g hg => ht.inserting j g (hold j g hg),
    fun j g hg => ht.stamping j g (hold j g hg),ht.spaced,ht.claimed⟩

theorem last_cons_self {e : Entry κ} {log : List (Entry κ)} : last (e::log) e.key=some e := by
  simp [last]

theorem last_cons_ne {e : Entry κ} {log : List (Entry κ)} (hk : e.key≠k) :
    last (e::log) k=last log k := by
  simp [last,hk]

theorem Inv.commit (ht : Inv keep now t) (hh : t.holder k=some h) :
    Inv keep now (t.commit k h) := by
  have hlast : ∀ j, j≠k → last (t.commit k h).log j=last t.log j :=
    fun j hj => last_cons_ne (Ne.symm hj)
  have hself : last (t.commit k h).log k=some ⟨k,h.fresh,h.started,h.takenAt⟩ := last_cons_self
  have hold : ∀ j g, (t.commit k h).holder j=some g → j≠k∧t.holder j=some g := by
    intro j g hg
    by_cases hj : j=k
    · simp [Table.commit,hj] at hg
    · exact ⟨hj,by simpa [Table.commit,hj] using hg⟩
  have hrow : ∀ j, j≠k → (t.commit k h).row j=t.row j := by
    intro j hj
    simp [Table.commit,hj]
  constructor
  · intro j stamp hj
    by_cases hjk : j=k
    · subst hjk
      have hs : h.started=stamp := by simpa [Table.commit] using hj
      exact ⟨_,hself,hs⟩
    · rw [hlast j hjk]
      exact ht.stamped j stamp (hrow j hjk ▸ hj)
  · intro j e hj he
    by_cases hjk : j=k
    · subst hjk
      simp [Table.commit] at hj
    · exact ht.swept j e (hrow j hjk ▸ hj) (hlast j hjk ▸ he)
  · intro j g hg hfresh
    obtain ⟨hjk,hg⟩ := hold j g hg
    rw [hrow j hjk,hlast j hjk]
    exact ht.inserting j g hg hfresh
  · intro j g hg hfresh
    obtain ⟨hjk,hg⟩ := hold j g hg
    rw [hrow j hjk]
    exact ht.stamping j g hg hfresh
  · exact ⟨fun hfresh e he => (ht.inserting k h hh hfresh).2 e he,ht.spaced⟩
  · intro e he
    cases List.mem_cons.mp he with
    | inr he =>
      obtain ⟨f,hf,hkey⟩ := ht.claimed e he
      exact ⟨f,List.mem_cons_of_mem _ hf,hkey⟩
    | inl he =>
      subst he
      cases hf : h.fresh with
      | true => exact ⟨_,List.mem_cons_self,rfl,hf⟩
      | false =>
        obtain ⟨stamp,hstamp⟩ := Option.ne_none_iff_exists'.mp (ht.stamping k h hh hf)
        obtain ⟨g,hg,-⟩ := ht.stamped k stamp hstamp
        obtain ⟨f,hf,hkey⟩ := ht.claimed g (List.mem_of_find?_eq_some hg)
        have hgk : g.key=k := by simpa using List.find?_some hg
        exact ⟨f,List.mem_cons_of_mem _ hf,hkey.1.trans hgk,hkey.2⟩

theorem Inv.sweep (ht : Inv keep now t) {cutoff : Nat} (hc : cutoff+keep ≤ now) :
    Inv keep now (t.sweep cutoff) := by
  have hrow : ∀ k stamp, (t.sweep cutoff).row k=some stamp → t.row k=some stamp :=
    fun k stamp hk => (Option.filter_eq_some_iff.mp hk).1
  constructor
  · exact fun k stamp hk => ht.stamped k stamp (hrow k stamp hk)
  · intro k e hk he
    cases hr : t.row k with
    | none => exact ht.swept k e hr he
    | some stamp =>
      obtain ⟨f,hf,hstamp⟩ := ht.stamped k stamp hr
      have hfe : e=f := Option.some.inj (he.symm.trans hf)
      have hold : stamp < cutoff := by
        have hgone : (t.holder k).isSome=false∧stamp < cutoff := by
          simpa [Table.sweep,hr] using hk
        exact hgone.2
      subst hfe
      omega
  · intro k g hg hfresh
    have hi := ht.inserting k g hg hfresh
    refine ⟨?_,hi.2⟩
    simp [Table.sweep,hi.1]
  · intro k g hg hfresh
    obtain ⟨stamp,hstamp⟩ := Option.ne_none_iff_exists'.mp (ht.stamping k g hg hfresh)
    change t.holder k=some g at hg
    simp [Table.sweep,hstamp,hg]
  · exact ht.spaced
  · exact ht.claimed

end Kitp.Claims
