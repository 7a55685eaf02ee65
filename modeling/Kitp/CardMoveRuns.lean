import Kitp.CardMove
import Kitp.Lib.Runs
import Mathlib.Data.List.Infix
import Mathlib.Logic.Function.Basic

/-! Concurrent `card.move` transactions under READ COMMITTED: each statement reads what
is committed when it runs, with the transaction's own writes laid over it. -/
namespace Kitp.CardMove
open Kitp.Store Kitp.Forest Kitp.Runs Relation

inductive Phase where
  /-- Between rows: the next one locks its card. -/
  | next (todo : List Input)
  | checking (row : Row) (rest : List Check) (todo : List Input)
  | over

structure Tx where
  actor : Int
  phase : Phase
  writes : Int → Option Int

structure State (ι : Type) where
  db : Db
  tx : ι → Tx
  lockedBy : Int → Option ι

inductive Event (ι : Type) where
  | lock (i : ι)
  | check (i : ι)
  | write (i : ι)
  | commit (i : ι)
  /-- A deadlock victim, a cancelled request. -/
  | abort (i : ι)

/-- The cards with the parents in `writes` laid over their own. -/
def withParents (db : Db) (writes : Int → Option Int) : Db :=
  { db with
    cards := db.cards.map fun c => { c with parentCardId := (writes c.id).or c.parentCardId } }

variable {ι : Type} [DecidableEq ι]

namespace State

variable (s : State ι) (i : ι)

/-- What a statement of the transaction sees. -/
def view : Db := withParents s.db (s.tx i).writes

def putTx (t : Tx) : State ι := { s with tx := Function.update s.tx i t }

def setPhase (phase : Phase) : State ι := s.putTx i { s.tx i with phase }

/-- The transaction ends, and its row locks go. -/
def close (db : Db) : State ι :=
  { s.putTx i { s.tx i with phase := .over, writes := fun _ => none } with
    db := db
    lockedBy := fun c => if s.lockedBy c=some i then none else s.lockedBy c }

end State

variable (acc : Access) (s : State ι)

def step : Event ι → Option (State ι)
  | .lock i =>
    match (s.tx i).phase with
    | .next (input::todo) =>
      match validate input with
      | .error _ => some (s.close i s.db)
      | .ok m =>
        -- a row another transaction holds is waited for
        if s.lockedBy m.cardId=none∨s.lockedBy m.cardId=some i then
          match lockRow (s.view i) m with
          | .error _ => some (s.close i s.db)
          | .ok row =>
            some { s.setPhase i (.checking row checks todo) with
              lockedBy := Function.update s.lockedBy m.cardId (some i) }
        else none
    | _ => none
  | .check i =>
    match (s.tx i).phase with
    | .checking row (c::rest) todo =>
      match c.run acc (s.tx i).actor (s.view i) row with
      | .error _ => some (s.close i s.db)
      | .ok row => some (s.setPhase i (.checking row rest todo))
    | _ => none
  | .write i =>
    match (s.tx i).phase with
    | .checking row [] todo =>
      let m := row.move
      some (s.putTx i { s.tx i with
        phase := .next todo
        writes := Function.update (s.tx i).writes m.cardId (some m.newParent) })
    | _ => none
  | .commit i =>
    match (s.tx i).phase with
    | .next [] => some (s.close i (s.view i))
    | _ => none
  | .abort i =>
    match (s.tx i).phase with
    | .over => none
    | _ => some (s.close i s.db)

def start (db : Db) (plan : ι → Int×List Input) : State ι where
  db := db
  tx i := ⟨(plan i).1,.next (plan i).2,fun _ => none⟩
  lockedBy _ := none

/-- The moves of a transaction whose cycle check has passed: those it wrote, and the one
in hand. -/
inductive Tx.Guarded (t : Tx) : Move → Prop
  | written {c p : Int} : t.writes c=some p → t.Guarded ⟨c,p⟩
  | inHand {row : Row} {rest : List Check} {todo : List Input} :
      t.phase=.checking row rest todo → Check.cycle∉rest → t.Guarded row.move

/-- A transaction commits only while, for every other one, the cards it moved stay out of
the ancestors of the new parents they were checked against. -/
def Undisturbed : Event ι → Prop
  | .commit i => ∀ j, j≠i → ∀ m, (s.tx j).Guarded m →
      ¬Reaches (withParents (s.view i) (s.tx j).writes).parent m.newParent m.cardId
  | _ => True

theorem withParents_card (db : Db) (w : Int → Option Int) (x : Int) :
    (withParents db w).card x=
      (db.card x).map fun c => { c with parentCardId := (w c.id).or c.parentCardId } := by
  simp [withParents,Db.card,List.find?_map,Function.comp_def]

theorem withParents_parent (db : Db) (w : Int → Option Int) (x : Int) :
    (withParents db w).parent x=(db.card x).bind fun _ => (w x).or (db.parent x) := by
  unfold Db.parent
  rw [withParents_card]
  cases hx : db.card x with
  | none => rfl
  | some c => simp [card_id hx]

theorem withParents_parent_none (db : Db) (w : Int → Option Int) (x : Int) (h : w x=none) :
    (withParents db w).parent x=db.parent x := by
  rw [withParents_parent,h]
  cases hx : db.card x with
  | none => simp [Db.parent,hx]
  | some c => simp

/-- Laying on nothing changes no parent. -/
theorem withParents_empty (db : Db) : (withParents db fun _ => none).parent=db.parent := by
  funext x
  exact withParents_parent_none db _ x rfl

/-- Up to the depth check the answer of the cycle check may rest on a capped walk. -/
def Stands (db : Db) (row : Row) (rest : List Check) : Prop :=
  ¬Reaches db.parent row.move.newParent row.move.cardId∨
    (Check.depth∈rest∧17 ≤ (cardAncestors db row.move.newParent).length)

/-- What holds of a transaction on the rows it sees. -/
structure TxInv (db : Db) (t : Tx) : Prop where
  acyclic : Acyclic db.parent
  order : ∀ row rest todo, t.phase=.checking row rest todo → rest<:+checks
  exist : ∀ row rest todo, t.phase=.checking row rest todo → (db.card row.move.cardId).isSome
  stands : ∀ row rest todo, t.phase=.checking row rest todo → Check.cycle∉rest →
    Stands db row rest

structure Inv (s : State ι) : Prop where
  acyclic : Acyclic s.db.parent
  txs : ∀ i, TxInv (s.view i) (s.tx i)

omit [DecidableEq ι] in
theorem TxInv.of_phase {db : Db} {t : Tx} (h : Acyclic db.parent)
    (hp : ∀ row rest todo, t.phase≠.checking row rest todo) : TxInv db t where
  acyclic := h
  order row rest todo hr := absurd hr (hp row rest todo)
  exist row rest todo hr := absurd hr (hp row rest todo)
  stands row rest todo hr := absurd hr (hp row rest todo)

theorem depth_after_cycle {rest : List Check} (h : (Check.cycle::rest)<:+checks) :
    Check.depth∈rest := by
  have hmem : Check.cycle::rest∈checks.tails := (List.mem_tails _ _).mpr h
  simp [checks] at hmem
  simp [hmem]

/-- One passed check of the row in hand. -/
theorem TxInv.check {acc : Access} {actor : Int} {db : Db} {t : Tx} {row row' : Row} {c : Check}
    {rest : List Check} {todo : List Input} (h : TxInv db t)
    (hp : t.phase=.checking row (c::rest) todo) (hc : c.run acc actor db row=.ok row') :
    TxInv db { t with phase := .checking row' rest todo } := by
  have hmove : row'.move=row.move := Check.run_move hc
  have hsuf : c::rest<:+checks := h.order _ _ _ hp
  have hcard : (db.card row.move.cardId).isSome := h.exist _ _ _ hp
  refine ⟨h.acyclic,?_,?_,?_⟩
  · intro r l td hr
    cases hr
    exact (List.suffix_cons c rest).trans hsuf
  · intro r l td hr
    cases hr
    exact hmove ▸ hcard
  · intro r l td hr hcyc
    cases hr
    unfold Stands
    rw [hmove]
    by_cases hcc : c=.cycle
    · subst hcc
      by_cases hlen : (cardAncestors db row.move.newParent).length<17
      · exact .inl (not_above_of_cycle_ok (cycle_ok hc) hlen hcard)
      · exact .inr ⟨depth_after_cycle hsuf,not_lt.mp hlen⟩
    · have hstand : Stands db row (c::rest) := h.stands _ _ _ hp (by simp [hcyc,Ne.symm hcc])
      cases hstand with
      | inl hn => exact .inl hn
      | inr hcap =>
        obtain ⟨hd,hlen⟩ := hcap
        cases List.mem_cons.mp hd with
        | inl hd =>
          subst hd
          have := depth_ok hc
          omega
        | inr hd => exact .inr ⟨hd,hlen⟩

theorem view_ne {i j : ι} (t : Tx) (h : j≠i) : (s.putTx i t).view j=s.view j := by
  simp [State.view,State.putTx,Function.update_of_ne h]

theorem Inv.put {i : ι} {t : Tx} (h : Inv s) (ht : TxInv (withParents s.db t.writes) t) :
    Inv (s.putTx i t) where
  acyclic := h.acyclic
  txs j := by
    by_cases hj : j=i
    · subst hj
      simpa [State.view,State.putTx] using ht
    · rw [view_ne s t hj]
      simpa [State.putTx,Function.update_of_ne hj] using h.txs j

omit [DecidableEq ι] in
/-- Locks play no part in what a transaction sees. -/
theorem Inv.locks {l : Int → Option ι} (h : Inv s) : Inv { s with lockedBy := l } :=
  ⟨h.acyclic,h.txs⟩

theorem close_inv (i : ι) (h : Inv s) : Inv (s.close i s.db) := by
  apply Inv.locks (s.putTx i _)
  apply h.put
  apply TxInv.of_phase
  · rw [withParents_empty]
    exact h.acyclic
  · intros
    simp

/-- A move whose card is not above its new parent keeps the view acyclic. -/
theorem acyclic_write {db : Db} {w : Int → Option Int} {m : Move}
    (h : Acyclic (withParents db w).parent) (hc : ((withParents db w).card m.cardId).isSome)
    (hn : ¬Reaches (withParents db w).parent m.newParent m.cardId) :
    Acyclic (withParents db (Function.update w m.cardId (some m.newParent))).parent := by
  apply acyclic_update h (c := m.cardId) (y := m.newParent) _ _ hn
  · intro z hz
    simp [withParents_parent,Function.update_of_ne hz]
  · have hcard : (db.card m.cardId).isSome := by simpa [withParents_card] using hc
    obtain ⟨c,hdb⟩ := Option.isSome_iff_exists.mp hcard
    simp [withParents_parent,hdb]

theorem write_inv {i : ι} {row : Row} {todo : List Input} (h : Inv s)
    (hp : (s.tx i).phase=.checking row [] todo) :
    Inv (s.putTx i { s.tx i with
      phase := .next todo
      writes := Function.update (s.tx i).writes row.move.cardId (some row.move.newParent) }) := by
  have htx : TxInv (s.view i) (s.tx i) := h.txs i
  have hn : ¬Reaches (s.view i).parent row.move.newParent row.move.cardId := by
    cases htx.stands row [] todo hp (by simp) with
    | inl hn => exact hn
    | inr hd => simp at hd
  apply h.put
  apply TxInv.of_phase
  · exact acyclic_write htx.acyclic (htx.exist _ _ _ hp) hn
  · intros
    simp

omit [DecidableEq ι] in
/-- What the others see after a commit that leaves their moves standing. -/
theorem undisturbed_inv {i j : ι} (h : Inv s) (hj : j≠i) (hu : Undisturbed s (.commit i)) :
    TxInv (withParents (s.view i) (s.tx j).writes) (s.tx j) := by
  have hi : TxInv (s.view i) (s.tx i) := h.txs i
  have hold : TxInv (s.view j) (s.tx j) := h.txs j
  refine ⟨?_,hold.order,?_,?_⟩
  · apply acyclic_of_changes hi.acyclic
    intro w z hw hz
    -- only the parents the transaction wrote differ
    have hwr : (s.tx j).writes w=some z := by
      cases hwr : (s.tx j).writes w with
      | none => exact absurd (withParents_parent_none _ _ _ hwr) hw
      | some p =>
        rw [withParents_parent,hwr] at hz
        cases hc : (s.view i).card w with
        | none => simp [hc] at hz
        | some c => simpa [hc] using hz
    exact hu j hj ⟨w,z⟩ (.written hwr)
  · intro row rest todo hp
    have hcard := hold.exist row rest todo hp
    simpa [State.view,withParents_card] using hcard
  · intro row rest todo hp hc
    exact .inl (hu j hj row.move (.inHand hp hc))

theorem commit_inv {i : ι} (h : Inv s) (hu : Undisturbed s (.commit i)) :
    Inv (s.close i (s.view i)) where
  acyclic := (h.txs i).acyclic
  txs j := by
    by_cases hj : j=i
    · subst hj
      apply TxInv.of_phase
      · have hview : (s.close j (s.view j)).view j=withParents (s.view j) fun _ => none := by
          simp [State.view,State.close,State.putTx]
        rw [hview,withParents_empty]
        exact (h.txs j).acyclic
      · simp [State.close,State.putTx]
    · have hnew := undisturbed_inv s h hj hu
      simpa [State.view,State.close,State.putTx,Function.update_of_ne hj] using hnew

theorem lock_inv {i : ι} {db : Db} {m : Move} {row : Row} {todo : List Input} (h : Inv s)
    (hdb : s.view i=db) (hrow : lockRow db m=.ok row) :
    Inv (s.setPhase i (.checking row checks todo)) := by
  subst hdb
  obtain ⟨hm,c,t,hc,-⟩ := lockRow_ok hrow
  have hsome : ((s.view i).card m.cardId).isSome := by simp [hc]
  apply h.put
  refine ⟨(h.txs i).acyclic,?_,?_,?_⟩
  · intro r l td hr
    cases hr
    exact List.suffix_refl _
  · intro r l td hr
    cases hr
    exact hm ▸ hsome
  · intro r l td hr hcyc
    cases hr
    simp [checks] at hcyc

theorem step_inv (acc : Access) (s : State ι) (e : Event ι) (t : State ι) (h : Inv s)
    (hu : Undisturbed s e) (hst : step acc s e=some t) : Inv t := by
  cases e with
  | lock i =>
    simp only [step] at hst
    split at hst
    · split at hst
      · cases hst
        exact close_inv s i h
      · split at hst
        · split at hst
          · cases hst
            exact close_inv s i h
          · rename_i hrow
            cases hst
            exact Inv.locks _ (lock_inv s h rfl hrow)
        · cases hst
    · cases hst
  | check i =>
    simp only [step] at hst
    split at hst
    · rename_i hp
      split at hst
      · cases hst
        exact close_inv s i h
      · rename_i hc
        cases hst
        exact h.put s ((h.txs i).check hp hc)
    · cases hst
  | write i =>
    simp only [step] at hst
    split at hst
    · rename_i hp
      cases hst
      exact write_inv s h hp
    · cases hst
  | commit i =>
    simp only [step] at hst
    split at hst
    · cases hst
      exact commit_inv s h hu
    · cases hst
  | abort i =>
    simp only [step] at hst
    split at hst
    · cases hst
    · cases hst
      exact close_inv s i h

omit [DecidableEq ι] in
theorem start_inv {db : Db} (plan : ι → Int×List Input) (h : Acyclic db.parent) :
    Inv (start db plan) where
  acyclic := h
  txs i := by
    apply TxInv.of_phase
    · have hview : (start db plan).view i=withParents db fun _ => none := rfl
      rw [hview,withParents_empty]
      exact h
    · simp [start]

/-- Whatever forest the cards form and however the statements of the transactions
interleave, what is committed stays a forest, as long as no commit disturbs a move
another transaction has checked. -/
theorem committed_acyclic (acc : Access) (db : Db) (plan : ι → Int×List Input)
    (events : List (Event ι)) (s : State ι) (h : Acyclic db.parent)
    (hrun : Run (step acc) Undisturbed (start db plan) events s) : Acyclic s.db.parent :=
  (hrun.inv Inv (step_inv acc) (start_inv plan h)).acyclic

/-- A project with three tasks. -/
def board : Db where
  cardTypes := [⟨1,"project",none,false⟩,⟨2,"task",some 1,true⟩]
  attributeDefs := []
  cards := [⟨1,1,none,none,false,.triage⟩,⟨2,2,some 1,none,false,.triage⟩,
    ⟨3,2,some 1,none,false,.triage⟩,⟨4,2,some 1,none,false,.triage⟩]

/-- Everything is permitted. -/
def allowed : Access where
  userIsGlobalAdmin _ _ := true
  cardVisibleTo _ _ _ := true
  userHasGrant _ _ _ _ _ := true
  areaWriteBlocked _ _ _ _ := false
  personReferable _ _ _ _ := true
  cardFilterIds _ _ ids := ids
  userHasStepRole _ _ _ _ := true
  hasLogin _ _ := false

/-- Two transactions of one move each. -/
def pair (m n : Input) (first : Bool) : Int×List Input := (7,[if first then m else n])

/-- Both lock and check before either writes. -/
def together : List (Event Bool) :=
  [.lock true,.lock false]++(checks.map fun _ => .check true)++
    (checks.map fun _ => .check false)++[.write true,.write false]

def outcome (m n : Input) (events : List (Event Bool)) : Option (State Bool) :=
  events.foldlM (step allowed) (start board (pair m n))

theorem board_acyclic : Acyclic board.parent := by
  apply acyclic_of_rank fun x => if x=1 then 0 else 1
  intro x y hxy
  have hx : x=2∨x=3∨x=4 := by
    by_contra hne
    simp only [not_or] at hne
    by_cases h1 : x=1
    · simp [Db.parent,Db.card,board,h1] at hxy
    · simp [Db.parent,Db.card,board,Ne.symm h1,Ne.symm hne.1,Ne.symm hne.2.1,
        Ne.symm hne.2.2] at hxy
  have hy : y=1 := by
    rcases hx with rfl | rfl | rfl <;> exact (Option.some.inj hxy).symm
  rcases hx with rfl | rfl | rfl <;> simp [hy]

theorem together_undisturbed (s : State Bool) (e : Event Bool) (he : e∈together) :
    Undisturbed s e := by
  cases e with
  | commit i => simp [together,checks] at he
  | _ => trivial

/-- Two tasks moved under each other: neither check sees the other's move. -/
theorem crossed_moves_close_cycle : Acyclic board.parent∧
    ∃ s, Run (step allowed) (fun _ _ => True)
      (start board (pair ⟨some 2,some 3⟩ ⟨some 3,some 2⟩))
      (together++[.commit true,.commit false]) s∧¬Acyclic s.db.parent := by
  have hend : (outcome ⟨some 2,some 3⟩ ⟨some 3,some 2⟩
      (together++[.commit true,.commit false])).map (·.db.cards)=
      some [⟨1,1,none,none,false,.triage⟩,⟨2,2,some 3,none,false,.triage⟩,
        ⟨3,2,some 2,none,false,.triage⟩,⟨4,2,some 1,none,false,.triage⟩] := rfl
  obtain ⟨s,hs,hcards⟩ := Option.map_eq_some_iff.mp hend
  refine ⟨board_acyclic,s,Run.of_foldlM hs fun _ _ _ => trivial,?_⟩
  have h2 : s.db.parent 2=some 3 := by simp [Db.parent,Db.card,hcards]
  have h3 : s.db.parent 3=some 2 := by simp [Db.parent,Db.card,hcards]
  exact not_acyclic_of_reaches h2 (.single h3)

/-- One task moved under another while a third is moved under it. -/
theorem nested_moves_stay_forest :
    ∃ s, Run (step allowed) Undisturbed (start board (pair ⟨some 2,some 3⟩ ⟨some 4,some 2⟩))
      (together++[.commit true]++[.commit false]) s∧
      s.db.parent 4=some 2∧s.db.parent 2=some 3∧Acyclic s.db.parent := by
  have hmid : (outcome ⟨some 2,some 3⟩ ⟨some 4,some 2⟩ together).map
      (fun s => (s.db,s.tx true,s.tx false))=
      some (board,⟨7,.next [],Function.update (fun _ => none) 2 (some 3)⟩,
        ⟨7,.next [],Function.update (fun _ => none) 4 (some 2)⟩) := rfl
  obtain ⟨s,hs,hmid⟩ := Option.map_eq_some_iff.mp hmid
  simp only [Prod.mk.injEq] at hmid
  obtain ⟨hdb,htrue,hfalse⟩ := hmid
  have hview : s.view true=withParents board (Function.update (fun _ => none) 2 (some 3)) := by
    simp [State.view,hdb,htrue]
  have hspared : Undisturbed s (.commit true) := by
    intro j hj m hm hr
    cases j with
    | true => exact hj rfl
    | false =>
      rw [hview,hfalse] at hr
      rw [hfalse] at hm
      cases hm with
      | inHand hp => cases hp
      | @written c p hw =>
        have hc : c=4 := by
          by_contra hne
          simp [Function.update_of_ne hne] at hw
        subst hc
        have hp : p=2 := (Option.some.inj hw).symm
        subst hp
        have hmem := mem_walk_of_reaches (n := 4) (by decide) hr
        revert hmem
        decide
  let t := s.close true (s.view true)
  have ht : step allowed s (.commit true)=some t := by simp [step,htrue,t]
  have hover : Undisturbed t (.commit false) := by
    intro j hj m hm
    cases j with
    | false => exact absurd rfl hj
    | true => cases hm <;> simp [t,State.close,State.putTx] at *
  let u := t.close false (t.view false)
  have hu : step allowed t (.commit false)=some u := by
    simp [step,t,State.close,State.putTx,hfalse,u]
  have hrun := ((Run.of_foldlM hs together_undisturbed).snoc hspared ht).snoc hover hu
  refine ⟨u,hrun,?_,?_,committed_acyclic allowed board _ _ u board_acyclic hrun⟩
  · simp [u,t,State.close,State.putTx,State.view,hdb,htrue,hfalse]
    decide
  · simp [u,t,State.close,State.putTx,State.view,hdb,htrue,hfalse]
    decide

end Kitp.CardMove
