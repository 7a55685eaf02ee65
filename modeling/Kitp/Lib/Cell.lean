import Kitp.Lib.Runs
import Mathlib.Logic.Function.Basic

/-! One stored value under concurrent transactions that read it, check it, read it again
and write it back: what a reader has seen may be stale, a writer holds the row until its
transaction ends. -/
namespace Kitp.Cell
open Kitp.Runs

variable {ι ω α : Type}

/-- A write that took place: the operation, the value it took for the old one, and what it
left. -/
structure Entry (ω α : Type) where
  op : ω
  old : α
  new : α

inductive Phase (ω α : Type) where
  | next (todo : List ω)
  /-- The operation in hand passed its check. -/
  | gated (op : ω) (todo : List ω)
  | loaded (op : ω) (old : α) (todo : List ω)
  | committed
  | aborted

structure Tx (ω α : Type) where
  phase : Phase ω α
  own : Option α
  log : List (Entry ω α)

structure State (ι ω α : Type) where
  value : α
  log : List (Entry ω α)
  order : List ι
  tx : ι → Tx ω α
  lockedBy : Option ι

inductive Event (ι : Type) where
  | gate (i : ι)
  | load (i : ι)
  | write (i : ι)
  | commit (i : ι)
  | abort (i : ι)

def start (value : α) (plan : ι → List ω) : State ι ω α where
  value := value
  log := []
  order := []
  tx i := ⟨.next (plan i),none,[]⟩
  lockedBy := none

namespace State

variable (s : State ι ω α) (i : ι)

/-- What a statement of the transaction reads. -/
def view : α := (s.tx i).own.getD s.value

variable [DecidableEq ι]

def putTx (t : Tx ω α) : State ι ω α := { s with tx := Function.update s.tx i t }

def setPhase (phase : Phase ω α) : State ι ω α := s.putTx i { s.tx i with phase }

def close (phase : Phase ω α) : State ι ω α :=
  { s.putTx i ⟨phase,none,[]⟩ with
    lockedBy := if s.lockedBy=some i then none else s.lockedBy }

end State

/-- `gate` checks an operation against the value read; `make` is what it writes. -/
def step [DecidableEq ι] (gate : ω → α → Bool) (make : ω → α → α) (s : State ι ω α) :
    Event ι → Option (State ι ω α)
  | .gate i =>
    match (s.tx i).phase with
    | .next (op::todo) =>
      if gate op (s.view i) then some (s.setPhase i (.gated op todo))
      else some (s.close i .aborted)
    | _ => none
  | .load i =>
    match (s.tx i).phase with
    | .gated op todo => some (s.setPhase i (.loaded op (s.view i) todo))
    | _ => none
  | .write i =>
    match (s.tx i).phase with
    | .loaded op old todo =>
      -- a row another transaction wrote is waited for
      if s.lockedBy=none∨s.lockedBy=some i then
        some { s.putTx i ⟨.next todo,some (make op old),(s.tx i).log++[⟨op,old,make op old⟩]⟩ with
          lockedBy := some i }
      else none
    | _ => none
  | .commit i =>
    match (s.tx i).phase with
    | .next [] =>
      some { s.close i .committed with
        value := s.view i
        log := s.log++(s.tx i).log
        order := s.order++[i] }
    | _ => none
  | .abort i =>
    match (s.tx i).phase with
    | .committed => none
    | .aborted => none
    | _ => some (s.close i .aborted)

variable (gate : ω → α → Bool) (make : ω → α → α)

/-- At a write the value taken for the old one is still the value, and the check still
passes on it. -/
def Fresh (s : State ι ω α) : Event ι → Prop
  | .write i => ∀ op old todo, (s.tx i).phase=.loaded op old todo →
      old=s.view i∧gate op (s.view i)=true
  | _ => True

/-- At a write the value taken for the old one is still the value. -/
def Current (s : State ι ω α) : Event ι → Prop
  | .write i => ∀ op old todo, (s.tx i).phase=.loaded op old todo → old=s.view i
  | _ => True

/-- Each write started from what the one before it left, where its check passes. -/
inductive Chain : α → List (Entry ω α) → α → Prop
  | nil (v : α) : Chain v [] v
  | snoc {v w : α} {log : List (Entry ω α)} {op : ω} :
      Chain v log w → gate op w=true → Chain v (log++[⟨op,w,make op w⟩]) (make op w)

variable {gate make}

theorem Chain.append {u v w : α} {log more : List (Entry ω α)} (h : Chain gate make u log v)
    (k : Chain gate make v more w) : Chain gate make u (log++more) w := by
  induction k with
  | nil => simpa using h
  | snoc _ hg ih =>
    rw [← List.append_assoc]
    exact .snoc ih hg

/-- The old value of each write is what the one before it left. -/
inductive Linked : α → List (Entry ω α) → α → Prop
  | nil (v : α) : Linked v [] v
  | snoc {v w n : α} {log : List (Entry ω α)} {op : ω} :
      Linked v log w → Linked v (log++[⟨op,w,n⟩]) n

theorem Chain.linked {v w : α} {log : List (Entry ω α)} (h : Chain gate make v log w) :
    Linked v log w := by
  induction h with
  | nil => exact .nil _
  | snoc _ _ ih => exact .snoc ih

/-- Each entry passed its check on its own old value. -/
theorem Chain.entry {v w : α} {log : List (Entry ω α)} {e : Entry ω α}
    (h : Chain gate make v log w) (he : e∈log) : gate e.op e.old=true∧e.new=make e.op e.old := by
  induction h with
  | nil => cases he
  | snoc _ hg ih =>
    rcases List.mem_append.mp he with he | he
    · exact ih he
    · have he : e=⟨_,_,_⟩ := List.mem_singleton.mp he
      subst he
      exact ⟨hg,rfl⟩

theorem Linked.last {v w : α} {log : List (Entry ω α)} {op : ω} {old new : α}
    (h : Linked v (log++[⟨op,old,new⟩]) w) : Linked v log old∧w=new := by
  generalize hl : log++[⟨op,old,new⟩]=l at h
  cases h with
  | nil => simp at hl
  | snoc h =>
    obtain ⟨hlog,he⟩ := List.append_inj' hl rfl
    cases he
    exact ⟨hlog ▸ h,rfl⟩

/-- The value left is the operations' own, one after another. -/
theorem Chain.value_eq {v w : α} {log : List (Entry ω α)} (h : Chain gate make v log w) :
    w=(log.map (·.op)).foldl (fun v op => make op v) v := by
  induction h with
  | nil => rfl
  | snoc _ _ ih => simp [← ih]

/-- What holds of a transaction, given the committed value and who holds the row. -/
structure TxInv (gate : ω → α → Bool) (make : ω → α → α) (plan : List ω) (value : α)
    (held : Prop) (t : Tx ω α) : Prop where
  chain : Chain gate make value t.log (t.own.getD value)
  held : t.own≠none → held
  empty : t.own=none → t.log=[]
  next : ∀ todo, t.phase=.next todo → t.log.map (·.op)++todo=plan
  gated : ∀ op todo, t.phase=.gated op todo → t.log.map (·.op)++op::todo=plan
  loaded : ∀ op old todo, t.phase=.loaded op old todo → t.log.map (·.op)++op::todo=plan

structure Inv (gate : ω → α → Bool) (make : ω → α → α) (plan : ι → List ω) (first : α)
    (s : State ι ω α) : Prop where
  chain : Chain gate make first s.log s.value
  ops : s.log.map (·.op)=s.order.flatMap plan
  nodup : s.order.Nodup
  committed : ∀ i, i∈s.order↔(s.tx i).phase=.committed
  txs : ∀ i, TxInv gate make (plan i) s.value (s.lockedBy=some i) (s.tx i)

theorem TxInv.ended {plan : List ω} {value : α} {held : Prop} {phase : Phase ω α}
    (h : phase=.committed∨phase=.aborted) :
    TxInv gate make plan value held ⟨phase,none,[]⟩ where
  chain := .nil value
  held h := absurd rfl h
  empty _ := rfl
  next todo hp := by rcases h with rfl | rfl <;> cases hp
  gated op todo hp := by rcases h with rfl | rfl <;> cases hp
  loaded op old todo hp := by rcases h with rfl | rfl <;> cases hp

theorem start_inv (value : α) (plan : ι → List ω) :
    Inv gate make plan value (start value plan) where
  chain := .nil value
  ops := rfl
  nodup := List.nodup_nil
  committed i := by simp [start]
  txs i := by
    refine ⟨.nil value,fun h => absurd rfl h,fun _ => rfl,?_,?_,?_⟩
    · intro todo hp
      cases hp
      rfl
    · intro op todo hp
      cases hp
    · intro op old todo hp
      cases hp

variable [DecidableEq ι] {plan : ι → List ω} {first : α} {s t : State ι ω α} {i : ι}

/-- A transaction goes on without ending; what is committed stays. -/
theorem Inv.put {x : Tx ω α} {l : Option ι} (h : Inv gate make plan first s)
    (hphase : x.phase=.committed↔(s.tx i).phase=.committed)
    (hx : TxInv gate make (plan i) s.value (l=some i) x)
    (hlock : ∀ j, j≠i → s.lockedBy=some j → l=some j) :
    Inv gate make plan first { s.putTx i x with lockedBy := l } where
  chain := h.chain
  ops := h.ops
  nodup := h.nodup
  committed j := by
    by_cases hj : j=i
    · subst hj
      simpa [State.putTx,hphase] using h.committed j
    · simpa [State.putTx,Function.update_of_ne hj] using h.committed j
  txs j := by
    by_cases hj : j=i
    · subst hj
      simpa [State.putTx] using hx
    · have hold := h.txs j
      have htx : (Function.update s.tx i x) j=s.tx j := Function.update_of_ne hj x s.tx
      simp only [State.putTx,htx]
      exact { hold with held := fun ho => hlock j hj (hold.held ho) }

theorem close_inv (h : Inv gate make plan first s) (hi : (s.tx i).phase≠.committed) :
    Inv gate make plan first (s.close i .aborted) := by
  apply h.put
  · simpa using hi
  · exact .ended (.inr rfl)
  · intro j hj hlock
    have hne : some j≠some i := by simpa using hj
    simp [hlock,hne]

theorem gate_inv {op : ω} {todo : List ω} (h : Inv gate make plan first s)
    (hp : (s.tx i).phase=.next (op::todo)) :
    Inv gate make plan first (s.setPhase i (.gated op todo)) := by
  have hx := h.txs i
  apply h.put (l := s.lockedBy)
  · simp [hp]
  · refine ⟨hx.chain,hx.held,hx.empty,?_,?_,?_⟩
    · intro l hl
      cases hl
    · intro o l hl
      cases hl
      exact hx.next _ hp
    · intro o v l hl
      cases hl
  · exact fun _ _ hl => hl

theorem load_inv {op : ω} {old : α} {todo : List ω} (h : Inv gate make plan first s)
    (hp : (s.tx i).phase=.gated op todo) :
    Inv gate make plan first (s.setPhase i (.loaded op old todo)) := by
  have hx := h.txs i
  apply h.put (l := s.lockedBy)
  · simp [hp]
  · refine ⟨hx.chain,hx.held,hx.empty,?_,?_,?_⟩
    · intro l hl
      cases hl
    · intro o l hl
      cases hl
    · intro o v l hl
      cases hl
      exact hx.gated _ _ hp
  · exact fun _ _ hl => hl

/-- A fresh write goes on from what the transaction sees. -/
theorem write_inv {op : ω} {todo : List ω} (h : Inv gate make plan first s)
    (hp : (s.tx i).phase=.loaded op (s.view i) todo) (hg : gate op (s.view i)=true)
    (hlock : s.lockedBy=none∨s.lockedBy=some i) :
    Inv gate make plan first
      { s.putTx i ⟨.next todo,some (make op (s.view i)),
          (s.tx i).log++[⟨op,s.view i,make op (s.view i)⟩]⟩ with lockedBy := some i } := by
  have hx := h.txs i
  apply h.put
  · simp [hp]
  · refine ⟨.snoc hx.chain hg,fun _ => rfl,fun hn => by simp at hn,?_,?_,?_⟩
    · intro l hl
      cases hl
      simpa using hx.loaded _ _ _ hp
    · intro o l hl
      cases hl
    · intro o v l hl
      cases hl
  · intro j hj hl
    rcases hlock with hn | hs
    · simp [hn] at hl
    · exact hs.symm.trans hl

omit [DecidableEq ι] in
/-- No other transaction has written to the value a commit replaces. -/
theorem untouched (h : Inv gate make plan first s) {j : ι} (hj : j≠i)
    (hi : (s.tx i).own≠none) : (s.tx j).own=none := by
  by_contra hn
  have hli : s.lockedBy=some i := (h.txs i).held hi
  have hlj : s.lockedBy=some j := (h.txs j).held hn
  exact hj (Option.some.inj (hlj.symm.trans hli))

theorem commit_inv (h : Inv gate make plan first s) (hp : (s.tx i).phase=.next []) :
    Inv gate make plan first
      { s.close i .committed with
        value := s.view i
        log := s.log++(s.tx i).log
        order := s.order++[i] } := by
  have hx := h.txs i
  have hout : i∉s.order := by
    rw [h.committed i,hp]
    simp
  refine ⟨h.chain.append hx.chain,?_,?_,?_,?_⟩
  · have hdone : (s.tx i).log.map (·.op)=plan i := by simpa using hx.next _ hp
    simp [h.ops,hdone]
  · rw [List.nodup_append]
    refine ⟨h.nodup,by simp,?_⟩
    intro j hj k hk
    have hk : k=i := by simpa using hk
    exact fun hjk => hout (hk ▸ hjk ▸ hj)
  · intro j
    by_cases hj : j=i
    · subst hj
      simp [State.close,State.putTx]
    · simp [State.close,State.putTx,hj,h.committed j]
  · intro j
    by_cases hj : j=i
    · subst hj
      have hend : TxInv gate make (plan j) (s.view j) (s.lockedBy=none) ⟨.committed,none,[]⟩ :=
        .ended (.inl rfl)
      simp only [State.close,State.putTx,Function.update_self]
      exact { hend with held := fun hn => absurd rfl hn }
    · have hold := h.txs j
      have htx : ((s.close i .committed).tx) j=s.tx j := by
        simp [State.close,State.putTx,hj]
      simp only [htx]
      have hlock : (s.tx j).own≠none → (s.close i .committed).lockedBy=some j := by
        intro hn
        have hne : some j≠some i := by simpa using hj
        simp [State.close,hold.held hn,hne]
      refine { hold with chain := ?_, held := hlock }
      by_cases hown : (s.tx i).own=none
      · have hview : s.view i=s.value := by simp [State.view,hown]
        rw [hview]
        exact hold.chain
      · have hnone := untouched h hj hown
        rw [hold.empty hnone,hnone]
        exact .nil _

/-- The check of `gate` at each write is what counts; `g` is the one made earlier. -/
theorem step_inv {g : ω → α → Bool} (s : State ι ω α) (e : Event ι) (t : State ι ω α)
    (h : Inv gate make plan first s) (hf : Fresh gate s e) (hst : step g make s e=some t) :
    Inv gate make plan first t := by
  cases e with
  | gate i =>
    simp only [step] at hst
    split at hst
    · rename_i hp
      split at hst
      · cases hst
        exact gate_inv h hp
      · cases hst
        exact close_inv h (by simp [hp])
    · cases hst
  | load i =>
    simp only [step] at hst
    split at hst
    · rename_i hp
      cases hst
      exact load_inv h hp
    · cases hst
  | write i =>
    simp only [step] at hst
    split at hst
    · rename_i hp
      split at hst
      · rename_i hlock
        cases hst
        obtain ⟨hold,hg⟩ := hf _ _ _ hp
        subst hold
        exact write_inv h hp hg hlock
      · cases hst
    · cases hst
  | commit i =>
    simp only [step] at hst
    split at hst
    · rename_i hp
      cases hst
      exact commit_inv h hp
    · cases hst
  | abort i =>
    simp only [step] at hst
    split at hst
    · cases hst
    · cases hst
    · rename_i hc _
      cases hst
      exact close_inv h hc

/-- When every write is fresh, the committed writes form one chain, in the order the
transactions committed. -/
theorem run_chain {g : ω → α → Bool} {value : α} {events : List (Event ι)}
    (hrun : Run (step g make) (Fresh gate) (start value plan) events s) :
    Inv gate make plan value s :=
  hrun.inv (Inv gate make plan value) step_inv (start_inv value plan)

/-- The operations under way have passed a check that reads no value. -/
def Passed (gate : ω → α → Bool) (s : State ι ω α) : Prop :=
  ∀ i op v, ((∃ todo, (s.tx i).phase=.gated op todo)∨
    ∃ old todo, (s.tx i).phase=.loaded op old todo) → gate op v=true

theorem Passed.put {x : Tx ω α} {l : Option ι} (h : Passed gate s)
    (hx : ∀ op v, ((∃ todo, x.phase=.gated op todo)∨∃ old todo, x.phase=.loaded op old todo) →
      gate op v=true) :
    Passed gate { s.putTx i x with lockedBy := l } := by
  intro j op v hp
  by_cases hj : j=i
  · subst hj
    exact hx op v (by simpa [State.putTx] using hp)
  · exact h j op v (by simpa [State.putTx,Function.update_of_ne hj] using hp)

theorem step_passed (hgate : ∀ op v w, gate op v=gate op w) (s : State ι ω α) (e : Event ι)
    (t : State ι ω α) (h : Passed gate s) (hst : step gate make s e=some t) : Passed gate t := by
  cases e with
  | gate i =>
    simp only [step] at hst
    split at hst
    · split at hst
      · rename_i hg
        cases hst
        apply h.put (l := s.lockedBy)
        intro o v hp
        rcases hp with ⟨l,hl⟩ | ⟨u,l,hl⟩ <;> cases hl
        exact (hgate _ v _).trans hg
      · cases hst
        exact h.put (by simp)
    · cases hst
  | load i =>
    simp only [step] at hst
    split at hst
    · rename_i hp
      cases hst
      apply h.put (l := s.lockedBy)
      intro o v hq
      rcases hq with ⟨l,hl⟩ | ⟨u,l,hl⟩ <;> cases hl
      exact h i _ v (.inl ⟨_,hp⟩)
    · cases hst
  | write i =>
    simp only [step] at hst
    split at hst
    · split at hst
      · cases hst
        exact h.put (by simp)
      · cases hst
    · cases hst
  | commit i =>
    simp only [step] at hst
    split at hst
    · cases hst
      exact h.put (s := s) (i := i) (x := ⟨.committed,none,[]⟩) (l := none) (by simp)
    · cases hst
  | abort i =>
    simp only [step] at hst
    split at hst
    · cases hst
    · cases hst
    · cases hst
      exact h.put (by simp)

/-- Where the check reads no value, it is enough that the old values are current. -/
theorem run_chain_of_current {value : α} {events : List (Event ι)}
    (hgate : ∀ op v w, gate op v=gate op w)
    (hrun : Run (step gate make) Current (start value plan) events s) :
    Inv gate make plan value s := by
  have hstart : Passed gate (start value plan) := by
    intro i op v hp
    rcases hp with ⟨l,hl⟩ | ⟨u,l,hl⟩ <;> cases hl
  refine run_chain (hrun.strengthen (Passed gate) ?_ ?_ hstart)
  · intro s e t hs _ hst
    exact step_passed hgate s e t hs hst
  · intro s e hs hc
    cases e with
    | write i =>
      intro op old todo hp
      exact ⟨hc op old todo hp,hs i op _ (.inr ⟨old,todo,hp⟩)⟩
    | _ => trivial

end Kitp.Cell
