import Kitp.Store
import Kitp.Lib.Unique

/-! Transactions that write card rows and values under READ COMMITTED: what each sees, the
row locks it holds, and the advisory locks. -/
namespace Kitp.Transactions
open Kitp.Store

/-- What a transaction has written; `unchecked` are the cards it wrote without looking up
whether their key was free. -/
structure Tx where
  cards : List Card
  values : List AttributeValue
  unchecked : List Int

def Tx.empty : Tx := ⟨[],[],[]⟩

/-- The transaction's own writes laid over what is committed. -/
def Tx.over (t : Tx) (db : Db) : Db :=
  { db with
    cards := t.cards++db.cards.filter fun c => !t.cards.any (·.id=c.id)
    values := t.values++db.values.filter fun v =>
      !t.values.any fun w => w.cardId=v.cardId∧w.attributeDefId=v.attributeDefId }

/-- A row has one writer or is held `FOR SHARE`; `holder` has the advisory locks. -/
structure State (ι κ : Type) where
  db : Db
  tx : ι → Tx
  writer : Int → Option ι
  sharers : Int → List ι
  holder : κ → Option ι

variable {ι κ : Type}

namespace State

def start (db : Db) : State ι κ := ⟨db,fun _ => .empty,fun _ => none,fun _ => [],fun _ => none⟩

variable (s : State ι κ) (i : ι)

/-- What a statement of the transaction sees. -/
def view : Db := (s.tx i).over s.db

variable [DecidableEq ι]

def mayShare (card : Int) : Bool := (s.writer card).all (· = i)

def mayWrite (card : Int) : Bool := s.mayShare i card&&(s.sharers card).all (· = i)

def mayHold (k : κ) : Bool := (s.holder k).all (· = i)

def putTx (t : Tx) : State ι κ := { s with tx := Function.update s.tx i t }

/-- The sequence gives an id. -/
def drawn : State ι κ := { s with db := { s.db with nextCardId := s.db.nextCardId+1 } }

/-- `SELECT … FOR SHARE`. -/
def share (card : Int) : State ι κ :=
  { s with sharers := Function.update s.sharers card (i::s.sharers card) }

/-- `pg_advisory_xact_lock`. -/
def hold [DecidableEq κ] (k : κ) : State ι κ := { s with holder := Function.update s.holder k (some i) }

/-- A row is inserted or updated. -/
def putCard (c : Card) (unchecked : Bool) : State ι κ :=
  let t := s.tx i
  { s.putTx i ⟨c::t.cards.filter (·.id≠c.id),t.values,
      if unchecked then c.id::t.unchecked else t.unchecked⟩ with
    writer := Function.update s.writer c.id (some i) }

/-- A value is upserted. -/
def putValue (card attr : Int) (v : Json) (unchecked : Bool) : State ι κ :=
  let t := s.tx i
  s.putTx i ⟨t.cards,upsert card attr v t.values,
    if unchecked then card::t.unchecked else t.unchecked⟩

/-- A value is upserted once the lock on the key it gives is held. -/
def claimValue [DecidableEq κ] (card attr : Int) (v : Json) (k : Option κ) : State ι κ :=
  let put := s.putValue i card attr v false
  k.elim put (put.hold i)

/-- A live card is deleted, or a deleted one is brought back. -/
def mark (card : Int) (deleted : Bool) : Option (State ι κ) :=
  ((s.view i).card card).bind fun c =>
    if s.mayWrite i c.id&&c.deleted≠deleted then some (s.putCard i { c with deleted } true)
    else none

/-- The transaction ends and its locks go. -/
def close (db : Db) : State ι κ where
  db := db
  tx := Function.update s.tx i .empty
  writer c := if s.writer c=some i then none else s.writer c
  sharers c := (s.sharers c).filter (· ≠ i)
  holder k := if s.holder k=some i then none else s.holder k

end State

/-- The tables as rows and values by their keys. -/
def tables (db : Db) : Unique.Store Int Card Int Json := ⟨db.card,db.value⟩

def Tx.writes (t : Tx) : Unique.Tx Int Card Int Json where
  rows c := t.cards.find? (·.id=c)
  fields c a := (t.values.find? fun v => v.cardId=c∧v.attributeDefId=a).map (·.value)
  loose c := c∈t.unchecked

def State.locks (s : State ι κ) : Unique.State ι Int Card Int Json κ where
  store := tables s.db
  tx i := (s.tx i).writes
  writer := s.writer
  reads i c := i∈s.sharers c
  holder := s.holder

variable {s : State ι κ} {i : ι} {db : Db} {t : Tx}

theorem over_card (t : Tx) (db : Db) (x : Int) :
    (t.over db).card x=(t.cards.find? (·.id=x)).or (db.card x) := by
  rw [Tx.over,Db.card,List.find?_append,List.find?_filter]
  cases ht : t.cards.find? (·.id=x) with
  | some c => rfl
  | none =>
    rw [Option.none_or,Option.none_or,Db.card]
    congr 1
    funext c
    by_cases hc : c.id=x
    · have hnone : t.cards.any (·.id=c.id)=false := by
        rw [hc]
        simpa [List.find?_eq_none] using ht
      simp [hc,← hc ▸ hnone]
    · simp [hc]

theorem over_value (t : Tx) (db : Db) (c a : Int) : (t.over db).value c a=
    ((t.values.find? fun v => v.cardId=c∧v.attributeDefId=a).map (·.value)).or (db.value c a) := by
  rw [Tx.over,Db.value,List.find?_append,List.find?_filter]
  cases ht : t.values.find? (fun v => v.cardId=c∧v.attributeDefId=a) with
  | some v => rfl
  | none =>
    rw [Option.none_or,Option.map_none,Option.none_or,Db.value]
    congr 2
    funext v
    by_cases hv : v.cardId=c∧v.attributeDefId=a
    · simp only [hv]
      simpa [List.find?_eq_none] using ht
    · simp [hv]

theorem tables_over (t : Tx) (db : Db) : tables (t.over db)=Unique.laid (tables db) t.writes := by
  ext x : 2
  · exact over_card t db x
  · funext a
    exact over_value t db x a

theorem view_locks (s : State ι κ) (i : ι) : s.locks.view i=tables (s.view i) :=
  (tables_over (s.tx i) s.db).symm

@[simp] theorem view_start (db : Db) (i : ι) : (State.start db : State ι κ).view i=db := by
  simp [State.view,State.start,Tx.over,Tx.empty]

theorem start_inv {key : Card → Int → Json → Option κ} (h : Unique.UniqueKeys key (tables db)) :
    Unique.Inv key (State.start db : State ι κ).locks where
  unique := h
  apart i j c hw := by cases hw
  rows_held i c hw := absurd rfl hw
  fields_held i c a hw := absurd rfl hw
  alone i k hk := by cases hk
  claimed i c a r v k hc hr hv hw hkey := by
    rcases hw with hw | hw
    · exact absurd rfl hw
    · exact absurd rfl hw

variable [DecidableEq ι] {key : Card → Int → Json → Option κ} {card : Int}

@[simp] theorem mayWrite_start (db : Db) (i : ι) (card : Int) :
    (State.start db : State ι κ).mayWrite i card=true := by
  simp [State.mayWrite,State.mayShare,State.start]

omit [DecidableEq ι] in
@[simp] theorem share_view (s : State ι κ) (i j : ι) (card : Int) :
    (s.share i card).view j=s.view j := rfl

omit [DecidableEq ι] in
@[simp] theorem hold_view [DecidableEq κ] (s : State ι κ) (i j : ι) (k : κ) :
    (s.hold i k).view j=s.view j := rfl

@[simp] theorem mayShare_start (db : Db) (i : ι) (card : Int) :
    (State.start db : State ι κ).mayShare i card=true := rfl

theorem mayShare_iff : s.mayShare i card=true↔s.writer card=none∨s.writer card=some i := by
  unfold State.mayShare
  cases s.writer card <;> simp

theorem mayHold_iff {k : κ} : s.mayHold i k=true↔s.holder k=none∨s.holder k=some i := by
  unfold State.mayHold
  cases s.holder k <;> simp

/-- Whoever may write a row is the only one to touch it. -/
theorem mayWrite_free (h : s.mayWrite i card=true) : ∀ j, s.locks.Touches j card → j=i := by
  simp only [State.mayWrite,Bool.and_eq_true,List.all_eq_true,decide_eq_true_eq] at h
  intro j hj
  cases hj with
  | inl hw =>
    have hw : s.writer card=some j := hw
    cases mayShare_iff.mp h.1 with
    | inl hnone =>
      rw [hnone] at hw
      cases hw
    | inr hmine => exact Option.some.inj (hw.symm.trans hmine)
  | inr hr => exact h.2 j hr

theorem share_inv (h : Unique.Inv key s.locks) (hfree : s.mayShare i card=true) :
    Unique.Inv key (s.share i card).locks := by
  have hlocks : (s.share i card).locks=s.locks.turn i (s.locks.tx i) s.locks.writer
      (fun j d => s.locks.reads j d∨(j=i∧d=card)) s.locks.holder := by
    ext1
    · rfl
    · exact (Function.update_eq_self i s.locks.tx).symm
    · rfl
    · funext j d
      simp only [State.locks,State.share,Unique.State.turn]
      by_cases hd : d=card
      · simp [hd,or_comm]
      · simp [hd]
    · rfl
  rw [hlocks]
  exact h.share (mayShare_iff.mp hfree)

theorem writes_putCard (t : Tx) (c : Card) : (fun x => (c::t.cards.filter (·.id≠c.id)).find? (·.id=x))=
    Function.update (fun x => t.cards.find? (·.id=x)) c.id (some c) := by
  funext x
  by_cases hx : x=c.id
  · subst hx
    simp
  · rw [Function.update_of_ne hx,List.find?_cons_of_neg (by simpa using Ne.symm hx),
      List.find?_filter]
    congr 1
    funext d
    by_cases hd : d.id=x
    · simp [hd,hx]
    · simp [hd]

theorem writes_putValue (t : Tx) (card attr : Int) (v : Json) :
    (fun c a => ((upsert card attr v t.values).find? fun w => w.cardId=c∧w.attributeDefId=a).map
      (·.value))=fun c a => if c=card∧a=attr then some v else
        (t.values.find? fun w => w.cardId=c∧w.attributeDefId=a).map (·.value) := by
  funext c a
  by_cases h : c=card∧a=attr
  · rw [if_pos h,h.1,h.2,find_upsert_self]
    rfl
  · rw [if_neg h,find_upsert_ne h]

/-- A transaction sees the row it wrote. -/
theorem view_putCard (s : State ι κ) (i : ι) (c : Card) (unchecked : Bool) (x : Int) :
    ((s.putCard i c unchecked).view i).card x=if x=c.id then some c else (s.view i).card x := by
  have htx : ((s.putCard i c unchecked).tx i).cards=c::(s.tx i).cards.filter (·.id≠c.id) := by
    simp [State.putCard,State.putTx]
  rw [State.view,over_card,htx,congrFun (writes_putCard (s.tx i) c) x]
  by_cases hx : x=c.id
  · simp [hx]
  · rw [Function.update_of_ne hx,if_neg hx,State.view,over_card]
    rfl

theorem view_putCard_value (s : State ι κ) (i : ι) (c : Card) (unchecked : Bool) :
    ((s.putCard i c unchecked).view i).value=(s.view i).value := by
  have htx : ((s.putCard i c unchecked).tx i).values=(s.tx i).values := by
    simp [State.putCard,State.putTx]
  funext x a
  rw [State.view,over_value,htx,State.view,over_value]
  rfl

/-- A transaction sees the value it wrote. -/
theorem view_putValue (s : State ι κ) (i : ι) (card attr : Int) (v : Json) (unchecked : Bool)
    (x a : Int) : ((s.putValue i card attr v unchecked).view i).value x a=
      if x=card∧a=attr then some v else (s.view i).value x a := by
  have htx : ((s.putValue i card attr v unchecked).tx i).values=upsert card attr v (s.tx i).values := by
    simp [State.putValue,State.putTx]
  rw [State.view,over_value,htx,congrFun (congrFun (writes_putValue (s.tx i) card attr v) x) a]
  by_cases h : x=card∧a=attr
  · rw [if_pos h,if_pos h,Option.some_or]
  · rw [if_neg h,if_neg h,State.view,over_value]
    rfl

theorem view_putValue_card (s : State ι κ) (i : ι) (card attr : Int) (v : Json) (unchecked : Bool) :
    ((s.putValue i card attr v unchecked).view i).card=(s.view i).card := by
  have htx : ((s.putValue i card attr v unchecked).tx i).cards=(s.tx i).cards := by
    simp [State.putValue,State.putTx]
  funext x
  rw [State.view,over_card,htx,State.view,over_card]
  rfl

theorem claimValue_view [DecidableEq κ] (s : State ι κ) (i : ι) (card attr : Int) (v : Json)
    (k : Option κ) : (s.claimValue i card attr v k).view i=(s.putValue i card attr v false).view i := by
  cases k <;> rfl

theorem putTx_locks (s : State ι κ) (i : ι) (t : Tx) :
    (fun j => (Function.update s.tx i t j).writes)=Function.update s.locks.tx i t.writes := by
  funext j
  by_cases hj : j=i
  · subst hj
    simp
  · simp [hj,State.locks]

theorem mem_unchecked {xs : List Int} {x card : Int} {unchecked : Bool} :
    (x∈if unchecked then card::xs else xs)↔x∈xs∨(x=card∧unchecked=true) := by
  cases unchecked
  · simp
  · simp [or_comm]

theorem putCard_locks (s : State ι κ) (i : ι) (c : Card) (unchecked : Bool) :
    (s.putCard i c unchecked).locks=s.locks.turn i
      ⟨Function.update (s.locks.tx i).rows c.id (some c),(s.locks.tx i).fields,
        fun d => (s.locks.tx i).loose d∨(d=c.id∧unchecked=true)⟩
      (Function.update s.locks.writer c.id (some i)) s.locks.reads s.locks.holder := by
  ext1
  · rfl
  · refine (putTx_locks s i _).trans (congrArg (Function.update s.locks.tx i) ?_)
    ext1
    · exact writes_putCard (s.tx i) c
    · rfl
    · funext x
      exact propext mem_unchecked
  · rfl
  · rfl
  · rfl

theorem putValue_locks (s : State ι κ) (i : ι) (card attr : Int) (v : Json) (unchecked : Bool) :
    (s.putValue i card attr v unchecked).locks=s.locks.turn i
      ⟨(s.locks.tx i).rows,
        fun d b => if d=card∧b=attr then some v else (s.locks.tx i).fields d b,
        fun d => (s.locks.tx i).loose d∨(d=card∧unchecked=true)⟩
      s.locks.writer s.locks.reads s.locks.holder := by
  ext1
  · rfl
  · refine (putTx_locks s i _).trans (congrArg (Function.update s.locks.tx i) ?_)
    ext1
    · rfl
    · exact writes_putValue (s.tx i) card attr v
    · funext x
      exact propext mem_unchecked
  · rfl
  · rfl
  · rfl

theorem claimValue_db [DecidableEq κ] (s : State ι κ) (i : ι) (card attr : Int)
    (v : Json) (k : Option κ) : (s.claimValue i card attr v k).db=s.db := by
  cases k <;> rfl

theorem close_locks (s : State ι κ) (i : ι) (db : Db) :
    (s.close i db).locks=s.locks.close i (tables db) := by
  ext1
  · rfl
  · refine (putTx_locks s i .empty).trans (congrArg (Function.update s.locks.tx i) ?_)
    ext1
    · rfl
    · rfl
    · funext x
      simp [Tx.writes,Tx.empty,Unique.Tx.empty]
  · rfl
  · funext j x
    simp [State.locks,State.close,Unique.State.close,and_comm]
  · rfl

/-- A row is written, and nobody looked up whether its key is free. -/
theorem putCard_inv (h : Unique.Inv key s.locks) (c : Card) (hfree : s.mayWrite i c.id=true) :
    Unique.Inv key (s.putCard i c true).locks := by
  rw [putCard_locks]
  simpa only [and_true] using h.putRow (mayWrite_free hfree) c

theorem mark_inv {t : State ι κ} {deleted : Bool} (h : Unique.Inv key s.locks)
    (hmark : s.mark i card deleted=some t) : Unique.Inv key t.locks∧t.db=s.db := by
  obtain ⟨c,-,hput⟩ := Option.bind_eq_some_iff.mp hmark
  split at hput
  · rename_i hfree
    cases hput
    rw [Bool.and_eq_true] at hfree
    exact ⟨putCard_inv h { c with deleted } hfree.1,rfl⟩
  · cases hput

/-- A row is written that has no key yet. -/
theorem openCard_inv (h : Unique.Inv key s.locks) {c : Card} (hfree : s.mayWrite i c.id=true)
    (hno : ∀ a v, (s.view i).value c.id a=some v → key c a v=none) :
    Unique.Inv key (s.putCard i c false).locks := by
  rw [putCard_locks]
  have hopen := h.openRow (r := c) (mayWrite_free hfree) fun a v hv => by
    rw [view_locks] at hv
    exact hno a v hv
  simpa only [Bool.false_eq_true,and_false,or_false] using hopen

theorem putValue_inv (h : Unique.Inv key s.locks) (ht : s.locks.Touches i card) (attr : Int)
    (v : Json) : Unique.Inv key (s.putValue i card attr v true).locks := by
  rw [putValue_locks]
  simpa only [and_true] using h.putField ht attr v

/-- A value is written that gives no key. -/
theorem putOther_inv (h : Unique.Inv key s.locks) {attr : Int} (hno : ¬Unique.Gives key attr)
    (card : Int) (v : Json) : Unique.Inv key (s.putValue i card attr v false).locks := by
  rw [putValue_locks]
  simpa only [Bool.false_eq_true,and_false,or_false] using h.putOther hno card v

theorem hold_inv [DecidableEq κ] {k : κ} (h : Unique.Inv key s.locks) (hmay : s.mayHold i k=true) :
    Unique.Inv key (s.hold i k).locks := by
  have hheld (k' : κ) (j : ι) : (s.hold i k).holder k'=some j↔s.locks.holder k'=some j∨(j=i∧k'=k) := by
    by_cases hk : k'=k
    · subst hk
      simp only [State.hold,Function.update_self,State.locks,and_true,Option.some.injEq]
      rcases mayHold_iff.mp hmay with hnone | hmine
      · simp [hnone,eq_comm]
      · simp [hmine,eq_comm]
    · simp [State.hold,State.locks,hk]
  have hlocks : (s.hold i k).locks=s.locks.turn i (s.locks.tx i) s.locks.writer s.locks.reads
      (s.hold i k).holder := by
    ext1
    · rfl
    · exact (Function.update_eq_self i s.locks.tx).symm
    · rfl
    · rfl
    · rfl
  rw [hlocks]
  exact h.hold hheld

theorem claimValue_inv [DecidableEq κ] (h : Unique.Inv key s.locks) (ht : s.locks.Touches i card)
    (attr : Int) (v : Json) {k : Option κ} (hk : k=((s.view i).card card).bind (key · attr v))
    (hmay : k.all (s.mayHold i)=true)
    (hclear : ∀ k', k=some k' → ∀ d, d≠card → ¬Unique.Has key (tables (s.view i)) d k') :
    Unique.Inv key (s.claimValue i card attr v k).locks := by
  have hrow (k' : κ) : (∃ r, (s.locks.view i).row card=some r∧key r attr v=some k')↔k=some k' := by
    rw [view_locks,hk,Option.bind_eq_some_iff]
    rfl
  have hheld (k' : κ) (j : ι) : (s.claimValue i card attr v k).holder k'=some j↔
      s.locks.holder k'=some j∨(j=i∧∃ r, (s.locks.view i).row card=some r∧key r attr v=some k') := by
    rw [hrow]
    cases k with
    | none => simp [State.claimValue,State.putValue,State.putTx,State.locks]
    | some k =>
      by_cases hkk : k'=k
      · subst hkk
        have hmine := mayHold_iff.mp (Option.all_some ▸ hmay)
        simp only [State.claimValue,Option.elim_some,State.hold,Function.update_self,State.locks,
          Option.some.injEq,and_true]
        rcases hmine with hnone | hmine
        · simp [hnone,eq_comm]
        · simp [hmine,eq_comm]
      · simp [State.claimValue,State.hold,State.putValue,State.putTx,State.locks,hkk,Ne.symm hkk]
  have hlocks : (s.claimValue i card attr v k).locks=s.locks.turn i
      ⟨(s.locks.tx i).rows,
        fun d b => if d=card∧b=attr then some v else (s.locks.tx i).fields d b,
        (s.locks.tx i).loose⟩
      s.locks.writer s.locks.reads (s.claimValue i card attr v k).holder := by
    have hput := putValue_locks s i card attr v false
    simp only [Bool.false_eq_true,and_false,or_false] at hput
    cases k with
    | none => exact hput
    | some k =>
      ext1
      · rfl
      · have htx := congrArg Unique.State.tx hput
        exact htx
      · rfl
      · rfl
      · rfl
  rw [hlocks]
  refine h.claim ht attr v hheld fun r k' hr hkey => ?_
  have hkk := (hrow k').mp ⟨r,hr,hkey⟩
  refine ⟨fun j hj => ?_,fun d hd hhas => hclear k' hkk d hd (view_locks s i ▸ hhas)⟩
  rw [hkk] at hmay
  have hj : s.holder k'=some j := hj
  simpa [State.mayHold,hj] using hmay

/-- What a transaction didn't look up is free when it commits. -/
def Clear (key : Card → Int → Json → Option κ) (s : State ι κ) (i : ι) : Prop :=
  ∀ c∈(s.tx i).unchecked, ∀ k, Unique.Has key (tables (s.view i)) c k →
    (∀ d, Unique.Has key (tables (s.view i)) d k → d=c)∧∀ j, s.holder k=some j → j=i

theorem commit_inv (h : Unique.Inv key s.locks) (hclear : Clear key s i) :
    Unique.Inv key (s.close i (s.view i)).locks := by
  rw [close_locks,← view_locks]
  refine h.commit fun c hc k hk => ?_
  rw [view_locks] at hk ⊢
  exact hclear c hc k hk

theorem abort_inv (h : Unique.Inv key s.locks) : Unique.Inv key (s.close i s.db).locks := by
  rw [close_locks]
  exact h.abort

section Rows
variable {n : Int} {cards : List Card} {values : List AttributeValue}

/-- Cards by their ids, and no id that the sequence hasn't given. -/
structure Rows (n : Int) (cards : List Card) (values : List AttributeValue) : Prop where
  keyed : ∀ c∈cards, cards.find? (·.id=c.id)=some c
  cards_below : ∀ c∈cards, c.id < n
  values_below : ∀ v∈values, v.cardId < n

theorem Rows.mono {m : Int} (h : Rows n cards values) (hm : n ≤ m) : Rows m cards values :=
  ⟨h.keyed,fun c hc => Int.lt_of_lt_of_le (h.cards_below c hc) hm,
    fun v hv => Int.lt_of_lt_of_le (h.values_below v hv) hm⟩

theorem Rows.over (ht : Rows n t.cards t.values) (h : Rows n db.cards db.values) :
    Rows n (t.over db).cards (t.over db).values := by
  refine ⟨fun c hc => ?_,fun c hc => ?_,fun v hv => ?_⟩
  · rcases List.mem_append.mp hc with hmine | hold
    · exact (over_card t db c.id).trans (by rw [ht.keyed c hmine]; rfl)
    · rw [List.mem_filter] at hold
      have hnone : t.cards.find? (·.id=c.id)=none := by
        simpa [List.find?_eq_none] using hold.2
      refine (over_card t db c.id).trans ?_
      rw [hnone,Option.none_or]
      exact h.keyed c hold.1
  · rcases List.mem_append.mp hc with hmine | hold
    · exact ht.cards_below c hmine
    · exact h.cards_below c (List.mem_filter.mp hold).1
  · rcases List.mem_append.mp hv with hmine | hold
    · exact ht.values_below v hmine
    · exact h.values_below v (List.mem_filter.mp hold).1

theorem Rows.putCard (h : Rows n cards values) {c : Card} (hc : c.id < n) :
    Rows n (c::cards.filter (·.id≠c.id)) values := by
  refine ⟨fun d hd => ?_,fun d hd => ?_,h.values_below⟩
  · rw [congrFun (writes_putCard ⟨cards,values,[]⟩ c) d.id]
    rcases List.mem_cons.mp hd with rfl | hd
    · rw [Function.update_self]
    · simp only [List.mem_filter,decide_eq_true_eq] at hd
      rw [Function.update_of_ne hd.2]
      exact h.keyed d hd.1
  · rcases List.mem_cons.mp hd with rfl | hd
    · exact hc
    · exact h.cards_below d (List.mem_filter.mp hd).1

theorem mem_upsert {card attr : Int} {v : Json} {w : AttributeValue}
    (h : w∈upsert card attr v values) : w.cardId=card∨∃ x∈values, x.cardId=w.cardId := by
  induction values with
  | nil =>
    rw [upsert,List.mem_singleton] at h
    exact .inl (h ▸ rfl)
  | cons x values ih =>
    by_cases hx : x.cardId=card∧x.attributeDefId=attr
    · rw [upsert,if_pos hx,List.mem_cons] at h
      rcases h with rfl | h
      · exact .inl hx.1
      · exact .inr ⟨w,List.mem_cons_of_mem _ h,rfl⟩
    · rw [upsert,if_neg hx,List.mem_cons] at h
      rcases h with rfl | h
      · exact .inr ⟨w,List.mem_cons_self,rfl⟩
      · rcases ih h with hw | ⟨y,hy,hyw⟩
        · exact .inl hw
        · exact .inr ⟨y,List.mem_cons_of_mem _ hy,hyw⟩

theorem Rows.putValue (h : Rows n cards values) {card : Int} (hc : card < n) (attr : Int)
    (v : Json) : Rows n cards (upsert card attr v values) := by
  refine ⟨h.keyed,h.cards_below,fun w hw => ?_⟩
  rcases mem_upsert hw with hw | ⟨x,hx,hxw⟩
  · exact hw ▸ hc
  · exact hxw ▸ h.values_below x hx

/-- Every row that is written or locked has an id that the sequence gave. -/
structure State.Given (s : State ι κ) : Prop where
  committed : Rows s.db.nextCardId s.db.cards s.db.values
  own : ∀ i, Rows s.db.nextCardId (s.tx i).cards (s.tx i).values
  shared : ∀ x, s.sharers x≠[] → x < s.db.nextCardId

omit [DecidableEq ι] in
theorem State.Given.view (h : s.Given) (i : ι) :
    Rows s.db.nextCardId (s.view i).cards (s.view i).values := (h.own i).over h.committed

/-- Rows that a transaction sees are given. -/
theorem State.Given.card_below (h : s.Given) {c : Card} (hc : (s.view i).card card=some c) :
    card < s.db.nextCardId := by
  have hmem := List.mem_of_find?_eq_some hc
  exact card_id hc ▸ (h.view i).cards_below c hmem

theorem State.Given.value_below (h : s.Given) {attr : Int} {v : Json}
    (hv : (s.view i).value card attr=some v) : card < s.db.nextCardId := by
  obtain ⟨row,hrow,hcard,-,-⟩ := mem_of_value hv
  exact hcard ▸ (h.view i).values_below row hrow

omit [DecidableEq ι] in
theorem given_start (h : Rows db.nextCardId db.cards db.values) :
    (State.start db : State ι κ).Given :=
  ⟨h,fun _ => ⟨by simp [State.start,Tx.empty],by simp [State.start,Tx.empty],
    by simp [State.start,Tx.empty]⟩,fun x hx => absurd rfl hx⟩

/-- One transaction writes more. -/
theorem State.Given.putTx (h : s.Given) {t : Tx} {writer : Int → Option ι}
    (ht : Rows s.db.nextCardId t.cards t.values) :
    State.Given { s.putTx i t with writer := writer } := by
  refine ⟨h.committed,fun j => ?_,h.shared⟩
  by_cases hj : j=i
  · subst hj
    simpa [State.putTx] using ht
  · simpa [State.putTx,hj] using h.own j

theorem State.Given.putCard (h : s.Given) {c : Card} {unchecked : Bool}
    (hc : c.id < s.db.nextCardId) : (s.putCard i c unchecked).Given :=
  State.Given.putTx h ((h.own i).putCard hc)

theorem State.Given.putValue (h : s.Given) {attr : Int} {v : Json} {unchecked : Bool}
    (hc : card < s.db.nextCardId) : (s.putValue i card attr v unchecked).Given :=
  State.Given.putTx h ((h.own i).putValue hc attr v)

theorem State.Given.drawn (h : s.Given) : s.drawn.Given := by
  have hnext : s.db.nextCardId ≤ s.db.nextCardId+1 := by omega
  exact ⟨h.committed.mono hnext,fun j => (h.own j).mono hnext,
    fun x hx => Int.lt_of_lt_of_le (h.shared x hx) hnext⟩

theorem State.Given.claimValue [DecidableEq κ] (h : s.Given) {attr : Int} {v : Json} {k : Option κ}
    (hc : card < s.db.nextCardId) : (s.claimValue i card attr v k).Given := by
  have hput : (s.putValue i card attr v false).Given := h.putValue hc
  cases k with
  | none => exact hput
  | some k => exact ⟨hput.committed,hput.own,hput.shared⟩

omit [DecidableEq ι] in
theorem State.Given.share (h : s.Given) (hc : card < s.db.nextCardId) : (s.share i card).Given := by
  refine ⟨h.committed,h.own,fun x hx => ?_⟩
  by_cases hxc : x=card
  · exact hxc ▸ hc
  · refine h.shared x ?_
    simpa [State.share,hxc] using hx

theorem State.Given.mark {t : State ι κ} {deleted : Bool} (h : s.Given)
    (hmark : s.mark i card deleted=some t) : t.Given := by
  obtain ⟨c,hc,hput⟩ := Option.bind_eq_some_iff.mp hmark
  split at hput
  · cases hput
    have hbelow := h.card_below hc
    rw [← card_id hc] at hbelow
    exact State.Given.putCard (c := { c with deleted }) h hbelow
  · cases hput

theorem State.Given.close (h : s.Given) {db : Db} (hdb : Rows s.db.nextCardId db.cards db.values)
    (hnext : db.nextCardId=s.db.nextCardId) : (s.close i db).Given := by
  refine ⟨?_,fun j => ?_,fun x hx => ?_⟩
  · change Rows db.nextCardId db.cards db.values
    rwa [hnext]
  · change Rows db.nextCardId (Function.update s.tx i .empty j).cards
      (Function.update s.tx i .empty j).values
    rw [hnext]
    by_cases hj : j=i
    · subst hj
      rw [Function.update_self]
      exact ⟨by simp [Tx.empty],by simp [Tx.empty],by simp [Tx.empty]⟩
    · rw [Function.update_of_ne hj]
      exact h.own j
  · change x < db.nextCardId
    rw [hnext]
    refine h.shared x fun hnil => hx ?_
    simp [State.close,hnil]

end Rows

end Kitp.Transactions
