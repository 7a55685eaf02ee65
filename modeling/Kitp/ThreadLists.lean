import Kitp.CommFiling

/-! A thread's parent and the tasks' lists of threads: what the writers of each leave of the
other, and what `comm.create`, filing and `comm.attach` make of both. -/
namespace Kitp.ThreadLists
open Kitp.Store Kitp.Attributes Kitp.CommLists Kitp.CommThreads Kitp.Steps

/-- The elements of a card's `comms` list, and the cards they name. -/
def threads (db : Db) (task : Int) : List Json := elems (stored db task "comms")

def listed (db : Db) (task comm : Int) : Nat := ((threads db task).filterMap refId).count comm

def Live (db : Db) (typeName : String) (id : Int) : Prop := (typed db id).any (·.2=typeName)=true

/-- A live thread is on a live task's list once when the task is its parent, else not. -/
def Agree (db : Db) (task comm : Int) : Prop :=
  Live db "task" task → Live db "comm" comm →
    listed db task comm=if db.parent comm=some task then 1 else 0

def InStep (db : Db) : Prop := ∀ task comm, Agree db task comm

/-- The keys of the tables, their references, and lists of numbers that cards have. -/
structure Sound (db : Db) : Prop where
  ids : ∀ d∈db.attributeDefs, db.attributeDef d.id=some d
  comms : ∃ d, db.attributeNamed "comms"=some d∧d.valueType=.cardRefs
  types : ∀ t∈db.cardTypes, db.cardType t.id=some t
  seeded : ∀ name, name="task"∨name="comm" → (db.cardTypes.find? (·.name=name)).isSome
  keyed : ∀ c∈db.cards, db.card c.id=some c
  fresh : ∀ x, (db.card x).isSome → x<db.nextCardId
  parents : ∀ x p, db.parent x=some p → (db.card p).isSome
  numbers : ∀ x, ∃ ids : List Int, threads db x=ids.map .ofInt∧∀ i∈ids, i<db.nextCardId
  owned : ∀ x, db.nextCardId ≤ x → threads db x=[]

/-- The cards of the first state are in the second as they were, with their lists, and new
ones may be beside them. -/
structure Beside (db db' : Db) : Prop where
  attributeDefs : db'.attributeDefs=db.attributeDefs
  cardTypes : db'.cardTypes=db.cardTypes
  next : db.nextCardId ≤ db'.nextCardId
  old : ∀ x c, db.card x=some c → db'.card x=some c
  new : ∀ x c, db.card x=none → db'.card x=some c → db.nextCardId ≤ x∧x<db'.nextCardId∧
    ∀ p, c.parentCardId=some p → (db'.card p).isSome
  keyed : (∀ c∈db.cards, db.card c.id=some c) → ∀ c∈db'.cards, db'.card c.id=some c
  lists : ∀ x, threads db' x=threads db x

/-- None of the new cards is a thread. -/
structure Apart (db db' : Db) : Prop extends Beside db db' where
  noThread : ∀ x c, db.card x=none → db'.card x=some c → db'.cardTypeName c≠some "comm"

variable {db db' db'' : Db} {actor x y : Int} {n : String}

theorem Beside.refl (db : Db) : Beside db db where
  attributeDefs := rfl
  cardTypes := rfl
  next := Int.le_refl _
  old _ _ hc := hc
  new x c hn hs := by
    rw [hn] at hs
    cases hs
  keyed hk := hk
  lists _ := rfl

theorem Beside.typeName (h : Beside db db') : db'.cardTypeName=db.cardTypeName := by
  funext c
  simp only [Db.cardTypeName,Db.cardType,h.cardTypes]

theorem Beside.trans (h : Beside db db') (k : Beside db' db'') : Beside db db'' where
  attributeDefs := k.attributeDefs.trans h.attributeDefs
  cardTypes := k.cardTypes.trans h.cardTypes
  next := Int.le_trans h.next k.next
  old x c hc := k.old x c (h.old x c hc)
  new x c hn hs := by
    cases hm : db'.card x with
    | none =>
      obtain ⟨hle,hlt,hparent⟩ := k.new x c hm hs
      have := h.next
      exact ⟨by omega,hlt,hparent⟩
    | some e =>
      have hce : c=e := Option.some.inj (hs.symm.trans (k.old x e hm))
      obtain ⟨hle,hlt,hparent⟩ := h.new x e hn hm
      have := k.next
      subst hce
      refine ⟨hle,by omega,fun p hp => ?_⟩
      obtain ⟨r,hr⟩ := Option.isSome_iff_exists.mp (hparent p hp)
      simp [k.old p r hr]
  keyed hk := k.keyed (h.keyed hk)
  lists x := (k.lists x).trans (h.lists x)

theorem Apart.refl (db : Db) : Apart db db where
  toBeside := .refl db
  noThread x c hn hs := by
    rw [hn] at hs
    cases hs

theorem Apart.trans (h : Apart db db') (k : Apart db' db'') : Apart db db'' where
  toBeside := h.toBeside.trans k.toBeside
  noThread x c hn hs := by
    cases hm : db'.card x with
    | none => exact k.noThread x c hm hs
    | some e =>
      have hce : c=e := Option.some.inj (hs.symm.trans (k.old x e hm))
      rw [k.typeName,hce]
      exact h.noThread x e hn hm

/-- Values of other attributes. -/
theorem Apart.of_same (h : SameCards db db') (hl : ∀ x, threads db' x=threads db x) :
    Apart db db' where
  attributeDefs := h.attributeDefs
  cardTypes := h.cardTypes
  next := by rw [h.nextCardId]
  old x c hc := by rwa [h.card]
  new x c hn hs := by
    rw [h.card,hn] at hs
    cases hs
  keyed hk := by simpa only [h.cards,h.card] using hk
  lists := hl
  noThread x c hn hs := by
    rw [h.card,hn] at hs
    cases hs

theorem attributeNamed_mem {e : AttributeDef} (h : db.attributeNamed n=some e) :
    e∈db.attributeDefs∧e.name=n := by
  have hname := List.find?_some h
  exact ⟨List.mem_of_find?_eq_some h,by simpa using hname⟩

theorem stored_congr (hd : db'.attributeDefs=db.attributeDefs) {x : Int} {n : String}
    (hv : ∀ d, db.attributeNamed n=some d → db'.value x d.id=db.value x d.id) :
    stored db' x n=stored db x n := by
  have hnamed : db'.attributeNamed n=db.attributeNamed n := by simp only [Db.attributeNamed,hd]
  unfold stored
  rw [hnamed]
  cases hn : db.attributeNamed n with
  | none => rfl
  | some d => exact hv d hn

/-- Two attributes have two ids. -/
theorem Sound.id_ne (h : Sound db) {d e : AttributeDef} (hd : db.attributeNamed n=some d)
    {m : String} (he : db.attributeNamed m=some e) (hne : n≠m) : d.id≠e.id := by
  intro heq
  obtain ⟨hdmem,hdn⟩ := attributeNamed_mem hd
  obtain ⟨hemem,hem⟩ := attributeNamed_mem he
  have hde : d=e := Option.some.inj ((h.ids d hdmem).symm.trans (heq ▸ h.ids e hemem))
  exact hne (hdn.symm.trans (hde ▸ hem))

theorem live_iff {typeName : String} :
    Live db typeName x↔∃ c, db.card x=some c∧c.deleted=false∧db.cardTypeName c=some typeName := by
  unfold Live typed
  cases hx : db.card x with
  | none => simp
  | some c =>
    cases hd : c.deleted with
    | true => simp [hd,Option.filter_some]
    | false =>
      cases ht : db.cardTypeName c with
      | none => simp [hd,ht,Option.filter_some]
      | some t => simp [hd,ht,Option.filter_some]

theorem Beside.live_old (h : Beside db db') {typeName : String} (hx : (db.card x).isSome) :
    Live db' typeName x↔Live db typeName x := by
  obtain ⟨c,hc⟩ := Option.isSome_iff_exists.mp hx
  simp only [live_iff,h.old x c hc,hc,h.typeName]

theorem Sound.beside (hs : Sound db) (h : Beside db db') : Sound db' where
  ids := by
    have hdef : db'.attributeDef=db.attributeDef := by
      funext i
      simp only [Db.attributeDef,h.attributeDefs]
    simpa only [h.attributeDefs,hdef] using hs.ids
  comms := by
    simpa only [Db.attributeNamed,h.attributeDefs] using hs.comms
  types := by
    simpa only [Db.cardType,h.cardTypes] using hs.types
  seeded := by simpa only [h.cardTypes] using hs.seeded
  keyed := h.keyed hs.keyed
  fresh x hx := by
    obtain ⟨c,hc⟩ := Option.isSome_iff_exists.mp hx
    cases ho : db.card x with
    | none => exact (h.new x c ho hc).2.1
    | some e =>
      have := hs.fresh x (by simp [ho])
      have := h.next
      omega
  parents x p hp := by
    obtain ⟨c,hc,hcp⟩ := Option.bind_eq_some_iff.mp hp
    cases ho : db.card x with
    | none => exact (h.new x c ho hc).2.2 p hcp
    | some e =>
      have hce : c=e := Option.some.inj (hc.symm.trans (h.old x e ho))
      have hpar : db.parent x=some p := by simp [Db.parent,ho,← hce,hcp]
      obtain ⟨r,hr⟩ := Option.isSome_iff_exists.mp (hs.parents x p hpar)
      simp [h.old p r hr]
  numbers x := by
    obtain ⟨ids,hids,hlt⟩ := hs.numbers x
    have := h.next
    exact ⟨ids,(h.lists x).trans hids,fun i hi => by have := hlt i hi; omega⟩
  owned x hx := by
    have := h.next
    rw [h.lists]
    exact hs.owned x (by omega)

theorem Sound.card_none (hs : Sound db) (hx : db.nextCardId ≤ x) : db.card x=none := by
  cases hc : db.card x with
  | none => rfl
  | some c =>
    have := hs.fresh x (by simp [hc])
    omega

theorem listed_beside (h : Beside db db') (x y : Int) : listed db' x y=listed db x y := by
  simp only [listed,h.lists]

theorem parent_beside (h : Beside db db') (hy : (db.card y).isSome) :
    db'.parent y=db.parent y := by
  obtain ⟨c,hc⟩ := Option.isSome_iff_exists.mp hy
  simp [Db.parent,hc,h.old y c hc]

/-- What is beside a thread and the lists leaves each pair as it was. -/
theorem Agree.beside (hs : Sound db) (h : Beside db db') {task comm : Int}
    (hold : (db.card comm).isSome) (ha : Agree db task comm) : Agree db' task comm := by
  intro ht hc
  rw [listed_beside h,parent_beside h hold]
  by_cases htask : (db.card task).isSome
  · exact ha ((h.live_old htask).mp ht) ((h.live_old hold).mp hc)
  · -- a new task has no list, and no old card is under it
    have hnone : db.card task=none := by simpa using htask
    obtain ⟨r,hr,-,-⟩ := live_iff.mp ht
    have hnew := (h.new task r hnone hr).1
    have hparent : db.parent comm≠some task := fun hp => htask (hs.parents comm task hp)
    simp [listed,hs.owned task hnew,hparent]

theorem Apart.old_thread (h : Apart db db') {comm : Int} (hc : Live db' "comm" comm) :
    (db.card comm).isSome := by
  obtain ⟨c,hcard,-,htype⟩ := live_iff.mp hc
  cases ho : db.card comm with
  | none => exact absurd htype (h.noThread comm c ho hcard)
  | some e => rfl

theorem Agree.apart (hs : Sound db) (h : Apart db db') {task comm : Int} (ha : Agree db task comm) :
    Agree db' task comm :=
  fun ht hc => ha.beside hs h.toBeside (h.old_thread hc) ht hc

theorem InStep.apart (hi : InStep db) (hs : Sound db) (h : Apart db db') : InStep db' :=
  fun task comm => (hi task comm).apart hs h

/-- A thread that has its parent and is on no live task's list yet. -/
structure Pending (db : Db) (comm parent : Int) : Prop where
  parent : db.parent comm=some parent
  unlisted : ∀ task, Live db "task" task → listed db task comm=0
  others : ∀ task c, c≠comm → Agree db task c

theorem Pending.apart {comm p : Int} (hp : Pending db comm p) (hs : Sound db) (h : Apart db db') :
    Pending db' comm p := by
  have hold : (db.card comm).isSome := by
    obtain ⟨c,hc,-⟩ := Option.bind_eq_some_iff.mp hp.parent
    simp [hc]
  refine ⟨(parent_beside h.toBeside hold).trans hp.parent,fun task ht => ?_,fun task c hne =>
    (hp.others task c hne).apart hs h⟩
  rw [listed_beside h.toBeside]
  by_cases htask : (db.card task).isSome
  · exact hp.unlisted task ((h.live_old htask).mp ht)
  · have hnone : db.card task=none := by simpa using htask
    obtain ⟨r,hr,-,-⟩ := live_iff.mp ht
    simp [listed,hs.owned task (h.new task r hnone hr).1]

/-- A thread under no live task is on no list. -/
theorem Pending.bare {comm p : Int} (h : Pending db comm p) (hp : ¬Live db "task" p) :
    InStep db := by
  intro task c ht hc
  by_cases hcomm : c=comm
  · subst hcomm
    have hne : p≠task := fun heq => hp (heq ▸ ht)
    simp [h.unlisted task ht,h.parent,hne]
  · exact h.others task c hcomm ht hc

theorem refIds_numbers (ids : List Int) : (ids.map Json.ofInt).filterMap refId=ids := by
  induction ids with
  | nil => rfl
  | cons i ids ih =>
    have hi : refId (Json.ofInt i)=some i := Json.Number.whole_ofInt i
    rw [List.map_cons,List.filterMap_cons_some hi,ih]

theorem listed_numbers {task : Int} {ids : List Int} (h : threads db task=ids.map Json.ofInt)
    (comm : Int) : listed db task comm=ids.count comm := by
  rw [listed,h,refIds_numbers]

/-- A list is written, and the others stay. -/
theorem threads_write {d : AttributeDef} (hd : db.attributeNamed "comms"=some d) (task : Int)
    (old : Option Json) (v : Json) (x : Int) :
    threads (writeValue db actor task d.id old v) x=if x=task then elems (some v) else threads db x := by
  have hnamed : (writeValue db actor task d.id old v).attributeNamed "comms"=some d := hd
  simp only [threads,stored,hnamed,hd,Option.bind_some]
  split
  · rename_i hx
    subst hx
    rw [writeValue_self]
  · rename_i hx
    rw [writeValue_ne db actor fun h => hx h.1]

theorem Sound.write (hs : Sound db) {d : AttributeDef} (hd : db.attributeNamed "comms"=some d)
    {task : Int} (ht : (db.card task).isSome) (old : Option Json) {ids : List Int}
    (hids : ∀ i∈ids, i<db.nextCardId) :
    Sound (writeValue db actor task d.id old (CommLists.numbers ids)) := by
  have hlt := hs.fresh task ht
  refine ⟨hs.ids,hs.comms,hs.types,hs.seeded,hs.keyed,hs.fresh,hs.parents,fun x => ?_,fun x hx => ?_⟩
  · rw [threads_write hd]
    split
    · exact ⟨ids,rfl,hids⟩
    · exact hs.numbers x
  · have hne : x≠task := by
      have : db.nextCardId ≤ x := hx
      omega
    rw [threads_write hd,if_neg hne]
    exact hs.owned x hx

/-- The thread goes onto its task's list. -/
theorem Pending.write {d : AttributeDef} (hd : db.attributeNamed "comms"=some d) {comm task : Int}
    (h : Pending db comm task) (old : Option Json) {ids : List Int} (hone : ids.count comm=1)
    (hothers : ∀ c, c≠comm → ids.count c=listed db task c) :
    InStep (writeValue db actor task d.id old (numbers ids)) := by
  have hwritten : threads (writeValue db actor task d.id old (numbers ids)) task=ids.map .ofInt := by
    rw [threads_write hd,if_pos rfl]
    rfl
  have hstays {x : Int} (hx : x≠task) (c : Int) :
      listed (writeValue db actor task d.id old (numbers ids)) x c=listed db x c := by
    rw [listed,listed,threads_write hd,if_neg hx]
  intro t c ht hc
  have hparent : (writeValue db actor task d.id old (numbers ids)).parent c=db.parent c := rfl
  rw [hparent]
  by_cases hcomm : c=comm
  · subst hcomm
    rw [h.parent]
    by_cases htask : t=task
    · rw [htask,listed_numbers hwritten,hone,if_pos rfl]
    · rw [hstays htask,h.unlisted t ht,if_neg fun heq => htask (Option.some.inj heq).symm]
  · have ha := h.others t c hcomm ht hc
    by_cases htask : t=task
    · subst htask
      rw [listed_numbers hwritten,hothers c hcomm]
      exact ha
    · rw [hstays htask]
      exact ha

section Writers

theorem setValue_apart (h : Sound db) {d : AttributeDef} (hd : db.attributeNamed n=some d)
    (hn : n≠"comms") (card : Int) (v : Json) : Apart db (db.setValue card d.id v) := by
  refine .of_same ⟨rfl,rfl,rfl,rfl,rfl⟩ fun x => ?_
  have hdefs : (db.setValue card d.id v).attributeDefs=db.attributeDefs := rfl
  have hstored : stored (db.setValue card d.id v) x "comms"=stored db x "comms" :=
    stored_congr hdefs fun e he => setValue_ne (fun heq => h.id_ne hd he hn heq.2.symm) db v
  rw [threads,hstored,threads]

theorem Apart.log (h : Apart db db') (a : Activity) : Apart db (db'.log a) :=
  ⟨⟨h.attributeDefs,h.cardTypes,h.next,h.old,h.new,h.keyed,h.lists⟩,h.noThread⟩

theorem writeValue_apart (h : Sound db) {d : AttributeDef} (hd : db.attributeNamed n=some d)
    (hn : n≠"comms") (card : Int) (old : Option Json) (v : Json) :
    Apart db (writeValue db actor card d.id old v) :=
  (setValue_apart h hd hn card v).log _

theorem put_apart (h : Sound db) (hn : n≠"comms") (card : Int) (v : Json) :
    Apart db (put db actor card n v) := by
  unfold put
  cases hd : db.attributeNamed n with
  | none => exact .refl db
  | some d => exact writeValue_apart h hd hn card none v

/-- What comes after is done to a sound state. -/
theorem Apart.andThen (h : Apart db db') (hs : Sound db) (k : Sound db' → Apart db' db'') :
    Apart db db'' := h.trans (k (hs.beside h.toBeside))

theorem foldl_apart {α : Type} {f : Db → α → Db} {xs : List α} (h : Sound db)
    (hf : ∀ db', Sound db' → ∀ a∈xs, Apart db' (f db' a)) : Apart db (xs.foldl f db) :=
  foldl_inv (I := Apart db) (.refl db) fun db' hdb' a ha => hdb'.andThen h fun hs => hf db' hs a ha

theorem puts_apart (h : Sound db) {writes : List (String×Json)} (hw : ∀ w∈writes, w.1≠"comms")
    (card : Int) : Apart db (puts db actor card writes) :=
  foldl_apart h fun _ hs w hmem => put_apart hs (hw w hmem) card w.2

theorem peopleEdit_apart (h : Sound db) (hn : n≠"comms") (card : Int) (add drop : List Int) :
    Apart db (peopleEdit db card n add drop) := by
  unfold peopleEdit
  split
  · exact .refl db
  · cases hd : db.attributeNamed n with
    | none => exact .refl db
    | some d => exact setValue_apart h hd hn card _

theorem confirm_apart (h : Sound db) (card : Int) (people : List Int) :
    Apart db (confirm db card people) := by
  unfold confirm
  split
  · exact .refl db
  · exact (peopleEdit_apart h (by simp) card people []).andThen h fun hs =>
      peopleEdit_apart hs (by simp) card [] people

theorem appendReplies_apart (h : Sound db) (card id : Int) :
    Apart db (appendCardRefList db actor card "replies" id) := put_apart h (by simp) card _

theorem authorJoin_apart (h : Sound db) (dir : Accounts.Directory) (card author : Int) :
    Apart db (authorJoin dir db card author) := by
  unfold authorJoin
  split
  · exact .refl db
  · exact put_apart h (by simp) card _

theorem mergeCommRecipients_apart (h : Sound db) (card : Int) (add : List Int) :
    Apart db (mergeCommRecipients db actor card add) := by
  unfold mergeCommRecipients
  split
  · exact .refl db
  · exact put_apart h (by simp) card _

/-- A new card has no list, and is on none. -/
theorem addCard_beside (h : Sound db) {c : Card} (hid : c.id=db.nextCardId)
    (hp : ∀ p, c.parentCardId=some p → (db.card p).isSome) : Beside db (db.addCard c) where
  attributeDefs := rfl
  cardTypes := rfl
  next := by
    change db.nextCardId ≤ db.nextCardId+1
    omega
  old x e he := by simp [addCard_card,he]
  new x e hn he := by
    rw [addCard_card,hn,Option.none_or] at he
    split at he
    · rename_i hx
      cases he
      refine ⟨by omega,by change x<db.nextCardId+1; omega,fun p hparent => ?_⟩
      obtain ⟨r,hr⟩ := Option.isSome_iff_exists.mp (hp p hparent)
      simp [addCard_card,hr]
    · cases he
  keyed hk e he := by
    cases List.mem_append.mp he with
    | inl he => simp [addCard_card,hk e he]
    | inr he =>
      cases List.mem_singleton.mp he
      simp [addCard_card,hid,h.card_none (Int.le_refl _)]
  lists _ := rfl

theorem addCard_apart (h : Sound db) {c : Card} (hid : c.id=db.nextCardId)
    (hp : ∀ p, c.parentCardId=some p → (db.card p).isSome) (ht : db.cardTypeName c≠some "comm") :
    Apart db (db.addCard c) := by
  refine ⟨addCard_beside h hid hp,fun x e hn he => ?_⟩
  rw [addCard_card,hn,Option.none_or] at he
  split at he
  · cases he
    exact ht
  · cases he

theorem cardType_of_seeded (h : Sound db) {typeName : String} {t : CardType}
    (ht : db.cardTypes.find? (·.name=typeName)=some t) {c : Card} (hc : c.cardTypeId=t.id) :
    db.cardTypeName c=some typeName := by
  have hname : t.name=typeName := by simpa using List.find?_some ht
  rw [Db.cardTypeName,hc,h.types t (List.mem_of_find?_eq_some ht),Option.map_some,hname]

theorem addTyped_apart (h : Sound db) {typeName : String} (hn : typeName≠"comm")
    {parent : Option Int} (hp : ∀ p, parent=some p → (db.card p).isSome) :
    Apart db (addTyped db actor typeName parent) := by
  unfold addTyped
  split
  · exact .refl db
  · rename_i t ht
    refine (addCard_apart h rfl hp ?_).log _
    rw [cardType_of_seeded h ht rfl]
    simpa using hn

theorem addThread_beside (h : Sound db) {p : Int} (hp : (db.card p).isSome) :
    Beside db (addTyped db actor "comm" (some p)) := by
  unfold addTyped
  split
  · exact .refl db
  · rename_i t _
    have hadd : Beside db (db.addCard ⟨db.nextCardId,t.id,some p,none,false,.triage⟩) :=
      addCard_beside h rfl fun q hq => by cases hq; exact hp
    exact ⟨rfl,rfl,hadd.next,hadd.old,hadd.new,hadd.keyed,hadd.lists⟩

/-- A new thread, before a list has it. -/
theorem addThread_pending (h : Sound db) (hi : InStep db) {p : Int} (hp : (db.card p).isSome) :
    Pending (addTyped db actor "comm" (some p)) db.nextCardId p := by
  obtain ⟨t,ht⟩ := Option.isSome_iff_exists.mp (h.seeded "comm" (.inr rfl))
  have hbeside : Beside db (addTyped db actor "comm" (some p)) := addThread_beside h hp
  have hcard (x : Int) : (addTyped db actor "comm" (some p)).card x=(db.card x).or
      (if db.nextCardId=x then some ⟨db.nextCardId,t.id,some p,none,false,.triage⟩ else none) := by
    simp only [addTyped,ht]
    exact addCard_card db _ x
  refine ⟨?_,fun task _ => ?_,fun task c hne => ?_⟩
  · simp [Db.parent,hcard,h.card_none (Int.le_refl _)]
  · rw [listed_beside hbeside]
    obtain ⟨ids,hids,hlt⟩ := h.numbers task
    rw [listed_numbers hids,List.count_eq_zero]
    intro hmem
    have := hlt _ hmem
    omega
  · intro hlive hc
    have hold : (db.card c).isSome := by
      obtain ⟨e,he,-⟩ := live_iff.mp hc
      rw [hcard,if_neg (Ne.symm hne),Option.or_none] at he
      simp [he]
    exact (hi task c).beside h hbeside hold hlive hc

end Writers

end Kitp.ThreadLists
