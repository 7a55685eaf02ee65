import Kitp.CardDelete
import Kitp.CardInsert
import Kitp.ScreenNames

/-! The functions of the rows as transactions, and the names of a project's screens over every
run of them. -/
namespace Kitp.ScreenNames
open Kitp.Store Kitp.Attributes Kitp.Transactions Kitp.Runs

variable {ι : Type} [DecidableEq ι]

/-- Two states of the tables with the same cards, slugs and hotkeys. -/
structure Agree (db db' : Db) : Prop where
  cards : db'.card=db.card
  cardTypes : db'.cardTypes=db.cardTypes
  attributeDefs : db'.attributeDefs=db.attributeDefs
  texts : ∀ id name, name="slug"∨name="hotkey" → textOf db' id name=textOf db id name

variable {s t : State ι Key} {i : ι} {db db' db'' : Db} {c : Card} {acc : Access} {actor : Int}

theorem Agree.log (h : Agree db db') (a : Activity) : Agree db (db'.log a) :=
  ⟨h.cards,h.cardTypes,h.attributeDefs,h.texts⟩

theorem Agree.namesDiffer (h : Agree db db') (hn : NamesDiffer db) : NamesDiffer db' := by
  have hscreen (id p : Int) : ScreenOf db' id p↔ScreenOf db id p := by
    simp only [ScreenOf,h.cards,Db.cardTypeName,Db.cardType,h.cardTypes]
  intro a b p hne ha hb
  rw [hscreen] at ha hb
  rw [h.texts a _ (.inl rfl),h.texts b _ (.inl rfl),h.texts a _ (.inr rfl),h.texts b _ (.inr rfl)]
  exact hn a b p hne ha hb

/-- A call that writes one row is a transaction that does. -/
theorem put_run {x : Int} (f : Card → Card) {e : Event ι} (hc : db.card x=some c)
    (hf : ∀ c, (f c).id=c.id)
    (hstep : step (State.start db) e=some ((State.start db).putCard i (f c) true))
    (hcards : ∀ y, db'.card y=(db.card y).map fun d => if y=x then f d else d)
    (ht : db'.cardTypes=db.cardTypes) (hd : db'.attributeDefs=db.attributeDefs)
    (htext : ∀ id name, name="slug"∨name="hotkey" → textOf db' id name=textOf db id name) :
    ∃ s, Run step (fun _ _ => True) (State.start db : State ι Key) [e,.commit i] s∧
      Agree s.db db' := by
  refine ⟨_,.cons trivial hstep (.cons trivial rfl (.nil _)),?_,ht,hd,fun id name hname => ?_⟩
  · funext y
    refine (hcards y).trans (Eq.symm ((view_putCard _ i (f c) true y).trans ?_))
    rw [hf,card_id hc,view_start]
    by_cases hy : y=x
    · simp [hy,hc]
    · simp [hy]
  · have hvalue := view_putCard_value (State.start db : State ι Key) i (f c) true
    rw [view_start] at hvalue
    rw [htext id name hname]
    simp only [textOf,State.close,hvalue]
    rfl

theorem delete_run {cardId : Option Int} (h : CardDelete.delete acc db actor cardId=.ok db')
    (i : ι) : ∃ id s, cardId=some id∧
      Run step (fun _ _ => True) (State.start db : State ι Key) [.delete i id,.commit i] s∧
      Agree s.db db' := by
  obtain ⟨id,rfl,hlive,rfl⟩ := CardDelete.delete_ok h
  obtain ⟨c,hc,hdel⟩ := (Option.any_eq_true _ _).mp hlive
  have hdel : c.deleted=false := by simpa using hdel
  have hstep : step (State.start db : State ι Key) (.delete i id)=
      some ((State.start db).putCard i { c with deleted := true } true) := by
    simp only [step,view_start,hc,Option.bind_some,mayWrite_start,hdel]
    rfl
  obtain ⟨s,hrun,hs⟩ := put_run (fun c => { c with deleted := true }) hc (fun _ => rfl) hstep
    (CardDelete.setDeleted_card db id true) rfl rfl fun _ _ _ => rfl
  exact ⟨id,s,rfl,hrun,hs.log _⟩

theorem move_run {input : CardMove.Input} (h : CardMove.move acc actor db input=.ok db') (i : ι) :
    ∃ m s, CardMove.validate input=.ok m∧
      Run step (fun _ _ => True) (State.start db : State ι Key) [.move i m,.commit i] s∧
      Agree s.db db' := by
  obtain ⟨m,c,-,hm,hc,-,-,-,-,-,-,a,rfl⟩ := CardMove.move_ok h
  have hstep : step (State.start db : State ι Key) (.move i m)=
      some ((State.start db).putCard i { c with parentCardId := some m.newParent } true) := by
    simp only [step,view_start,hc,Option.bind_some,mayWrite_start]
    rfl
  have hcards (y : Int) := setParent_card db (· = m.cardId) m.newParent y
  simp only [decide_eq_true_eq] at hcards
  obtain ⟨s,hrun,hs⟩ := put_run (fun c => { c with parentCardId := some m.newParent }) hc
    (fun _ => rfl) hstep hcards rfl rfl fun _ _ _ => rfl
  exact ⟨m,s,hm,hrun,hs.log a⟩

/-- What a card that comes back has lost is no slug and no hotkey. -/
theorem rejoin_text (hk : Keyed db) {id : Int} {joined : Db}
    (h : CardDelete.rejoin db actor id=.ok joined) (x : Int) {name : String}
    (hname : name="slug"∨name="hotkey") : textOf joined x name=textOf db x name := by
  have hunlink : textOf (TaskMove.unlink db actor [id]) x name=textOf db x name := by
    have hdrop := value_dropValues db fun c d =>
      c∈[id]∧d∈(TaskMove.defsNamed db ["parent_task","parent_relationship"]).map (·.id)
    have hattr : (TaskMove.unlink db actor [id]).attributeNamed name=db.attributeNamed name := rfl
    unfold textOf
    rw [hattr]
    cases hd : db.attributeNamed name with
    | none => rfl
    | some d =>
      have hother : d.id∉(TaskMove.defsNamed db ["parent_task","parent_relationship"]).map (·.id) := by
        intro hmem
        obtain ⟨e,he,hid⟩ := List.mem_map.mp hmem
        obtain ⟨link,hlink,he⟩ := List.mem_filterMap.mp he
        have hde : d=e := by
          have hself := hk.ids d (List.mem_of_find?_eq_some hd)
          have hself' := hk.ids e (List.mem_of_find?_eq_some he)
          rw [hid] at hself'
          exact Option.some.inj (hself.symm.trans hself')
        have hdname : d.name=name := by simpa using List.find?_some hd
        have hename : e.name=link := by simpa using List.find?_some he
        rw [← hde,hdname] at hename
        subst hename
        rcases hname with rfl | rfl <;> simp at hlink
      have hkept := hdrop x d.id
      rw [if_neg (by simp only [decide_eq_true_eq]; exact fun h => hother h.2)] at hkept
      rw [Option.bind_some,Option.bind_some,← hkept]
      rfl
  rcases CardDelete.rejoin_ok h with ⟨-,rfl⟩ | ⟨project,-,rfl⟩
  · rfl
  · split
    · exact hunlink
    · rfl

theorem undelete_run (hk : Keyed db) {cardId : Option Int}
    (h : CardDelete.undelete acc db actor cardId=.ok db') (i : ι) : ∃ id s, cardId=some id∧
      Run step (fun _ _ => True) (State.start db : State ι Key) [.undelete i id,.commit i] s∧
      Agree s.db db' := by
  obtain ⟨id,c,joined,rfl,hc,hdel,hjoined,rfl⟩ := CardDelete.undelete_ok h
  have hstep : step (State.start db : State ι Key) (.undelete i id)=
      some ((State.start db).putCard i { c with deleted := false } true) := by
    simp only [step,view_start,hc,Option.bind_some,mayWrite_start,hdel]
    rfl
  have hsame : joined.cards=db.cards∧joined.cardTypes=db.cardTypes∧
      joined.attributeDefs=db.attributeDefs := by
    rcases CardDelete.rejoin_ok hjoined with ⟨-,rfl⟩ | ⟨project,-,rfl⟩
    · exact ⟨rfl,rfl,rfl⟩
    · split <;> exact ⟨rfl,rfl,rfl⟩
  have hcard : joined.card=db.card := by
    funext y
    simp only [Db.card,hsame.1]
  have hcards (y : Int) := CardDelete.setDeleted_card joined id false y
  rw [hcard] at hcards
  obtain ⟨s,hrun,hs⟩ := put_run (fun c => { c with deleted := false }) hc (fun _ => rfl) hstep
    hcards hsame.2.1 hsame.2.2 fun x name hname => rejoin_text hk hjoined x hname
  exact ⟨id,s,rfl,hrun,hs.log _⟩

theorem update_run {dir : Accounts.Directory} {pick : List FlowStep → Option FlowStep}
    {input : AttributeUpdate.Input} (h : AttributeUpdate.update acc dir pick db actor input=.ok db')
    (i : ι) : ∃ card name norm s, Run step (fun _ _ => True) (State.start db : State ι Key)
      [.share i card,.update i card name norm,.commit i] s∧Agree s.db db' := by
  obtain ⟨w,hw,rfl⟩ := AttributeUpdate.update_ok h
  obtain ⟨⟨c,hc⟩,hattr,hcheck⟩ := AttributeUpdate.prepare_screen hw
  have hshare : step (State.start db : State ι Key) (.share i w.cardId)=
      some ((State.start db).share i w.cardId) := by
    simp only [step,view_start,hc,mayShare_start]
    rfl
  have hmay : (lockOf db w.cardId w.attr w.norm).all
      (((State.start db : State ι Key).share i w.cardId).mayHold i)=true := by
    cases lockOf db w.cardId w.attr w.norm <;> rfl
  have hupdate : step ((State.start db : State ι Key).share i w.cardId)
      (.update i w.cardId w.attr.name w.norm)=some (((State.start db).share i w.cardId).claimValue i
        w.cardId w.attr.id w.norm (lockOf db w.cardId w.attr w.norm)) := by
    simp only [step,share_view,view_start,hattr,Option.bind_some,hcheck]
    rw [if_pos ⟨by simp [State.share],hmay,rfl⟩]
  refine ⟨_,_,_,_,.cons trivial hshare (.cons trivial hupdate (.cons trivial rfl (.nil _))),?_⟩
  change Agree ((((State.start db : State ι Key).share i w.cardId).claimValue i w.cardId w.attr.id
    w.norm (lockOf db w.cardId w.attr w.norm)).view i) _
  rw [claimValue_view]
  refine ⟨?_,rfl,rfl,fun id name _ => ?_⟩
  · rw [view_putValue_card,share_view,view_start]
    rfl
  · have hvalue (x a : Int) := view_putValue ((State.start db : State ι Key).share i w.cardId) i
      w.cardId w.attr.id w.norm false x a
    rw [share_view,view_start] at hvalue
    simp only [textOf,hvalue,writeValue_value]
    rfl

/-- Values laid over a new card one way and the other. -/
theorem values_agree (actor : Int) (values : List (Int×Json)) (new : Int) {s : State ι Key}
    (hvalue : (s.view i).value=db.value) :
    let full := values.foldl (fun s v => s.putValue i new v.1 v.2 true) s
    full.db=s.db∧(full.view i).card=(s.view i).card∧
      (full.view i).value=(values.foldl (fun db v => writeValue db actor new v.1 none v.2) db).value := by
  induction values generalizing s db with
  | nil => exact ⟨rfl,rfl,hvalue⟩
  | cons v values ih =>
    have hhead : ((s.putValue i new v.1 v.2 true).view i).value=
        (writeValue db actor new v.1 none v.2).value := by
      funext x a
      rw [view_putValue,writeValue_value,hvalue]
    obtain ⟨hdb,hcard,hrest⟩ := ih hhead
    exact ⟨hdb,hcard.trans (view_putValue_card ..),hrest⟩

/-- The values `card.insert` lays over its card, the assignee last. -/
def insertValues (env : CardInsert.Env) (db : Db) (actor : Int) (input : CardInsert.Input)
    (w : CardInsert.Checked) : List (Int×Json) :=
  (CardInsert.written db w).map (fun a => (a.1.id,a.2))++
    match CardInsert.assignedTo env (CardInsert.write db actor w) actor input,
      (CardInsert.write db actor w).attributeNamed "assignee" with
    | some person,some d => [(d.id,.ofInt person)]
    | _,_ => []

/-- The card of a row that stamps no template, and its values. -/
theorem insert_values {env : CardInsert.Env} {input : CardInsert.Input}
    (h : CardInsert.insert env db actor input=.ok db') (hname : input.cardTypeName≠some "project") :
    ∃ (c : Card) (a : Activity) (values : List (Int×Json)), c.id=db.nextCardId∧c.deleted=false∧
      db'=values.foldl (fun d v => writeValue d actor db.nextCardId v.1 none v.2)
        ((db.addCard c).log a) := by
  obtain ⟨w,stamped,hw,hstamp,rfl⟩ := CardInsert.insert_ok h
  have hstamped : stamped=CardInsert.write db actor w := by
    rcases CardInsert.stamp_ok hstamp with rfl | ⟨template,hproject,-,-⟩
    · rfl
    · rw [CardInsert.prepare_named hw,hproject] at hname
      exact absurd rfl hname
  subst hstamped
  refine ⟨⟨db.nextCardId,w.cardType.id,w.parent,w.privateTo,false,w.phase⟩,
    ⟨db.nextCardId,"card_create",none,none,none,actor⟩,insertValues env db actor input w,rfl,rfl,?_⟩
  rw [insertValues,List.foldl_append,List.foldl_map]
  simp only [CardInsert.assign]
  cases CardInsert.assignedTo env (CardInsert.write db actor w) actor input with
  | none => rfl
  | some person => cases (CardInsert.write db actor w).attributeNamed "assignee" <;> rfl

/-- The state in which the id is given and the card is made. -/
def made (db : Db) (i : ι) (c : Card) : State ι Key :=
  (State.start { db with nextCardId := db.nextCardId+1 }).putCard i c true

theorem insert_step {values : List (Int×Json)} (hid : c.id=db.nextCardId) (hlive : c.deleted=false)
    (i : ι) : step (State.start db : State ι Key) (.insert i c values)=
      some (values.foldl (fun s v => s.putValue i db.nextCardId v.1 v.2 true) (made db i c)) := by
  obtain ⟨id,cardTypeId,parentCardId,privateTo,deleted,phase⟩ := c
  cases hid
  cases hlive
  simp only [step]
  rw [if_pos (mayWrite_start db i _)]
  rfl

theorem insert_run {env : CardInsert.Env} {input : CardInsert.Input}
    (h : CardInsert.insert env db actor input=.ok db') (hname : input.cardTypeName≠some "project")
    (hfresh : db.card db.nextCardId=none) (i : ι) : ∃ c values s,
      Run step (fun _ _ => True) (State.start db : State ι Key) [.insert i c values,.commit i] s∧
      Agree s.db db' := by
  obtain ⟨c,a,values,hid,hlive,rfl⟩ := insert_values h hname
  refine ⟨c,values,_,.cons trivial (insert_step hid hlive i) (.cons trivial rfl (.nil _)),?_⟩
  have hvalue : ((made db i c).view i).value=((db.addCard c).log a).value := by
    refine (view_putCard_value _ i c true).trans ?_
    rw [view_start]
    rfl
  have hcard : ((made db i c).view i).card=((db.addCard c).log a).card := by
    funext x
    refine (view_putCard _ i c true x).trans (Eq.symm ((addCard_card db c x).trans ?_))
    rw [view_start]
    by_cases hx : x=c.id
    · rw [if_pos hx,if_pos hx.symm,hx,hid,hfresh,Option.none_or]
    · rw [if_neg hx,if_neg (Ne.symm hx),Option.or_none]
      rfl
  have hsame : SameCards ((db.addCard c).log a) (values.foldl
      (fun d v => writeValue d actor db.nextCardId v.1 none v.2) ((db.addCard c).log a)) :=
    Steps.foldl_inv (.refl _) fun d hd v _ => hd.trans (writeValue_keeps d actor _ _ _ _)
  obtain ⟨hdb,hcards,hvalues⟩ := values_agree actor values db.nextCardId hvalue
  refine ⟨hsame.card.trans (hcard.symm.trans hcards.symm),?_,?_,fun id name _ => ?_⟩
  · exact hsame.cardTypes.trans (congrArg Db.cardTypes hdb).symm
  · exact hsame.attributeDefs.trans (congrArg Db.attributeDefs hdb).symm
  · have hdefs := hsame.attributeNamed.trans (show _=_ from
      congrArg (fun db => Db.attributeNamed db) hdb).symm
    simp only [textOf,hdefs,← hvalues]
    rfl

/-- A call of one of the functions, with one row, that went through. -/
inductive Call (actor : Int) (db db' : Db) : Prop where
  | delete (acc : Access) (cardId : Option Int) :
      CardDelete.delete acc db actor cardId=.ok db' → Call actor db db'
  | undelete (acc : Access) (cardId : Option Int) :
      CardDelete.undelete acc db actor cardId=.ok db' → Call actor db db'
  | move (acc : Access) (input : CardMove.Input) :
      CardMove.move acc actor db input=.ok db' → Call actor db db'
  | update (acc : Access) (dir : Accounts.Directory) (pick : List FlowStep → Option FlowStep)
      (input : AttributeUpdate.Input) :
      AttributeUpdate.update acc dir pick db actor input=.ok db' → Call actor db db'
  | insert (env : CardInsert.Env) (input : CardInsert.Input) :
      input.cardTypeName≠some "project" → db.card db.nextCardId=none →
      CardInsert.insert env db actor input=.ok db' → Call actor db db'

/-- What such a call leaves of the cards, slugs and hotkeys, a transaction of the runs leaves. -/
theorem call_run (hk : Keyed db) (h : Call actor db db') (i : ι) : ∃ es s,
    Run step (fun _ _ => True) (State.start db : State ι Key) es s∧Agree s.db db' := by
  cases h with
  | delete acc cardId h =>
    obtain ⟨id,s,-,hrun,hs⟩ := delete_run h i
    exact ⟨_,s,hrun,hs⟩
  | undelete acc cardId h =>
    obtain ⟨id,s,-,hrun,hs⟩ := undelete_run hk h i
    exact ⟨_,s,hrun,hs⟩
  | move acc input h =>
    obtain ⟨m,s,-,hrun,hs⟩ := move_run h i
    exact ⟨_,s,hrun,hs⟩
  | update acc dir pick input h =>
    obtain ⟨card,name,norm,s,hrun,hs⟩ := update_run h i
    exact ⟨_,s,hrun,hs⟩
  | insert env input hname hfresh h =>
    obtain ⟨c,values,s,hrun,hs⟩ := insert_run h hname hfresh i
    exact ⟨_,s,hrun,hs⟩

/-- Over such a run no two live screens of a project have one slug, or one hotkey that isn't
blank. -/
theorem names_differ {es : List (Event ι)} (hk : Keyed db) (h : NamesDiffer db)
    (hrun : Run step Tame (State.start db) es s) : NamesDiffer s.db := by
  have hstart : Inv (State.start db : State ι Key) :=
    ⟨hk,start_inv ((namesDiffer_iff hk).mp h)⟩
  have hend : Inv s := hrun.inv Inv (fun _ _ _ hI hok hst => step_inv hI hok hst) hstart
  exact (namesDiffer_iff hend.keyed).mpr hend.keys.unique

section Examples

/-- A project with two screens, the first with a slug. -/
def screens : Db where
  cardTypes := [⟨1,"project",none,false⟩,⟨2,"screen",some 1,false⟩]
  attributeDefs := [⟨1,"slug",.text,none,none⟩,⟨2,"hotkey",.text,none,none⟩]
  cards := [⟨1,1,none,none,false,.triage⟩,⟨2,2,some 1,none,false,.triage⟩,
    ⟨3,2,some 1,none,false,.triage⟩]
  values := [⟨2,1,.str "inbox"⟩]
  nextCardId := 4

/-- The first screen goes, and the second takes its slug. -/
def retaken : List (Event Nat) := [.delete 1 2,.commit 1,.share 2 3,
  .update 2 3 "slug" (.str "inbox"),.commit 2]

theorem screens_keyed : Keyed screens := by
  constructor
  · intro d hd
    rcases List.mem_cons.mp hd with rfl | hd
    · rfl
    · rw [List.mem_singleton.mp hd]
      rfl
  · intro d hd
    rcases List.mem_cons.mp hd with rfl | hd
    · rfl
    · rw [List.mem_singleton.mp hd]
      rfl

theorem screens_differ : NamesDiffer screens := by
  have hslug (x : Int) (s : String) (h : textOf screens x "slug"=some s) : x=2 := by
    by_contra hx
    simp [textOf,screens,Db.attributeNamed,Db.value,Ne.symm hx] at h
  have hhotkey (x : Int) : textOf screens x "hotkey"=none := by
    simp [textOf,screens,Db.attributeNamed,Db.value]
  intro a b p hne _ _
  refine ⟨fun s ha hb => hne ((hslug a s ha).trans (hslug b s hb).symm),fun s _ ha => ?_⟩
  rw [hhotkey a] at ha
  cases ha

/-- The slug of a screen that is gone is free. -/
theorem names_differ_after_retaken : ∃ s, Run step Tame (State.start screens) retaken s∧
    NamesDiffer s.db := by
  have hrun : ∃ s, Run step Tame (State.start screens) retaken s := by
    refine ⟨_,.cons trivial rfl (.cons ?_ rfl (.cons trivial rfl (.cons trivial rfl
      (.cons ?_ rfl (.nil _)))))⟩
    · intro c hc k hk
      obtain ⟨r,a,v,hr,-,hkey⟩ := hk
      have hc : c=2 := List.mem_singleton.mp hc
      subst hc
      cases hr
      exact absurd (screenKey_eq.mp hkey).1 (by decide)
    · intro c hc
      cases hc
  obtain ⟨s,hrun⟩ := hrun
  exact ⟨s,hrun,names_differ screens_keyed screens_differ hrun⟩

def everyone : Access :=
  ⟨fun _ _ => true,fun _ _ _ => true,fun _ _ _ _ _ => true,fun _ _ _ _ => false,
    fun _ _ _ _ => true,fun _ _ ids => ids,fun _ _ _ _ => true,fun _ _ => true⟩

/-- The first screen is deleted. -/
theorem call_run_deleted : ∃ db', CardDelete.delete everyone screens 1 (some 2)=.ok db'∧
    ∃ es s, Run step (fun _ _ => True) (State.start screens : State Nat Key) es s∧
      Agree s.db db' := by
  cases hdel : CardDelete.delete everyone screens 1 (some 2) with
  | error e =>
    have hok : (CardDelete.delete everyone screens 1 (some 2)).toOption.isSome := by decide
    rw [hdel] at hok
    cases hok
  | ok db' => exact ⟨db',rfl,call_run screens_keyed (.delete everyone (some 2) hdel) 1⟩

/-- The screen comes back with the slug it had. -/
theorem names_equal_after_undelete : Keyed screens∧NamesDiffer screens∧
    ∃ s, Run step (fun _ _ => True) (State.start screens)
      (retaken++[Event.undelete 1 2,.commit 1]) s∧¬NamesDiffer s.db := by
  have hend : ((retaken++[Event.undelete 1 2,.commit 1]).foldlM step (State.start screens)).map
      (fun s : State Nat Key => (s.db.card 2,s.db.card 3,s.db.cardTypes,
        textOf s.db 2 "slug",textOf s.db 3 "slug"))=
      some (some ⟨2,2,some 1,none,false,.triage⟩,some ⟨3,2,some 1,none,false,.triage⟩,
        screens.cardTypes,some "inbox",some "inbox") := rfl
  obtain ⟨s,hs,hend⟩ := Option.map_eq_some_iff.mp hend
  simp only [Prod.mk.injEq] at hend
  obtain ⟨hfirst,hsecond,htypes,hone,htwo⟩ := hend
  refine ⟨screens_keyed,screens_differ,s,.of_foldlM hs (by simp),fun hdiffer => ?_⟩
  have hscreen (c : Card) (hc : c.cardTypeId=2) : s.db.cardTypeName c=some "screen" := by
    simp only [Db.cardTypeName,Db.cardType,htypes,hc]
    rfl
  exact (hdiffer 2 3 1 (by decide) ⟨_,hfirst,rfl,hscreen _ rfl,rfl⟩
    ⟨_,hsecond,rfl,hscreen _ rfl,rfl⟩).1 "inbox" hone htwo

end Examples

end Kitp.ScreenNames
