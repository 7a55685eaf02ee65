import Kitp.AttributeEdges
import Kitp.ThreadLists

/-! `comm.create`, filing and `comm.attach`: each leaves the tasks' lists in step with the
threads' parents. -/
namespace Kitp.ThreadLists
open Kitp.Store Kitp.Attributes Kitp.CommLists Kitp.CommThreads Kitp.Steps

variable {db db' db'' : Db} {actor comm task : Int}

theorem canonRef_ofInt (i : Int) : canonRef (.ofInt i)=.ofInt i := rfl

theorem appended_numbers {s : Option Json} {ids : List Int} (h : elems s=ids.map .ofInt) (id : Int) :
    appended s id=numbers (ids++[id]) := by
  simp [appended,numbers,h,Function.comp_def,canonRef_ofInt]

theorem decode_numbers {s : Option Json} {ids : List Int} (h : elems s=ids.map .ofInt) :
    decodeCardRefArray s=ids := by
  rw [decodeCardRefArray,h]
  clear h
  induction ids with
  | nil => rfl
  | cons i ids ih =>
    rw [List.map_cons,List.filterMap_cons,ih]
    simp only [Json.ofInt,Json.Number.whole_ofInt]

theorem appendRef_numbers {s : Option Json} {ids : List Int} (h : elems s=ids.map .ofInt) (id : Int) :
    appendRef s id=numbers (ids++[id]) := by
  rw [appendRef,decode_numbers h]

theorem without_numbers {s : Option Json} {ids : List Int} (h : elems s=ids.map .ofInt) (id : Int) :
    without s id=(ids.filter (· ≠ id)).map .ofInt := by
  have hreads (i : Int) : (!readsAs id (.ofInt i))=decide (i≠id) := by
    simp [readsAs,Json.ofInt,Json.Number.whole_ofInt]
  simp only [without,h,List.filter_map,Function.comp_def,hreads]

theorem Pending.isCard {p : Int} (h : Pending db comm p) : (db.card comm).isSome := by
  obtain ⟨c,hc,-⟩ := Option.bind_eq_some_iff.mp h.parent
  simp [hc]

theorem Live.isCard {name : String} {x : Int} (h : Live db name x) : (db.card x).isSome := by
  obtain ⟨c,hc,-⟩ := live_iff.mp h
  simp [hc]

/-- The thread is put at the end of its task's list. -/
theorem Pending.list (hs : Sound db) (h : Pending db comm task) (ht : Live db "task" task) {v : Json}
    (hv : ∀ ids, threads db task=ids.map .ofInt → v=numbers (ids++[comm])) :
    Sound (put db actor task "comms" v)∧InStep (put db actor task "comms" v) := by
  obtain ⟨d,hd,-⟩ := hs.comms
  obtain ⟨ids,hids,hlt⟩ := hs.numbers task
  have hnew := hs.fresh comm h.isCard
  have hcount (c : Int) : listed db task c=ids.count c := listed_numbers hids c
  rw [put,hd,Option.elim_some,hv ids hids]
  refine ⟨hs.write hd ht.isCard none fun i hi => ?_,h.write hd none ?_ fun c hne => ?_⟩
  · cases List.mem_append.mp hi with
    | inl hi => exact hlt i hi
    | inr hi => exact List.mem_singleton.mp hi ▸ hnew
  · have hnone := h.unlisted task ht
    rw [hcount] at hnone
    simp [List.count_append,hnone]
  · have hother : List.count c [comm]=0 := by simpa [List.count_eq_zero] using hne
    rw [hcount,List.count_append,hother,Nat.add_zero]

theorem map_ok {ε α β : Type} {f : α → β} {x : Except ε α} {b : β} (h : x.map f=.ok b) :
    ∃ a, x=.ok a∧f a=b := by
  cases x with
  | error e => cases h
  | ok a =>
    cases h
    exact ⟨a,rfl,rfl⟩

theorem InStep.andThen (h : Sound db∧InStep db) (hk : Sound db → Apart db db') :
    Sound db'∧InStep db' :=
  have hk := hk h.1
  ⟨h.1.beside hk.toBeside,h.2.apart h.1 hk⟩

section Create
variable {env : CardInsert.Env}

theorem typeCheck_ok {id : Int} {name what : String} (h : typeCheck db id name what=.ok ()) :
    Live db name id := by
  unfold typeCheck at h
  split at h
  · cases h
  · rename_i c t ht
    split at h
    · cases h
    · rename_i heq
      simp [Live,ht,not_not.mp heq]

theorem withPeople_apart (h : Sound db) (card : Int) (ids : List Int) :
    Apart db (withPeople db actor card ids) := by
  unfold withPeople
  split
  · exact .refl db
  · exact (put_apart h (by simp) card _).andThen h fun hs => confirm_apart hs card ids

theorem firstMessage_apart (h : Sound db) (card channel : Int) (subject message : String) :
    Apart db (firstMessage env db actor card channel subject message) := by
  unfold firstMessage
  refine .andThen ?_ h fun hs => authorJoin_apart hs env.dir card actor
  refine .andThen ?_ h fun hs => put_apart hs (by simp) card _
  refine .andThen ?_ h fun hs => puts_apart hs (by simp) db.nextCardId
  exact addTyped_apart h (by simp) fun p hp => by cases hp

/-- A thread with its values and people, before its parent lists it. -/
structure Started (db db' : Db) (comm parent : Int) : Prop where
  sound : Sound db'
  pending : Pending db' comm parent
  beside : Beside db db'

theorem Started.apart {p : Int} (h : Started db db' comm p) (hk : Sound db' → Apart db' db'') :
    Started db db'' comm p :=
  have hk := hk h.sound
  ⟨h.sound.beside hk.toBeside,h.pending.apart h.sound hk,h.beside.trans hk.toBeside⟩

theorem addThread_started (h : Sound db) (hi : InStep db) (actor : Int) {p : Int}
    (hp : (db.card p).isSome) :
    Started db (addTyped db actor "comm" (some p)) db.nextCardId p :=
  have hbeside := addThread_beside h hp
  ⟨h.beside hbeside,addThread_pending h hi hp,hbeside⟩

theorem Started.list (h : Started db db' comm task) (ht : Live db "task" task) {v : Json}
    (hv : ∀ ids, threads db' task=ids.map .ofInt → v=numbers (ids++[comm])) :
    Sound (put db' actor task "comms" v)∧InStep (put db' actor task "comms" v) :=
  h.pending.list h.sound ((h.beside.live_old ht.isCard).mpr ht) hv

/-- What `comm.create` has once the task lists the thread. -/
theorem listThread_keeps (hs : Sound db) (hi : InStep db) (ht : Live db "task" task)
    {writes : List (String×Json)} (hw : ∀ w∈writes, w.1≠"comms") (people : List Int) :
    let made := puts (addTyped db actor "comm" (some task)) actor db.nextCardId writes
    let listed := listThread (withPeople made actor db.nextCardId people) actor task db.nextCardId
    Sound listed∧InStep listed := by
  intro made listed
  have hmade : Started db made db.nextCardId task :=
    (addThread_started hs hi actor ht.isCard).apart fun hs => puts_apart hs hw db.nextCardId
  have hpeopled : Started db (withPeople made actor db.nextCardId people) db.nextCardId task :=
    hmade.apart fun hs => withPeople_apart hs db.nextCardId people
  exact hpeopled.list ht fun ids hids => appended_numbers hids db.nextCardId

theorem create_keeps {candidates : List String} {input : CreateInput} {made : Created}
    (hs : Sound db) (hi : InStep db) (h : create env db actor candidates input=.ok (db',made)) :
    Sound db'∧InStep db' := by
  unfold create at h
  obtain ⟨⟨task,channel⟩,-,h⟩ := bind_ok h
  obtain ⟨_,htask,h⟩ := bind_ok h
  obtain ⟨_,-,h⟩ := bind_ok h
  obtain ⟨project,-,h⟩ := bind_ok h
  obtain ⟨_,-,h⟩ := bind_ok h
  obtain ⟨status,-,h⟩ := bind_ok h
  obtain ⟨threadId,-,h⟩ := bind_ok h
  obtain ⟨people,-,h⟩ := bind_ok h
  obtain ⟨_,-,h⟩ := bind_ok h
  cases h
  have hlive : Live db "task" task := typeCheck_ok htask
  split
  · exact listThread_keeps hs hi hlive (by simp) people.eraseDups
  · refine InStep.andThen (listThread_keeps hs hi hlive ?_ people.eraseDups) fun hs =>
      firstMessage_apart hs db.nextCardId channel _ input.initialMessage
    simp

end Create

section File
open Kitp.CommFiling
variable {text : Text} {areas : Visibility.Areas} {verified : List (Int×String)}

theorem upsertPersonByEmail_apart (h : Sound db) (byVerified : Bool) (address name : String) :
    Apart db (upsertPersonByEmail text verified db actor byVerified address name).1 := by
  simp only [upsertPersonByEmail]
  split
  · exact .refl db
  · refine .andThen ?_ h fun hs => puts_apart hs (by simp) db.nextCardId
    exact addTyped_apart h (by simp) fun p hp => by cases hp

theorem syncCommRecipients_apart (h : Sound db) (comm : Int) (m : Message) :
    Apart db (syncCommRecipients text verified db actor comm m) := by
  simp only [syncCommRecipients]
  split
  · exact .refl db
  · refine .andThen ?_ h fun hs => mergeCommRecipients_apart hs comm _
    refine foldl_inv (I := fun s : Db×List Int => Apart db s.1) (.refl db) fun s hdb a _ => ?_
    exact hdb.andThen h fun hs => upsertPersonByEmail_apart hs _ a.1 a.2

theorem appendReceivedReply_apart (h : Sound db) (comm : Int) (m : Message) :
    Apart db (appendReceivedReply text verified db actor comm m) := by
  unfold appendReceivedReply
  refine .andThen ?_ h fun hs => syncCommRecipients_apart hs comm m
  refine .andThen ?_ h fun hs => put_apart hs (by simp) comm _
  refine .andThen ?_ h fun hs => appendReplies_apart hs comm db.nextCardId
  refine .andThen ?_ h fun hs => puts_apart hs ?_ db.nextCardId
  · exact addTyped_apart h (by simp) fun p hp => by cases hp
  · split <;> simp

theorem queueRelayCopy_apart (h : Sound db) (comm original : Int) (m : Message) (copy : RelayCopy) :
    Apart db (queueRelayCopy db actor comm original m copy) := by
  unfold queueRelayCopy
  refine .andThen ?_ h fun hs => appendReplies_apart hs comm db.nextCardId
  refine .andThen ?_ h fun hs => puts_apart hs ?_ db.nextCardId
  · exact addTyped_apart h (by simp) fun p hp => by cases hp
  · split <;> simp

theorem confirmStarter_apart (h : Sound db) (comm : Int) (sender : String) :
    Apart db (confirmStarter text db comm sender) := by
  unfold confirmStarter
  split
  · exact .refl db
  · exact confirm_apart h comm _

theorem createComm_started {candidates : List String} {parent comm : Int} {inbox : Intake}
    {m : Message} (hs : Sound db) (hi : InStep db) (hp : (db.card parent).isSome)
    (h : createComm text verified db actor candidates parent inbox m=.ok (db',comm)) :
    Started db db' comm parent := by
  unfold createComm at h
  obtain ⟨status,-,h⟩ := bind_ok h
  obtain ⟨threadId,-,h⟩ := bind_ok h
  cases h
  refine Started.apart ?_ fun hs => confirmStarter_apart hs db.nextCardId m.sender
  refine Started.apart ?_ fun hs => appendReceivedReply_apart hs db.nextCardId m
  refine Started.apart ?_ fun hs => puts_apart hs (by simp) db.nextCardId
  exact addThread_started hs hi actor hp

theorem addTyped_live (h : Sound db) {typeName : String} (ht : typeName="task"∨typeName="comm")
    (parent : Option Int) : Live (addTyped db actor typeName parent) typeName db.nextCardId := by
  obtain ⟨t,htype⟩ := Option.isSome_iff_exists.mp (h.seeded typeName ht)
  refine live_iff.mpr ⟨⟨db.nextCardId,t.id,parent,none,false,.triage⟩,?_,rfl,?_⟩
  · simp only [addTyped,htype]
    change (db.addCard _).card db.nextCardId=_
    simp [addCard_card,h.card_none (Int.le_refl _)]
  · have hname := cardType_of_seeded h htype (c := ⟨db.nextCardId,t.id,parent,none,false,.triage⟩) rfl
    have htypes : (addTyped db actor typeName parent).cardTypes=db.cardTypes := by
      simp only [addTyped,htype]
      rfl
    simpa only [Db.cardTypeName,Db.cardType,htypes] using hname

theorem createTaskAndComm_keeps {candidates : List String} {comm : Int} {inbox : Intake}
    {m : Message} (hs : Sound db) (hi : InStep db) (hp : (db.card inbox.projectId).isSome)
    (h : createTaskAndComm text verified db actor candidates inbox m=.ok (db',comm)) :
    Sound db'∧InStep db' := by
  unfold createTaskAndComm at h
  obtain ⟨status,-,h⟩ := bind_ok h
  obtain ⟨⟨threaded,thread⟩,hthread,h⟩ := bind_ok h
  cases h
  have hadd : Apart db (addTyped db actor "task" (some inbox.projectId)) :=
    addTyped_apart hs (by simp) fun p hparent => by cases hparent; exact hp
  have hadded := hs.beside hadd.toBeside
  have hputs : Apart (addTyped db actor "task" (some inbox.projectId)) (puts
      (addTyped db actor "task" (some inbox.projectId)) actor db.nextCardId
        [("title",.str (filedTitle m.subject)),("description",.str m.description),
          ("status",.ofInt status)]) := puts_apart hadded (by simp) db.nextCardId
  have htask : Live (puts (addTyped db actor "task" (some inbox.projectId)) actor db.nextCardId
      [("title",.str (filedTitle m.subject)),("description",.str m.description),
        ("status",.ofInt status)]) "task" db.nextCardId :=
    (hputs.live_old (addTyped_live hs (.inl rfl) _).isCard).mpr (addTyped_live hs (.inl rfl) _)
  have hmade := InStep.andThen ⟨hadded,hi.apart hs hadd⟩ fun _ => hputs
  have hstarted := createComm_started hmade.1 hmade.2 htask.isCard hthread
  exact hstarted.list htask fun ids hids => appendRef_numbers hids _

/-- A message is filed. -/
theorem processOne_keeps {candidates : List String} {inbox : Intake} {copy : Option RelayCopy}
    {m : Message} {answer : Outcome×Option Int} (hs : Sound db) (hi : InStep db)
    (hp : (db.card inbox.projectId).isSome) (hproject : ¬Live db "task" inbox.projectId)
    (h : processOne text areas verified db actor candidates inbox copy m=.ok (db',answer)) :
    Sound db'∧InStep db' := by
  unfold processOne at h
  simp only at h
  split at h
  · rename_i comm _
    cases h
    have hfiled : Apart db (appendReceivedReply text verified db actor comm m) :=
      appendReceivedReply_apart hs comm m
    refine InStep.andThen (InStep.andThen ⟨hs,hi⟩ fun _ => hfiled) fun hs => ?_
    cases copy with
    | none => exact .refl _
    | some c => exact queueRelayCopy_apart hs comm db.nextCardId m c
  · split at h
    · cases h
      exact ⟨hs,hi⟩
    · split at h
      · obtain ⟨⟨made,comm⟩,hmade,heq⟩ := map_ok h
        cases heq
        exact createTaskAndComm_keeps hs hi hp hmade
      · obtain ⟨⟨made,comm⟩,hmade,heq⟩ := map_ok h
        cases heq
        have hstarted := createComm_started hs hi hp hmade
        exact ⟨hstarted.sound,hstarted.pending.bare
          fun hlive => hproject ((hstarted.beside.live_old hp).mp hlive)⟩
      · cases h
        exact ⟨hs,hi⟩

end File

section Attach
variable {env : CardInsert.Env}

/-- A value written to a card without a list, which is no list where it is its `comms`. -/
theorem writeValue_bare (h : Sound db) {d : AttributeDef} {n : String}
    (hd : db.attributeNamed n=some d) {card : Int} (hbare : threads db card=[]) (old : Option Json)
    {v : Json} (hv : n="comms" → elems (some v)=[]) :
    Apart db (writeValue db actor card d.id old v) := by
  by_cases hn : n="comms"
  · subst hn
    refine .of_same (writeValue_keeps db actor card d.id old v) fun x => ?_
    rw [threads_write hd]
    split
    · rename_i hx
      rw [hv rfl,hx,hbare]
    · rfl
  · exact writeValue_apart h hd hn card old v

theorem written_bare (h : Sound db) {w : CardInsert.Checked} {input : CardInsert.Input}
    (hw : CardInsert.prepare env db actor input=.ok w) (hgiven : CardInsert.spliced input=[])
    {a : AttributeDef×Json} (ha : a∈CardInsert.written db w) :
    ∃ n, db.attributeNamed n=some a.1∧(n="comms" → elems (some a.2)=[]) := by
  obtain ⟨-,-,-,htitle,-,hattrs⟩ := CardInsert.prepare_ok hw
  have hdefaults : ∀ f∈w.attrs, ∃ status, f.2=.ofInt status := by
    refine foldlM_inv (I := fun attrs => ∀ f∈attrs, ∃ status, f.2=Json.ofInt status) hattrs
      (by simp [hgiven]) fun attrs name attrs' hI _ hstep => ?_
    cases AttributeEdges.withRequired_ok hstep with
    | inl hs => exact hs ▸ hI
    | inr hs =>
      obtain ⟨status,hs,-⟩ := hs
      subst hs
      intro f hf
      cases AttributeEdges.mem_addField hf with
      | inl hf => exact ⟨status,by rw [hf]⟩
      | inr hf => exact hI f hf
  cases List.mem_cons.mp ha with
  | inl ha =>
    refine ⟨"title",?_,by simp⟩
    rw [ha]
    exact (AttributeEdges.titleDef_ok htitle).1
  | inr ha =>
    obtain ⟨f,hf,ha⟩ := List.mem_filterMap.mp ha
    obtain ⟨d,hd,ha⟩ := Option.map_eq_some_iff.mp ha
    obtain ⟨hd,-⟩ := Option.filter_eq_some_iff.mp hd
    obtain ⟨status,hstatus⟩ := hdefaults f hf
    subst ha
    refine ⟨f.1,hd,fun hcomms => ?_⟩
    obtain ⟨e,he,htype⟩ := h.comms
    have hde : d=e := Option.some.inj (hd.symm.trans (hcomms ▸ he))
    simp [hstatus,CardInsert.stored,hde,htype,Json.ofInt,CardInsert.isScalar,elems]

/-- A task made with nothing but its title. -/
theorem insertTask_apart (h : Sound db) {input : CardInsert.Input}
    (htype : input.cardTypeName=some "task") (hgiven : CardInsert.spliced input=[])
    (hassign : input.assignToMe=false) (hi : CardInsert.insert env db actor input=.ok db') :
    Apart db db' := by
  obtain ⟨w,stamped,hw,hstamp,rfl⟩ := CardInsert.insert_ok hi
  have hname : w.cardType.name="task" :=
    (Option.some.inj (htype.symm.trans (CardInsert.prepare_named hw))).symm
  have hstamped : stamped=CardInsert.write db actor w := by
    rcases CardInsert.stamp_ok hstamp with hs | ⟨template,hproject,-⟩
    · exact hs
    · rw [hname] at hproject
      simp at hproject
  have hassigned : CardInsert.assign env stamped actor input db.nextCardId=stamped := by
    simp [CardInsert.assign,CardInsert.assignedTo,hassign]
  obtain ⟨hmem,-,hrule,-,-,-⟩ := CardInsert.prepare_ok hw
  rw [hassigned,hstamped]
  refine CardInsert.write_inv (I := Apart db) ((addCard_apart h rfl (fun p hp => ?_) ?_).log _)
    fun db₁ hdb₁ a ha => ?_
  · rcases CardInsert.parentRule_ok hrule with ⟨hnone,-⟩ | ⟨q,hq,hcard,-⟩
    · rw [hnone] at hp
      cases hp
    · have hpq : p=q := Option.some.inj (hp.symm.trans hq)
      exact hpq ▸ hcard
  · simp [Db.cardTypeName,h.types _ hmem,hname]
  · obtain ⟨n,hn,hv⟩ := written_bare h hw hgiven ha
    refine hdb₁.andThen h fun hs => writeValue_bare hs (n := n) ?_ ?_ none hv
    · simpa only [Db.attributeNamed,hdb₁.attributeDefs] using hn
    · rw [hdb₁.lists]
      exact h.owned _ (Int.le_refl _)

theorem makeTask_apart (h : Sound db) {project : Int} {title : String} {task : Int}
    (hm : makeTask env db actor project title=.ok (db',task)) : Apart db db' := by
  simp only [makeTask] at hm
  split at hm
  · cases hm
  · split at hm
    · cases hm
    · obtain ⟨made,hmade,hm⟩ := bind_ok hm
      cases hm
      exact insertTask_apart h rfl rfl rfl hmade

/-- The row of a card's project. -/
theorem project_row {x p : Int} (h : cardEnclosingProject db x=some p) :
    ∃ c, db.card p=some c∧db.cardTypeName c=some "project" := by
  obtain ⟨c,hc,hid⟩ := Option.map_eq_some_iff.mp h
  have hproject : db.cardTypeName c=some "project" := by simpa using List.find?_some hc
  have hmem := List.mem_of_find?_eq_some hc
  cases hx : db.card x with
  | none => simp [cardAncestors,hx] at hmem
  | some a =>
    simp only [cardAncestors,hx,Option.elim_some] at hmem
    have hrow : db.card c.id=some c := by
      cases Relation.ReflTransGen.cases_tail (Forest.reaches_of_mem_walk hmem) with
      | inl heq =>
        subst heq
        rw [card_id hx,hx]
      | inr hup =>
        obtain ⟨b,-,hb⟩ := hup
        obtain ⟨q,-,hq⟩ := Option.bind_eq_some_iff.mp hb
        rw [card_id hq,hq]
    exact ⟨c,hid ▸ hrow,hproject⟩

/-- The thread's row, and its parent's type. -/
theorem readThread_ok {t : Thread} (h : readThread db comm=.ok t) :
    Live db "comm" t.id∧cardEnclosingProject db t.id=some t.project∧
      t.parent=(db.parent t.id).getD 0∧
      t.parentType=(((db.parent t.id).bind db.card).bind db.cardTypeName).getD "" := by
  unfold readThread at h
  split at h
  · cases h
  · rename_i c name hname
    split at h
    · cases h
    · rename_i hcomm
      split at h
      · cases h
      · rename_i project hproject
        cases h
        obtain ⟨e,he,hname'⟩ := Option.bind_eq_some_iff.mp hname
        obtain ⟨he,hlive⟩ := Option.filter_eq_some_iff.mp he
        obtain ⟨_,_,hce⟩ := Option.map_eq_some_iff.mp hname'
        cases hce
        have hparent : db.parent comm=c.parentCardId := by simp [Db.parent,he]
        refine ⟨by simp [Live,hname,not_not.mp hcomm],hproject,by rw [hparent],?_⟩
        rw [hparent]
        rfl

/-- Changes of the card rows that keep each one's id, with parents that are cards. -/
theorem Sound.mapCards {f : Card → Card} (h : Sound db) (hid : ∀ r, (f r).id=r.id)
    (hparent : ∀ r p, db.card r.id=some r → (f r).parentCardId=some p → (db.card p).isSome) :
    Sound (db.mapCards f) := by
  have hcard := mapCards_card hid db
  refine ⟨h.ids,h.comms,h.types,h.seeded,?_,?_,?_,h.numbers,h.owned⟩
  · intro e he
    obtain ⟨r,hr,rfl⟩ := List.mem_map.mp he
    rw [hcard,hid,h.keyed r hr,Option.map_some]
  · intro x hx
    rw [hcard,Option.isSome_map] at hx
    exact h.fresh x hx
  · intro x p hp
    obtain ⟨e,he,hep⟩ := Option.bind_eq_some_iff.mp hp
    rw [hcard] at he
    obtain ⟨r,hr,rfl⟩ := Option.map_eq_some_iff.mp he
    rw [hcard,Option.isSome_map]
    exact hparent r p (by rw [card_id hr,hr]) hep

theorem count_without (ids : List Int) (id c : Int) :
    (ids.filter (· ≠ id)).count c=if c=id then 0 else ids.count c := by
  split
  · rename_i hc
    simp [List.count_eq_zero,hc]
  · rename_i hc
    exact List.count_filter (by simpa using hc)

theorem leave_spec (h : Sound db) (actor : Int) (t : Thread)
    (hparent : t.parentType="task" → (db.card t.parent).isSome) :
    Sound (leave db actor t)∧SameCards db (leave db actor t)∧∀ x c, listed (leave db actor t) x c=
      if (x=t.parent∧t.parentType="task")∧c=t.id then 0 else listed db x c := by
  unfold leave
  split
  · rename_i htype
    exact ⟨h,.refl db,fun x c => by simp [htype]⟩
  · rename_i htype
    have htask : t.parentType="task" := not_not.mp htype
    obtain ⟨d,hd,-⟩ := h.comms
    obtain ⟨ids,hids,hlt⟩ := h.numbers t.parent
    have hlisted (c : Int) : listed db t.parent c=ids.count c := listed_numbers hids c
    have hkept (hnone : t.id∉ids) (x c : Int) : listed db x c=
        if (x=t.parent∧t.parentType="task")∧c=t.id then 0 else listed db x c := by
      split
      · rename_i hx
        rw [hx.1.1,hx.2,hlisted,List.count_eq_zero_of_not_mem hnone]
      · rfl
    have hstored : threads db t.parent=elems (db.value t.parent d.id) := by
      simp only [threads,stored,hd,Option.bind_some]
    rw [hd,Option.bind_some]
    split
    · rename_i e xs hv
      obtain ⟨v,hv,hev⟩ := Option.map_eq_some_iff.mp hv
      cases hev
      have hxs : xs=ids.map .ofInt := by
        rw [← hids,hstored,hv]
        rfl
      have hleft := without_numbers (s := some (.arr xs)) hxs t.id
      simp only
      split
      · rename_i hsame
        refine ⟨h,.refl db,hkept fun hmem => ?_⟩
        rw [hleft,hxs] at hsame
        have hlen := congrArg List.length hsame
        rw [List.length_map,List.length_map] at hlen
        have hall := List.length_filter_eq_length_iff.mp hlen t.id hmem
        simp at hall
      · rw [hleft]
        refine ⟨h.write hd (hparent htask) _ fun i hi => hlt i (List.mem_of_mem_filter hi),
          writeValue_keeps _ _ _ _ _ _,fun x c => ?_⟩
        by_cases hx : x=t.parent
        · have hwritten : threads (writeValue db actor t.parent d.id (some (.arr xs))
              (.arr ((ids.filter (· ≠ t.id)).map .ofInt))) x=(ids.filter (· ≠ t.id)).map .ofInt := by
            rw [threads_write hd,if_pos hx]
            rfl
          rw [listed_numbers hwritten,hx,hlisted,count_without]
          simp [htask]
        · rw [listed,threads_write hd,if_neg hx,if_neg fun hc => hx hc.1.1]
          rfl
    · rename_i hnoarr
      have hnil : ids=[] := by
        cases hv : db.value t.parent d.id with
        | none => simpa [hids,hv,elems] using hstored
        | some v =>
          cases v with
          | arr xs => exact absurd (by rw [hv,Option.map_some]) (hnoarr d xs)
          | null => simpa [hids,hv,elems] using hstored
          | bool b => simpa [hids,hv,elems] using hstored
          | num n => simpa [hids,hv,elems] using hstored
          | str s => simpa [hids,hv,elems] using hstored
          | obj fs => simpa [hids,hv,elems] using hstored
      exact ⟨h,.refl db,hkept (by simp [hnil])⟩

theorem live_same (h : SameCards db db') {name : String} {x : Int} :
    Live db' name x↔Live db name x := by
  simp only [Live,typed,h.card,h.cardTypeName]

theorem live_mapCards {f : Card → Card} (hid : ∀ r, (f r).id=r.id)
    (hkeep : ∀ r, (f r).deleted=r.deleted∧(f r).cardTypeId=r.cardTypeId) {name : String} {x : Int} :
    Live (db.mapCards f) name x↔Live db name x := by
  rw [live_iff,live_iff,mapCards_card hid]
  have htype (r : Card) : (db.mapCards f).cardTypeName (f r)=db.cardTypeName r := by
    simp only [Db.cardTypeName,Db.cardType,Db.mapCards,(hkeep r).2]
  cases hx : db.card x with
  | none => simp
  | some r => simp [htype,(hkeep r).1]

theorem Sound.log (h : Sound db) (a : Activity) : Sound (db.log a) :=
  h.beside ((Apart.refl db).log a).toBeside

theorem moveThread_spec (h : Sound db) (hi : InStep db) (actor : Int) {t : Thread} {p : Int}
    (hcomm : Live db "comm" t.id) (hfrom : t.parent=(db.parent t.id).getD 0)
    (htype : t.parentType=(((db.parent t.id).bind db.card).bind db.cardTypeName).getD "")
    (hp : (db.card p).isSome) :
    Sound (moveThread (leave db actor t) actor t p)∧
      Pending (moveThread (leave db actor t) actor t p) t.id p∧
      ∀ name x, Live (moveThread (leave db actor t) actor t p) name x↔Live db name x := by
  have hparent : t.parentType="task" → (db.card t.parent).isSome := by
    intro htask
    cases hq : db.parent t.id with
    | none => simp [htype,hq] at htask
    | some q =>
      rw [hfrom,hq]
      exact h.parents t.id q hq
  obtain ⟨hleft,hsame,hlisted⟩ := leave_spec h actor t hparent
  have hcard (x : Int) : (moveThread (leave db actor t) actor t p).card x=
      (db.card x).map fun c => if x=t.id then { c with parentCardId := some p } else c := by
    have hset := setParent_card (leave db actor t) (· = t.id) p x
    simp only [decide_eq_true_eq,hsame.card] at hset
    exact hset
  have hlive (name : String) (x : Int) :
      Live (moveThread (leave db actor t) actor t p) name x↔Live db name x := by
    rw [← live_same hsame]
    exact live_mapCards (fun r => by split <;> rfl) fun r => by split <;> exact ⟨rfl,rfl⟩
  have hcounts (x c : Int) : listed (moveThread (leave db actor t) actor t p) x c=
      if (x=t.parent∧t.parentType="task")∧c=t.id then 0 else listed db x c := hlisted x c
  refine ⟨Sound.log (hleft.mapCards (fun r => by split <;> rfl) fun r q hr hq => ?_) _,
    ⟨?_,fun task ht => ?_,fun task c hne => ?_⟩,hlive⟩
  · rw [hsame.card] at hr ⊢
    by_cases hrid : r.id=t.id
    · have hqp : p=q := by simpa [hrid] using hq
      exact hqp ▸ hp
    · have hrq : r.parentCardId=some q := by simpa [hrid] using hq
      exact h.parents r.id q (by simp [Db.parent,hr,hrq])
  · obtain ⟨r,hr⟩ := Option.isSome_iff_exists.mp hcomm.isCard
    simp [Db.parent,hcard,hr]
  · have ht := (hlive "task" task).mp ht
    rw [hcounts]
    by_cases hq : db.parent t.id=some task
    · obtain ⟨r,hr,-,hrtype⟩ := live_iff.mp ht
      have htask : t.parentType="task" := by simp [htype,hq,hr,hrtype]
      simp [hfrom,hq,htask]
    · split
      · rfl
      · rw [hi task t.id ht hcomm,if_neg hq]
  · intro ht hc
    have hstays : (moveThread (leave db actor t) actor t p).parent c=db.parent c := by
      simp only [Db.parent,hcard,if_neg hne]
      rw [Option.map_id']
    rw [hcounts,if_neg fun hx => hne hx.2,hstays]
    exact hi task c ((hlive _ _).mp ht) ((hlive _ _).mp hc)

/-- A thread under its new parent, on the list of a task it joins. -/
theorem join_keeps (h : Sound db) {t : Thread} {task : Int} (hp : Pending db t.id task)
    (ht : Live db "task" task) : Sound (join db actor t task)∧InStep (join db actor t task) := by
  obtain ⟨d,hd,-⟩ := h.comms
  obtain ⟨ids,hids,hlt⟩ := h.numbers task
  have hnew := h.fresh t.id hp.isCard
  have hstored : elems (db.value task d.id)=ids.map .ofInt := by
    rw [← hids,threads,stored,hd,Option.bind_some]
  have hleft : elems (some (.arr (without (db.value task d.id) t.id)))=
      (ids.filter (· ≠ t.id)).map .ofInt := without_numbers hstored t.id
  rw [join,hd,Option.elim_some,appended_numbers hleft]
  refine ⟨h.write hd ht.isCard _ fun i hi => ?_,hp.write hd _ ?_ fun c hne => ?_⟩
  · cases List.mem_append.mp hi with
    | inl hi => exact hlt i (List.mem_of_mem_filter hi)
    | inr hi => exact List.mem_singleton.mp hi ▸ hnew
  · rw [List.count_append,count_without]
    simp
  · have hother : List.count c [t.id]=0 := by simpa [List.count_eq_zero] using hne
    rw [List.count_append,count_without,if_neg hne,hother,listed_numbers hids,Nat.add_zero]

theorem targetCheck_ok {t : Thread} {task : Int} (h : targetCheck env db actor t task=.ok ())
    (h0 : task≠0) : Live db "task" task := by
  rw [targetCheck,if_neg h0] at h
  split at h
  · cases h
  · rename_i c name hc
    simp only at h
    split at h
    · cases h
    · split at h
      · cases h
      · split at h
        · cases h
        · rename_i hname
          simp [Live,hc,not_not.mp hname]

/-- The thread's row reads the same once its task is made. -/
theorem Apart.reads (h : Apart db db') (hs : Sound db) {comm : Int} (hc : Live db "comm" comm) :
    Live db' "comm" comm∧db'.parent comm=db.parent comm∧
      ((db'.parent comm).bind db'.card).bind db'.cardTypeName=
        ((db.parent comm).bind db.card).bind db.cardTypeName := by
  have hparent := parent_beside h.toBeside hc.isCard
  refine ⟨(h.live_old hc.isCard).mpr hc,hparent,?_⟩
  rw [hparent]
  cases hp : db.parent comm with
  | none => rfl
  | some p =>
    obtain ⟨r,hr⟩ := Option.isSome_iff_exists.mp (hs.parents comm p hp)
    simp [h.old p r hr,hr,h.typeName]

theorem attach_keeps {input : AttachInput} (hs : Sound db) (hi : InStep db)
    (h : attach env db actor input=.ok db') : Sound db'∧InStep db' := by
  unfold attach at h
  split at h
  · cases h
  · rename_i comm _
    obtain ⟨t,ht,h⟩ := bind_ok h
    obtain ⟨_,-,h⟩ := bind_ok h
    obtain ⟨⟨made,task⟩,hmade,h⟩ := bind_ok h
    obtain ⟨_,htarget,h⟩ := bind_ok h
    obtain ⟨hcomm,hproject,hfrom,htype⟩ := readThread_ok ht
    have happart : Apart db made := by
      simp only [taskFor] at hmade
      split at hmade
      · exact makeTask_apart hs hmade
      · cases hmade
        exact .refl db
    have hsmade := hs.beside happart.toBeside
    have himade := hi.apart hs happart
    obtain ⟨hcomm',hparent,hrow⟩ := happart.reads hs hcomm
    have hmoved {p : Int} (hp : (made.card p).isSome) := moveThread_spec hsmade himade
      actor hcomm' (hfrom.trans (by rw [hparent])) (htype.trans (by rw [hrow])) hp
    simp only at h
    by_cases h0 : task=0
    · simp only [if_pos h0] at h
      split_ifs at h
      · cases h
        exact ⟨hsmade,himade⟩
      · -- back into the project, which lists no threads
        cases h
        obtain ⟨r,hr,hrtype⟩ := project_row hproject
        have hrow' : made.card t.project=some r := happart.old _ r hr
        obtain ⟨hsound,hpending,hlive⟩ := hmoved (p := t.project) (by simp [hrow'])
        refine ⟨hsound,hpending.bare fun htask => ?_⟩
        obtain ⟨e,he,-,hetype⟩ := live_iff.mp ((hlive _ _).mp htask)
        have her : e=r := Option.some.inj (he.symm.trans hrow')
        rw [happart.typeName,her,hrtype] at hetype
        simp at hetype
    · simp only [if_neg h0] at h
      split_ifs at h
      · cases h
        exact ⟨hsmade,himade⟩
      · cases h
        have ht := targetCheck_ok htarget h0
        obtain ⟨hsound,hpending,hlive⟩ := hmoved ht.isCard
        exact join_keeps hsound hpending ((hlive _ _).mpr ht)

end Attach

end Kitp.ThreadLists
