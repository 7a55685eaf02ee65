import Kitp.Relay

/-! Any history of a thread: who is confirmed is on it and was not taken off, so a copy goes
to such people only, and a copy that comes back goes nowhere. -/
namespace Kitp.Relay
open Kitp.Runs

/-- Who is confirmed is on the thread, and nobody in kitp took them off. -/
def Kept (off : Int → Bool) (t : Thread) : Prop := ∀ p∈t.confirmed, p∈t.recipients∧off p=false

def Inv (s : State) : Prop := ∀ t, s.thread=some t → Kept s.off t

/-- Someone live on the thread, confirmed, not taken off, has the address. -/
def Participant (lib : Library) (w : World) (t : Thread) (off : Int → Bool) (addr : String) :
    Prop :=
  ∃ p∈t.recipients, p∈t.confirmed∧off p=false∧
    ∃ e, liveEmail w p=some e∧storedAddress lib e=addr

/-- A copy as it should be: `t` is the thread before the message, `w` what the relay finds. -/
structure Proper (lib : Library) (w : World) (t : Thread) (off : Int → Bool)
    (m : InboundMessage) (c : Copy) : Prop where
  sender : Participant lib w t off (senderOf lib m.fromHdr)
  participant : ∀ a∈c.addresses, Participant lib w t off (lib.toLower a)
  notSender : ∀ a∈c.addresses, lib.toLower a≠senderOf lib m.fromHdr
  notUser : ∀ a∈c.addresses, senderIsUser lib w a=false
  notOwn : ∀ a∈c.addresses, lib.toLower a≠lib.toLower c.fromAddress
  notRoute : ∀ a∈c.addresses, isRouteAddress lib w.routeDomain a=false
  notReached : ∀ a∈c.addresses, lib.toLower a∉addressesIn lib [m.fromHdr,m.toHdr,m.ccHdr]

/-- No one on the thread without a login takes part under an address of a kitp user's. -/
def Unshadowed (lib : Library) (w : World) (t : Thread) (before : List String)
    (receivedOn : Int) (m : InboundMessage) : Prop :=
  ∀ ch, threadAccount w t receivedOn=some ch → ∀ p∈t.recipients, linked w p=false →
    ∀ e, liveEmail w p=some e → takesPart lib w t before (lib.btrim e) →
      lib.toLower (lib.btrim e)∉reachedBy lib ch m → senderIsUser lib w (lib.btrim e)=false

/-- The header has the marks of the copy. -/
def Returned (lib : Library) (c : Copy) (h : Header) : Prop :=
  ∀ mark∈copyMarks lib c, get h mark.1=mark.2

def start (w : World) : State := ⟨w,none,fun _ => false⟩

variable {lib : Library} {w w' : World} {t t' : Thread} {off : Int → Bool} {p : Int}

section lists

theorem mem_commPeopleEdit {old add drop : List Int} :
    p∈commPeopleEdit old add drop ↔ (p∈old∨p∈add)∧p∉drop := by
  unfold commPeopleEdit
  split_ifs with h
  · simp [h.1,h.2]
  · simp [List.mem_eraseDups]

theorem subset_mergeInto {removed add : List Int} {merged : List Int} (hp : p∈merged) :
    p∈mergeInto removed merged add := by
  induction add generalizing merged with
  | nil => exact hp
  | cons id add ih =>
    rw [mergeInto]
    split_ifs with h
    · exact ih hp
    · exact ih (List.mem_append_left _ hp)

theorem Kept.grow (h : Kept off t) (hc : t'.confirmed=t.confirmed)
    (hr : ∀ p∈t.recipients, p∈t'.recipients) : Kept off t' := by
  intro p hp
  have hk := h p (hc ▸ hp)
  exact ⟨hr p hk.1,hk.2⟩

theorem Kept.confirm {people : List Int} (h : Kept off t)
    (hp : ∀ p∈people, p∈t.recipients∧off p=false) : Kept off (commConfirm t people) := by
  intro p hm
  have hc : (p∈t.confirmed∨p∈people)∧p∉[] := mem_commPeopleEdit.mp hm
  cases hc.1 with
  | inl hc => exact h p hc
  | inr hc => exact hp p hc

theorem confirmed_commConfirm {people : List Int} :
    p∈(commConfirm t people).confirmed ↔ p∈t.confirmed∨p∈people := by
  simp [commConfirm,mem_commPeopleEdit]

theorem confirmed_commRemove {people : List Int} :
    p∈(commRemove t people).confirmed ↔ p∈t.confirmed∧p∉people := by
  simp [commRemove,mem_commPeopleEdit]

theorem Kept.join (h : Kept off t) (author : Int) : Kept off (commAuthorJoin w t author) := by
  unfold commAuthorJoin
  cases authorPerson w author with
  | none => exact h
  | some q =>
    dsimp only
    split_ifs with hq
    · exact h
    · exact h.grow rfl fun p hp => List.mem_append_left _ hp

end lists

section filing

variable {m : InboundMessage} {receivedOn : Int}

/-- Filing a message confirms nobody and takes nobody off. -/
theorem sync_grows (lib : Library) (w : World) (t : Thread) (receivedOn : Int)
    (m : InboundMessage) :
    (syncCommRecipientsFromInbound lib w t receivedOn m).2.confirmed=t.confirmed∧
      ∀ p∈t.recipients, p∈(syncCommRecipientsFromInbound lib w t receivedOn m).2.recipients := by
  simp only [syncCommRecipientsFromInbound]
  split_ifs with hfound
  · exact ⟨rfl,fun p hp => hp⟩
  · cases upsertPeople lib (senderOf lib m.fromHdr) w (foundIn lib w receivedOn m) with
    | none => exact ⟨rfl,fun p hp => hp⟩
    | some ids => exact ⟨rfl,fun p hp => subset_mergeInto hp⟩

theorem Kept.file (h : Kept off t) :
    Kept off (appendReceivedReply lib w t receivedOn m).2 :=
  have hg := sync_grows lib { w with nextCardId := w.nextCardId+1 } t receivedOn m
  h.grow hg.1 hg.2

theorem Kept.receive {now : Nat} (h : Kept off t) :
    Kept off (receiveReply lib w t receivedOn m now).2 := by
  have hf : Kept off (appendReceivedReply lib w t receivedOn m).2 := h.file
  unfold receiveReply
  cases relayReply lib w t receivedOn m now with
  | queued c => exact hf.grow rfl fun p hp => hp
  | _ => exact hf

theorem kept_createComm : Kept (fun _ => false) (createComm lib w receivedOn m).2 := by
  have hg := sync_grows lib { w with nextCardId := w.nextCardId+2 }
    ⟨[],[],[],some receivedOn,[]⟩ receivedOn m
  unfold createComm
  generalize syncCommRecipientsFromInbound lib { w with nextCardId := w.nextCardId+2 }
    ⟨[],[],[],some receivedOn,[]⟩ receivedOn m=filed at hg
  have hk : Kept (fun _ => false) filed.2 := by
    intro p hp
    rw [hg.1] at hp
    cases hp
  simp only [confirmStarter]
  split_ifs with hn
  · exact hk
  · refine hk.confirm fun p hp => ⟨?_,rfl⟩
    exact List.mem_of_mem_filter hp

end filing

section operations

variable {ids : List Int} {referable : Int → Bool}

theorem kept_commCreate {channel : Int} {author : Option Int}
    (h : commCreate w ids referable channel author=some t) : Kept (fun _ => false) t := by
  simp only [commCreate] at h
  rw [ite_eq_iff] at h
  have hs := (h.resolve_left (by simp)).2
  have hk : Kept (fun _ => false)
      (if ids.eraseDups=[] then ⟨ids.eraseDups,[],[],some channel,[]⟩
        else commConfirm ⟨ids.eraseDups,[],[],some channel,[]⟩ ids.eraseDups) := by
    have hb : Kept (fun _ => false) ⟨ids.eraseDups,[],[],some channel,[]⟩ := fun p hp => by cases hp
    split_ifs
    · exact hb
    · exact hb.confirm fun p hp => ⟨hp,rfl⟩
  cases author with
  | none =>
    cases hs
    exact hk
  | some a =>
    cases hs
    exact hk.join a

theorem confirmed_confirmAll {people : List Int} :
    p∈(if people=[] then t else commConfirm t people).confirmed ↔ p∈t.confirmed∨p∈people := by
  split_ifs with h
  · simp [h]
  · exact confirmed_commConfirm

theorem confirmed_removeAll {people : List Int} :
    p∈(if people=[] then t else commRemove t people).confirmed ↔ p∈t.confirmed∧p∉people := by
  split_ifs with h
  · simp [h]
  · exact confirmed_commRemove

/-- Who stays confirmed was not taken off, and who is added is put back. -/
theorem Kept.setRecipients (hk : Kept off t) (h : commSetRecipients w t ids referable=some t') :
    Kept (offAfter t off ids) t' := by
  simp only [commSetRecipients] at h
  rw [ite_eq_iff] at h
  have hs := (h.resolve_left (by simp)).2
  cases hs
  intro p hp
  have hc := confirmed_removeAll.mp hp
  rw [confirmed_confirmAll] at hc
  by_cases hp : p∈ids
  · refine ⟨List.mem_eraseDups.mpr hp,?_⟩
    rw [offAfter,if_pos hp]
    split_ifs with hon
    · have hm : p∈t.confirmed := by simpa [hon] using hc.1
      exact (hk p hm).2
    · rfl
  · exfalso
    have hm : p∈t.confirmed := by simpa [hp] using hc.1
    simp [(hk p hm).1,hp] at hc

end operations

theorem inv_step {s u : State} {e : Event} (h : Inv s) (hs : step lib s e=some u) : Inv u := by
  intro t' ht'
  cases e with
  | world w =>
    cases hs
    exact h t' ht'
  | create ids referable channel author =>
    cases ht : s.thread with
    | some t => simp [step,ht] at hs
    | none =>
      simp only [step,ht] at hs
      obtain ⟨t,hc,rfl⟩ := Option.map_eq_some_iff.mp hs
      cases ht'
      exact kept_commCreate hc
  | start hdr receivedOn =>
    cases ht : s.thread with
    | some t => simp [step,ht] at hs
    | none =>
      simp only [step,ht] at hs
      cases hs
      cases ht'
      exact kept_createComm
  | receive hdr receivedOn now =>
    obtain ⟨t,ht,rfl⟩ := Option.map_eq_some_iff.mp hs
    cases ht'
    exact (h t ht).receive
  | setRecipients ids referable =>
    obtain ⟨t,ht,hs⟩ := Option.bind_eq_some_iff.mp hs
    obtain ⟨t₁,hc,rfl⟩ := Option.map_eq_some_iff.mp hs
    cases ht'
    exact (h t ht).setRecipients hc
  | authorJoin author =>
    obtain ⟨t,ht,rfl⟩ := Option.map_eq_some_iff.mp hs
    cases ht'
    exact (h t ht).join author
  | setChannel channelRef =>
    obtain ⟨t,ht,rfl⟩ := Option.map_eq_some_iff.mp hs
    cases ht'
    exact (h t ht).grow rfl fun p hp => hp

theorem inv_run {w : World} {es : List Event} {s : State}
    (h : Run (step lib) (fun _ _ => True) (start w) es s) : Inv s :=
  h.inv Inv (fun _ _ _ hi _ hs => inv_step hi hs) fun t ht => by cases ht

section copies

variable {m : InboundMessage} {before : List String} {ch : Channel} {receivedOn : Int}
  {now : Nat} {c : Copy}

theorem if_some_eq_none {α : Type} {P : Prop} [Decidable P] {a : α} {b : Option α} :
    (if P then some a else b)=none ↔ ¬P∧b=none := by
  split <;> simp [*]

/-- What holds of a message that is sent on. -/
structure SentOn (lib : Library) (w : World) (t : Thread) (ch : Channel) (before : List String)
    (m : InboundMessage) : Prop where
  written : m.autoKind=""
  named : senderOf lib m.fromHdr≠""
  here : senderOf lib m.fromHdr∈before
  confirmed : senderOf lib m.fromHdr∈threadConfirmed lib w t

theorem sentOn_of_skip (h : skip lib w t ch before m now=none) : SentOn lib w t ch before m := by
  simp only [skip,if_some_eq_none,not_not,and_true] at h
  obtain ⟨hauto,-,-,-,hnamed,-,-,-,hhere,hconf⟩ := h
  exact ⟨hauto,hnamed,hhere,hconf⟩

theorem mem_collect {reached seen addrs : List String} {a : String}
    (h : a∈collect lib reached seen addrs) : a∈addrs∧lib.toLower a∉reached := by
  induction addrs generalizing seen with
  | nil => cases h
  | cons b rest ih =>
    rw [collect] at h
    split_ifs at h with hb
    · exact ⟨List.mem_cons_of_mem _ (ih h).1,(ih h).2⟩
    · cases List.mem_cons.mp h with
      | inl ha =>
        subst ha
        exact ⟨List.mem_cons_self,fun hr => hb (.inr (.inr (.inl hr)))⟩
      | inr ha => exact ⟨List.mem_cons_of_mem _ (ih ha).1,(ih ha).2⟩

/-- A candidate is the address of someone live on the thread, without a login. -/
theorem mem_relayRecipients {reached : List String} {a : String}
    (h : a∈relayRecipients lib w t reached) :
    lib.toLower a∉reached∧
      ∃ p∈t.recipients, linked w p=false∧∃ e, liveEmail w p=some e∧lib.btrim e=a := by
  have hc := mem_collect h
  obtain ⟨p,hp,ha⟩ := List.mem_filterMap.mp hc.1
  obtain ⟨e,he,ha⟩ := Option.map_eq_some_iff.mp ha
  have hpt := List.mem_filter.mp hp
  exact ⟨hc.2,p,hpt.1,by simpa using hpt.2,e,he,ha⟩

theorem queued_spec {replyId : Int}
    (h : relayReplyTx lib w t before m receivedOn replyId now=.queued c) :
    ∃ ch, threadAccount w t receivedOn=some ch∧SentOn lib w t ch before m∧
      c.fromAddress=lib.btrim ch.fromAddress∧
      c.addresses=(relayRecipients lib w t (reachedBy lib ch m)).filter
        (takesPart lib w t before) := by
  unfold relayReplyTx at h
  cases ha : (threadAccount w t receivedOn).filter (·.relay) with
  | none => simp [ha] at h
  | some ch =>
    simp only [ha] at h
    cases hs : skip lib w t ch before m now with
    | some reason => simp [hs] at h
    | none =>
      simp only [hs] at h
      split_ifs at h
      cases h
      exact ⟨ch,(Option.filter_eq_some_iff.mp ha).1,sentOn_of_skip hs,rfl,rfl⟩

/-- The sender is among those the message reached. -/
theorem senderOf_mem {fromHdr : String} {rest : List String} (h : senderOf lib fromHdr≠"") :
    senderOf lib fromHdr∈addressesIn lib (fromHdr::rest) := by
  have hmem : lib.trimSpace fromHdr≠""∧senderOf lib fromHdr∈
      (peopleIn lib (lib.trimSpace fromHdr)).map fun a => lib.toLower (lib.trimSpace a) := by
    unfold senderOf at h ⊢
    split_ifs at h ⊢ with hblank
    · exact absurd rfl h
    · refine ⟨hblank,?_⟩
      split at h
      case h_1 a hl =>
        obtain ⟨hl,hplain⟩ := Option.filter_eq_some_iff.mp hl
        simp_all [peopleIn]
      case h_2 => exact absurd rfl h
      case h_3 hl =>
        cases hp : parseAddress lib (lib.trimSpace fromHdr) with
        | none => simp [hp] at h
        | some a =>
          obtain ⟨hp,hplain⟩ := Option.filter_eq_some_iff.mp hp
          have hlist := lib.parseList_of_parse hp
          simp_all [peopleIn]
  refine List.mem_filter.mpr ⟨?_,by simpa using h⟩
  rw [List.flatMap_cons,if_neg hmem.1]
  exact List.mem_append_left _ hmem.2

/-- A confirmed address is a participant's. -/
theorem participant_of_confirmed {addr : String} (hk : Kept off t)
    (h : addr∈threadConfirmed lib w t) : Participant lib w t off addr := by
  obtain ⟨e,he,haddr⟩ := List.mem_map.mp (List.mem_of_mem_filter h)
  obtain ⟨p,hp,hpe⟩ := List.mem_filterMap.mp he
  exact ⟨p,(hk p hp).1,hp,(hk p hp).2,e,hpe,haddr⟩

theorem proper_of_queued {hdr : Header} (hk : Kept off t)
    (hc : relayReply lib w t receivedOn (parseInboundMessage lib hdr) now=.queued c)
    (hcond : Unshadowed lib (appendReceivedReply lib w t receivedOn (parseInboundMessage lib hdr)).1
      (appendReceivedReply lib w t receivedOn (parseInboundMessage lib hdr)).2
      (threadRecipientAddresses lib w t) receivedOn (parseInboundMessage lib hdr)) :
    Proper lib (appendReceivedReply lib w t receivedOn (parseInboundMessage lib hdr)).1 t off
      (parseInboundMessage lib hdr) c := by
  have hg := sync_grows lib { w with nextCardId := w.nextCardId+1 } t receivedOn
    (parseInboundMessage lib hdr)
  change (appendReceivedReply lib w t receivedOn (parseInboundMessage lib hdr)).2.confirmed=
    t.confirmed∧_ at hg
  unfold relayReply at hc
  generalize parseInboundMessage lib hdr=m at *
  generalize appendReceivedReply lib w t receivedOn m=filed at *
  obtain ⟨ch,hch,hsent,hfrom,haddr⟩ := queued_spec hc
  have hconf : threadConfirmed lib filed.1 filed.2=threadConfirmed lib filed.1 t := by
    simp only [threadConfirmed,hg.1]
  have hmem : ∀ a∈c.addresses, lib.toLower a∉reachedBy lib ch m∧
      takesPart lib filed.1 filed.2 (threadRecipientAddresses lib w t) a∧
      senderIsUser lib filed.1 a=false := by
    intro a ha
    rw [haddr] at ha
    obtain ⟨hr,hpart⟩ := List.mem_filter.mp ha
    obtain ⟨hreach,p,hp,hl,e,he,rfl⟩ := mem_relayRecipients hr
    exact ⟨hreach,hpart,hcond ch hch p hp hl e he hpart hreach⟩
  have hpart : ∀ a∈c.addresses, lib.toLower a∈threadConfirmed lib filed.1 t∧
      isRouteAddress lib filed.1.routeDomain a=false := by
    intro a ha
    have := (hmem a ha).2.1
    simp only [takesPart,Bool.and_eq_true,decide_eq_true_eq,Bool.not_eq_true',hconf] at this
    exact ⟨this.1.2,this.2⟩
  have hout : ∀ a∈c.addresses, lib.toLower a≠lib.toLower (lib.btrim ch.fromAddress)∧
      lib.toLower a∉addressesIn lib [m.fromHdr,m.toHdr,m.ccHdr] := by
    intro a ha
    have := (hmem a ha).1
    simpa [reachedBy] using this
  exact
    { sender := participant_of_confirmed hk (hconf ▸ hsent.confirmed)
      participant := fun a ha => participant_of_confirmed hk (hpart a ha).1
      notSender := fun a ha he => (hout a ha).2 (he ▸ senderOf_mem hsent.named)
      notUser := fun a ha => (hmem a ha).2.2
      notOwn := fun a ha => hfrom ▸ (hout a ha).1
      notRoute := fun a ha => (hpart a ha).2
      notReached := fun a ha => (hout a ha).2 }

/-- A message with a copy's marks was not written by a person. -/
theorem autoKind_of_returned {hdr : Header} (h : Returned lib c hdr) :
    (parseInboundMessage lib hdr).autoKind≠"" := by
  have hget : get hdr "Auto-Submitted"="auto-forwarded" :=
    h ("Auto-Submitted","auto-forwarded") List.mem_cons_self
  have hplain := lib.plainText "auto-forwarded" (by simp)
  simp [parseInboundMessage,automaticKind,hget,hplain.1,hplain.2]

theorem not_queued_of_returned {hdr : Header} {c' : Copy} (h : Returned lib c hdr) :
    relayReply lib w t receivedOn (parseInboundMessage lib hdr) now≠.queued c' := by
  intro hc
  obtain ⟨ch,-,hsent,-⟩ := queued_spec hc
  exact autoKind_of_returned h hsent.written

end copies

/-- Whatever the thread's history: a copy is proper unless someone on it without a login has
an address of a kitp user's, and a copy that comes back is not sent on. -/
theorem copies_proper (lib : Library) {w : World} {es : List Event} {s : State} {t : Thread}
    (h : Run (step lib) (fun _ _ => True) (start w) es s) (ht : s.thread=some t) (hdr : Header)
    (receivedOn : Int) (now : Nat) :
    (∀ c, relayReply lib s.world t receivedOn (parseInboundMessage lib hdr) now=.queued c →
      Unshadowed lib
        (appendReceivedReply lib s.world t receivedOn (parseInboundMessage lib hdr)).1
        (appendReceivedReply lib s.world t receivedOn (parseInboundMessage lib hdr)).2
        (threadRecipientAddresses lib s.world t) receivedOn (parseInboundMessage lib hdr) →
      Proper lib (appendReceivedReply lib s.world t receivedOn (parseInboundMessage lib hdr)).1 t
        s.off (parseInboundMessage lib hdr) c)∧
    ∀ c, Returned lib c hdr → ∀ c',
      relayReply lib s.world t receivedOn (parseInboundMessage lib hdr) now≠.queued c' :=
  ⟨fun _ hc hcond => proper_of_queued (inv_run h t ht) hc hcond,
    fun _ hr _ => not_queued_of_returned hr⟩

section seeded

/-- The library on plain addresses in small letters. -/
def plainLibrary : Library where
  toLower := id
  trimSpace := id
  equalFold a b := a=b
  nfc := id
  lower := id
  btrim := id
  parseList s := if plainAddress s then some [s] else none
  parse s := if plainAddress s then some s else none
  parseList_of_parse := by
    intro s a h
    split_ifs at h with hs
    cases h
    rw [if_pos hs]
  plainText _ _ := ⟨rfl,rfl⟩

/-- Carol may sign in, but her person card was unlinked from her login. -/
def seededWorld : World where
  people := [⟨1,false,some "ada@c.example"⟩,⟨2,false,some "carol@k.example"⟩,
    ⟨3,false,some "bob@c.example"⟩]
  logins := [{ id := 7, parentUserId := none, isAgent := false,
               email := some "carol@k.example", deleted := false }]
  links := []
  personEmails := []
  channels := [⟨5,false,"support@k.example",true,true⟩]
  routeDomain := ""
  nextCardId := 100

def seededThread (ids : List Int) : Thread := ⟨ids,ids,[],some 5,[]⟩

def seededMail : Header := [("From","ada@c.example"),("To","support@k.example")]

theorem seeded_run (ids : List Int) (hids : commCreate seededWorld ids (fun _ => true) 5 none=
    some (seededThread ids)) :
    Run (step plainLibrary) (fun _ _ => True) (start seededWorld)
      [.create ids (fun _ => true) 5 none]
      ⟨seededWorld,some (seededThread ids),fun _ => false⟩ :=
  .single trivial (by simp only [step,start,hids,Option.map_some])

theorem seeded_unshadowed : Unshadowed plainLibrary { seededWorld with nextCardId := 101 }
    (seededThread [1,3]) ["ada@c.example","bob@c.example"] 5
    (parseInboundMessage plainLibrary seededMail) := by
  intro ch _ p hp _ e he _ _
  have hp : p=1∨p=3 := by simpa [seededThread] using hp
  cases hp with
  | inl hp =>
    subst hp
    have hada : e="ada@c.example" := (Option.some.inj he).symm
    subst hada
    rfl
  | inr hp =>
    subst hp
    have hbob : e="bob@c.example" := (Option.some.inj he).symm
    subst hbob
    rfl

def seededMessage : InboundMessage := ⟨"ada@c.example","support@k.example","","","","",""⟩

/-- The world after the mail is filed. -/
def seededNext : World := { seededWorld with nextCardId := 101 }

theorem seeded_plain : plainAddress "ada@c.example"∧plainAddress "bob@c.example"∧
    plainAddress "carol@k.example"∧plainAddress "support@k.example" := by decide +kernel

theorem seeded_parsed : parseInboundMessage plainLibrary seededMail=seededMessage := by
  simp [parseInboundMessage,automaticKind,seededMail,plainLibrary,get,parseAddress,storable,
    seededMessage,seeded_plain]

theorem seeded_filed (k : Int) : appendReceivedReply plainLibrary seededWorld (seededThread [1,k]) 5
    seededMessage=(seededNext,seededThread [1,k]) := by
  have hfound : foundIn plainLibrary seededNext 5 seededMessage=["ada@c.example"] := by
    simp [foundIn,seededNext,seededWorld,World.channel,seededMessage,plainLibrary,peopleIn,
      seeded_plain,addOne,isRouteAddress,maxSyncPeople]
  have hperson : upsertPeople plainLibrary (senderOf plainLibrary seededMessage.fromHdr)
      seededNext ["ada@c.example"]=some (seededNext,[1]) := by
    simp [upsertPeople,upsertPersonByEmail,normalEmail,plainLibrary,seeded_plain,existingPerson,
      seededNext,seededWorld,World.person]
  change syncCommRecipientsFromInbound plainLibrary seededNext (seededThread [1,k]) 5 seededMessage=_
  rw [syncCommRecipientsFromInbound,hfound]
  simp [hperson,seededThread,mergeCommRecipients,mergeInto,maxCommRecipients]

/-- A person without a link gets the copy. -/
theorem seeded_reply {k : Int} {a : String} (hk : liveEmail seededNext k=some a)
    (hb : ((seededWorld.person k).bind (·.email))=some a)
    (ha : a≠"ada@c.example"∧a≠"support@k.example"∧a≠"") (hp : plainAddress a) :
    relayReply plainLibrary seededWorld (seededThread [1,k]) 5 seededMessage 0=
      .queued ⟨100,0,5,"support@k.example",[a]⟩ := by
  have hone : liveEmail seededNext 1=some "ada@c.example" := rfl
  have haccount : threadAccount seededNext (seededThread [1,k]) 5=
      some ⟨5,false,"support@k.example",true,true⟩ := rfl
  have hsender : senderOf plainLibrary "ada@c.example"="ada@c.example" := by
    have hlist : parseAddressList plainLibrary "ada@c.example"=some ["ada@c.example"] := by
      simp [parseAddressList,plainLibrary,seeded_plain,Option.filter]
    simp only [senderOf,plainLibrary] at hlist ⊢
    simp [hlist]
  have hbefore : threadRecipientAddresses plainLibrary seededWorld (seededThread [1,k])=
      ["ada@c.example",a] := by
    have : (seededWorld.person 1).bind (·.email)=some "ada@c.example" := rfl
    simp [threadRecipientAddresses,seededThread,hb,this,storedAddress,plainLibrary,ha]
  have hconf : threadConfirmed plainLibrary seededNext (seededThread [1,k])=
      ["ada@c.example",a] := by
    simp [threadConfirmed,seededThread,hk,hone,storedAddress,plainLibrary,ha]
  have huser : senderIsUser plainLibrary seededNext "ada@c.example"=false := by
    simp [senderIsUser,seededNext,seededWorld,plainLibrary]
  have hskip : skip plainLibrary seededNext (seededThread [1,k])
      ⟨5,false,"support@k.example",true,true⟩ ["ada@c.example",a] seededMessage 0=none := by
    have hnote : notificationRef ""=false := rfl
    simp only [skip,seededMessage,hsender,huser,hconf,isNotificationReply,hnote]
    simp [plainLibrary,recentRelays,seededThread,maxRelaysPerHour]
  have hreached : reachedBy plainLibrary ⟨5,false,"support@k.example",true,true⟩ seededMessage=
      ["support@k.example","ada@c.example","support@k.example"] := by
    simp [reachedBy,addressesIn,peopleIn,plainLibrary,seededMessage,seeded_plain]
  have hlinked : ∀ p, linked seededNext p=false := fun _ => rfl
  have hrecipients : relayRecipients plainLibrary seededNext (seededThread [1,k])
      ["support@k.example","ada@c.example","support@k.example"]=[a] := by
    simp [relayRecipients,seededThread,hlinked,hk,hone,collect,plainLibrary,ha,hp,seeded_plain]
  rw [relayReply,seeded_filed,hbefore]
  simp only [relayReplyTx,haccount,Option.filter_some,if_true,hskip,hreached,hrecipients]
  have htake : takesPart plainLibrary seededNext (seededThread [1,k]) ["ada@c.example",a] a := by
    have hlower : plainLibrary.toLower a=a := rfl
    have hroute : isRouteAddress plainLibrary seededNext.routeDomain a=false := by
      simp [isRouteAddress,seededNext,seededWorld]
    simp [takesPart,hconf,hlower,hroute]
  simp only [List.filter_cons_of_pos htake,List.filter_nil]
  rfl

theorem copied_to_bob :
    Proper plainLibrary { seededWorld with nextCardId := 101 } (seededThread [1,3])
      (fun _ => false) (parseInboundMessage plainLibrary seededMail)
      ⟨100,0,5,"support@k.example",["bob@c.example"]⟩ := by
  have h := (copies_proper plainLibrary (seeded_run [1,3] rfl) rfl seededMail 5 0).1
  simp only [seeded_parsed,seeded_filed] at h
  rw [seeded_parsed]
  exact h _ (seeded_reply rfl rfl (by decide) seeded_plain.2.1) (seeded_unshadowed)

/-- A confirmed person whose login is still there, but not linked to them, gets a copy. -/
theorem copied_to_login : ¬∀ (es : List Event) (s : State) (t : Thread) (hdr : Header)
    (receivedOn : Int) (now : Nat) (c : Copy),
    Run (step plainLibrary) (fun _ _ => True) (start seededWorld) es s → s.thread=some t →
    relayReply plainLibrary s.world t receivedOn (parseInboundMessage plainLibrary hdr) now=
      .queued c →
    Proper plainLibrary
      (appendReceivedReply plainLibrary s.world t receivedOn (parseInboundMessage plainLibrary hdr)).1
      t s.off (parseInboundMessage plainLibrary hdr) c := by
  intro h
  have hp := h _ _ _ seededMail 5 0 ⟨100,0,5,"support@k.example",["carol@k.example"]⟩
    (seeded_run [1,2] rfl) rfl (by
      rw [seeded_parsed]
      exact seeded_reply rfl rfl (by decide) seeded_plain.2.2.1)
  have huser := hp.notUser "carol@k.example" List.mem_cons_self
  exact absurd huser (by decide)

end seeded

end Kitp.Relay
