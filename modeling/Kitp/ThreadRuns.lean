import Kitp.CardDelete
import Kitp.CardMerge
import Kitp.Lib.Reps
import Kitp.ThreadFiling

/-! The lists of threads over runs that also move, merge, delete and undelete cards. -/
namespace Kitp.ThreadLists
open Kitp.Store Kitp.Attributes Kitp.CommLists Kitp.Runs Kitp.Steps

variable {db db' : Db} {actor comm task : Int}

section Move
open Kitp.CardMove

/-- A live thread goes under no live task, and comes from under none, unless it stays where
it is. -/
def KeepsThread (db : Db) (m : Move) : Prop :=
  Live db "comm" m.cardId → db.parent m.cardId≠some m.newParent →
    ¬Live db "task" m.newParent∧∀ q, db.parent m.cardId=some q → ¬Live db "task" q

theorem move_keeps {acc : Access} {input : Input} (hs : Sound db) (hi : InStep db)
    (hcond : ∀ m, validate input=.ok m → KeepsThread db m)
    (h : move acc actor db input=.ok db') : Sound db'∧InStep db' := by
  obtain ⟨m,c,t,hm,-,-,-,hp,-,-,-,a,rfl⟩ := move_ok h
  have hkeep := hcond m hm
  have hlive (name : String) (x : Int) :
      Live ((db.setParent (· = m.cardId) m.newParent).log a) name x↔Live db name x :=
    live_mapCards (fun r => by split <;> rfl) fun r => by split <;> exact ⟨rfl,rfl⟩
  have hparent (x : Int) : ((db.setParent (· = m.cardId) m.newParent).log a).parent x=
      if x=m.cardId then (db.card x).map fun _ => m.newParent else db.parent x := by
    have hcard := setParent_card db (· = m.cardId) m.newParent x
    change ((db.setParent (· = m.cardId) m.newParent).card x).bind _=_
    rw [hcard]
    by_cases hx : x=m.cardId
    · cases hc : db.card x <;> simp [hx]
    · simp [hx,Db.parent]
  refine ⟨Sound.log (hs.mapCards (fun r => by split <;> rfl) fun r q hr hq => ?_) a,
    fun task comm ht hc => ?_⟩
  · by_cases hrid : r.id=m.cardId
    · have hqp : m.newParent=q := by simpa [hrid] using hq
      exact hqp ▸ hp
    · have hrq : r.parentCardId=some q := by simpa [hrid] using hq
      exact hs.parents r.id q (by simp [Db.parent,hr,hrq])
  · have ht := (hlive "task" task).mp ht
    have hc := (hlive "comm" comm).mp hc
    have hlisted : listed ((db.setParent (· = m.cardId) m.newParent).log a) task comm=
        listed db task comm := rfl
    rw [hlisted,hi task comm ht hc,hparent]
    by_cases hcomm : comm=m.cardId
    · obtain ⟨r,hr⟩ := Option.isSome_iff_exists.mp hc.isCard
      subst hcomm
      rw [if_pos rfl,hr,Option.map_some]
      by_cases hstay : db.parent m.cardId=some m.newParent
      · rw [hstay]
      · obtain ⟨hto,hfrom⟩ := hkeep hc hstay
        have hne : m.newParent≠task := fun heq => hto (heq ▸ ht)
        have hno : db.parent m.cardId≠some task := fun hq => hfrom task hq ht
        simp [hne,hno]
    · rw [if_neg hcomm]

end Move

section Delete
open Kitp.CardDelete

variable {acc : Access} {cardId : Option Int}

theorem setDeleted_live (id : Int) (deleted : Bool) {name : String} {x : Int} (hx : x≠id) :
    Live (setDeleted db id deleted) name x↔Live db name x := by
  have htype : (setDeleted db id deleted).cardTypeName=db.cardTypeName := rfl
  rw [live_iff,live_iff,setDeleted_card,htype]
  simp [hx]

theorem setDeleted_parent (id : Int) (deleted : Bool) (x : Int) :
    (setDeleted db id deleted).parent x=db.parent x := by
  rw [Db.parent,setDeleted_card,Db.parent]
  cases hx : db.card x with
  | none => rfl
  | some r =>
    simp only [Option.map_some,Option.bind_some]
    split <;> rfl

theorem Sound.setDeleted (hs : Sound db) (id : Int) (deleted : Bool) :
    Sound (CardDelete.setDeleted db id deleted) := by
  refine hs.mapCards (fun r => by split <;> rfl) fun r p hr hp => ?_
  have hrp : r.parentCardId=some p := by
    split at hp <;> exact hp
  exact hs.parents r.id p (by simp [Db.parent,hr,hrp])

theorem delete_keeps (hs : Sound db) (hi : InStep db)
    (h : delete acc db actor cardId=.ok db') : Sound db'∧InStep db' := by
  obtain ⟨id,-,-,rfl⟩ := delete_ok h
  refine ⟨(hs.setDeleted id true).log _,fun task comm ht hc => ?_⟩
  have gone {name : String} (hx : Live (setDeleted db id true) name id) : False := by
    obtain ⟨r,hr,hdel,-⟩ := live_iff.mp hx
    rw [setDeleted_card] at hr
    obtain ⟨e,-,rfl⟩ := Option.map_eq_some_iff.mp hr
    simp at hdel
  have htid : task≠id := fun heq => gone (heq ▸ ht)
  have hcid : comm≠id := fun heq => gone (heq ▸ hc)
  have ht := (setDeleted_live id true htid).mp ht
  have hc := (setDeleted_live id true hcid).mp hc
  have hparent : ((setDeleted db id true).log ⟨id,"card_delete",none,none,none,actor⟩).parent comm=
      db.parent comm := setDeleted_parent id true comm
  rw [hparent]
  exact hi task comm ht hc

/-- What comes back is on the lists it should be on, and has the threads it should have. -/
def ReturnsListed (db : Db) (id : Int) : Prop := ∀ c, db.card id=some c →
  (db.cardTypeName c=some "comm" → ∀ task, Live db "task" task →
    listed db task id=if db.parent id=some task then 1 else 0)∧
  (db.cardTypeName c=some "task" → ∀ comm, Live db "comm" comm →
    listed db id comm=if db.parent comm=some id then 1 else 0)

/-- The link to a parent task is no list of threads. -/
theorem rejoin_keeps {id : Int} (hs : Sound db) (h : rejoin db actor id=.ok db') :
    SameCards db db'∧∀ x, threads db' x=threads db x := by
  rcases rejoin_ok h with ⟨-,rfl⟩ | ⟨project,-,rfl⟩
  · exact ⟨.refl _,fun _ => rfl⟩
  · split
    · refine ⟨TaskMove.unlink_keeps [id],fun x => ?_⟩
      have hdefs : (TaskMove.unlink db actor [id]).attributeDefs=db.attributeDefs := rfl
      have hstored : stored (TaskMove.unlink db actor [id]) x "comms"=stored db x "comms" := by
        refine stored_congr hdefs fun d hd => ?_
        have hlinked : d.id∉(TaskMove.defsNamed db ["parent_task","parent_relationship"]).map
            (·.id) := by
          intro hmem
          obtain ⟨e,he,heid⟩ := List.mem_map.mp hmem
          obtain ⟨n,hn,he⟩ := List.mem_filterMap.mp he
          refine hs.id_ne he hd (fun hname => ?_) heid
          rw [hname] at hn
          simp at hn
        have hdrop := value_dropValues db (fun c e => decide (c∈[id]∧
          e∈(TaskMove.defsNamed db ["parent_task","parent_relationship"]).map (·.id))) x d.id
        rw [if_neg (by simp [hlinked])] at hdrop
        exact hdrop
      rw [threads,hstored,threads]
    · exact ⟨.refl db,fun _ => rfl⟩

theorem undelete_keeps (hs : Sound db) (hi : InStep db)
    (hcond : ∀ id, cardId=some id → ReturnsListed db id)
    (h : undelete acc db actor cardId=.ok db') : Sound db'∧InStep db' := by
  obtain ⟨id,r,joined,hid,hr,hdel,hjoined,rfl⟩ := undelete_ok h
  obtain ⟨hsame,hlists⟩ := rejoin_keeps hs hjoined
  have hback := hcond id hid r hr
  have hsound := hs.beside (Apart.of_same hsame hlists).toBeside
  refine ⟨(hsound.setDeleted id false).log _,fun task comm ht hc => ?_⟩
  have hlisted (x c : Int) : listed ((setDeleted joined id false).log
      ⟨id,"card_undelete",none,none,none,actor⟩) x c=listed db x c := by
    change listed joined x c=_
    rw [listed,listed,hlists]
  have hparent (x : Int) : ((setDeleted joined id false).log
      ⟨id,"card_undelete",none,none,none,actor⟩).parent x=db.parent x := by
    change (setDeleted joined id false).parent x=_
    rw [setDeleted_parent,hsame.parent]
  have hlive {name : String} {x : Int} (hx : x≠id) (hl : Live ((setDeleted joined id false).log
      ⟨id,"card_undelete",none,none,none,actor⟩) name x) : Live db name x :=
    (live_same hsame).mp ((setDeleted_live id false hx).mp hl)
  have htype {name : String} (hl : Live ((setDeleted joined id false).log
      ⟨id,"card_undelete",none,none,none,actor⟩) name id) : db.cardTypeName r=some name := by
    obtain ⟨e,he,-,hname⟩ := live_iff.mp hl
    have he : (setDeleted joined id false).card id=some e := he
    have hname : joined.cardTypeName e=some name := hname
    rw [setDeleted_card,hsame.card,hr,Option.map_some,if_pos rfl] at he
    rw [hsame.cardTypeName] at hname
    cases he
    exact hname
  rw [hlisted,hparent]
  by_cases hcomm : comm=id
  · subst hcomm
    have htask : task≠comm := by
      intro heq
      rw [heq] at ht
      have := (htype hc).symm.trans (htype ht)
      simp at this
    exact hback.1 (htype hc) task (hlive htask ht)
  · by_cases htask : task=id
    · subst htask
      exact hback.2 (htype ht) comm (hlive hcomm hc)
    · exact hi task comm (hlive htask ht) (hlive hcomm hc)

end Delete

section Merge
open Kitp.CardMerge

variable {env : CardInsert.Env} {survivor : Int} {losers : List Int}

theorem cmp_ofInt (a b : Int) : Json.cmp (.ofInt a) (.ofInt b)=compare a b := by
  simp [Json.cmp,Json.ofInt,Json.Number.ofInt,Json.Number.digits,Json.Number.decimals,
    Json.Number.shift]

theorem isLoser_ofInt (i : Int) : isLoser losers (.ofInt i)=decide (i∈losers) := by
  simp [isLoser,refId,Json.ofInt,Json.Number.whole_ofInt]

/-- A list that has a loser is sorted, with the survivor in their place. -/
theorem repointed_numbers (survivor : Int) {ids : List Int} (h : ∃ l∈ids, l∈losers) : ∃ left : List Int,
    repointed survivor losers .cardRefs (.arr (ids.map .ofInt))=.arr (left.map .ofInt)∧
      left.Nodup∧∀ c, c∈left↔c=survivor∨(c∈ids∧c∉losers) := by
  obtain ⟨l,hl,hloser⟩ := h
  let renamed := ids.map fun i => if i∈losers then survivor else i
  let sorted := renamed.insertionSort (· ≤ ·)
  have hsort : (renamed.map Json.ofInt).insertionSort (Json.cmp · · ≠.gt)=sorted.map .ofInt := by
    refine (List.map_insertionSort _ _ Json.ofInt renamed fun a _ b _ => ?_).symm
    rw [cmp_ofInt]
    rw [ne_eq,compare_gt_iff_gt,not_lt]
  obtain ⟨hlt,hmem⟩ := Reps.eraseRepsBy_sorted (r := fun a b : Int => compare a b==.eq) (l := sorted)
    (fun a b => by simp) (List.pairwise_insertionSort _ renamed)
  refine ⟨sorted.eraseRepsBy fun a b => compare a b==.eq,?_,?_,fun c => ?_⟩
  · have hany : (ids.map Json.ofInt).any (isLoser losers)=true := by
      rw [List.any_map,List.any_eq_true]
      exact ⟨l,hl,by simp [isLoser_ofInt,hloser]⟩
    have hmap : (ids.map Json.ofInt).map (fun x => if isLoser losers x then .ofInt survivor else x)=
        renamed.map .ofInt := by
      simp only [renamed,List.map_map]
      refine List.map_congr_left fun i _ => ?_
      simp only [Function.comp_apply,isLoser_ofInt,decide_eq_true_eq]
      split <;> rfl
    simp only [repointed,hany,if_true]
    rw [hmap,hsort,Reps.map_eraseRepsBy]
    simp only [cmp_ofInt]
  · exact hlt.imp fun h => ne_of_lt h
  · rw [hmem,List.mem_insertionSort,List.mem_map]
    constructor
    · rintro ⟨i,hi,rfl⟩
      split
      · exact .inl rfl
      · rename_i hno
        exact .inr ⟨hi,hno⟩
    · rintro (rfl | ⟨hc,hno⟩)
      · exact ⟨l,hl,if_pos hloser⟩
      · exact ⟨c,hc,if_neg hno⟩

theorem repointed_none {ids : List Int} (h : ∀ l∈ids, l∉losers) :
    repointed survivor losers .cardRefs (.arr (ids.map .ofInt))=.arr (ids.map .ofInt) := by
  have hany : (ids.map Json.ofInt).any (isLoser losers)=false := by
    rw [List.any_map,List.any_eq_false]
    intro i hi
    simp [isLoser_ofInt,h i hi]
  simp [repointed,hany]

/-- The rows as a merge leaves them. -/
theorem merged_rows (db : Db) (actor survivor : Int) (losers : List Int) : ∃ f : Card → Card,
    (mergeInto (adopt db actor survivor losers) actor survivor losers).cards=db.cards.map f∧
      ∀ r, (f r).id=r.id∧(f r).cardTypeId=r.cardTypeId∧
        (f r).deleted=(r.deleted||decide (r.id∈losers))∧(f r).parentCardId=
          if r.id∈(orphans db losers).map (·.id) then some survivor else r.parentCardId := by
  let place (c : Card) : Card := if decide (c.id∈(orphans db losers).map (·.id)) then
    { c with parentCardId := some survivor } else c
  let owner (c : Card) : Card :=
    if c.privateTo.any (· ∈ losers) then { c with privateTo := some survivor } else c
  let drop (c : Card) : Card := if c.id∈losers then { c with deleted := true } else c
  have hplace (c : Card) : (place c).id=c.id∧(place c).cardTypeId=c.cardTypeId∧
      (place c).deleted=c.deleted∧(place c).parentCardId=
        if c.id∈(orphans db losers).map (·.id) then some survivor else c.parentCardId := by
    simp only [place,decide_eq_true_eq]
    split <;> exact ⟨rfl,rfl,rfl,rfl⟩
  have howner (c : Card) : (owner c).id=c.id∧(owner c).cardTypeId=c.cardTypeId∧
      (owner c).deleted=c.deleted∧(owner c).parentCardId=c.parentCardId := by
    simp only [owner]
    split <;> exact ⟨rfl,rfl,rfl,rfl⟩
  have hdrop (c : Card) : (drop c).id=c.id∧(drop c).cardTypeId=c.cardTypeId∧
      (drop c).deleted=(c.deleted||decide (c.id∈losers))∧(drop c).parentCardId=c.parentCardId := by
    simp only [drop]
    split
    · rename_i hc
      exact ⟨rfl,rfl,by simp [hc],rfl⟩
    · rename_i hc
      exact ⟨rfl,rfl,by simp [hc],rfl⟩
  refine ⟨fun c => drop (owner (place c)),?_,fun r => ⟨?_,?_,?_,?_⟩⟩
  · change ((db.cards.map place).map owner).map drop=_
    rw [List.map_map,List.map_map]
    rfl
  · rw [(hdrop _).1,(howner _).1,(hplace r).1]
  · rw [(hdrop _).2.1,(howner _).2.1,(hplace r).2.1]
  · rw [(hdrop _).2.2.1,(howner _).2.2.1,(howner _).1,(hplace r).1,(hplace r).2.2.1]
  · rw [(hdrop _).2.2.2,(howner _).2.2.2,(hplace r).2.2.2]

/-- A merge points the lists at the survivor. -/
theorem merged_stored (hs : Sound db) (actor survivor : Int) (losers : List Int) (x : Int) :
    stored (mergeInto (adopt db actor survivor losers) actor survivor losers) x "comms"=
      (stored db x "comms").map (repointed survivor losers .cardRefs) := by
  obtain ⟨d,hd,htype⟩ := hs.comms
  have hdef : db.attributeDef d.id=some d := hs.ids d (attributeNamed_mem hd).1
  have hnamed : (mergeInto (adopt db actor survivor losers) actor survivor losers).attributeNamed
      "comms"=some d := hd
  rw [stored,stored,hnamed,hd,Option.bind_some,Option.bind_some]
  change ((db.values.map fun v => { v with
      value := (db.attributeDef v.attributeDefId).elim v.value
        fun e => repointed survivor losers e.valueType v.value }).find?
    fun v => v.cardId=x∧v.attributeDefId=d.id).map (·.value)=_
  rw [List.find?_map,Option.map_map,Db.value,Option.map_map]
  simp only [Function.comp_def]
  cases hrow : db.values.find? (fun v => v.cardId=x∧v.attributeDefId=d.id) with
  | none => rfl
  | some w =>
    have hkey : w.cardId=x∧w.attributeDefId=d.id := by simpa using List.find?_some hrow
    simp [hkey.2,hdef,htype]

/-- A list is left alone, or has the survivor where it had losers. -/
theorem merged_threads (hs : Sound db) (actor survivor : Int) (losers : List Int) {x : Int}
    {ids : List Int} (hids : threads db x=ids.map .ofInt) : ∃ left : List Int,
    threads (mergeInto (adopt db actor survivor losers) actor survivor losers) x=left.map .ofInt∧
      (((∀ l∈ids, l∉losers)∧left=ids)∨
        ((∃ l∈ids, l∈losers)∧left.Nodup∧∀ c, c∈left↔c=survivor∨(c∈ids∧c∉losers))) := by
  rw [threads,merged_stored hs]
  rw [threads] at hids
  by_cases hany : ∃ l∈ids, l∈losers
  · cases hv : stored db x "comms" with
    | none => simp_all [elems]
    | some v =>
      cases v with
      | arr xs =>
        have hxs : xs=ids.map .ofInt := by simpa [hv,elems] using hids
        obtain ⟨left,hleft,hnodup,hmem⟩ := repointed_numbers survivor hany
        exact ⟨left,by rw [hxs,Option.map_some,hleft]; rfl,.inr ⟨hany,hnodup,hmem⟩⟩
      | _ => simp_all [elems]
  · have hnone : ∀ l∈ids, l∉losers := fun l hl hloser => hany ⟨l,hl,hloser⟩
    refine ⟨ids,?_,.inl ⟨hnone,rfl⟩⟩
    cases hv : stored db x "comms" with
    | none => simpa [hv,elems] using hids
    | some v =>
      cases v with
      | arr xs =>
        have hxs : xs=ids.map .ofInt := by simpa [hv,elems] using hids
        rw [hxs,Option.map_some,repointed_none hnone]
        rfl
      | _ => simpa [hv,elems,repointed] using hids

/-- No task that goes has a live thread under it, and a thread that goes from under a live
task goes into one that is under it too. -/
def MergesListed (db : Db) (survivor : Int) (losers : List Int) : Prop := ∀ l∈losers,
  (Live db "task" l → ∀ c, Live db "comm" c → db.parent c≠some l)∧
  (Live db "comm" l → ∀ t, Live db "task" t → db.parent l=some t → db.parent survivor=some t)

theorem mem_orphans (hs : Sound db) {x : Int} {r : Card} (hr : db.card x=some r) :
    x∈(orphans db losers).map (·.id)↔r.deleted=false∧∃ p∈losers, r.parentCardId=some p := by
  have hid := card_id hr
  have hmem : r∈db.cards := List.mem_of_find?_eq_some hr
  simp only [orphans,List.mem_map,List.mem_filter,Bool.and_eq_true,Bool.not_eq_true',
    Option.any_eq_true,decide_eq_true_eq]
  constructor
  · rintro ⟨c,⟨hc,hlive,p,hp,hloser⟩,hcx⟩
    have hcr : c=r := Option.some.inj ((hs.keyed c hc).symm.trans (hcx ▸ hr))
    subst hcr
    exact ⟨hlive,p,hloser,hp⟩
  · rintro ⟨hlive,p,hloser,hp⟩
    exact ⟨r,⟨hmem,hlive,p,hp,hloser⟩,hid⟩

theorem Sound.merged (hs : Sound db) (actor : Int) (hsurvivor : (db.card survivor).isSome)
    (losers : List Int) :
    Sound (mergeInto (adopt db actor survivor losers) actor survivor losers) := by
  obtain ⟨f,hcards,hf⟩ := merged_rows db actor survivor losers
  have hmapped : Sound (db.mapCards f) := by
    refine hs.mapCards (fun r => (hf r).1) fun r p hr hp => ?_
    rw [(hf r).2.2.2] at hp
    split at hp
    · cases hp
      exact hsurvivor
    · exact hs.parents r.id p (by simp [Db.parent,hr,hp])
  have hcard : (mergeInto (adopt db actor survivor losers) actor survivor losers).card=
      (db.mapCards f).card := by
    funext x
    simp only [Db.card,hcards,Db.mapCards]
  have hparent : (mergeInto (adopt db actor survivor losers) actor survivor losers).parent=
      (db.mapCards f).parent := by
    funext x
    simp only [Db.parent,hcard]
  refine ⟨hs.ids,hs.comms,hs.types,hs.seeded,?_,?_,?_,fun x => ?_,fun x hx => ?_⟩
  · rw [hcards,hcard]
    exact hmapped.keyed
  · rw [hcard]
    exact hmapped.fresh
  · rw [hcard,hparent]
    exact hmapped.parents
  · obtain ⟨ids,hids,hlt⟩ := hs.numbers x
    obtain ⟨left,hleft,hmem⟩ := merged_threads hs actor survivor losers hids
    refine ⟨left,hleft,fun i hi => ?_⟩
    rcases hmem with ⟨-,rfl⟩ | ⟨-,-,hmem⟩
    · exact hlt i hi
    · cases (hmem i).mp hi with
      | inl heq => exact heq ▸ hs.fresh survivor hsurvivor
      | inr hold => exact hlt i hold.1
  · have hnil : threads db x=([] : List Int).map .ofInt := hs.owned x hx
    obtain ⟨left,hleft,hmem⟩ := merged_threads hs actor survivor losers hnil
    rcases hmem with ⟨-,rfl⟩ | ⟨⟨l,hl,-⟩,-⟩
    · exact hleft
    · simp at hl

theorem merge_keeps {input : Input} (hs : Sound db) (hi : InStep db)
    (hcond : ∀ survivor losers, validate input=.ok (survivor,losers) →
      MergesListed db survivor losers)
    (h : merge env db actor input=.ok db') : Sound db'∧InStep db' := by
  obtain ⟨survivor,losers,s,hv,hsurvivor,hslive,halike,rfl⟩ := merge_alike h
  have hlisted := hcond survivor losers hv
  refine ⟨hs.merged actor (by simp [hsurvivor]) losers,fun task comm ht hc => ?_⟩
  obtain ⟨f,hcards,hf⟩ := merged_rows db actor survivor losers
  have hcard (x : Int) : (mergeInto (adopt db actor survivor losers) actor survivor losers).card x=
      (db.card x).map f := by
    rw [← mapCards_card (fun r => (hf r).1)]
    simp only [Db.card,hcards,Db.mapCards]
  -- who is live after it was live, and is no loser
  have hback {name : String} {x : Int}
      (hx : Live (mergeInto (adopt db actor survivor losers) actor survivor losers) name x) :
      Live db name x∧x∉losers := by
    obtain ⟨e,he,hlive,hname⟩ := live_iff.mp hx
    rw [hcard] at he
    obtain ⟨r,hr,rfl⟩ := Option.map_eq_some_iff.mp he
    rw [(hf r).2.2.1,card_id hr] at hlive
    simp only [Bool.or_eq_false_iff,decide_eq_false_iff_not] at hlive
    refine ⟨live_iff.mpr ⟨r,hr,hlive.1,?_⟩,hlive.2⟩
    rw [← hname]
    simp only [Db.cardTypeName,(hf r).2.1]
    rfl
  obtain ⟨htask,htno⟩ := hback ht
  obtain ⟨hcomm,hcno⟩ := hback hc
  have hkind {name : String} {l : Int} (hl : l∈losers) (hname : Live db name survivor) :
      Live db name l := by
    obtain ⟨e,he,-,hename⟩ := live_iff.mp hname
    obtain ⟨c,hc,hclive,hctype⟩ := halike l hl
    have hes : e=s := Option.some.inj (he.symm.trans hsurvivor)
    subst hes
    exact live_iff.mpr ⟨c,hc,hclive,by rw [← hename,Db.cardTypeName,hctype]; rfl⟩
  have hparent : (mergeInto (adopt db actor survivor losers) actor survivor losers).parent comm=
      some task↔db.parent comm=some task := by
    obtain ⟨r,hr,hrlive,-⟩ := live_iff.mp hcomm
    have hrp : db.parent comm=r.parentCardId := by simp [Db.parent,hr]
    have hmp : (mergeInto (adopt db actor survivor losers) actor survivor losers).parent comm=
        if comm∈(orphans db losers).map (·.id) then some survivor else r.parentCardId := by
      rw [Db.parent,hcard,hr,Option.map_some,Option.bind_some,(hf r).2.2.2,card_id hr]
    rw [hmp,hrp]
    split
    · -- its old parent is a loser, so no task
      rename_i horphan
      obtain ⟨-,p,hp,hpr⟩ := (mem_orphans hs hr).mp horphan
      have hnosurvivor : survivor≠task := fun heq =>
        (hlisted p hp).1 (hkind hp (heq ▸ htask)) comm hcomm (hrp.trans hpr)
      have hnoloser : p≠task := fun heq => htno (heq ▸ hp)
      simp [hpr,hnosurvivor,hnoloser]
    · exact Iff.rfl
  obtain ⟨ids,hids,-⟩ := hs.numbers task
  have hin (c : Int) (hc : Live db "comm" c) : c∈ids↔db.parent c=some task := by
    have hcount := hi task c htask hc
    rw [listed_numbers hids] at hcount
    rw [← List.count_pos_iff,hcount]
    split
    · rename_i hp
      simp [hp]
    · rename_i hp
      simp [hp]
  obtain ⟨left,hleft,hmem⟩ := merged_threads hs actor survivor losers hids
  rw [listed_numbers hleft]
  rcases hmem with ⟨-,rfl⟩ | ⟨⟨l,hl,hloser⟩,hnodup,hmem⟩
  · have hcount := hi task comm htask hcomm
    rw [listed_numbers hids] at hcount
    rw [hcount]
    simp only [hparent]
  · have hleft : comm∈left↔db.parent comm=some task := by
      rw [hmem]
      by_cases heq : comm=survivor
      · subst heq
        have hlcomm := hkind hloser hcomm
        have hlp := (hin l hlcomm).mp hl
        simp [(hlisted l hloser).2 hlcomm task htask hlp]
      · simp [heq,hcno,hin comm hcomm]
    rw [hnodup.count]
    simp only [hleft,hparent]

end Merge

/-- A successful call, with the answers of the functions it calls. -/
inductive Op where
  | create (env : CardInsert.Env) (actor : Int) (candidates : List String)
      (input : CommThreads.CreateInput)
  | file (text : CommFiling.Text) (areas : Visibility.Areas) (verified : List (Int×String))
      (actor : Int) (candidates : List String) (inbox : CommFiling.Intake)
      (copy : Option CommFiling.RelayCopy) (m : CommFiling.Message)
  | attach (env : CardInsert.Env) (actor : Int) (input : CommThreads.AttachInput)
  | move (acc : Access) (actor : Int) (input : CardMove.Input)
  | merge (env : CardInsert.Env) (actor : Int) (input : CardMerge.Input)
  | delete (acc : Access) (actor : Int) (cardId : Option Int)
  | undelete (acc : Access) (actor : Int) (cardId : Option Int)

/-- Mail is filed on an account under a card, as the rows' references have it. -/
def step (db : Db) : Op → Option Db
  | .create env actor candidates input =>
    ((CommThreads.create env db actor candidates input).map (·.1)).toOption
  | .file text areas verified actor candidates inbox copy m =>
    if (db.card inbox.projectId).isSome then
      ((CommFiling.processOne text areas verified db actor candidates inbox copy m).map
        (·.1)).toOption
    else none
  | .attach env actor input => (CommThreads.attach env db actor input).toOption
  | .move acc actor input => (CardMove.move acc actor db input).toOption
  | .merge env actor input => (CardMerge.merge env db actor input).toOption
  | .delete acc actor cardId => (CardDelete.delete acc db actor cardId).toOption
  | .undelete acc actor cardId => (CardDelete.undelete acc db actor cardId).toOption

/-- A mail account is under no task; a move takes no live thread to or from a live task, a
merge no thread from a task it isn't on already, and what comes back is listed as it should
be. -/
def Tame (db : Db) : Op → Prop
  | .file _ _ _ _ _ inbox _ _ => ¬Live db "task" inbox.projectId
  | .move _ _ input => ∀ m, CardMove.validate input=.ok m → KeepsThread db m
  | .merge _ _ input => ∀ survivor losers, CardMerge.validate input=.ok (survivor,losers) →
    MergesListed db survivor losers
  | .undelete _ _ cardId => ∀ id, cardId=some id → ReturnsListed db id
  | _ => True

theorem step_keeps {op : Op} (hs : Sound db) (hi : InStep db) (hok : Tame db op)
    (h : step db op=some db') : Sound db'∧InStep db' := by
  cases op with
  | create env actor candidates input =>
    obtain ⟨⟨made,answer⟩,hmade,rfl⟩ := map_ok (ok_of_toOption h)
    exact create_keeps hs hi hmade
  | file text areas verified actor candidates inbox copy m =>
    simp only [step] at h
    split at h
    · rename_i hproject
      obtain ⟨⟨made,answer⟩,hmade,rfl⟩ := map_ok (ok_of_toOption h)
      exact processOne_keeps hs hi hproject hok hmade
    · cases h
  | attach env actor input => exact attach_keeps hs hi (ok_of_toOption h)
  | move acc actor input => exact move_keeps hs hi hok (ok_of_toOption h)
  | merge env actor input => exact merge_keeps hs hi hok (ok_of_toOption h)
  | delete acc actor cardId => exact delete_keeps hs hi (ok_of_toOption h)
  | undelete acc actor cardId => exact undelete_keeps hs hi hok (ok_of_toOption h)

/-- Over such a run a live thread is on its task's list, once, and on no other live task's. -/
theorem threads_in_step {start : Db} {ops : List Op} (hs : Sound start) (hi : InStep start)
    (hrun : Run step Tame start ops db) : ∀ task comm, Live db "task" task → Live db "comm" comm →
      listed db task comm=if db.parent comm=some task then 1 else 0 := by
  have hkept : Sound db∧InStep db := hrun.inv (fun db => Sound db∧InStep db)
    (fun _ _ _ hI hok hst => step_keeps hI.1 hI.2 hok hst) ⟨hs,hi⟩
  exact hkept.2

section Examples

/-- A project with two tasks, the first with a thread. -/
def project : Db where
  cardTypes := [⟨1,"project",none,false⟩,⟨2,"task",some 1,true⟩,⟨3,"comm",some 2,false⟩]
  attributeDefs := [⟨1,"comms",.cardRefs,none,none⟩]
  cards := [⟨1,1,none,none,false,.triage⟩,⟨2,2,some 1,none,false,.triage⟩,
    ⟨3,2,some 1,none,false,.triage⟩,⟨4,3,some 2,none,false,.triage⟩]
  values := [⟨2,1,numbers [4]⟩]
  nextCardId := 5

/-- Whoever asks may. -/
def anyone : Access :=
  ⟨fun _ _ => true,fun _ _ _ => true,fun _ _ _ _ _ => true,fun _ _ _ _ => false,
    fun _ _ _ _ => true,fun _ _ ids => ids,fun _ _ _ _ => true,fun _ _ => false⟩

/-- One workspace admin. -/
def alone : CardInsert.Env :=
  ⟨anyone,⟨[⟨1,none,false⟩],[⟨1,1,none⟩],[⟨1,"admin",100⟩],[]⟩,⟨[],[],[]⟩,fun _ => none⟩

theorem live_mem {name : String} {x : Int} (h : Live db name x) :
    (x,some name)∈db.cards.map fun c => (c.id,db.cardTypeName c) := by
  obtain ⟨c,hc,-,hname⟩ := live_iff.mp h
  exact List.mem_map.mpr ⟨c,List.mem_of_find?_eq_some hc,by rw [card_id hc,hname]⟩

theorem live_task (h : db.cards.map (fun c => (c.id,db.cardTypeName c))=
      [(1,some "project"),(2,some "task"),(3,some "task"),(4,some "comm")]) {x : Int}
    (hx : Live db "task" x) : x=2∨x=3 := by
  have hmem := live_mem hx
  rw [h] at hmem
  simpa using hmem

theorem project_inStep : InStep project := by
  intro task comm ht hc
  have hcomm : comm=4 := by simpa [project,Db.cardTypeName,Db.cardType] using live_mem hc
  subst hcomm
  rcases live_task rfl ht with rfl | rfl
  · rfl
  · rfl

theorem project_sound : Sound project where
  ids d hd := by
    rw [List.mem_singleton.mp hd]
    rfl
  comms := ⟨_,rfl,rfl⟩
  types := by decide
  seeded name hname := by
    rcases hname with rfl | rfl
    · rfl
    · rfl
  keyed := by decide
  fresh x hx := by
    obtain ⟨c,hc⟩ := Option.isSome_iff_exists.mp hx
    have hmem : c∈project.cards := List.mem_of_find?_eq_some hc
    have hlt : ∀ c∈project.cards, c.id<project.nextCardId := by decide
    exact card_id hc ▸ hlt c hmem
  parents x p hp := by
    obtain ⟨c,hc,hcp⟩ := Option.bind_eq_some_iff.mp hp
    have hmem : c∈project.cards := List.mem_of_find?_eq_some hc
    have hall : ∀ c∈project.cards, c.parentCardId.all fun p => (project.card p).isSome := by decide
    have := hall c hmem
    rw [hcp] at this
    exact this
  numbers x := by
    by_cases hx : x=2
    · subst hx
      exact ⟨[4],rfl,by decide⟩
    · have hnil : threads project x=[] := by
        simp [threads,stored,project,Db.attributeNamed,Db.value,Ne.symm hx,elems]
      exact ⟨[],hnil,by simp⟩
  owned x hx := by
    have hx : x≠2 := by
      intro heq
      subst heq
      exact absurd hx (by decide)
    simp [threads,stored,project,Db.attributeNamed,Db.value,Ne.symm hx,elems]

/-- The thread is attached to the second task, goes and comes back. -/
theorem threads_in_step_after_attach : ∃ db, Run step Tame project
    [.attach alone 1 ⟨some 4,3,""⟩,.delete anyone 1 (some 4),.undelete anyone 1 (some 4)] db∧
      ∀ task comm, Live db "task" task → Live db "comm" comm →
        listed db task comm=if db.parent comm=some task then 1 else 0 := by
  have hrun : ∃ db, Run step Tame project
      [.attach alone 1 ⟨some 4,3,""⟩,.delete anyone 1 (some 4),.undelete anyone 1 (some 4)] db := by
    refine ⟨_,.cons trivial rfl (.cons trivial rfl (.cons ?_ rfl (.nil _)))⟩
    intro id hid c hc
    cases hid
    cases hc
    refine ⟨fun _ task ht => ?_,fun htype => absurd htype (by decide)⟩
    rcases live_task rfl ht with rfl | rfl
    · rfl
    · rfl
  obtain ⟨db,hrun⟩ := hrun
  exact ⟨db,hrun,threads_in_step project_sound project_inStep hrun⟩

/-- The thread is moved to the second task, and stays on the first one's list. -/
theorem listed_after_move : Sound project∧InStep project∧∃ db, Run step (fun _ _ => True) project
    [.move anyone 1 ⟨some 4,some 3⟩] db∧¬∀ task comm, Live db "task" task → Live db "comm" comm →
      listed db task comm=if db.parent comm=some task then 1 else 0 := by
  have hend : ([.move anyone 1 ⟨some 4,some 3⟩].foldlM step project).map (fun db =>
      ((CommThreads.typed db 2).any (·.2="task"),(CommThreads.typed db 4).any (·.2="comm"),listed db 2 4,
        db.parent 4))=some (true,true,1,some 3) := rfl
  obtain ⟨db,hdb,hend⟩ := Option.map_eq_some_iff.mp hend
  refine ⟨project_sound,project_inStep,db,.of_foldlM hdb (by simp),fun hall => ?_⟩
  simp only [Prod.mk.injEq] at hend
  obtain ⟨htask,hcomm,hlisted,hparent⟩ := hend
  have hcount := hall 2 4 htask hcomm
  rw [hlisted,hparent] at hcount
  simp at hcount

end Examples

end Kitp.ThreadLists
