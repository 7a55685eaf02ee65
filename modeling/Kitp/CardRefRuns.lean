import Kitp.CardMerge
import Kitp.CardRefs
import Kitp.Lib.Reps
import Kitp.TaskPurge

/-! The cards that values name over runs of `card.insert`, `attribute.update`, `card.merge`,
`card.delete`, `card.undelete` and `task.purge`. -/
namespace Kitp.CardRefs
open Kitp.Store Kitp.Attributes Kitp.Runs Kitp.Steps

variable {db db' : Db} {actor c d : Int} {v : Json}

/-- The card rows change; the live ones still hold what they should. -/
theorem Sound.mapCards {f : Card → Card} (h : Sound db) (hf : ∀ r, (f r).id=r.id)
    (hlive : ∀ w∈db.values, (db.mapCards f).live w.cardId → Whole db w) : Sound (db.mapCards f) := by
  have hcard := mapCards_card hf db
  have hgrown : Grown db (db.mapCards f) := ⟨rfl,fun x hx => by rw [hcard]; simpa using hx⟩
  refine ⟨h.ids,h.names,h.plain,?_,?_,h.rows,fun w hw => hgrown.cards _ (h.owned w hw),
    fun w hw hl => (hlive w hw hl).grown hgrown⟩
  · intro e he
    obtain ⟨r,hr,rfl⟩ := List.mem_map.mp he
    rw [hcard,hf,h.keyed r hr,Option.map_some]
  · intro e he
    obtain ⟨r,hr,rfl⟩ := List.mem_map.mp he
    rw [hf]
    exact h.fresh r hr

/-- No deleted card comes back. -/
theorem Sound.mapCards_deleted {f : Card → Card} (h : Sound db) (hf : ∀ r, (f r).id=r.id)
    (hdel : ∀ r, r.deleted=true → (f r).deleted=true) : Sound (db.mapCards f) := by
  refine h.mapCards hf fun w hw hlive => h.refs w hw ?_
  rw [Db.live,mapCards_card hf] at hlive
  cases hr : db.card w.cardId with
  | none => simp [hr] at hlive
  | some r =>
    cases hd : r.deleted with
    | false => simp [Db.live,hr,hd]
    | true => simp [hr,hdel r hd] at hlive

theorem Sound.mapValues {g : AttributeValue → AttributeValue} (h : Sound db)
    (hkey : ∀ w, (g w).cardId=w.cardId∧(g w).attributeDefId=w.attributeDefId)
    (hrefs : ∀ w, Whole db w → Whole db (g w)) : Sound { db with values := db.values.map g } := by
  refine ⟨h.ids,h.names,h.plain,h.keyed,h.fresh,?_,?_,?_⟩
  · rw [List.pairwise_map]
    refine h.rows.imp fun {a b} hne => ?_
    rw [(hkey a).1,(hkey a).2,(hkey b).1,(hkey b).2]
    exact hne
  · intro e he
    obtain ⟨w,hw,rfl⟩ := List.mem_map.mp he
    rw [(hkey w).1]
    exact h.owned w hw
  · intro e he hlive
    obtain ⟨w,hw,rfl⟩ := List.mem_map.mp he
    rw [(hkey w).1] at hlive
    exact hrefs w (h.refs w hw hlive)

theorem Sound.dropValues (h : Sound db) (gone : AttributeValue → Bool) :
    Sound (db.dropValues gone) := by
  refine ⟨h.ids,h.names,h.plain,h.keyed,h.fresh,h.rows.filter _,fun w hw => ?_,fun w hw => ?_⟩
  · exact h.owned w (List.mem_of_mem_filter hw)
  · exact h.refs w (List.mem_of_mem_filter hw)

section Merge
open Kitp.CardMerge

variable {env : CardInsert.Env} {survivor : Int} {losers : List Int}

/-- A repointed value names the survivor where it named a loser, and cards it named before. -/
theorem refIds_repointed {t : ValueType} {id : Int} (h : id∈refIds t (repointed survivor losers t v)) :
    id=survivor∧(∃ l∈losers, l∈refIds t v)∨id∈refIds t v := by
  cases t with
  | cardRef =>
    simp only [repointed] at h
    split at h
    · rename_i hloser
      obtain ⟨l,hl,hmem⟩ := (Option.any_eq_true _ _).mp hloser
      exact .inl ⟨refIds_ofInt h,l,by simpa using hmem,by simp [refIds,hl]⟩
    · exact .inr h
  | cardRefs =>
    cases v with
    | arr xs =>
      simp only [repointed] at h
      split at h
      · simp only [refIds,List.mem_filterMap] at h ⊢
        obtain ⟨y,hy,hid⟩ := h
        have hmem := (List.mem_insertionSort _).mp (Reps.mem_eraseRepsBy hy)
        obtain ⟨x,hx,rfl⟩ := List.mem_map.mp hmem
        split at hid
        · rename_i hloser
          simp only [refId,Json.ofInt,Json.Number.whole_ofInt,Option.some.injEq] at hid
          obtain ⟨l,hl,hlmem⟩ := (Option.any_eq_true _ _).mp hloser
          exact .inl ⟨hid.symm,l,by simpa using hlmem,x,hx,hl⟩
        · exact .inr ⟨x,hx,hid⟩
      · exact .inr h
    | null => exact .inr h
    | bool b => exact .inr h
    | num n => exact .inr h
    | str s => exact .inr h
    | obj fs => exact .inr h
  | text => exact .inr h
  | number => exact .inr h
  | bool => exact .inr h
  | date => exact .inr h

/-- A merge names the survivor wherever it named a loser. -/
theorem Sound.merge {input : CardMerge.Input} (h : Sound db)
    (hm : merge env db actor input=.ok db') : Sound db' := by
  obtain ⟨survivor,losers,-,-,hsurvivor,-,rfl⟩ := merge_ok hm
  let adopted := db.setParent (· ∈ (orphans db losers).map (·.id)) survivor
  let owner (r : Card) : Card :=
    if r.privateTo.any (· ∈ losers) then { r with privateTo := some survivor } else r
  let drop (r : Card) : Card := if r.id∈losers then { r with deleted := true } else r
  have hadopted : Sound adopted := by
    refine h.mapCards_deleted (fun r => ?_) fun r hr => ?_
    · split <;> rfl
    · split <;> exact hr
  have howned : Sound (adopted.mapCards owner) := by
    refine hadopted.mapCards_deleted (fun r => ?_) fun r hr => ?_
    · simp only [owner]
      split <;> rfl
    · simp only [owner]
      split <;> exact hr
  have hgone : Sound ((adopted.mapCards owner).mapCards drop) := by
    refine howned.mapCards_deleted (fun r => ?_) fun r hr => ?_
    · simp only [drop]
      split <;> rfl
    · simp only [drop]
      split
      · rfl
      · exact hr
  have hrow : (((adopted.mapCards owner).mapCards drop).card survivor).isSome := by
    rw [mapCards_card (by intro r; simp only [drop]; split <;> rfl),
      mapCards_card (by intro r; simp only [owner]; split <;> rfl),setParent_card]
    simpa using hsurvivor
  refine (hgone.mapValues (g := fun w => { w with
      value := (db.attributeDef w.attributeDefId).elim w.value
        fun e => repointed survivor losers e.valueType w.value }) (fun w => ⟨rfl,rfl⟩) ?_).congr
    ⟨rfl,rfl,rfl,rfl,rfl⟩ rfl
  intro w hw
  refine whole_of_refIds fun e he id hid h0 => ?_
  have he' : db.attributeDef w.attributeDefId=some e := he
  rw [he',Option.elim_some] at hid
  cases refIds_repointed hid with
  | inl hid => exact hid.1 ▸ hrow
  | inr hid => exact hw.refIds he hid h0

end Merge

section Delete
open Kitp.CardDelete

variable {acc : Access} {cardId : Option Int}

theorem Sound.delete (h : Sound db) (hd : delete acc db actor cardId=.ok db') : Sound db' := by
  obtain ⟨id,-,-,rfl⟩ := delete_ok hd
  have hdeleted : Sound (setDeleted db id true) := by
    refine h.mapCards_deleted (fun r => ?_) fun r hr => ?_
    · split <;> rfl
    · split
      · rfl
      · exact hr
  exact hdeleted.congr ⟨rfl,rfl,rfl,rfl,rfl⟩ rfl

/-- The cards the card's values name are there; a parent task may be gone where its
undelete takes the card out from under it. -/
def ReturnsWhole (db : Db) (id : Int) : Prop :=
  ∀ w∈db.values, w.cardId=id → Whole db w∨
    ((cardEnclosingProject db id).isSome∧
      (db.attributeDef w.attributeDefId).any (·.name="parent_task"))

theorem find_row {rows : List AttributeValue} (h : rows.Pairwise fun v w =>
      ¬(v.cardId=w.cardId∧v.attributeDefId=w.attributeDefId)) {w : AttributeValue} (hw : w∈rows) :
    rows.find? (fun x => x.cardId=w.cardId∧x.attributeDefId=w.attributeDefId)=some w := by
  induction rows with
  | nil => simp at hw
  | cons r rows ih =>
    obtain ⟨hr,hrows⟩ := List.pairwise_cons.mp h
    cases List.mem_cons.mp hw with
    | inl hw =>
      subst hw
      rw [List.find?_cons_of_pos (by simp)]
    | inr hw =>
      rw [List.find?_cons_of_neg (by simpa using hr w hw)]
      exact ih hrows hw

theorem value_of_mem (h : Sound db) {w : AttributeValue} (hw : w∈db.values) :
    db.value w.cardId w.attributeDefId=some w.value := by
  rw [Db.value,find_row h.rows hw,Option.map_some]

theorem card_of_project {id p : Int} (h : cardEnclosingProject db id=some p) :
    (db.card id).isSome := by
  cases hc : db.card id with
  | none => simp [cardEnclosingProject,cardAncestors,hc] at h
  | some r => rfl

/-- A parent task that is gone is unlinked. -/
theorem parentGone_or_whole (h : Sound db) {w : AttributeValue} (hw : w∈db.values) {e : AttributeDef}
    (he : db.attributeDef w.attributeDefId=some e) (hname : e.name="parent_task") (project : Int) :
    parentGone db w.cardId project=true∨Whole db w := by
  by_cases hgone : parentGone db w.cardId project=true
  · exact .inl hgone
  · refine .inr (whole_of_refIds fun k hk id hid _ => ?_)
    have hke : k=e := Option.some.inj (hk.symm.trans he)
    have hnamed : db.attributeNamed "parent_task"=some e := named_of_mem h he hname
    have hid' : e.id=w.attributeDefId := by simpa using List.find?_some he
    have hvalue : db.value w.cardId e.id=some w.value := by
      rw [hid']
      exact value_of_mem h hw
    simp only [parentGone,hnamed,Option.any_some,hvalue,decide_eq_true_eq,ne_eq,not_not] at hgone
    rw [hke] at hid
    cases hv : w.value with
    | num n =>
      rw [hv] at hgone hid
      obtain ⟨t,ht,hp⟩ := Option.bind_eq_some_iff.mp hgone
      have hidt : id=t := by
        cases hty : e.valueType with
        | cardRef => simpa [hty,refIds,refId,ht,eq_comm] using hid
        | cardRefs => simp [hty,refIds] at hid
        | text => simp [hty,refIds] at hid
        | number => simp [hty,refIds] at hid
        | bool => simp [hty,refIds] at hid
        | date => simp [hty,refIds] at hid
      exact hidt ▸ card_of_project hp
    | null => simp [hv] at hgone
    | bool b => simp [hv] at hgone
    | str s => simp [hv] at hgone
    | arr xs => simp [hv] at hgone
    | obj fs => simp [hv] at hgone

theorem Sound.undelete (h : Sound db) (hcond : ∀ id, cardId=some id → ReturnsWhole db id)
    (hu : undelete acc db actor cardId=.ok db') : Sound db' := by
  obtain ⟨id,r,joined,hid,-,-,hjoined,rfl⟩ := undelete_ok hu
  have hwhole := hcond id hid
  -- what it comes back with names cards that are there
  have hback : Sound joined∧∀ w∈joined.values, w.cardId=id → Whole joined w := by
    rcases rejoin_ok hjoined with ⟨hnone,rfl⟩ | ⟨project,hp,rfl⟩
    · refine ⟨h,fun w hw hc => ?_⟩
      cases hwhole w hw hc with
      | inl hw => exact hw
      | inr hparent => simp [hnone] at hparent
    · split
      · rename_i hgone
        refine ⟨(h.dropValues _).congr ⟨rfl,rfl,rfl,rfl,rfl⟩ rfl,fun w hw hc => ?_⟩
        obtain ⟨hw,hkept⟩ := List.mem_filter.mp hw
        cases hwhole w hw hc with
        | inl hw => exact hw
        | inr hparent =>
          obtain ⟨e,he,hname⟩ := (Option.any_eq_true _ _).mp hparent.2
          have hnamed : db.attributeNamed "parent_task"=some e :=
            named_of_mem h he (by simpa using hname)
          have heid : e.id=w.attributeDefId := by simpa using List.find?_some he
          simp [hc,TaskMove.defsNamed,hnamed,heid] at hkept
      · rename_i hgone
        refine ⟨h,fun w hw hc => ?_⟩
        cases hwhole w hw hc with
        | inl hw => exact hw
        | inr hparent =>
          obtain ⟨e,he,hname⟩ := (Option.any_eq_true _ _).mp hparent.2
          cases parentGone_or_whole h hw he (by simpa using hname) project with
          | inl hg => exact absurd (hc ▸ hg) hgone
          | inr hw => exact hw
  have hlived : Sound (setDeleted joined id false) := by
    refine hback.1.mapCards (fun r => by split <;> rfl) fun w hw hlive => ?_
    by_cases hc : w.cardId=id
    · exact hback.2 w hw hc
    · refine hback.1.refs w hw ?_
      have hcard := setDeleted_card joined id false w.cardId
      rw [setDeleted] at hcard
      simpa [Db.live,hcard,hc] using hlive
  exact hlived.congr ⟨rfl,rfl,rfl,rfl,rfl⟩ rfl

end Delete

section Purge
open Kitp.TaskPurge

/-- No value of a live card that stays names a card that goes. -/
def Unnamed (db : Db) (gone : List Int) : Prop :=
  ∀ w∈db.values, db.live w.cardId → w.cardId∉gone → ∀ x∈named db w, x∉gone

theorem Sound.purge {attached : Int → Bool} {cardId : Option Int} {p : Purged} (h : Sound db)
    (hcond : ∀ id, cardId=some id → Unnamed db (own db id))
    (hp : purge attached db cardId=.ok (db',p)) : Sound db' := by
  obtain ⟨id,hid,hpurge⟩ := purge_ok hp
  have hunnamed := hcond id hid
  have hdef : db'.attributeDef=db.attributeDef := by
    funext x
    simp only [Db.attributeDef,hpurge.attributeDefs]
  refine ⟨?_,?_,?_,?_,?_,?_,?_,?_⟩
  · simpa only [hpurge.attributeDefs,hdef] using h.ids
  · simpa only [hpurge.attributeDefs] using h.names
  · simpa only [hpurge.attributeDefs] using h.plain
  · intro r hr
    have hstays : r.id∉own db id := by
      intro hgone
      have hcard := hpurge.card r.id
      rw [if_pos hgone] at hcard
      have := List.find?_eq_none.mp hcard r hr
      simp at this
    rw [hpurge.card,if_neg hstays]
    exact h.keyed r (hpurge.cards.mem hr)
  · intro r hr
    rw [hpurge.nextCardId]
    exact h.fresh r (hpurge.cards.mem hr)
  · exact h.rows.sublist hpurge.values
  · intro w hw
    obtain ⟨hw,hstays⟩ := (hpurge.mem w).mp hw
    rw [hpurge.card,if_neg hstays]
    exact h.owned w hw
  · intro w hw hlive x hx
    obtain ⟨hw,hstays⟩ := (hpurge.mem w).mp hw
    rw [Db.live,hpurge.card,if_neg hstays] at hlive
    rw [named_congr hpurge.attributeDefs] at hx
    rw [hpurge.card,if_neg (hunnamed w hw hlive hstays x hx)]
    exact h.refs w hw hlive x hx

end Purge

/-- A successful call of one of the operations, with what the functions it calls answer. -/
inductive Op where
  | insert (env : CardInsert.Env) (actor : Int) (input : CardInsert.Input)
  | update (acc : Access) (dir : Accounts.Directory) (pick : List FlowStep → Option FlowStep)
      (actor : Int) (input : AttributeUpdate.Input)
  | merge (env : CardInsert.Env) (actor : Int) (input : CardMerge.Input)
  | delete (acc : Access) (actor : Int) (cardId : Option Int)
  | undelete (acc : Access) (actor : Int) (cardId : Option Int)
  | purge (attached : Int → Bool) (cardId : Option Int)

def step (db : Db) : Op → Option Db
  | .insert env actor input => (CardInsert.insert env db actor input).toOption
  | .update acc dir pick actor input => (AttributeUpdate.update acc dir pick db actor input).toOption
  | .merge env actor input => (CardMerge.merge env db actor input).toOption
  | .delete acc actor cardId => (CardDelete.delete acc db actor cardId).toOption
  | .undelete acc actor cardId => (CardDelete.undelete acc db actor cardId).toOption
  | .purge attached cardId => ((TaskPurge.purge attached db cardId).map (·.1)).toOption

/-- What an insert without a parent names is there, what an undeleted card names is there
still, and what a purge removes no live card that stays names. -/
def Tame (db : Db) : Op → Prop
  | .insert _ _ input => NamesRows db input
  | .undelete _ _ cardId => ∀ id, cardId=some id → ReturnsWhole db id
  | .purge _ cardId => ∀ id, cardId=some id → Unnamed db (TaskPurge.own db id)
  | _ => True

theorem Sound.step {op : Op} (h : Sound db) (hok : Tame db op) (hs : CardRefs.step db op=some db') :
    Sound db' := by
  cases op with
  | insert env actor input => exact h.insert hok (ok_of_toOption hs)
  | update acc dir pick actor input => exact h.update (ok_of_toOption hs)
  | merge env actor input => exact h.merge (ok_of_toOption hs)
  | delete acc actor cardId => exact h.delete (ok_of_toOption hs)
  | undelete acc actor cardId => exact h.undelete hok (ok_of_toOption hs)
  | purge attached cardId =>
    have hp := ok_of_toOption hs
    cases hpurge : TaskPurge.purge attached db cardId with
    | error e =>
      rw [hpurge] at hp
      cases hp
    | ok r =>
      rw [hpurge] at hp
      cases hp
      exact h.purge hok hpurge

/-- Over such a run every card a live card's value names is there. -/
theorem refs_exist {start : Db} {ops : List Op} (h : Sound start)
    (hrun : Run step Tame start ops db) : RefsExist db := by
  have hsound : Sound db := hrun.inv Sound (fun _ _ _ hs hok hst => hs.step hok hst) h
  exact hsound.refs

section Examples

/-- A project with two tasks, the first with a thread, the second with a request. -/
def project : Db where
  cardTypes := [⟨1,"project",none,false⟩,⟨2,"task",some 1,true⟩,⟨3,"comm",some 2,false⟩,
    ⟨4,"approval",some 2,false⟩]
  attributeDefs := [⟨1,"approval_comm",.cardRef,some 3,none⟩]
  cards := [⟨1,1,none,none,false,.triage⟩,⟨2,2,some 1,none,false,.triage⟩,
    ⟨3,2,some 1,none,false,.triage⟩,⟨4,3,some 2,none,false,.triage⟩,⟨5,4,some 3,none,false,.triage⟩]
  edges := [⟨4,1,false,6⟩]
  nextCardId := 6

/-- Whoever asks may. -/
def anyone : Access :=
  ⟨fun _ _ => true,fun _ _ _ => true,fun _ _ _ _ _ => true,fun _ _ _ _ => false,
    fun _ _ _ _ => true,fun _ _ ids => ids,fun _ _ _ _ => true,fun _ _ => false⟩

/-- The second task's request is given the first one's thread. -/
def linked : Op :=
  .update anyone ⟨[],[],[],[]⟩ (fun _ => none) 1 ⟨some 5,some "approval_comm",some (.ofInt 4)⟩

theorem project_sound : Sound project where
  ids e he := by
    rw [List.mem_singleton.mp he]
    rfl
  names e he k hk _ := (List.mem_singleton.mp he).trans (List.mem_singleton.mp hk).symm
  plain e he hname := by
    rw [List.mem_singleton.mp he] at hname
    exact absurd hname (by decide)
  keyed := by decide
  fresh := by decide
  rows := .nil
  owned w hw := by simp [project] at hw
  refs w hw := by simp [project] at hw

/-- The thread is deleted and comes back, and the task with the request that names it goes. -/
theorem refs_exist_after_purge : ∃ db, Run step Tame project [linked,.delete anyone 1 (some 4),
    .undelete anyone 1 (some 4),.purge (fun _ => false) (some 3)] db∧RefsExist db := by
  have hrun : ∃ db, Run step Tame project [linked,.delete anyone 1 (some 4),
      .undelete anyone 1 (some 4),.purge (fun _ => false) (some 3)] db := by
    refine ⟨_,.cons trivial rfl (.cons trivial rfl (.cons ?_ rfl (.cons ?_ rfl (.nil _))))⟩
    · intro id hid w hw hc
      cases hid
      have hrow : w=⟨5,1,.ofInt 4⟩ := List.mem_singleton.mp hw
      rw [hrow] at hc
      exact absurd hc (by decide)
    · intro id hid w hw _ hstays
      cases hid
      have hrow : w=⟨5,1,.ofInt 4⟩ := List.mem_singleton.mp hw
      rw [hrow] at hstays
      exact absurd (by decide) hstays
  obtain ⟨db,hrun⟩ := hrun
  exact ⟨db,hrun,refs_exist project_sound hrun⟩

/-- The first task is purged with its thread, which the second one's request still names. -/
theorem named_after_purge : Sound project∧∃ db, Run step (fun _ _ => True) project
    [linked,.purge (fun _ => false) (some 2)] db∧¬RefsExist db := by
  have hend : ([linked,.purge (fun _ => false) (some 2)].foldlM step project).map
      (fun db => (db.values,db.live 5,(db.card 4).isSome,db.attributeDef 1))=
        some ([⟨5,1,.ofInt 4⟩],true,false,some ⟨1,"approval_comm",.cardRef,some 3,none⟩) := rfl
  obtain ⟨db,hdb,hend⟩ := Option.map_eq_some_iff.mp hend
  refine ⟨project_sound,db,.of_foldlM hdb (by simp),fun hrefs => ?_⟩
  simp only [Prod.mk.injEq] at hend
  obtain ⟨hvalues,hlive,hgone,hdef⟩ := hend
  have hwhole := hrefs ⟨5,1,.ofInt 4⟩ (by simp [hvalues]) hlive
  have hthere := hwhole.refIds hdef (show (4 : Int)∈refIds .cardRef (.ofInt 4) by decide) (by decide)
  rw [hgone] at hthere
  cases hthere

end Examples

end Kitp.CardRefs
