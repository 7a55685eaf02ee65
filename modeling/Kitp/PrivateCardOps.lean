import Kitp.PrivateCards

/-! Privacy over one `attribute.update`, `card.move`, `card.delete`, `card.undelete`,
`card.merge`, `person.merge` and `my_screen.set`. -/
namespace Kitp.PrivateCards
open Kitp.Store Kitp.Attributes Kitp.Steps Kitp.Runs Kitp.Forest
open Kitp.CardRefs (named)

variable {db db' : Db} {actor : Int}

/-- The people that accounts are linked to are people. -/
def Linked (db : Db) (dir : Accounts.Directory) : Prop :=
  ∀ l∈dir.persons, ∃ c, db.card l.personCardId=some c∧db.cardTypeName c=some "person"

theorem accountPerson_link {dir : Accounts.Directory} {person : Int} (h : Linked db dir)
    (hp : Accounts.accountPerson dir db actor=some person) :
    ∃ c, db.card person=some c∧db.cardTypeName c=some "person" := by
  have hmem := List.min?_mem hp
  obtain ⟨u,_,hu⟩ := List.mem_flatMap.mp hmem
  obtain ⟨l,hl,rfl⟩ := List.mem_map.mp hu
  exact h l (List.mem_of_mem_filter hl)

theorem Linked.kept {dir : Accounts.Directory} (h : Linked db dir) (k : Kept db db') :
    Linked db' dir := by
  intro l hl
  obtain ⟨c,hc,htype⟩ := h l hl
  obtain ⟨c',hc',-,htype'⟩ := k.cards _ c hc
  exact ⟨c',hc',(typeName_congr k.cardTypes htype').trans htype⟩

/-- A person fits anywhere. -/
theorem Sound.person_fits (h : Sound db) {person : Int} {owner : Option Int} {c : Card}
    (hc : db.card person=some c) (htype : db.cardTypeName c=some "person") :
    Fits db owner person :=
  ⟨c,hc,.inl (h.roots c (List.mem_of_find?_eq_some hc) (.inr htype))⟩

section Update
open Kitp.AttributeUpdate

variable {acc : Access} {dir : Accounts.Directory} {pick : List FlowStep → Option FlowStep}
  {input : AttributeUpdate.Input}

theorem refCheck_fits {cardId id : Int} {attr : AttributeDef} {r : Card}
    (h : refCheck acc db actor cardId attr id=.ok ()) (h0 : id≠0) (hr : db.card cardId=some r) :
    Fits db r.privateTo id := by
  simp only [refCheck,h0,if_false] at h
  split at h
  · cases h
  · rename_i k hk
    split at h
    · cases h
    · rename_i hown
      rw [hr] at hown
      exact ⟨k,hk,by simpa [or_iff_not_imp_left] using hown⟩

theorem Sound.update (h : Sound db) (hu : update acc dir pick db actor input=.ok db') :
    Sound db'∧Kept db db' := by
  obtain ⟨w,hw,rfl⟩ := update_ok hu
  obtain ⟨edge,ids,-,hbound,hnorm,hrefs,-⟩ := prepare_ok hw
  obtain ⟨r,hr,-⟩ := boundEdge_ok hbound
  refine ⟨h.writeValue hr ?_,.of_same (writeValue_keeps db actor _ _ _ _)⟩
  intro id hid
  have hdef := h.ids w.attr (boundEdge_mem hbound)
  obtain ⟨hmem,h0⟩ := (mem_named hdef).mp hid
  cases CardRefs.normalise_refIds hnorm with
  | inl hnone => simp [hnone] at hmem
  | inr hsome =>
    rw [hsome] at hmem
    exact refCheck_fits (forM_ok hrefs id hmem) h0 hr

end Update

section Move
open Kitp.CardMove

variable {acc : Access} {input : CardMove.Input}

theorem Sound.move (h : Sound db) (hm : move acc actor db input=.ok db') :
    Sound db'∧Kept db db' := by
  obtain ⟨m,c,p,a,hc,hp,hprivate,rfl⟩ := move_private hm
  have hid : ∀ r : Card, (if r.id=m.cardId then { r with parentCardId := some m.newParent }
      else r).id=r.id := by
    intro r
    split <;> rfl
  have htype : ∀ r : Card, (if r.id=m.cardId then { r with parentCardId := some m.newParent }
      else r).cardTypeId=r.cardTypeId := by
    intro r
    split <;> rfl
  have howner : ∀ r : Card, (if r.id=m.cardId then { r with parentCardId := some m.newParent }
      else r).privateTo=r.privateTo := by
    intro r
    split <;> rfl
  have hset : db.setParent (· = m.cardId) m.newParent=db.mapCards fun r =>
      if r.id=m.cardId then { r with parentCardId := some m.newParent } else r := by
    simp [Db.setParent]
  have hsound : Sound (db.setParent (· = m.cardId) m.newParent) := by
    rw [hset]
    refine h.mapCards_owned hid htype howner ?_
    intro r hr q hq
    by_cases hmoved : r.id=m.cardId
    · rw [if_pos hmoved] at hq
      cases hq
      have hrc : r=c := Option.some.inj ((h.keyed r hr).symm.trans (hmoved ▸ hc))
      refine ⟨p,hp,?_⟩
      rw [hrc]
      exact hprivate.imp_right Eq.symm
    · rw [if_neg hmoved] at hq
      exact h.parents r hr q hq
  refine ⟨hsound.congr ⟨rfl,rfl,rfl,rfl,rfl⟩ rfl rfl,?_⟩
  have hkept : Kept db (db.setParent (· = m.cardId) m.newParent) := by
    rw [hset]
    exact mapCards_kept hid htype howner
  exact hkept.trans (.of_same ⟨rfl,rfl,rfl,rfl,rfl⟩)

end Move

section Delete
open Kitp.CardDelete

variable {acc : Access} {cardId : Option Int}

theorem Sound.setDeleted (h : Sound db) (id : Int) (deleted : Bool) :
    Sound (setDeleted db id deleted)∧Kept db (CardDelete.setDeleted db id deleted) := by
  have hid : ∀ r : Card, (if r.id=id then { r with deleted } else r).id=r.id := by
    intro r
    split <;> rfl
  have htype : ∀ r : Card, (if r.id=id then { r with deleted } else r).cardTypeId=r.cardTypeId := by
    intro r
    split <;> rfl
  have howner : ∀ r : Card, (if r.id=id then { r with deleted } else r).privateTo=r.privateTo := by
    intro r
    split <;> rfl
  refine ⟨h.mapCards_owned hid htype howner ?_,mapCards_kept hid htype howner⟩
  intro r hr p hp
  refine h.parents r hr p ?_
  split at hp <;> exact hp

theorem Sound.delete (h : Sound db) (hd : delete acc db actor cardId=.ok db') :
    Sound db'∧Kept db db' := by
  obtain ⟨id,-,-,rfl⟩ := delete_ok hd
  obtain ⟨hsound,hkept⟩ := h.setDeleted id true
  exact ⟨hsound.congr ⟨rfl,rfl,rfl,rfl,rfl⟩ rfl rfl,hkept.trans (.of_same ⟨rfl,rfl,rfl,rfl,rfl⟩)⟩

theorem Sound.undelete (h : Sound db) (hu : undelete acc db actor cardId=.ok db') :
    Sound db'∧Kept db db' := by
  obtain ⟨id,r,joined,-,-,-,hjoined,rfl⟩ := undelete_ok hu
  have hback : Sound joined∧Kept db joined := by
    rcases rejoin_ok hjoined with ⟨-,rfl⟩ | ⟨project,-,rfl⟩
    · exact ⟨h,.refl joined⟩
    · split
      · exact ⟨(h.dropValues _).congr ⟨rfl,rfl,rfl,rfl,rfl⟩ rfl rfl,.of_same ⟨rfl,rfl,rfl,rfl,rfl⟩⟩
      · exact ⟨h,.refl db⟩
  obtain ⟨hsound,hkept⟩ := hback.1.setDeleted id false
  exact ⟨hsound.congr ⟨rfl,rfl,rfl,rfl,rfl⟩ rfl rfl,
    (hback.2.trans hkept).trans (.of_same ⟨rfl,rfl,rfl,rfl,rfl⟩)⟩

end Delete

section Merge
open Kitp.CardMerge

variable {env : CardInsert.Env} {survivor : Int} {losers : List Int}

/-- The losers are of the survivor's type, and private to the same person or shared alike. -/
def Alike (db : Db) (survivor : Int) (losers : List Int) : Prop :=
  ∃ s, db.card survivor=some s∧∀ l∈losers, ∃ c, db.card l=some c∧
    db.cardTypeName c=db.cardTypeName s∧c.privateTo=s.privateTo

theorem Alike.kept (h : Alike db survivor losers) (k : Kept db db') : Alike db' survivor losers := by
  obtain ⟨s,hs,hlosers⟩ := h
  obtain ⟨s',hs',hprivate,htype⟩ := k.cards survivor s hs
  refine ⟨s',hs',?_⟩
  intro l hl
  obtain ⟨c,hc,hct,hcp⟩ := hlosers l hl
  obtain ⟨c',hc',hprivate',htype'⟩ := k.cards l c hc
  refine ⟨c',hc',?_,by rw [hprivate',hprivate,hcp]⟩
  rw [typeName_congr k.cardTypes htype',typeName_congr k.cardTypes htype,hct]

/-- What fits with a loser fits with the survivor. -/
theorem Alike.fits (h : Alike db survivor losers) {owner : Option Int} {l : Int} (hl : l∈losers)
    (hfits : Fits db owner l) : Fits db owner survivor := by
  obtain ⟨s,hs,hlosers⟩ := h
  obtain ⟨c,hc,-,hcp⟩ := hlosers l hl
  obtain ⟨k,hk,hfit⟩ := hfits
  cases hc.symm.trans hk
  exact ⟨s,hs,by rwa [hcp] at hfit⟩

/-- Whose a card is after a merge. -/
def heir (survivor : Int) (losers : List Int) (o : Int) : Int := if o∈losers then survivor else o

/-- `card_merge_into` renames owners and references alike. -/
theorem Sound.mergeInto (h : Sound db) (halike : Alike db survivor losers) :
    Sound (mergeInto db actor survivor losers) := by
  let inherit (r : Card) : Card :=
    if r.privateTo.any (· ∈ losers) then { r with privateTo := some survivor } else r
  let drop (r : Card) : Card := if r.id∈losers then { r with deleted := true } else r
  have hid : ∀ r, (inherit r).id=r.id := by
    intro r
    simp only [inherit]
    split <;> rfl
  have htype : ∀ r, (inherit r).cardTypeId=r.cardTypeId := by
    intro r
    simp only [inherit]
    split <;> rfl
  have hprivate : ∀ r, (inherit r).privateTo=r.privateTo.map (heir survivor losers) := by
    intro r
    cases ho : r.privateTo with
    | none => simp [inherit,ho]
    | some o =>
      by_cases hl : o∈losers
      · simp [inherit,ho,hl,heir]
      · simp [inherit,ho,hl,heir]
  have howned : Sound (db.mapCards inherit) := by
    refine h.mapCards hid htype hprivate ?_ ?_
    · intro o p hp hpt
      by_cases hl : o∈losers
      · obtain ⟨s,hs,hlosers⟩ := halike
        obtain ⟨c,hc,hct,-⟩ := hlosers o hl
        cases hc.symm.trans hp
        exact ⟨s,by simpa [heir,hl] using hs,hct.symm.trans hpt⟩
      · exact ⟨p,by simpa [heir,hl] using hp,hpt⟩
    · intro r hr p hp
      refine h.parents r hr p ?_
      simp only [inherit] at hp
      split at hp <;> exact hp
  have hdid : ∀ r, (drop r).id=r.id := by
    intro r
    simp only [drop]
    split <;> rfl
  have hdtype : ∀ r, (drop r).cardTypeId=r.cardTypeId := by
    intro r
    simp only [drop]
    split <;> rfl
  have hdprivate : ∀ r, (drop r).privateTo=r.privateTo := by
    intro r
    simp only [drop]
    split <;> rfl
  have hgone : Sound ((db.mapCards inherit).mapCards drop) := by
    refine howned.mapCards_owned hdid hdtype hdprivate ?_
    intro r hr p hp
    refine howned.parents r hr p ?_
    simp only [drop] at hp
    split at hp <;> exact hp
  -- the losers and the survivor are renamed alike themselves
  have hlater : Alike ((db.mapCards inherit).mapCards drop) survivor losers := by
    obtain ⟨s,hs,hlosers⟩ := halike
    have hcard : ∀ x c, db.card x=some c →
        ((db.mapCards inherit).mapCards drop).card x=some (drop (inherit c)) := by
      intro x c hc
      rw [mapCards_card hdid,mapCards_card hid,hc]
      rfl
    refine ⟨drop (inherit s),hcard _ s hs,?_⟩
    intro l hl
    obtain ⟨c,hc,hct,hcp⟩ := hlosers l hl
    refine ⟨drop (inherit c),hcard _ c hc,?_,?_⟩
    · have hname : ∀ r, ((db.mapCards inherit).mapCards drop).cardTypeName (drop (inherit r))=
          db.cardTypeName r :=
        fun r => typeName_congr rfl ((hdtype (inherit r)).trans (htype r))
      rw [hname,hname,hct]
    · rw [hdprivate,hdprivate,hprivate,hprivate,hcp]
  refine (hgone.mapValues (g := fun w => { w with
      value := (db.attributeDef w.attributeDefId).elim w.value
        fun e => repointed survivor losers e.valueType w.value }) (fun w => rfl) ?_).congr
    ⟨rfl,rfl,rfl,rfl,rfl⟩ rfl rfl
  intro w r hr hfits id hidn
  cases hdef : db.attributeDef w.attributeDefId with
  | none =>
    have hdef' : ((db.mapCards inherit).mapCards drop).attributeDef w.attributeDefId=none := hdef
    simp [named,hdef'] at hidn
  | some e =>
    have hdef' : ((db.mapCards inherit).mapCards drop).attributeDef w.attributeDefId=some e := hdef
    rw [hdef,Option.elim_some] at hidn
    obtain ⟨hmem,h0⟩ := (mem_named hdef').mp hidn
    rcases CardRefs.refIds_repointed hmem with ⟨rfl,l,hl,hlv⟩ | hold
    · have hlosers := hlater
      obtain ⟨s,-,hlosers⟩ := hlosers
      obtain ⟨c,hc,-⟩ := hlosers l hl
      have hl0 : l≠0 := by
        rintro rfl
        rw [hgone.zero.1] at hc
        cases hc
      exact hlater.fits hl (hfits l ((mem_named hdef').mpr ⟨hlv,hl0⟩))
    · exact hfits id ((mem_named hdef').mpr ⟨hold,h0⟩)

/-- A merge leaves every card its type. -/
theorem mergeInto_card {x : Int} {c : Card} (hc : db.card x=some c) (actor survivor : Int)
    (losers : List Int) : ∃ c', (CardMerge.mergeInto db actor survivor losers).card x=some c'∧
      c'.cardTypeId=c.cardTypeId := by
  let inherit (r : Card) : Card :=
    if r.privateTo.any (· ∈ losers) then { r with privateTo := some survivor } else r
  have hcard : (CardMerge.mergeInto db actor survivor losers).card x=
      some (if (inherit c).id∈losers then { inherit c with deleted := true } else inherit c) := by
    change ((db.mapCards _).mapCards _).card x=_
    rw [mapCards_card (by intro r; split <;> rfl),mapCards_card (by intro r; split <;> rfl),hc]
    rfl
  have htype : (inherit c).cardTypeId=c.cardTypeId := by
    simp only [inherit]
    split <;> rfl
  refine ⟨_,hcard,?_⟩
  split
  · exact htype
  · exact htype

/-- No private card is private to a card of another type than `person`. -/
theorem mergeInto_kept (h : Sound db) (halike : Alike db survivor losers)
    (hperson : ∀ s, db.card survivor=some s → db.cardTypeName s≠some "person") :
    Kept db (CardMerge.mergeInto db actor survivor losers) := by
  refine ⟨rfl,rfl,?_⟩
  intro x c hc
  have hsame : c.privateTo.any (· ∈ losers)=false := by
    cases ho : c.privateTo with
    | none => rfl
    | some o =>
      obtain ⟨p,hp,hpt⟩ := h.owners c (List.mem_of_find?_eq_some hc) o ho
      by_cases hl : o∈losers
      · obtain ⟨s,hs,hlosers⟩ := halike
        obtain ⟨k,hk,hkt,-⟩ := hlosers o hl
        cases hk.symm.trans hp
        exact absurd (hkt.symm.trans hpt) (hperson s hs)
      · simp [hl]
  have hcard : (CardMerge.mergeInto db actor survivor losers).card x=
      some (if c.id∈losers then { c with deleted := true } else c) := by
    change ((db.mapCards _).mapCards _).card x=_
    rw [mapCards_card (by intro r; split <;> rfl),mapCards_card (by intro r; split <;> rfl),hc]
    simp [hsame]
  refine ⟨_,hcard,?_,?_⟩
  · split <;> rfl
  · split <;> rfl

/-- Merged cards other than people. -/
theorem merge_alike {input : CardMerge.Input} (hm : merge env db actor input=.ok db') :
    ∃ survivor losers, Alike db survivor losers∧
      (∀ s, db.card survivor=some s → db.cardTypeName s≠some "person")∧
      db'=CardMerge.mergeInto (adopt db actor survivor losers) actor survivor losers := by
  unfold merge at hm
  obtain ⟨⟨survivor,losers⟩,_,hm⟩ := bind_ok hm
  obtain ⟨s,hs,hm⟩ := bind_ok hm
  obtain ⟨_,hlosers,hm⟩ := bind_ok hm
  obtain ⟨_,_,hm⟩ := bind_ok hm
  obtain ⟨_,_,hm⟩ := bind_ok hm
  obtain ⟨_,_,hm⟩ := bind_ok hm
  cases hm
  have hcard := survivorCheck_ok hs
  refine ⟨survivor,losers,⟨s,hcard,?_⟩,?_,rfl⟩
  · intro l hl
    obtain ⟨c,hc,htype,hprivate⟩ := loserCheck_private (forM_ok hlosers l hl)
    exact ⟨c,hc,typeName_congr rfl htype,hprivate⟩
  · intro r hr
    cases hcard.symm.trans hr
    exact survivorCheck_person hs

theorem Sound.merge {input : CardMerge.Input} (h : Sound db)
    (hm : merge env db actor input=.ok db') : Sound db'∧Kept db db' := by
  obtain ⟨survivor,losers,halike,hperson,rfl⟩ := merge_alike hm
  let moved (r : Card) : Card :=
    if r.id∈(orphans db losers).map (·.id) then { r with parentCardId := some survivor } else r
  have hid : ∀ r, (moved r).id=r.id := by
    intro r
    simp only [moved]
    split <;> rfl
  have htype : ∀ r, (moved r).cardTypeId=r.cardTypeId := by
    intro r
    simp only [moved]
    split <;> rfl
  have howner : ∀ r, (moved r).privateTo=r.privateTo := by
    intro r
    simp only [moved]
    split <;> rfl
  have hset : db.setParent (· ∈ (orphans db losers).map (·.id)) survivor=db.mapCards moved := by
    simp only [Db.setParent,moved,decide_eq_true_eq]
  have hadopted : Sound (adopt db actor survivor losers)∧Kept db (adopt db actor survivor losers) := by
    have hmoved : Sound (db.mapCards moved) := by
      refine h.mapCards_owned hid htype howner ?_
      intro r hr p hp
      by_cases hmem : r.id∈(orphans db losers).map (·.id)
      · simp only [moved,if_pos hmem,Option.some.injEq] at hp
        subst hp
        obtain ⟨o,ho,hoid⟩ := List.mem_map.mp hmem
        obtain ⟨hocard,horphan⟩ := List.mem_filter.mp ho
        have hor : o=r := by
          have heq := h.keyed o hocard
          rw [hoid] at heq
          exact Option.some.inj (heq.symm.trans (h.keyed r hr))
        subst hor
        simp only [Bool.and_eq_true] at horphan
        obtain ⟨l,hl,hlosers⟩ := (Option.any_eq_true _ _).mp horphan.2
        exact halike.fits (by simpa using hlosers) (h.parents o hocard l hl)
      · simp only [moved,if_neg hmem] at hp
        exact h.parents r hr p hp
    rw [← hset] at hmoved
    have hkept : Kept db (db.mapCards moved) := mapCards_kept hid htype howner
    rw [← hset] at hkept
    exact ⟨hmoved.congr ⟨rfl,rfl,rfl,rfl,rfl⟩ rfl rfl,
      hkept.trans (.of_same ⟨rfl,rfl,rfl,rfl,rfl⟩)⟩
  have hlater := halike.kept hadopted.2
  refine ⟨hadopted.1.mergeInto hlater,hadopted.2.trans (mergeInto_kept hadopted.1 hlater ?_)⟩
  intro s hs
  obtain ⟨s₀,hs₀,-⟩ := halike
  obtain ⟨s',hs',-,htype'⟩ := hadopted.2.cards survivor s₀ hs₀
  cases hs'.symm.trans hs
  rw [typeName_congr hadopted.2.cardTypes htype']
  exact hperson s₀ hs₀

end Merge

section PersonMerge
open Kitp.PersonMerge

variable {env : PersonMerge.Env} {s t : PersonMerge.State} {input : CardMerge.Input}

/-- The email of a person is a text. -/
theorem Sound.writeEmail (h : Sound db) {person : Int} {c : Card} (hc : db.card person=some c)
    {e : AttributeDef} (he : db.attributeNamed "email"=some e) (old : Option Json) (text : String) :
    Sound (Attributes.writeValue db actor person e.id old (.str text)) := by
  obtain ⟨hmem,hname⟩ := AttributeEdges.named he
  refine h.writeValue hc ?_
  intro id hid
  rw [named_plain (h.ids e hmem) (h.plain e hmem (by simp [hname,texts]))] at hid
  cases hid

/-- Two people that are merged are both shared; a loser's private cards are the survivor's. -/
theorem personMerge_sound (h : Sound s.db) (hl : Linked s.db s.dir)
    (hm : PersonMerge.merge env actor s input=.ok t) : Sound t.db∧Linked t.db t.dir := by
  obtain ⟨survivor,losers,-,⟨c,hc,-,hct⟩,hlosers,rfl⟩ := merge_ok hm
  have halike : Alike s.db survivor losers := by
    refine ⟨c,hc,?_⟩
    intro l hl
    obtain ⟨k,hk,-,hkt⟩ := hlosers l hl
    refine ⟨k,hk,hkt.trans hct.symm,?_⟩
    rw [h.roots k (List.mem_of_find?_eq_some hk) (.inr hkt),
      h.roots c (List.mem_of_find?_eq_some hc) (.inr hct)]
  have hwritten : ∀ (base : Db), Sound base → Kept s.db base → ∀ d old e,
      base.attributeNamed "email"=some d →
        Sound (writeValue base actor survivor d.id old (.str e))∧
          Kept s.db (writeValue base actor survivor d.id old (.str e)) := by
    intro base hbase hkept d old e hd
    obtain ⟨c',hc',-⟩ := hkept.cards survivor c hc
    exact ⟨hbase.writeEmail hc' hd old e,
      hkept.trans (.of_same (writeValue_keeps base actor _ _ _ _))⟩
  have hmoved : Sound (moveLogin env actor survivor losers s).db∧
      Kept s.db (moveLogin env actor survivor losers s).db :=
    moveLogin_inv (I := fun db => Sound db∧Kept s.db db) ⟨h,.refl s.db⟩
      (hwritten s.db h (.refl s.db))
  have hfilled : Sound (backfill (moveLogin env actor survivor losers s).db actor survivor losers)∧
      Kept s.db (backfill (moveLogin env actor survivor losers s).db actor survivor losers) :=
    backfill_inv (I := fun db => Sound db∧Kept s.db db) hmoved (hwritten _ hmoved.1 hmoved.2)
  refine ⟨hfilled.1.mergeInto (halike.kept hfilled.2),?_⟩
  -- a link leads to the person it did, or to the survivor
  have hperson : ∀ x k, s.db.card x=some k → s.db.cardTypeName k=some "person" →
      ∃ k', (CardMerge.mergeInto (backfill (moveLogin env actor survivor losers s).db actor survivor
          losers) actor survivor losers).card x=some k'∧
        (CardMerge.mergeInto (backfill (moveLogin env actor survivor losers s).db actor survivor
          losers) actor survivor losers).cardTypeName k'=some "person" := by
    intro x k hk hkt
    obtain ⟨k',hk',-,htype⟩ := hfilled.2.cards x k hk
    obtain ⟨k'',hk'',htype'⟩ := mergeInto_card hk' actor survivor losers
    refine ⟨k'',hk'',?_⟩
    rw [← hkt]
    exact typeName_congr hfilled.2.cardTypes (htype'.trans htype)
  intro l hl'
  have hlink : ∃ k, s.db.card l.personCardId=some k∧s.db.cardTypeName k=some "person" := by
    unfold moveLogin at hl'
    split at hl'
    · exact hl l hl'
    · split at hl'
      · obtain ⟨l₀,hl₀,rfl⟩ := List.mem_map.mp hl'
        by_cases hlm : l₀.personCardId∈losers
        · rw [if_pos hlm]
          exact ⟨c,hc,hct⟩
        · rw [if_neg hlm]
          exact hl l₀ hl₀
      · exact hl l hl'
  obtain ⟨k,hk,hkt⟩ := hlink
  exact hperson _ k hk hkt

end PersonMerge

section Screen
open Kitp.MyScreens

variable {env : MyScreens.Env} {input : MyScreens.Input} {w : MyScreens.Checked}

/-- All a screen's values but its default view are texts. -/
theorem mem_wanted {id : Int} {listed : Option String} {f : String×Json}
    (hf : f∈wanted w id listed) : f.1∈texts∨∃ v, w.defaultFilter=some v∧
      f=("default_filter",if v=0 then Json.null else .ofInt v) := by
  simp only [wanted,List.mem_append,Option.mem_toList,Option.map_eq_some_iff] at hf
  rcases hf with ((((((⟨_,_,rfl⟩ | hf) | ⟨_,_,rfl⟩) | ⟨_,_,rfl⟩) | ⟨_,_,rfl⟩) | ⟨_,_,rfl⟩) |
    ⟨_,_,rfl⟩) | ⟨v,hv,rfl⟩
  · exact .inl (by simp [texts])
  · split at hf
    · rw [List.mem_singleton.mp hf]
      exact .inl (by simp [texts])
    · cases hf
  · exact .inl (by simp [texts])
  · exact .inl (by simp [texts])
  · exact .inl (by simp [texts])
  · exact .inl (by simp [texts])
  · exact .inl (by simp [texts])
  · exact .inr ⟨v,hv,rfl⟩

theorem Sound.writeChanged {id : Int} {r : Card} {values : List (AttributeDef×Json)}
    (h : Sound db) (hr : db.card id=some r)
    (hfits : ∀ a∈values, ∀ x∈named db ⟨id,a.1.id,a.2⟩, Fits db r.privateTo x) :
    Sound (writeChanged db actor id values)∧Kept db (MyScreens.writeChanged db actor id values) := by
  refine foldl_inv (I := fun s => Sound s∧Kept db s) ⟨h,.refl db⟩ ?_
  intro s hs a ha
  obtain ⟨r',hr',hprivate,-⟩ := hs.2.cards id r hr
  refine ⟨hs.1.writeValue hr' ?_,hs.2.trans (.of_same (writeValue_keeps s actor _ _ _ _))⟩
  intro x hx
  rw [CardRefs.named_congr hs.2.attributeDefs] at hx
  rw [hprivate]
  exact (hfits a (List.mem_of_mem_filter ha) x hx).kept hs.2

theorem resolved_fits (h : Sound db) {id : Int} {owner : Option Int} {values : List (String×Json)}
    (hvalues : ∀ f∈values, f.1∈texts∨∀ t, ∀ x∈refIds t f.2, x=0∨Fits db owner x) :
    ∀ a∈resolved db values, ∀ x∈named db ⟨id,a.1.id,a.2⟩, Fits db owner x := by
  intro a ha x hx
  obtain ⟨f,hf,hmap⟩ := List.mem_filterMap.mp ha
  obtain ⟨e,he,rfl⟩ := Option.map_eq_some_iff.mp hmap
  obtain ⟨hmem,hname⟩ := AttributeEdges.named he
  have hdef := h.ids e hmem
  cases hvalues f hf with
  | inl htext =>
    rw [named_plain hdef (h.plain e hmem (hname ▸ htext))] at hx
    cases hx
  | inr hrefs =>
    obtain ⟨hx,h0⟩ := (mem_named hdef).mp hx
    cases hrefs e.valueType x hx with
    | inl hzero => exact absurd hzero h0
    | inr hfit => exact hfit

theorem refIds_null (t : ValueType) : refIds t .null=[] := by
  cases t <;> rfl

/-- A person's screen, new or changed, names its own views at most. -/
theorem Sound.screen (h : Sound db) (hl : Linked db env.dir)
    (hs : MyScreens.set env db actor input=.ok db') : Sound db'∧Kept db db' := by
  obtain ⟨t,w,ht,hw,hres⟩ := set_ok hs
  obtain ⟨hperson,hscreen,hview⟩ := prepare_ok hw
  rcases hres with ⟨h0,rfl⟩ | ⟨h0,listed,rfl⟩
  · let r : Card := ⟨db.nextCardId,t.id,none,some w.person,false,.triage⟩
    have htype : db.cardTypeName r=some "screen" := by
      obtain ⟨hmem,hname⟩ := screenType_ok ht
      simp [Db.cardTypeName,r,h.types t hmem,hname]
    have hcreated : Sound (create db actor t.id w.person) := by
      refine h.addCard (r := r) rfl (by simp [r]) ?_ ?_
      · intro o ho
        cases ho
        exact accountPerson_link hl hperson
      · rw [htype]
        rintro (hroot | hroot)
        · exact absurd (Option.some.inj hroot) (by decide)
        · exact absurd (Option.some.inj hroot) (by decide)
    have hkept : Kept db (create db actor t.id w.person) := addCard_kept db r _
    have hcard : (create db actor t.id w.person).card db.nextCardId=some r := h.card_new rfl _
    have hvalues : ∀ f∈wanted w db.nextCardId none, f.1∈texts∨
        ∀ type, ∀ x∈refIds type f.2, x=0∨Fits (create db actor t.id w.person) r.privateTo x := by
      intro f hf
      rcases mem_wanted hf with htext | ⟨v,hv,rfl⟩
      · exact .inl htext
      · have hv0 : v=0 := by
          cases hview v hv with
          | inl hv0 => exact hv0
          | inr hown =>
            rw [h0] at hown
            obtain ⟨k,hk,hkeys⟩ := (Option.any_eq_true _ _).mp hown
            simp only [decide_eq_true_eq] at hkeys
            obtain ⟨q,hq,-⟩ := h.parents k (List.mem_of_find?_eq_some hk) 0 hkeys.2.1
            rw [h.zero.1] at hq
            cases hq
        refine .inr ?_
        intro type x hx
        rw [if_pos hv0,refIds_null] at hx
        cases hx
    obtain ⟨hsound,hkept'⟩ := hcreated.writeChanged hcard (resolved_fits hcreated hvalues)
    exact ⟨hsound,hkept.trans hkept'⟩
  · have hown : ownScreen db w.person w.id=true := hscreen.resolve_left h0
    obtain ⟨r,hr,hkeys⟩ := (Option.any_eq_true _ _).mp hown
    simp only [decide_eq_true_eq] at hkeys
    refine h.writeChanged hr (resolved_fits h ?_)
    intro f hf
    rcases mem_wanted hf with htext | ⟨v,hv,rfl⟩
    · exact .inl htext
    · refine .inr ?_
      intro type x hx
      by_cases hv0 : v=0
      · rw [if_pos hv0,refIds_null] at hx
        cases hx
      · rw [if_neg hv0] at hx
        have hxv : x=v := CardRefs.refIds_ofInt hx
        subst hxv
        obtain ⟨k,hk,hview⟩ := (Option.any_eq_true _ _).mp ((hview x hv).resolve_left hv0)
        simp only [decide_eq_true_eq] at hview
        obtain ⟨q,hq,hfit⟩ := h.parents k (List.mem_of_find?_eq_some hk) w.id hview.2.1
        cases hr.symm.trans hq
        refine .inr ⟨k,hk,.inr ?_⟩
        cases hfit with
        | inl hnone =>
          rw [hkeys.2.2.1] at hnone
          cases hnone
        | inr hsame => exact hsame.symm

end Screen

end Kitp.PrivateCards
