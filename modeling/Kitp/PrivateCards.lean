import Kitp.CardRefRuns
import Kitp.CardMove
import Kitp.MyScreens
import Kitp.PersonMerge

/-! Private cards: what is under one, and what names one, is private to the same person. -/
namespace Kitp.PrivateCards
open Kitp.Store Kitp.Attributes Kitp.Steps
open Kitp.CardRefs (named)

/-- The card is shared, or private to this owner. -/
def Fits (db : Db) (owner : Option Int) (id : Int) : Prop :=
  ∃ k, db.card id=some k∧(k.privateTo=none∨k.privateTo=owner)

/-- The built-in attributes that name no card. -/
def texts : List String :=
  ["title","flow_ref","predicate","toggle_groups","slug","layout","list_card_type","sort_order",
    "email"]

/-- Everything under a private card and everything that names one is its person's, with the
facts of the schema this rests on: the keys of the tables, the seeded types, that projects and
people are shared, and that a flow starts at a shared card. -/
structure Sound (db : Db) : Prop where
  ids : ∀ d∈db.attributeDefs, db.attributeDef d.id=some d
  plain : ∀ d∈db.attributeDefs, d.name∈texts → d.valueType≠.cardRef∧d.valueType≠.cardRefs
  types : ∀ t∈db.cardTypes, db.cardType t.id=some t
  rootTypes : ∀ t∈db.cardTypes, t.name="project"∨t.name="person" →
    t.parentCardTypeId=none∧t.allowSelfParent=false
  keyed : ∀ c∈db.cards, db.card c.id=some c
  fresh : ∀ c∈db.cards, c.id<db.nextCardId
  zero : db.card 0=none∧0<db.nextCardId
  parents : ∀ c∈db.cards, ∀ p, c.parentCardId=some p → Fits db c.privateTo p
  rows : ∀ v∈db.values, ∃ c, db.card v.cardId=some c∧∀ id∈named db v, Fits db c.privateTo id
  owners : ∀ c∈db.cards, ∀ o, c.privateTo=some o →
    ∃ p, db.card o=some p∧db.cardTypeName p=some "person"
  roots : ∀ c∈db.cards, db.cardTypeName c=some "project"∨db.cardTypeName c=some "person" →
    c.privateTo=none
  flows : ∀ f∈db.flows, ∀ d, f.defaultCreateStatusId=some d → Fits db none d

/-- Every card is still there, of its type and with its owner. -/
structure Kept (db db' : Db) : Prop where
  attributeDefs : db'.attributeDefs=db.attributeDefs
  cardTypes : db'.cardTypes=db.cardTypes
  cards : ∀ x c, db.card x=some c →
    ∃ c', db'.card x=some c'∧c'.privateTo=c.privateTo∧c'.cardTypeId=c.cardTypeId

variable {db db' db'' : Db} {actor c d : Int} {v : Json} {row : AttributeValue}

theorem Kept.refl (db : Db) : Kept db db := ⟨rfl,rfl,fun _ c hc => ⟨c,hc,rfl,rfl⟩⟩

theorem Kept.trans (h : Kept db db') (k : Kept db' db'') : Kept db db'' := by
  refine ⟨k.attributeDefs.trans h.attributeDefs,k.cardTypes.trans h.cardTypes,?_⟩
  intro x c hc
  obtain ⟨c',hc',hprivate,htype⟩ := h.cards x c hc
  obtain ⟨e,he,hprivate',htype'⟩ := k.cards x c' hc'
  exact ⟨e,he,hprivate'.trans hprivate,htype'.trans htype⟩

theorem Kept.of_same (h : SameCards db db') : Kept db db' :=
  ⟨h.attributeDefs,h.cardTypes,fun x c hc => ⟨c,by rw [h.card]; exact hc,rfl,rfl⟩⟩

theorem Fits.kept {owner : Option Int} {id : Int} (h : Fits db owner id) (k : Kept db db') :
    Fits db' owner id := by
  obtain ⟨r,hr,hfits⟩ := h
  obtain ⟨r',hr',hprivate,-⟩ := k.cards id r hr
  exact ⟨r',hr',by rwa [hprivate]⟩

/-- What fits a shared card fits any. -/
theorem Fits.of_shared {owner : Option Int} {id : Int} (h : Fits db none id) :
    Fits db owner id := by
  obtain ⟨k,hk,hfits⟩ := h
  exact ⟨k,hk,.inl (or_self_iff.mp hfits)⟩

theorem typeName_congr (h : db'.cardTypes=db.cardTypes) {r r' : Card}
    (htype : r'.cardTypeId=r.cardTypeId) : db'.cardTypeName r'=db.cardTypeName r := by
  simp only [Db.cardTypeName,Db.cardType,h,htype]

/-- The names of a row, through the attribute it is of. -/
theorem mem_named {e : AttributeDef} (he : db.attributeDef d=some e) {id : Int} :
    id∈named db ⟨c,d,v⟩↔id∈refIds e.valueType v∧id≠0 := by
  simp [named,he]

theorem named_plain {e : AttributeDef} (he : db.attributeDef d=some e)
    (hplain : e.valueType≠.cardRef∧e.valueType≠.cardRefs) : named db ⟨c,d,v⟩=[] := by
  simp [named,he,CardRefs.refIds_plain hplain]

/-- Other tables have no part in it. -/
theorem Sound.congr (h : Sound db) (k : SameCards db db') (hvalues : db'.values=db.values)
    (hflows : db'.flows=db.flows) : Sound db' := by
  have hkept : Kept db db' := .of_same k
  have hdef : db'.attributeDef=db.attributeDef := by
    funext x
    simp only [Db.attributeDef,k.attributeDefs]
  refine ⟨?_,?_,?_,?_,?_,?_,?_,?_,?_,?_,?_,?_⟩
  · simpa only [k.attributeDefs,hdef] using h.ids
  · simpa only [k.attributeDefs] using h.plain
  · simpa only [k.cardTypes,k.cardType] using h.types
  · simpa only [k.cardTypes] using h.rootTypes
  · simpa only [k.cards,k.card] using h.keyed
  · simpa only [k.cards,k.nextCardId] using h.fresh
  · simpa only [k.card,k.nextCardId] using h.zero
  · intro e he p hp
    rw [k.cards] at he
    exact (h.parents e he p hp).kept hkept
  · intro w hw
    rw [hvalues] at hw
    obtain ⟨r,hr,hfits⟩ := h.rows w hw
    refine ⟨r,by rw [k.card]; exact hr,?_⟩
    intro id hid
    rw [CardRefs.named_congr k.attributeDefs] at hid
    exact (hfits id hid).kept hkept
  · simpa only [k.cards,k.card,k.cardTypeName] using h.owners
  · simpa only [k.cards,k.cardTypeName] using h.roots
  · intro f hf e he
    rw [hflows] at hf
    exact (h.flows f hf e he).kept hkept

/-- A value whose cards fit the card it is on. -/
theorem Sound.writeValue {old : Option Json} {r : Card} (h : Sound db) (hc : db.card c=some r)
    (hfits : ∀ id∈named db ⟨c,d,v⟩, Fits db r.privateTo id) :
    Sound (writeValue db actor c d old v) := by
  refine ⟨h.ids,h.plain,h.types,h.rootTypes,h.keyed,h.fresh,h.zero,h.parents,?_,h.owners,h.roots,
    h.flows⟩
  intro w hw
  cases AttributeEdges.mem_upsert hw with
  | inl hw =>
    have hrow : w=⟨c,d,v⟩ := by
      cases w
      simpa using hw
    subst hrow
    exact ⟨r,hc,hfits⟩
  | inr hw => exact h.rows w hw

theorem Sound.not_next (h : Sound db) : db.card db.nextCardId=none := by
  cases hx : db.card db.nextCardId with
  | none => rfl
  | some e =>
    have := h.fresh e (List.mem_of_find?_eq_some hx)
    rw [card_id hx] at this
    omega

theorem addCard_kept (db : Db) (r : Card) (a : Activity) : Kept db ((db.addCard r).log a) := by
  refine ⟨rfl,rfl,?_⟩
  intro x e he
  refine ⟨e,?_,rfl,rfl⟩
  change (db.addCard r).card x=some e
  rw [addCard_card,he,Option.some_or]

theorem Sound.card_new (h : Sound db) {r : Card} (hid : r.id=db.nextCardId) (a : Activity) :
    ((db.addCard r).log a).card db.nextCardId=some r := by
  change (db.addCard r).card db.nextCardId=some r
  rw [addCard_card,h.not_next,if_pos hid,Option.none_or]

/-- A new card of a person's, or shared, as what is over it allows. -/
theorem Sound.addCard {r : Card} {a : Activity} (h : Sound db) (hid : r.id=db.nextCardId)
    (hparent : ∀ p, r.parentCardId=some p → Fits db r.privateTo p)
    (howner : ∀ o, r.privateTo=some o → ∃ p, db.card o=some p∧db.cardTypeName p=some "person")
    (hroot : db.cardTypeName r=some "project"∨db.cardTypeName r=some "person" → r.privateTo=none) :
    Sound ((db.addCard r).log a) := by
  have hkept : Kept db ((db.addCard r).log a) := addCard_kept db r a
  have hmem : ∀ e∈((db.addCard r).log a).cards, e∈db.cards∨e=r := by
    intro e he
    simpa [Db.addCard,Db.log] using he
  have hzero := h.zero
  refine ⟨h.ids,h.plain,h.types,h.rootTypes,?_,?_,?_,?_,?_,?_,?_,?_⟩
  · intro e he
    cases hmem e he with
    | inl he =>
      change (db.addCard r).card e.id=some e
      rw [addCard_card,h.keyed e he,Option.some_or]
    | inr he =>
      subst he
      rw [hid]
      exact h.card_new hid a
  · intro e he
    change e.id<db.nextCardId+1
    cases hmem e he with
    | inl he =>
      have := h.fresh e he
      omega
    | inr he =>
      subst he
      omega
  · refine ⟨?_,?_⟩
    · change (db.addCard r).card 0=none
      have hne : r.id≠0 := by omega
      rw [addCard_card,hzero.1,if_neg hne,Option.none_or]
    · change 0<db.nextCardId+1
      omega
  · intro e he p hp
    cases hmem e he with
    | inl he => exact (h.parents e he p hp).kept hkept
    | inr he =>
      subst he
      exact (hparent p hp).kept hkept
  · intro w hw
    obtain ⟨e,he,hfits⟩ := h.rows w hw
    refine ⟨e,?_,fun id hid => (hfits id hid).kept hkept⟩
    change (db.addCard r).card w.cardId=some e
    rw [addCard_card,he,Option.some_or]
  · intro e he o ho
    have hperson : ∃ p, db.card o=some p∧db.cardTypeName p=some "person" := by
      cases hmem e he with
      | inl he => exact h.owners e he o ho
      | inr he =>
        subst he
        exact howner o ho
    obtain ⟨p,hp,htype⟩ := hperson
    obtain ⟨p',hp',-,htype'⟩ := hkept.cards o p hp
    exact ⟨p',hp',(typeName_congr hkept.cardTypes htype').trans htype⟩
  · intro e he htype
    cases hmem e he with
    | inl he => exact h.roots e he htype
    | inr he =>
      subst he
      exact hroot htype
  · intro f hf e he
    exact (h.flows f hf e he).kept hkept

/-- The cards change, each keeping its id and its type, their owners renamed alike. -/
theorem Sound.mapCards {f : Card → Card} {ρ : Int → Int} (h : Sound db)
    (hid : ∀ r, (f r).id=r.id) (htype : ∀ r, (f r).cardTypeId=r.cardTypeId)
    (hprivate : ∀ r, (f r).privateTo=r.privateTo.map ρ)
    (hperson : ∀ o p, db.card o=some p → db.cardTypeName p=some "person" →
      ∃ q, db.card (ρ o)=some q∧db.cardTypeName q=some "person")
    (hparent : ∀ r∈db.cards, ∀ p, (f r).parentCardId=some p → Fits db r.privateTo p) :
    Sound (db.mapCards f) := by
  have hcard := mapCards_card hid db
  have hfits : ∀ {owner : Option Int} {id : Int}, Fits db owner id →
      Fits (db.mapCards f) (owner.map ρ) id := by
    rintro owner id ⟨k,hk,hfit⟩
    refine ⟨f k,by rw [hcard,hk,Option.map_some],?_⟩
    rw [hprivate]
    cases hfit with
    | inl hfit => exact .inl (by rw [hfit,Option.map_none])
    | inr hfit => exact .inr (by rw [hfit])
  have hname : ∀ r, (db.mapCards f).cardTypeName (f r)=db.cardTypeName r :=
    fun r => typeName_congr rfl (htype r)
  refine ⟨h.ids,h.plain,h.types,h.rootTypes,?_,?_,?_,?_,?_,?_,?_,?_⟩
  · intro e he
    obtain ⟨r,hr,rfl⟩ := List.mem_map.mp he
    rw [hcard,hid,h.keyed r hr,Option.map_some]
  · intro e he
    obtain ⟨r,hr,rfl⟩ := List.mem_map.mp he
    rw [hid]
    exact h.fresh r hr
  · exact ⟨by rw [hcard,h.zero.1,Option.map_none],h.zero.2⟩
  · intro e he p hp
    obtain ⟨r,hr,rfl⟩ := List.mem_map.mp he
    rw [hprivate]
    exact hfits (hparent r hr p hp)
  · intro w hw
    obtain ⟨r,hr,hfit⟩ := h.rows w hw
    refine ⟨f r,by rw [hcard,hr,Option.map_some],?_⟩
    intro id hmem
    rw [hprivate]
    exact hfits (hfit id hmem)
  · intro e he o ho
    obtain ⟨r,hr,rfl⟩ := List.mem_map.mp he
    rw [hprivate] at ho
    obtain ⟨o',ho',rfl⟩ := Option.map_eq_some_iff.mp ho
    obtain ⟨p,hp,hpt⟩ := h.owners r hr o' ho'
    obtain ⟨q,hq,hqt⟩ := hperson o' p hp hpt
    exact ⟨f q,by rw [hcard,hq,Option.map_some],(hname q).trans hqt⟩
  · intro e he ht
    obtain ⟨r,hr,rfl⟩ := List.mem_map.mp he
    rw [hname] at ht
    rw [hprivate,h.roots r hr ht,Option.map_none]
  · intro g hg e he
    have hfit := hfits (h.flows g hg e he)
    exact hfit

/-- Owners stay as they are. -/
theorem Sound.mapCards_owned {f : Card → Card} (h : Sound db) (hid : ∀ r, (f r).id=r.id)
    (htype : ∀ r, (f r).cardTypeId=r.cardTypeId) (hprivate : ∀ r, (f r).privateTo=r.privateTo)
    (hparent : ∀ r∈db.cards, ∀ p, (f r).parentCardId=some p → Fits db r.privateTo p) :
    Sound (db.mapCards f) := by
  refine h.mapCards (ρ := fun o => o) hid htype ?_ (fun o p hp ht => ⟨p,hp,ht⟩) hparent
  intro r
  rw [hprivate]
  exact Option.map_id'.symm

theorem mapCards_kept {f : Card → Card} (hid : ∀ r, (f r).id=r.id)
    (htype : ∀ r, (f r).cardTypeId=r.cardTypeId) (hprivate : ∀ r, (f r).privateTo=r.privateTo) :
    Kept db (db.mapCards f) := by
  refine ⟨rfl,rfl,?_⟩
  intro x e he
  exact ⟨f e,by rw [mapCards_card hid,he,Option.map_some],hprivate e,htype e⟩

theorem Sound.mapValues {g : AttributeValue → AttributeValue} (h : Sound db)
    (hcard : ∀ w, (g w).cardId=w.cardId)
    (hnames : ∀ w r, db.card w.cardId=some r → (∀ id∈named db w, Fits db r.privateTo id) →
      ∀ id∈named db (g w), Fits db r.privateTo id) :
    Sound { db with values := db.values.map g } := by
  refine ⟨h.ids,h.plain,h.types,h.rootTypes,h.keyed,h.fresh,h.zero,h.parents,?_,h.owners,h.roots,
    h.flows⟩
  intro e he
  obtain ⟨w,hw,rfl⟩ := List.mem_map.mp he
  obtain ⟨r,hr,hfits⟩ := h.rows w hw
  refine ⟨r,?_,hnames w r hr hfits⟩
  rw [hcard]
  exact hr

theorem Sound.dropValues (h : Sound db) (gone : AttributeValue → Bool) :
    Sound (db.dropValues gone) := by
  refine ⟨h.ids,h.plain,h.types,h.rootTypes,h.keyed,h.fresh,h.zero,h.parents,?_,h.owners,h.roots,
    h.flows⟩
  intro w hw
  exact h.rows w (List.mem_of_mem_filter hw)

end Kitp.PrivateCards
