import Kitp.AttributeEdges

/-! The cards that values name: what `card.insert` and `attribute.update` write names cards
that are there. -/
namespace Kitp.CardRefs
open Kitp.Store Kitp.Attributes Kitp.Steps

/-- The cards a row of `attribute_value` names; 0 is none. -/
def named (db : Db) (v : AttributeValue) : List Int :=
  ((db.attributeDef v.attributeDefId).elim [] fun d => refIds d.valueType v.value).filter (·≠0)

/-- Every card the row names is there, deleted or not. -/
def Whole (db : Db) (v : AttributeValue) : Prop := ∀ id∈named db v, (db.card id).isSome

/-- No value of a live card names a card that is gone. -/
def RefsExist (db : Db) : Prop := ∀ v∈db.values, db.live v.cardId → Whole db v

/-- The keys of the tables, the types some attributes are seeded with, and the references. -/
structure Sound (db : Db) : Prop where
  ids : ∀ d∈db.attributeDefs, db.attributeDef d.id=some d
  names : ∀ d∈db.attributeDefs, ∀ e∈db.attributeDefs, d.name=e.name → d=e
  plain : ∀ d∈db.attributeDefs, d.name∈["title","flow_ref","predicate","toggle_groups"] →
    d.valueType≠.cardRef∧d.valueType≠.cardRefs
  keyed : ∀ c∈db.cards, db.card c.id=some c
  fresh : ∀ c∈db.cards, c.id<db.nextCardId
  rows : db.values.Pairwise fun v w => ¬(v.cardId=w.cardId∧v.attributeDefId=w.attributeDefId)
  owned : ∀ v∈db.values, (db.card v.cardId).isSome
  refs : RefsExist db

/-- The second state has the first one's attributes, and its cards still. -/
structure Grown (db db' : Db) : Prop where
  attributeDefs : db'.attributeDefs=db.attributeDefs
  cards : ∀ x, (db.card x).isSome → (db'.card x).isSome

variable {db db' db'' : Db} {actor c d : Int} {v : Json} {row : AttributeValue}

theorem Grown.refl (db : Db) : Grown db db := ⟨rfl,fun _ hx => hx⟩

theorem Grown.trans (h : Grown db db') (k : Grown db' db'') : Grown db db'' :=
  ⟨k.attributeDefs.trans h.attributeDefs,fun x hx => k.cards x (h.cards x hx)⟩

theorem Grown.of_same (h : SameCards db db') : Grown db db' :=
  ⟨h.attributeDefs,fun x hx => by rwa [h.card]⟩

theorem named_congr (h : db'.attributeDefs=db.attributeDefs) : named db' row=named db row := by
  simp only [named,Db.attributeDef,h]

theorem Whole.grown (h : Whole db row) (k : Grown db db') : Whole db' row := by
  intro id hid
  rw [named_congr k.attributeDefs] at hid
  exact k.cards id (h id hid)

theorem whole_of_refIds (h : ∀ e, db.attributeDef d=some e →
    ∀ id∈refIds e.valueType v, id≠0 → (db.card id).isSome) : Whole db ⟨c,d,v⟩ := by
  intro id hid
  simp only [named,List.mem_filter,decide_eq_true_eq] at hid
  cases he : db.attributeDef d with
  | none => simp [he] at hid
  | some e =>
    rw [he] at hid
    exact h e he id hid.1 hid.2

theorem Whole.refIds (h : Whole db row) {e : AttributeDef}
    (he : db.attributeDef row.attributeDefId=some e) {id : Int}
    (hid : id∈Store.refIds e.valueType row.value) (h0 : id≠0) : (db.card id).isSome := by
  apply h
  simp only [named,he,Option.elim_some,List.mem_filter,decide_eq_true_eq]
  exact ⟨hid,h0⟩

theorem refIds_plain {t : ValueType} (h : t≠.cardRef∧t≠.cardRefs) (v : Json) : refIds t v=[] := by
  cases t with
  | cardRef => exact absurd rfl h.1
  | cardRefs => exact absurd rfl h.2
  | text => rfl
  | number => rfl
  | bool => rfl
  | date => rfl

theorem refIds_ofInt {t : ValueType} {n id : Int} (h : id∈refIds t (.ofInt n)) : id=n := by
  cases t with
  | cardRef => simpa [refIds,refId,Json.ofInt,Json.Number.whole_ofInt] using h
  | cardRefs => simp [refIds,Json.ofInt] at h
  | text => simp [refIds] at h
  | number => simp [refIds] at h
  | bool => simp [refIds] at h
  | date => simp [refIds] at h

theorem named_of_mem (h : Sound db) {e : AttributeDef} {n : String}
    (he : db.attributeDef d=some e) (hn : e.name=n) : db.attributeNamed n=some e := by
  have hmem : e∈db.attributeDefs := List.mem_of_find?_eq_some he
  cases hk : db.attributeNamed n with
  | none =>
    have := List.find?_eq_none.mp hk e hmem
    simp [hn] at this
  | some k =>
    obtain ⟨hkmem,hkn⟩ := AttributeEdges.named hk
    rw [h.names k hkmem e hmem (hkn.trans hn.symm)]

theorem live_congr (h : ∀ x, db'.card x=db.card x) (x : Int) : db'.live x=db.live x := by
  simp only [Db.live,h]

/-- Other tables have no part in it. -/
theorem Sound.congr (h : Sound db) (k : SameCards db db') (hvalues : db'.values=db.values) :
    Sound db' := by
  have hdef : db'.attributeDef=db.attributeDef := by
    funext x
    simp only [Db.attributeDef,k.attributeDefs]
  refine ⟨?_,?_,?_,?_,?_,?_,?_,?_⟩
  · simpa only [k.attributeDefs,hdef] using h.ids
  · simpa only [k.attributeDefs] using h.names
  · simpa only [k.attributeDefs] using h.plain
  · simpa only [k.cards,k.card] using h.keyed
  · simpa only [k.cards,k.nextCardId] using h.fresh
  · simpa only [hvalues] using h.rows
  · simpa only [hvalues,k.card] using h.owned
  · intro row hrow hlive
    rw [hvalues] at hrow
    rw [live_congr (congrFun k.card)] at hlive
    exact (h.refs row hrow hlive).grown (.of_same k)

/-- A value on a card that is there, of cards that are. -/
theorem Sound.writeValue {old : Option Json} (h : Sound db) (hc : (db.card c).isSome)
    (hw : Whole db ⟨c,d,v⟩) : Sound (writeValue db actor c d old v) where
  ids := h.ids
  names := h.names
  plain := h.plain
  keyed := h.keyed
  fresh := h.fresh
  rows := AttributeEdges.pairwise_upsert h.rows
  owned w hw := by
    cases AttributeEdges.mem_upsert hw with
    | inl hw =>
      rw [hw.1]
      exact hc
    | inr hw => exact h.owned w hw
  refs w hmem hlive := by
    cases AttributeEdges.mem_upsert hmem with
    | inl hmem =>
      have hrow : w=⟨c,d,v⟩ := by
        cases w
        simpa using hmem
      exact hrow ▸ hw
    | inr hmem => exact h.refs w hmem hlive

theorem Sound.not_next (h : Sound db) : db.card db.nextCardId=none := by
  cases hx : db.card db.nextCardId with
  | none => rfl
  | some e =>
    have := h.fresh e (List.mem_of_find?_eq_some hx)
    rw [card_id hx] at this
    omega

theorem addCard_grown (db : Db) (r : Card) (a : Activity) : Grown db ((db.addCard r).log a) := by
  refine ⟨rfl,fun x hx => ?_⟩
  change ((db.addCard r).card x).isSome
  rw [addCard_card]
  simp [hx]

/-- A new card has no value yet. -/
theorem Sound.addCard {r : Card} {a : Activity} (h : Sound db) (hid : r.id=db.nextCardId) :
    Sound ((db.addCard r).log a) := by
  have hcard (x : Int) : ((db.addCard r).log a).card x=
      (db.card x).or (if r.id=x then some r else none) := addCard_card db r x
  have hmem : ∀ e∈((db.addCard r).log a).cards, e∈db.cards∨e=r := by
    intro e he
    simpa [Db.addCard,Db.log] using he
  refine ⟨h.ids,h.names,h.plain,?_,?_,h.rows,?_,?_⟩
  · intro e he
    rw [hcard]
    cases hmem e he with
    | inl he => rw [h.keyed e he,Option.some_or]
    | inr he => simp [he,hid,h.not_next]
  · intro e he
    change e.id<db.nextCardId+1
    cases hmem e he with
    | inl he =>
      have := h.fresh e he
      omega
    | inr he =>
      subst he
      omega
  · exact fun w hw => (addCard_grown db r a).cards _ (h.owned w hw)
  · intro w hw hlive
    refine Whole.grown (h.refs w hw ?_) (addCard_grown db r a)
    obtain ⟨e,he⟩ := Option.isSome_iff_exists.mp (h.owned w hw)
    simp only [Db.live,hcard,he,Option.some_or] at hlive
    simpa only [Db.live,he] using hlive

section Writes

variable {α : Type} (cardOf attrOf : α → Int) (valueOf : α → Json) {l : List α}

/-- Writes of such values, one after another. -/
theorem Sound.writes (h : Sound db)
    (hl : ∀ a∈l, (db.card (cardOf a)).isSome∧Whole db ⟨cardOf a,attrOf a,valueOf a⟩) :
    Sound (AttributeEdges.writes cardOf attrOf valueOf actor db l) := by
  have hall : Sound (AttributeEdges.writes cardOf attrOf valueOf actor db l)∧
      Grown db (AttributeEdges.writes cardOf attrOf valueOf actor db l) := by
    refine foldl_inv (I := fun s => Sound s∧Grown db s) ⟨h,.refl db⟩ fun s hs a ha => ?_
    obtain ⟨hcard,hwhole⟩ := hl a ha
    exact ⟨hs.1.writeValue (hs.2.cards _ hcard) (hwhole.grown hs.2),
      hs.2.trans (.of_same (writeValue_keeps s actor _ _ _ _))⟩
  exact hall.1

end Writes

section Forms
open Kitp.AttributeUpdate

variable {process attrName : String} {t : ValueType}

theorem refValues_ok {ids : List Int} (h : refValues process attrName v=.ok ids) :
    ∃ xs, v=.arr xs∧xs.filterMap refId=ids := by
  cases v with
  | arr xs =>
    refine ⟨xs,rfl,?_⟩
    change xs.mapM (refValue process attrName)=.ok ids at h
    induction xs generalizing ids with
    | nil =>
      cases h
      rfl
    | cons x xs ih =>
      rw [List.mapM_cons] at h
      obtain ⟨id,hid,h⟩ := bind_ok h
      obtain ⟨rest,hrest,h⟩ := bind_ok h
      cases h
      rw [List.filterMap_cons,refValue_ok hid,ih hrest]
  | null => cases h
  | bool b => cases h
  | num n => cases h
  | str s => cases h
  | obj fs => cases h

theorem refIds_arr_canon (xs : List Json) :
    refIds .cardRefs (.arr (xs.map canonRef))=xs.filterMap refId := by
  simp only [refIds,List.filterMap_map,Function.comp_def,refId_canonRef]

/-- The stored form of a supplied value names the same cards. -/
theorem refIds_stored (e : AttributeDef) (v : Json) :
    refIds e.valueType (CardInsert.stored e v)=refIds e.valueType v := by
  unfold CardInsert.stored
  cases ht : e.valueType with
  | cardRef => simp only [refIds,refId_canonRef]
  | cardRefs =>
    cases v with
    | arr xs =>
      rw [refIds_arr_canon]
      rfl
    | null => rfl
    | bool b => rfl
    | num n => rfl
    | str s => rfl
    | obj fs => rfl
  | text => rfl
  | number => rfl
  | bool => rfl
  | date => rfl

/-- An update's stored value names the cards that were looked up. -/
theorem normalise_refIds {e : AttributeDef} {isRequired : Bool} {value : Option Json}
    {norm : Json} {ids : List Int}
    (h : AttributeUpdate.normalise e isRequired value=.ok (norm,ids)) :
    refIds e.valueType norm=[]∨refIds e.valueType norm=ids := by
  cases ht : e.valueType with
  | cardRef =>
    cases AttributeUpdate.normalise_cardRef ht h with
    | inl hnull =>
      obtain ⟨-,rfl⟩ := hnull
      exact .inl rfl
    | inr hval =>
      obtain ⟨v,id,-,hid,rfl,rfl⟩ := hval
      refine .inr ?_
      simp only [refIds,refId_canonRef,refValue_ok hid,Option.toList_some]
  | cardRefs =>
    cases hv : value.filter (·≠.null) with
    | none =>
      simp only [AttributeUpdate.normalise,hv] at h
      split at h
      · cases h
      · cases h
        exact .inl rfl
    | some v =>
      simp only [AttributeUpdate.normalise,hv,ht] at h
      cases hr : refValues "attribute.update" e.name v with
      | error e =>
        rw [hr] at h
        cases h
      | ok found =>
        rw [hr] at h
        obtain ⟨xs,rfl,hxs⟩ := refValues_ok hr
        cases h
        exact .inr ((refIds_arr_canon xs).trans hxs)
  | text => exact .inl rfl
  | number => exact .inl rfl
  | bool => exact .inl rfl
  | date => exact .inl rfl

end Forms

section Update
open Kitp.AttributeUpdate

variable {acc : Access} {dir : Accounts.Directory} {pick : List FlowStep → Option FlowStep}
  {input : AttributeUpdate.Input}

theorem prepare_whole {w : Checked} (hs : Sound db) (h : prepare acc db actor input=.ok w) :
    (db.card w.cardId).isSome∧Whole db ⟨w.cardId,w.attr.id,w.norm⟩ := by
  obtain ⟨edge,ids,-,hbound,hnorm,hrefs,-⟩ := prepare_ok h
  obtain ⟨r,hr,-⟩ := boundEdge_ok hbound
  refine ⟨by simp [hr],whole_of_refIds fun e he id hid h0 => ?_⟩
  have hattr : w.attr∈db.attributeDefs := boundEdge_mem hbound
  have hea : e=w.attr := Option.some.inj (he.symm.trans (hs.ids w.attr hattr))
  subst hea
  cases normalise_refIds hnorm with
  | inl hnone => simp [hnone] at hid
  | inr hsome =>
    rw [hsome] at hid
    exact refCheck_ok (forM_ok hrefs id hid) h0

/-- The cards an update names were looked up. -/
theorem Sound.update (h : Sound db) (hu : update acc dir pick db actor input=.ok db') :
    Sound db' := by
  obtain ⟨w,hw,rfl⟩ := update_ok hu
  obtain ⟨hcard,hwhole⟩ := prepare_whole h hw
  exact h.writeValue hcard hwhole

end Update

section Insert
open Kitp.CardInsert

variable {env : Env} {input : CardInsert.Input} {w : Checked}

/-- Without a parent nothing is looked up: the cards the row names are there all the same. -/
def NamesRows (db : Db) (input : CardInsert.Input) : Prop :=
  input.parentCardId=none → ∀ f∈spliced input, ∀ e, db.attributeNamed f.1=some e →
    ∀ id∈refIds e.valueType f.2, id≠0 → (db.card id).isSome

theorem lookup_ok {e : AttributeDef} {n : String} {project : Option Int} {id : Int}
    (h : (if id=0 then .ok ()
      else match db.card id with
        | none => .error (notHere n id)
        | some r => scopeCheck env.acc db actor e project id r : Except Refusal Unit)=.ok ())
    (h0 : id≠0) : (db.card id).isSome := by
  rw [if_neg h0] at h
  split at h
  · cases h
  · rename_i r hr
    simp [hr]

theorem scopeAttr_ok {project : Option Int} {f : String×Json} {e : AttributeDef}
    (h : scopeAttr env db actor project f=.ok ()) (ht : f.1≠"title") (hn : f.2≠.null)
    (he : db.attributeNamed f.1=some e) :
    ∀ id∈refIds e.valueType f.2, id≠0 → (db.card id).isSome := by
  intro id hid h0
  by_cases href : e.valueType=.cardRef∨e.valueType=.cardRefs
  · simp only [scopeAttr,he,Option.filter_some,ht,hn,href,ne_eq,not_false_eq_true,and_self,
      decide_true,if_true] at h
    cases href with
    | inl href =>
      rw [if_pos href] at h
      obtain ⟨ids,hids,h⟩ := bind_ok h
      obtain ⟨_,hrefs,-⟩ := bind_ok h
      cases hv : refValue "card.insert" f.1 f.2 with
      | error x =>
        rw [hv] at hids
        cases hids
      | ok i =>
        rw [hv] at hids
        cases hids
        have hi : id=i := by simpa [href,refIds,AttributeUpdate.refValue_ok hv] using hid
        exact lookup_ok (forM_ok hrefs id (by simp [hi])) h0
    | inr href =>
      rw [if_neg (by simp [href])] at h
      obtain ⟨ids,hids,h⟩ := bind_ok h
      obtain ⟨_,hrefs,-⟩ := bind_ok h
      obtain ⟨xs,hxs,rfl⟩ := refValues_ok hids
      have hmem : id∈xs.filterMap refId := by simpa [href,refIds,hxs] using hid
      exact lookup_ok (forM_ok hrefs id hmem) h0
  · rw [refIds_plain (by simpa using href)] at hid
    simp at hid

/-- With no project over it no starting state is put in. -/
theorem prepare_bare (h : prepare env db actor input=.ok w) (hp : input.parentCardId=none) :
    w.attrs=spliced input := by
  obtain ⟨-,-,-,-,-,hattrs⟩ := prepare_ok h
  refine foldlM_inv (I := (·=spliced input)) hattrs rfl fun attrs n attrs' hI _ hstep => ?_
  rw [← hI]
  simp only [withRequired,hp,projectOver,Option.bind_none] at hstep
  split at hstep
  · cases hstep
    rfl
  · split at hstep
    · cases hstep
    · cases hstep
      rfl
    · cases hstep

theorem written_whole (hs : Sound db) (hn : NamesRows db input)
    (h : prepare env db actor input=.ok w) {a : AttributeDef×Json} (ha : a∈written db w) :
    Whole db ⟨c,a.1.id,a.2⟩ := by
  obtain ⟨-,hparent,-,htitle,-⟩ := prepare_ok h
  refine whole_of_refIds fun e he => ?_
  cases AttributeEdges.mem_written ha with
  | inl ha =>
    have hnamed := AttributeEdges.named (AttributeEdges.titleDef_ok htitle).1
    have hdef : e=w.titleDef := by
      rw [ha] at he
      exact Option.some.inj (he.symm.trans (hs.ids _ hnamed.1))
    have hplain := hs.plain w.titleDef hnamed.1 (by simp [hnamed.2])
    rw [hdef,refIds_plain hplain]
    simp
  | inr ha =>
    obtain ⟨f,hf,ht,hnull,hnamed,hstored⟩ := ha
    have hdef : e=a.1 :=
      Option.some.inj (he.symm.trans (hs.ids _ (AttributeEdges.named hnamed).1))
    rw [hdef,hstored,refIds_stored]
    cases hp : input.parentCardId with
    | none =>
      rw [prepare_bare h hp] at hf
      exact hn hp f hf a.1 hnamed
    | some p =>
      have hscope := prepare_scoped h
      rw [scopeChecks,if_pos (by simp [hparent,hp])] at hscope
      exact scopeAttr_ok (forM_ok hscope f hf) ht hnull hnamed

theorem write_same (db : Db) (actor : Int) (w : Checked) :
    SameCards (db.addCard ⟨db.nextCardId,w.cardType.id,w.parent,w.privateTo,false,w.phase⟩)
      (CardInsert.write db actor w) :=
  write_inv (I := SameCards _) ⟨rfl,rfl,rfl,rfl,rfl⟩
    fun s hs _ _ => hs.trans (writeValue_keeps s actor _ _ _ _)

theorem Sound.write (hs : Sound db) (hn : NamesRows db input)
    (h : prepare env db actor input=.ok w) : Sound (CardInsert.write db actor w) := by
  let r : Card := ⟨db.nextCardId,w.cardType.id,w.parent,w.privateTo,false,w.phase⟩
  let made : Activity := ⟨db.nextCardId,"card_create",none,none,none,actor⟩
  have hadded : Sound ((db.addCard r).log made) := hs.addCard rfl
  have hrow : (((db.addCard r).log made).card db.nextCardId).isSome := by
    rw [hadded.keyed r (by simp [Db.log,Db.addCard])]
    rfl
  exact hadded.writes (fun _ => db.nextCardId) (fun b : AttributeDef×Json => b.1.id) (·.2)
    fun b hb => ⟨hrow,(written_whole hs hn h hb).grown (addCard_grown db r made)⟩

end Insert

section Copy
open Kitp.TemplateCopy

/-- The copies made so far: each of a live card, and there. -/
structure Copies (base : Db) (root : Int) (s : Db×List (Int×Int)) : Prop where
  sound : Sound s.1
  grown : Grown base s.1
  values : s.1.values=base.values
  live : ∀ p∈s.2, p.1≠root → base.live p.1
  there : ∀ p∈s.2, (s.1.card p.2).isSome

theorem Copies.copyCard {base : Db} {root : Int} {s t : Db×List (Int×Int)} {r : Card}
    (h : Copies base root s) (hr : base.live r.id) (hcopy : copyCard actor s r=.ok t) :
    Copies base root t := by
  obtain ⟨parent,a,-,-,rfl⟩ := copyCard_ok hcopy
  let new : Card := ⟨s.1.nextCardId,r.cardTypeId,parent,none,false,r.phase⟩
  have hgrown : Grown s.1 ((s.1.addCard new).log a) := addCard_grown s.1 new a
  have hsound : Sound ((s.1.addCard new).log a) := h.sound.addCard rfl
  refine ⟨hsound,h.grown.trans hgrown,h.values,fun p hp hne => ?_,fun p hp => ?_⟩
  · cases List.mem_append.mp hp with
    | inl hp => exact h.live p hp hne
    | inr hp =>
      have hp := List.mem_singleton.mp hp
      rw [hp]
      exact hr
  · cases List.mem_append.mp hp with
    | inl hp => exact hgrown.cards _ (h.there p hp)
    | inr hp =>
      have hp := List.mem_singleton.mp hp
      rw [hp,hsound.keyed new (by simp [Db.log,Db.addCard])]
      rfl

theorem mem_of_lookup {remap : List (Int×Int)} {a n : Int} (h : remap.lookup a=some n) :
    (a,n)∈remap := by
  obtain ⟨l₁,l₂,hl,-⟩ := List.lookup_eq_some_iff.mp h
  simp [hl]

theorem refId_remapRef {remap : List (Int×Int)} {id : Int} (h : refId (remapRef remap v)=some id) :
    (∃ a, (a,id)∈remap)∨refId v=some id := by
  unfold remapRef remapId at h
  cases hl : (refId v).bind fun i => remap.lookup i with
  | none =>
    simp only [hl,Option.map_none,Option.getD_none] at h
    exact .inr h
  | some n =>
    rw [hl,Option.map_some,Option.getD_some] at h
    simp only [refId,Json.ofInt,Json.Number.whole_ofInt] at h
    obtain ⟨a,-,ha⟩ := Option.bind_eq_some_iff.mp hl
    have hn : n=id := Option.some.inj h
    exact .inl ⟨a,hn ▸ mem_of_lookup ha⟩

/-- A copied value names copies, and cards its original names. -/
theorem refIds_copyValue {parse : String → Option Json} {refAttrs : List String}
    {remap flowRemap : List (Int×Int)} {e : AttributeDef} {id : Int}
    (hplain : e.name∈["title","flow_ref","predicate","toggle_groups"] →
      e.valueType≠.cardRef∧e.valueType≠.cardRefs)
    (hid : id∈refIds e.valueType (copyValue parse refAttrs remap flowRemap e v)) :
    (∃ a, (a,id)∈remap)∨id∈refIds e.valueType v := by
  by_cases hname : e.name∈["title","flow_ref","predicate","toggle_groups"]
  · rw [refIds_plain (hplain hname)] at hid
    simp at hid
  · simp only [List.mem_cons,List.not_mem_nil,or_false,not_or] at hname
    obtain ⟨-,hflow,hpred,hgroups⟩ := hname
    simp only [copyValue,hflow,hpred,hgroups,or_self,if_false] at hid
    cases ht : e.valueType with
    | cardRef =>
      simp only [ht,refIds,Option.mem_toList] at hid ⊢
      exact refId_remapRef hid
    | cardRefs =>
      cases v with
      | arr xs =>
        simp only [ht,refIds,List.mem_filterMap,List.mem_map] at hid ⊢
        obtain ⟨y,⟨x,hx,rfl⟩,hy⟩ := hid
        cases refId_remapRef hy with
        | inl ha => exact .inl ha
        | inr hold => exact .inr ⟨x,hx,hold⟩
      | null => simp [ht,refIds] at hid
      | bool b => simp [ht,refIds] at hid
      | num n => simp [ht,refIds] at hid
      | str s => simp [ht,refIds] at hid
      | obj fs => simp [ht,refIds] at hid
    | text => simp [ht,refIds] at hid
    | number => simp [ht,refIds] at hid
    | bool => simp [ht,refIds] at hid
    | date => simp [ht,refIds] at hid

theorem Sound.copyProjectTemplate {parse : String → Option Json} {areas : Visibility.Areas}
    {template new : Int} (h : Sound db) (hnew : (db.card new).isSome)
    (hcopy : copyProjectTemplate parse areas db actor template new=.ok db') :
    Sound db'∧Grown db db' := by
  obtain ⟨copy,remap,withFlows,value,⟨refAttrs,flowRemap,hvalue⟩,hcards,hflows,rfl⟩ :=
    copyProjectTemplate_ok parse areas db hcopy
  have hstart : Copies db template (db,[(template,new)]) := by
    refine ⟨h,.refl db,rfl,fun p hp hne => ?_,fun p hp => ?_⟩
    · rw [List.mem_singleton.mp hp] at hne
      exact absurd rfl hne
    · rw [List.mem_singleton.mp hp]
      exact hnew
  have hcopies : Copies db template (copy,remap) := by
    refine foldlM_inv (I := Copies db template) hcards hstart fun s r t hs hr hst => ?_
    refine hs.copyCard ?_ hst
    simp [Db.live,h.keyed r (mem_descendants areas db hr),live_descendants areas db hr]
  have hwith : SameCards copy withFlows∧withFlows.values=copy.values∧
      withFlows.activity=copy.activity := by
    rw [hflows]
    exact copyFlows_keep remap new copy _
  have hsound : Sound withFlows := hcopies.sound.congr hwith.1 hwith.2.1
  have hgrown : Grown db withFlows := hcopies.grown.trans (.of_same hwith.1)
  have hthere : ∀ p∈remap, (withFlows.card p.2).isSome := fun p hp =>
    (Grown.of_same hwith.1).cards _ (hcopies.there p hp)
  have hwrites : SameCards withFlows _ := AttributeEdges.writes_keeps
    (fun a : Int×AttributeDef×Json => a.1) (fun a => a.2.1.id) (fun a => value a.2.1 a.2.2) actor
    withFlows (valuesToCopy withFlows (remap.filter (·.1≠template)))
  refine ⟨?_,hgrown.trans (.of_same hwrites)⟩
  refine hsound.writes (fun a : Int×AttributeDef×Json => a.1) (fun a => a.2.1.id)
    (fun a => value a.2.1 a.2.2) fun a ha => ?_
  obtain ⟨r,hr,hlookup,hdef,hval⟩ := mem_valuesToCopy ha
  obtain ⟨hmem,hne⟩ := List.mem_filter.mp (mem_of_lookup hlookup)
  refine ⟨hthere _ hmem,whole_of_refIds fun e he id hid h0 => ?_⟩
  have hdefs : a.2.1∈withFlows.attributeDefs := List.mem_of_find?_eq_some hdef
  have hea : e=a.2.1 := Option.some.inj (he.symm.trans (hsound.ids _ hdefs))
  subst hea
  rw [hvalue] at hid
  cases refIds_copyValue (hsound.plain _ hdefs) hid with
  | inl hcopied =>
    obtain ⟨x,hx⟩ := hcopied
    exact hthere _ hx
  | inr hold =>
    -- the original is a live card's value in the state before
    rw [hwith.2.1.trans hcopies.values] at hr
    have hlive : db.live r.cardId := hcopies.live _ hmem (by simpa using hne)
    rw [hval] at hold
    have hdef' : db.attributeDef r.attributeDefId=some a.2.1 := by
      rw [← hdef]
      simp only [Db.attributeDef,hgrown.attributeDefs]
    exact hgrown.cards id ((h.refs r hr hlive).refIds hdef' hold h0)

end Copy

section InsertStep
open Kitp.CardInsert

variable {env : Env} {input : CardInsert.Input}

theorem accountPerson_card {dir : Accounts.Directory} {person : Int}
    (h : Accounts.accountPerson dir db actor=some person) : (db.card person).isSome := by
  have hmem := List.min?_mem h
  obtain ⟨u,_,hu⟩ := List.mem_flatMap.mp hmem
  obtain ⟨p,hp,rfl⟩ := List.mem_map.mp hu
  have hlive := (List.mem_filter.mp hp).2
  cases hcard : db.card p.personCardId with
  | none => simp [hcard] at hlive
  | some r => rfl

theorem assignedTo_card {person : Int} (h : assignedTo env db actor input=some person) :
    (db.card person).isSome := by
  unfold assignedTo at h
  split at h
  · obtain ⟨u,_,hu⟩ := Option.bind_eq_some_iff.mp h
    split at hu
    · cases hu
    · exact accountPerson_card hu
  · cases h

/-- The cards an insert names were looked up, or are there by the condition. -/
theorem Sound.insert (h : Sound db) (hn : NamesRows db input)
    (hi : CardInsert.insert env db actor input=.ok db') : Sound db' := by
  obtain ⟨w,stamped,hw,hstamp,rfl⟩ := insert_ok hi
  have hwritten : Sound (CardInsert.write db actor w) := h.write hn hw
  have hcard : ((CardInsert.write db actor w).card db.nextCardId).isSome := by
    rw [(write_same db actor w).card,addCard_card,h.not_next]
    simp
  have hstamped : Sound stamped∧(stamped.card db.nextCardId).isSome := by
    cases stamp_ok hstamp with
    | inl hs =>
      subst hs
      exact ⟨hwritten,hcard⟩
    | inr hs =>
      obtain ⟨template,-,-,hcopy⟩ := hs
      obtain ⟨hsound,hgrown⟩ := hwritten.copyProjectTemplate hcard hcopy
      exact ⟨hsound,hgrown.cards _ hcard⟩
  refine assign_inv hstamped.1 fun person e hp _ => ?_
  refine hstamped.1.writeValue hstamped.2 (whole_of_refIds fun k _ id hid _ => ?_)
  have hid : id=person := refIds_ofInt hid
  exact hid ▸ assignedTo_card hp

end InsertStep

end Kitp.CardRefs
