import Kitp.CardInsert
import Kitp.CardMoveRuns

/-! Values against the edges of their cards' types, over runs of `card.insert` and
`attribute.update`, and what an insert's activities record. -/
namespace Kitp.AttributeEdges
open Kitp.Store Kitp.Attributes Kitp.Runs Kitp.Steps

/-- The keys of the tables, and every value on an attribute of its card's type. -/
structure Kept (db : Db) : Prop where
  ids : ∀ d∈db.attributeDefs, ∀ e∈db.attributeDefs, d.id=e.id → d=e
  names : ∀ d∈db.attributeDefs, ∀ e∈db.attributeDefs, d.name=e.name → d=e
  keyed : ∀ c∈db.cards, db.card c.id=some c
  fresh : ∀ c∈db.cards, c.id<db.nextCardId
  rows : db.values.Pairwise fun v w => ¬(v.cardId=w.cardId∧v.attributeDefId=w.attributeDefId)
  edged : ∀ v∈db.values, ∃ c, db.card v.cardId=some c∧
    (db.edge c.cardTypeId v.attributeDefId).isSome

/-- The activities the second state adds record what their cards end up with in it. -/
def Recorded (db db' : Db) : Prop :=
  ∃ new, db'.activity=db.activity++new∧
    ∀ a∈new, ∀ d, a.attributeDefId=some d →
      ∃ v, a.valueNew=some v∧db'.value a.cardId d=some v

variable {db db' db'' : Db} {c d : Int} {v : Json}

theorem mem_upsert {rows : List AttributeValue} {w : AttributeValue}
    (h : w∈upsert c d v rows) : (w.cardId=c∧w.attributeDefId=d∧w.value=v)∨w∈rows := by
  induction rows with
  | nil =>
    have hw : w=⟨c,d,v⟩ := by simpa [upsert] using h
    simp [hw]
  | cons r rows ih =>
    by_cases hr : r.cardId=c∧r.attributeDefId=d
    · rw [upsert,if_pos hr] at h
      cases List.mem_cons.mp h with
      | inl h =>
        subst h
        exact .inl ⟨hr.1,hr.2,rfl⟩
      | inr h => exact .inr (List.mem_cons_of_mem _ h)
    · rw [upsert,if_neg hr] at h
      cases List.mem_cons.mp h with
      | inl h => exact .inr (h ▸ List.mem_cons_self)
      | inr h =>
        cases ih h with
        | inl h => exact .inl h
        | inr h => exact .inr (List.mem_cons_of_mem _ h)

theorem pairwise_upsert {rows : List AttributeValue} (h : rows.Pairwise fun v w =>
      ¬(v.cardId=w.cardId∧v.attributeDefId=w.attributeDefId)) :
    (upsert c d v rows).Pairwise fun v w =>
      ¬(v.cardId=w.cardId∧v.attributeDefId=w.attributeDefId) := by
  induction rows with
  | nil => simp [upsert]
  | cons r rows ih =>
    obtain ⟨hr,hrows⟩ := List.pairwise_cons.mp h
    by_cases hk : r.cardId=c∧r.attributeDefId=d
    · rw [upsert,if_pos hk]
      exact List.pairwise_cons.mpr ⟨hr,hrows⟩
    · rw [upsert,if_neg hk]
      refine List.pairwise_cons.mpr ⟨fun w hw => ?_,ih hrows⟩
      cases mem_upsert hw with
      | inl hw =>
        rw [hw.1,hw.2.1]
        exact hk
      | inr hw => exact hr w hw

/-- A write to an attribute of the card's type. -/
theorem Kept.writeValue {actor : Int} {old : Option Json} {card : Card} (h : Kept db)
    (hc : db.card c=some card) (he : (db.edge card.cardTypeId d).isSome) :
    Kept (writeValue db actor c d old v) where
  ids := h.ids
  names := h.names
  keyed := h.keyed
  fresh := h.fresh
  rows := pairwise_upsert h.rows
  edged w hw := by
    cases mem_upsert hw with
    | inl hw =>
      rw [hw.1,hw.2.1]
      exact ⟨card,hc,he⟩
    | inr hw => exact h.edged w hw

theorem Kept.addCard {row : Card} {a : Activity} (h : Kept db) (hid : row.id=db.nextCardId) :
    Kept ((db.addCard row).log a) := by
  have hcard (x : Int) : ((db.addCard row).log a).card x=
      (db.card x).or (if row.id=x then some row else none) := addCard_card db row x
  have hold (x : Int) (e : Card) (hx : db.card x=some e) :
      ((db.addCard row).log a).card x=some e := by
    rw [hcard,hx,Option.some_or]
  have hmem : ∀ e∈((db.addCard row).log a).cards, e∈db.cards∨e=row := by
    intro e he
    simpa [Db.addCard,Db.log] using he
  have hnone : db.card row.id=none := by
    cases hx : db.card row.id with
    | none => rfl
    | some e =>
      have := h.fresh e (List.mem_of_find?_eq_some hx)
      rw [card_id hx] at this
      omega
  refine ⟨h.ids,h.names,?_,?_,h.rows,?_⟩
  · intro e he
    cases hmem e he with
    | inl he => exact hold _ _ (h.keyed e he)
    | inr he =>
      subst he
      rw [hcard,hnone]
      simp
  · intro e he
    change e.id<db.nextCardId+1
    cases hmem e he with
    | inl he =>
      have := h.fresh e he
      omega
    | inr he =>
      subst he
      omega
  · intro w hw
    obtain ⟨e,he,hedge⟩ := h.edged w hw
    exact ⟨e,hold _ _ he,hedge⟩

theorem Kept.congr (h : Kept db) (k : SameCards db db') (hvalues : db'.values=db.values) :
    Kept db' where
  ids := by simpa only [k.attributeDefs] using h.ids
  names := by simpa only [k.attributeDefs] using h.names
  keyed := by simpa only [k.cards,k.card] using h.keyed
  fresh := by simpa only [k.cards,k.nextCardId] using h.fresh
  rows := by simpa only [hvalues] using h.rows
  edged := by simpa only [hvalues,k.card,k.edge] using h.edged

theorem named {n : String} {e : AttributeDef} (h : db.attributeNamed n=some e) :
    e∈db.attributeDefs∧e.name=n := by
  have hname := List.find?_some h
  exact ⟨List.mem_of_find?_eq_some h,by simpa using hname⟩

section Writes

variable {α : Type} (cardOf attrOf : α → Int) (valueOf : α → Json) (actor : Int)

/-- New values, one after another, each with its activity. -/
def writes (db : Db) (l : List α) : Db :=
  l.foldl (fun db a => writeValue db actor (cardOf a) (attrOf a) none (valueOf a)) db

variable {l : List α}

theorem writes_keeps (db : Db) (l : List α) : SameCards db (writes cardOf attrOf valueOf actor db l) :=
  foldl_inv (I := SameCards db) (.refl db) fun s hs _ _ => hs.trans (writeValue_keeps s actor _ _ _ _)

theorem Kept.writes (h : Kept db) (he : ∀ a∈l, ∃ card, db.card (cardOf a)=some card∧
      (db.edge card.cardTypeId (attrOf a)).isSome) :
    Kept (writes cardOf attrOf valueOf actor db l) := by
  have hall : Kept (AttributeEdges.writes cardOf attrOf valueOf actor db l)∧
      SameCards db (AttributeEdges.writes cardOf attrOf valueOf actor db l) := by
    refine foldl_inv (I := fun s => Kept s∧SameCards db s) ⟨h,.refl db⟩ fun s hs a ha => ?_
    obtain ⟨card,hcard,hedge⟩ := he a ha
    rw [← hs.2.card] at hcard
    rw [← hs.2.edge] at hedge
    exact ⟨hs.1.writeValue hcard hedge,hs.2.trans (writeValue_keeps s actor _ _ _ _)⟩
  exact hall.1

theorem writes_ne (h : ∀ a∈l, ¬(c=cardOf a∧d=attrOf a)) :
    (writes cardOf attrOf valueOf actor db l).value c d=db.value c d := by
  refine foldl_inv (I := fun s : Db => s.value c d=db.value c d) rfl fun s hs a ha => ?_
  rw [writeValue_ne s actor (h a ha),hs]

/-- Writes to different values all last. -/
theorem writes_value (hl : l.Pairwise fun a b => ¬(cardOf a=cardOf b∧attrOf a=attrOf b)) :
    ∀ a∈l, (writes cardOf attrOf valueOf actor db l).value (cardOf a) (attrOf a)=
      some (valueOf a) := by
  induction l generalizing db with
  | nil => simp
  | cons b l ih =>
    obtain ⟨hb,hl⟩ := List.pairwise_cons.mp hl
    intro a ha
    cases List.mem_cons.mp ha with
    | inl ha =>
      subst ha
      exact (writes_ne cardOf attrOf valueOf actor hb).trans (writeValue_self db actor _ _ _ _)
    | inr ha => exact ih hl a ha

theorem writes_activity (db : Db) (l : List α) : ∃ new, (writes cardOf attrOf valueOf actor db l).activity=
    db.activity++new∧∀ r∈new, ∃ a∈l, r.cardId=cardOf a∧r.attributeDefId=some (attrOf a)∧
      r.valueNew=some (valueOf a) := by
  refine foldl_inv (I := fun s : Db => ∃ new, s.activity=db.activity++new∧
    ∀ r∈new, ∃ a∈l, r.cardId=cardOf a∧r.attributeDefId=some (attrOf a)∧
      r.valueNew=some (valueOf a)) ⟨[],by simp,by simp⟩ fun s hs a ha => ?_
  obtain ⟨new,hnew,hrows⟩ := hs
  refine ⟨new++[⟨cardOf a,"attr_update",some (attrOf a),none,some (valueOf a),actor⟩],?_,?_⟩
  · change s.activity++[_]=_
    rw [hnew,List.append_assoc]
  · intro r hr
    cases List.mem_append.mp hr with
    | inl hr => exact hrows r hr
    | inr hr =>
      have hr := List.mem_singleton.mp hr
      subst hr
      exact ⟨a,ha,rfl,rfl,rfl⟩

/-- Writes to different values record what they leave. -/
theorem writes_recorded (hl : l.Pairwise fun a b => ¬(cardOf a=cardOf b∧attrOf a=attrOf b)) :
    Recorded db (writes cardOf attrOf valueOf actor db l) := by
  obtain ⟨new,hnew,hrows⟩ := writes_activity cardOf attrOf valueOf actor db l
  refine ⟨new,hnew,fun r hr d hd => ?_⟩
  obtain ⟨a,ha,hc,hattr,hv⟩ := hrows r hr
  have hda : d=attrOf a := Option.some.inj (hd.symm.trans hattr)
  rw [hc,hda]
  exact ⟨valueOf a,hv,writes_value cardOf attrOf valueOf actor hl a ha⟩

end Writes

/-- What was recorded still is when later steps leave the values that are there. -/
theorem Recorded.trans (h : Recorded db db') (k : Recorded db' db'')
    (hstay : ∀ c d v, db'.value c d=some v → db''.value c d=some v) : Recorded db db'' := by
  obtain ⟨new,hnew,hrows⟩ := h
  obtain ⟨more,hmore,hrows'⟩ := k
  refine ⟨new++more,by rw [hmore,hnew,List.append_assoc],?_⟩
  intro a ha d hd
  cases List.mem_append.mp ha with
  | inl ha =>
    obtain ⟨v,hv,hval⟩ := hrows a ha d hd
    exact ⟨v,hv,hstay _ _ _ hval⟩
  | inr ha => exact hrows' a ha d hd

theorem Recorded.refl (db : Db) : Recorded db db := ⟨[],by simp,by simp⟩

theorem Recorded.writeValue (db : Db) (actor c d : Int) (old : Option Json) (v : Json) :
    Recorded db (writeValue db actor c d old v) := by
  refine ⟨[⟨c,"attr_update",some d,old,some v,actor⟩],rfl,fun a ha d' hd => ?_⟩
  have ha := List.mem_singleton.mp ha
  subst ha
  cases hd
  exact ⟨v,rfl,writeValue_self db actor c d old v⟩

/-- A value belongs to a card that is there. -/
theorem Kept.card_of_value (h : Kept db) (hv : db.value c d=some v) :
    (db.card c).isSome∧c<db.nextCardId := by
  obtain ⟨r,hr,hrc,-,-⟩ := mem_of_value hv
  obtain ⟨e,he,-⟩ := h.edged r hr
  rw [hrc] at he
  have := h.fresh e (List.mem_of_find?_eq_some he)
  rw [card_id he] at this
  exact ⟨by simp [he],this⟩

section Insert
open Kitp.CardInsert

variable {env : Env} {actor : Int} {input : Input} {w : Checked} {t : CardType}
  {attrs attrs' : List (String×Json)} {name : String}

theorem mem_addField {f : String×Json} (h : f∈addField name v attrs) : f=(name,v)∨f∈attrs := by
  induction attrs with
  | nil => exact .inl (List.mem_singleton.mp h)
  | cons g attrs ih =>
    unfold addField at h
    split at h
    · exact List.mem_cons.mp h
    · cases List.mem_cons.mp h with
      | inl h => exact .inr (h ▸ List.mem_cons_self)
      | inr h =>
        cases ih h with
        | inl h => exact .inl h
        | inr h => exact .inr (List.mem_cons_of_mem _ h)

theorem nodup_addField (h : (attrs.map (·.1)).Nodup) (hn : name∉attrs.map (·.1)) :
    ((addField name v attrs).map (·.1)).Nodup := by
  induction attrs with
  | nil => simp [addField]
  | cons g attrs ih =>
    obtain ⟨hg,hattrs⟩ := List.nodup_cons.mp h
    unfold addField
    split
    · exact List.nodup_cons.mpr ⟨hn,h⟩
    · refine List.nodup_cons.mpr ⟨fun hmem => ?_,ih hattrs fun hm => hn (List.mem_cons_of_mem _ hm)⟩
      obtain ⟨f,hf,hfg⟩ := List.mem_map.mp hmem
      cases mem_addField hf with
      | inl hf =>
        rw [hf] at hfg
        exact hn (List.mem_cons.mpr (.inl hfg))
      | inr hf => exact hg (hfg ▸ List.mem_map_of_mem hf)

theorem nodup_addMissing (h : (attrs.map (·.1)).Nodup) :
    ((addMissing name v attrs).map (·.1)).Nodup := by
  unfold addMissing
  split
  · exact h
  · rename_i hn
    exact nodup_addField h hn

theorem nodup_spliced (input : Input) : ((spliced input).map (·.1)).Nodup := by
  unfold spliced
  split
  · exact input.distinct
  · exact nodup_addMissing (nodup_addMissing input.distinct)

/-- Every attribute but the title that the type can hold. -/
def Bound (db : Db) (t : CardType) (attrs : List (String×Json)) : Prop :=
  ∀ f∈attrs, f.1≠"title" → ∀ d, db.attributeNamed f.1=some d → (db.edge t.id d.id).isSome

theorem allowed_bound {f : String×Json} (h : allowed env db actor t f=.ok ())
    (ht : f.1≠"title") {e : AttributeDef} (he : db.attributeNamed f.1=some e) :
    (db.edge t.id e.id).isSome := by
  simp only [allowed,ht,if_false] at h
  split at h
  · cases h
  · split at h
    · cases h
    · split at h
      · cases h
      · rename_i b hb
        obtain ⟨hbe,hedge⟩ := Option.filter_eq_some_iff.mp hb
        have hbe : b=e := Option.some.inj (hbe.symm.trans he)
        exact hbe ▸ hedge

theorem required_bound (h : Kept db) (hn : name∈requiredNames db t) {e : AttributeDef}
    (he : db.attributeNamed name=some e) : (db.edge t.id e.id).isSome := by
  obtain ⟨edge,hedge,hname⟩ := List.mem_filterMap.mp hn
  have hmem := (List.mem_insertionSort _).mp hedge
  simp only [List.mem_filter,decide_eq_true_eq] at hmem
  obtain ⟨b,hb,hbn⟩ := Option.map_eq_some_iff.mp hname
  have hbid : b.id=edge.attributeDefId := by simpa using List.find?_some hb
  have hbe : b=e := h.names b (List.mem_of_find?_eq_some hb) e (named he).1
    (hbn.trans (named he).2.symm)
  subst hbe
  unfold Db.edge
  rw [List.find?_isSome]
  exact ⟨edge,hmem.1,by simp [hmem.2.1,hbid]⟩

/-- A required attribute that is put in was missing. -/
theorem withRequired_ok {parent : Option Int}
    (h : withRequired db t parent attrs name=.ok attrs') :
    attrs'=attrs∨∃ status, attrs'=addField name (.ofInt status) attrs∧name∉attrs.map (·.1) := by
  simp only [withRequired] at h
  split at h
  · cases h
    exact .inl rfl
  · split at h
    · cases h
    · cases h
      exact .inl rfl
    · rename_i hnone
      split at h
      · cases h
        refine .inr ⟨_,rfl,fun hm => ?_⟩
        obtain ⟨f,hf,hfn⟩ := List.mem_map.mp hm
        have := List.lookup_eq_none_iff.mp hnone f hf
        simp [hfn] at this
      · cases h

theorem prepare_bound (h : Kept db) (hw : prepare env db actor input=.ok w) :
    (w.attrs.map (·.1)).Nodup∧Bound db w.cardType w.attrs := by
  obtain ⟨-,-,-,-,hallowed,hattrs⟩ := prepare_ok hw
  refine foldlM_inv (I := fun attrs => (attrs.map (·.1)).Nodup∧Bound db w.cardType attrs) hattrs
    ⟨nodup_spliced input,fun f hf ht e he => allowed_bound (hallowed f hf) ht he⟩ ?_
  intro attrs name attrs' hI hn hstep
  cases withRequired_ok hstep with
  | inl hs => exact hs ▸ hI
  | inr hs =>
    obtain ⟨status,hs,hmissing⟩ := hs
    subst hs
    refine ⟨nodup_addField hI.1 hmissing,fun f hf ht e he => ?_⟩
    cases mem_addField hf with
    | inl hf =>
      subst hf
      exact required_bound h hn he
    | inr hf => exact hI.2 f hf ht e he

theorem titleDef_ok {e : AttributeDef} (h : titleDef db t=.ok e) :
    db.attributeNamed "title"=some e∧(db.edge t.id e.id).isSome := by
  unfold titleDef at h
  split at h
  · cases h
  · rename_i b hb
    cases h
    exact Option.filter_eq_some_iff.mp hb

/-- What the row writes, by the name of the attribute. -/
theorem mem_written {a : AttributeDef×Json} (h : a∈written db w) :
    a=(w.titleDef,.str w.title)∨∃ f∈w.attrs, f.1≠"title"∧f.2≠.null∧
      db.attributeNamed f.1=some a.1∧a.2=stored a.1 f.2 := by
  cases List.mem_cons.mp h with
  | inl h => exact .inl h
  | inr h =>
    obtain ⟨f,hf,ha⟩ := List.mem_filterMap.mp h
    obtain ⟨e,he,ha⟩ := Option.map_eq_some_iff.mp ha
    obtain ⟨he,hf1⟩ := Option.filter_eq_some_iff.mp he
    simp only [decide_eq_true_eq] at hf1
    subst ha
    exact .inr ⟨f,hf,hf1.1,hf1.2,he,rfl⟩

theorem written_edge (h : Kept db) (hw : prepare env db actor input=.ok w)
    {a : AttributeDef×Json} (ha : a∈written db w) : (db.edge w.cardType.id a.1.id).isSome := by
  cases mem_written ha with
  | inl ha =>
    obtain ⟨-,-,-,htitle,-⟩ := prepare_ok hw
    rw [ha]
    exact (titleDef_ok htitle).2
  | inr ha =>
    obtain ⟨f,hf,ht,-,hd,-⟩ := ha
    exact (prepare_bound h hw).2 f hf ht a.1 hd

/-- No attribute is written twice. -/
theorem written_pairwise (h : Kept db) (hw : prepare env db actor input=.ok w) :
    (written db w).Pairwise fun a b => ¬(db.nextCardId=db.nextCardId∧a.1.id=b.1.id) := by
  obtain ⟨-,-,-,htitle,-⟩ := prepare_ok hw
  have htitled := named (titleDef_ok htitle).1
  refine List.pairwise_cons.mpr ⟨?_,?_⟩
  · intro b hb heq
    obtain ⟨f,hf,hb⟩ := List.mem_filterMap.mp hb
    obtain ⟨e,he,hb⟩ := Option.map_eq_some_iff.mp hb
    obtain ⟨he,hf1⟩ := Option.filter_eq_some_iff.mp he
    simp only [decide_eq_true_eq] at hf1
    subst hb
    have hsame := h.ids _ htitled.1 e (named he).1 heq.2
    rw [← hsame] at he
    exact hf1.1 ((named he).2.symm.trans htitled.2)
  · rw [List.pairwise_filterMap]
    refine (List.pairwise_map.mp (prepare_bound h hw).1).imp ?_
    intro f g hne a ha b hb heq
    obtain ⟨e,he,ha⟩ := Option.map_eq_some_iff.mp ha
    obtain ⟨k,hk,hb⟩ := Option.map_eq_some_iff.mp hb
    have he := (Option.filter_eq_some_iff.mp he).1
    have hk := (Option.filter_eq_some_iff.mp hk).1
    subst ha
    subst hb
    have hek := h.ids e (named he).1 k (named hk).1 heq.2
    rw [hek] at he
    exact hne ((named he).2.symm.trans (named hk).2)

/-- The created card with its values. -/
theorem Kept.write (h : Kept db) (hw : prepare env db actor input=.ok w) :
    Kept (write db actor w)∧Recorded db (write db actor w) := by
  let row : Card := ⟨db.nextCardId,w.cardType.id,w.parent,w.privateTo,false,w.phase⟩
  let created := (db.addCard row).log ⟨db.nextCardId,"card_create",none,none,none,actor⟩
  have hcreated : Kept created := h.addCard rfl
  have hrow : created.card db.nextCardId=some row :=
    hcreated.keyed row (by simp [created,Db.log,Db.addCard])
  constructor
  · refine hcreated.writes (fun _ => db.nextCardId) (fun a : AttributeDef×Json => a.1.id)
      (·.2) actor fun a ha => ⟨row,hrow,?_⟩
    exact written_edge h hw ha
  · have hrecorded : Recorded created (CardInsert.write db actor w) :=
      writes_recorded (fun _ => db.nextCardId) (fun a : AttributeDef×Json => a.1.id) (·.2) actor
        (written_pairwise h hw)
    obtain ⟨new,hnew,hrows⟩ := hrecorded
    refine ⟨⟨db.nextCardId,"card_create",none,none,none,actor⟩::new,?_,?_⟩
    · rw [hnew]
      exact List.append_assoc _ [_] _
    · intro a ha d hd
      cases List.mem_cons.mp ha with
      | inl ha => simp [ha] at hd
      | inr ha => exact hrows a ha d hd

end Insert

section Copy
open Kitp.TemplateCopy

variable {actor : Int}

/-- The copies made so far, each of its original's type. -/
structure Copied (base : Db) (root : Int×Int) (s : Db×List (Int×Int)) : Prop where
  kept : Kept s.1
  edges : s.1.edges=base.edges
  defs : s.1.attributeDefs=base.attributeDefs
  values : s.1.values=base.values
  grown : ∀ x c, base.card x=some c → s.1.card x=some c
  copies : ∀ p∈s.2, p=root∨(base.nextCardId ≤ p.2∧∃ c c', base.card p.1=some c∧
    s.1.card p.2=some c'∧c'.cardTypeId=c.cardTypeId)
  below : ∀ p∈s.2, p.2 < s.1.nextCardId
  above : base.nextCardId ≤ s.1.nextCardId
  distinct : (s.2.map (·.2)).Nodup
  activity : ∃ new, s.1.activity=base.activity++new∧∀ a∈new, a.attributeDefId=none

theorem Copied.copyCard {base : Db} {root : Int×Int} {s t : Db×List (Int×Int)} {c : Card}
    (h : Copied base root s) (hbase : Kept base) (hc : c∈base.cards)
    (hcopy : copyCard actor s c=.ok t) : Copied base root t := by
  obtain ⟨parent,a,-,ha,rfl⟩ := copyCard_ok hcopy
  let row : Card := ⟨s.1.nextCardId,c.cardTypeId,parent,none,false,c.phase⟩
  have hkept : Kept ((s.1.addCard row).log a) := h.kept.addCard rfl
  have hold (x : Int) (e : Card) (hx : s.1.card x=some e) :
      ((s.1.addCard row).log a).card x=some e := by
    change (s.1.addCard row).card x=some e
    rw [addCard_card,hx,Option.some_or]
  have hrow : ((s.1.addCard row).log a).card s.1.nextCardId=some row :=
    hkept.keyed row (by simp [Db.log,Db.addCard])
  have hnext : ((s.1.addCard row).log a).nextCardId=s.1.nextCardId+1 := rfl
  refine ⟨hkept,h.edges,h.defs,h.values,fun x e hx => hold x e (h.grown x e hx),?_,?_,?_,?_,?_⟩
  · intro p hp
    cases List.mem_append.mp hp with
    | inl hp =>
      cases h.copies p hp with
      | inl hroot => exact .inl hroot
      | inr hcopied =>
        obtain ⟨hle,e,e',he,he',htype⟩ := hcopied
        exact .inr ⟨hle,e,e',he,hold _ _ he',htype⟩
    | inr hp =>
      have hp := List.mem_singleton.mp hp
      subst hp
      exact .inr ⟨h.above,c,row,hbase.keyed c hc,hrow,rfl⟩
  · intro p hp
    rw [hnext]
    cases List.mem_append.mp hp with
    | inl hp =>
      have := h.below p hp
      omega
    | inr hp =>
      have hp := List.mem_singleton.mp hp
      subst hp
      change s.1.nextCardId < s.1.nextCardId+1
      omega
  · change base.nextCardId ≤ s.1.nextCardId+1
    have := h.above
    omega
  · rw [List.map_append,List.nodup_append]
    refine ⟨h.distinct,by simp,?_⟩
    intro x hx y hy
    obtain ⟨p,hp,hpx⟩ := List.mem_map.mp hx
    have hy : y=s.1.nextCardId := by simpa using hy
    have := h.below p hp
    omega
  · obtain ⟨new,hnew,hnone⟩ := h.activity
    refine ⟨new++[a],?_,?_⟩
    · change s.1.activity++[a]=_
      rw [hnew,List.append_assoc]
    · intro r hr
      cases List.mem_append.mp hr with
      | inl hr => exact hnone r hr
      | inr hr => exact (List.mem_singleton.mp hr).symm ▸ ha

theorem lookup_inj {remap : List (Int×Int)} {a b n : Int} (hd : (remap.map (·.2)).Nodup)
    (ha : remap.lookup a=some n) (hb : remap.lookup b=some n) : a=b := by
  have hmem {x : Int} (hx : remap.lookup x=some n) : (x,n)∈remap := by
    obtain ⟨l₁,l₂,hl,-⟩ := List.lookup_eq_some_iff.mp hx
    simp [hl]
  have hab := List.inj_on_of_nodup_map hd (hmem ha) (hmem hb) rfl
  exact congrArg Prod.fst hab

/-- No value of a copy is written twice. -/
theorem valuesToCopy_pairwise {remap : List (Int×Int)} (h : Kept db)
    (hd : (remap.map (·.2)).Nodup) :
    (valuesToCopy db remap).Pairwise fun a b => ¬(a.1=b.1∧a.2.1.id=b.2.1.id) := by
  unfold valuesToCopy
  rw [List.pairwise_filterMap]
  have hsorted := (List.perm_insertionSort (fun a b : AttributeValue => a.cardId<b.cardId∨
    (a.cardId=b.cardId∧a.attributeDefId ≤ b.attributeDefId)) db.values).symm.pairwise h.rows
      fun hne heq => hne ⟨heq.1.symm,heq.2.symm⟩
  refine hsorted.imp ?_
  intro r q hne a ha b hb heq
  obtain ⟨n,hn,ha⟩ := Option.bind_eq_some_iff.mp ha
  obtain ⟨e,he,ha⟩ := Option.map_eq_some_iff.mp ha
  obtain ⟨m,hm,hb⟩ := Option.bind_eq_some_iff.mp hb
  obtain ⟨k,hk,hb⟩ := Option.map_eq_some_iff.mp hb
  subst ha
  subst hb
  have hnm : n=m := heq.1
  have hek : e.id=k.id := heq.2
  have hre : e.id=r.attributeDefId := by
    simpa using List.find?_some (Option.filter_eq_some_iff.mp he).1
  have hqk : k.id=q.attributeDefId := by
    simpa using List.find?_some (Option.filter_eq_some_iff.mp hk).1
  exact hne ⟨lookup_inj hd hn (hnm ▸ hm),by omega⟩

/-- A template's copy keeps the keys and the edges, records its values, and leaves the
values of the cards that were there alone. -/
theorem Kept.copied_start {root : Int×Int} (h : Kept db) (hnew : root.2<db.nextCardId) :
    Copied db root (db,[root]) := by
  refine ⟨h,rfl,rfl,rfl,fun _ _ hx => hx,?_,?_,Int.le_refl _,by simp,[],by simp,by simp⟩
  · intro p hp
    exact .inl (List.mem_singleton.mp hp)
  · intro p hp
    exact (List.mem_singleton.mp hp).symm ▸ hnew

/-- What is written is a value of a copied card. -/
theorem Copied.source {root : Int×Int} {s : Db×List (Int×Int)} {withFlows : Db}
    {a : Int×AttributeDef×Json} (hs : Copied db root s) (h : Kept db)
    (hwith : SameCards s.1 withFlows) (hvalues : withFlows.values=db.values)
    (ha : a∈valuesToCopy withFlows (s.2.filter (·.1≠root.1))) : db.nextCardId ≤ a.1∧
      ∃ card, withFlows.card a.1=some card∧(withFlows.edge card.cardTypeId a.2.1.id).isSome := by
  obtain ⟨r,hr,hlookup,hdef,-⟩ := mem_valuesToCopy ha
  have hid : a.2.1.id=r.attributeDefId := by simpa using List.find?_some hdef
  have hmem : (r.cardId,a.1)∈s.2.filter (·.1≠root.1) := by
    obtain ⟨l₁,l₂,hl,-⟩ := List.lookup_eq_some_iff.mp hlookup
    rw [hl]
    exact List.mem_append_right l₁ List.mem_cons_self
  obtain ⟨hmem,hne⟩ := List.mem_filter.mp hmem
  cases hs.copies _ hmem with
  | inl hroot =>
    rw [← hroot] at hne
    simp at hne
  | inr hcase =>
    obtain ⟨hle,c,c',hc,hc',htype⟩ := hcase
    refine ⟨hle,c',?_,?_⟩
    · rw [hwith.card]
      exact hc'
    · rw [hvalues] at hr
      obtain ⟨e,he,hedge⟩ := h.edged r hr
      have hec : e=c := Option.some.inj (he.symm.trans hc)
      have hedges : withFlows.edge=db.edge := by
        rw [hwith.edge]
        funext t a
        simp only [Db.edge,hs.edges]
      rw [hedges,htype,hid,← hec]
      exact hedge

theorem Kept.copyProjectTemplate {parse : String → Option Json} {areas : Visibility.Areas}
    {template new : Int} (h : Kept db) (hnew : new<db.nextCardId)
    (hcopy : copyProjectTemplate parse areas db actor template new=.ok db') :
    Kept db'∧Recorded db db'∧(∀ c d, c<db.nextCardId → db'.value c d=db.value c d)∧
      (∀ x e, db.card x=some e → db'.card x=some e)∧db'.edges=db.edges∧
      db'.attributeDefs=db.attributeDefs := by
  obtain ⟨copy,remap,withFlows,value,-,hcards,hflows,rfl⟩ := copyProjectTemplate_ok parse areas db hcopy
  have hcopied : Copied db (template,new) (copy,remap) :=
    foldlM_inv (I := Copied db (template,new)) hcards (h.copied_start hnew)
      fun s c t hs hc hst => hs.copyCard h (mem_descendants areas db hc) hst
  have hwith : SameCards copy withFlows∧withFlows.values=copy.values∧
      withFlows.activity=copy.activity := by
    rw [hflows]
    exact copyFlows_keep remap new copy _
  have hkept : Kept withFlows := hcopied.kept.congr hwith.1 hwith.2.1
  have hvalues : withFlows.values=db.values := hwith.2.1.trans hcopied.values
  let remapped := remap.filter (·.1≠template)
  have hdistinct : (remapped.map (·.2)).Nodup :=
    hcopied.distinct.sublist (List.filter_sublist.map _)
  have hsource := fun a => hcopied.source h hwith.1 hvalues (a := a)
  have hsame := writes_keeps (fun a : Int×AttributeDef×Json => a.1) (fun a => a.2.1.id)
    (fun a => value a.2.1 a.2.2) actor withFlows (valuesToCopy withFlows remapped)
  refine ⟨?_,?_,?_,?_,?_,?_⟩
  · exact hkept.writes (fun a : Int×AttributeDef×Json => a.1) (fun a => a.2.1.id)
      (fun a => value a.2.1 a.2.2) actor fun a ha => (hsource a ha).2
  · have hwrites : Recorded withFlows _ := writes_recorded (fun a : Int×AttributeDef×Json => a.1)
      (fun a => a.2.1.id) (fun a => value a.2.1 a.2.2) actor
      (valuesToCopy_pairwise hkept hdistinct)
    obtain ⟨made,hmade,hnone⟩ := hcopied.activity
    obtain ⟨more,hmore,hrows⟩ := hwrites
    refine ⟨made++more,?_,fun a ha d hd => ?_⟩
    · refine hmore.trans ?_
      rw [hwith.2.2,hmade,List.append_assoc]
    · cases List.mem_append.mp ha with
      | inl ha => simp [hnone a ha] at hd
      | inr ha => exact hrows a ha d hd
  · intro c d hc
    refine (writes_ne (fun a : Int×AttributeDef×Json => a.1) (fun a => a.2.1.id)
      (fun a => value a.2.1 a.2.2) actor ?_).trans ?_
    · intro a ha heq
      have := (hsource a ha).1
      omega
    · simp only [Db.value,hvalues]
  · intro x e hx
    have hx := hcopied.grown x e hx
    rw [← hwith.1.card] at hx
    rw [← hx]
    exact congrFun hsame.card x
  · exact hsame.edges.trans (hwith.1.edges.trans hcopied.edges)
  · exact hsame.attributeDefs.trans (hwith.1.attributeDefs.trans hcopied.defs)

end Copy

section Steps
open Kitp.CardInsert

variable {env : Env} {actor : Int} {input : Input} {w : Checked}

/-- The persons of the accounts are cards, and whom `assign_to_me` makes the assignee can
be one: the type has the attribute, and the row names nobody else. -/
def Fits (db : Db) (env : Env) (actor : Int) (input : Input) : Prop :=
  (∀ p∈env.dir.persons, (db.card p.personCardId).isSome)∧
  ∀ person, assignedTo env db actor input=some person →
    ∀ d, db.attributeNamed "assignee"=some d → ∀ w, prepare env db actor input=.ok w →
      (db.edge w.cardType.id d.id).isSome∧
      ∀ f∈w.attrs, f.1="assignee" → f.2≠.null → stored d f.2=.ofInt person

theorem accountPerson_grown {dir : Accounts.Directory}
    (hpersons : ∀ p∈dir.persons, (db.card p.personCardId).isSome)
    (hgrown : ∀ x e, db.card x=some e → db'.card x=some e) :
    Accounts.accountPerson dir db' actor=Accounts.accountPerson dir db actor := by
  have hrow : ∀ p∈dir.persons, db'.card p.personCardId=db.card p.personCardId := by
    intro p hp
    obtain ⟨e,he⟩ := Option.isSome_iff_exists.mp (hpersons p hp)
    rw [he,hgrown _ e he]
  unfold Accounts.accountPerson
  congr 2
  funext u
  congr 1
  refine List.filter_congr fun p hp => ?_
  rw [hrow p hp]

/-- The card is new, so what it holds of an attribute is what the row wrote. -/
theorem write_value_named (h : Kept db) (hw : prepare env db actor input=.ok w) {n : String}
    {e : AttributeDef} (hn : n≠"title") (he : db.attributeNamed n=some e)
    (hv : (write db actor w).value db.nextCardId e.id=some v) :
    ∃ f∈w.attrs, f.1=n∧f.2≠.null∧v=stored e f.2 := by
  by_cases hmem : ∃ a∈written db w, a.1.id=e.id
  · obtain ⟨a,ha,hid⟩ := hmem
    have hlast : (write db actor w).value db.nextCardId a.1.id=some a.2 :=
      writes_value (fun _ => db.nextCardId) (fun a : AttributeDef×Json => a.1.id) (·.2) actor
        (written_pairwise h hw) a ha
    rw [hid,hv] at hlast
    have hva : v=a.2 := Option.some.inj hlast
    cases mem_written ha with
    | inl ha =>
      obtain ⟨-,-,-,htitle,-⟩ := prepare_ok hw
      have htitled := named (titleDef_ok htitle).1
      rw [ha] at hid
      have hsame := h.ids _ htitled.1 e (named he).1 hid
      rw [hsame] at htitled
      exact absurd ((named he).2.symm.trans htitled.2) hn
    | inr ha =>
      obtain ⟨f,hf,-,hnull,hnamed,hstored⟩ := ha
      have hsame := h.ids _ (named hnamed).1 e (named he).1 hid
      rw [hsame] at hnamed hstored
      exact ⟨f,hf,(named hnamed).2.symm.trans (named he).2,hnull,hva.trans hstored⟩
  · -- no value of a card that wasn't there
    have hkeep : (write db actor w).value db.nextCardId e.id=db.value db.nextCardId e.id := by
      refine (writes_ne (fun _ => db.nextCardId) (fun a : AttributeDef×Json => a.1.id) (·.2) actor
        ?_).trans rfl
      intro a ha heq
      exact hmem ⟨a,ha,heq.2.symm⟩
    rw [hkeep] at hv
    have := (h.card_of_value hv).2
    omega

theorem Kept.insert (h : Kept db) (hfits : Fits db env actor input)
    (hi : CardInsert.insert env db actor input=.ok db') : Kept db'∧Recorded db db' := by
  obtain ⟨w,stamped,hw,hstamp,rfl⟩ := insert_ok hi
  let row : Card := ⟨db.nextCardId,w.cardType.id,w.parent,w.privateTo,false,w.phase⟩
  obtain ⟨hkept,hrecorded⟩ := h.write hw
  have hsame : SameCards (db.addCard row) (CardInsert.write db actor w) :=
    write_inv (I := SameCards (db.addCard row)) ⟨rfl,rfl,rfl,rfl,rfl⟩
      fun s hs a _ => hs.trans (writeValue_keeps s actor _ _ _ _)
  have hnext : (CardInsert.write db actor w).nextCardId=db.nextCardId+1 := hsame.nextCardId
  have hstamped : Kept stamped∧Recorded (CardInsert.write db actor w) stamped∧
      (∀ c d, c<db.nextCardId+1 → stamped.value c d=(CardInsert.write db actor w).value c d)∧
      (∀ x e, (CardInsert.write db actor w).card x=some e → stamped.card x=some e)∧
      stamped.edges=(CardInsert.write db actor w).edges∧
      stamped.attributeDefs=(CardInsert.write db actor w).attributeDefs := by
    cases stamp_ok hstamp with
    | inl hs =>
      subst hs
      exact ⟨hkept,.refl _,fun _ _ _ => rfl,fun _ _ hx => hx,rfl,rfl⟩
    | inr hs =>
      obtain ⟨template,-,-,hcopy⟩ := hs
      rw [← hnext]
      exact hkept.copyProjectTemplate (by omega) hcopy
  obtain ⟨hkeptS,hrecordedS,hvalues,hgrown,hedges,hdefs⟩ := hstamped
  have hrecorded : Recorded db stamped := by
    refine hrecorded.trans hrecordedS fun c d v hv => ?_
    have hc := (hkept.card_of_value hv).2
    rw [hnext] at hc
    rw [hvalues c d hc,hv]
  have hcard (x : Int) (e : Card) (hx : db.card x=some e) : stamped.card x=some e := by
    apply hgrown
    rw [hsame.card,addCard_card,hx,Option.some_or]
  have hassigned : assignedTo env stamped actor input=assignedTo env db actor input := by
    unfold assignedTo
    rw [accountPerson_grown hfits.1 hcard]
  refine assign_inv (I := fun t => Kept t∧Recorded db t) ⟨hkeptS,hrecorded⟩ ?_
  intro person d hperson hd
  rw [hassigned] at hperson
  have hnamed : db.attributeNamed "assignee"=some d := by
    rw [← hd]
    have hall : stamped.attributeDefs=db.attributeDefs := hdefs.trans hsame.attributeDefs
    simp only [Db.attributeNamed,hall]
  obtain ⟨hedge,honly⟩ := hfits.2 person hperson d hnamed w hw
  have hrow : stamped.card db.nextCardId=some row := by
    apply hgrown
    have hmem : row∈(CardInsert.write db actor w).cards := by
      rw [hsame.cards]
      simp [Db.addCard]
    exact hkept.keyed row hmem
  have hedge : (stamped.edge row.cardTypeId d.id).isSome := by
    have hall : stamped.edges=db.edges := hedges.trans hsame.edges
    simpa only [Db.edge,hall] using hedge
  refine ⟨hkeptS.writeValue hrow hedge,hrecorded.trans (.writeValue stamped actor _ _ _ _) ?_⟩
  intro c e v hv
  by_cases hkey : c=db.nextCardId∧e=d.id
  · -- a supplied assignee is the actor
    rw [hkey.1,hkey.2] at hv ⊢
    rw [hvalues _ _ (by omega)] at hv
    obtain ⟨f,hf,hname,hnull,hstored⟩ := write_value_named h hw (by simp) hnamed hv
    rw [writeValue_self,hstored,honly f hf hname hnull]
  · rw [writeValue_ne stamped actor hkey,hv]

theorem Kept.update {acc : Access} {dir : Accounts.Directory}
    {pick : List FlowStep → Option FlowStep} {input : AttributeUpdate.Input} (h : Kept db)
    (hu : AttributeUpdate.update acc dir pick db actor input=.ok db') :
    Kept db'∧Recorded db db' := by
  obtain ⟨w,hw,rfl⟩ := AttributeUpdate.update_ok hu
  obtain ⟨c,hc,hedge⟩ := AttributeUpdate.prepare_edge hw
  exact ⟨h.writeValue hc hedge,.writeValue db actor _ _ _ _⟩

end Steps

/-- One row of a batch. -/
inductive Op where
  | insert (env : CardInsert.Env) (actor : Int) (input : CardInsert.Input)
  | update (acc : Access) (dir : Accounts.Directory) (pick : List FlowStep → Option FlowStep)
      (actor : Int) (input : AttributeUpdate.Input)

def step (db : Db) : Op → Option Db
  | .insert env actor input => (CardInsert.insert env db actor input).toOption
  | .update acc dir pick actor input => (AttributeUpdate.update acc dir pick db actor input).toOption

/-- Every `assign_to_me` of the run fits. -/
def Fitting (db : Db) : Op → Prop
  | .insert env actor input => Fits db env actor input
  | .update .. => True

theorem step_kept (db : Db) (op : Op) (db' : Db) (h : Kept db) (hfits : Fitting db op)
    (hs : step db op=some db') : Kept db' := by
  cases op with
  | insert env actor input => exact (h.insert hfits (ok_of_toOption hs)).1
  | update acc dir pick actor input => exact (h.update (ok_of_toOption hs)).1

/-- Over fitting runs every value is on an attribute of its card's type, and each fitting
insert that follows records what its values end up as. -/
theorem fitting_run_edged {start db : Db} {ops : List Op} (h : Kept start)
    (hrun : Run step Fitting start ops db) :
    (∀ v∈db.values, ∃ c, db.card v.cardId=some c∧
      (db.edge c.cardTypeId v.attributeDefId).isSome)∧
    ∀ env actor input db', Fits db env actor input →
      CardInsert.insert env db actor input=.ok db' → Recorded db db' := by
  have hdb : Kept db := hrun.inv Kept step_kept h
  exact ⟨hdb.edged,fun env actor input db' hfits hi => (hdb.insert hfits hi).2⟩

/-- A project and two persons; only a task has an assignee. -/
def board : Db where
  cardTypes := [⟨1,"project",none,false⟩,⟨2,"task",some 1,true⟩,⟨3,"milestone",some 1,false⟩,
    ⟨4,"person",none,false⟩]
  attributeDefs := [⟨7,"title",.text,none,none⟩,⟨10,"assignee",.cardRef,some 4,none⟩]
  cards := [⟨1,1,none,none,false,.triage⟩,⟨8,4,none,none,false,.triage⟩,
    ⟨9,4,none,none,false,.triage⟩]
  edges := [⟨2,7,true,0⟩,⟨2,10,false,1⟩,⟨3,7,true,0⟩]
  nextCardId := 10

/-- Account 7 is person 9. -/
def office : CardInsert.Env :=
  ⟨CardMove.allowed,⟨[⟨7,none,false⟩],[],[],[⟨7,9⟩]⟩,⟨[],[],[]⟩,fun _ => none⟩

theorem board_kept : Kept board where
  ids := by simp [board]
  names := by simp [board]
  keyed := by decide
  fresh := by decide
  rows := .nil
  edged := by simp [board]

def milestoneForMe : CardInsert.Input :=
  ⟨some "milestone",some 1,some "Beta","",[],List.nodup_nil,none,false,true⟩

def taskForMe : CardInsert.Input :=
  ⟨some "task",some 1,some "Paint","",[],List.nodup_nil,none,false,true⟩

/-- The other person is named as the assignee. -/
def taskForThem : CardInsert.Input :=
  ⟨some "task",some 1,some "Paint","",[("assignee",.ofInt 8)],List.nodup_singleton _,none,false,true⟩

/-- The milestone gets an assignee, which its type hasn't; the task's first activity
records a person who isn't its assignee in the end. -/
theorem assign_to_me_unchecked : Kept board∧
    (∃ db, Run step (fun _ _ => True) board [.insert office 7 milestoneForMe] db∧
      ∃ v∈db.values, ∃ c, db.card v.cardId=some c∧db.edge c.cardTypeId v.attributeDefId=none)∧
    ∃ db, CardInsert.insert office board 7 taskForThem=.ok db∧db.value 10 10=some (.ofInt 9)∧
      ¬Recorded board db := by
  have hmilestone : (step board (.insert office 7 milestoneForMe)).map
      (fun db => (db.values.map fun v => (v.cardId,v.attributeDefId),db.card 10,db.edge 3 10))=
      some ([(10,7),(10,10)],some ⟨10,3,some 1,none,false,.triage⟩,none) := rfl
  have htask : (CardInsert.insert office board 7 taskForThem).toOption.map
      (fun db => (db.value 10 10,db.activity.drop 2))=
      some (some (.ofInt 9),[⟨10,"attr_update",some 10,none,some (.ofInt 8),7⟩,
        ⟨10,"attr_update",some 10,none,some (.ofInt 9),7⟩]) := rfl
  obtain ⟨db,hdb,hend⟩ := Option.map_eq_some_iff.mp hmilestone
  obtain ⟨other,hother,hlast⟩ := Option.map_eq_some_iff.mp htask
  simp only [Prod.mk.injEq] at hend hlast
  refine ⟨board_kept,⟨db,.single trivial hdb,?_⟩,other,ok_of_toOption hother,hlast.1,?_⟩
  · have hmem : ((10,10) : Int×Int)∈db.values.map fun v => (v.cardId,v.attributeDefId) := by
      rw [hend.1]
      simp
    obtain ⟨v,hv,hkey⟩ := List.mem_map.mp hmem
    simp only [Prod.mk.injEq] at hkey
    refine ⟨v,hv,_,hkey.1 ▸ hend.2.1,?_⟩
    rw [hkey.2]
    exact hend.2.2
  · intro hrecorded
    obtain ⟨new,hnew,hrows⟩ := hrecorded
    have hnew : other.activity=new := hnew
    have hmem : (⟨10,"attr_update",some 10,none,some (.ofInt 8),7⟩ : Activity)∈new := by
      rw [← hnew]
      apply List.mem_of_mem_drop (i := 2)
      rw [hlast.2]
      exact List.mem_cons_self
    obtain ⟨v,hv,hval⟩ := hrows _ hmem 10 rfl
    rw [hlast.1] at hval
    have h89 : Json.ofInt 8=.ofInt 9 := Option.some.inj (hv.trans hval.symm)
    exact absurd h89 (by decide)

theorem taskForMe_fits : Fits board office 7 taskForMe := by
  refine ⟨by simp [office,board,Db.card],?_⟩
  intro person hperson d hd w hw
  have hassignee : board.attributeNamed "assignee"=some ⟨10,"assignee",.cardRef,some 4,none⟩ := rfl
  cases hassignee.symm.trans hd
  have hprepared : (CardInsert.prepare office board 7 taskForMe).map
      (fun w => (w.cardType,w.attrs))=.ok (⟨2,"task",some 1,true⟩,[]) := rfl
  rw [hw] at hprepared
  have hw := Except.ok.inj hprepared
  simp only [Prod.mk.injEq] at hw
  rw [hw.1,hw.2]
  exact ⟨rfl,by simp⟩

theorem taskForMe_edged : ∃ db, Run step Fitting board [.insert office 7 taskForMe] db∧
    db.value 10 10=some (.ofInt 9)∧∀ v∈db.values, ∃ c, db.card v.cardId=some c∧
      (db.edge c.cardTypeId v.attributeDefId).isSome := by
  have hend : (step board (.insert office 7 taskForMe)).map (·.value 10 10)=
      some (some (.ofInt 9)) := rfl
  obtain ⟨db,hdb,hvalue⟩ := Option.map_eq_some_iff.mp hend
  have hrun : Run step Fitting board [.insert office 7 taskForMe] db := .single taskForMe_fits hdb
  exact ⟨db,hrun,hvalue,(fitting_run_edged board_kept hrun).1⟩

end Kitp.AttributeEdges
