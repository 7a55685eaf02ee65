import Kitp.PrivateCardOps

/-! Privacy over runs of `card.insert`, `my_screen.set`, `attribute.update`, `card.move`,
`card.merge`, `person.merge`, `card.delete` and `card.undelete`. -/
namespace Kitp.PrivateCards
open Kitp.Store Kitp.Attributes Kitp.Steps Kitp.Runs Kitp.Forest
open Kitp.CardRefs (named)

variable {db db' : Db} {actor c : Int}

theorem Sound.writes {α : Type} {l : List α} (h : Sound db) (actor : Int) (cardOf attrOf : α → Int)
    (valueOf : α → Json) (hl : ∀ a∈l, ∃ r, db.card (cardOf a)=some r∧
      ∀ id∈named db ⟨cardOf a,attrOf a,valueOf a⟩, Fits db r.privateTo id) :
    Sound (AttributeEdges.writes cardOf attrOf valueOf actor db l)∧
      Kept db (AttributeEdges.writes cardOf attrOf valueOf actor db l) := by
  refine foldl_inv (I := fun s => Sound s∧Kept db s) ⟨h,.refl db⟩ ?_
  intro s hs a ha
  obtain ⟨r,hr,hfits⟩ := hl a ha
  obtain ⟨r',hr',hprivate,-⟩ := hs.2.cards _ r hr
  refine ⟨hs.1.writeValue hr' ?_,hs.2.trans (.of_same (writeValue_keeps s actor _ _ _ _))⟩
  intro id hid
  rw [CardRefs.named_congr hs.2.attributeDefs] at hid
  rw [hprivate]
  exact (hfits id hid).kept hs.2

section Insert
open Kitp.CardInsert

variable {env : Env} {input : CardInsert.Input} {w : Checked}

/-- A card the actor sees is shared or the actor's own. -/
theorem visible_fits {areas : Visibility.Areas} {dir : Accounts.Directory} {p : Int} {r : Card}
    (h : Visibility.cardVisibleTo db areas dir actor p=true) (hr : db.card p=some r) :
    Fits db (Accounts.accountPerson dir db actor) p := by
  refine ⟨r,hr,?_⟩
  cases ho : r.privateTo with
  | none => exact .inl rfl
  | some o =>
    rw [Visibility.cardVisibleTo,hr,Option.bind_some,ho] at h
    exact .inr (of_decide_eq_true h).symm

/-- The card a row creates: who owns it, what is over it, and its type. -/
theorem owner_fits (h : Sound db) (hl : Linked db env.dir) (hw : prepare env db actor input=.ok w) :
    w.privateTo=refOwner env db actor input∧
      (∀ p, w.parent=some p → Fits db w.privateTo p)∧
      (∀ o, w.privateTo=some o → ∃ p, db.card o=some p∧db.cardTypeName p=some "person")∧
      (w.cardType.name="project"∨w.cardType.name="person" → w.privateTo=none) := by
  obtain ⟨htype,hparent,hrule,-⟩ := prepare_ok hw
  obtain ⟨howner,hprivate⟩ := owner_ok (prepare_private hw).2
  refine ⟨howner,?_,?_,?_⟩
  · intro p hp
    have hexists : ∃ r, db.card p=some r := by
      rcases parentRule_ok hrule with ⟨hnone,-⟩ | ⟨q,hq,hrow,-⟩
      · cases hnone.symm.trans hp
      · cases hq.symm.trans hp
        exact Option.isSome_iff_exists.mp hrow
    obtain ⟨r,hr⟩ := hexists
    rw [howner,refOwner]
    by_cases hpriv : input.isPrivate=true
    · obtain ⟨-,q,hq,hsees⟩ := hprivate hpriv
      cases (hparent.symm.trans hp).symm.trans hq
      rw [if_pos hpriv]
      exact visible_fits hsees hr
    · rw [if_neg hpriv]
      refine ⟨r,hr,.inr ?_⟩
      rw [← hparent,hp,Option.bind_some,hr,Option.bind_some]
  · intro o ho
    rw [howner,refOwner] at ho
    split at ho
    · exact accountPerson_link hl ho
    · obtain ⟨r,hr,hro⟩ := Option.bind_eq_some_iff.mp ho
      obtain ⟨p,-,hrow⟩ := Option.bind_eq_some_iff.mp hr
      exact h.owners r (List.mem_of_find?_eq_some hrow) o hro
  · intro hroot
    obtain ⟨hnoparent,hself⟩ := h.rootTypes w.cardType htype hroot
    have hbare : w.parent=none := by
      rcases parentRule_ok hrule with ⟨hnone,-⟩ | ⟨p,-,-,hkind,-⟩
      · exact hnone
      · cases hkind with
        | inl hkind => simp [hself] at hkind
        | inr hkind => exact absurd hnoparent hkind
    have hshared : ¬input.isPrivate=true := by
      intro hpriv
      obtain ⟨-,q,hq,-⟩ := hprivate hpriv
      rw [← hparent,hbare] at hq
      cases hq
    rw [howner,refOwner,if_neg hshared,← hparent,hbare]
    rfl

/-- A row's values are those it was given, and starting states of flows. -/
theorem attrs_mem (hw : prepare env db actor input=.ok w) {f : String×Json} (hf : f∈w.attrs) :
    f∈spliced input∨∃ g∈db.flows, ∃ status, g.defaultCreateStatusId=some status∧
      f.2=.ofInt status := by
  obtain ⟨-,-,-,-,-,hattrs⟩ := prepare_ok hw
  refine foldlM_inv (I := fun attrs => ∀ f∈attrs, f∈spliced input∨∃ g∈db.flows, ∃ status,
    g.defaultCreateStatusId=some status∧f.2=.ofInt status) hattrs (fun f hf => .inl hf) ?_ f hf
  intro attrs name attrs' hI _ hstep f hf
  simp only [withRequired] at hstep
  split at hstep
  · cases hstep
    exact hI f hf
  · split at hstep
    · cases hstep
    · cases hstep
      exact hI f hf
    · split at hstep
      · rename_i status hstatus
        cases hstep
        cases AttributeEdges.mem_addField hf with
        | inl hf =>
          obtain ⟨p,-,hdefault⟩ := Option.bind_eq_some_iff.mp hstatus
          obtain ⟨g,hg,hgs⟩ := Option.bind_eq_some_iff.mp hdefault
          exact .inr ⟨g,List.mem_of_find?_eq_some hg,status,hgs,by rw [hf]⟩
        | inr hf => exact hI f hf
      · cases hstep

/-- Another person's private card is named in digits that check 8a reads. -/
def NamesPlainly (env : Env) (db : Db) (actor : Int) (input : CardInsert.Input) : Prop :=
  ∀ f∈spliced input, ∀ e, db.attributeNamed f.1=some e → ∀ id∈refIds e.valueType f.2, id≠0 →
    ∀ k, db.card id=some k → k.privateTo≠none → k.privateTo≠refOwner env db actor input →
      id∈plainRefs f.2

theorem privateRefs_ok {f : String×Json} {e : AttributeDef} {id : Int} {k : Card}
    (h : privateRefs env db actor input f=.ok ()) (he : db.attributeNamed f.1=some e)
    (href : e.valueType=.cardRef∨e.valueType=.cardRefs) (hid : id∈plainRefs f.2)
    (hk : db.card id=some k) : k.privateTo=none∨k.privateTo=refOwner env db actor input := by
  simp only [privateRefs,he,Option.filter_some,href,decide_true,if_true] at h
  split at h
  · rename_i hnone
    have hclear := List.find?_eq_none.mp hnone id hid
    simpa [hk,or_iff_not_imp_left] using hclear
  · cases h

theorem written_fits (h : Sound db) (hn : CardRefs.NamesRows db input)
    (hplain : NamesPlainly env db actor input) (hw : prepare env db actor input=.ok w)
    {a : AttributeDef×Json} (ha : a∈written db w) :
    ∀ id∈named db ⟨c,a.1.id,a.2⟩, Fits db (refOwner env db actor input) id := by
  obtain ⟨-,hparent,-,htitle,-⟩ := prepare_ok hw
  intro id hid
  cases AttributeEdges.mem_written ha with
  | inl ha =>
    obtain ⟨hmem,hname⟩ := AttributeEdges.named (AttributeEdges.titleDef_ok htitle).1
    rw [ha,named_plain (h.ids _ hmem) (h.plain _ hmem (by simp [hname,texts]))] at hid
    cases hid
  | inr ha =>
    obtain ⟨f,hf,ht,hnull,hnamed,hstored⟩ := ha
    obtain ⟨hid,h0⟩ := (mem_named (h.ids _ (AttributeEdges.named hnamed).1)).mp hid
    rw [hstored,CardRefs.refIds_stored] at hid
    rcases attrs_mem hw hf with hgiven | ⟨g,hg,status,hstatus,hvalue⟩
    · have hrow : (db.card id).isSome := by
        cases hp : input.parentCardId with
        | none => exact hn hp f hgiven a.1 hnamed id hid h0
        | some p =>
          have hscope := prepare_scoped hw
          rw [scopeChecks,if_pos (by simp [hparent,hp])] at hscope
          exact CardRefs.scopeAttr_ok (forM_ok hscope f hf) ht hnull hnamed id hid h0
      obtain ⟨k,hk⟩ := Option.isSome_iff_exists.mp hrow
      refine ⟨k,hk,?_⟩
      by_cases hfit : k.privateTo=none∨k.privateTo=refOwner env db actor input
      · exact hfit
      · simp only [not_or] at hfit
        have hread : id∈plainRefs f.2 := hplain f hgiven a.1 hnamed id hid h0 k hk hfit.1 hfit.2
        have href : a.1.valueType=.cardRef∨a.1.valueType=.cardRefs := by
          by_contra hno
          rw [CardRefs.refIds_plain (by simpa using hno)] at hid
          cases hid
        exact privateRefs_ok ((prepare_private hw).1 f hf) hnamed href hread hk
    · rw [hvalue] at hid
      rw [CardRefs.refIds_ofInt hid]
      exact (h.flows g hg status hstatus).of_shared

theorem Sound.write (h : Sound db) (hl : Linked db env.dir) (hn : CardRefs.NamesRows db input)
    (hplain : NamesPlainly env db actor input) (hw : prepare env db actor input=.ok w) :
    Sound (CardInsert.write db actor w)∧Kept db (CardInsert.write db actor w)∧
      (CardInsert.write db actor w).card db.nextCardId=
        some ⟨db.nextCardId,w.cardType.id,w.parent,w.privateTo,false,w.phase⟩ := by
  let r : Card := ⟨db.nextCardId,w.cardType.id,w.parent,w.privateTo,false,w.phase⟩
  let made : Activity := ⟨db.nextCardId,"card_create",none,none,none,actor⟩
  obtain ⟨howner,hparent,hperson,hroot⟩ := owner_fits h hl hw
  have htype : db.cardTypeName r=some w.cardType.name := by
    rw [Db.cardTypeName,h.types w.cardType (prepare_ok hw).1,Option.map_some]
  have hadded : Sound ((db.addCard r).log made) := by
    refine h.addCard rfl hparent hperson ?_
    rw [htype]
    rintro (hname | hname)
    · exact hroot (.inl (Option.some.inj hname))
    · exact hroot (.inr (Option.some.inj hname))
  have hkept : Kept db ((db.addCard r).log made) := addCard_kept db r made
  have hcard : ((db.addCard r).log made).card db.nextCardId=some r := h.card_new rfl made
  have hvalues : ∀ a∈written db w, ∃ k, ((db.addCard r).log made).card db.nextCardId=some k∧
      ∀ id∈named ((db.addCard r).log made) ⟨db.nextCardId,a.1.id,a.2⟩,
        Fits ((db.addCard r).log made) k.privateTo id := by
    intro a ha
    refine ⟨r,hcard,?_⟩
    intro id hid
    rw [CardRefs.named_congr hkept.attributeDefs] at hid
    have hfits := written_fits h hn hplain hw ha id hid
    rw [← howner] at hfits
    exact hfits.kept hkept
  obtain ⟨hsound,hwrites⟩ := hadded.writes actor (fun _ => db.nextCardId)
    (fun a : AttributeDef×Json => a.1.id) (fun a => a.2) hvalues
  refine ⟨hsound,hkept.trans hwrites,?_⟩
  rw [(CardRefs.write_same db actor w).card,addCard_card,h.not_next,if_pos rfl,Option.none_or]

end Insert

section Copy
open Kitp.TemplateCopy

/-- The copies made so far: shared, of shared cards. -/
structure Copies (base : Db) (root : Int) (s : Db×List (Int×Int)) : Prop where
  sound : Sound s.1
  kept : Kept base s.1
  values : s.1.values=base.values
  shared : ∀ p∈s.2, p.1≠root → ∀ k, base.card p.1=some k → k.privateTo=none
  there : ∀ p∈s.2, ∃ k, s.1.card p.2=some k∧k.privateTo=none

theorem Copies.fits {base : Db} {root : Int} {s : Db×List (Int×Int)} (h : Copies base root s)
    {a n : Int} (hn : (a,n)∈s.2) : Fits s.1 none n := by
  obtain ⟨k,hk,hshared⟩ := h.there (a,n) hn
  exact ⟨k,hk,.inl hshared⟩

theorem shared_descendants {areas : Visibility.Areas} {template : Int} {r : Card}
    (h : r∈descendants areas db template) : r.privateTo=none := by
  have hcopied := (mem_walkDown areas db (List.mem_of_mem_filter h)).2
  simp only [copied,Bool.and_eq_true] at hcopied
  exact Option.isNone_iff_eq_none.mp hcopied.1.1.2

theorem Copies.copyCard {base : Db} {root : Int} {s t : Db×List (Int×Int)} {r : Card}
    (h : Copies base root s) (hr : base.card r.id=some r) (hshared : r.privateTo=none)
    (hcopy : copyCard actor s r=.ok t) : Copies base root t := by
  obtain ⟨parent,a,hparent,-,rfl⟩ := copyCard_ok hcopy
  let new : Card := ⟨s.1.nextCardId,r.cardTypeId,parent,none,false,r.phase⟩
  have hkept : Kept s.1 ((s.1.addCard new).log a) := addCard_kept s.1 new a
  have hsound : Sound ((s.1.addCard new).log a) := by
    refine h.sound.addCard rfl ?_ (fun o ho => by cases ho) (fun _ => rfl)
    intro p hp
    rcases hparent with ⟨-,hnone⟩ | ⟨q,n,-,hn,hlookup⟩
    · cases hnone.symm.trans hp
    · cases hn.symm.trans hp
      exact h.fits (CardRefs.mem_of_lookup hlookup)
  refine ⟨hsound,h.kept.trans hkept,h.values,?_,?_⟩
  · intro p hp hne k hk
    cases List.mem_append.mp hp with
    | inl hp => exact h.shared p hp hne k hk
    | inr hp =>
      rw [List.mem_singleton.mp hp] at hk
      cases hr.symm.trans hk
      exact hshared
  · intro p hp
    cases List.mem_append.mp hp with
    | inl hp =>
      obtain ⟨k,hk,hnone⟩ := h.there p hp
      obtain ⟨k',hk',hprivate,-⟩ := hkept.cards _ k hk
      exact ⟨k',hk',hprivate.trans hnone⟩
    | inr hp =>
      rw [List.mem_singleton.mp hp]
      exact ⟨new,h.sound.card_new rfl a,rfl⟩

/-- A copied flow starts at a copy, or nowhere. -/
theorem Sound.copyFlow {remap : List (Int×Int)} {new : Int} {f : Flow} (h : Sound db)
    (hremap : ∀ p∈remap, Fits db none p.2) : Sound (copyFlow remap new db f) := by
  have hkeeps := copyFlow_keeps remap new db f
  have hflows : ∀ g∈(TemplateCopy.copyFlow remap new db f).flows, g∈db.flows∨
      g.defaultCreateStatusId=f.defaultCreateStatusId.bind fun d => remap.lookup d := by
    refine foldl_inv (I := fun db' : Db => ∀ g∈db'.flows, g∈db.flows∨
      g.defaultCreateStatusId=f.defaultCreateStatusId.bind fun d => remap.lookup d) ?_ ?_
    · intro g hg
      cases List.mem_append.mp hg with
      | inl hg => exact .inl hg
      | inr hg =>
        rw [List.mem_singleton.mp hg]
        exact .inr rfl
    · intro db' hI s _ g hg
      split at hg
      · exact hI g hg
      · exact hI g hg
  have hrest : Sound { TemplateCopy.copyFlow remap new db f with flows := db.flows } :=
    h.congr ⟨hkeeps.1.cards,hkeeps.1.cardTypes,hkeeps.1.attributeDefs,hkeeps.1.edges,
      hkeeps.1.nextCardId⟩ hkeeps.2.1 rfl
  refine ⟨hrest.ids,hrest.plain,hrest.types,hrest.rootTypes,hrest.keyed,hrest.fresh,hrest.zero,
    hrest.parents,hrest.rows,hrest.owners,hrest.roots,?_⟩
  intro g hg d hd
  cases hflows g hg with
  | inl hg => exact hrest.flows g hg d hd
  | inr hstart =>
    obtain ⟨d₀,-,hlookup⟩ := Option.bind_eq_some_iff.mp (hstart.symm.trans hd)
    exact (hremap _ (CardRefs.mem_of_lookup hlookup)).kept (.of_same hkeeps.1)

theorem Sound.copyProjectTemplate {parse : String → Option Json} {areas : Visibility.Areas}
    {template new : Int} {r : Card} (h : Sound db) (hnew : db.card new=some r)
    (hshared : r.privateTo=none)
    (hcopy : copyProjectTemplate parse areas db actor template new=.ok db') :
    Sound db'∧Kept db db' := by
  obtain ⟨copy,remap,withFlows,value,⟨refAttrs,flowRemap,hvalue⟩,hcards,hflows,rfl⟩ :=
    copyProjectTemplate_ok parse areas db hcopy
  have hstart : Copies db template (db,[(template,new)]) := by
    refine ⟨h,.refl db,rfl,?_,?_⟩
    · intro p hp hne
      rw [List.mem_singleton.mp hp] at hne
      exact absurd rfl hne
    · intro p hp
      rw [List.mem_singleton.mp hp]
      exact ⟨r,hnew,hshared⟩
  have hcopies : Copies db template (copy,remap) := by
    refine foldlM_inv (I := Copies db template) hcards hstart ?_
    intro s c t hs hc hst
    exact hs.copyCard (h.keyed c (mem_descendants areas db hc)) (shared_descendants hc) hst
  have hwith : SameCards copy withFlows∧withFlows.values=copy.values∧
      withFlows.activity=copy.activity := by
    rw [hflows]
    exact copyFlows_keep remap new copy _
  have hremap : ∀ p∈remap, Fits copy none p.2 := fun p hp => hcopies.fits hp
  have hsound : Sound withFlows := by
    rw [hflows]
    have hall : Sound ((copy.flows.filter (·.scopeCardId=template)).foldl
        (TemplateCopy.copyFlow remap new) copy)∧Kept copy ((copy.flows.filter
          (·.scopeCardId=template)).foldl (TemplateCopy.copyFlow remap new) copy) := by
      refine foldl_inv (I := fun s => Sound s∧Kept copy s) ⟨hcopies.sound,.refl copy⟩ ?_
      intro s hs f _
      refine ⟨hs.1.copyFlow fun p hp => (hremap p hp).kept hs.2,hs.2.trans ?_⟩
      exact .of_same (copyFlow_keeps remap new s f).1
    exact hall.1
  have hkept : Kept db withFlows := hcopies.kept.trans (.of_same hwith.1)
  have hfits : ∀ a n, (a,n)∈remap → Fits withFlows none n := fun a n hn =>
    (hremap (a,n) hn).kept (.of_same hwith.1)
  have hvalues : ∀ a∈valuesToCopy withFlows (remap.filter (·.1≠template)),
      ∃ k, withFlows.card a.1=some k∧
        ∀ id∈named withFlows ⟨a.1,a.2.1.id,value a.2.1 a.2.2⟩, Fits withFlows k.privateTo id := by
    intro a ha
    obtain ⟨w,hw,hlookup,hdef,hval⟩ := mem_valuesToCopy ha
    obtain ⟨hmem,hne⟩ := List.mem_filter.mp (CardRefs.mem_of_lookup hlookup)
    obtain ⟨k,hk,hnone⟩ := hcopies.there _ hmem
    refine ⟨k,by rw [hwith.1.card]; exact hk,?_⟩
    intro id hid
    have hdefs : a.2.1∈withFlows.attributeDefs := List.mem_of_find?_eq_some hdef
    obtain ⟨hid,h0⟩ := (mem_named (hsound.ids _ hdefs)).mp hid
    rw [hvalue] at hid
    rw [hnone]
    have hplain : a.2.1.name∈["title","flow_ref","predicate","toggle_groups"] →
        a.2.1.valueType≠.cardRef∧a.2.1.valueType≠.cardRefs := by
      intro hname
      refine hsound.plain _ hdefs ?_
      simp only [List.mem_cons,List.not_mem_nil,or_false] at hname
      rcases hname with hname | hname | hname | hname
      · simp [hname,texts]
      · simp [hname,texts]
      · simp [hname,texts]
      · simp [hname,texts]
    cases CardRefs.refIds_copyValue hplain hid with
    | inl hcopied =>
      obtain ⟨x,hx⟩ := hcopied
      exact hfits x id hx
    | inr hold =>
      -- the original's names fit the original, which is shared
      rw [hwith.2.1.trans hcopies.values] at hw
      obtain ⟨c,hc,hnames⟩ := h.rows w hw
      have hdef' : db.attributeDef w.attributeDefId=some a.2.1 := by
        rw [← hdef]
        simp only [Db.attributeDef,hkept.attributeDefs]
      have hsource := hcopies.shared _ hmem (by simpa using hne) c hc
      rw [hval] at hold
      have hfit := hnames id ((mem_named hdef').mpr ⟨hold,h0⟩)
      rw [hsource] at hfit
      exact hfit.kept hkept
  obtain ⟨hwritten,hwrites⟩ := hsound.writes actor (fun a : Int×AttributeDef×Json => a.1)
    (fun a => a.2.1.id) (fun a => value a.2.1 a.2.2) hvalues
  exact ⟨hwritten,hkept.trans hwrites⟩

end Copy

section InsertStep
open Kitp.CardInsert

variable {env : Env} {input : CardInsert.Input}

theorem Sound.insert (h : Sound db) (hl : Linked db env.dir) (hn : CardRefs.NamesRows db input)
    (hplain : NamesPlainly env db actor input) (hi : CardInsert.insert env db actor input=.ok db') :
    Sound db'∧Kept db db' := by
  obtain ⟨w,stamped,hw,hstamp,rfl⟩ := insert_ok hi
  obtain ⟨hsound,hkept,hcard⟩ := h.write hl hn hplain hw
  have hstamped : Sound stamped∧Kept (CardInsert.write db actor w) stamped := by
    cases stamp_ok hstamp with
    | inl hs =>
      subst hs
      exact ⟨hsound,.refl _⟩
    | inr hs =>
      obtain ⟨template,hproject,-,hcopy⟩ := hs
      obtain ⟨-,-,-,hroot⟩ := owner_fits h hl hw
      exact hsound.copyProjectTemplate hcard (hroot (.inl hproject)) hcopy
  have hall : Kept db stamped := hkept.trans hstamped.2
  obtain ⟨r,hr,-⟩ := hstamped.2.cards _ _ hcard
  refine assign_inv (I := fun s => Sound s∧Kept db s) ⟨hstamped.1,hall⟩ ?_
  intro person e hp _
  refine ⟨hstamped.1.writeValue hr ?_,hall.trans (.of_same (writeValue_keeps stamped actor _ _ _ _))⟩
  intro id hid
  have hnamed : id=person := by
    cases he : stamped.attributeDef e.id with
    | none => simp [named,he] at hid
    | some k => exact CardRefs.refIds_ofInt ((mem_named he).mp hid).1
  have hperson : ∃ c, stamped.card person=some c∧stamped.cardTypeName c=some "person" := by
    unfold assignedTo at hp
    split at hp
    · obtain ⟨u,-,hu⟩ := Option.bind_eq_some_iff.mp hp
      split at hu
      · cases hu
      · exact accountPerson_link (hl.kept hall) hu
    · cases hp
  obtain ⟨c,hc,htype⟩ := hperson
  rw [hnamed]
  exact hstamped.1.person_fits hc htype

end InsertStep

/-- Everything under a person's private card and everything that names one is private to the
same person. -/
structure Private (db : Db) : Prop where
  under : ∀ x y p, Reaches db.parent x y → (db.card y).bind (·.privateTo)=some p →
    (db.card x).bind (·.privateTo)=some p
  names : ∀ v∈db.values, ∀ id∈named db v, ∀ p, (db.card id).bind (·.privateTo)=some p →
    (db.card v.cardId).bind (·.privateTo)=some p

theorem Fits.owned {owner : Option Int} {id p : Int} (h : Fits db owner id)
    (hp : (db.card id).bind (·.privateTo)=some p) : owner=some p := by
  obtain ⟨k,hk,hfits⟩ := h
  rw [hk,Option.bind_some] at hp
  cases hfits with
  | inl hnone => cases hnone.symm.trans hp
  | inr hsame => exact hsame.symm.trans hp

theorem Sound.private (h : Sound db) : Private db := by
  refine ⟨?_,?_⟩
  · intro x y p hreach
    induction hreach with
    | refl => exact id
    | tail _ hup ih =>
      intro hp
      apply ih
      obtain ⟨r,hr,hparent⟩ := Option.bind_eq_some_iff.mp hup
      rw [hr,Option.bind_some]
      exact (h.parents r (List.mem_of_find?_eq_some hr) _ hparent).owned hp
  · intro v hv id hid p hp
    obtain ⟨r,hr,hfits⟩ := h.rows v hv
    rw [hr,Option.bind_some]
    exact (hfits id hid).owned hp

/-- A successful call of one of the operations, with what the functions it calls answer; who
has which login is the state's. -/
inductive Op where
  | insert (env : CardInsert.Env) (actor : Int) (input : CardInsert.Input)
  | screen (env : MyScreens.Env) (actor : Int) (input : MyScreens.Input)
  | update (acc : Access) (dir : Accounts.Directory) (pick : List FlowStep → Option FlowStep)
      (actor : Int) (input : AttributeUpdate.Input)
  | move (acc : Access) (actor : Int) (input : CardMove.Input)
  | merge (env : CardInsert.Env) (actor : Int) (input : CardMerge.Input)
  | mergePersons (env : PersonMerge.Env) (actor : Int) (input : CardMerge.Input)
  | delete (acc : Access) (actor : Int) (cardId : Option Int)
  | undelete (acc : Access) (actor : Int) (cardId : Option Int)

open PersonMerge (State)

/-- The logins as they are. -/
def withLogins (s : State) (dir : Accounts.Directory) : Accounts.Directory :=
  { dir with persons := s.dir.persons }

def onDb (s : State) {ε : Type} (r : Except ε Db) : Option State :=
  r.toOption.map fun db => { s with db }

def step (s : State) : Op → Option State
  | .insert env actor input =>
    onDb s (CardInsert.insert { env with dir := withLogins s env.dir } s.db actor input)
  | .screen env actor input =>
    onDb s (MyScreens.set { env with dir := withLogins s env.dir } s.db actor input)
  | .update acc dir pick actor input =>
    onDb s (AttributeUpdate.update acc (withLogins s dir) pick s.db actor input)
  | .move acc actor input => onDb s (CardMove.move acc actor s.db input)
  | .merge env actor input =>
    onDb s (CardMerge.merge { env with dir := withLogins s env.dir } s.db actor input)
  | .mergePersons env actor input => (PersonMerge.merge env actor s input).toOption
  | .delete acc actor cardId => onDb s (CardDelete.delete acc s.db actor cardId)
  | .undelete acc actor cardId => onDb s (CardDelete.undelete acc s.db actor cardId)

/-- An insert names cards that are there, and names another person's private card in digits
the private check reads. -/
def Tame (s : State) : Op → Prop
  | .insert env actor input => CardRefs.NamesRows s.db input∧
      NamesPlainly { env with dir := withLogins s env.dir } s.db actor input
  | _ => True

/-- The operation merges people. -/
def Op.mergesPersons : Op → Bool
  | .mergePersons _ _ _ => true
  | _ => false

variable {s t : State} {op : Op}

theorem onDb_ok {ε : Type} {r : Except ε Db} (h : onDb s r=some t) :
    ∃ db, r=.ok db∧t={ s with db } := by
  obtain ⟨db,hdb,rfl⟩ := Option.map_eq_some_iff.mp h
  exact ⟨db,ok_of_toOption hdb,rfl⟩

/-- What one step leaves: the privacy of the cards, and their owners unless it merges people. -/
theorem step_sound (h : Sound s.db) (hl : Linked s.db s.dir) (hok : Tame s op)
    (hs : step s op=some t) :
    Sound t.db∧Linked t.db t.dir∧(op.mergesPersons=false → Kept s.db t.db) := by
  have hlogins : ∀ dir, Linked s.db (withLogins s dir) := fun dir => hl
  have hkeep : ∀ db, Sound db∧Kept s.db db → Sound db∧Linked db s.dir∧
      (op.mergesPersons=false → Kept s.db db) :=
    fun db hdb => ⟨hdb.1,hl.kept hdb.2,fun _ => hdb.2⟩
  cases op with
  | insert env actor input =>
    obtain ⟨db,hdb,rfl⟩ := onDb_ok hs
    exact hkeep db (h.insert (hlogins env.dir) hok.1 hok.2 hdb)
  | screen env actor input =>
    obtain ⟨db,hdb,rfl⟩ := onDb_ok hs
    exact hkeep db (h.screen (hlogins env.dir) hdb)
  | update acc dir pick actor input =>
    obtain ⟨db,hdb,rfl⟩ := onDb_ok hs
    exact hkeep db (h.update hdb)
  | move acc actor input =>
    obtain ⟨db,hdb,rfl⟩ := onDb_ok hs
    exact hkeep db (h.move hdb)
  | merge env actor input =>
    obtain ⟨db,hdb,rfl⟩ := onDb_ok hs
    exact hkeep db (h.merge hdb)
  | mergePersons env actor input =>
    obtain ⟨hsound,hlinked⟩ := personMerge_sound h hl (ok_of_toOption hs)
    refine ⟨hsound,hlinked,?_⟩
    intro hno
    cases hno
  | delete acc actor cardId =>
    obtain ⟨db,hdb,rfl⟩ := onDb_ok hs
    exact hkeep db (h.delete hdb)
  | undelete acc actor cardId =>
    obtain ⟨db,hdb,rfl⟩ := onDb_ok hs
    exact hkeep db (h.undelete hdb)

/-- Over such a run private cards stay among their person's own, and only `person.merge`
changes whose they are. -/
theorem stays_private {start : State} {ops : List Op} (h : Sound start.db)
    (hl : Linked start.db start.dir) (hrun : Run step Tame start ops s) :
    Private s.db∧∀ op t, Tame s op → step s op=some t → op.mergesPersons=false →
      ∀ x c, s.db.card x=some c → ∃ c', t.db.card x=some c'∧c'.privateTo=c.privateTo := by
  have hall : Sound s.db∧Linked s.db s.dir := by
    refine hrun.inv (fun s => Sound s.db∧Linked s.db s.dir) ?_ ⟨h,hl⟩
    intro s op t hs hok hst
    obtain ⟨hsound,hlinked,-⟩ := step_sound hs.1 hs.2 hok hst
    exact ⟨hsound,hlinked⟩
  refine ⟨hall.1.private,?_⟩
  intro op t hok hst hno x c hc
  obtain ⟨-,-,hkept⟩ := step_sound hall.1 hall.2 hok hst
  obtain ⟨c',hc',hprivate,-⟩ := (hkept hno).cards x c hc
  exact ⟨c',hc',hprivate⟩

section Examples

/-- A project with a shared screen, on it a view private to the first of two people. -/
def office : Db where
  cardTypes := [⟨1,"project",none,false⟩,⟨2,"person",none,false⟩,⟨3,"screen",some 1,false⟩,
    ⟨4,"filter",some 3,false⟩]
  attributeDefs := [⟨1,"title",.text,none,none⟩,⟨2,"default_filter",.cardRef,some 4,none⟩]
  cards := [⟨1,1,none,none,false,.triage⟩,⟨2,2,none,none,false,.triage⟩,
    ⟨3,2,none,none,false,.triage⟩,⟨4,3,some 1,none,false,.triage⟩,
    ⟨5,4,some 4,some 2,false,.triage⟩]
  edges := [⟨3,1,true,0⟩,⟨3,2,false,1⟩,⟨4,1,true,0⟩]
  nextCardId := 6

/-- One login, the first person's, with a role. -/
def staff : Accounts.Directory where
  accounts := [⟨7,none,false⟩,⟨8,none,false⟩]
  userRoles := [⟨7,1,none⟩]
  roles := []
  persons := [⟨7,2⟩]

def desk : State := ⟨office,staff,[]⟩

def anyone : CardInsert.Env := ⟨CardRefs.anyone,staff,⟨[],[],[]⟩,fun _ => none⟩

/-- The text functions, and accounts without an email. -/
def plainText : PersonMerge.Env := ⟨⟨id,fun _ => false,fun _ => false⟩,fun _ => none⟩

/-- The first person's second view on the shared screen. -/
def ownView : Op :=
  .insert anyone 7 ⟨some "filter",some 4,some "Mine","",[],.nil,none,true,false⟩

/-- The people are merged, the second one stays. -/
def samePerson : Op := .mergePersons plainText 8 ⟨some 3,[.ofInt 2]⟩

/-- Another user's screen, its default the view, with zeros before its id. -/
def padded : Op :=
  .insert anyone 8 ⟨some "screen",some 1,some "Board","",
    [("default_filter",.str "0000000000000000005")],List.nodup_singleton _,none,false,false⟩

theorem office_sound : Sound office where
  ids := by
    intro d hd
    simp only [office,List.mem_cons,List.not_mem_nil,or_false] at hd
    rcases hd with rfl | rfl
    · rfl
    · rfl
  plain := by decide
  types := by
    intro t ht
    simp only [office,List.mem_cons,List.not_mem_nil,or_false] at ht
    rcases ht with rfl | rfl | rfl | rfl
    · rfl
    · rfl
    · rfl
    · rfl
  rootTypes := by decide
  keyed := by decide
  fresh := by decide
  zero := by decide
  parents := by
    intro c hc p hp
    have hrow : office.card p=some ⟨1,1,none,none,false,.triage⟩∨
        office.card p=some ⟨4,3,some 1,none,false,.triage⟩ := by
      simp only [office,List.mem_cons,List.not_mem_nil,or_false] at hc
      rcases hc with rfl | rfl | rfl | rfl | rfl
      · cases hp
      · cases hp
      · cases hp
      · cases hp
        exact .inl rfl
      · cases hp
        exact .inr rfl
    cases hrow with
    | inl hrow => exact ⟨_,hrow,.inl rfl⟩
    | inr hrow => exact ⟨_,hrow,.inl rfl⟩
  rows v hv := by simp [office] at hv
  owners := by
    intro c hc o ho
    refine ⟨⟨2,2,none,none,false,.triage⟩,?_,rfl⟩
    simp only [office,List.mem_cons,List.not_mem_nil,or_false] at hc
    rcases hc with rfl | rfl | rfl | rfl | rfl
    · cases ho
    · cases ho
    · cases ho
    · cases ho
    · cases ho
      rfl
  roots := by decide
  flows f hf := by simp [office] at hf

theorem staff_linked : Linked office staff := by
  intro l hl
  rw [List.mem_singleton.mp hl]
  exact ⟨_,rfl,rfl⟩

/-- A private view is added and its owner merged away: both views are the survivor's. -/
theorem stays_private_after_merge : ∃ s, Run step Tame desk [ownView,samePerson] s∧
    (s.db.card 6).bind (·.privateTo)=some 3∧Private s.db := by
  have hrun : ∃ s, Run step Tame desk [ownView,samePerson] s∧
      (s.db.card 6).bind (·.privateTo)=some 3 := by
    refine ⟨_,.cons ?_ rfl (.cons trivial rfl (.nil _)),rfl⟩
    refine ⟨?_,?_⟩
    · intro hparent
      cases hparent
    · intro f hf
      cases hf
  obtain ⟨s,hrun,howner⟩ := hrun
  exact ⟨s,hrun,howner,(stays_private office_sound staff_linked hrun).1⟩

/-- The shared screen's default is a view private to the first person. -/
theorem padded_id_leaks : Sound desk.db∧Linked desk.db desk.dir∧
    ∃ s, Run step (fun _ _ => True) desk [padded] s∧¬Private s.db := by
  have hend : (step desk padded).map (fun s => (s.db.values,s.db.attributeDef 2,
      (s.db.card 5).bind (·.privateTo),(s.db.card 6).map (·.privateTo)))=
        some ([⟨6,1,.str "Board"⟩,⟨6,2,.ofInt 5⟩],some ⟨2,"default_filter",.cardRef,some 4,none⟩,
          some 2,some none) := rfl
  obtain ⟨s,hs,hend⟩ := Option.map_eq_some_iff.mp hend
  refine ⟨office_sound,staff_linked,s,.single trivial hs,?_⟩
  intro hprivate
  simp only [Prod.mk.injEq] at hend
  obtain ⟨hvalues,hdef,hview,hscreen⟩ := hend
  have hnamed : (5 : Int)∈named s.db ⟨6,2,.ofInt 5⟩ := (mem_named hdef).mpr ⟨by decide,by decide⟩
  have howned := hprivate.names ⟨6,2,.ofInt 5⟩ (by simp [hvalues]) 5 hnamed 2 hview
  obtain ⟨r,hr,hshared⟩ := Option.map_eq_some_iff.mp hscreen
  rw [hr,Option.bind_some,hshared] at howned
  cases howned

end Examples

end Kitp.PrivateCards
