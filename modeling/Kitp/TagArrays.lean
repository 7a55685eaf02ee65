import Kitp.AttributeUpdate
import Kitp.CardMove
import Kitp.CardRefs
import Kitp.Lib.Runs
import Kitp.Tags

/-! `tag.apply`, `tag.remove` and `attribute.update` of `tags` over the stored values: what
one application leaves, and which tags stand together after a run. -/
namespace Kitp.TagArrays
open Kitp.Store Kitp.Tags Kitp.Steps Kitp.Runs Kitp.Attributes

/-- `(e.v)::text::bigint`. -/
def elementId : Json → Except Refusal Int
  | .num n => castBigint n
  | v => .error ⟨"22P02","invalid input syntax for type bigint: "++Json.quoted v.text⟩

/-- The ids of the stored array; an absent row is the empty one. -/
def elements : Option Json → Except Refusal (List Int)
  | none => .ok []
  | some (.arr xs) => xs.mapM elementId
  | some (.obj _) => .error ⟨"22023","cannot extract elements from an object"⟩
  | some _ => .error ⟨"22023","cannot extract elements from a scalar"⟩

def tagsValue (db : Db) (target : Int) : Option Json :=
  (db.attributeNamed "tags").bind fun d => db.value target d.id

/-- The seeded rows an operation asks for by name. -/
def seeded (db : Db) (process : String) (names : List String) : Except Refusal Unit :=
  names.forM fun name =>
    match db.attributeNamed name with
    | some _ => .ok ()
    | none => .error ⟨"P0001",process++": '"++name++"' attribute_def missing"⟩

/-- The activity and the upsert. -/
def writeTags (db : Db) (actor target : Int) (kind : String) (old new : List Int) : Db :=
  let attr := (db.attributeNamed "tags").map (·.id)
  (db.log ⟨target,kind,attr,some (.arr (old.map .ofInt)),some (.arr (new.map .ofInt)),actor⟩).setValue
    target (attr.getD 0) (.arr (new.map .ofInt))

/-- One row of `tag_apply_batch`. -/
def apply (db : Db) (actor target : Int) (tag : Option Int) : Except Refusal Db := do
  seeded db "tag.apply" ["tags","path","root_exclusive_at"]
  if !db.cardTypes.any (·.name="tag") then
    .error ⟨"P0001","tag.apply: 'tag' card_type missing"⟩
  else
    checkApply db target tag
    let old ← elements (tagsValue db target)
    return writeTags db actor target "tag_apply" old (applyTag db (tag.getD 0) old)

/-- One row of `tag_remove_batch`. -/
def remove (db : Db) (actor target : Int) (tag : Option Int) : Except Refusal Db := do
  seeded db "tag.remove" ["tags"]
  checkRemove db target tag
  let old ← elements (tagsValue db target)
  return writeTags db actor target "tag_remove" old (removeTag (tag.getD 0) old)

inductive Op where
  | apply (actor target : Int) (tag : Option Int)
  | remove (actor target : Int) (tag : Option Int)
  | update (acc : Access) (dir : Accounts.Directory) (pick : List FlowStep → Option FlowStep)
      (actor : Int) (cardId : Option Int) (value : Option Json)

def step (db : Db) : Op → Option Db
  | .apply actor target tag => (apply db actor target tag).toOption
  | .remove actor target tag => (remove db actor target tag).toOption
  | .update acc dir pick actor cardId value =>
    (AttributeUpdate.update acc dir pick db actor ⟨cardId,some "tags",value⟩).toOption

def pathRoot (db : Db) (id : Int) : String :=
  String.ofList ((textOf db id "path").toList.takeWhile (· ≠ '/'))

def rootExclusiveAt (db : Db) (id : Int) : String := textOf db id "root_exclusive_at"

/-- The tags of a card; a null value has none. -/
def held (db : Db) (target : Int) : List Int := (elements (tagsValue db target)).toOption.getD []

/-- The applied tag makes the other one go. -/
def Excludes (db : Db) (tag id : Int) : Prop :=
  rootExclusiveAt db tag≠""∧pathRoot db id=rootExclusiveAt db tag

instance (db : Db) (tag id : Int) : Decidable (Excludes db tag id) :=
  inferInstanceAs (Decidable (_∧_))

/-- An application goes through and leaves the other tags but those it excludes, and the
applied one once. -/
def Applies (db : Db) (actor target tag : Int) : Prop :=
  ∃ db', apply db actor target (some tag)=.ok db'∧∃ new, elements (tagsValue db' target)=.ok new∧
    new.count tag=1∧
    new.filter (·≠tag)=(held db target).filter fun id => id≠tag∧¬Excludes db tag id

/-- Of two tags with one path root neither is exclusive at it. -/
def Exclusive (db : Db) : Prop :=
  ∀ target, ∀ a∈held db target, ∀ b∈held db target, a≠b →
    ¬(pathRoot db a=rootExclusiveAt db a∧Excludes db a b)

/-- No other tag of the card is exclusive at the root of the applied one, unless that is so
as well. -/
def Beside (db : Db) (target tag : Int) : Prop :=
  ∀ b∈held db target, b≠tag → pathRoot db b=rootExclusiveAt db b → Excludes db b tag →
    rootExclusiveAt db tag=rootExclusiveAt db b

/-- Applications and removals alone. -/
def Fits (db : Db) : Op → Prop
  | .apply _ target tag => Beside db target (tag.getD 0)
  | .remove _ _ _ => True
  | .update .. => False

/-- The values the operations leave: none, null, or an array of numbers. -/
def Shaped (v : Option Json) : Prop := v=none∨v=some .null∨∃ ids, elements v=.ok ids

/-- The seeded attributes. -/
structure Ready (db : Db) : Prop where
  keyed : ∀ d∈db.attributeDefs, db.attributeDef d.id=some d
  named : ∀ name∈["tags","path","root_exclusive_at"], (db.attributeNamed name).isSome
  refs : ∀ d, db.attributeNamed "tags"=some d → d.valueType=.cardRefs
  shaped : ∀ target, Shaped (tagsValue db target)

variable {db db' : Db} {actor target tag x : Int} {ids old : List Int} {d : AttributeDef}
  {a : Activity} {v : Json}

theorem elements_ofInts (ids : List Int) : elements (some (.arr (ids.map .ofInt)))=.ok ids := by
  change (ids.map Json.ofInt).mapM elementId=.ok ids
  induction ids with
  | nil => rfl
  | cons id ids ih =>
    have hid : elementId (Json.ofInt id)=.ok id := by
      simp [elementId,Json.ofInt,castBigint]
    rw [List.map_cons,List.mapM_cons,hid]
    change (do let rest ← (ids.map Json.ofInt).mapM elementId; Except.ok (id::rest))=_
    rw [ih]
    rfl

theorem held_of (h : elements (tagsValue db target)=.ok ids) : held db target=ids := by
  simp [held,h,Except.toOption]

theorem seeded_ok {process : String} {names : List String}
    (h : ∀ name∈names, (db.attributeNamed name).isSome) : seeded db process names=.ok () := by
  induction names with
  | nil => rfl
  | cons name names ih =>
    obtain ⟨d,hd⟩ := Option.isSome_iff_exists.mp (h name List.mem_cons_self)
    have hrest := ih fun n hn => h n (List.mem_cons_of_mem _ hn)
    have hcons : seeded db process (name::names)=
        ((match db.attributeNamed name with
          | some _ => .ok ()
          | none => .error ⟨"P0001",process++": '"++name++"' attribute_def missing"⟩ :
            Except Refusal Unit) >>= fun _ => seeded db process names) := List.forM_cons
    rw [hcons,hd]
    exact hrest

/-- The array with the tag in it. -/
def withTag (tag : Int) (old : List Int) : List Int := if tag∈old then old else old++[tag]

theorem applyTag_eq (old : List Int) :
    applyTag db tag old=(withTag tag old).filter fun id => id=tag∨¬Excludes db tag id := by
  by_cases hroot : rootExclusiveAt db tag=""
  · have hnone (id : Int) : ¬Excludes db tag id := fun h => h.1 hroot
    have hall : (withTag tag old).filter (fun id => decide (id=tag∨¬Excludes db tag id))=
        withTag tag old := List.filter_eq_self.mpr fun id _ => by simp [hnone id]
    rw [hall]
    exact if_pos hroot
  · have hkept : applyTag db tag old=(withTag tag old).filter fun id =>
        id=tag∨pathRoot db id≠rootExclusiveAt db tag := if_neg hroot
    rw [hkept]
    apply List.filter_congr
    intro id _
    simp [Excludes,hroot]

theorem applyTag_count (old : List Int) :
    (applyTag db tag old).count tag=max 1 (old.count tag) := by
  rw [applyTag_eq,List.count_filter (by simp)]
  by_cases hmem : tag∈old
  · have hpos : 0<old.count tag := List.count_pos_iff.mpr hmem
    simp only [withTag,hmem,if_true]
    omega
  · have hzero : old.count tag=0 := List.count_eq_zero.mpr hmem
    simp [withTag,hmem,hzero]

/-- The others are kept but those the applied tag excludes. -/
theorem applyTag_others (old : List Int) : (applyTag db tag old).filter (·≠tag)=
    old.filter fun id => id≠tag∧¬Excludes db tag id := by
  have hothers : (withTag tag old).filter (·≠tag)=old.filter (·≠tag) := by
    by_cases hmem : tag∈old <;> simp [withTag,hmem]
  calc (applyTag db tag old).filter (·≠tag)
      =((withTag tag old).filter (·≠tag)).filter fun id => ¬Excludes db tag id := by
        rw [applyTag_eq,List.filter_filter,List.filter_filter]
        apply List.filter_congr
        intro id _
        by_cases hid : id=tag <;> simp [hid]
    _=(old.filter (·≠tag)).filter fun id => ¬Excludes db tag id := by rw [hothers]
    _=old.filter fun id => id≠tag∧¬Excludes db tag id := by
        rw [List.filter_filter]
        apply List.filter_congr
        intro id _
        by_cases hid : id=tag <;> simp [hid]

theorem mem_applyTag (h : x∈applyTag db tag old) : x=tag∨x∈old∧¬Excludes db tag x := by
  by_cases hx : x=tag
  · exact .inl hx
  · have hmem : x∈(applyTag db tag old).filter (·≠tag) := by simp [h,hx]
    rw [applyTag_others] at hmem
    have hkept := List.mem_filter.mp hmem
    exact .inr ⟨hkept.1,by simpa [hx] using hkept.2⟩

/-- What one operation writes: a shaped value for the tags of one card. -/
structure Writes (db : Db) (target : Int) (v : Json) (db' : Db) : Prop where
  shaped : Shaped (some v)
  same : SameCards db db'
  value : ∀ c d, db'.value c d=
    if c=target∧some d=(db.attributeNamed "tags").map (·.id) then some v else db.value c d

theorem writeTags_writes (h : Ready db) (kind : String) (old new : List Int) :
    Writes db target (.arr (new.map .ofInt)) (writeTags db actor target kind old new) := by
  obtain ⟨d,hd⟩ := Option.isSome_iff_exists.mp (h.named "tags" (by simp))
  refine ⟨.inr (.inr ⟨new,elements_ofInts new⟩),⟨rfl,rfl,rfl,rfl,rfl⟩,?_⟩
  intro c e
  by_cases hce : c=target∧e=d.id
  · obtain ⟨rfl,rfl⟩ := hce
    simp [writeTags,hd]
  · have hother : ¬(c=target∧some e=some d.id) := by simpa using hce
    simp only [writeTags,hd,Option.map_some,Option.getD_some]
    rw [setValue_ne hce]
    simp only [Db.log,Db.value,if_neg hother]

theorem Writes.tagsValue (k : Writes db target v db') (h : Ready db) (x : Int) :
    TagArrays.tagsValue db' x=if x=target then some v else TagArrays.tagsValue db x := by
  obtain ⟨d,hd⟩ := Option.isSome_iff_exists.mp (h.named "tags" (by simp))
  have hvalue := k.value x d.id
  by_cases hx : x=target <;>
    simpa [TagArrays.tagsValue,k.same.attributeNamed,hd,hx] using hvalue

/-- The tags' own texts stay. -/
theorem Writes.textOf (k : Writes db target v db') (h : Ready db) {name : String}
    (hname : name≠"tags") (x : Int) : Tags.textOf db' x name=Tags.textOf db x name := by
  simp only [Tags.textOf,k.same.attributeNamed]
  cases hd : db.attributeNamed name with
  | none => rfl
  | some d =>
    have hother : some d.id≠(db.attributeNamed "tags").map (·.id) := by
      intro hid
      obtain ⟨e,he,hde⟩ := Option.map_eq_some_iff.mp hid.symm
      have hkeyd := h.keyed d (List.mem_of_find?_eq_some hd)
      have hkeye := h.keyed e (List.mem_of_find?_eq_some he)
      rw [hde,hkeyd] at hkeye
      have hsame : d=e := Option.some.inj hkeye
      have hnamed : d.name=name := by simpa using List.find?_some hd
      have htags : e.name="tags" := by simpa using List.find?_some he
      exact hname (hnamed.symm.trans (hsame ▸ htags))
    have hvalue := k.value x d.id
    rw [if_neg fun hx => hother hx.2] at hvalue
    simp [hvalue]

theorem Writes.ready (k : Writes db target v db') (h : Ready db) : Ready db' where
  keyed := by
    have hdef : db'.attributeDef=db.attributeDef := by
      funext d
      simp only [Db.attributeDef,k.same.attributeDefs]
    simpa only [k.same.attributeDefs,hdef] using h.keyed
  named := by simpa only [k.same.attributeNamed] using h.named
  refs := by simpa only [k.same.attributeNamed] using h.refs
  shaped := by
    intro x
    rw [k.tagsValue h]
    split
    · exact k.shaped
    · exact h.shaped x

theorem Writes.excludes (k : Writes db target v db') (h : Ready db) (x y : Int) :
    Excludes db' x y↔Excludes db x y := by
  simp only [Excludes,rootExclusiveAt,pathRoot,k.textOf h (show "path"≠"tags" by decide),
    k.textOf h (show "root_exclusive_at"≠"tags" by decide)]

theorem apply_ok {t : Option Int} (h : apply db actor target t=.ok db') :
    checkApply db target t=.ok ()∧∃ old, elements (tagsValue db target)=.ok old∧
      db'=writeTags db actor target "tag_apply" old (applyTag db (t.getD 0) old) := by
  unfold apply at h
  obtain ⟨_,_,h⟩ := bind_ok h
  split at h
  · cases h
  · obtain ⟨_,hcheck,h⟩ := bind_ok h
    obtain ⟨old,hold,h⟩ := bind_ok h
    cases h
    exact ⟨hcheck,old,hold,rfl⟩

theorem remove_ok {t : Option Int} (h : remove db actor target t=.ok db') :
    ∃ old, elements (tagsValue db target)=.ok old∧
      db'=writeTags db actor target "tag_remove" old (removeTag (t.getD 0) old) := by
  unfold remove at h
  obtain ⟨_,_,h⟩ := bind_ok h
  obtain ⟨_,_,h⟩ := bind_ok h
  obtain ⟨old,hold,h⟩ := bind_ok h
  cases h
  exact ⟨old,hold,rfl⟩

theorem elements_canon {process attrName : String} {xs : List Json}
    (h : xs.mapM (refValue process attrName)=.ok ids) :
    elements (some (.arr (xs.map canonRef)))=.ok ids := by
  change (xs.map canonRef).mapM elementId=.ok ids
  induction xs generalizing ids with
  | nil => exact h
  | cons y xs ih =>
    rw [List.mapM_cons] at h
    obtain ⟨id,hid,h⟩ := bind_ok h
    obtain ⟨rest,hrest,h⟩ := bind_ok h
    cases h
    obtain ⟨n,hn,hwhole⟩ := AttributeUpdate.canonRef_num hid
    have hfirst : elementId (canonRef y)=.ok id := by simp [hn,elementId,castBigint,hwhole]
    rw [List.map_cons,List.mapM_cons,hfirst]
    change (do let rest ← (xs.map canonRef).mapM elementId; Except.ok (id::rest))=_
    rw [ih hrest]
    rfl

/-- A value of `tags` is stored as null or as an array of numbers. -/
theorem normalise_shaped {attr : AttributeDef} {isRequired : Bool} {value : Option Json}
    (ht : attr.valueType=.cardRefs)
    (h : AttributeUpdate.normalise attr isRequired value=.ok (v,ids)) : Shaped (some v) := by
  cases hv : value.filter (·≠.null) with
  | none =>
    simp only [AttributeUpdate.normalise,hv] at h
    split at h
    · cases h
    · cases h
      exact .inr (.inl rfl)
  | some j =>
    simp only [AttributeUpdate.normalise,hv,ht] at h
    cases hr : refValues "attribute.update" attr.name j with
    | error e =>
      rw [hr] at h
      cases h
    | ok named =>
      rw [hr] at h
      cases h
      obtain ⟨xs,rfl,-⟩ := CardRefs.refValues_ok hr
      exact .inr (.inr ⟨_,elements_canon hr⟩)

theorem update_writes {acc : Access} {dir : Accounts.Directory}
    {pick : List FlowStep → Option FlowStep} {cardId : Option Int} {value : Option Json}
    (h : Ready db)
    (hu : AttributeUpdate.update acc dir pick db actor ⟨cardId,some "tags",value⟩=.ok db') :
    ∃ target v, Writes db target v db' := by
  obtain ⟨w,hw,rfl⟩ := AttributeUpdate.update_ok hu
  obtain ⟨edge,named,hrequired,hbound,hnorm,-⟩ := AttributeUpdate.prepare_ok hw
  have hname : w.attr.name="tags" := by
    simp only [AttributeUpdate.required] at hrequired
    split at hrequired
    · cases hrequired
    · cases hrequired
    · rename_i hattr
      cases hrequired
      exact (Option.filter_eq_some_iff.mp hattr).1 |> Option.some.inj |> Eq.symm
  have hattr : db.attributeNamed "tags"=some w.attr := hname ▸ (AttributeUpdate.boundEdge_spec hbound).1
  refine ⟨w.cardId,w.norm,normalise_shaped (h.refs w.attr hattr) hnorm,
    writeValue_keeps db actor _ _ _ _,?_⟩
  intro c d
  simp only [writeValue_value,hattr,Option.map_some,Option.some.injEq]

/-- The row an accepted operation writes. -/
theorem step_writes {op : Op} (h : Ready db) (hs : step db op=some db') :
    ∃ target v, Writes db target v db' := by
  cases op with
  | apply actor target t =>
    obtain ⟨-,old,-,rfl⟩ := apply_ok (ok_of_toOption hs)
    exact ⟨target,_,writeTags_writes h "tag_apply" old _⟩
  | remove actor target t =>
    obtain ⟨old,-,rfl⟩ := remove_ok (ok_of_toOption hs)
    exact ⟨target,_,writeTags_writes h "tag_remove" old _⟩
  | update acc dir pick actor cardId value => exact update_writes h (ok_of_toOption hs)

theorem step_ready (db : Db) (op : Op) (db' : Db) (h : Ready db) (hs : step db op=some db') :
    Ready db' := by
  obtain ⟨target,v,k⟩ := step_writes h hs
  exact k.ready h

/-- One application: what it leaves, and when it does. -/
theorem applies_iff (h : Ready db) (hc : checkApply db target (some tag)=.ok ()) :
    Applies db actor target tag↔
      tagsValue db target≠some .null∧(held db target).count tag ≤ 1 := by
  have hnames : seeded db "tag.apply" ["tags","path","root_exclusive_at"]=.ok () :=
    seeded_ok h.named
  have htype : db.cardTypes.any (·.name="tag")=true := by
    simp only [checkApply] at hc
    split at hc
    · cases hc
    · split at hc
      · cases hc
      · split at hc
        · cases hc
        · split at hc
          · cases hc
          · rename_i t ht
            have hname : db.cardTypeName t=some "tag" := by
              have hkind := (Option.filter_eq_some_iff.mp ht).2
              simp only [Bool.decide_and,Bool.and_eq_true,decide_eq_true_eq] at hkind
              exact hkind.1
            obtain ⟨u,hu,hun⟩ := Option.map_eq_some_iff.mp hname
            exact List.any_eq_true.mpr ⟨u,List.mem_of_find?_eq_some hu,by simp [hun]⟩
  have hrun : apply db actor target (some tag)=(elements (tagsValue db target)).map fun old =>
      writeTags db actor target "tag_apply" old (applyTag db tag old) := by
    simp only [apply,hnames,htype,hc,Option.getD_some]
    cases elements (tagsValue db target) <;> rfl
  have hleft (old : List Int) :
      tagsValue (writeTags db actor target "tag_apply" old (applyTag db tag old)) target=
        some (.arr ((applyTag db tag old).map .ofInt)) := by
    rw [(writeTags_writes h "tag_apply" old _).tagsValue h,if_pos rfl]
  constructor
  · intro happlies
    obtain ⟨db',hdb,new,hnew,hcount,-⟩ := happlies
    obtain ⟨-,old,hold,rfl⟩ := apply_ok hdb
    have hwritten := hleft old
    have hsame : new=applyTag db tag old := by
      have := hnew.symm.trans ((congrArg elements hwritten).trans (elements_ofInts _))
      exact Except.ok.inj this
    have hmax : (applyTag db tag old).count tag=max 1 (old.count tag) := applyTag_count old
    rw [hsame] at hcount
    refine ⟨?_,by rw [held_of hold]; omega⟩
    intro hnull
    rw [hnull] at hold
    cases hold
  · intro hcond
    obtain ⟨hnull,hcount⟩ := hcond
    have helements : ∃ old, elements (tagsValue db target)=.ok old := by
      rcases h.shaped target with hnone | hnone | hids
      · exact ⟨[],by rw [hnone]; rfl⟩
      · exact absurd hnone hnull
      · exact hids
    obtain ⟨old,hold⟩ := helements
    rw [hold] at hrun
    have hwritten := hleft old
    refine ⟨_,hrun,applyTag db tag old,by rw [hwritten,elements_ofInts],?_,?_⟩
    · rw [held_of hold] at hcount
      rw [applyTag_count]
      omega
    · rw [held_of hold]
      exact applyTag_others old

/-- An application that fits keeps the tags apart. -/
theorem step_exclusive {op : Op} (h : Ready db) (he : Exclusive db) (hf : Fits db op)
    (hs : step db op=some db') : Exclusive db' := by
  -- the pairs of another card, and those of the card written
  have hpairs {target : Int} {new : List Int} (k : Writes db target (.arr (new.map .ofInt)) db')
      (hnew : ∀ a∈new, ∀ b∈new, a≠b → ¬(pathRoot db a=rootExclusiveAt db a∧Excludes db a b)) :
      Exclusive db' := by
    intro x a ha b hb hab
    have hroots : pathRoot db' a=pathRoot db a∧rootExclusiveAt db' a=rootExclusiveAt db a := by
      simp only [pathRoot,rootExclusiveAt,k.textOf h (show "path"≠"tags" by decide),
        k.textOf h (show "root_exclusive_at"≠"tags" by decide),and_self]
    rw [hroots.1,hroots.2,k.excludes h]
    have hvalue := k.tagsValue h x
    by_cases hx : x=target
    · rw [if_pos hx] at hvalue
      have hheld : held db' x=new := held_of (by rw [hvalue,elements_ofInts])
      exact hnew a (hheld ▸ ha) b (hheld ▸ hb) hab
    · rw [if_neg hx] at hvalue
      have hheld : held db' x=held db x := by simp only [held,hvalue]
      exact he x a (hheld ▸ ha) b (hheld ▸ hb) hab
  cases op with
  | update => exact absurd hf id
  | remove actor target t =>
    obtain ⟨old,hold,rfl⟩ := remove_ok (ok_of_toOption hs)
    apply hpairs (writeTags_writes h "tag_remove" old _)
    intro a ha b hb hab
    have hheld := held_of hold
    exact he target a (hheld ▸ (List.mem_filter.mp ha).1) b (hheld ▸ (List.mem_filter.mp hb).1) hab
  | apply actor target t =>
    obtain ⟨-,old,hold,rfl⟩ := apply_ok (ok_of_toOption hs)
    apply hpairs (writeTags_writes h "tag_apply" old _)
    have hheld := held_of hold
    intro a ha b hb hab hclash
    obtain ⟨hroot,hex⟩ := hclash
    cases mem_applyTag ha with
    | inl hat =>
      cases mem_applyTag hb with
      | inl hbt => exact hab (hat.trans hbt.symm)
      | inr hb => exact hb.2 (hat ▸ hex)
    | inr ha =>
      cases mem_applyTag hb with
      | inl hbt =>
        -- the applied tag stands at the root of the other, which it then excludes
        have hsame := hf a (hheld ▸ ha.1) (fun hat => hab (hat.trans hbt.symm)) hroot (hbt ▸ hex)
        exact ha.2 ⟨hsame ▸ hex.1,hroot.trans hsame.symm⟩
      | inr hb => exact he target a (hheld ▸ ha.1) b (hheld ▸ hb.1) hab ⟨hroot,hex⟩

/-- In every state reached, an application leaves what it says unless the value is null or
holds the tag twice; and applications that fit, with any removals, keep the tags apart. -/
theorem tags_kept {start : Db} (h : Ready start) :
    (∀ ops db, Run step (fun _ _ => True) start ops db → ∀ actor target tag,
      checkApply db target (some tag)=.ok () →
        (Applies db actor target tag↔
          tagsValue db target≠some .null∧(held db target).count tag ≤ 1))∧
    ∀ ops db, Run step Fits start ops db → Exclusive start → Exclusive db := by
  constructor
  · intro ops db hrun actor target tag hc
    have hready : Ready db := hrun.inv Ready (fun s op s' hs _ hstep => step_ready s op s' hs hstep) h
    exact applies_iff hready hc
  · intro ops db hrun he
    exact hrun.inv_of Ready Exclusive (fun s op s' hs _ hstep => step_ready s op s' hs hstep)
      (fun s op s' hs hes hf hstep => step_exclusive hs hes hf hstep) h he

/-- A task, a tag under `area`, and one that is exclusive there. -/
def desk : Db where
  cardTypes := [⟨1,"project",none,false⟩,⟨2,"task",some 1,true⟩,⟨3,"tag",some 1,true⟩]
  attributeDefs := [⟨7,"tags",.cardRefs,some 3,none⟩,⟨8,"path",.text,none,none⟩,
    ⟨9,"root_exclusive_at",.text,none,none⟩]
  cards := [⟨1,1,none,none,false,.triage⟩,⟨2,2,some 1,none,false,.triage⟩,
    ⟨5,3,some 1,none,false,.triage⟩,⟨6,3,some 1,none,false,.triage⟩]
  values := [⟨5,8,.str "area/ui"⟩,⟨6,8,.str "area/db"⟩,⟨6,9,.str "area"⟩]
  edges := [⟨2,7,false,4⟩]

theorem desk_ready : Ready desk where
  keyed := by
    intro d hd
    simp only [desk,List.mem_cons,List.not_mem_nil,or_false] at hd
    obtain rfl | rfl | rfl := hd <;> rfl
  named := by decide
  refs := by
    intro d hd
    cases hd
    rfl
  shaped := by
    intro target
    have hnone : tagsValue desk target=none := by simp [tagsValue,desk,Db.attributeNamed,Db.value]
    exact .inl hnone

theorem desk_exclusive : Exclusive desk := by
  intro target a ha
  have hnone : tagsValue desk target=none := by simp [tagsValue,desk,Db.attributeNamed,Db.value]
  simp [held,hnone,elements,Except.toOption] at ha

/-- The value is set to null. -/
def cleared : Op := .update CardMove.allowed ⟨[],[],[],[]⟩ List.head? 7 (some 2) none

/-- A cleared value takes no tag any more; and of two tags under one root the one that is not
exclusive joins the one that is. -/
theorem cleared_and_joined : Ready desk∧
    (∃ db, Run step (fun _ _ => True) desk [cleared] db∧checkApply db 2 (some 5)=.ok ()∧
      ¬Applies db 7 2 5)∧
    Exclusive desk∧∃ db, Run step (fun _ _ => True) desk [.apply 7 2 (some 6),.apply 7 2 (some 5)] db∧
      ¬Exclusive db := by
  refine ⟨desk_ready,?_,desk_exclusive,?_⟩
  · have hend : ([cleared].foldlM step desk).map (fun db =>
        ((checkApply db 2 (some 5)).toBool,(apply db 7 2 (some 5)).toBool))=some (true,false) := rfl
    obtain ⟨db,hdb,hend⟩ := Option.map_eq_some_iff.mp hend
    simp only [Prod.mk.injEq] at hend
    refine ⟨db,Run.of_foldlM hdb fun _ _ _ => trivial,?_,?_⟩
    · cases hc : checkApply db 2 (some 5) with
      | error e =>
        rw [hc] at hend
        exact absurd hend.1 (by simp [Except.toBool])
      | ok u => rfl
    · intro happlies
      obtain ⟨db',hdb',-⟩ := happlies
      rw [hdb'] at hend
      exact absurd hend.2 (by simp [Except.toBool])
  · have hend : ([Op.apply 7 2 (some 6),.apply 7 2 (some 5)].foldlM step desk).map (fun db =>
        (held db 2,pathRoot db 6,rootExclusiveAt db 6,pathRoot db 5))=
        some ([6,5],"area","area","area") := by decide
    obtain ⟨db,hdb,hend⟩ := Option.map_eq_some_iff.mp hend
    simp only [Prod.mk.injEq] at hend
    obtain ⟨hheld,hroot,hex,hother⟩ := hend
    refine ⟨db,Run.of_foldlM hdb fun _ _ _ => trivial,?_⟩
    intro he
    exact he 2 6 (by simp [hheld]) 5 (by simp [hheld]) (by decide)
      ⟨hroot.trans hex.symm,by simp [hex],hother.trans hex.symm⟩

/-- In the other order the exclusive tag takes the place of the other. -/
theorem exclusive_tag_replaces : ∃ db, Run step Fits desk [.apply 7 2 (some 5),.apply 7 2 (some 6)] db∧
    held db 2=[6]∧Exclusive db := by
  have hend : ([Op.apply 7 2 (some 5),.apply 7 2 (some 6)].foldlM step desk).map (held · 2)=
      some [6] := by decide
  obtain ⟨db,hdb,hheld⟩ := Option.map_eq_some_iff.mp hend
  have hrun : Run step Fits desk [.apply 7 2 (some 5),.apply 7 2 (some 6)] db := by
    obtain ⟨mid,hmid,hrest⟩ := Option.bind_eq_some_iff.mp (List.foldlM_cons.symm.trans hdb)
    obtain ⟨last,hlast,hnil⟩ := Option.bind_eq_some_iff.mp (List.foldlM_cons.symm.trans hrest)
    have hsame : last=db := by simpa using hnil
    have hfirst : (step desk (.apply 7 2 (some 5))).map (fun db =>
        (held db 2,rootExclusiveAt db 5))=some ([5],"") := by decide
    rw [hmid] at hfirst
    simp only [Option.map_some,Option.some.injEq,Prod.mk.injEq] at hfirst
    have hempty : held desk 2=[] := by decide
    refine .cons ?_ hmid (.cons ?_ (hsame ▸ hlast) (.nil db))
    · intro b hb
      simp [hempty] at hb
    · intro b hb _ hroot hex
      have hb5 : b=5 := by simpa [hfirst.1] using hb
      exact absurd (hb5 ▸ hfirst.2) hex.1
  exact ⟨db,hrun,hheld,(tags_kept desk_ready).2 _ db hrun desk_exclusive⟩

end Kitp.TagArrays
