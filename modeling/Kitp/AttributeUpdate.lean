import Kitp.Attributes
import Kitp.FlowGate
import Kitp.Lib.Steps

/-! `attribute_update_batch`: one row, from its checks to the value it stores. -/
namespace Kitp.AttributeUpdate
open Kitp.Store Kitp.Accounts Kitp.Attributes Kitp.FlowGate Kitp.Steps

/-- One element of `inputs`. -/
structure Input where
  cardId : Option Int
  attributeName : Option String
  value : Option Json

def required (input : Input) : Except Refusal (Int×String) :=
  match input.cardId.filter (·≠0),input.attributeName.filter (·≠"") with
  | none,_ => .error ⟨"validation","attribute.update: card_id is required"⟩
  | some _,none => .error ⟨"validation","attribute.update: attribute_name is required"⟩
  | some c,some a => .ok (c,a)

variable (acc : Access) (dir : Directory) (pick : List FlowStep → Option FlowStep) (db : Db)
  (actor cardId : Int)

/-- The values and cards a generic write doesn't reach. -/
def reachable (attrName : String) (value : Option Json) : Except Refusal Unit :=
  let text := (value.bind Json.unquoted).getD ""
  if attrName="publishes_to"∧!acc.userIsGlobalAdmin db actor then
    .error ⟨"forbidden","attribute.update: only a workspace admin can choose which portals a status publishes to"⟩
  else if attrName="description"∧524288<text.utf8ByteSize∧
      (db.card cardId).bind db.cardTypeName=some "page" then
    .error ⟨"validation","attribute.update: a page's text can be at most 512 KB"⟩
  else if attrName="title"∧value.any (fun v => v=.str text)∧500<text.length then
    .error ⟨"validation","attribute.update: a title can be at most 500 characters"⟩
  else if cardIsAdminOnly db cardId∧!acc.userIsGlobalAdmin db actor then
    .error ⟨"forbidden","attribute.update: only a workspace admin changes a mail account or an activity sink"⟩
  else if attrName∈setByKitp then
    .error ⟨"validation","attribute.update: "++attrName++" is set by kitp, not by hand"⟩
  else if attrName="email"∧actor≠1∧acc.hasLogin db cardId then
    .error ⟨"validation","attribute.update: a user's email is theirs to choose among the addresses they verified (Account → Email addresses)"⟩
  else .ok ()

/-- The card, deleted or not, and the attribute's edge on its type. -/
def boundEdge (attrName : String) : Except Refusal (AttributeDef×Edge) :=
  match db.card cardId with
  | none => .error ⟨"card_not_found",s!"attribute.update: card {cardId} not found"⟩
  | some c =>
    match (db.attributeNamed attrName).bind fun d => (db.edge c.cardTypeId d.id).map (d,·) with
    | none => .error ⟨"edge_violation","attribute.update: attribute "++quoteLiteral attrName++
        " is not allowed on this card type"⟩
    | some bound => .ok bound

def typeName : ValueType → String
  | .text => "text"
  | .number => "number"
  | .bool => "bool"
  | .date => "date"
  | .cardRef => "card_ref"
  | .cardRefs => "card_ref[]"

/-- The form a value is stored in, and the cards it names. -/
def normalise (attr : AttributeDef) (isRequired : Bool) (value : Option Json) :
    Except Refusal (Json×List Int) :=
  let refused (text : String) : Except Refusal (Json×List Int) :=
    .error ⟨"validation","attribute.update: "++attr.name++": "++text⟩
  match value.filter (·≠.null) with
  | none =>
    if isRequired then
      .error ⟨"edge_violation","attribute.update: attribute "++quoteLiteral attr.name++
        " is required and cannot be removed"⟩
    else .ok (.null,[])
  | some v =>
    match attr.valueType with
    | .cardRef => (refValue "attribute.update" attr.name v).map fun id => (canonRef v,[id])
    | .cardRefs => (refValues "attribute.update" attr.name v).map fun ids =>
        (match v with
          | .arr xs => .arr (xs.map canonRef)
          | v => v,ids)
    | .number =>
      match attrScalarNorm .number v with
      | some norm => .ok (norm,[])
      | none => refused ("not a whole number: "++String.ofList (v.text.toList.take 200))
    | .date =>
      match v with
      | .str s => if isoDateOk s then .ok (v,[]) else refused ("not a date (YYYY-MM-DD): "++v.text)
      | v => refused ("not a date (YYYY-MM-DD): "++v.text)
    | t =>
      match attrScalarNorm t v with
      | some norm => .ok (norm,[])
      | none => refused ("not a "++typeName t++" value: "++String.ofList (v.text.toList.take 200))

/-- One card of the value, 0 apart: there, not another person's private card, and in scope. -/
def refCheck (attr : AttributeDef) (id : Int) : Except Refusal Unit :=
  if id=0 then .ok ()
  else match db.card id with
    | none => .error (notHere attr.name id)
    | some c =>
      if c.privateTo≠none∧c.privateTo≠(db.card cardId).bind (·.privateTo) then
        .error ⟨"private_ref","attribute "++quoteLiteral attr.name++
          s!": card {id} is private and can only be used on its owner's own cards"⟩
      else scopeCheck acc db actor attr (cardEnclosingProject db cardId) id c

/-- The stored value holds the card: `pav.value @> to_jsonb(x)`. -/
def holdsRef (stored : Option Json) (id : Int) : Bool :=
  stored.any fun v => namesCard .cardRef v id||namesCard .cardRefs v id

/-- Newly chosen cards pass the attribute's target filter. -/
def filterCheck (attr : AttributeDef) (ids : List Int) : Except Refusal Unit :=
  match attr.targetFilter with
  | none => .ok ()
  | some tree =>
    let chosen := ids.filter fun id => id≠0∧!holdsRef (db.value cardId attr.id) id
    let passing := acc.cardFilterIds db tree chosen
    match chosen.find? (·∉passing) with
    | none => .ok ()
    | some id => .error ⟨"ref_not_allowed","attribute "++quoteLiteral attr.name++
        s!": card {id} can't be chosen as a value"⟩

/-- `'^[a-z][a-z0-9-]*$'`. -/
def slugOk (s : String) : Bool :=
  match s.toList with
  | [] => false
  | c::cs => c.isLower&&cs.all fun c => c.isLower||c.isDigit||c = '-'

/-- Another live screen of the project with this slug or hotkey. -/
def screenWith (attr : AttributeDef) (parent : Int) (candidate : String) : Option Card :=
  (db.cards.filter fun c => c.parentCardId=some parent∧c.id≠cardId∧!c.deleted).find? fun c =>
    db.value c.id attr.id=some (.str candidate)

/-- A screen's slug and hotkey are its own in its project. -/
def screenCheck (attr : AttributeDef) (norm : Json) : Except Refusal Unit :=
  if (attr.name="slug"∨attr.name="hotkey")∧norm≠.null then
    match norm with
    | .str candidate =>
      match (db.card cardId).filter fun c => !c.deleted∧db.cardTypeName c=some "screen" with
      | none => .ok ()
      | some c =>
        match c.parentCardId with
        | none => .ok ()
        | some parent =>
          if attr.name="slug"∧!slugOk candidate then
            .error ⟨"slug_invalid","attribute.update: slug "++quoteLiteral candidate++
              " must match ^[a-z][a-z0-9-]*$"⟩
          else if attr.name="hotkey"∧trimBlanks candidate="" then .ok ()
          else match screenWith db cardId attr parent candidate with
            | none => .ok ()
            | some other =>
              let shown := ((db.attributeNamed "title").bind fun d => db.value other.id d.id).bind
                Json.unquoted
              .error ⟨attr.name++"_in_use","attribute.update: "++attr.name++" "++
                quoteLiteral candidate++" is already used by screen "++
                quoteLiteral (shown.getD (toString other.id))++" in this project"⟩
    | _ => .error ⟨"validation","attribute.update: "++quoteLiteral attr.name++" must be a string"⟩
  else .ok ()

/-- What a row that passed its checks writes. -/
structure Checked where
  cardId : Int
  attr : AttributeDef
  norm : Json

/-- The checks before the flow gate. -/
def prepare (input : Input) : Except Refusal Checked := do
  let (cardId,attrName) ← required input
  reachable acc db actor cardId attrName input.value
  let (attr,edge) ← boundEdge db cardId attrName
  let (norm,ids) ← normalise attr edge.isRequired input.value
  ids.forM (refCheck acc db actor cardId attr)
  filterCheck acc db cardId attr ids
  screenCheck db cardId attr norm
  return ⟨cardId,attr,norm⟩

/-- One row: its checks, the gate, then the activity and the value. -/
def update (input : Input) : Except FlowRefusal Db := do
  let w ← (prepare acc db actor input).mapError (⟨·,none⟩)
  flowGate db dir pick actor w.cardId w.attr w.norm
  return writeValue db actor w.cardId w.attr.id (db.value w.cardId w.attr.id) w.norm

/-- What a `card_ref` is stored as: the number it names, or null when it is taken away. -/
theorem normalise_cardRef {attr : AttributeDef} {isRequired : Bool} {value : Option Json}
    {norm : Json} {ids : List Int} (ht : attr.valueType=.cardRef)
    (h : normalise attr isRequired value=.ok (norm,ids)) :
    value.filter (·≠.null)=none∧norm=.null∨∃ v id, value=some v∧
      refValue "attribute.update" attr.name v=.ok id∧norm=canonRef v∧ids=[id] := by
  cases hv : value.filter (·≠.null) with
  | none =>
    simp only [normalise,hv] at h
    split at h
    · cases h
    · cases h
      exact .inl ⟨rfl,rfl⟩
  | some v =>
    simp only [normalise,hv,ht] at h
    cases hr : refValue "attribute.update" attr.name v with
    | error e =>
      rw [hr] at h
      cases h
    | ok id =>
      rw [hr] at h
      cases h
      exact .inr ⟨v,id,(Option.filter_eq_some_iff.mp hv).1,hr,rfl,rfl⟩

theorem canonRef_num {process attrName : String} {v : Json} {id : Int}
    (h : refValue process attrName v=.ok id) : ∃ n, canonRef v=.num n∧n.whole=some id := by
  cases v with
  | num n =>
    simp only [refValue,castBigint] at h
    split at h
    · rename_i i hi
      cases h
      exact ⟨n,rfl,hi⟩
    · cases h
  | str s =>
    simp only [refValue] at h
    split at h
    · rename_i i hi
      cases h
      exact ⟨.ofInt id,by simp [canonRef,hi,Json.ofInt],Json.Number.whole_ofInt id⟩
    · cases h
  | null => cases h
  | bool b => cases h
  | arr xs => cases h
  | obj fs => cases h

theorem refId_canonRef (v : Json) : refId (canonRef v)=refId v := by
  cases v with
  | str s =>
    cases h : idText s with
    | none => simp [canonRef,h]
    | some i => simp [canonRef,refId,h,Json.ofInt,Json.Number.whole_ofInt]
  | null => rfl
  | bool b => rfl
  | num n => rfl
  | arr xs => rfl
  | obj fs => rfl

theorem refValue_ok {process attrName : String} {v : Json} {id : Int}
    (h : refValue process attrName v=.ok id) : refId v=some id := by
  obtain ⟨n,hn,hid⟩ := canonRef_num h
  rw [← refId_canonRef,hn]
  exact hid

variable {acc : Access} {dir : Directory} {pick : List FlowStep → Option FlowStep} {db : Db}
  {actor : Int} {input : Input}

/-- A bound edge: the attribute is the one of that name, and the edge is on the card's type. -/
theorem boundEdge_spec {cardId : Int} {attrName : String} {attr : AttributeDef} {edge : Edge}
    (h : boundEdge db cardId attrName=.ok (attr,edge)) :
    db.attributeNamed attrName=some attr∧
      ∃ c, db.card cardId=some c∧db.edge c.cardTypeId attr.id=some edge := by
  unfold boundEdge at h
  split at h
  · cases h
  · rename_i c hc
    split at h
    · cases h
    · rename_i bound hbound
      cases h
      obtain ⟨d,hd,hmap⟩ := Option.bind_eq_some_iff.mp hbound
      obtain ⟨e,he,hde⟩ := Option.map_eq_some_iff.mp hmap
      cases hde
      exact ⟨hd,c,hc,he⟩

theorem boundEdge_ok {cardId : Int} {attrName : String} {attr : AttributeDef} {edge : Edge}
    (h : boundEdge db cardId attrName=.ok (attr,edge)) :
    ∃ c, db.card cardId=some c∧db.edge c.cardTypeId attr.id=some edge := (boundEdge_spec h).2

theorem boundEdge_mem {cardId : Int} {attrName : String} {attr : AttributeDef} {edge : Edge}
    (h : boundEdge db cardId attrName=.ok (attr,edge)) : attr∈db.attributeDefs :=
  List.mem_of_find?_eq_some (boundEdge_spec h).1

theorem attributeNamed_name {attrName : String} {attr : AttributeDef}
    (h : db.attributeNamed attrName=some attr) : attr.name=attrName := by
  simpa using List.find?_some h

/-- What the checks before the gate have established. -/
theorem prepare_ok {w : Checked} (h : prepare acc db actor input=.ok w) :
    ∃ edge ids, required input=.ok (w.cardId,w.attr.name)∧
      boundEdge db w.cardId w.attr.name=.ok (w.attr,edge)∧
      normalise w.attr edge.isRequired input.value=.ok (w.norm,ids)∧
      ids.forM (refCheck acc db actor w.cardId w.attr)=.ok ()∧
      screenCheck db w.cardId w.attr w.norm=.ok () := by
  unfold prepare at h
  obtain ⟨⟨cardId,attrName⟩,hrequired,h⟩ := bind_ok h
  obtain ⟨_,_,h⟩ := bind_ok h
  obtain ⟨⟨attr,edge⟩,hbound,h⟩ := bind_ok h
  obtain ⟨⟨norm,ids⟩,hnorm,h⟩ := bind_ok h
  obtain ⟨_,hrefs,h⟩ := bind_ok h
  obtain ⟨_,_,h⟩ := bind_ok h
  obtain ⟨_,hscreen,h⟩ := bind_ok h
  cases h
  have hname : attr.name=attrName := attributeNamed_name (boundEdge_spec hbound).1
  subst hname
  exact ⟨edge,ids,hrequired,hbound,hnorm,hrefs,hscreen⟩

/-- The attribute a row writes has an edge on the card's type. -/
theorem prepare_edge {w : Checked} (h : prepare acc db actor input=.ok w) :
    ∃ c, db.card w.cardId=some c∧(db.edge c.cardTypeId w.attr.id).isSome := by
  obtain ⟨edge,ids,-,hbound,-⟩ := prepare_ok h
  obtain ⟨c,hc,he⟩ := boundEdge_ok hbound
  exact ⟨c,hc,by simp [he]⟩

/-- The attribute is the one of its name, and a screen's name was free. -/
theorem prepare_screen {w : Checked} (h : prepare acc db actor input=.ok w) :
    (∃ c, db.card w.cardId=some c)∧db.attributeNamed w.attr.name=some w.attr∧
      screenCheck db w.cardId w.attr w.norm=.ok () := by
  obtain ⟨edge,ids,-,hbound,-,-,hscreen⟩ := prepare_ok h
  obtain ⟨c,hc,-⟩ := boundEdge_ok hbound
  exact ⟨⟨c,hc⟩,(boundEdge_spec hbound).1,hscreen⟩

theorem refCheck_ok {cardId id : Int} {attr : AttributeDef}
    (h : refCheck acc db actor cardId attr id=.ok ()) (h0 : id≠0) : (db.card id).isSome := by
  simp only [refCheck,h0,if_false] at h
  split at h
  · cases h
  · rename_i r hr
    simp [hr]

theorem update_ok {db' : Db} (h : update acc dir pick db actor input=.ok db') :
    ∃ w, prepare acc db actor input=.ok w∧
      db'=writeValue db actor w.cardId w.attr.id (db.value w.cardId w.attr.id) w.norm := by
  unfold update at h
  obtain ⟨w,hw,h⟩ := bind_ok h
  obtain ⟨_,_,h⟩ := bind_ok h
  cases h
  cases hp : prepare acc db actor input with
  | error e =>
    rw [hp] at hw
    cases hw
  | ok v =>
    rw [hp] at hw
    cases hw
    exact ⟨w,rfl,rfl⟩

end Kitp.AttributeUpdate
