import Kitp.LinkSet
import Kitp.Lib.Runs
import Kitp.Transactions
import Mathlib.Data.List.Nodup

/-! The urls of a task's links, over transactions of `link.set`, `card.delete`,
`card.undelete` and `attribute.update`. Checks that have nothing to do with the urls only ever
refuse a row, so the runs here include the program's. -/
namespace Kitp.LinkSet
open Kitp.Store Kitp.Attributes Kitp.Transactions Kitp.Runs

/-- The task and the url. -/
abbrev Key := Int×String

def isLink (db : Db) (c : Card) : Bool :=
  (db.cardTypes.find? (·.name="link")).any (·.id=c.cardTypeId)

def takesUrl (db : Db) (attr : Int) : Bool := (db.attributeNamed "link_url").any (·.id=attr)

/-- What a live link takes up on its task. -/
def linkKey (db : Db) (c : Card) (attr : Int) (v : Json) : Option Key :=
  if !c.deleted&&isLink db c&&takesUrl db attr then
    match c.parentCardId,v with
    | some task,.str url => some (task,url)
    | _,_ => none
  else none

inductive Event (ι : Type) where
  | set (i : ι) (input : Input)
  /-- `attribute.update` reads its card `FOR SHARE`. -/
  | share (i : ι) (card : Int)
  /-- Its write; the row lock is held. -/
  | update (i : ι) (card : Int) (attrName : String) (norm : Json)
  | delete (i : ι) (card : Int)
  | undelete (i : ι) (card : Int)
  | commit (i : ι)
  | abort (i : ι)

variable {ι : Type} [DecidableEq ι]

/-- One value of a link; the lock on its url is held. -/
def putOne (s : State ι Key) (i : ι) (link : Int) (k : Key) (w : AttributeDef×String) :
    State ι Key :=
  if takesUrl s.db w.1.id then s.claimValue i link w.1.id (.str w.2) (some k)
  else s.putValue i link w.1.id (.str w.2) false

def put (s : State ι Key) (i : ι) (link : Int) (k : Key) (ws : List (AttributeDef×String)) :
    State ι Key := ws.foldl (putOne · i link k) s

def linkRow (d : Defs) (r : Request) (new : Int) : Card :=
  ⟨new,d.link.id,some r.task,none,false,.triage⟩

/-- The id is given and the link is made. -/
def made (s : State ι Key) (i : ι) (d : Defs) (r : Request) : State ι Key :=
  s.drawn.putCard i (linkRow d r s.db.nextCardId) false

/-- `link.set` from its lock on the url. -/
def setLink (s : State ι Key) (i : ι) (d : Defs) (r : Request) : Option (State ι Key) :=
  let held := s.hold i (r.task,r.url)
  match linkOf (s.view i) d r with
  | some link => some (put held i link (r.task,r.url) (changed (s.view i) link (want d r false)))
  | none =>
    if s.mayWrite i s.db.nextCardId then
      some (put (made held i d r) i s.db.nextCardId (r.task,r.url)
        (changed (s.view i) s.db.nextCardId (want d r true)))
    else none

def step (loc : Locale) (s : State ι Key) : Event ι → Option (State ι Key)
  | .set i input =>
    (defs (s.view i)).toOption.bind fun d => (validate loc input).toOption.bind fun r =>
      if s.mayHold i (r.task,r.url) then setLink s i d r else none
  | .share i card =>
    if s.mayShare i card&&((s.view i).card card).isSome then some (s.share i card) else none
  | .update i card attrName norm =>
    ((s.view i).attributeNamed attrName).bind fun attr =>
      if i∈s.sharers card then
        some (s.putValue i card attr.id norm (takesUrl s.db attr.id))
      else none
  | .delete i card => s.mark i card true
  | .undelete i card => s.mark i card false
  | .commit i => some (s.close i (s.view i))
  | .abort i => some (s.close i s.db)

/-- A transaction commits only while the url of a link that it brought back or gave a url by
hand is no other link's of the task, and none that another transaction's `link.set` has locked. -/
def Tame (s : State ι Key) : Event ι → Prop
  | .commit i => Clear (linkKey s.db) s i
  | _ => True

def LiveLink (db : Db) (task : Int) (url : String) (id : Int) : Prop :=
  ∃ c a, db.card id=some c∧c.deleted=false∧isLink db c=true∧c.parentCardId=some task∧
    takesUrl db a=true∧db.value id a=some (.str url)

/-- No task has two live links with one url. -/
def UrlsDiffer (db : Db) : Prop :=
  ∀ task url a b, LiveLink db task url a → LiveLink db task url b → a=b

variable {loc : Locale} {s t : State ι Key} {i : ι} {db : Db} {c : Card} {k : Key}
  {d : Defs} {r : Request}

theorem linkKey_eq {a : Int} {v : Json} : linkKey db c a v=some k↔c.deleted=false∧
    isLink db c=true∧takesUrl db a=true∧c.parentCardId=some k.1∧v=.str k.2 := by
  obtain ⟨task,url⟩ := k
  unfold linkKey
  by_cases h : (!c.deleted&&isLink db c&&takesUrl db a)=true
  · rw [if_pos h]
    simp only [Bool.and_eq_true,Bool.not_eq_true'] at h
    simp only [h,true_and]
    cases c.parentCardId <;> cases v <;> simp
  · rw [if_neg h]
    simp only [Bool.and_eq_true,Bool.not_eq_true',not_and] at h
    simp only [reduceCtorEq,false_iff]
    rintro ⟨hlive,hlink,htakes,-⟩
    exact h ⟨hlive,hlink⟩ htakes

theorem has_iff {id : Int} :
    Unique.Has (linkKey db) (tables db) id k↔LiveLink db k.1 k.2 id := by
  constructor
  · rintro ⟨c,a,v,hc,hv,hkey⟩
    obtain ⟨hlive,hlink,htakes,hp,rfl⟩ := linkKey_eq.mp hkey
    exact ⟨c,a,hc,hlive,hlink,hp,htakes,hv⟩
  · rintro ⟨c,a,hc,hlive,hlink,hp,htakes,hv⟩
    exact ⟨c,a,.str k.2,hc,hv,linkKey_eq.mpr ⟨hlive,hlink,htakes,hp,rfl⟩⟩

theorem urlsDiffer_iff : UrlsDiffer db↔Unique.UniqueKeys (linkKey db) (tables db) := by
  constructor
  · intro h a b k ha hb
    exact h k.1 k.2 a b (has_iff.mp ha) (has_iff.mp hb)
  · intro h task url a b ha hb
    exact h a b (task,url) (has_iff.mpr ha) (has_iff.mpr hb)

theorem gives_iff {a : Int} : Unique.Gives (linkKey db) a → takesUrl db a=true := by
  rintro ⟨c,v,h⟩
  obtain ⟨k,hk⟩ := Option.ne_none_iff_exists'.mp h
  exact (linkKey_eq.mp hk).2.2.1

theorem defs_ok (h : defs db=.ok d) : db.cardTypes.find? (·.name="link")=some d.link∧
    db.attributeNamed "title"=some d.title∧db.attributeNamed "link_url"=some d.url∧
    db.attributeNamed "link_kind"=some d.kind∧db.attributeNamed "link_state"=some d.state := by
  unfold defs at h
  split at h
  · cases h
  · rename_i link hlink
    split at h
    · rename_i title url kind state htitle hurl hkind hstate
      cases h
      exact ⟨hlink,htitle,hurl,hkind,hstate⟩
    · cases h

theorem takesUrl_iff (h : defs db=.ok d) {a : Int} : takesUrl db a=true↔a=d.url.id := by
  rw [takesUrl,(defs_ok h).2.2.1,Option.any_some,decide_eq_true_eq,eq_comm]

theorem isLink_iff (h : defs db=.ok d) : isLink db c=true↔c.cardTypeId=d.link.id := by
  rw [isLink,(defs_ok h).1,Option.any_some,decide_eq_true_eq,eq_comm]

theorem mem_links {x : Int} : x∈(db.cards.filter fun c => c.parentCardId=some r.task∧
      c.cardTypeId=d.link.id∧!c.deleted∧db.value c.id d.url.id=some (.str r.url)).map (·.id)↔
    ∃ c∈db.cards, c.parentCardId=some r.task∧c.cardTypeId=d.link.id∧c.deleted=false∧
      db.value c.id d.url.id=some (.str r.url)∧c.id=x := by
  constructor
  · intro h
    obtain ⟨c,hc,hid⟩ := List.mem_map.mp h
    obtain ⟨hc,hlink⟩ := List.mem_filter.mp hc
    obtain ⟨hp,htype,hlive,hv⟩ := of_decide_eq_true hlink
    exact ⟨c,hc,hp,htype,by simpa using hlive,hv,hid⟩
  · rintro ⟨c,hc,hp,htype,hlive,hv,hid⟩
    exact List.mem_map.mpr ⟨c,List.mem_filter.mpr ⟨hc,decide_eq_true ⟨hp,htype,by simp [hlive],hv⟩⟩,hid⟩

/-- The lookup finds no link only where there is none. -/
theorem linkOf_none (h : defs db=.ok d) (hnone : linkOf db d r=none) (id : Int) :
    ¬LiveLink db r.task r.url id := by
  rintro ⟨c,a,hc,hlive,hlink,hp,htakes,hv⟩
  rw [takesUrl_iff h] at htakes
  subst htakes
  have hmem := mem_links.mpr ⟨c,List.mem_of_find?_eq_some hc,hp,(isLink_iff h).mp hlink,hlive,
    by rwa [card_id hc],rfl⟩
  rw [linkOf,List.min?_eq_none_iff] at hnone
  rw [hnone] at hmem
  cases hmem

/-- It finds the oldest there is. -/
theorem linkOf_some (h : defs db=.ok d) {n : Int} (hrows : Rows n db.cards db.values) {link : Int}
    (hsome : linkOf db d r=some link) : LiveLink db r.task r.url link∧
      ∀ id, LiveLink db r.task r.url id → link ≤ id := by
  have hmin := List.min?_eq_some_iff.mp hsome
  constructor
  · obtain ⟨c,hc,hp,htype,hlive,hv,hid⟩ := mem_links.mp hmin.1
    subst hid
    exact ⟨c,d.url.id,hrows.keyed c hc,hlive,(isLink_iff h).mpr htype,hp,(takesUrl_iff h).mpr rfl,hv⟩
  · rintro id ⟨c,a,hc,hlive,hlink,hp,htakes,hv⟩
    rw [takesUrl_iff h] at htakes
    subst htakes
    exact hmin.2 id (mem_links.mpr ⟨c,List.mem_of_find?_eq_some hc,hp,(isLink_iff h).mp hlink,hlive,
      by rwa [card_id hc],card_id hc⟩)

/-- Attributes by their ids. -/
def Keyed (db : Db) : Prop := ∀ a∈db.attributeDefs, db.attributeDef a.id=some a

theorem Keyed.inj (hk : Keyed db) {m n : String} {a b : AttributeDef}
    (ha : db.attributeNamed m=some a) (hb : db.attributeNamed n=some b) (hid : a.id=b.id) : m=n := by
  have hself := hk a (List.mem_of_find?_eq_some ha)
  have hself' := hk b (List.mem_of_find?_eq_some hb)
  rw [hid,hself'] at hself
  have hab : b=a := Option.some.inj hself
  have hm : a.name=m := by simpa using List.find?_some ha
  have hn : b.name=n := by simpa using List.find?_some hb
  rw [← hm,← hn,hab]

/-- The four attributes are four. -/
theorem want_nodup (hk : Keyed db) (h : defs db=.ok d) (created : Bool) :
    ((want d r created).map (·.1.id)).Nodup := by
  obtain ⟨-,htitle,hurl,hkind,hstate⟩ := defs_ok h
  have htu : d.title.id≠d.url.id := fun hid => absurd (hk.inj htitle hurl hid) (by decide)
  have htk : d.title.id≠d.kind.id := fun hid => absurd (hk.inj htitle hkind hid) (by decide)
  have hts : d.title.id≠d.state.id := fun hid => absurd (hk.inj htitle hstate hid) (by decide)
  have huk : d.url.id≠d.kind.id := fun hid => absurd (hk.inj hurl hkind hid) (by decide)
  have hus : d.url.id≠d.state.id := fun hid => absurd (hk.inj hurl hstate hid) (by decide)
  have hks : d.kind.id≠d.state.id := fun hid => absurd (hk.inj hkind hstate hid) (by decide)
  rw [want]
  cases created <;> cases r.title <;> cases r.kind <;> cases r.state <;>
    simp [htu,htk,hts,huk,hus,hks]

/-- Only a link that is made gets its url. -/
theorem want_url (hk : Keyed db) (h : defs db=.ok d) {created : Bool} {w : AttributeDef×String}
    (hw : w∈want d r created) (hid : w.1.id=d.url.id) : created=true∧w.2=r.url := by
  obtain ⟨-,htitle,hurl,hkind,hstate⟩ := defs_ok h
  simp only [want,List.mem_append,Option.mem_toList,Option.map_eq_some_iff] at hw
  rcases hw with ((hw | hw) | ⟨x,-,rfl⟩) | ⟨x,-,rfl⟩
  · split at hw
    · rw [List.mem_singleton.mp hw] at hid
      exact absurd (hk.inj htitle hurl hid) (by decide)
    · cases hw
  · split at hw
    · rename_i hcreated
      rw [List.mem_singleton.mp hw]
      exact ⟨hcreated,rfl⟩
    · cases hw
  · exact absurd (hk.inj hkind hurl hid) (by decide)
  · exact absurd (hk.inj hstate hurl hid) (by decide)

/-- No url that a transaction looked up is another link's. -/
structure Inv (s : State ι Key) : Prop where
  keyed : Keyed s.db
  given : s.Given
  keys : Unique.Inv (linkKey s.db) s.locks

/-- The transaction writes the link, and nobody else may give its url. -/
structure Claims (s : State ι Key) (i : ι) (link : Int) (k : Key) : Prop where
  writer : s.writer link=some i
  holder : s.holder k=some i
  row : ∃ c, (s.view i).card link=some c∧c.deleted=false∧isLink s.db c=true∧c.parentCardId=some k.1
  free : ∀ x, x≠link → ¬LiveLink (s.view i) k.1 k.2 x

variable {link : Int} {w : AttributeDef×String} {ws : List (AttributeDef×String)}

theorem putOne_db : (putOne s i link k w).db=s.db := by
  unfold putOne
  split
  · exact claimValue_db s i link w.1.id _ _
  · rfl

theorem putOne_view : (putOne s i link k w).view i=
    (s.putValue i link w.1.id (.str w.2) false).view i := by
  unfold putOne
  split
  · exact claimValue_view s i link w.1.id _ _
  · rfl

theorem putOne_card : ((putOne s i link k w).view i).card=(s.view i).card := by
  rw [putOne_view,view_putValue_card]

theorem putOne_value (x a : Int) : ((putOne s i link k w).view i).value x a=
    if x=link∧a=w.1.id then some (.str w.2) else (s.view i).value x a := by
  rw [putOne_view,view_putValue]

theorem Claims.putOne (h : Claims s i link k) : Claims (putOne s i link k w) i link k := by
  refine ⟨?_,?_,?_,?_⟩
  · unfold LinkSet.putOne
    split
    · exact h.writer
    · exact h.writer
  · unfold LinkSet.putOne
    split
    · exact Function.update_self ..
    · exact h.holder
  · rw [putOne_card,putOne_db]
    exact h.row
  · rintro x hx ⟨c,a,hc,hlive,hlink,hp,htakes,hv⟩
    rw [putOne_card] at hc
    rw [putOne_value,if_neg fun hxa => hx hxa.1] at hv
    have hdb : (LinkSet.putOne s i link k w).db=s.db := putOne_db
    have hlink : isLink s.db c=true := hdb ▸ hlink
    have htakes : takesUrl s.db a=true := hdb ▸ htakes
    exact h.free x hx ⟨c,a,hc,hlive,hlink,hp,htakes,hv⟩

theorem putOne_inv (h : Inv s) (hlink : link < s.db.nextCardId)
    (hurl : takesUrl s.db w.1.id=true → w.2=k.2∧Claims s i link k) :
    Inv (putOne s i link k w) := by
  have hdb : (putOne s i link k w).db=s.db := putOne_db
  refine ⟨hdb ▸ h.keyed,?_,?_⟩
  · unfold putOne
    split
    · exact h.given.claimValue hlink
    · exact h.given.putValue hlink
  · rw [hdb]
    unfold putOne
    split
    · rename_i htakes
      obtain ⟨hw,hclaims⟩ := hurl htakes
      obtain ⟨c,hc,hlive,hislink,hp⟩ := hclaims.row
      have hkey : linkKey s.db c w.1.id (.str w.2)=some k :=
        linkKey_eq.mpr ⟨hlive,hislink,htakes,hp,by rw [hw]⟩
      have hwrites : s.locks.Touches i link := .inl hclaims.writer
      refine claimValue_inv h.keys hwrites w.1.id (.str w.2) (by rw [hc,Option.bind_some,hkey]) ?_ ?_
      · exact mayHold_iff.mpr (.inr hclaims.holder)
      · rintro k' hk' x hx hhas
        cases hk'
        exact hclaims.free x hx (has_iff.mp hhas)
    · rename_i htakes
      exact putOther_inv h.keys (fun hgives => htakes (gives_iff hgives)) link (.str w.2)

theorem put_inv (h : Inv s) (hlink : link < s.db.nextCardId)
    (hurl : ∀ w∈ws, takesUrl s.db w.1.id=true → w.2=k.2∧Claims s i link k) :
    Inv (put s i link k ws) := by
  induction ws generalizing s with
  | nil => exact h
  | cons w ws ih =>
    have hdb : (putOne s i link k w).db=s.db := putOne_db
    refine ih (putOne_inv h hlink (hurl w List.mem_cons_self)) (hdb ▸ hlink) fun v hv htakes => ?_
    obtain ⟨hw,hclaims⟩ := hurl v (List.mem_cons_of_mem _ hv) (hdb ▸ htakes)
    exact ⟨hw,hclaims.putOne⟩

theorem hold_keeps (h : Inv s) (hmay : s.mayHold i k=true) : Inv (s.hold i k) :=
  ⟨h.keyed,⟨h.given.committed,h.given.own,h.given.shared⟩,hold_inv h.keys hmay⟩

theorem made_inv (h : Inv s) (hfree : s.mayWrite i s.db.nextCardId=true) : Inv (made s i d r) := by
  have hnew : (linkRow d r s.db.nextCardId).id < s.drawn.db.nextCardId := by
    change s.db.nextCardId < s.db.nextCardId+1
    omega
  have hdrawn : Unique.Inv (linkKey s.db) s.drawn.locks := h.keys
  refine ⟨h.keyed,h.given.drawn.putCard hnew,openCard_inv hdrawn hfree fun a v hv => ?_⟩
  have hbelow : s.db.nextCardId < s.db.nextCardId := h.given.value_below hv
  omega

theorem made_card (x : Int) : ((made s i d r).view i).card x=
    if x=s.db.nextCardId then some (linkRow d r s.db.nextCardId) else (s.view i).card x :=
  view_putCard s.drawn i (linkRow d r s.db.nextCardId) false x

theorem made_value : ((made s i d r).view i).value=(s.view i).value :=
  view_putCard_value s.drawn i (linkRow d r s.db.nextCardId) false

theorem made_claims (hd : defs s.db=.ok d) (hk : s.holder (r.task,r.url)=some i)
    (hfree : ∀ x, ¬LiveLink (s.view i) r.task r.url x) :
    Claims (made s i d r) i s.db.nextCardId (r.task,r.url) := by
  refine ⟨Function.update_self ..,hk,⟨linkRow d r s.db.nextCardId,?_,rfl,?_,rfl⟩,?_⟩
  · rw [made_card,if_pos rfl]
  · exact (isLink_iff hd).mpr rfl
  · rintro x hx ⟨c,a,hc,hlive,hlink,hp,htakes,hv⟩
    rw [made_card,if_neg hx] at hc
    rw [made_value] at hv
    exact hfree x ⟨c,a,hc,hlive,hlink,hp,htakes,hv⟩

theorem setLink_inv (h : Inv s) (hd : defs s.db=.ok d) (hmay : s.mayHold i (r.task,r.url)=true)
    (hset : setLink s i d r=some t) : Inv t := by
  have hheld := hold_keeps h hmay
  simp only [setLink] at hset
  split at hset
  · rename_i link hlink
    cases hset
    have hseeded : defs (s.view i)=.ok d := hd
    obtain ⟨⟨c,a,hc,-⟩,-⟩ := linkOf_some hseeded (h.given.view i) hlink
    refine put_inv hheld (h.given.card_below hc) fun w hw htakes => ?_
    obtain ⟨hcreated,-⟩ := want_url h.keyed hd (List.mem_filter.mp hw).1 ((takesUrl_iff hd).mp htakes)
    cases hcreated
  · rename_i hnone
    split at hset
    · rename_i hfree
      cases hset
      have hmade := made_inv (d := d) (r := r) hheld hfree
      have hnew : s.db.nextCardId < (made (s.hold i (r.task,r.url)) i d r).db.nextCardId := by
        change s.db.nextCardId < s.db.nextCardId+1
        omega
      refine put_inv hmade hnew fun w hw htakes => ?_
      obtain ⟨-,hurl⟩ := want_url h.keyed hd (List.mem_filter.mp hw).1 ((takesUrl_iff hd).mp htakes)
      have hseeded : defs (s.view i)=.ok d := hd
      have hfree : ∀ x, ¬LiveLink (s.view i) r.task r.url x := linkOf_none hseeded hnone
      exact ⟨hurl,made_claims hd (Function.update_self ..) hfree⟩
    · cases hset

theorem step_inv {e : Event ι} (h : Inv s) (hok : Tame s e) (hstep : step loc s e=some t) :
    Inv t := by
  cases e with
  | set i input =>
    obtain ⟨d,hd,hstep⟩ := Option.bind_eq_some_iff.mp hstep
    obtain ⟨r,-,hstep⟩ := Option.bind_eq_some_iff.mp hstep
    split at hstep
    · rename_i hmay
      exact setLink_inv h (Steps.ok_of_toOption hd) hmay hstep
    · cases hstep
  | share i card =>
    simp only [step,Bool.and_eq_true] at hstep
    split at hstep
    · rename_i hguard
      cases hstep
      obtain ⟨c,hc⟩ := Option.isSome_iff_exists.mp hguard.2
      exact ⟨h.keyed,h.given.share (h.given.card_below hc),share_inv h.keys hguard.1⟩
    · cases hstep
  | update i card attrName norm =>
    obtain ⟨attr,-,hstep⟩ := Option.bind_eq_some_iff.mp hstep
    split at hstep
    · rename_i hshared
      cases hstep
      have hbelow := h.given.shared card (List.ne_nil_of_mem hshared)
      refine ⟨h.keyed,h.given.putValue hbelow,?_⟩
      change Unique.Inv (linkKey s.db) _
      cases htakes : takesUrl s.db attr.id with
      | true =>
        have hread : s.locks.Touches i card := .inr hshared
        exact putValue_inv h.keys hread attr.id norm
      | false =>
        refine putOther_inv h.keys (fun hgives => ?_) card norm
        rw [gives_iff hgives] at htakes
        cases htakes
    · cases hstep
  | delete i card =>
    obtain ⟨hkeys,hdb⟩ := mark_inv h.keys hstep
    exact ⟨hdb ▸ h.keyed,h.given.mark hstep,hdb ▸ hkeys⟩
  | undelete i card =>
    obtain ⟨hkeys,hdb⟩ := mark_inv h.keys hstep
    exact ⟨hdb ▸ h.keyed,h.given.mark hstep,hdb ▸ hkeys⟩
  | commit i =>
    cases hstep
    exact ⟨h.keyed,h.given.close (h.given.view i) rfl,commit_inv h.keys hok⟩
  | abort i =>
    cases hstep
    exact ⟨h.keyed,h.given.close h.given.committed rfl,abort_inv h.keys⟩

theorem put_card : ((put s i link k ws).view i).card=(s.view i).card := by
  induction ws generalizing s with
  | nil => rfl
  | cons w ws ih => exact ih.trans putOne_card

theorem put_other {x : Int} (hx : x≠link) (a : Int) :
    ((put s i link k ws).view i).value x a=(s.view i).value x a := by
  induction ws generalizing s with
  | nil => rfl
  | cons w ws ih =>
    refine ih.trans ?_
    rw [putOne_value,if_neg fun hxa => hx hxa.1]

theorem put_absent {a : Int} (ha : a∉ws.map (·.1.id)) :
    ((put s i link k ws).view i).value link a=(s.view i).value link a := by
  induction ws generalizing s with
  | nil => rfl
  | cons w ws ih =>
    rw [List.map_cons,List.mem_cons,not_or] at ha
    refine (ih ha.2).trans ?_
    rw [putOne_value,if_neg fun hxa => ha.1 hxa.2]

theorem put_present (hn : (ws.map (·.1.id)).Nodup) (hw : w∈ws) :
    ((put s i link k ws).view i).value link w.1.id=some (.str w.2) := by
  induction ws generalizing s with
  | nil => cases hw
  | cons v ws ih =>
    rw [List.map_cons,List.nodup_cons] at hn
    rcases List.mem_cons.mp hw with rfl | hw
    · refine (put_absent hn.1).trans ?_
      rw [putOne_value,if_pos ⟨rfl,rfl⟩]
    · exact ih hn.2 hw

/-- Values laid over a link one way and the other. -/
theorem put_agree (old : Int → Option Json) (actor : Int) (hvalue : (s.view i).value=db.value) :
    ((put s i link k ws).view i).value=
      (ws.foldl (fun t w => writeValue t actor link w.1.id (old w.1.id) (.str w.2)) db).value := by
  induction ws generalizing s db with
  | nil => exact hvalue
  | cons w ws ih =>
    refine ih ?_
    funext x a
    rw [putOne_value,writeValue_value,hvalue]

/-- The function of the row is a transaction of its own. -/
theorem set_run {db' : Db} {actor : Int} {input : Input} {answer : Answer}
    (hrows : Rows db.nextCardId db.cards db.values) (h : set loc db actor input=.ok (db',answer))
    (i : ι) : ∃ s, Run (step loc) (fun _ _ => True) (State.start db : State ι Key)
      [.set i input,.commit i] s∧s.db.card=db'.card∧s.db.value=db'.value := by
  unfold set at h
  obtain ⟨d,hd,h⟩ := Steps.bind_ok h
  obtain ⟨r,hr,h⟩ := Steps.bind_ok h
  obtain ⟨_,-,h⟩ := Steps.bind_ok h
  have hstep : step loc (State.start db : State ι Key) (.set i input)=
      setLink (State.start db) i d r := by
    simp only [step,view_start,hd,hr]
    rfl
  have hheld : ((State.start db : State ι Key).hold i (r.task,r.url)).view i=db := by
    rw [hold_view,view_start]
  cases hlink : linkOf db d r with
  | some link =>
    rw [hlink] at h
    cases h
    have hset : setLink (State.start db : State ι Key) i d r=some (put ((State.start db).hold i
        (r.task,r.url)) i link (r.task,r.url) (changed db link (want d r false))) := by
      simp only [setLink,view_start,hlink]
    refine ⟨_,.cons trivial (hstep.trans hset) (.cons trivial rfl (.nil _)),?_,?_⟩
    · refine put_card.trans ?_
      rw [hheld]
      have hsame : SameCards db (write db actor link (want d r false)) :=
        Steps.foldl_inv (.refl _) fun t ht w _ => ht.trans (writeValue_keeps t actor _ _ _ _)
      exact hsame.card.symm
    · exact put_agree (db.value link) actor (by rw [hheld])
  | none =>
    rw [hlink] at h
    cases h
    have hset : setLink (State.start db : State ι Key) i d r=some (put (made ((State.start db).hold i
        (r.task,r.url)) i d r) i db.nextCardId (r.task,r.url)
          (changed db db.nextCardId (want d r true))) := by
      simp only [setLink,view_start,hlink]
      exact if_pos (mayWrite_start db i _)
    have hfresh : db.card db.nextCardId=none := by
      by_contra hne
      obtain ⟨c,hc⟩ := Option.ne_none_iff_exists'.mp hne
      have hbelow := hrows.cards_below c (List.mem_of_find?_eq_some hc)
      rw [card_id hc] at hbelow
      omega
    refine ⟨_,.cons trivial (hstep.trans hset) (.cons trivial rfl (.nil _)),?_,?_⟩
    · refine put_card.trans ?_
      funext x
      rw [made_card,hheld]
      have hsame : SameCards (create db actor d r)
          (write (create db actor d r) actor db.nextCardId (want d r true)) :=
        Steps.foldl_inv (.refl _) fun t ht w _ => ht.trans (writeValue_keeps t actor _ _ _ _)
      rw [hsame.card]
      refine Eq.symm ((addCard_card db (linkRow d r db.nextCardId) x).trans ?_)
      by_cases hx : x=db.nextCardId
      · subst hx
        rw [hfresh]
        simp [linkRow,State.hold,State.start]
      · have hid : (linkRow d r db.nextCardId).id≠x := Ne.symm hx
        rw [if_neg hid,Option.or_none]
        exact (if_neg hx).symm
    · exact put_agree (db.value db.nextCardId) actor (by rw [made_value,hheld]; rfl)

/-- What is wanted of a link is what it then has; a blank kind or state it may lack. -/
def Updates (s t : State ι Key) (i : ι) (r : Request) (link : Int) : Prop :=
  (t.view i).card=(s.view i).card∧
  (∀ x a, x≠link → (t.view i).value x a=(s.view i).value x a)∧
  ∀ d, defs (s.view i)=.ok d → ∀ w∈want d r false,
    (t.view i).value link w.1.id=some (.str w.2)∨
      ((t.view i).value link w.1.id=none∧w.2="")

/-- `link.set` of a url the task has changes the values of the oldest link with it, and adds no
card. -/
theorem set_updates {input : Input} (h : Inv s) (hstep : step loc s (.set i input)=some t)
    (hr : validate loc input=.ok r) {x : Int} (hx : LiveLink (s.view i) r.task r.url x) :
    ∃ link, LiveLink (s.view i) r.task r.url link∧link ≤ x∧Updates s t i r link := by
  obtain ⟨d,hd,hstep⟩ := Option.bind_eq_some_iff.mp hstep
  have hd : defs (s.view i)=.ok d := Steps.ok_of_toOption hd
  simp only [hr,Except.toOption,Option.bind_some] at hstep
  split at hstep
  · simp only [setLink] at hstep
    split at hstep
    · rename_i link hlink
      cases hstep
      obtain ⟨hlive,hmin⟩ := linkOf_some hd (h.given.view i) hlink
      refine ⟨link,hlive,hmin x hx,put_card,fun y a hy => put_other hy a,fun e he w hw => ?_⟩
      have hde : e=d := by
        rw [hd] at he
        cases he
        rfl
      subst hde
      have hkeyed : Keyed (s.view i) := h.keyed
      have hall := want_nodup (r := r) hkeyed hd false
      have hsub : ((changed (s.view i) link (want e r false)).map (·.1.id)).Nodup :=
        hall.sublist (List.filter_sublist.map _)
      by_cases hchanged : w∈changed (s.view i) link (want e r false)
      · exact .inl (put_present hsub hchanged)
      · -- what isn't changed is there already, or blank and missing
        have hkept : w.1.id∉(changed (s.view i) link (want e r false)).map (·.1.id) := by
          intro hmem
          obtain ⟨v,hv,hid⟩ := List.mem_map.mp hmem
          have hvw := List.inj_on_of_nodup_map hall (List.mem_filter.mp hv).1 hw hid
          exact hchanged (hvw ▸ hv)
        rw [put_absent hkept]
        have hsame : differs (s.view i) link w=false := by
          simpa [changed,hw] using hchanged
        simp only [differs,Bool.and_eq_false_iff,decide_eq_false_iff_not,not_not,
          Bool.not_eq_eq_eq_not,Bool.not_false,Bool.and_eq_true,Option.isNone_iff_eq_none,
          decide_eq_true_eq] at hsame
        exact hsame
    · rename_i hnone
      exact absurd hx (linkOf_none hd hnone x)
  · cases hstep

/-- Over such a run no task has two live links with one url, and `link.set` of a url that the
task has live updates the link. -/
theorem links_stay_single {start : Db} {es : List (Event ι)} (hkeyed : Keyed start)
    (hrows : Rows start.nextCardId start.cards start.values) (h : UrlsDiffer start)
    (hrun : Run (step loc) Tame (State.start start) es s) : UrlsDiffer s.db∧
      ∀ i input t r x, step loc s (.set i input)=some t → validate loc input=.ok r →
        LiveLink (s.view i) r.task r.url x →
          ∃ link, LiveLink (s.view i) r.task r.url link∧link ≤ x∧Updates s t i r link := by
  have hstart : Inv (State.start start : State ι Key) :=
    ⟨hkeyed,given_start hrows,start_inv (urlsDiffer_iff.mp h)⟩
  have hend : Inv s := hrun.inv Inv (fun _ _ _ hI hok hst => step_inv hI hok hst) hstart
  exact ⟨urlsDiffer_iff.mpr hend.keys.unique,fun i input t r x hstep hr hx =>
    set_updates hend hstep hr hx⟩

section Examples

def ascii : Locale := ⟨fun s => .ofList (s.toList.map Char.toLower),(· = ' ')⟩

/-- A task with a link. -/
def linked : Db where
  cardTypes := [⟨1,"project",none,false⟩,⟨2,"task",some 1,true⟩,⟨3,"link",some 2,false⟩]
  attributeDefs := [⟨1,"title",.text,none,none⟩,⟨2,"link_url",.text,none,none⟩,
    ⟨3,"link_kind",.text,none,none⟩,⟨4,"link_state",.text,none,none⟩]
  cards := [⟨1,1,none,none,false,.triage⟩,⟨2,2,some 1,none,false,.triage⟩,
    ⟨3,3,some 2,none,false,.triage⟩]
  values := [⟨3,2,.str "https://a/1"⟩]
  nextCardId := 4

def merged : Input := ⟨some 2,some "https://a/1",none,none,some "merged"⟩

def another : Input := ⟨some 2,some "https://a/2",none,none,none⟩

theorem linked_keyed : Keyed linked := by
  intro a ha
  simp only [linked,List.mem_cons,List.not_mem_nil,or_false] at ha
  rcases ha with rfl | rfl | rfl | rfl <;> rfl

theorem linked_rows : Rows linked.nextCardId linked.cards linked.values where
  keyed := by decide
  cards_below := by decide
  values_below v hv := by
    rw [List.mem_singleton.mp hv]
    decide

theorem linked_differ : UrlsDiffer linked := by
  have hthree (x : Int) (task : Int) (url : String) (h : LiveLink linked task url x) : x=3 := by
    obtain ⟨c,a,-,-,-,-,-,hv⟩ := h
    obtain ⟨row,hrow,hid,-⟩ := mem_of_value hv
    rw [List.mem_singleton.mp hrow] at hid
    exact hid.symm
  intro task url a b ha hb
  exact (hthree a task url ha).trans (hthree b task url hb).symm

/-- Two calls at once, one for the link that is there. -/
theorem links_stay_single_together : ∃ s, Run (step ascii) Tame (State.start linked)
    [.set 1 merged,.set 2 another,.commit 2,.commit 1] s∧UrlsDiffer s.db∧
      ∀ i input t r x, step ascii s (.set i input)=some t → validate ascii input=.ok r →
        LiveLink (s.view i) r.task r.url x →
          ∃ link, LiveLink (s.view i) r.task r.url link∧link ≤ x∧Updates s t i r link := by
  have hrun : ∃ s : State Nat Key, Run (step ascii) Tame (State.start linked)
      [.set 1 merged,.set 2 another,.commit 2,.commit 1] s := by
    refine ⟨_,.cons trivial rfl (.cons trivial rfl (.cons ?_ rfl (.cons ?_ rfl (.nil _))))⟩
    · intro c hc
      cases hc
    · intro c hc
      cases hc
  obtain ⟨s,hrun⟩ := hrun
  exact ⟨s,hrun,links_stay_single linked_keyed linked_rows linked_differ hrun⟩

/-- The link that is there gets a title. -/
theorem set_run_merged : ∃ db' answer, set ascii linked 1 merged=.ok (db',answer)∧
    ∃ s, Run (step ascii) (fun _ _ => True) (State.start linked : State Nat Key)
      [.set 1 merged,.commit 1] s∧s.db.card=db'.card∧s.db.value=db'.value := by
  cases hset : set ascii linked 1 merged with
  | error e =>
    have hok : (set ascii linked 1 merged).toOption.isSome := by decide
    rw [hset] at hok
    cases hok
  | ok r => exact ⟨r.1,r.2,rfl,set_run linked_rows hset 1⟩

/-- The link is deleted, its url set anew, and the link brought back. -/
theorem links_twice_after_undelete : Keyed linked∧
    Rows linked.nextCardId linked.cards linked.values∧UrlsDiffer linked∧
    ∃ s, Run (step ascii) (fun _ _ => True) (State.start linked)
      [Event.delete 1 3,.commit 1,.set 2 merged,.commit 2,.undelete 1 3,.commit 1] s∧
        ¬UrlsDiffer s.db := by
  have hend : ([Event.delete 1 3,.commit 1,.set 2 merged,.commit 2,.undelete 1 3,.commit 1].foldlM
      (step ascii) (State.start linked)).map (fun s : State Nat Key => (s.db.card 3,s.db.card 4,
        s.db.cardTypes,takesUrl s.db 2,s.db.value 3 2,s.db.value 4 2))=
      some (some ⟨3,3,some 2,none,false,.triage⟩,some ⟨4,3,some 2,none,false,.triage⟩,
        linked.cardTypes,true,some (.str "https://a/1"),some (.str "https://a/1")) := rfl
  obtain ⟨s,hs,hend⟩ := Option.map_eq_some_iff.mp hend
  simp only [Prod.mk.injEq] at hend
  obtain ⟨hold,hnew,htypes,htakes,hone,htwo⟩ := hend
  refine ⟨linked_keyed,linked_rows,linked_differ,s,.of_foldlM hs (by simp),fun hdiffer => ?_⟩
  have hlink (c : Card) (hc : c.cardTypeId=3) : isLink s.db c=true := by
    simp only [isLink,htypes,hc]
    rfl
  have hsame := hdiffer 2 "https://a/1" 3 4 ⟨_,2,hold,rfl,hlink _ rfl,rfl,htakes,hone⟩
    ⟨_,2,hnew,rfl,hlink _ rfl,rfl,htakes,htwo⟩
  exact absurd hsame (by decide)

end Examples

end Kitp.LinkSet
