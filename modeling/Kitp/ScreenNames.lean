import Kitp.AttributeUpdate
import Kitp.CardMove
import Kitp.Lib.Runs
import Kitp.Transactions

/-! The slugs and hotkeys of a project's screens, over transactions of `attribute.update`,
`card.insert`, `card.move`, `card.delete` and `card.undelete`. Checks that have nothing to do
with a screen's names only ever refuse a row, so the runs here include the program's. -/
namespace Kitp.ScreenNames
open Kitp.Store Kitp.Attributes Kitp.AttributeUpdate Kitp.Transactions Kitp.Runs

/-- The attribute, the project and the text. -/
abbrev Key := String×Int×String

/-- What a live screen under a project takes up by a slug, or by a hotkey that isn't blank. -/
def screenKey (db : Db) (c : Card) (attr : Int) (v : Json) : Option Key :=
  if c.deleted||db.cardTypeName c≠some "screen" then none
  else c.parentCardId.bind fun parent => (db.attributeDef attr).bind fun d => match v with
    | .str s => if d.name="slug"∨(d.name="hotkey"∧trimBlanks s≠"") then some (d.name,parent,s)
        else none
    | _ => none

inductive Event (ι : Type) where
  /-- `attribute.update` reads its card `FOR SHARE`. -/
  | share (i : ι) (card : Int)
  /-- Its lock on the value, its check and its write; the row lock is held. -/
  | update (i : ι) (card : Int) (attrName : String) (norm : Json)
  /-- A new card, the row's own or one that a project's stamp copies. -/
  | insert (i : ι) (c : Card) (values : List (Int×Json))
  | move (i : ι) (m : CardMove.Move)
  | delete (i : ι) (card : Int)
  | undelete (i : ι) (card : Int)
  | commit (i : ι)
  | abort (i : ι)

variable {ι : Type} [DecidableEq ι]

/-- The lock of the row's value: no other statement of the code takes one. -/
def lockOf (db : Db) (card : Int) (attr : AttributeDef) (norm : Json) : Option Key :=
  (db.card card).bind (screenKey db · attr.id norm)

def step (s : State ι Key) : Event ι → Option (State ι Key)
  | .share i card =>
    if s.mayShare i card&&((s.view i).card card).isSome then some (s.share i card) else none
  | .update i card attrName norm =>
    ((s.view i).attributeNamed attrName).bind fun attr =>
      let key := lockOf (s.view i) card attr norm
      if i∈s.sharers card∧key.all (s.mayHold i)∧(screenCheck (s.view i) card attr norm).toBool then
        some (s.claimValue i card attr.id norm key)
      else none
  | .insert i c values =>
    let new := s.db.nextCardId
    if s.mayWrite i new then
      let made := ({ s with db := { s.db with nextCardId := new+1 } }).putCard i
        { c with id := new, deleted := false } true
      some (values.foldl (fun s v => s.putValue i new v.1 v.2 true) made)
    else none
  | .move i m =>
    ((s.view i).card m.cardId).bind fun c =>
      if s.mayWrite i c.id then some (s.putCard i { c with parentCardId := some m.newParent } true)
      else none
  | .delete i card =>
    ((s.view i).card card).bind fun c =>
      if s.mayWrite i c.id&&!c.deleted then some (s.putCard i { c with deleted := true } true)
      else none
  | .undelete i card =>
    ((s.view i).card card).bind fun c =>
      if s.mayWrite i c.id&&c.deleted then some (s.putCard i { c with deleted := false } true)
      else none
  | .commit i => some (s.close i (s.view i))
  | .abort i => some (s.close i s.db)

/-- A transaction commits only while no slug or hotkey of a card it inserted, moved or brought
back is another screen's in its project, or one that another transaction is about to give. -/
def Tame (s : State ι Key) : Event ι → Prop
  | .commit i => Clear (screenKey s.db) s i
  | _ => True

def ScreenOf (db : Db) (id project : Int) : Prop := ∃ c, db.card id=some c∧c.deleted=false∧
  db.cardTypeName c=some "screen"∧c.parentCardId=some project

def textOf (db : Db) (id : Int) (name : String) : Option String :=
  match (db.attributeNamed name).bind fun d => db.value id d.id with
  | some (.str s) => some s
  | _ => none

/-- No two live screens of a project have one slug, or one hotkey that isn't blank. -/
def NamesDiffer (db : Db) : Prop := ∀ a b p, a≠b → ScreenOf db a p → ScreenOf db b p →
  (∀ s, textOf db a "slug"=some s → textOf db b "slug"≠some s)∧
  ∀ s, trimBlanks s≠"" → textOf db a "hotkey"=some s → textOf db b "hotkey"≠some s

/-- The keys of the attribute table. -/
structure Keyed (db : Db) : Prop where
  ids : ∀ d∈db.attributeDefs, db.attributeDef d.id=some d
  names : ∀ d∈db.attributeDefs, db.attributeNamed d.name=some d

variable {s t : State ι Key} {i : ι} {db : Db} {c : Card} {attr : AttributeDef} {k : Key}

theorem screenKey_eq {a : Int} {v : Json} : screenKey db c a v=some k↔c.deleted=false∧
    db.cardTypeName c=some "screen"∧∃ p d s, c.parentCardId=some p∧db.attributeDef a=some d∧
      v=.str s∧(d.name="slug"∨(d.name="hotkey"∧trimBlanks s≠""))∧k=(d.name,p,s) := by
  unfold screenKey
  by_cases hlive : c.deleted||db.cardTypeName c≠some "screen"
  · rw [if_pos hlive]
    simp only [Bool.or_eq_true,decide_eq_true_eq] at hlive
    constructor
    · intro h
      cases h
    · rintro ⟨hdel,htype,-⟩
      cases hlive with
      | inl h => simp [h] at hdel
      | inr h => exact absurd htype h
  · rw [if_neg hlive]
    simp only [Bool.or_eq_true,decide_eq_true_eq,not_or,not_not,Bool.not_eq_true] at hlive
    simp only [hlive,true_and,Option.bind_eq_some_iff]
    constructor
    · rintro ⟨p,hp,d,hd,h⟩
      split at h
      · rename_i s
        split at h
        · rename_i hname
          cases h
          exact ⟨p,d,s,hp,hd,rfl,hname,rfl⟩
        · cases h
      · cases h
    · rintro ⟨p,d,s,hp,hd,rfl,hname,rfl⟩
      exact ⟨p,hp,d,hd,if_pos hname⟩

theorem textOf_iff (hk : Keyed db) {id : Int} {name s : String} : textOf db id name=some s↔
    ∃ a d, db.attributeDef a=some d∧d.name=name∧db.value id a=some (.str s) := by
  unfold textOf
  constructor
  · intro h
    split at h
    · rename_i x hx
      obtain ⟨d,hd,hv⟩ := Option.bind_eq_some_iff.mp hx
      cases h
      have hname : d.name=name := by simpa using List.find?_some hd
      exact ⟨d.id,d,hk.ids d (List.mem_of_find?_eq_some hd),hname,hv⟩
    · cases h
  · rintro ⟨a,d,hd,rfl,hv⟩
    have hid : d.id=a := by simpa using List.find?_some hd
    rw [hk.names d (List.mem_of_find?_eq_some hd),Option.bind_some,hid,hv]

/-- A screen takes up the slug and the hotkey it has. -/
theorem has_iff (hk : Keyed db) {id : Int} : Unique.Has (screenKey db) (tables db) id k↔
    ∃ name p s, k=(name,p,s)∧(name="slug"∨(name="hotkey"∧trimBlanks s≠""))∧ScreenOf db id p∧
      textOf db id name=some s := by
  constructor
  · rintro ⟨c,a,v,hc,hv,hkey⟩
    obtain ⟨hlive,htype,p,d,s,hp,hd,rfl,hname,rfl⟩ := screenKey_eq.mp hkey
    exact ⟨d.name,p,s,rfl,hname,⟨c,hc,hlive,htype,hp⟩,(textOf_iff hk).mpr ⟨a,d,hd,rfl,hv⟩⟩
  · rintro ⟨name,p,s,rfl,hname,⟨c,hc,hlive,htype,hp⟩,hs⟩
    obtain ⟨a,d,hd,rfl,hv⟩ := (textOf_iff hk).mp hs
    exact ⟨c,a,.str s,hc,hv,screenKey_eq.mpr ⟨hlive,htype,p,d,s,hp,hd,rfl,hname,rfl⟩⟩

theorem namesDiffer_iff (hk : Keyed db) :
    NamesDiffer db↔Unique.UniqueKeys (screenKey db) (tables db) := by
  constructor
  · intro h x y k hx hy
    obtain ⟨name,p,s,rfl,hname,hxp,hxs⟩ := (has_iff hk).mp hx
    obtain ⟨name',p',s',heq,-,hyp,hys⟩ := (has_iff hk).mp hy
    obtain ⟨rfl,rfl,rfl⟩ : name=name'∧p=p'∧s=s' := by simpa using heq
    by_contra hne
    rcases hname with rfl | ⟨rfl,hblank⟩
    · exact (h x y p hne hxp hyp).1 s hxs hys
    · exact (h x y p hne hxp hyp).2 s hblank hxs hys
  · intro h x y p hne hx hy
    have hboth (name : String) (s : String) (hname : name="slug"∨(name="hotkey"∧trimBlanks s≠""))
        (hxs : textOf db x name=some s) : textOf db y name≠some s := fun hys =>
      hne (h x y (name,p,s) ((has_iff hk).mpr ⟨name,p,s,rfl,hname,hx,hxs⟩)
        ((has_iff hk).mpr ⟨name,p,s,rfl,hname,hy,hys⟩))
    exact ⟨fun s => hboth "slug" s (.inl rfl),fun s hs => hboth "hotkey" s (.inr ⟨rfl,hs⟩)⟩

/-- What the check of `attribute.update` finds free no other screen has. -/
theorem screenCheck_free (hk : Keyed db) {name : String} {card : Int} {norm : Json}
    (hattr : db.attributeNamed name=some attr) (hkey : lockOf db card attr norm=some k)
    (h : (screenCheck db card attr norm).toBool=true) :
    ∀ d, d≠card → ¬Unique.Has (screenKey db) (tables db) d k := by
  obtain ⟨c,hc,hkey⟩ := Option.bind_eq_some_iff.mp hkey
  obtain ⟨hlive,htype,p,d,s,hp,hd,rfl,hname,rfl⟩ := screenKey_eq.mp hkey
  have hdattr : d=attr := by
    have hself := hk.ids attr (List.mem_of_find?_eq_some hattr)
    exact Option.some.inj (hd.symm.trans hself)
  subst hdattr
  have hnone : screenWith db card d p s=none := by
    have hnames : d.name="slug"∨d.name="hotkey" := hname.imp_right (·.1)
    have hblank : ¬(d.name="hotkey"∧trimBlanks s="") := by
      rintro ⟨hhot,hs⟩
      rcases hname with hslug | ⟨-,hne⟩
      · exact absurd (hslug.symm.trans hhot) (by decide)
      · exact hne hs
    simp only [screenCheck,if_pos (show (d.name="slug"∨d.name="hotkey")∧Json.str s≠.null from
      ⟨hnames,by simp⟩),hc,Option.filter,hlive,htype,Bool.not_false,and_self,decide_true,
      if_true,hp,if_neg hblank] at h
    cases hw : screenWith db card d p s with
    | none => rfl
    | some other =>
      rw [hw] at h
      split at h <;> cases h
  intro x hx hhas
  obtain ⟨name',p',s',heq,-,⟨r,hr,hrlive,-,hrp⟩,hs⟩ := (has_iff hk).mp hhas
  simp only [Prod.mk.injEq] at heq
  obtain ⟨rfl,rfl,rfl⟩ := heq
  obtain ⟨a,e,he,hename,hv⟩ := (textOf_iff hk).mp hs
  have hed : e=d := by
    have hnamed := hk.names e (List.mem_of_find?_eq_some he)
    have hnamed' := hk.names d (List.mem_of_find?_eq_some hd)
    rw [hename] at hnamed
    exact Option.some.inj (hnamed.symm.trans hnamed')
  have ha : a=d.id := by
    have hid : e.id=a := by simpa using List.find?_some he
    rw [← hid,hed]
  have hrid := card_id hr
  have hmem : r∈db.cards.filter fun c => c.parentCardId=some p∧c.id≠card∧!c.deleted := by
    simp [List.mem_of_find?_eq_some hr,hrp,hrid,hx,hrlive]
  have hno := List.find?_eq_none.mp hnone r hmem
  rw [hrid,← ha,hv] at hno
  simp at hno

/-- No key that a transaction looked up is another's. -/
structure Inv (s : State ι Key) : Prop where
  keyed : Keyed s.db
  keys : Unique.Inv (screenKey s.db) s.locks

theorem insert_inv {new : Int} {values : List (Int×Json)} (h : Inv s)
    (hmine : s.writer new=some i) :
    Inv (values.foldl (fun s v => s.putValue i new v.1 v.2 true) s) := by
  have hkept : ∀ s : State ι Key, Inv s∧s.writer new=some i → ∀ v∈values,
      Inv (s.putValue i new v.1 v.2 true)∧(s.putValue i new v.1 v.2 true).writer new=some i := by
    intro s hs v _
    exact ⟨⟨hs.1.keyed,putValue_inv hs.1.keys (.inl hs.2) v.1 v.2⟩,hs.2⟩
  exact (Steps.foldl_inv ⟨h,hmine⟩ hkept).1

theorem step_inv {e : Event ι} (h : Inv s) (hok : Tame s e) (hstep : step s e=some t) : Inv t := by
  cases e with
  | share i card =>
    simp only [step,Bool.and_eq_true] at hstep
    split at hstep
    · rename_i hfree
      cases hstep
      exact ⟨h.keyed,share_inv h.keys hfree.1⟩
    · cases hstep
  | update i card attrName norm =>
    obtain ⟨attr,hattr,hstep⟩ := Option.bind_eq_some_iff.mp hstep
    dsimp only at hstep
    split at hstep
    · rename_i hguard
      cases hstep
      obtain ⟨hshared,hmay,hcheck⟩ := hguard
      have hview : Keyed (s.view i) := ⟨h.keyed.ids,h.keyed.names⟩
      have hread : s.locks.Touches i card := .inr hshared
      have hclaim := claimValue_inv h.keys hread attr.id norm rfl hmay
        fun k hk => screenCheck_free hview hattr hk hcheck
      have hdb := claimValue_db s i card attr.id norm (lockOf (s.view i) card attr norm)
      refine ⟨?_,?_⟩
      · rw [hdb]
        exact h.keyed
      · rw [hdb]
        exact hclaim
    · cases hstep
  | insert i c values =>
    simp only [step] at hstep
    split at hstep
    · rename_i hfree
      cases hstep
      have hmade := putCard_inv (s := { s with db := { s.db with nextCardId := s.db.nextCardId+1 } })
        (i := i) h.keys { c with id := s.db.nextCardId, deleted := false } hfree
      exact insert_inv ⟨⟨h.keyed.ids,h.keyed.names⟩,hmade⟩ (Function.update_self ..)
    · cases hstep
  | move i m =>
    obtain ⟨c,-,hstep⟩ := Option.bind_eq_some_iff.mp hstep
    split at hstep
    · rename_i hfree
      cases hstep
      exact ⟨h.keyed,putCard_inv h.keys { c with parentCardId := some m.newParent } hfree⟩
    · cases hstep
  | delete i card =>
    obtain ⟨c,-,hstep⟩ := Option.bind_eq_some_iff.mp hstep
    split at hstep
    · rename_i hfree
      cases hstep
      rw [Bool.and_eq_true] at hfree
      exact ⟨h.keyed,putCard_inv h.keys { c with deleted := true } hfree.1⟩
    · cases hstep
  | undelete i card =>
    obtain ⟨c,-,hstep⟩ := Option.bind_eq_some_iff.mp hstep
    split at hstep
    · rename_i hfree
      cases hstep
      rw [Bool.and_eq_true] at hfree
      exact ⟨h.keyed,putCard_inv h.keys { c with deleted := false } hfree.1⟩
    · cases hstep
  | commit i =>
    cases hstep
    exact ⟨⟨h.keyed.ids,h.keyed.names⟩,commit_inv h.keys hok⟩
  | abort i =>
    cases hstep
    exact ⟨h.keyed,abort_inv h.keys⟩

end Kitp.ScreenNames
