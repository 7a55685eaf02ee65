import Kitp.CardMerge
import Kitp.CardMoveRuns
import Kitp.Lib.Runs
import Kitp.TaskMove

/-! The card tree over runs of `card.insert`, `card.move`, `card.merge` and `task.move`:
no chain of parents gets longer than 14 cards, so the capped walks see all of it. -/
namespace Kitp.CardTree
open Kitp.Store Kitp.Forest Kitp.Runs Kitp.Steps Relation

/-- What the card types are seeded with, and the keys of their table. -/
structure Types (db : Db) : Prop where
  keyed : ∀ t∈db.cardTypes, db.cardType t.id=some t
  named : ∀ t∈db.cardTypes, ∀ u∈db.cardTypes, t.name=u.name → t=u
  project : ∀ t∈db.cardTypes, t.name="project" → t.parentCardTypeId=none∧t.allowSelfParent=false
  task : ∀ t∈db.cardTypes, t.name="task" → t.parentCardTypeId≠none

/-- The tree the operations start from and leave. -/
structure Sound (db : Db) : Prop where
  types : Types db
  keyed : ∀ c∈db.cards, db.card c.id=some c
  fresh : ∀ c∈db.cards, c.id<db.nextCardId
  parents : ∀ c∈db.cards, ∀ p, c.parentCardId=some p → (db.card p).isSome
  projects : ∀ c∈db.cards, db.cardTypeName c=some "project" → c.parentCardId=none
  tasks : ∀ c∈db.cards, db.cardTypeName c=some "task" → c.parentCardId≠none
  short : Bounded db.parent 14

variable {db db' : Db} {x y : Int} {c : Card} {n d : Nat}

theorem card_mem (h : db.card x=some c) : c∈db.cards := List.mem_of_find?_eq_some h

theorem parent_eq (h : db.card x=some c) : db.parent x=c.parentCardId := by
  simp [Db.parent,h]

theorem Types.congr (h : Types db) (htypes : db'.cardTypes=db.cardTypes) : Types db' := by
  have htype : db'.cardType=db.cardType := by
    funext x
    simp only [Db.cardType,htypes]
  refine ⟨?_,?_,?_,?_⟩
  · simpa only [htypes,htype] using h.keyed
  · simpa only [htypes] using h.named
  · simpa only [htypes] using h.project
  · simpa only [htypes] using h.task

/-- Values, flows and the log have no part in it. -/
theorem Sound.congr (h : Sound db) (k : SameCards db db') : Sound db' where
  types := h.types.congr k.cardTypes
  keyed := by simpa only [k.cards,k.card] using h.keyed
  fresh := by simpa only [k.cards,k.nextCardId] using h.fresh
  parents := by simpa only [k.cards,k.card] using h.parents
  projects := by simpa only [k.cards,k.cardTypeName] using h.projects
  tasks := by simpa only [k.cards,k.cardTypeName] using h.tasks
  short := by simpa only [k.parent] using h.short

/-- The chain of a card's row is the chain of its id. -/
theorem Sound.depth_row (h : Sound db) (hd : Depth db.parent x n) (hx : db.card x=some c) :
    Depth db.parentCard c n := by
  induction hd generalizing c with
  | top hp =>
    have hc : c.parentCardId=none := (parent_eq hx).symm.trans hp
    exact .top (by simp [Db.parentCard,hc])
  | @under x y n hp _ ih =>
    have hc : c.parentCardId=some y := (parent_eq hx).symm.trans hp
    obtain ⟨e,he⟩ := Option.isSome_iff_exists.mp (h.parents c (card_mem hx) y hc)
    exact .under (by simp [Db.parentCard,hc,he]) (ih he)

/-- `card_ancestors` counts the whole chain. -/
theorem Sound.length_ancestors (h : Sound db) (hx : (db.card x).isSome) :
    Depth db.parent x (cardAncestors db x).length := by
  obtain ⟨c,hc⟩ := Option.isSome_iff_exists.mp hx
  obtain ⟨n,hn,hd⟩ := h.short x
  have hlen : (walk db.parentCard 17 c).length=n := (h.depth_row hd hc).length_walk (by omega)
  simpa [cardAncestors,hc,hlen] using hd

theorem mem_children {ids : List Int} (hy : y∈ids) (hx : db.parent x=some y) :
    x∈children db ids := by
  obtain ⟨c,hc,hcy⟩ := Option.bind_eq_some_iff.mp hx
  have hid : c.id=x := card_id hc
  simp only [children,List.mem_map,List.mem_filter,List.any_eq_true,decide_eq_true_eq]
  exact ⟨c,⟨card_mem hc,y,hy,hcy⟩,hid⟩

/-- The walk down has a level for every step up to one of its cards. -/
theorem le_length_levels {ids : List Int} (hy : y∈ids) (hup : up db.parent d x=some y)
    (hn : d ≤ n) : d+1 ≤ (levels db n ids).length := by
  induction d generalizing n ids y with
  | zero => cases n <;> simp [levels]
  | succ d ih =>
    cases n with
    | zero => omega
    | succ n =>
      rw [up_succ] at hup
      obtain ⟨z,hz,hzy⟩ := Option.bind_eq_some_iff.mp hup
      have hmem := mem_children hy hzy
      have hne : children db ids≠[] := List.ne_nil_of_mem hmem
      have hlen := ih (n := n) hmem hz (by omega)
      simp only [levels,hne,if_false,List.length_cons]
      omega

theorem mem_levels {ids : List Int} (hy : y∈ids) (hup : up db.parent d x=some y) (hn : d ≤ n) :
    x∈(levels db n ids).flatten := by
  induction d generalizing n ids y with
  | zero =>
    have hxy : x=y := Option.some.inj hup
    subst hxy
    cases n <;> simp [levels,hy]
  | succ d ih =>
    cases n with
    | zero => omega
    | succ n =>
      rw [up_succ] at hup
      obtain ⟨z,hz,hzy⟩ := Option.bind_eq_some_iff.mp hup
      have hmem := mem_children hy hzy
      have hne : children db ids≠[] := List.ne_nil_of_mem hmem
      have hx := ih (n := n) hmem hz (by omega)
      simp only [levels,hne,if_false,List.flatten_cons,List.mem_append]
      exact .inr hx

theorem Sound.up_le (h : Sound db) (hup : up db.parent d x=some y) : d<14 := by
  obtain ⟨n,hn,hd⟩ := h.short x
  obtain ⟨m,hm,hnm⟩ := hd.up_lt hup
  have := hm.pos
  omega

/-- The write functions' `sub` is everything below a card. -/
theorem Sound.mem_subtree (h : Sound db) (hr : Reaches db.parent x y) : x∈subtree db y := by
  obtain ⟨d,hd⟩ := exists_up hr
  have := h.up_le hd
  exact mem_levels (List.mem_singleton_self y) hd (by omega)

/-- Cards that are no projects go under one with room for all that hangs below them. -/
theorem Sound.setParent {moved : Int → Bool} {s : Int} {k : Nat} (h : Sound db)
    (hs : (db.card s).isSome)
    (hkind : ∀ c∈db.cards, moved c.id → db.cardTypeName c≠some "project")
    (habove : ∀ w, moved w → (db.card w).isSome → ¬Reaches db.parent s w)
    (hk : Depth db.parent s k)
    (hroom : ∀ x d w, moved w → (db.card w).isSome → up db.parent d x=some w → d+1+k ≤ 14) :
    Sound (db.setParent moved s) := by
  have hcard := setParent_card db moved s
  have hname (c : Card) : (db.setParent moved s).cardTypeName c=db.cardTypeName c := rfl
  have hrow : ∀ c∈(db.setParent moved s).cards, ∃ c₀∈db.cards,
      c=if moved c₀.id then { c₀ with parentCardId := some s } else c₀ := by
    intro c hc
    obtain ⟨c₀,hc₀,hcc⟩ := List.mem_map.mp hc
    exact ⟨c₀,hc₀,hcc.symm⟩
  have hsome (x : Int) : ((db.setParent moved s).card x).isSome=(db.card x).isSome := by
    rw [hcard,Option.isSome_map]
  refine ⟨h.types.congr rfl,?_,?_,?_,?_,?_,?_⟩
  · intro c hc
    obtain ⟨c₀,hc₀,rfl⟩ := hrow c hc
    rw [hcard]
    by_cases hm : moved c₀.id
    · simp [hm,h.keyed c₀ hc₀]
    · simp [hm,h.keyed c₀ hc₀]
  · intro c hc
    obtain ⟨c₀,hc₀,rfl⟩ := hrow c hc
    have := h.fresh c₀ hc₀
    split <;> exact this
  · intro c hc p hp
    obtain ⟨c₀,hc₀,rfl⟩ := hrow c hc
    rw [hsome]
    split at hp
    · cases hp
      exact hs
    · exact h.parents c₀ hc₀ p hp
  · intro c hc hn
    obtain ⟨c₀,hc₀,rfl⟩ := hrow c hc
    rw [hname] at hn
    split at hn
    · rename_i hm
      exact absurd hn (hkind c₀ hc₀ hm)
    · rename_i hm
      simpa [hm] using h.projects c₀ hc₀ hn
  · intro c hc hn
    obtain ⟨c₀,hc₀,rfl⟩ := hrow c hc
    rw [hname] at hn
    split
    · simp
    · rename_i hm
      rw [if_neg hm] at hn
      exact h.tasks c₀ hc₀ hn
  · refine Bounded.graft (W := fun w => moved w∧(db.card w).isSome) h.short ?_ ?_
      (fun w hw => habove w hw.1 hw.2) hk (fun x d w hw => hroom x d w hw.1 hw.2)
    · intro z hz
      unfold Db.parent
      rw [hcard]
      cases hx : db.card z with
      | none => rfl
      | some e =>
        have hm : ¬moved z := fun hm => hz ⟨hm,by simp [hx]⟩
        simp [hm]
    · intro w hw
      obtain ⟨e,he⟩ := Option.isSome_iff_exists.mp hw.2
      unfold Db.parent
      rw [hcard]
      simp [he,hw.1]

/-- A change of the rows that keeps id, parent and type. -/
theorem Sound.relabel {f : Card → Card} (h : Sound db) (hid : ∀ c, (f c).id=c.id)
    (hparent : ∀ c, (f c).parentCardId=c.parentCardId)
    (htype : ∀ c, (f c).cardTypeId=c.cardTypeId) : Sound (db.mapCards f) := by
  have hcard (x : Int) : (db.mapCards f).card x=(db.card x).map f := mapCards_card hid db x
  have hname (c : Card) : (db.mapCards f).cardTypeName (f c)=db.cardTypeName c := by
    simp only [Db.cardTypeName,htype]
    rfl
  have hup : (db.mapCards f).parent=db.parent := by
    funext x
    unfold Db.parent
    rw [hcard]
    cases db.card x with
    | none => rfl
    | some c => exact hparent c
  have hrow : ∀ c∈(db.mapCards f).cards, ∃ c₀∈db.cards, c=f c₀ := by
    intro c hc
    obtain ⟨c₀,hc₀,hcc⟩ := List.mem_map.mp hc
    exact ⟨c₀,hc₀,hcc.symm⟩
  refine ⟨h.types.congr rfl,?_,?_,?_,?_,?_,?_⟩
  · intro c hc
    obtain ⟨c₀,hc₀,rfl⟩ := hrow c hc
    rw [hid,hcard,h.keyed c₀ hc₀,Option.map_some]
  · intro c hc
    obtain ⟨c₀,hc₀,rfl⟩ := hrow c hc
    rw [hid]
    exact h.fresh c₀ hc₀
  · intro c hc p hp
    obtain ⟨c₀,hc₀,rfl⟩ := hrow c hc
    rw [hparent] at hp
    rw [hcard,Option.isSome_map]
    exact h.parents c₀ hc₀ p hp
  · intro c hc hn
    obtain ⟨c₀,hc₀,rfl⟩ := hrow c hc
    rw [hname] at hn
    rw [hparent]
    exact h.projects c₀ hc₀ hn
  · intro c hc hn
    obtain ⟨c₀,hc₀,rfl⟩ := hrow c hc
    rw [hname] at hn
    rw [hparent]
    exact h.tasks c₀ hc₀ hn
  · rw [hup]
    exact h.short

theorem Sound.fresh_none (h : Sound db) : db.card db.nextCardId=none := by
  cases hx : db.card db.nextCardId with
  | none => rfl
  | some c =>
    have := h.fresh c (card_mem hx)
    rw [card_id hx] at this
    omega

/-- No row names the next id as its parent. -/
theorem Sound.not_reaches_fresh (h : Sound db) (hx : (db.card x).isSome) :
    ¬Reaches db.parent x db.nextCardId := by
  intro hr
  obtain ⟨d,hd⟩ := exists_up hr
  cases d with
  | zero =>
    have hxn : x=db.nextCardId := Option.some.inj hd
    simp [hxn,h.fresh_none] at hx
  | succ d =>
    rw [up_succ] at hd
    obtain ⟨y,_,hy⟩ := Option.bind_eq_some_iff.mp hd
    obtain ⟨e,he,hey⟩ := Option.bind_eq_some_iff.mp hy
    have := h.parents e (card_mem he) _ hey
    simp [h.fresh_none] at this

theorem addCard_parent (hid : c.id=db.nextCardId) (hx : x≠db.nextCardId) :
    (db.addCard c).parent x=db.parent x := by
  unfold Db.parent
  rw [addCard_card,if_neg (hid ▸ Ne.symm hx),Option.or_none]

theorem Sound.addCard_new (h : Sound db) (hid : c.id=db.nextCardId) :
    (db.addCard c).card c.id=some c := by
  rw [addCard_card,hid,h.fresh_none]
  simp

/-- The chains of the cards that are there stay as they were. -/
theorem Sound.depth_addCard (h : Sound db) (hid : c.id=db.nextCardId) (hx : (db.card x).isSome)
    (hd : Depth db.parent x n) : Depth (db.addCard c).parent x n := by
  apply hd.of_agree
  intro z hz
  apply addCard_parent hid
  intro hzn
  exact h.not_reaches_fresh hx (hzn ▸ hz)

/-- Every chain is as short as it was, or is the new card's. -/
theorem Sound.short_addCard (h : Sound db) (hid : c.id=db.nextCardId)
    (hparent : ∀ p, c.parentCardId=some p → (db.card p).isSome∧∃ k<14, Depth db.parent p k) :
    Bounded (db.addCard c).parent 14 := by
  have hnew : (db.addCard c).card c.id=some c := h.addCard_new hid
  have hup (x : Int) (hx : x≠c.id) : (db.addCard c).parent x=db.parent x :=
    addCard_parent hid (hid ▸ hx)
  cases hp : c.parentCardId with
  | none =>
    have hsame : (db.addCard c).parent=db.parent := by
      funext x
      by_cases hx : x=c.id
      · subst hx
        rw [parent_eq hnew,hp]
        have hnone : db.card c.id=none := hid ▸ h.fresh_none
        simp [Db.parent,hnone]
      · exact hup x hx
    rw [hsame]
    exact h.short
  | some p =>
    obtain ⟨hsome,k,hk,hd⟩ := hparent p hp
    refine Bounded.graft (W := (· = c.id)) h.short hup ?_ ?_ hd ?_
    · intro w hw
      subst hw
      rw [parent_eq hnew,hp]
    · intro w hw hreach
      subst hw
      exact h.not_reaches_fresh hsome (hid ▸ hreach)
    · intro x d w hw hd
      subst hw
      cases d with
      | zero => omega
      | succ d =>
        obtain ⟨z,hz,-⟩ := Option.bind_eq_some_iff.mp hd
        obtain ⟨e,he,-⟩ := Option.bind_eq_some_iff.mp hz
        exact absurd (hid ▸ reaches_of_up hd) (h.not_reaches_fresh (x := x) (by simp [he]))

/-- A new card, at the top or under a card with room below it. -/
theorem Sound.addCard (h : Sound db) (hid : c.id=db.nextCardId)
    (hparent : ∀ p, c.parentCardId=some p → (db.card p).isSome∧∃ k<14, Depth db.parent p k)
    (hproject : db.cardTypeName c=some "project" → c.parentCardId=none)
    (htask : db.cardTypeName c=some "task" → c.parentCardId≠none) : Sound (db.addCard c) := by
  have hcard := addCard_card db c
  have hname (e : Card) : (db.addCard c).cardTypeName e=db.cardTypeName e := rfl
  have hold (x : Int) (e : Card) (hx : db.card x=some e) : (db.addCard c).card x=some e := by
    rw [hcard,hx,Option.some_or]
  have hnew : (db.addCard c).card c.id=some c := h.addCard_new hid
  have hmem : ∀ e∈(db.addCard c).cards, e∈db.cards∨e=c := by
    intro e he
    simpa [Db.addCard] using he
  refine ⟨h.types.congr rfl,?_,?_,?_,?_,?_,?_⟩
  · intro e he
    cases hmem e he with
    | inl he => exact hold _ _ (h.keyed e he)
    | inr he => exact he ▸ hnew
  · intro e he
    have hnext : (db.addCard c).nextCardId=db.nextCardId+1 := rfl
    cases hmem e he with
    | inl he =>
      have := h.fresh e he
      omega
    | inr he =>
      subst he
      omega
  · intro e he p hp
    have hsome : (db.card p).isSome := by
      cases hmem e he with
      | inl he => exact h.parents e he p hp
      | inr he => exact (hparent p (he ▸ hp)).1
    obtain ⟨f,hf⟩ := Option.isSome_iff_exists.mp hsome
    simp [hold p f hf]
  · intro e he hn
    rw [hname] at hn
    cases hmem e he with
    | inl he => exact h.projects e he hn
    | inr he => exact he ▸ hproject (he ▸ hn)
  · intro e he hn
    rw [hname] at hn
    cases hmem e he with
    | inl he => exact h.tasks e he hn
    | inr he => exact he ▸ htask (he ▸ hn)
  · exact h.short_addCard hid hparent

section Operations

variable {env : CardInsert.Env} {actor : Int}

/-- The copies made so far, each as deep under the new project as its card is under the
template. -/
structure Copying (db : Db) (s : Db×List (Int×Int)) : Prop where
  sound : Sound s.1
  depth : ∀ o n, (o,n)∈s.2 → (s.1.card n).isSome∧
    ∀ k, Depth db.parent o k → Depth s.1.parent n k
  types : s.1.cardTypes=db.cardTypes

/-- The parent's copy, with its place in the chain of the original. -/
theorem Copying.place {s : Db×List (Int×Int)} {parent : Option Int} {k : Nat} {n : Int}
    (h : Copying db s) (hrow : db.card c.id=some c)
    (hparent : (c.parentCardId=none∧parent=none)∨
      ∃ p n, c.parentCardId=some p∧parent=some n∧s.2.lookup p=some n)
    (hd : Depth db.parent c.id k) (hn : parent=some n) :
    (s.1.card n).isSome∧∃ j, k=j+1∧Depth s.1.parent n j := by
  cases hparent with
  | inl hp => simp [hp.2] at hn
  | inr hp =>
    obtain ⟨p,m,hp,hm,hlookup⟩ := hp
    have hmn : m=n := Option.some.inj (hm.symm.trans hn)
    subst hmn
    have hmem : (p,m)∈s.2 := by
      obtain ⟨l₁,l₂,hl,-⟩ := List.lookup_eq_some_iff.mp hlookup
      simp [hl]
    obtain ⟨hsome,hdepth⟩ := h.depth p m hmem
    cases hd with
    | top ht => simp [parent_eq hrow,hp] at ht
    | @under _ y j hy hj =>
      have hyp : y=p := by
        rw [parent_eq hrow,hp] at hy
        exact (Option.some.inj hy).symm
      exact ⟨hsome,j,rfl,hdepth j (hyp ▸ hj)⟩

theorem Copying.copyCard {s t : Db×List (Int×Int)} (hdb : Sound db) (h : Copying db s)
    (hc : c∈db.cards) (hcopy : TemplateCopy.copyCard actor s c=.ok t) : Copying db t := by
  obtain ⟨parent,a,hparent,_,rfl⟩ := TemplateCopy.copyCard_ok hcopy
  have hname : s.1.cardTypeName ⟨s.1.nextCardId,c.cardTypeId,parent,none,false,c.phase⟩=
      db.cardTypeName c := by
    simp only [Db.cardTypeName,Db.cardType,h.types]
  have hrow : db.card c.id=some c := hdb.keyed c hc
  obtain ⟨k,hk,hd⟩ := hdb.short c.id
  have hplace := fun n (hn : parent=some n) => h.place hrow hparent hd hn
  have hsound : Sound (s.1.addCard ⟨s.1.nextCardId,c.cardTypeId,parent,none,false,c.phase⟩) := by
    apply h.sound.addCard rfl
    · intro n hn
      obtain ⟨hsome,j,hj,hdj⟩ := hplace n hn
      exact ⟨hsome,j,by omega,hdj⟩
    · intro hp
      rw [hname] at hp
      have hnone := hdb.projects c hc hp
      cases hparent with
      | inl hq => exact hq.2
      | inr hq =>
        obtain ⟨p,n,hq,-⟩ := hq
        simp [hnone] at hq
    · intro ht
      rw [hname] at ht
      have hne := hdb.tasks c hc ht
      cases hparent with
      | inl hq => exact absurd hq.1 hne
      | inr hq =>
        obtain ⟨p,n,-,hq,-⟩ := hq
        simp [hq]
  refine ⟨hsound.congr ⟨rfl,rfl,rfl,rfl,rfl⟩,?_,h.types⟩
  have hnew := h.sound.addCard_new (c := ⟨s.1.nextCardId,c.cardTypeId,parent,none,false,c.phase⟩) rfl
  intro o n hon
  cases List.mem_append.mp hon with
  | inl hon =>
    obtain ⟨hsome,hdepth⟩ := h.depth o n hon
    refine ⟨?_,fun j hj => h.sound.depth_addCard rfl hsome (hdepth j hj)⟩
    obtain ⟨e,he⟩ := Option.isSome_iff_exists.mp hsome
    change ((s.1.addCard _).card n).isSome
    rw [addCard_card,he]
    rfl
  | inr hon =>
    have hon := List.mem_singleton.mp hon
    cases hon
    refine ⟨Option.isSome_iff_exists.mpr ⟨_,hnew⟩,fun j hj => ?_⟩
    have hjk := hj.unique hd
    subst hjk
    have hup := parent_eq hnew
    cases parent with
    | none =>
      cases hparent with
      | inl hp =>
        have hone : Depth db.parent c.id 1 := .top (by rw [parent_eq hrow,hp.1])
        have hj1 := hj.unique hone
        subst hj1
        exact .top hup
      | inr hp =>
        obtain ⟨p,m,-,hm,-⟩ := hp
        cases hm
    | some n =>
      obtain ⟨hsome,i,hi,hdi⟩ := hplace n rfl
      subst hi
      exact .under hup (h.sound.depth_addCard rfl hsome hdi)

theorem Sound.copyProjectTemplate {parse : String → Option Json} {areas : Visibility.Areas}
    {template new : Int} (h : Sound db) (ht : Depth db.parent template 1)
    (hn : Depth db.parent new 1) (hnew : (db.card new).isSome)
    (hcopy : TemplateCopy.copyProjectTemplate parse areas db actor template new=.ok db') :
    Sound db' := by
  obtain ⟨copy,remap,withFlows,value,-,hcards,hflows,rfl⟩ := TemplateCopy.copyProjectTemplate_ok parse areas db hcopy
  have hstart : Copying db (db,[(template,new)]) := by
    refine ⟨h,?_,rfl⟩
    intro o n hon
    have hon := List.mem_singleton.mp hon
    cases hon
    refine ⟨hnew,fun k hk => ?_⟩
    have hk1 := hk.unique ht
    exact hk1 ▸ hn
  have hcopied : Copying db (copy,remap) :=
    foldlM_inv hcards hstart fun s c t hs hc hst =>
      hs.copyCard h (TemplateCopy.mem_descendants areas db hc) hst
  have hwith : SameCards copy withFlows := by
    rw [hflows]
    exact (TemplateCopy.copyFlows_keep remap new copy _).1
  exact foldl_inv (I := Sound) (hcopied.sound.congr hwith)
    fun s hs a _ => hs.congr (Attributes.writeValue_keeps s actor _ _ _ _)

theorem Sound.insert {input : CardInsert.Input} (h : Sound db)
    (hi : CardInsert.insert env db actor input=.ok db') : Sound db' := by
  obtain ⟨w,stamped,hw,hstamp,rfl⟩ := CardInsert.insert_ok hi
  obtain ⟨htype,-,hrule,-,-,-⟩ := CardInsert.prepare_ok hw
  let row : Card := ⟨db.nextCardId,w.cardType.id,w.parent,w.privateTo,false,w.phase⟩
  have hname : db.cardTypeName row=some w.cardType.name := by
    simp [Db.cardTypeName,row,h.types.keyed _ htype]
  have hadd : Sound (db.addCard row) := by
    apply h.addCard rfl
    · intro p hp
      cases CardInsert.parentRule_ok hrule with
      | inl hr => simp [row,hr.1] at hp
      | inr hr =>
        obtain ⟨q,hq,hsome,-,hlen⟩ := hr
        have hqp : q=p := Option.some.inj (hq.symm.trans hp)
        subst hqp
        exact ⟨hsome,_,hlen,h.length_ancestors hsome⟩
    · intro hp
      rw [hname] at hp
      have hseed := h.types.project _ htype (Option.some.inj hp)
      cases CardInsert.parentRule_ok hrule with
      | inl hr => exact hr.1
      | inr hr =>
        obtain ⟨q,-,-,hkind,-⟩ := hr
        simp [hseed] at hkind
    · intro ht hnone
      rw [hname] at ht
      have hseed := h.types.task _ htype (Option.some.inj ht)
      cases CardInsert.parentRule_ok hrule with
      | inl hr => exact hseed hr.2
      | inr hr =>
        obtain ⟨q,hq,-⟩ := hr
        exact absurd (hq.symm.trans hnone) (by simp)
  have hwrite : SameCards (db.addCard row) (CardInsert.write db actor w) :=
    CardInsert.write_inv (I := SameCards (db.addCard row)) ⟨rfl,rfl,rfl,rfl,rfl⟩
      fun s hs a _ => hs.trans (Attributes.writeValue_keeps s actor _ _ _ _)
  have hwritten : Sound (CardInsert.write db actor w) := hadd.congr hwrite
  have hstamped : Sound stamped := by
    cases CardInsert.stamp_ok hstamp with
    | inl hs => exact hs ▸ hwritten
    | inr hs =>
      obtain ⟨template,hp,ht,hcopy⟩ := hs
      obtain ⟨c,hc,hid,hproject,-⟩ := CardInsert.standardTemplate_project ht
      have htop : Depth (CardInsert.write db actor w).parent template 1 := by
        have hrow := hwritten.keyed c hc
        rw [hid] at hrow
        exact .top ((parent_eq hrow).trans (hwritten.projects c hc hproject))
      have hrow : (CardInsert.write db actor w).card db.nextCardId=some row := by
        rw [hwrite.card]
        exact h.addCard_new rfl
      have hnew : Depth (CardInsert.write db actor w).parent db.nextCardId 1 := by
        refine .top ((parent_eq hrow).trans (hwritten.projects row (card_mem hrow) ?_))
        rw [hwrite.cardTypeName]
        exact hname.trans (congrArg some hp)
      exact hwritten.copyProjectTemplate htop hnew (by simp [hrow]) hcopy
  exact CardInsert.assign_inv hstamped
    fun person d _ _ => hstamped.congr (Attributes.writeValue_keeps _ actor _ _ _ _)

theorem Sound.move {acc : Access} {input : CardMove.Input} (h : Sound db)
    (hm : CardMove.move acc actor db input=.ok db') : Sound db' := by
  obtain ⟨m,c,t,-,hc,ht,hkind,hparent,hcycle,hdepth,-,a,rfl⟩ := CardMove.move_ok hm
  have hanc := h.length_ancestors hparent
  obtain ⟨k,hk,hd⟩ := h.short m.newParent
  have hlen := hanc.unique hd
  have hmoved : Sound (db.setParent (· = m.cardId) m.newParent) := by
    apply h.setParent hparent
    · intro e he hem hproject
      have hem : e.id=m.cardId := by simpa using hem
      have hec : e=c := by
        have hrow := h.keyed e he
        rw [hem,hc] at hrow
        exact (Option.some.inj hrow).symm
      subst hec
      have hname : t.name="project" := by simpa [Db.cardTypeName,ht] using hproject
      have hseed := h.types.project t (List.mem_of_find?_eq_some ht) hname
      simp [hseed] at hkind
    · intro w hw _
      have hw : w=m.cardId := by simpa using hw
      subst hw
      exact CardMove.not_above_of_cycle_ok hcycle (by omega) (by simp [hc])
    · exact hanc
    · intro x d w hw _ hup
      have hw : w=m.cardId := by simpa using hw
      subst hw
      have hd16 := h.up_le hup
      have hsub := le_length_levels (n := 16) (List.mem_singleton_self m.cardId) hup (by omega)
      unfold subtreeDepth at hdepth
      omega
  exact hmoved.congr ⟨rfl,rfl,rfl,rfl,rfl⟩

theorem Sound.merge {input : CardMerge.Input} (h : Sound db)
    (hm : CardMerge.merge env db actor input=.ok db') : Sound db' := by
  obtain ⟨survivor,losers,-,hnot,hsome,hcheck,rfl⟩ := CardMerge.merge_ok hm
  have hanc := h.length_ancestors hsome
  obtain ⟨k,hk,hd⟩ := h.short survivor
  have hlen := hanc.unique hd
  -- a moved card is a row under a loser
  have hunder : ∀ w, w∈(CardMerge.orphans db losers).map (·.id) →
      ∃ o l, db.card w=some o∧o.parentCardId=some l∧l∈losers := by
    intro w hw
    obtain ⟨o,ho,hid⟩ := List.mem_map.mp hw
    obtain ⟨hmem,hl⟩ := List.mem_filter.mp ho
    simp only [Bool.and_eq_true] at hl
    obtain ⟨l,hl,hlosers⟩ := (Option.any_eq_true _ _).mp hl.2
    exact ⟨o,l,hid ▸ h.keyed o hmem,hl,by simpa using hlosers⟩
  have hroom (w : Int) (hw : w∈(CardMerge.orphans db losers).map (·.id)) :=
    CardMerge.orphansCheck_ok hcheck (by
      intro hnil
      simp [hnil] at hw)
  have hadopt : Sound (db.setParent (· ∈ (CardMerge.orphans db losers).map (·.id)) survivor) := by
    apply h.setParent hsome
    · intro e he hem hproject
      have hem : e.id∈(CardMerge.orphans db losers).map (·.id) := by simpa using hem
      obtain ⟨o,l,ho,hl,-⟩ := hunder e.id hem
      have heo := Option.some.inj ((h.keyed e he).symm.trans ho)
      subst heo
      simp [h.projects e he hproject] at hl
    · intro w hw _ hreach
      have hw : w∈(CardMerge.orphans db losers).map (·.id) := by simpa using hw
      obtain ⟨o,l,ho,hl,hlosers⟩ := hunder w hw
      obtain ⟨b,hb⟩ := Option.isSome_iff_exists.mp (h.parents o (card_mem ho) l hl)
      have hup : Reaches db.parent survivor l :=
        hreach.tail (show db.parent w=some l from (parent_eq ho).trans hl)
      have hne : survivor≠l := fun hsl => hnot (hsl ▸ hlosers)
      have hmem := mem_cardAncestors (by omega) hup hne hb
      exact (hroom w hw).1 b hmem ((card_id hb).symm ▸ hlosers)
    · exact hanc
    · intro x d w hw _ hup
      have hw : w∈(CardMerge.orphans db losers).map (·.id) := by simpa using hw
      have hd16 := h.up_le hup
      have hsub := le_length_levels (n := 16) hw hup (by omega)
      have hfit := (hroom w hw).2
      omega
  have hadopted : Sound (CardMerge.adopt db actor survivor losers) :=
    hadopt.congr ⟨rfl,rfl,rfl,rfl,rfl⟩
  have howned := hadopted.relabel (f := fun c =>
    if c.privateTo.any (· ∈ losers) then { c with privateTo := some survivor } else c)
    (by intro c; split <;> rfl) (by intro c; split <;> rfl) (by intro c; split <;> rfl)
  have hgone := howned.relabel (f := fun c => if c.id∈losers then { c with deleted := true } else c)
    (by intro c; split <;> rfl) (by intro c; split <;> rfl) (by intro c; split <;> rfl)
  exact hgone.congr ⟨rfl,rfl,rfl,rfl,rfl⟩

/-- One more task placed under the project, which is at the top. -/
theorem Sound.place (actor : Int) {w : TaskMove.Checked} {p : Card} {m : Int} (h : Sound db)
    (hp : db.card w.request.project=some p) (htop : p.parentCardId=none)
    (hm : ∀ c, db.card m=some c → c.parentCardId≠none) :
    Sound (TaskMove.place db actor w m)∧
      (TaskMove.place db actor w m).card w.request.project=some p := by
  have hroot : db.parent w.request.project=none := (parent_eq hp).trans htop
  have hne : w.request.project≠m := fun hpm => hm p (hpm ▸ hp) htop
  have hplaced : Sound (db.setParent (· = m) w.request.project) := by
    apply h.setParent (k := 1) (by simp [hp])
    · intro e he hem hproject
      have hem : e.id=m := by simpa using hem
      exact hm e (hem ▸ h.keyed e he) (h.projects e he hproject)
    · intro z hz _ hreach
      have hz : z=m := by simpa using hz
      cases ReflTransGen.cases_head hreach with
      | inl hpz => exact hne (hpz.trans hz)
      | inr hpz =>
        obtain ⟨y,hy,-⟩ := hpz
        simp [Up,hroot] at hy
    · exact .top hroot
    · intro x d z hz hsome hup
      have hz : z=m := by simpa using hz
      subst hz
      obtain ⟨e,he⟩ := Option.isSome_iff_exists.mp hsome
      obtain ⟨n,hn,hd⟩ := h.short x
      obtain ⟨j,hj,hnj⟩ := hd.up_lt hup
      cases hj with
      | top ht => exact absurd ((parent_eq he).symm.trans ht) (hm e he)
      | under _ hj =>
        have := hj.pos
        omega
  have hkeeps := TaskMove.place_keeps db actor w m
  refine ⟨hplaced.congr hkeeps,?_⟩
  rw [hkeeps.card,setParent_card,hp]
  simp [hne]

theorem Sound.taskMove {input : TaskMove.Input} (h : Sound db)
    (hm : TaskMove.taskMove env db actor input=.ok db') : Sound db' := by
  obtain ⟨w,hw,rfl⟩ := TaskMove.taskMove_ok hm
  obtain ⟨hcard,htask,⟨p,hp,hproject⟩,hmoved⟩ := TaskMove.prepare_ok hw
  have htop := h.projects p (card_mem hp) hproject
  have hparents : ∀ m∈w.moved, ∀ c, db.card m=some c → c.parentCardId≠none := by
    intro m hm c hc
    rw [hmoved] at hm
    cases TaskMove.mem_movedIds hm with
    | inl hm =>
      rw [hm,card_id hcard,hcard] at hc
      cases hc
      exact h.tasks _ (card_mem hcard) htask
    | inr hm =>
      obtain ⟨e,he,hid,hparent,hsome⟩ := hm
      have hrow := h.keyed e he
      rw [hid,hc] at hrow
      cases hrow
      intro hnone
      simp [← hparent,hnone] at hsome
  have hplaced : Sound (w.moved.foldl (TaskMove.place · actor w) db)∧
      (w.moved.foldl (TaskMove.place · actor w) db).card w.request.project=some p∧
      ∀ m∈w.moved, ∀ c, (w.moved.foldl (TaskMove.place · actor w) db).card m=some c →
        c.parentCardId≠none := by
    refine foldl_inv (I := fun s => Sound s∧s.card w.request.project=some p∧
      ∀ m∈w.moved, ∀ c, s.card m=some c → c.parentCardId≠none) ⟨h,hp,hparents⟩ ?_
    intro s hs m hm
    obtain ⟨hs,hsp,hsm⟩ := hs
    have hstep := hs.place actor hsp htop (hsm m hm)
    refine ⟨hstep.1,hstep.2,?_⟩
    intro m' hm' c hc
    rw [(TaskMove.place_keeps s actor w m).card,setParent_card] at hc
    obtain ⟨e,he,hec⟩ := Option.map_eq_some_iff.mp hc
    have := hsm m' hm' e he
    subst hec
    split
    · simp
    · exact this
  exact hplaced.1.congr TaskMove.apply_keeps

end Operations

/-- One call, with the accounts, the areas and the rest as it finds them. -/
inductive Op where
  | insert (env : CardInsert.Env) (actor : Int) (input : CardInsert.Input)
  | move (acc : Access) (actor : Int) (input : CardMove.Input)
  | merge (env : CardInsert.Env) (actor : Int) (input : CardMerge.Input)
  | taskMove (env : CardInsert.Env) (actor : Int) (input : TaskMove.Input)

/-- What the call leaves when it succeeds. -/
def step (db : Db) : Op → Option Db
  | .insert env actor input => (CardInsert.insert env db actor input).toOption
  | .move acc actor input => (CardMove.move acc actor db input).toOption
  | .merge env actor input => (CardMerge.merge env db actor input).toOption
  | .taskMove env actor input => (TaskMove.taskMove env db actor input).toOption

theorem step_sound (db : Db) (op : Op) (db' : Db) (h : Sound db) (hs : step db op=some db') :
    Sound db' := by
  cases op with
  | insert env actor input => exact h.insert (ok_of_toOption hs)
  | move acc actor input => exact h.move (ok_of_toOption hs)
  | merge env actor input => exact h.merge (ok_of_toOption hs)
  | taskMove env actor input => exact h.taskMove (ok_of_toOption hs)

/-- The cards the server reads ahead: the given ones and those above them. -/
def expandCardLookup (db : Db) (seeds : List Int) (id : Int) : Option Card :=
  (seeds.flatMap (cardAncestors db)).find? (·.id=id)

def scopeWalkDepth : Nat := 16

/-- The server's own walk to the project; 0 when it meets none. -/
def resolveTargetProject (projectCardTypeId : Int) (lookup : Int → Option Card) : Nat → Int → Int
  | 0,_ => 0
  | n+1,cur =>
    match lookup cur with
    | none => 0
    | some info =>
      if info.cardTypeId=projectCardTypeId then cur
      else match info.parentCardId with
        | none => 0
        | some parent => resolveTargetProject projectCardTypeId lookup n parent

theorem Types.name_iff {t : CardType} (h : Types db) (ht : t∈db.cardTypes)
    (hname : t.name="project") : c.cardTypeId=t.id↔db.cardTypeName c=some "project" := by
  constructor
  · intro hc
    simp [Db.cardTypeName,hc,h.keyed t ht,hname]
  · intro hc
    obtain ⟨u,hu,hun⟩ := Option.map_eq_some_iff.mp hc
    have hut : u=t := h.named u (List.mem_of_find?_eq_some hu) t ht (hun.trans hname.symm)
    have hid : u.id=c.cardTypeId := by simpa using List.find?_some hu
    rw [← hut,hid]

/-- What leads to a card is a card. -/
theorem row_below (hr : Reaches db.parent x y) (hy : (db.card y).isSome) : (db.card x).isSome := by
  cases ReflTransGen.cases_head hr with
  | inl hr => exact hr ▸ hy
  | inr hr =>
    obtain ⟨z,hz,-⟩ := hr
    obtain ⟨c,hc,-⟩ := Option.bind_eq_some_iff.mp hz
    simp [hc]

theorem Sound.row_above (h : Sound db) (hr : Reaches db.parent x y) (hx : (db.card x).isSome) :
    (db.card y).isSome := by
  cases ReflTransGen.cases_tail hr with
  | inl hr => exact hr ▸ hx
  | inr hr =>
    obtain ⟨z,-,hz⟩ := hr
    obtain ⟨c,hc,hcy⟩ := Option.bind_eq_some_iff.mp hz
    exact h.parents c (card_mem hc) y hcy

theorem Sound.mem_ancestors (h : Sound db) {p : Card} (hr : Reaches db.parent x y)
    (hy : db.card y=some p) : p∈cardAncestors db x := by
  by_cases hxy : x=y
  · subst hxy
    simp [cardAncestors,hy,walk]
  · have hx : (db.card x).isSome := row_below hr (by simp [hy])
    obtain ⟨n,hn,hd⟩ := h.short x
    have hlen := (h.length_ancestors hx).unique hd
    exact mem_cardAncestors (by omega) hr hxy hy

theorem ancestor_row {p : Card} (hp : p∈cardAncestors db x) :
    db.card p.id=some p∧∃ c, db.card x=some c∧Reaches db.parentCard c p := by
  cases hc : db.card x with
  | none => simp [cardAncestors,hc] at hp
  | some c =>
    have hreach : Reaches db.parentCard c p := reaches_of_mem_walk (by simpa [cardAncestors,hc] using hp)
    refine ⟨?_,c,rfl,hreach⟩
    cases ReflTransGen.cases_tail hreach with
    | inl hpc =>
      subst hpc
      exact (card_id hc).symm ▸ hc
    | inr hpc =>
      obtain ⟨d,-,hdp⟩ := hpc
      obtain ⟨q,-,hq⟩ := Option.bind_eq_some_iff.mp hdp
      exact (card_id hq).symm ▸ hq

/-- The walk of the database finds the one project above. -/
theorem Sound.enclosing (h : Sound db) {p : Card} (hr : Reaches db.parent x y)
    (hy : db.card y=some p) (hp : db.cardTypeName p=some "project") :
    cardEnclosingProject db x=some y := by
  have hmem := h.mem_ancestors hr hy
  cases hq : (cardAncestors db x).find? (db.cardTypeName ·=some "project") with
  | none =>
    have := List.find?_eq_none.mp hq p hmem
    simp [hp] at this
  | some q =>
    have hqmem := List.mem_of_find?_eq_some hq
    have hqp : db.cardTypeName q=some "project" := by simpa using List.find?_some hq
    obtain ⟨hqrow,c,hc,hcq⟩ := ancestor_row hqmem
    have hcp := reaches_rows hr hc hy
    have htop (e : Card) (he : db.card e.id=some e) (hn : db.cardTypeName e=some "project") :
        db.parentCard e=none := by
      simp [Db.parentCard,h.projects e (card_mem he) hn]
    have hpq : q=p := top_unique hcq hcp (htop q hqrow hqp) (htop p ((card_id hy).symm ▸ hy) hp)
    simp [cardEnclosingProject,hq,hpq,card_id hy]

theorem reaches_ids {c p : Card} (h : Reaches db.parentCard c p) (hc : db.card c.id=some c) :
    Reaches db.parent c.id p.id := by
  induction h using ReflTransGen.head_induction_on with
  | refl => exact .refl
  | @head c e hce _ ih =>
    obtain ⟨q,hq,he⟩ := Option.bind_eq_some_iff.mp hce
    have hid : e.id=q := card_id he
    subst hid
    have hup : db.parent c.id=some e.id := (parent_eq hc).trans hq
    exact .head hup (ih he)

theorem Sound.enclosing_iff (h : Sound db) : cardEnclosingProject db x=some y↔
    Reaches db.parent x y∧∃ p, db.card y=some p∧db.cardTypeName p=some "project" := by
  constructor
  · intro hx
    obtain ⟨p,hp,hpy⟩ := Option.map_eq_some_iff.mp hx
    have hname : db.cardTypeName p=some "project" := by simpa using List.find?_some hp
    obtain ⟨hrow,c,hc,hreach⟩ := ancestor_row (List.mem_of_find?_eq_some hp)
    have hcx : c.id=x := card_id hc
    subst hcx
    subst hpy
    exact ⟨reaches_ids hreach hc,p,hrow,hname⟩
  · intro hx
    obtain ⟨hr,p,hp,hname⟩ := hx
    exact h.enclosing hr hp hname

/-- A card is in the project of any card above it. -/
theorem Sound.enclosing_above (h : Sound db) (hr : Reaches db.parent x y) :
    cardEnclosingProject db x=cardEnclosingProject db y := by
  ext z
  rw [h.enclosing_iff,h.enclosing_iff]
  constructor
  · intro hz
    obtain ⟨hxz,p,hp,hname⟩ := hz
    have hunique : Relator.RightUnique (Up db.parent) := fun a b c hab hac =>
      Option.some.inj (Eq.trans (Eq.symm hab) hac)
    cases ReflTransGen.total_of_right_unique hunique hr hxz with
    | inl hyz => exact ⟨hyz,p,hp,hname⟩
    | inr hzy =>
      -- nothing is above a project
      cases ReflTransGen.cases_head hzy with
      | inl hzy => exact ⟨hzy ▸ .refl,p,hp,hname⟩
      | inr hzw =>
        obtain ⟨w,hw,-⟩ := hzw
        have hw : db.parent z=some w := hw
        simp [parent_eq hp,h.projects p (card_mem hp) hname] at hw
  · intro hz
    obtain ⟨hyz,hp⟩ := hz
    exact ⟨hr.trans hyz,hp⟩

/-- So does the server's. -/
theorem Sound.resolve (h : Sound db) {p : Card} {t : CardType} {lookup : Int → Option Card}
    (ht : t∈db.cardTypes) (hname : t.name="project")
    (hlookup : ∀ z, Reaches db.parent x z → lookup z=db.card z)
    (hr : Reaches db.parent x y) (hy : db.card y=some p) (hp : db.cardTypeName p=some "project")
    (hd : Depth db.parent x n) {fuel : Nat} (hn : n ≤ fuel) :
    resolveTargetProject t.id lookup fuel x=y := by
  induction hd generalizing fuel with
  | @top x hx =>
    have hxy : x=y := by
      cases ReflTransGen.cases_head hr with
      | inl hr => exact hr
      | inr hr =>
        obtain ⟨z,hz,-⟩ := hr
        have hz : db.parent x=some z := hz
        simp [hx] at hz
    subst hxy
    cases fuel with
    | zero => omega
    | succ fuel =>
      have hid := (h.types.name_iff ht hname).mpr hp
      simp [resolveTargetProject,hlookup x .refl,hy,hid]
  | @under x z n hxz _ ih =>
    cases fuel with
    | zero => omega
    | succ fuel =>
      obtain ⟨c,hc,hcz⟩ := Option.bind_eq_some_iff.mp hxz
      have hne : c.cardTypeId≠t.id := by
        intro hct
        have hnone := h.projects c (card_mem hc) ((h.types.name_iff ht hname).mp hct)
        simp [hnone] at hcz
      have hzy : Reaches db.parent z y := by
        cases ReflTransGen.cases_head hr with
        | inl hxy =>
          subst hxy
          have hcp := Option.some.inj (hc.symm.trans hy)
          exact absurd ((h.types.name_iff ht hname).mpr (hcp ▸ hp)) hne
        | inr hr =>
          obtain ⟨v,hv,hvy⟩ := hr
          have hvz : v=z := Option.some.inj (Eq.trans (Eq.symm hv) hxz)
          exact hvz ▸ hvy
      have hnext := ih (fun v hv => hlookup v (.head hxz hv)) hzy (show n ≤ fuel by omega)
      simp [resolveTargetProject,hlookup x .refl,hc,hne,hcz,hnext]

/-- The rows read ahead for a card are those above it. -/
theorem Sound.lookup_eq (h : Sound db) {seeds : List Int} {z : Int} (hx : x∈seeds)
    (hr : Reaches db.parent x z) (hz : (db.card z).isSome) :
    expandCardLookup db seeds z=db.card z := by
  obtain ⟨p,hp⟩ := Option.isSome_iff_exists.mp hz
  have hmem : p∈seeds.flatMap (cardAncestors db) :=
    List.mem_flatMap.mpr ⟨x,hx,h.mem_ancestors hr hp⟩
  cases hq : expandCardLookup db seeds z with
  | none =>
    have := List.find?_eq_none.mp hq p hmem
    simp [card_id hp] at this
  | some q =>
    have hid : q.id=z := by simpa using List.find?_some hq
    obtain ⟨v,-,hv⟩ := List.mem_flatMap.mp (List.mem_of_find?_eq_some hq)
    have hrow := (ancestor_row hv).1
    rw [hid] at hrow
    exact hrow.symm

/-- From a sound tree every run leaves chains of at most 14 cards without a cycle, and
every walk to a card's project, in the database and on the server, gets there. -/
theorem chains_stay_short {start db : Db} {ops : List Op} (h : Sound start)
    (hrun : Run step (fun _ _ => True) start ops db) :
    Acyclic db.parent∧(∀ c∈db.cards, ∀ n, (walk db.parentCard n c).length ≤ 14)∧
    ∀ x y p, Reaches db.parent x y → db.card y=some p → db.cardTypeName p=some "project" →
      p∈cardAncestors db x∧cardEnclosingProject db x=some y∧
      ∀ t∈db.cardTypes, t.name="project" → ∀ seeds, x∈seeds →
        resolveTargetProject t.id (expandCardLookup db seeds) scopeWalkDepth x=y := by
  have hdb : Sound db := hrun.inv Sound (fun s op s' hs _ hstep => step_sound s op s' hs hstep) h
  refine ⟨hdb.short.acyclic,?_,?_⟩
  · intro c hc n
    obtain ⟨k,hk,hd⟩ := hdb.short c.id
    exact ((hdb.depth_row hd (hdb.keyed c hc)).length_walk_le n).trans hk
  · intro x y p hr hy hp
    refine ⟨hdb.mem_ancestors hr hy,hdb.enclosing hr hy hp,?_⟩
    intro t ht hname seeds hx
    obtain ⟨n,hn,hd⟩ := hdb.short x
    apply hdb.resolve ht hname ?_ hr hy hp hd (hn.trans (by decide))
    intro z hz
    have hrow : (db.card x).isSome := row_below hr (by simp [hy])
    exact hdb.lookup_eq hx hz (hdb.row_above hz hrow)

/-- A tree of two levels. -/
theorem short_of_flat (h : ∀ c∈db.cards, ∀ p, c.parentCardId=some p → db.parent p=none) :
    Bounded db.parent 14 := by
  intro x
  cases hx : db.parent x with
  | none => exact ⟨1,by decide,.top hx⟩
  | some p =>
    obtain ⟨c,hc,hcp⟩ := Option.bind_eq_some_iff.mp hx
    exact ⟨2,by decide,.under hx (.top (h c (card_mem hc) p hcp))⟩

/-- A project with one task. -/
def board : Db where
  cardTypes := [⟨1,"project",none,false⟩,⟨2,"task",some 1,true⟩]
  attributeDefs := [⟨7,"title",.text,none,none⟩]
  cards := [⟨1,1,none,none,false,.triage⟩,⟨2,2,some 1,none,false,.triage⟩]
  edges := [⟨1,7,true,0⟩,⟨2,7,true,0⟩]
  nextCardId := 3

def everyone : CardInsert.Env := ⟨CardMove.allowed,⟨[],[],[],[]⟩,⟨[],[],[]⟩,fun _ => none⟩

/-- A second task is made in the project and goes under the first. -/
def nested : List Op :=
  [.insert everyone 7 ⟨some "task",some 1,some "Paint","",[],List.nodup_nil,none,false,false⟩,
    .move CardMove.allowed 7 ⟨some 3,some 2⟩]

theorem board_sound : Sound board where
  types := ⟨by decide,by decide,by decide,by decide⟩
  keyed := by decide
  fresh := by decide
  parents := by decide
  projects := by decide
  tasks := by decide
  short := short_of_flat (by decide)

theorem nested_stays_short : ∃ db, Run step (fun _ _ => True) board nested db∧
    db.parent 3=some 2∧Acyclic db.parent∧cardEnclosingProject db 3=some 1 := by
  have hend : (nested.foldlM step board).map (fun db => (db.cards,db.cardTypes))=
      some ([⟨1,1,none,none,false,.triage⟩,⟨2,2,some 1,none,false,.triage⟩,
        ⟨3,2,some 2,none,false,.triage⟩],board.cardTypes) := rfl
  obtain ⟨db,hdb,hend⟩ := Option.map_eq_some_iff.mp hend
  simp only [Prod.mk.injEq] at hend
  obtain ⟨hcards,htypes⟩ := hend
  have hrun : Run step (fun _ _ => True) board nested db :=
    Run.of_foldlM hdb fun _ _ _ => trivial
  obtain ⟨hacyclic,-,hfound⟩ := chains_stay_short board_sound hrun
  have h3 : db.parent 3=some 2 := by simp [Db.parent,Db.card,hcards]
  have h2 : db.parent 2=some 1 := by simp [Db.parent,Db.card,hcards]
  have hproject := hfound 3 1 ⟨1,1,none,none,false,.triage⟩ (.head h3 (.single h2))
    (by simp [Db.card,hcards]) (by simp [Db.cardTypeName,Db.cardType,htypes,board])
  exact ⟨db,hrun,h3,hacyclic,hproject.2.1⟩

end Kitp.CardTree
