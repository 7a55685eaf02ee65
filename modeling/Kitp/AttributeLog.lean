import Kitp.CardMerge
import Kitp.CardMoveRuns
import Kitp.Lib.Ledger
import Kitp.TaskMove

/-! The activity log against the stored values, over runs of `card.insert`,
`attribute.update`, `card.merge` and `task.move`: which steps leave the log a replay of
what the cards hold. -/
namespace Kitp.AttributeLog
open Kitp.Store Kitp.Ledger Kitp.Runs Kitp.Steps

/-- What a card holds; a cleared value is kept as null. -/
def held (db : Db) (k : Int×Int) : Option Json := (db.value k.1 k.2).filter (·≠.null)

/-- The change an activity row records. -/
def change (a : Activity) : Option ((Int×Int)×Option Json) :=
  a.attributeDefId.map fun d => ((a.cardId,d),a.valueNew.filter (·≠.null))

def changes (log : List Activity) : List ((Int×Int)×Option Json) := log.filterMap change

/-- Each card holds what the newest activity on the attribute says, and nothing when there
is none or it cleared the value. -/
def Matches (db : Db) : Prop :=
  ∀ k, held db k=(newest (changes db.activity) k).join

/-- What the second state holds is what the first did with the new activities replayed. -/
def Follows (db db' : Db) : Prop :=
  ∃ new, db'.activity=db.activity++new∧held db'=replay (held db) (changes new)

variable {db db' db'' : Db} {c d : Int} {v : Json}

theorem Follows.refl (db : Db) : Follows db db := ⟨[],by simp,rfl⟩

theorem Follows.trans (h : Follows db db') (k : Follows db' db'') : Follows db db'' := by
  obtain ⟨new,hnew,hheld⟩ := h
  obtain ⟨more,hmore,hheld'⟩ := k
  refine ⟨new++more,?_,?_⟩
  · rw [hmore,hnew,List.append_assoc]
  · rw [hheld',hheld,changes,changes,changes,List.filterMap_append,replay_append]

theorem Follows.matches (h : Follows db db') (hm : Matches db) : Matches db' := by
  obtain ⟨new,hnew,hheld⟩ := h
  intro k
  have hchanges : changes db'.activity=changes db.activity++changes new := by
    rw [hnew,changes,changes,changes,List.filterMap_append]
  rw [hheld,replay_eq,hm k,hchanges,newest_append]
  cases newest (changes new) k <;> rfl

/-- Rows without an attribute go with values that stay. -/
theorem Follows.of_held {l : List Activity} (ha : db'.activity=db.activity++l)
    (hl : ∀ a∈l, a.attributeDefId=none) (hv : held db'=held db) : Follows db db' := by
  have hnone : changes l=[] := by
    simp only [changes,List.filterMap_eq_nil_iff]
    intro a ha
    simp [change,hl a ha]
  exact ⟨l,ha,by rw [hnone,replay_nil,hv]⟩

theorem held_congr (h : db'.values=db.values) : held db'=held db := by
  funext k
  simp only [held,Db.value,h]

theorem Follows.writeValue (db : Db) (actor c d : Int) (old : Option Json) (v : Json) :
    Follows db (Attributes.writeValue db actor c d old v) := by
  refine ⟨[⟨c,"attr_update",some d,old,some v,actor⟩],rfl,?_⟩
  funext k
  rw [replay_eq]
  by_cases hk : k=(c,d)
  · subst hk
    simp [held,Attributes.writeValue_self,changes,change,newest]
  · have hne : ¬(k.1=c∧k.2=d) := fun hcd => hk (Prod.ext hcd.1 hcd.2)
    have hck : ¬(c,d)=k := fun hck => hk hck.symm
    simp [held,Attributes.writeValue_ne db actor hne,changes,change,newest,hck]

section Insert

variable {env : CardInsert.Env} {actor : Int}

theorem Follows.copyProjectTemplate {parse : String → Option Json} {areas : Visibility.Areas}
    {template new : Int}
    (h : TemplateCopy.copyProjectTemplate parse areas db actor template new=.ok db') :
    Follows db db' := by
  obtain ⟨copy,remap,withFlows,value,-,hcards,hflows,rfl⟩ :=
    TemplateCopy.copyProjectTemplate_ok parse areas db h
  have hcopy : Follows db copy := by
    refine foldlM_inv (I := fun s => Follows db s.1) hcards (.refl db) fun s x t hs _ hst => ?_
    obtain ⟨parent,a,-,ha,rfl⟩ := TemplateCopy.copyCard_ok hst
    refine hs.trans (.of_held (l := [a]) rfl ?_ (held_congr rfl))
    simpa using ha
  have hwith : Follows copy withFlows := by
    rw [hflows]
    refine foldl_inv (I := Follows copy) (.refl copy) fun s hs f _ => hs.trans ?_
    obtain ⟨-,hvalues,hactivity⟩ := TemplateCopy.copyFlow_keeps remap new s f
    exact .of_held (l := []) (by simpa using hactivity) (by simp) (held_congr hvalues)
  exact foldl_inv (I := Follows db) (hcopy.trans hwith)
    fun s hs a _ => hs.trans (.writeValue s actor _ _ _ _)

theorem Follows.insert {input : CardInsert.Input}
    (h : CardInsert.insert env db actor input=.ok db') : Follows db db' := by
  obtain ⟨w,stamped,-,hstamp,rfl⟩ := CardInsert.insert_ok h
  have hwrite : Follows db (CardInsert.write db actor w) := by
    apply CardInsert.write_inv (I := Follows db)
    · exact .of_held (l := [⟨db.nextCardId,"card_create",none,none,none,actor⟩]) rfl (by simp)
        (held_congr rfl)
    · intro s hs a _
      exact hs.trans (.writeValue s actor _ _ _ _)
  have hstamped : Follows db stamped := by
    cases CardInsert.stamp_ok hstamp with
    | inl hs => exact hs ▸ hwrite
    | inr hs =>
      obtain ⟨template,-,-,hcopy⟩ := hs
      exact hwrite.trans (.copyProjectTemplate hcopy)
  exact CardInsert.assign_inv hstamped
    fun person d _ _ => hstamped.trans (.writeValue _ actor _ _ _ _)

end Insert

theorem Follows.update {acc : Access} {dir : Accounts.Directory}
    {pick : List FlowStep → Option FlowStep} {actor : Int} {input : AttributeUpdate.Input}
    (h : AttributeUpdate.update acc dir pick db actor input=.ok db') : Follows db db' := by
  obtain ⟨w,-,rfl⟩ := AttributeUpdate.update_ok h
  exact .writeValue db actor _ _ _ _

/-- No value names a loser: nothing is repointed. -/
def Unnamed (db : Db) (losers : List Int) : Prop :=
  ∀ v∈db.values, ∀ d, db.attributeDef v.attributeDefId=some d →
    ∀ r∈refIds d.valueType v.value, r∉losers

theorem repointed_eq {survivor : Int} {losers : List Int} {t : ValueType}
    (h : ∀ r∈refIds t v, r∉losers) : CardMerge.repointed survivor losers t v=v := by
  have hone : ∀ x : Json, (∀ r∈refId x, r∉losers) → CardMerge.isLoser losers x=false := by
    intro x hx
    cases hr : refId x with
    | none => simp [CardMerge.isLoser,hr]
    | some r => simpa [CardMerge.isLoser,hr] using hx r hr
  cases t with
  | cardRef =>
    have hv := hone v (by simpa [refIds] using h)
    simp [CardMerge.repointed,hv]
  | cardRefs =>
    cases v with
    | arr xs =>
      have hxs : xs.any (CardMerge.isLoser losers)=false := by
        rw [List.any_eq_false]
        intro x hx
        have hxv := hone x fun r hr => h r (List.mem_filterMap.mpr ⟨x,hx,hr⟩)
        simp [hxv]
      simp [CardMerge.repointed,hxs]
    | _ => rfl
  | _ => rfl

theorem Follows.merge {env : CardInsert.Env} {actor : Int} {input : CardMerge.Input}
    (hq : ∀ survivor losers, CardMerge.validate input=.ok (survivor,losers) → Unnamed db losers)
    (h : CardMerge.merge env db actor input=.ok db') : Follows db db' := by
  obtain ⟨survivor,losers,hv,-,-,-,rfl⟩ := CardMerge.merge_ok h
  have hun := hq survivor losers hv
  have hadopt : Follows db (CardMerge.adopt db actor survivor losers) :=
    .of_held rfl (by simp) (held_congr rfl)
  have hvalues : (CardMerge.mergeInto (CardMerge.adopt db actor survivor losers) actor survivor
      losers).values=db.values := by
    refine Eq.trans ?_ (List.map_id db.values)
    apply List.map_congr_left
    intro row hrow
    cases hd : db.attributeDef row.attributeDefId with
    | none =>
      change { row with value := (db.attributeDef row.attributeDefId).elim row.value _ }=row
      rw [hd]
      rfl
    | some d =>
      change { row with value := (db.attributeDef row.attributeDefId).elim row.value _ }=row
      rw [hd]
      simp only [Option.elim_some,repointed_eq (hun row hrow d hd)]
  refine hadopt.trans (.of_held (by rw [CardMerge.mergeInto,List.append_assoc]) ?_
    (held_congr hvalues))
  intro a ha
  cases List.mem_append.mp ha with
  | inl ha =>
    obtain ⟨loser,-,hla⟩ := List.mem_map.mp ha
    rw [← hla]
  | inr ha =>
    rw [List.mem_singleton.mp ha]

section TaskMove
open Kitp.TaskMove

variable {actor : Int} {w : TaskMove.Checked}

/-- The moved tasks' threads hold what the move would give them, unlogged. -/
structure ThreadsSettled (s : Db) (w : TaskMove.Checked) : Prop where
  /-- They have the destination's mail account. -/
  account : ∀ account, projectMailAccount s w.request.project=some account →
    ∀ d, s.attributeNamed "channel_ref"=some d → ∀ t∈threads s w,
      s.value t d.id=some (.ofInt account)
  /-- Or there is none, and they have none and nothing left to send. -/
  unset : projectMailAccount s w.request.project=none →
    ∀ d, s.attributeNamed "channel_ref"=some d → ∀ v∈s.values, v.cardId∈threads s w →
      v.attributeDefId=d.id → v.value=.null
  sent : projectMailAccount s w.request.project=none →
    ∀ d, s.attributeNamed "delivery_status"=some d → ∀ v∈s.values, v.attributeDefId=d.id →
      onThread s (threads s w) v.cardId=true → v.value≠.str "pending"
  /-- Their states are states of the destination's flow, or stay for want of another. -/
  states : ∀ flow, flowOn (rehome s w) w.request "comm_status"=some flow →
    ∀ d, (rehome s w).attributeNamed "comm_status"=some d → ∀ v∈(rehome s w).values,
      v.cardId∈threads (rehome s w) w → v.attributeDefId=d.id →
      ∀ n, restated (rehome s w) flow v.value=some n → v.value=.ofInt n

/-- A `task.move` that finds every value it would set or clear, unlogged, as it leaves it. -/
structure Settled (db : Db) (actor : Int) (w : TaskMove.Checked) : Prop where
  tasks : ∀ m∈w.moved, ∀ d∈defsNamed db projectAttributes, held db (m,d.id)=newValue w d.name
  threads : ThreadsSettled (arrive db actor w) w

/-- One value after a row of writes to the card, those to its attribute being alike. -/
theorem value_writes {defs : List AttributeDef} {f : AttributeDef → Option Json} {x : Option Json}
    (hx : ∀ e∈defs, e.id=d → f e=x) (s : Db) :
    (defs.foldl (fun db e => (f e).elim db (db.setValue c e.id)) s).value c d=
      if d∈defs.map (·.id) then x.or (s.value c d) else s.value c d := by
  induction defs generalizing s with
  | nil => simp
  | cons e defs ih =>
    have hdefs : ∀ e∈defs, e.id=d → f e=x := fun e he => hx e (List.mem_cons_of_mem _ he)
    rw [List.foldl_cons,ih hdefs]
    by_cases hd : e.id=d
    · have he := hx e List.mem_cons_self hd
      subst hd
      cases x with
      | none => simp [he]
      | some v => simp [he]
    · have hne : ¬(c=c∧d=e.id) := fun h => hd h.2.symm
      have hval : ((f e).elim s (s.setValue c e.id)).value c d=s.value c d := by
        cases f e with
        | none => rfl
        | some v => exact setValue_ne hne s v
      simp [hval,Ne.symm hd]

theorem value_writes_ne {l : List AttributeDef} {f : AttributeDef → Option Json} {m : Int}
    (hc : c≠m) (s : Db) :
    (l.foldl (fun db e => (f e).elim db (db.setValue m e.id)) s).value c d=s.value c d := by
  refine foldl_inv (I := fun t : Db => t.value c d=s.value c d) rfl fun t ht e _ => ?_
  cases f e with
  | none => exact ht
  | some v =>
    have hne : ¬(c=m∧d=e.id) := fun h => hc h.1
    exact (setValue_ne hne t v).trans ht

theorem held_reclassify {m : Int}
    (h : ∀ d∈defsNamed db projectAttributes, held db (m,d.id)=newValue w d.name) :
    held (reclassify db w m)=held db := by
  funext k
  obtain ⟨c,d⟩ := k
  have hdrop : (db.dropValues fun v => v.cardId=m∧
      v.attributeDefId∈(defsNamed db projectAttributes).map (·.id)).value c d=
      if c=m∧d∈(defsNamed db projectAttributes).map (·.id) then none else db.value c d := by
    have hkey := value_dropValues db
      (fun c d => decide (c=m∧d∈(defsNamed db projectAttributes).map (·.id))) c d
    simpa using hkey
  by_cases hc : c=m
  · subst hc
    have hset := value_writes (c := c) (d := d) (x := held db (c,d))
      (f := fun e => newValue w e.name) (fun e he hed => hed ▸ (h e he).symm)
      (db.dropValues fun v => v.cardId=c∧
        v.attributeDefId∈(defsNamed db projectAttributes).map (·.id))
    by_cases hd : d∈(defsNamed db projectAttributes).map (·.id)
    · rw [hdrop,if_pos hd,if_pos ⟨rfl,hd⟩,Option.or_none] at hset
      have hval : (reclassify db w c).value c d=held db (c,d) := hset
      simp only [held,hval,Option.filter_filter,Bool.and_self]
    · rw [hdrop,if_neg hd,if_neg fun h => hd h.2] at hset
      have hval : (reclassify db w c).value c d=db.value c d := hset
      simp only [held,hval]
  · have hset := value_writes_ne (d := d) (l := defsNamed db projectAttributes)
      (f := fun e => newValue w e.name) hc (db.dropValues fun v => v.cardId=m∧
        v.attributeDefId∈(defsNamed db projectAttributes).map (·.id))
    rw [hdrop,if_neg fun h => hc h.1] at hset
    have hval : (reclassify db w m).value c d=db.value c d := hset
    simp only [held,hval]

theorem reclassify_activity (db : Db) (w : Checked) (m : Int) :
    (reclassify db w m).activity=db.activity := by
  refine foldl_inv (I := fun t : Db => t.activity=db.activity) rfl fun t ht d _ => ?_
  cases newValue w d.name with
  | none => exact ht
  | some v => exact ht

theorem place_activity (db : Db) (actor : Int) (w : Checked) (m : Int) :
    ∃ a, a.attributeDefId=none∧(place db actor w m).activity=db.activity++[a] := by
  have hsame := reclassify_activity (db.setParent (· = m) w.request.project) w m
  exact ⟨_,rfl,congrArg (·++[_]) hsame⟩

theorem held_place {m : Int}
    (h : ∀ d∈defsNamed db projectAttributes, held db (m,d.id)=newValue w d.name) :
    held (place db actor w m)=held db :=
  Eq.trans (held_reclassify (show ∀ d∈defsNamed (db.setParent (· = m) w.request.project)
    projectAttributes, _ from h)) (held_congr rfl)

/-- Placing tasks that hold the destination's values already. -/
theorem Follows.placed (hset : ∀ m∈w.moved, ∀ d∈defsNamed db projectAttributes,
    held db (m,d.id)=newValue w d.name) :
    Follows db (w.moved.foldl (place · actor w) db) := by
  have hall : Follows db (w.moved.foldl (place · actor w) db)∧
      held (w.moved.foldl (place · actor w) db)=held db∧
      (w.moved.foldl (place · actor w) db).attributeDefs=db.attributeDefs := by
    refine foldl_inv (I := fun t => Follows db t∧held t=held db∧t.attributeDefs=db.attributeDefs)
      ⟨.refl db,rfl,rfl⟩ fun t ht m hm => ?_
    obtain ⟨hfollows,hheld,hdefs⟩ := ht
    have hname : t.attributeNamed=db.attributeNamed := by
      funext n
      simp only [Db.attributeNamed,hdefs]
    have hnamed : defsNamed t projectAttributes=defsNamed db projectAttributes := by
      simp only [defsNamed,hname]
    have hstep : held (place t actor w m)=held t := by
      apply held_place
      rw [hnamed,hheld]
      exact hset m hm
    obtain ⟨a,ha,hactivity⟩ := place_activity t actor w m
    exact ⟨hfollows.trans (.of_held hactivity (by simpa using ha) hstep),hstep.trans hheld,
      (place_keeps t actor w m).attributeDefs.trans hdefs⟩
  exact hall.1

/-- The links that go are logged as cleared, each of them. -/
theorem Follows.unlink (db : Db) (actor : Int) (cards : List Int) :
    Follows db (TaskMove.unlink db actor cards) := by
  let defs := (defsNamed db ["parent_task","parent_relationship"]).map (·.id)
  let gone (c d : Int) : Bool := c∈cards∧d∈defs
  let rows := (db.values.filter fun v => gone v.cardId v.attributeDefId).insertionSort fun a b =>
    a.cardId<b.cardId∨(a.cardId=b.cardId∧a.attributeDefId ≤ b.attributeDefId)
  refine ⟨rows.map fun v =>
    ⟨v.cardId,"attr_update",some v.attributeDefId,some v.value,some .null,actor⟩,rfl,?_⟩
  have hchanges : changes (rows.map fun v =>
      (⟨v.cardId,"attr_update",some v.attributeDefId,some v.value,some .null,actor⟩ : Activity))=
      rows.map fun v => ((v.cardId,v.attributeDefId),none) := by
    rw [changes,List.filterMap_map]
    exact congrFun List.filterMap_eq_map' rows
  have hmem (v : AttributeValue) : v∈rows↔v∈db.values∧gone v.cardId v.attributeDefId=true := by
    rw [List.mem_insertionSort,List.mem_filter]
  rw [hchanges]
  funext k
  obtain ⟨c,d⟩ := k
  have hval : (TaskMove.unlink db actor cards).value c d=if gone c d then none else db.value c d :=
    value_dropValues db gone c d
  by_cases hg : gone c d
  · have hnone : held (TaskMove.unlink db actor cards) (c,d)=none := by simp [held,hval,hg]
    rw [hnone]
    cases hv : db.value c d with
    | none =>
      have hempty : held db (c,d)=none := by simp [held,hv]
      rw [replay_of_not_mem,hempty]
      intro e he hek
      obtain ⟨row,hrow,hre⟩ := List.mem_map.mp he
      rw [← hre] at hek
      simp only [Prod.mk.injEq] at hek
      have hfind := List.find?_eq_none.mp (Option.map_eq_none_iff.mp hv) row ((hmem row).mp hrow).1
      simp [hek.1,hek.2] at hfind
    | some v =>
      obtain ⟨row,hrow,hrc,hrd,-⟩ := mem_of_value hv
      symm
      apply replay_cleared
      · refine ⟨((row.cardId,row.attributeDefId),none),List.mem_map_of_mem ?_,?_⟩
        · rw [hmem,hrc,hrd]
          exact ⟨hrow,hg⟩
        · rw [hrc,hrd]
      · intro e he _
        obtain ⟨row',-,hre⟩ := List.mem_map.mp he
        rw [← hre]
  · have hkeep : held (TaskMove.unlink db actor cards) (c,d)=held db (c,d) := by
      simp [held,hval,hg]
    rw [hkeep]
    symm
    apply replay_of_not_mem
    intro e he hek
    obtain ⟨row,hrow,hre⟩ := List.mem_map.mp he
    have hgone := ((hmem row).mp hrow).2
    rw [← hre] at hek
    simp only [Prod.mk.injEq] at hek
    rw [hek.1,hek.2] at hgone
    exact hg hgone

theorem mem_defsNamed {name : String} {e : AttributeDef} (h : e∈defsNamed db [name]) :
    db.attributeNamed name=some e := by
  obtain ⟨n,hn,he⟩ := List.mem_filterMap.mp h
  exact List.mem_singleton.mp hn ▸ he

theorem Follows.rehome {s : Db} (h : ThreadsSettled s w) : Follows s (TaskMove.rehome s w) := by
  unfold TaskMove.rehome
  cases haccount : projectMailAccount s w.request.project with
  | some account =>
    -- each write finds its own value
    have hsame : (defsNamed s ["channel_ref"]).foldl (fun db d =>
        (threads s w).foldl (fun db t => db.setValue t d.id (.ofInt account)) db) s=s := by
      refine foldl_inv (I := fun t : Db => t=s) rfl fun u hu d hd => ?_
      refine foldl_inv (I := fun t : Db => t=s) hu fun v hv t ht => ?_
      subst hv
      exact setValue_of_value (h.account account haccount d (mem_defsNamed hd) t ht)
    simp only
    rw [hsame]
    exact .refl s
  | none =>
    have hfailed : (s.values.map fun v =>
        if (defsNamed s ["delivery_status"]).any (·.id=v.attributeDefId)&&
          v.value=.str "pending"&&onThread s (threads s w) v.cardId then
          { v with value := .str "failed" } else v)=s.values := by
      refine Eq.trans (List.map_congr_left ?_) (List.map_id s.values)
      intro v hv
      refine if_neg fun hfail => ?_
      simp only [Bool.and_eq_true,List.any_eq_true,decide_eq_true_eq] at hfail
      obtain ⟨⟨⟨d,hd,hid⟩,hpending⟩,hthread⟩ := hfail
      exact h.sent haccount d (mem_defsNamed hd) v hv hid.symm hthread hpending
    refine .of_held (l := []) (by simp [Db.dropValues]) (by simp) ?_
    simp only [hfailed]
    funext k
    obtain ⟨c,d⟩ := k
    have hdrop := value_dropValues s (fun c d => decide (c∈threads s w∧
      (defsNamed s ["channel_ref"]).any (·.id=d)=true)) c d
    change Option.filter _ ((s.dropValues _).value c d)=held s (c,d)
    rw [hdrop]
    split
    · rename_i hgone
      simp only [decide_eq_true_eq,List.any_eq_true] at hgone
      obtain ⟨hc,e,he,hed⟩ := hgone
      cases hv : s.value c d with
      | none => simp [held,hv]
      | some v =>
        obtain ⟨row,hrow,hrc,hrd,hrv⟩ := mem_of_value hv
        have hnull := h.unset haccount e (mem_defsNamed he) row hrow (hrc.symm ▸ hc)
          (hrd.trans hed.symm)
        have hvn : v=.null := hrv.symm.trans hnull
        simp only [held,hv,hvn]
        rfl
    · rfl

theorem Follows.restate {s : Db}
    (h : ∀ flow, flowOn s w.request "comm_status"=some flow →
      ∀ d, s.attributeNamed "comm_status"=some d → ∀ v∈s.values, v.cardId∈threads s w →
        v.attributeDefId=d.id → ∀ n, restated s flow v.value=some n → v.value=.ofInt n) :
    Follows s (TaskMove.restate s w) := by
  unfold TaskMove.restate
  split
  · rename_i flow d hflow hd
    have hsame : (s.values.map fun v => if v.cardId∈threads s w∧v.attributeDefId=d.id then
        { v with value := (restated s flow v.value).elim v.value .ofInt } else v)=s.values := by
      refine Eq.trans (List.map_congr_left ?_) (List.map_id s.values)
      intro v hv
      split
      · rename_i hthread
        cases hn : restated s flow v.value with
        | none => rfl
        | some n =>
          have hvn := h flow hflow d hd v hv hthread.1 hthread.2 n hn
          simp only [Option.elim_some,← hvn,id]
      · rfl
    simp only [hsame]
    exact .refl s
  · exact .refl s

theorem Follows.taskMove {env : CardInsert.Env} {input : TaskMove.Input}
    (hq : ∀ w, prepare env db actor input=.ok w → Settled db actor w)
    (h : TaskMove.taskMove env db actor input=.ok db') : Follows db db' := by
  obtain ⟨w,hw,rfl⟩ := taskMove_ok h
  have hsettled := hq w hw
  have harrive : Follows db (arrive db actor w) := by
    unfold arrive
    simp only
    split
    · exact (Follows.placed hsettled.tasks).trans (.unlink _ actor _)
    · exact .placed hsettled.tasks
  have hthreads := harrive.trans (.rehome hsettled.threads)
  have hstates := hthreads.trans (.restate hsettled.threads.states)
  exact hstates.trans (.unlink _ actor _)

end TaskMove

/-- One call, with what it finds of accounts, areas and flows. -/
inductive Op where
  | insert (env : CardInsert.Env) (actor : Int) (input : CardInsert.Input)
  | update (acc : Access) (dir : Accounts.Directory) (pick : List FlowStep → Option FlowStep)
      (actor : Int) (input : AttributeUpdate.Input)
  | merge (env : CardInsert.Env) (actor : Int) (input : CardMerge.Input)
  | taskMove (env : CardInsert.Env) (actor : Int) (input : TaskMove.Input)

/-- What the call leaves when it succeeds. -/
def step (db : Db) : Op → Option Db
  | .insert env actor input => (CardInsert.insert env db actor input).toOption
  | .update acc dir pick actor input => (AttributeUpdate.update acc dir pick db actor input).toOption
  | .merge env actor input => (CardMerge.merge env db actor input).toOption
  | .taskMove env actor input => (TaskMove.taskMove env db actor input).toOption

/-- No merge has a reference to repoint, and each task moves to values it holds. -/
def Quiet (db : Db) : Op → Prop
  | .merge _ _ input => ∀ survivor losers, CardMerge.validate input=.ok (survivor,losers) →
      Unnamed db losers
  | .taskMove env actor input => ∀ w, TaskMove.prepare env db actor input=.ok w →
      Settled db actor w
  | _ => True

theorem step_follows (db : Db) (op : Op) (db' : Db) (hq : Quiet db op)
    (h : step db op=some db') : Follows db db' := by
  cases op with
  | insert env actor input => exact .insert (ok_of_toOption h)
  | update acc dir pick actor input => exact .update (ok_of_toOption h)
  | merge env actor input => exact .merge hq (ok_of_toOption h)
  | taskMove env actor input => exact .taskMove hq (ok_of_toOption h)

/-- Over quiet runs the values follow the log: they are what the new activities make of the
values at the start, and match the whole log where the start did. -/
theorem quiet_run_logged {start db : Db} {ops : List Op} (h : Run step Quiet start ops db) :
    Follows start db∧(Matches start → Matches db) := by
  have hfollows : Follows start db :=
    h.inv (Follows start) (fun s op t hs hq hst => hs.trans (step_follows s op t hq hst)) (.refl start)
  exact ⟨hfollows,hfollows.matches⟩

/-- A task with its milestone and status, another milestone, and a second project. -/
def board : Db where
  cardTypes := [⟨1,"project",none,false⟩,⟨2,"task",some 1,true⟩,⟨3,"milestone",some 1,false⟩,
    ⟨4,"status",some 1,false⟩]
  attributeDefs := [⟨8,"status",.cardRef,some 4,none⟩,⟨9,"milestone_ref",.cardRef,some 3,none⟩]
  cards := [⟨1,1,none,none,false,.triage⟩,⟨2,2,some 1,none,false,.triage⟩,
    ⟨3,3,some 1,none,false,.triage⟩,⟨4,3,some 1,none,false,.triage⟩,
    ⟨5,4,some 1,none,false,.triage⟩,⟨6,1,none,none,false,.triage⟩,⟨7,4,some 6,none,false,.triage⟩]
  values := [⟨2,8,.ofInt 5⟩,⟨2,9,.ofInt 4⟩]
  edges := [⟨2,8,true,1⟩,⟨2,9,false,2⟩]
  activity := [⟨2,"attr_update",some 8,none,some (.ofInt 5),7⟩,
    ⟨2,"attr_update",some 9,none,some (.ofInt 4),7⟩]
  nextCardId := 8

def everyone : CardInsert.Env := ⟨CardMove.allowed,⟨[],[],[],[]⟩,⟨[],[],[]⟩,fun _ => none⟩

theorem board_matches : Matches board := by
  intro k
  by_cases h8 : k=(2,8)
  · subst h8
    rfl
  · by_cases h9 : k=(2,9)
    · subst h9
      rfl
    · have hne8 : ¬(2=k.1∧8=k.2) := fun h => h8 (Prod.ext h.1.symm h.2.symm)
      have hne9 : ¬(2=k.1∧9=k.2) := fun h => h9 (Prod.ext h.1.symm h.2.symm)
      simp [held,Db.value,board,newest,changes,change,hne8,hne9,Ne.symm h8,Ne.symm h9]

def mergeMilestone (survivor loser : Int) : Op :=
  .merge everyone 7 ⟨some survivor,[.ofInt loser]⟩

def moveTask : Op := .taskMove everyone 7 ⟨some 2,some 6,some 7,none,none,none,none⟩

/-- A step that leaves a value other than the newest one logged. -/
theorem not_matches_of_held {k : Int×Int} {v v' : Json} (hheld : held db k=some v)
    (hlog : newest (changes db.activity) k=some (some v')) (hne : v≠v') : ¬Matches db := by
  intro hm
  have hk := hm k
  rw [hheld,hlog] at hk
  exact hne (Option.some.inj hk)

/-- A merge gives the task another milestone, and a move another status; the log still
says the old ones. -/
theorem unlogged_changes : Matches board∧
    (∃ db, Run step (fun _ _ => True) board [mergeMilestone 3 4] db∧
      held db (2,9)=some (.ofInt 3)∧newest (changes db.activity) (2,9)=some (some (.ofInt 4))∧
      ¬Matches db)∧
    ∃ db, Run step (fun _ _ => True) board [moveTask] db∧
      held db (2,8)=some (.ofInt 7)∧newest (changes db.activity) (2,8)=some (some (.ofInt 5))∧
      ¬Matches db := by
  have hmerge : (step board (mergeMilestone 3 4)).map
      (fun db => (held db (2,9),newest (changes db.activity) (2,9)))=
      some (some (.ofInt 3),some (some (.ofInt 4))) := rfl
  have hmove : (step board moveTask).map
      (fun db => (held db (2,8),newest (changes db.activity) (2,8)))=
      some (some (.ofInt 7),some (some (.ofInt 5))) := rfl
  obtain ⟨merged,hm,hmerged⟩ := Option.map_eq_some_iff.mp hmerge
  obtain ⟨moved,hv,hmoved⟩ := Option.map_eq_some_iff.mp hmove
  simp only [Prod.mk.injEq] at hmerged hmoved
  refine ⟨board_matches,⟨merged,.single trivial hm,hmerged.1,hmerged.2,?_⟩,
    moved,.single trivial hv,hmoved.1,hmoved.2,?_⟩
  · exact not_matches_of_held hmerged.1 hmerged.2 (by decide)
  · exact not_matches_of_held hmoved.1 hmoved.2 (by decide)

/-- The milestone no task has is merged into the one the task has, which is then taken
away. -/
def tidied : List Op :=
  [mergeMilestone 4 3,.update CardMove.allowed ⟨[],[],[],[]⟩ List.head? 7
    ⟨some 2,some "milestone_ref",none⟩]

theorem merge_quiet : Quiet board (mergeMilestone 4 3) := by
  intro survivor losers hv v hv' d hd r hr
  have hlosers : losers=[3] := by
    have hok : CardMerge.validate ⟨some 4,[.ofInt 3]⟩=.ok (4,[3]) := rfl
    have := hok.symm.trans hv
    cases this
    rfl
  subst hlosers
  have hstatus : board.attributeDef 8=some ⟨8,"status",.cardRef,some 4,none⟩ := rfl
  have hmilestone : board.attributeDef 9=some ⟨9,"milestone_ref",.cardRef,some 3,none⟩ := rfl
  have hrows : v=⟨2,8,.ofInt 5⟩∨v=⟨2,9,.ofInt 4⟩ := by simpa [board] using hv'
  cases hrows with
  | inl hrow =>
    subst hrow
    cases hstatus.symm.trans hd
    have hr5 : r=5 := by simpa [refIds,refId,Json.ofInt,eq_comm] using hr
    simp [hr5]
  | inr hrow =>
    subst hrow
    cases hmilestone.symm.trans hd
    have hr4 : r=4 := by simpa [refIds,refId,Json.ofInt,eq_comm] using hr
    simp [hr4]

theorem tidied_logged : ∃ db, Run step Quiet board tidied db∧held db (2,9)=none∧Matches db := by
  have hend : (tidied.foldlM step board).map (held · (2,9))=some none := rfl
  obtain ⟨db,hdb,hheld⟩ := Option.map_eq_some_iff.mp hend
  obtain ⟨merged,hm,hdb⟩ := Option.bind_eq_some_iff.mp (List.foldlM_cons.symm.trans hdb)
  obtain ⟨cleared,hc,hdb⟩ := Option.bind_eq_some_iff.mp (List.foldlM_cons.symm.trans hdb)
  cases hdb
  have hrun : Run step Quiet board tidied db := .cons merge_quiet hm (.single trivial hc)
  exact ⟨db,hrun,hheld,(quiet_run_logged hrun).2 board_matches⟩

end Kitp.AttributeLog
