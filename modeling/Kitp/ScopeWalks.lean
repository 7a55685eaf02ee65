import Kitp.CardTree

/-! The two walks to a card's project: the server's, over the cards a batch read ahead, and
`card_enclosing_project`, over any table of cards. -/
namespace Kitp.ScopeWalks
open Kitp.Store Kitp.CardTree Kitp.Forest

variable (db : Db)

def preloadCards (ids : List Int) : List Card := db.cards.filter (·.id∈ids)

/-- What `runAuthzPass` reads ahead for the cards the batch names. -/
def batchLookup (ids : List Int) : Int → Option Card :=
  expandCardLookup db ((preloadCards db ids).map (·.id))

def projectCardTypeId : Option Int := (db.cardTypes.find? (·.name="project")).map (·.id)

/-- The keys of the two tables, and the sequence of the card ids, which starts at 1. -/
structure Keys : Prop where
  cards : ∀ c∈db.cards, db.card c.id=some c
  positive : ∀ c∈db.cards, 0<c.id
  types : ∀ t∈db.cardTypes, db.cardType t.id=some t
  names : ∀ t∈db.cardTypes, ∀ u∈db.cardTypes, t.name=u.name → t=u

def isProject (x : Int) : Bool := (db.card x).any (db.cardTypeName ·=some "project")

/-- The first project at or above `x` is `d` steps up. -/
def FirstProjectAt (x : Int) (d : Nat) : Prop :=
  (up db.parent d x).any (isProject db)=true∧
    ∀ e<d, (up db.parent e x).any (isProject db)=false

/-- The first project among the first `n` cards of the chain. -/
def firstProject (n : Nat) (x : Int) : Option Int :=
  (((db.card x).elim [] (walk db.parentCard n)).find? (db.cardTypeName ·=some "project")).map (·.id)

variable {db} {x y t : Int} {c : Card} {n d : Nat} {ids : List Int}

/-- A step up between ids is a step up between their rows. -/
theorem up_rows (hc : db.card x=some c) (d : Nat) :
    up db.parentCard d c=(up db.parent d x).bind db.card := by
  induction d generalizing x c with
  | zero => simp [up,hc]
  | succ d ih =>
    cases hp : c.parentCardId with
    | none => simp [up,Db.parentCard,Db.parent,hc,hp]
    | some y =>
      cases hy : db.card y with
      | some e =>
        have hnext := ih hy
        simp [up,Db.parentCard,Db.parent,hc,hp,hy,hnext]
      | none =>
        -- no row, so nothing above it either
        have hstop : ∀ d, (up db.parent d y).bind db.card=none := by
          intro d
          cases d <;> simp [up,Db.parent,hy]
        have hnext := hstop d
        simp [up,Db.parentCard,Db.parent,hc,hp,hy,hnext]

theorem any_rows (hc : db.card x=some c) (d : Nat) :
    (up db.parentCard d c).any (db.cardTypeName ·=some "project")=
      (up db.parent d x).any (isProject db) := by
  rw [up_rows hc]
  cases up db.parent d x <;> simp [isProject]

/-- The rows read ahead for a card of the batch: sixteen steps up, and what they are in the
table. -/
theorem batchLookup_eq (hx : x∈ids) (hup : up db.parent d x=some y) (hd : d<17) :
    batchLookup db ids y=db.card y := by
  have hrow {q : Card} (hq : batchLookup db ids y=some q) : db.card y=some q := by
    have hid : q.id=y := by simpa using List.find?_some hq
    obtain ⟨v,-,hv⟩ := List.mem_flatMap.mp (List.mem_of_find?_eq_some hq)
    exact hid ▸ (ancestor_row hv).1
  cases hy : db.card y with
  | none =>
    cases hq : batchLookup db ids y with
    | none => rfl
    | some q => simp [hrow hq] at hy
  | some p =>
    obtain ⟨c,hc⟩ := Option.isSome_iff_exists.mp
      (row_below (reaches_of_up hup) (show (db.card y).isSome by simp [hy]))
    have hseed : x∈(preloadCards db ids).map (·.id) := by
      have hcx : c.id=x := card_id hc
      exact List.mem_map.mpr ⟨c,List.mem_filter.mpr ⟨card_mem hc,by simp [hcx,hx]⟩,hcx⟩
    have hmem : p∈cardAncestors db x := by
      have hrows : up db.parentCard d c=some p := by simp [up_rows hc,hup,hy]
      simpa [cardAncestors,hc] using mem_walk_of_up hrows hd
    cases hq : batchLookup db ids y with
    | some q => exact (hrow hq).symm.trans hy
    | none =>
      have := List.find?_eq_none.mp hq p (List.mem_flatMap.mpr ⟨x,hseed,hmem⟩)
      simp [card_id hy] at this

theorem Keys.project_iff (h : Keys db) (ht : projectCardTypeId db=some t) :
    c.cardTypeId=t↔db.cardTypeName c=some "project" := by
  obtain ⟨u,hu,hut⟩ := Option.map_eq_some_iff.mp ht
  have hmem := List.mem_of_find?_eq_some hu
  have hname : u.name="project" := by simpa using List.find?_some hu
  constructor
  · intro hc
    simp [Db.cardTypeName,hc,← hut,h.types u hmem,hname]
  · intro hc
    obtain ⟨v,hv,hvn⟩ := Option.map_eq_some_iff.mp hc
    have hvu : v=u := h.names v (List.mem_of_find?_eq_some hv) u hmem (hvn.trans hname.symm)
    have hid : v.id=c.cardTypeId := by simpa using List.find?_some hv
    rw [← hid,hvu,hut]

/-- One step of either walk. -/
theorem firstProject_succ (hc : db.card x=some c) (n : Nat) :
    firstProject db (n+1) x=if db.cardTypeName c=some "project" then some x
      else c.parentCardId.bind (firstProject db n) := by
  have hid : c.id=x := card_id hc
  by_cases hname : db.cardTypeName c=some "project"
  · simp [firstProject,hc,walk,hname,hid]
  · cases hp : c.parentCardId with
    | none => simp [firstProject,hc,walk,hname,Db.parentCard,hp]
    | some y => cases hy : db.card y <;> simp [firstProject,hc,walk,hname,Db.parentCard,hp,hy]

/-- The server's walk over a lookup that holds the rows it comes to. -/
theorem Keys.resolve (h : Keys db) (ht : projectCardTypeId db=some t)
    {lookup : Int → Option Card}
    (hlookup : ∀ d<n, ∀ y, up db.parent d x=some y → lookup y=db.card y) :
    resolveTargetProject t lookup n x=(firstProject db n x).getD 0 := by
  induction n generalizing x with
  | zero => cases hc : db.card x <;> simp [resolveTargetProject,firstProject,walk,hc]
  | succ n ih =>
    have hstart : lookup x=db.card x := hlookup 0 (by omega) x rfl
    cases hc : db.card x with
    | none => simp [resolveTargetProject,firstProject,hstart,hc]
    | some c =>
      rw [firstProject_succ hc]
      by_cases hname : db.cardTypeName c=some "project"
      · have htype := (h.project_iff ht).mpr hname
        simp [resolveTargetProject,hstart,hc,htype,hname]
      · have htype := mt (h.project_iff ht).mp hname
        cases hp : c.parentCardId with
        | none => simp [resolveTargetProject,hstart,hc,htype,hname,hp]
        | some p =>
          have hnext := ih (x := p) (by
            intro d hd y hy
            apply hlookup (d+1) (by omega)
            simp [up,Db.parent,hc,hp,hy])
          simp [resolveTargetProject,hstart,hc,htype,hname,hp,hnext]

theorem Keys.firstProject_ne (h : Keys db) : firstProject db n x≠some 0 := by
  intro hz
  obtain ⟨p,hp,hz⟩ := Option.map_eq_some_iff.mp hz
  have hmem : p∈(db.card x).elim [] (walk db.parentCard n) := List.mem_of_find?_eq_some hp
  cases hc : db.card x with
  | none => simp [hc] at hmem
  | some c =>
    have hreach : Relation.ReflTransGen (Up db.parentCard) c p :=
      reaches_of_mem_walk (by simpa [hc] using hmem)
    have hpos : 0<p.id := by
      cases Relation.ReflTransGen.cases_tail hreach with
      | inl hpc => exact hpc ▸ h.positive c (card_mem hc)
      | inr hpc =>
        obtain ⟨e,-,hep⟩ := hpc
        obtain ⟨q,-,hq⟩ := Option.bind_eq_some_iff.mp hep
        exact h.positive p (card_mem hq)
    omega

theorem any_no_row (hc : db.card x=none) (d : Nat) : (up db.parent d x).any (isProject db)=false := by
  cases d <;> simp [up,Db.parent,isProject,hc]

theorem firstProject_none :
    firstProject db n x=none↔∀ d<n, (up db.parent d x).any (isProject db)=false := by
  cases hc : db.card x with
  | none => simp [firstProject,hc,any_no_row hc]
  | some c =>
    simp only [firstProject,hc,Option.elim_some,Option.map_eq_none_iff,find_walk_none,any_rows hc]

/-- A walk of one card more. -/
theorem firstProject_more (n : Nat) (x : Int) :
    firstProject db (n+1) x=(firstProject db n x).or ((up db.parent n x).filter (isProject db)) := by
  cases hc : db.card x with
  | none =>
    have hlast := any_no_row hc n
    cases hup : up db.parent n x with
    | none => simp [firstProject,hc]
    | some y =>
      have hy : isProject db y=false := by simpa [hup] using hlast
      simp [firstProject,hc,Option.filter,hy]
  | some c =>
    have hlast : ((up db.parentCard n c).toList.find? (db.cardTypeName ·=some "project")).map (·.id)=
        (up db.parent n x).filter (isProject db) := by
      rw [up_rows hc]
      cases up db.parent n x with
      | none => rfl
      | some y =>
        cases hy : db.card y with
        | none => simp [Option.filter,isProject,hy]
        | some e =>
          have hid : e.id=y := card_id hy
          by_cases hname : db.cardTypeName e=some "project" <;>
            simp [Option.filter,isProject,hy,hname,hid]
    simp only [firstProject,hc,Option.elim_some,walk_snoc,List.find?_append,Option.map_or,hlast]

/-- The server finds the project that `card_enclosing_project` returns, for the cards whose
first project is not the seventeenth of their chain. -/
theorem resolve_agrees (h : Keys db) (ht : projectCardTypeId db=some t) (hx : x∈ids) :
    (some (resolveTargetProject t (batchLookup db ids) scopeWalkDepth x)).filter (·≠0)=
      cardEnclosingProject db x↔¬FirstProjectAt db x 16 := by
  have hgo : resolveTargetProject t (batchLookup db ids) scopeWalkDepth x=
      (firstProject db 16 x).getD 0 :=
    h.resolve ht fun d hd y hy => batchLookup_eq hx hy (Nat.lt_succ_of_lt hd)
  have hsql : cardEnclosingProject db x=
      (firstProject db 16 x).or ((up db.parent 16 x).filter (isProject db)) :=
    firstProject_more 16 x
  have hne : firstProject db 16 x≠some 0 := h.firstProject_ne
  have hnone : firstProject db 16 x=none↔∀ e<16, (up db.parent e x).any (isProject db)=false :=
    firstProject_none
  rw [hgo,hsql,FirstProjectAt,← hnone]
  cases hf : firstProject db 16 x with
  | some y =>
    have hy : y≠0 := by
      intro hy
      exact hne (hf.trans (congrArg some hy))
    simp [Option.filter,hy]
  | none =>
    cases hup : up db.parent 16 x with
    | none => simp [Option.filter]
    | some y => cases hy : isProject db y <;> simp [Option.filter,hy]

/-- A project and a chain of sixteen cards under it. -/
def deep : Db where
  cardTypes := [⟨1,"project",none,false⟩,⟨2,"task",some 1,true⟩]
  attributeDefs := []
  cards := ⟨1,1,none,none,false,.triage⟩::
    (List.range 16).map fun i => ⟨i+2,2,some (i+1),none,false,.triage⟩
  nextCardId := 18

theorem deep_keys : Keys deep := ⟨by decide,by decide,by decide,by decide⟩

/-- The database still finds the project from the last of them, the server does not. -/
theorem seventeenth_card_unscoped : Keys deep∧projectCardTypeId deep=some 1∧
    (some (resolveTargetProject 1 (batchLookup deep [17]) scopeWalkDepth 17)).filter (·≠0)=none∧
      cardEnclosingProject deep 17=some 1 := by
  refine ⟨deep_keys,rfl,?_,?_⟩
  · decide
  · decide

theorem sixteenth_card_scoped :
    (some (resolveTargetProject 1 (batchLookup deep [16]) scopeWalkDepth 16)).filter (·≠0)=
      cardEnclosingProject deep 16 := by
  apply (resolve_agrees deep_keys rfl (List.mem_singleton_self 16)).mpr
  intro hfirst
  have hnot : (up deep.parent 16 16).any (isProject deep)=false := by decide
  exact absurd hfirst.1 (hnot ▸ Bool.false_ne_true)

end Kitp.ScopeWalks
