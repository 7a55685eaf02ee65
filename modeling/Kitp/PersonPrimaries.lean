import Kitp.Lib.Runs
import Kitp.PersonEmailTurns

/-! The primaries that people chose or signed in with, over runs: on the person's list, and
verified there, where no removal overlaps the choice. -/
namespace Kitp.PersonEmails
open Kitp.Store Kitp.Attributes Kitp.Versions Kitp.Runs

variable {ι : Type} [DecidableEq ι] {text : Text} {s t : State ι} {i j : ι} {r : Effect×Task}

/-- Set by `set_primary` or a sign-in. -/
def Primary.Chosen (x : Primary) : Prop := x.setter=.chosen∨x.setter=.signin

/-- The transaction deletes the person, or can only be undone. -/
def Leaving (s : State ι) (i : ι) (person : Int) : Prop :=
  person∈s.gone i∨person∈(s.task i).losers∨(s.task i).isFailed=true

/-- The transaction leaves the address gone or not verified. -/
def Drops (s : State ι) (i : ι) (k : Int×String) : Prop :=
  ∃ o, s.addresses.own i k=some o∧∀ a, o=some a → a.verified=false

/-- A removal's check still holds when it deletes, and so does a choice's when it writes:
neither overlaps another transaction's change of what it read. -/
def Apart (s : State ι) : Event ι → Prop
  | .next i => match s.task i with
    | .removing p e => s.primary i p≠some e∧
        ∀ j x, j≠i → s.primaries.own j p=some (some x) → x.email≠e
    | .setting p e _ => On (s.addresses.view i) (p,e)∧∀ j, j≠i → ¬Drops s j (p,e)
    | _ => True
  | _ => True

/-- The rows of `attribute_value` have no index but their key. -/
def unindexed (_ : Int) (_ : Primary) : Option Unit := none

/-- Every primary that was chosen is on its person's list, verified, for good and for each
transaction, until the person is merged away. -/
structure Listed (s : State ι) : Prop where
  primaries : Versions.Inv unindexed s.primaries
  committed : ∀ p∈s.people, ∀ x, s.primaries.row p=some x → x.Chosen → On s.addresses.row (p,x.email)
  own : ∀ i, ∀ p∈s.people, ∀ x, s.primaries.view i p=some x → x.Chosen →
    On (s.addresses.view i) (p,x.email)∨(Leaving s i p∧s.addresses.own i (p,x.email)≠none)
  apart : ∀ i j, i≠j → ∀ p∈s.people, ∀ e, Drops s i (p,e) → ¬Leaving s i p →
    s.primaries.own i p=none → ∀ x, s.primaries.view j p=some x → x.Chosen → x.email≠e

theorem on_of_own {k : Int×String} {o : Option Address} (ho : s.addresses.own i k=some o)
    (hdrops : ¬Drops s i k) : On (s.addresses.view i) k := by
  cases o with
  | none => exact absurd ⟨none,ho,fun a ha => by cases ha⟩ hdrops
  | some a =>
    cases hv : a.verified with
    | true => exact ⟨a,by rw [Table.view,ho,Option.getD_some],hv⟩
    | false =>
      refine absurd ⟨some a,ho,?_⟩ hdrops
      intro b hb
      cases hb
      exact hv

theorem not_on_of_drops {k : Int×String} (h : Drops s i k) : ¬On (s.addresses.view i) k := by
  rintro ⟨a,ha,hv⟩
  obtain ⟨o,ho,hno⟩ := h
  rw [Table.view,ho,Option.getD_some] at ha
  rw [hno a ha] at hv
  cases hv

section Turn

theorem turn_people (s : State ι) (i : ι) (r : Effect×Task) : (s.turn i r).people=s.people := by
  cases r with
  | mk e task => cases e <;> rfl

theorem turn_gone_other (s : State ι) (r : Effect×Task) (hj : j≠i) :
    (s.turn i r).gone j=s.gone j := by
  cases r with
  | mk e task =>
    cases e with
    | none => rfl
    | address k o => rfl
    | primary p x => rfl
    | gone losers => exact Function.update_of_ne hj ..

theorem turn_primary_other (s : State ι) (r : Effect×Task) (hj : j≠i) (p : Int) :
    (s.turn i r).primaries.view j p=s.primaries.view j p∧
      (s.turn i r).primaries.own j p=s.primaries.own j p := by
  cases r with
  | mk e task =>
    cases e with
    | none => exact ⟨rfl,rfl⟩
    | address k o => exact ⟨rfl,rfl⟩
    | gone losers => exact ⟨rfl,rfl⟩
    | primary q x =>
      exact ⟨(view_put _).trans (if_neg fun h => hj h.1),(own_put _).trans (if_neg fun h => hj h.1)⟩

theorem turn_primary_row (s : State ι) (i : ι) (r : Effect×Task) (p : Int) :
    (s.turn i r).primaries.row p=s.primaries.row p := by
  cases r with
  | mk e task => cases e <;> rfl

/-- The transaction's own primary is the one it saw, unless the statement writes it. -/
theorem turn_primary (s : State ι) (i : ι) (r : Effect×Task) (p : Int) :
    ((s.turn i r).primaries.view i p=s.primaries.view i p∧
      (s.turn i r).primaries.own i p=s.primaries.own i p)∨
    ∃ x, r.1=.primary p x∧(s.turn i r).primaries.view i p=some x∧
      (s.turn i r).primaries.own i p=some (some x) := by
  cases r with
  | mk e task =>
    cases e with
    | none => exact .inl ⟨rfl,rfl⟩
    | address k o => exact .inl ⟨rfl,rfl⟩
    | gone losers => exact .inl ⟨rfl,rfl⟩
    | primary q x =>
      by_cases hq : p=q
      · subst hq
        exact .inr ⟨x,rfl,(view_put _).trans (if_pos ⟨rfl,rfl⟩),(own_put _).trans (if_pos ⟨rfl,rfl⟩)⟩
      · exact .inl ⟨(view_put _).trans (if_neg fun h => hq h.2),
          (own_put _).trans (if_neg fun h => hq h.2)⟩

/-- A statement's address is written over what the transaction had of it. -/
theorem turn_own (s : State ι) (i : ι) (r : Effect×Task) (k : Int×String) :
    (s.turn i r).addresses.own i k=s.addresses.own i k∨
    ∃ o, r.1=.address k o∧(s.turn i r).addresses.own i k=some o := by
  cases r with
  | mk e task =>
    cases e with
    | none => exact .inl rfl
    | gone losers => exact .inl rfl
    | primary q x => exact .inl rfl
    | address l o =>
      by_cases hl : k=l
      · subst hl
        exact .inr ⟨o,rfl,(own_put o).trans (if_pos ⟨rfl,rfl⟩)⟩
      · exact .inl ((own_put o).trans (if_neg fun h => hl h.2))

theorem turn_own_self {k : Int×String} {o : Option Address} (h : r.1=.address k o) :
    (s.turn i r).addresses.own i k=some o := by
  cases r with
  | mk e task =>
    cases h
    exact (own_put o).trans (if_pos ⟨rfl,rfl⟩)

theorem turn_leaving (ht : Turn s i r) (hgoes : (s.task i).isFailed=false) {p : Int}
    (h : Leaving s i p) : Leaving (s.turn i r) i p := by
  have hgone : p∈s.gone i → p∈(s.turn i r).gone i := by
    intro hp
    cases r with
    | mk e task =>
      cases e with
      | none => exact hp
      | address k o => exact hp
      | primary q x => exact hp
      | gone losers =>
        change p∈Function.update s.gone i (losers++s.gone i) i
        rw [Function.update_self]
        exact List.mem_append_right _ hp
  rcases h with hp | hp | hp
  · exact .inl (hgone hp)
  · rcases ht.leaving p hp with hp | hp | ⟨losers,he,hp⟩
    · exact .inr (.inl (by rwa [turn_task]))
    · exact .inr (.inr (by rwa [turn_task]))
    · refine .inl ?_
      cases r with
      | mk e task =>
        cases he
        change p∈Function.update s.gone i (losers++s.gone i) i
        rw [Function.update_self]
        exact List.mem_append_left _ hp
  · rw [hgoes] at hp
    cases hp

theorem turn_leaving_other (s : State ι) (r : Effect×Task) (hj : j≠i) (p : Int) :
    Leaving (s.turn i r) j p↔Leaving s j p := by
  rw [Leaving,turn_gone_other s r hj,turn_task_other s r hj,Leaving]

theorem turn_own_other (s : State ι) (r : Effect×Task) (hj : j≠i) (k : Int×String) :
    (s.turn i r).addresses.own j k=s.addresses.own j k := apply_own s r.1 hj k

theorem turn_drops_other (s : State ι) (r : Effect×Task) (hj : j≠i) (k : Int×String) :
    Drops (s.turn i r) j k↔Drops s j k := by
  rw [Drops,turn_own_other s r hj,Drops]

theorem taking_leaving {m : Merge} {k : Int×String} {keys : List (Int×String)}
    {taken : List Address} (hs : Sound s) (htask : s.task i=.taking m (k::keys) taken) :
    Leaving s i k.1 := by
  have hok := hs.tasks i
  rw [htask] at hok
  refine .inr (.inl ?_)
  rw [htask]
  exact hok.1 k List.mem_cons_self

/-- A row that one transaction drops anew was not one that another has as its primary. -/
theorem new_drop {p : Int} {x : Primary} (hl : Listed s) (hj : j≠i) (hp : p∈s.people)
    (hfree : s.addresses.free i (p,x.email)=true) (hoff : ¬On (s.addresses.view i) (p,x.email))
    (hdrops : ¬Drops s i (p,x.email)) (hx : s.primaries.view j p=some x) : ¬x.Chosen := by
  intro hchosen
  have hnone := free_iff.mp hfree j hj
  rcases hl.own j p hp x hx hchosen with ⟨a,ha,hv⟩ | ⟨-,hown⟩
  · rw [Table.view,hnone,Option.getD_none] at ha
    cases hown : s.addresses.own i (p,x.email) with
    | none => exact hoff ⟨a,by rw [Table.view,hown,Option.getD_none,ha],hv⟩
    | some o => exact hoff (on_of_own hown hdrops)
  · exact hown hnone

/-- What the condition gives for the statement at hand. -/
theorem apart_next (hok : Apart s (.next i)) :
    (∀ p e, s.task i=.removing p e → s.primary i p≠some e∧
      ∀ j x, j≠i → s.primaries.own j p=some (some x) → x.email≠e)∧
    ∀ p e setter, s.task i=.setting p e setter → On (s.addresses.view i) (p,e)∧
      ∀ j, j≠i → ¬Drops s j (p,e) := by
  refine ⟨?_,?_⟩
  · intro p e htask
    simpa only [Apart,htask] using hok
  · intro p e setter htask
    simpa only [Apart,htask] using hok

theorem turn_listed (hs : Sound s) (hl : Listed s) (ht : Turn s i r) (hgoes : (s.task i).isFailed=false)
    (hremoving : ∀ p e, s.task i=.removing p e → s.primary i p≠some e∧
      ∀ j x, j≠i → s.primaries.own j p=some (some x) → x.email≠e)
    (hsetting : ∀ p e setter, s.task i=.setting p e setter → On (s.addresses.view i) (p,e)∧
      ∀ j, j≠i → ¬Drops s j (p,e)) : Listed (s.turn i r) := by
  have hallowed := ht.allowed
  refine ⟨?_,?_,?_,?_⟩
  · cases r with
    | mk e task =>
      cases e with
      | none => exact hl.primaries
      | address k o => exact hl.primaries
      | gone losers => exact hl.primaries
      | primary p x =>
        exact hl.primaries.put hallowed.1 (fun _ _ _ hx => by cases hx) (fun _ _ _ hx => by cases hx)
  · intro p hp x hx hchosen
    rw [turn_people] at hp
    rw [turn_primary_row] at hx
    obtain ⟨a,ha,hv⟩ := hl.committed p hp x hx hchosen
    exact ⟨a,(apply_row s i r.1 _).trans ha,hv⟩
  · intro j p hp x hx hchosen
    rw [turn_people] at hp
    by_cases hj : j=i
    · subst hj
      have hlisted : On (s.addresses.view j) (p,x.email)∨
          (Leaving s j p∧s.addresses.own j (p,x.email)≠none) := by
        rcases turn_primary s j r p with ⟨hview,-⟩ | ⟨y,hy,hview,-⟩
        · exact hl.own j p hp x (hview.symm.trans hx) hchosen
        · cases hview.symm.trans hx
          rw [hy] at hallowed
          rcases hallowed.2 with hmerge | htask
          · rcases hchosen with hc | hc
            · cases hmerge.symm.trans hc
            · cases hmerge.symm.trans hc
          · exact .inl (hsetting p x.email x.setter htask).1
      have hkept : s.addresses.own j (p,x.email)≠none →
          (s.turn j r).addresses.own j (p,x.email)≠none := by
        intro hown
        rcases turn_own s j r (p,x.email) with hsame | ⟨o,-,ho⟩
        · rwa [hsame]
        · rw [ho]
          simp
      rcases hlisted with hon | ⟨hleaving,hown⟩
      · by_cases hdrop : r.1=.address (p,x.email) none
        · rw [hdrop] at hallowed
          rcases hallowed.2 with htask | ⟨m,keys,taken,htask⟩
          · -- the primary is still what the removal saw
            exfalso
            obtain ⟨hprimary,-⟩ := hremoving p x.email htask
            rcases turn_primary s j r p with ⟨hview,-⟩ | ⟨y,hy,-⟩
            · rw [hview] at hx
              rw [State.primary,hx] at hprimary
              exact hprimary rfl
            · cases hdrop.symm.trans hy
          · refine .inr ⟨turn_leaving ht hgoes (taking_leaving hs htask),?_⟩
            rw [turn_own_self hdrop]
            simp
        · exact .inl (turn_on ht hon hdrop)
      · exact .inr ⟨turn_leaving ht hgoes hleaving,hkept hown⟩
    · rw [(turn_primary_other s r hj p).1] at hx
      rcases hl.own j p hp x hx hchosen with ⟨a,ha,hv⟩ | ⟨hleaving,hown⟩
      · exact .inl ⟨a,(apply_view s r.1 hj _).trans ha,hv⟩
      · exact .inr ⟨(turn_leaving_other s r hj p).mpr hleaving,by rwa [turn_own_other s r hj]⟩
  · intro a b hab p hp e hdrops hstays hown x hx hchosen
    rw [turn_people] at hp
    by_cases ha : a=i
    · subst ha
      have hb : b≠a := Ne.symm hab
      have hstays' : ¬Leaving s a p := fun hleaving => hstays (turn_leaving ht hgoes hleaving)
      have hown' : s.primaries.own a p=none := by
        rcases turn_primary s a r p with ⟨-,hsame⟩ | ⟨y,-,-,hy⟩
        · rwa [← hsame]
        · cases hy.symm.trans hown
      rw [(turn_primary_other s r hb p).1] at hx
      by_cases hold : Drops s a (p,e)
      · exact hl.apart a b hab p hp e hold hstays' hown' x hx hchosen
      · intro hxe
        subst hxe
        obtain ⟨o,ho,hno⟩ := hdrops
        rcases turn_own s a r (p,x.email) with hsame | ⟨o',he,ho'⟩
        · exact hold ⟨o,hsame.symm.trans ho,hno⟩
        · cases ho'.symm.trans ho
          rw [he] at hallowed
          cases o with
          | none =>
            rcases hallowed.2 with htask | ⟨m,keys,taken,htask⟩
            · obtain ⟨hprimary,hothers⟩ := hremoving p x.email htask
              cases hbown : s.primaries.own b p with
              | none =>
                rw [Table.view,hbown,Option.getD_none] at hx
                rw [State.primary,Table.view,hown',Option.getD_none,hx] at hprimary
                exact hprimary rfl
              | some y =>
                rw [Table.view,hbown,Option.getD_some] at hx
                exact hothers b x hb (by rw [hbown,hx]) rfl
            · exact hstays' (taking_leaving hs htask)
          | some c =>
            refine new_drop hl hb hp hallowed.1 ?_ hold hx hchosen
            intro hon
            have hv := hallowed.2.2.2.1 hon
            rw [hno c rfl] at hv
            cases hv
    · rw [turn_drops_other s r ha] at hdrops
      rw [turn_leaving_other s r ha] at hstays
      rw [(turn_primary_other s r ha p).2] at hown
      by_cases hb : b=i
      · subst hb
        rcases turn_primary s b r p with ⟨hview,-⟩ | ⟨y,hy,hview,-⟩
        · exact hl.apart a b hab p hp e hdrops hstays hown x (hview.symm.trans hx) hchosen
        · cases hview.symm.trans hx
          rw [hy] at hallowed
          rcases hallowed.2 with hmerge | htask
          · rcases hchosen with hc | hc
            · cases hmerge.symm.trans hc
            · cases hmerge.symm.trans hc
          · intro hxe
            subst hxe
            exact (hsetting p x.email x.setter htask).2 a hab hdrops
      · rw [(turn_primary_other s r hb p).1] at hx
        exact hl.apart a b hab p hp e hdrops hstays hown x hx hchosen

end Turn

section End

theorem close_leaving {addresses : Table ι (Int×String) Address} {primaries : Table ι Int Primary}
    {people : List Int} (hj : j≠i) (p : Int) :
    Leaving (s.close i addresses primaries people) j p↔Leaving s j p := by
  have hgone : (s.close i addresses primaries people).gone j=s.gone j :=
    Function.update_of_ne hj ..
  have htask : (s.close i addresses primaries people).task j=s.task j :=
    Function.update_of_ne hj ..
  rw [Leaving,hgone,htask,Leaving]

/-- An address table that `i` is done with: the others wrote what they had, `i` nothing. -/
theorem close_own {rows : List ((Int×String)×Address)} {k : Int×String} {o : Option Address}
    (h : (s.addresses.close i rows).own j k=some o) : j≠i∧s.addresses.own j k=some o := by
  rw [own_close] at h
  split at h
  · cases h
  · rename_i hj
    exact ⟨hj,h⟩

theorem commit_listed (hl : Listed s) (hidle : s.task i=.idle) :
    Listed (s.close i (s.addresses.commit i) (s.primaries.commit i)
      (s.people.filter (· ∉ s.gone i))) := by
  have hstays : ∀ p, p∉s.gone i → ¬Leaving s i p := by
    intro p hp hleaving
    rw [Leaving,hidle] at hleaving
    rcases hleaving with h | h | h
    · exact hp h
    · cases h
    · cases h
  -- what the transaction saw is what is committed now
  have hmine : ∀ p∈s.people, p∉s.gone i → ∀ x, s.primaries.view i p=some x → x.Chosen →
      On (s.addresses.view i) (p,x.email) := by
    intro p hp hgone x hx hchosen
    rcases hl.own i p hp x hx hchosen with hon | ⟨hleaving,-⟩
    · exact hon
    · exact absurd hleaving (hstays p hgone)
  have hpeople : ∀ {p}, p∈s.people.filter (· ∉ s.gone i) → p∈s.people∧p∉s.gone i := by
    intro p hp
    obtain ⟨hmem,hgone⟩ := List.mem_filter.mp hp
    exact ⟨hmem,of_decide_eq_true hgone⟩
  refine ⟨hl.primaries.commit i,?_,?_,?_⟩
  · intro p hp x hx hchosen
    obtain ⟨hmem,hgone⟩ := hpeople hp
    obtain ⟨a,ha,hv⟩ := hmine p hmem hgone x (row_commit.symm.trans hx) hchosen
    exact ⟨a,row_commit.trans ha,hv⟩
  · intro j p hp x hx hchosen
    obtain ⟨hmem,hgone⟩ := hpeople hp
    have hx : (s.primaries.commit i).view j p=some x := hx
    rw [view_commit] at hx
    by_cases hj : j=i
    · rw [if_pos hj] at hx
      obtain ⟨a,ha,hv⟩ := hmine p hmem hgone x hx hchosen
      exact .inl ⟨a,view_commit.trans ((if_pos hj).trans ha),hv⟩
    · rw [if_neg hj] at hx
      have hown : (s.addresses.commit i).own j (p,x.email)=s.addresses.own j (p,x.email) :=
        (own_close _).trans (if_neg hj)
      cases hprimary : s.primaries.own j p with
      | some o =>
        rw [hprimary,Option.getD_some] at hx
        have hview : s.primaries.view j p=some x := by
          rw [Table.view,hprimary,Option.getD_some,hx]
        have hnone : s.primaries.own i p=none := by
          by_contra hsome
          exact hj (hl.primaries.apart j i p (by rw [hprimary]; simp) hsome)
        rcases hl.own j p hmem x hview hchosen with hon | ⟨hleaving,hwrote⟩
        · refine .inl ?_
          obtain ⟨a,ha,hv⟩ := hon
          cases hjown : s.addresses.own j (p,x.email) with
          | some q =>
            rw [Table.view,hjown,Option.getD_some] at ha
            exact ⟨a,view_commit.trans ((if_neg hj).trans (by rw [hjown,Option.getD_some,ha])),hv⟩
          | none =>
            rw [Table.view,hjown,Option.getD_none] at ha
            have hon : On (s.addresses.view i) (p,x.email) := by
              cases hiown : s.addresses.own i (p,x.email) with
              | none => exact ⟨a,by rw [Table.view,hiown,Option.getD_none,ha],hv⟩
              | some q =>
                refine on_of_own hiown ?_
                intro hdrops
                exact hl.apart i j (Ne.symm hj) p hmem _ hdrops (hstays p hgone) hnone x hview
                  hchosen rfl
            obtain ⟨b,hb,hbv⟩ := hon
            exact ⟨b,view_commit.trans ((if_neg hj).trans (by rw [hjown,Option.getD_none,hb])),hbv⟩
        · exact .inr ⟨(close_leaving hj p).mpr hleaving,fun hnone => hwrote (hown.symm.trans hnone)⟩
      | none =>
        rw [hprimary,Option.getD_none] at hx
        have hon := hmine p hmem hgone x hx hchosen
        cases hjown : s.addresses.own j (p,x.email) with
        | none =>
          obtain ⟨a,ha,hv⟩ := hon
          exact .inl ⟨a,view_commit.trans ((if_neg hj).trans (by rw [hjown,Option.getD_none,ha])),hv⟩
        | some q =>
          by_cases hdrops : Drops s j (p,x.email)
          · by_cases hleaving : Leaving s j p
            · refine .inr ⟨(close_leaving hj p).mpr hleaving,?_⟩
              intro hnone
              cases (hown.symm.trans hnone).symm.trans hjown
            · exact absurd rfl (hl.apart j i hj p hmem _ hdrops hleaving hprimary x hx hchosen)
          · obtain ⟨a,ha,hv⟩ := on_of_own hjown hdrops
            rw [Table.view,hjown,Option.getD_some] at ha
            exact .inl ⟨a,view_commit.trans ((if_neg hj).trans (by rw [hjown,Option.getD_some,ha])),hv⟩
  · intro a b hab p hp e hdrops hleaving hown x hx hchosen
    obtain ⟨hmem,hgone⟩ := hpeople hp
    obtain ⟨o,ho,hno⟩ := hdrops
    obtain ⟨ha,ho⟩ := close_own ho
    rw [close_leaving ha] at hleaving
    have hown' : s.primaries.own a p=none := by
      have hown : (s.primaries.commit i).own a p=none := hown
      rwa [Table.commit,own_close,if_neg ha] at hown
    have hx : (s.primaries.commit i).view b p=some x := hx
    rw [view_commit] at hx
    by_cases hb : b=i
    · rw [if_pos hb] at hx
      exact hl.apart a i ha p hmem e ⟨o,ho,hno⟩ hleaving hown' x hx hchosen
    · rw [if_neg hb] at hx
      cases hbown : s.primaries.own b p with
      | none =>
        rw [hbown,Option.getD_none] at hx
        exact hl.apart a i ha p hmem e ⟨o,ho,hno⟩ hleaving hown' x hx hchosen
      | some y =>
        rw [hbown,Option.getD_some] at hx
        refine hl.apart a b hab p hmem e ⟨o,ho,hno⟩ hleaving hown' x ?_ hchosen
        rw [Table.view,hbown,Option.getD_some,hx]

theorem abort_listed (hl : Listed s) :
    Listed (s.close i (s.addresses.abort i) (s.primaries.abort i) s.people) := by
  have hcommitted : ∀ p∈s.people, ∀ x, s.primaries.row p=some x → x.Chosen →
      On s.addresses.row (p,x.email) := hl.committed
  refine ⟨hl.primaries.abort i,hcommitted,?_,?_⟩
  · intro j p hp x hx hchosen
    have hx : (s.primaries.abort i).view j p=some x := hx
    rw [view_abort] at hx
    by_cases hj : j=i
    · rw [if_pos hj] at hx
      obtain ⟨a,ha,hv⟩ := hcommitted p hp x hx hchosen
      exact .inl ⟨a,view_abort.trans ((if_pos hj).trans ha),hv⟩
    · rw [if_neg hj] at hx
      rcases hl.own j p hp x hx hchosen with ⟨a,ha,hv⟩ | ⟨hleaving,hown⟩
      · exact .inl ⟨a,view_abort.trans ((if_neg hj).trans ha),hv⟩
      · refine .inr ⟨(close_leaving hj p).mpr hleaving,?_⟩
        intro hnone
        have hsame : (s.addresses.abort i).own j (p,x.email)=s.addresses.own j (p,x.email) :=
          (own_close _).trans (if_neg hj)
        exact hown (hsame.symm.trans hnone)
  · intro a b hab p hp e hdrops hleaving hown x hx hchosen
    obtain ⟨o,ho,hno⟩ := hdrops
    obtain ⟨ha,ho⟩ := close_own ho
    rw [close_leaving ha] at hleaving
    have hown' : s.primaries.own a p=none := by
      have hown : (s.primaries.abort i).own a p=none := hown
      rwa [Table.abort,own_close,if_neg ha] at hown
    have hx : (s.primaries.abort i).view b p=some x := hx
    rw [view_abort] at hx
    by_cases hb : b=i
    · rw [if_pos hb] at hx
      -- a committed primary is one `a` sees too
      have hview : s.primaries.view a p=some x := by rw [Table.view,hown',Option.getD_none,hx]
      intro hxe
      subst hxe
      rcases hl.own a p hp x hview hchosen with hon | ⟨hl',-⟩
      · exact not_on_of_drops ⟨o,ho,hno⟩ hon
      · exact hleaving hl'
    · rw [if_neg hb] at hx
      exact hl.apart a b hab p hp e ⟨o,ho,hno⟩ hleaving hown' x hx hchosen

end End

theorem step_listed {e : Event ι} (hs : Sound s) (hl : Listed s) (hok : Apart s e)
    (h : step text s e=some t) : Listed t := by
  rcases step_cases hs h with ⟨i,r,rfl,ht,hwhy⟩ | ⟨i,-,hidle,rfl⟩ | ⟨i,-,rfl⟩
  · rcases hwhy with ⟨op,-,hidle⟩ | ⟨rfl,hr⟩
    · refine turn_listed hs hl ht (by rw [hidle]; rfl) ?_ ?_
      · intro p x htask
        cases hidle.symm.trans htask
      · intro p x setter htask
        cases hidle.symm.trans htask
    · obtain ⟨hremoving,hsetting⟩ := apart_next hok
      refine turn_listed hs hl ht ?_ hremoving hsetting
      cases htask : s.task i with
      | failed e =>
        rw [htask] at hr
        cases hr
      | idle => rfl
      | adding person email hash expires => rfl
      | verifying person email hash now => rfl
      | removing person email => rfl
      | choosing person email => rfl
      | noting person email old => rfl
      | noted person email old => rfl
      | weighing person email primary => rfl
      | setting person email setter => rfl
      | relinked m email => rfl
      | crowning m email => rfl
      | filling m => rfl
      | searching m => rfl
      | backfilling m email => rfl
      | emptying m => rfl
      | taking m keys taken => rfl
      | laying m taken => rfl
  · exact commit_listed hl hidle
  · exact abort_listed hl

/-- The tables between transactions. -/
def State.start (addresses : List ((Int×String)×Address)) (primaries : List (Int×Primary))
    (people : List Int) : State ι :=
  ⟨⟨addresses,[]⟩,⟨primaries,[]⟩,people,fun _ => [],fun _ => .idle⟩

/-- Addresses under their keys, one verified on one person, and the chosen primaries listed. -/
structure Start (s : State ι) : Prop where
  keyed : ∀ k a, s.addresses.row k=some a → a.personCardId=k.1∧a.email=k.2
  unique : Unique verifiedEmail s.addresses.row
  listed : ∀ p∈s.people, ∀ x, s.primaries.row p=some x → x.Chosen → On s.addresses.row (p,x.email)

variable {addresses : List ((Int×String)×Address)} {primaries : List (Int×Primary)}
  {people : List Int}

theorem start_sound (h : Start (State.start addresses primaries people : State ι)) :
    Sound (State.start addresses primaries people : State ι) :=
  ⟨.start h.unique,h.keyed,fun _ => h.keyed,fun _ => trivial⟩

theorem start_listed (h : Start (State.start addresses primaries people : State ι)) :
    Listed (State.start addresses primaries people : State ι) where
  primaries := .start fun _ _ _ ⟨_,_,hx⟩ => by cases hx
  committed := h.listed
  own _ p hp x hx hchosen := .inl (h.listed p hp x hx hchosen)
  apart _ _ _ _ _ _ hdrops := by
    obtain ⟨o,ho,-⟩ := hdrops
    cases ho

/-- Over every run: an address is verified on one person at most and comes to be so as it
should, a merge loses none; where nothing overlaps, a chosen primary is on its person's list,
verified; and what `add` answers doesn't tell whose an address is, unless its mail fails. -/
theorem addresses_kept (h : Start (State.start addresses primaries people : State ι))
    {es : List (Event ι)}
    (hrun : Run (step text) (fun _ _ => True) (.start addresses primaries people) es s) :
    (∀ p q email, On s.addresses.row (p,email) → On s.addresses.row (q,email) → p=q)∧
    (∀ e t, step text s e=some t → ∀ k,
      (∀ j, On (t.addresses.view j) k → ¬On (s.addresses.view j) k →
        (e=.next j∧Earned s j k)∨(∃ i, e=.commit i∧On (s.addresses.view i) k)∨
          (e=.abort j∧On s.addresses.row k))∧
      (On t.addresses.row k → ¬On s.addresses.row k →
        ∃ i, e=.commit i∧On (s.addresses.view i) k))∧
    (∀ i t, step text s (.next i)=some t →
      (∀ a∈(t.task i).hand, a∈(s.task i).hand∨
        s.addresses.view i (a.personCardId,a.email)=some a)∧
      ((∃ m keys taken, s.task i=.taking m keys taken)∨(∃ m taken, s.task i=.laying m taken) →
        (t.task i).isFailed=false →
        (∀ e, Held s i e → Held t i e)∧∀ m a taken, s.task i=.laying m (a::taken) →
          a.verified=true → On (t.addresses.view i) (m.survivor,a.email)))∧
    (Run (step text) Apart (.start addresses primaries people) es s → ∀ p∈s.people, ∀ x,
      s.primaries.row p=some x → x.Chosen → On s.addresses.row (p,x.email))∧
    ∀ (env : AddEnv) (caller : Caller) (inputs : List AddInput) (person : Int) (w w' : World),
      AlikeFor person w w' → (∀ p, caller.person=some p → p=person) →
        (∀ email, env.deliver email=none) →
          (addCall env caller w inputs).1=(addCall env caller w' inputs).1∧
            AlikeFor person (addCall env caller w inputs).2 (addCall env caller w' inputs).2 := by
  have hsound : Sound s :=
    hrun.inv Sound (fun _ _ _ hs _ hst => step_sound hs hst) (start_sound h)
  refine ⟨fun _ _ _ => hsound.verified_once,fun _ _ hst _ => verified_by hsound hst,?_,?_,?_⟩
  · intro i t hst
    exact ⟨fun _ ha => taken_from hsound hst ha,fun hmerge hgoes => merge_holds hsound hst hmerge hgoes⟩
  · intro hapart
    have hboth : Sound s∧Listed s := by
      refine hapart.inv (fun s => Sound s∧Listed s) ?_ ⟨start_sound h,start_listed h⟩
      intro a e b hab hok hst
      exact ⟨step_sound hab.1 hst,step_listed hab.1 hab.2 hok hst⟩
    exact hboth.2.committed
  · intro env caller inputs person w w' hw hc hsend
    exact addCall_alike hw hc hsend

section Examples

def plain : Text := ⟨id,fun _ => false,fun _ => false⟩

/-- A sign-in of the second person, who has an address on the card only, and is then merged
into the third. -/
def signedInThenMerged : List (Event Nat) :=
  [.call 1 (.noteSignin (some 2) "ann@x" ""),.next 1,.next 1,.next 1,.commit 1,
    .call 2 (.merge ⟨plain,fun _ => none⟩ ⟨[],[],[],[]⟩ ⟨some 3,[.ofInt 2]⟩),.next 2,.next 2,
    .next 2,.next 2,.next 2,.next 2,.next 2,.next 2,.commit 2]

theorem empty_start (people : List Int) : Start (State.start [] [] people : State Nat) where
  keyed _ _ h := by cases h
  unique _ _ _ h := by
    obtain ⟨_,h,_⟩ := h
    cases h
  listed _ _ _ h := by cases h

/-- Whoever has the address now is the survivor. -/
theorem addresses_kept_merged : ∃ s, Run (step plain) (fun _ _ => True)
    (.start [] [] [2,3] : State Nat) signedInThenMerged s∧s.people=[3]∧
    On s.addresses.row (3,"ann@x")∧∀ p, On s.addresses.row (p,"ann@x") → p=3 := by
  have hend : (signedInThenMerged.foldlM (step plain) (.start [] [] [2,3])).map
      (fun s => (s.people,s.addresses.row (3,"ann@x")))=
        some ([3],some ⟨3,"ann@x",.signin,true,none,none⟩) := rfl
  obtain ⟨s,hs,hend⟩ := Option.map_eq_some_iff.mp hend
  simp only [Prod.mk.injEq] at hend
  have hrun : Run (step plain) (fun _ _ => True) (.start [] [] [2,3]) signedInThenMerged s :=
    .of_foldlM hs (by simp)
  have hon : On s.addresses.row (3,"ann@x") := ⟨_,hend.2,rfl⟩
  exact ⟨s,hrun,hend.1,hon,
    fun p hp => (addresses_kept (empty_start [2,3]) hrun).1 p 3 "ann@x" hp hon⟩

/-- Two addresses of one person, the first chosen. -/
def pair : State Nat :=
  .start [((2,"a@x"),⟨2,"a@x",.signin,true,none,none⟩),((2,"b@x"),⟨2,"b@x",.added,true,none,none⟩)]
    [(2,⟨"a@x",.chosen⟩)] [2]

/-- The other is removed while it is being chosen. -/
def overlapping : List (Event Nat) :=
  [.call 1 (.remove ⟨some 2,false,false⟩ none "b@x"),
    .call 2 (.setPrimary ⟨some 2,false,false⟩ "b@x"),.next 2,.next 2,.commit 2,.next 1,.commit 1]

def code : String := "0000000000000000000000000000000000000000000000000000000000000000"

/-- The mail server is down. -/
def down : AddEnv where
  text := plain
  now := 0
  sender := some 9
  config _ := .ok ⟨true,true,"kitp@x"⟩
  deliver _ := some ⟨"send_failed","the code couldn't be sent; try again in a moment"⟩
  recordedAt := 0

/-- The removal takes the new primary off the list; and an answer tells that somebody else has
the address verified, since only then no mail goes out to fail. -/
theorem chosen_then_removed : (∃ s p x, Run (step plain) (fun _ _ => True) pair overlapping s∧
      p∈s.people∧s.primaries.row p=some x∧x.setter=.chosen∧¬On s.addresses.row (p,x.email))∧
    ∃ w w', AlikeFor 2 w w'∧w'.rows=⟨3,"bob@x",.added,true,none,none⟩::w.rows∧
      (addCall down ⟨some 2,false,false⟩ w [⟨some "bob@x",some code⟩]).1=
        .error (0,⟨"send_failed","the code couldn't be sent; try again in a moment"⟩)∧
      (addCall down ⟨some 2,false,false⟩ w' [⟨some "bob@x",some code⟩]).1=.ok [⟨"bob@x",9⟩] := by
  refine ⟨?_,⟨[],[]⟩,⟨[⟨3,"bob@x",.added,true,none,none⟩],[]⟩,⟨rfl,rfl⟩,rfl,rfl,rfl⟩
  have hend : (overlapping.foldlM (step plain) pair).map
      (fun s => (s.people,s.primaries.row 2,s.addresses.row (2,"b@x")))=
        some ([2],some ⟨"b@x",.chosen⟩,none) := rfl
  obtain ⟨s,hs,hend⟩ := Option.map_eq_some_iff.mp hend
  simp only [Prod.mk.injEq] at hend
  obtain ⟨hpeople,hprimary,hrow⟩ := hend
  refine ⟨s,2,⟨"b@x",.chosen⟩,.of_foldlM hs (by simp),by simp [hpeople],hprimary,rfl,?_⟩
  rintro ⟨a,ha,-⟩
  cases hrow.symm.trans ha

end Examples

end Kitp.PersonEmails
