import Kitp.Lib.Runs
import Kitp.PortalBuilds

/-! A portal that isn't dirty shows a whole build that was loaded after every mark's commit. -/
namespace Kitp.PortalBuilds

open Kitp.Runs Kitp.Versions

variable {ι β : Type} [DecidableEq ι] [DecidableEq β] {keep : Int} {s t : State ι β} {i : ι}
  {b c : β} {p : Int} {j : Job} {bd : Build} {pr : List Nat}

/-- The portal whose flip is uncommitted. -/
def Phase.flips : Phase → Option Int
  | .flipped j _ _ => some j.portal
  | .orphan portal _ _ => some portal
  | _ => none

/-- What was listed was committed. -/
def Listed (s : State ι β) (todo : List (Int×Nat)) : Prop :=
  ∀ x∈todo, x.2∈s.shown∧s.states.row x.1≠none

/-- No other builder's flip of the portal is uncommitted. -/
def Alone (s : State ι β) (b : β) (p : Int) : Prop :=
  ∀ c, c≠b → (s.phase c).flips≠some p

/-- A mark committed since the load keeps the portal dirty, with another time than the one that
was listed. -/
def Caught (s : State ι β) (j : Job) (loadedAt : Nat) : Prop :=
  loadedAt ≤ s.commits∧∀ m∈s.marks, m.portal=j.portal → loadedAt ≤ m.time →
    ∃ r, s.states.row j.portal=some r∧r.dirtySince≠none∧r.dirtySince≠some j.since

/-- The build is newer than the portal's others. -/
def Newest (s : State ι β) (bd : Build) : Prop :=
  ∀ x∈s.builds, x.portalId=bd.portalId → x.id < bd.id

/-- All the files of a build of the portal were written with it. -/
def Whole (p : Int) (bd : Build) : Prop := bd.portalId=p∧bd.files=bd.rendered

/-- The row that the flip of a whole build has written. -/
def Flipped (s : State ι β) (b : β) (p : Int) (bd : Build) : Prop :=
  ∃ r, s.states.own (.inr b) p=some (some r)∧r.activeBuildId=some bd.id∧
    (∀ x, r.dirtySince=some x → x∈s.shown)∧
    (r.dirtySince=none → ∀ m∈s.marks, m.portal=p → m.time < bd.loadedAt)

def PhaseOk (s : State ι β) (b : β) : Phase → Prop
  | .idle => True
  | .listed todo => Listed s todo
  | .locked j => Listed s ((j.portal,j.since)::j.todo)
  | .attempted j => Listed s ((j.portal,j.since)::j.todo)∧Alone s b j.portal
  | .loaded j loadedAt | .stored j loadedAt _ =>
    Listed s ((j.portal,j.since)::j.todo)∧Alone s b j.portal∧Caught s j loadedAt
  | .inserted j bd res =>
    Listed s ((j.portal,j.since)::j.todo)∧Alone s b j.portal∧Caught s j bd.loadedAt∧
      bd.portalId=j.portal∧bd.rendered=res.files∧Newest s bd
  | .filed j bd =>
    Listed s ((j.portal,j.since)::j.todo)∧Alone s b j.portal∧Caught s j bd.loadedAt∧
      Whole j.portal bd∧Newest s bd
  | .flipping j bd pr =>
    Listed s ((j.portal,j.since)::j.todo)∧Alone s b j.portal∧Caught s j bd.loadedAt∧
      Whole j.portal bd∧bd.id∉pr
  | .flipped j bd pr =>
    Listed s j.todo∧Flipped s b j.portal bd∧Whole j.portal bd∧bd.id∉pr
  | .orphan p bd pr => Flipped s b p bd∧Whole p bd∧bd.id∉pr
  | .failed j _ | .releasing j => Listed s j.todo

/-- The active build is whole, and newer than every committed mark where the row isn't dirty. -/
structure RowOk (s : State ι β) (p : Int) (r : PortalState) : Prop where
  active : ∀ n, r.activeBuildId=some n → ∃ bd∈s.builds, bd.id=n∧Whole p bd
  current : r.dirtySince=none → ∀ m∈s.marks, m.portal=p →
    ∃ bd∈s.builds, r.activeBuildId=some bd.id∧Whole p bd∧m.time < bd.loadedAt
  shown : ∀ x, r.dirtySince=some x → x∈s.shown

/-- The time of an uncommitted mark. -/
def Opened (s : State ι β) (i : ι) (x : Nat) : Prop :=
  (∃ p, s.pending i=some (p,x))∨
    ∃ p r, s.states.own (.inl i) p=some (some r)∧r.dirtySince=some x

/-- No time is given twice. -/
structure Stamps (s : State ι β) : Prop where
  shown : ∀ x∈s.shown, x∈s.used
  opened : ∀ i x, Opened s i x → x∈s.used∧x∉s.shown
  apart : ∀ i k x, Opened s i x → Opened s k x → i=k

structure Sound (s : State ι β) : Prop where
  apart : ∀ x y p, s.states.own x p≠none → s.states.own y p≠none → x=y
  lock : ∀ b j, (s.phase b).job=some j → s.lock j.portal=some b
  flips : ∀ b p, s.states.own (.inr b) p≠none → (s.phase b).flips=some p
  rows : ∀ p r, s.states.row p=some r → RowOk s p r
  marks : ∀ m∈s.marks, m.time < s.commits∧s.states.row m.portal≠none
  marker : ∀ i p o, s.states.own (.inl i) p=some o → p∈s.touched i∧
    ∃ r, o=some r∧r.dirtySince≠none∧r.activeBuildId=(s.states.row p).bind (·.activeBuildId)
  touched : ∀ i, ∀ p∈s.touched i, s.states.own (.inl i) p≠none
  stamps : Stamps s
  phases : ∀ b, PhaseOk s b (s.phase b)

/-- What a step keeps of the things a builder at the phase rests on. -/
structure Keeps (s t : State ι β) (b : β) (ph : Phase) : Prop where
  shown : ∀ x∈s.shown, x∈t.shown
  rows : ∀ p, s.states.row p≠none → t.states.row p≠none
  alone : ∀ j, ph.job=some j → Alone s b j.portal → Alone t b j.portal
  caught : ∀ j l, ph.job=some j → (j.since∈s.shown) → Alone s b j.portal → Caught s j l →
    Caught t j l
  newest : ∀ bd j, ph.job=some j → bd.portalId=j.portal → Alone s b j.portal →
    Newest s bd → Newest t bd
  flipped : ∀ p bd, ph.flips=some p → Flipped s b p bd → Flipped t b p bd

omit [DecidableEq ι] [DecidableEq β] in
theorem Listed.keeps {todo : List (Int×Nat)} (h : Listed s todo)
    (hshown : ∀ x∈s.shown, x∈t.shown) (hrows : ∀ p, s.states.row p≠none → t.states.row p≠none) :
    Listed t todo :=
  fun x hx => ⟨hshown _ (h x hx).1,hrows _ (h x hx).2⟩

theorem PhaseOk.keeps {ph : Phase} (h : PhaseOk s b ph) (k : Keeps s t b ph) :
    PhaseOk t b ph := by
  have listed : ∀ {todo : List (Int×Nat)}, Listed s todo → Listed t todo :=
    fun hl => hl.keeps k.shown k.rows
  have since : ∀ {j : Job}, Listed s ((j.portal,j.since)::j.todo) → j.since∈s.shown :=
    fun hl => (hl _ List.mem_cons_self).1
  cases ph with
  | idle => trivial
  | listed todo => exact listed h
  | locked j => exact listed h
  | attempted j => exact ⟨listed h.1,k.alone j rfl h.2⟩
  | loaded j l =>
    obtain ⟨hl,ha,hc⟩ := h
    exact ⟨listed hl,k.alone j rfl ha,k.caught j l rfl (since hl) ha hc⟩
  | stored j l res =>
    obtain ⟨hl,ha,hc⟩ := h
    exact ⟨listed hl,k.alone j rfl ha,k.caught j l rfl (since hl) ha hc⟩
  | inserted j bd res =>
    obtain ⟨hl,ha,hc,hp,hr,hn⟩ := h
    exact ⟨listed hl,k.alone j rfl ha,k.caught j _ rfl (since hl) ha hc,hp,hr,
      k.newest bd j rfl hp ha hn⟩
  | filed j bd =>
    obtain ⟨hl,ha,hc,hw,hn⟩ := h
    exact ⟨listed hl,k.alone j rfl ha,k.caught j _ rfl (since hl) ha hc,hw,
      k.newest bd j rfl hw.1 ha hn⟩
  | flipping j bd pr =>
    obtain ⟨hl,ha,hc,hw,hpr⟩ := h
    exact ⟨listed hl,k.alone j rfl ha,k.caught j _ rfl (since hl) ha hc,hw,hpr⟩
  | flipped j bd pr =>
    obtain ⟨hl,hf,hw⟩ := h
    exact ⟨listed hl,k.flipped j.portal bd rfl hf,hw⟩
  | orphan p bd pr =>
    obtain ⟨hf,hw⟩ := h
    exact ⟨k.flipped p bd rfl hf,hw⟩
  | failed j err => exact listed h
  | releasing j => exact listed h

/-- A step that leaves the committed rows, the builds and the marks alone. -/
theorem Keeps.of_same {ph : Phase} (hrow : ∀ p, t.states.row p=s.states.row p)
    (hown : ∀ p, t.states.own (.inr b) p=s.states.own (.inr b) p) (hbuilds : t.builds=s.builds)
    (hcommits : t.commits=s.commits) (hmarks : t.marks=s.marks) (hshown : t.shown=s.shown)
    (halone : ∀ j, ph.job=some j → Alone s b j.portal → Alone t b j.portal) :
    Keeps s t b ph := by
  refine ⟨?_,?_,halone,?_,?_,?_⟩
  · rw [hshown]
    exact fun _ hx => hx
  · intro p hp
    rw [hrow]
    exact hp
  · intro j l _ _ _ hc
    unfold Caught at *
    rw [hcommits,hmarks,hrow]
    exact hc
  · intro bd j _ _ _ hn
    unfold Newest at *
    rw [hbuilds]
    exact hn
  · intro p bd _ hf
    unfold Flipped at *
    rw [hown,hshown,hmarks]
    exact hf

omit [DecidableEq ι] [DecidableEq β] in
theorem RowOk.of_same {r : PortalState} (h : RowOk s p r) (hbuilds : t.builds=s.builds)
    (hmarks : t.marks=s.marks) (hshown : t.shown=s.shown) : RowOk t p r := by
  refine ⟨?_,?_,?_⟩
  · rw [hbuilds]
    exact h.active
  · rw [hbuilds,hmarks]
    exact h.current
  · rw [hshown]
    exact h.shown

/-- A builder goes on by itself: its uncommitted row stays, or is rolled back. -/
theorem Sound.moved {ph : Phase} (h : Sound s) (hrow : ∀ p, t.states.row p=s.states.row p)
    (hown : ∀ x p, x≠.inr b → t.states.own x p=s.states.own x p)
    (hmine : ∀ p, t.states.own (.inr b) p≠none →
      ph.flips=some p∧s.states.own (.inr b) p≠none)
    (hbuilds : t.builds=s.builds) (hcommits : t.commits=s.commits) (hmarks : t.marks=s.marks)
    (hshown : t.shown=s.shown) (hused : t.used=s.used) (hpending : t.pending=s.pending)
    (htouched : t.touched=s.touched) (hphase : t.phase=Function.update s.phase b ph)
    (hlock : ∀ c, c≠b → ∀ p, s.lock p=some c → t.lock p=some c)
    (hjob : ∀ j, ph.job=some j → t.lock j.portal=some b)
    (hflips : ∀ p, ph.flips=some p → (s.phase b).flips=some p) (hok : PhaseOk t b ph) :
    Sound t := by
  have hother : ∀ c, c≠b → t.phase c=s.phase c := by
    intro c hcb
    rw [hphase,Function.update_of_ne hcb]
  have hself : t.phase b=ph := by rw [hphase,Function.update_self]
  have hflip : ∀ c p, (t.phase c).flips=some p → (s.phase c).flips=some p := by
    intro c p hc
    by_cases hcb : c=b
    · rw [hcb,hself] at hc
      exact hcb ▸ hflips p hc
    · rwa [hother c hcb] at hc
  have hsome : ∀ x p, t.states.own x p≠none → s.states.own x p≠none := by
    intro x p hx
    by_cases hxb : x=.inr b
    · rw [hxb] at hx ⊢
      exact (hmine p hx).2
    · rwa [hown x p hxb] at hx
  have hmarker : ∀ i p, t.states.own (.inl i) p=s.states.own (.inl i) p :=
    fun i p => hown _ _ fun hx => nomatch hx
  refine ⟨?_,?_,?_,?_,?_,?_,?_,?_,?_⟩
  · exact fun x y p hx hy => h.apart x y p (hsome x p hx) (hsome y p hy)
  · intro c j hj
    by_cases hcb : c=b
    · rw [hcb,hself] at hj
      exact hcb ▸ hjob j hj
    · rw [hother c hcb] at hj
      exact hlock c hcb j.portal (h.lock c j hj)
  · intro c p hc
    by_cases hcb : c=b
    · rw [hcb] at hc ⊢
      rw [hself]
      exact (hmine p hc).1
    · rw [hown _ _ fun hx => hcb (Sum.inr.inj hx)] at hc
      rw [hother c hcb]
      exact h.flips c p hc
  · intro p r hr
    rw [hrow] at hr
    exact (h.rows p r hr).of_same hbuilds hmarks hshown
  · intro m hm
    rw [hmarks] at hm
    rw [hcommits,hrow]
    exact h.marks m hm
  · intro i p o ho
    rw [hmarker] at ho
    rw [hrow,htouched]
    exact h.marker i p o ho
  · intro i p hp
    rw [htouched] at hp
    rw [hmarker]
    exact h.touched i p hp
  · have hopened : ∀ i x, Opened t i x → Opened s i x := by
      intro i x hx
      unfold Opened at *
      simpa only [hpending,hmarker] using hx
    refine ⟨?_,?_,?_⟩
    · rw [hshown,hused]
      exact h.stamps.shown
    · rw [hshown,hused]
      exact fun i x hx => h.stamps.opened i x (hopened i x hx)
    · exact fun i k x hi hk => h.stamps.apart i k x (hopened i x hi) (hopened k x hk)
  · intro c
    by_cases hcb : c=b
    · rw [hcb,hself]
      exact hok
    · rw [hother c hcb]
      refine (h.phases c).keeps (Keeps.of_same hrow ?_ hbuilds hcommits hmarks hshown ?_)
      · exact fun p => hown _ _ fun hx => hcb (Sum.inr.inj hx)
      · exact fun j _ ha d hd hf => ha d hd (hflip d j.portal hf)

/-- A builder takes or gives up a lock. -/
theorem Sound.relock (ph : Phase) {lock : Int → Option β} (h : Sound s)
    (hlock : ∀ c, c≠b → ∀ p, s.lock p=some c → lock p=some c)
    (hjob : ∀ j, ph.job=some j → lock j.portal=some b)
    (hflips : ph.flips=(s.phase b).flips) (hok : PhaseOk { s.goTo b ph with lock := lock } b ph) :
    Sound { s.goTo b ph with lock := lock } := by
  refine h.moved (b := b) (fun _ => rfl) (fun _ _ _ => rfl) ?_ rfl rfl rfl rfl rfl rfl rfl rfl
    hlock hjob (fun p hp => hflips ▸ hp) hok
  intro p hp
  exact ⟨hflips.trans (h.flips b p hp),hp⟩

/-- A builder goes on without a statement that writes. -/
theorem Sound.goTo {ph : Phase} (h : Sound s) (hjob : ∀ j, ph.job=some j → (s.phase b).job=some j)
    (hflips : ph.flips=(s.phase b).flips) (hok : PhaseOk (s.goTo b ph) b ph) :
    Sound (s.goTo b ph) :=
  h.relock ph (fun _ _ _ hl => hl) (fun j hj => h.lock b j (hjob j hj)) hflips hok

/-- The rows and builders are as they were: the clock gives a time it never gave. -/
theorem Sound.stamp {x : Nat} (h : Sound s) (hnew : ∀ y∈s.used, x≠y) :
    Sound { s with
      pending := Function.update s.pending i (some (p,x))
      used := x::s.used } := by
  have hopened : ∀ k y, Opened { s with
      pending := Function.update s.pending i (some (p,x))
      used := x::s.used } k y → Opened s k y∨k=i∧y=x := by
    intro k y hy
    cases hy with
    | inl hpending =>
      obtain ⟨q,hq⟩ := hpending
      by_cases hki : k=i
      · rw [hki] at hq
        simp only [Function.update_self,Option.some.injEq,Prod.mk.injEq] at hq
        exact Or.inr ⟨hki,hq.2.symm⟩
      · simp only [Function.update_of_ne hki] at hq
        exact Or.inl (Or.inl ⟨q,hq⟩)
    | inr hown => exact Or.inl (Or.inr hown)
  have hold : ∀ k, ¬Opened s k x :=
    fun k hk => hnew x (h.stamps.opened k x hk).1 rfl
  refine ⟨h.apart,h.lock,h.flips,?_,h.marks,h.marker,h.touched,?_,?_⟩
  · exact fun q r hr => (h.rows q r hr).of_same rfl rfl rfl
  · refine ⟨?_,?_,?_⟩
    · exact fun y hy => List.mem_cons_of_mem _ (h.stamps.shown y hy)
    · intro k y hy
      cases hopened k y hy with
      | inl hs => exact ⟨List.mem_cons_of_mem _ (h.stamps.opened k y hs).1,(h.stamps.opened k y hs).2⟩
      | inr hnow =>
        rw [hnow.2]
        exact ⟨List.mem_cons_self,fun hx => hnew x (h.stamps.shown x hx) rfl⟩
    · intro k l y hk hl
      cases hopened k y hk with
      | inl hks =>
        cases hopened l y hl with
        | inl hls => exact h.stamps.apart k l y hks hls
        | inr hnow => exact absurd (hnow.2 ▸ hks) (hold k)
      | inr hnow =>
        cases hopened l y hl with
        | inl hls => exact absurd (hnow.2 ▸ hls) (hold l)
        | inr hnow' => exact hnow.1.trans hnow'.1.symm
  · exact fun c => (h.phases c).keeps
      (Keeps.of_same (fun _ => rfl) (fun _ => rfl) rfl rfl rfl rfl fun _ _ ha => ha)

theorem Sound.marker_view (h : Sound s) {r : PortalState}
    (hr : s.states.view (.inl i) p=some r) :
    r.activeBuildId=(s.states.row p).bind (·.activeBuildId) := by
  cases hown : s.states.own (.inl i) p with
  | none =>
    rw [Table.view,hown,Option.getD_none] at hr
    rw [hr]
    rfl
  | some o =>
    obtain ⟨-,r',ho,-,hactive⟩ := h.marker i p o hown
    rw [Table.view,hown,Option.getD_some,ho] at hr
    cases hr
    exact hactive

theorem Sound.marker_none (h : Sound s) (hr : s.states.view (.inl i) p=none) :
    s.states.row p=none := by
  cases hown : s.states.own (.inl i) p with
  | none => rwa [Table.view,hown,Option.getD_none] at hr
  | some o =>
    obtain ⟨-,r',ho,-⟩ := h.marker i p o hown
    rw [Table.view,hown,Option.getD_some,ho] at hr
    cases hr

/-- A mark is written, its row still another transaction's to see. -/
theorem Sound.mark {x : Nat} (h : Sound s) (hpending : s.pending i=some (p,x))
    (hfree : s.states.free (.inl i) p=true) :
    Sound { s with
      states := s.states.put (.inl i) p (some (markedRow (s.states.view (.inl i) p) x))
      pending := Function.update s.pending i none
      touched := Function.update s.touched i (p::s.touched i) } := by
  have hothers := free_iff.mp hfree
  have hown : ∀ y q, (s.states.put (.inl i) p
      (some (markedRow (s.states.view (.inl i) p) x))).own y q=
        if y=.inl i∧q=p then some (some (markedRow (s.states.view (.inl i) p) x))
        else s.states.own y q := fun y q => own_put _
  have hbuilder : ∀ c q, (s.states.put (.inl i) p
      (some (markedRow (s.states.view (.inl i) p) x))).own (.inr c) q=s.states.own (.inr c) q := by
    intro c q
    rw [hown,if_neg fun hx => nomatch hx.1]
  have hdirty : (markedRow (s.states.view (.inl i) p) x).dirtySince=some x := by
    unfold markedRow
    split <;> rfl
  have hactive : (markedRow (s.states.view (.inl i) p) x).activeBuildId=
      (s.states.row p).bind (·.activeBuildId) := by
    cases hv : s.states.view (.inl i) p with
    | none =>
      rw [h.marker_none hv]
      rfl
    | some r =>
      have hr : r.activeBuildId=(s.states.row p).bind (·.activeBuildId) := h.marker_view hv
      exact hr
  have hopened : ∀ k y, Opened { s with
      states := s.states.put (.inl i) p (some (markedRow (s.states.view (.inl i) p) x))
      pending := Function.update s.pending i none
      touched := Function.update s.touched i (p::s.touched i) } k y → Opened s k y := by
    intro k y hy
    cases hy with
    | inl hpend =>
      obtain ⟨q,hq⟩ := hpend
      by_cases hki : k=i
      · rw [hki] at hq
        simp only [Function.update_self] at hq
        cases hq
      · simp only [Function.update_of_ne hki] at hq
        exact Or.inl ⟨q,hq⟩
    | inr hrow =>
      obtain ⟨q,r,hq,hr⟩ := hrow
      rw [hown] at hq
      by_cases hkp : (Sum.inl k : ι⊕β)=.inl i∧q=p
      · rw [if_pos hkp,Option.some.injEq,Option.some.injEq] at hq
        rw [← hq,hdirty,Option.some.injEq] at hr
        rw [Sum.inl.inj hkp.1,← hr]
        exact Or.inl ⟨p,hpending⟩
      · rw [if_neg hkp] at hq
        exact Or.inr ⟨q,r,hq,hr⟩
  refine ⟨?_,h.lock,?_,?_,h.marks,?_,?_,?_,?_⟩
  · intro y z q hy hz
    dsimp only at hy hz
    rw [hown] at hy hz
    by_cases hyp : y=.inl i∧q=p
    · by_cases hzp : z=.inl i∧q=p
      · exact hyp.1.trans hzp.1.symm
      · rw [if_neg hzp,hyp.2] at hz
        by_contra hne
        exact hz (hothers z fun hzi => hne (hyp.1.trans hzi.symm))
    · rw [if_neg hyp] at hy
      by_cases hzp : z=.inl i∧q=p
      · rw [hzp.2] at hy
        by_contra hne
        exact hy (hothers y fun hyi => hne (hyi.trans hzp.1.symm))
      · rw [if_neg hzp] at hz
        exact h.apart y z q hy hz
  · intro c q hc
    dsimp only at hc
    rw [hbuilder] at hc
    exact h.flips c q hc
  · exact fun q r hr => (h.rows q r hr).of_same rfl rfl rfl
  · intro k q o ho
    dsimp only at ho ⊢
    rw [hown] at ho
    by_cases hkp : (Sum.inl k : ι⊕β)=.inl i∧q=p
    · rw [if_pos hkp,Option.some.injEq] at ho
      refine ⟨?_,_,ho.symm,?_,?_⟩
      · rw [Sum.inl.inj hkp.1,hkp.2,Function.update_self]
        exact List.mem_cons_self
      · rw [hdirty]
        exact Option.some_ne_none x
      · rw [hkp.2]
        exact hactive
    · rw [if_neg hkp] at ho
      obtain ⟨hmem,hrest⟩ := h.marker k q o ho
      refine ⟨?_,hrest⟩
      by_cases hki : k=i
      · rw [hki,Function.update_self]
        exact List.mem_cons_of_mem _ (hki ▸ hmem)
      · rwa [Function.update_of_ne hki]
  · intro k q hq
    dsimp only at hq ⊢
    rw [hown]
    by_cases hkp : (Sum.inl k : ι⊕β)=.inl i∧q=p
    · rw [if_pos hkp]
      exact Option.some_ne_none _
    · rw [if_neg hkp]
      refine h.touched k q ?_
      by_cases hki : k=i
      · rw [hki,Function.update_self] at hq
        cases List.mem_cons.mp hq with
        | inl hqp => exact absurd ⟨congrArg Sum.inl hki,hqp⟩ hkp
        | inr hold => exact hki ▸ hold
      · rwa [Function.update_of_ne hki] at hq
  · exact ⟨h.stamps.shown,fun k y hy => h.stamps.opened k y (hopened k y hy),
      fun k l y hk hl => h.stamps.apart k l y (hopened k y hk) (hopened l y hl)⟩
  · exact fun c => (h.phases c).keeps (Keeps.of_same (fun _ => rfl) (hbuilder c) rfl rfl rfl rfl
      fun _ _ ha => ha)

/-- Rows that were written count as seen once they are committed. -/
theorem commitTx_sound (h : Sound s) (hnone : s.pending i=none) : Sound (commitTx s i) := by
  have hrow : ∀ q, (s.states.commit (.inl i)).row q=s.states.view (.inl i) q :=
    fun q => row_commit
  have hown : ∀ y q, (s.states.commit (.inl i)).own y q=
      if y=.inl i then none else s.states.own y q := fun y q => own_close _
  have hbuilder : ∀ c q, (s.states.commit (.inl i)).own (.inr c) q=s.states.own (.inr c) q := by
    intro c q
    rw [hown,if_neg fun hx => nomatch hx]
  have hsome : ∀ y q, (s.states.commit (.inl i)).own y q≠none →
      y≠.inl i∧s.states.own y q≠none := by
    intro y q hy
    rw [hown] at hy
    by_cases hyi : y=.inl i
    · exact absurd (if_pos hyi) hy
    · rw [if_neg hyi] at hy
      exact ⟨hyi,hy⟩
  -- a row is untouched, or has a time of its own that was never shown
  have hcases : ∀ q, (q∉s.touched i∧s.states.view (.inl i) q=s.states.row q)∨
      ∃ r x, s.states.own (.inl i) q=some (some r)∧s.states.view (.inl i) q=some r∧
        r.dirtySince=some x∧r.activeBuildId=(s.states.row q).bind (·.activeBuildId)∧
        q∈s.touched i∧Opened s i x := by
    intro q
    cases hq : s.states.own (.inl i) q with
    | none =>
      refine Or.inl ⟨fun hmem => h.touched i q hmem hq,?_⟩
      rw [Table.view,hq,Option.getD_none]
    | some o =>
      obtain ⟨hmem,r,ho,hdirty,hactive⟩ := h.marker i q o hq
      obtain ⟨x,hx⟩ := Option.ne_none_iff_exists'.mp hdirty
      rw [ho] at hq
      refine Or.inr ⟨r,x,by rw [ho],?_,hx,hactive,hmem,Or.inr ⟨q,r,hq,hx⟩⟩
      rw [Table.view,hq,Option.getD_some]
  have hrows : ∀ q, s.states.row q≠none → (s.states.commit (.inl i)).row q≠none := by
    intro q hq
    rw [hrow]
    obtain ⟨-,hv⟩ | ⟨r,x,-,hv,-⟩ := hcases q
    · rwa [hv]
    · rw [hv]
      exact Option.some_ne_none r
  have hmarks : (commitTx s i).marks=
      s.marks++(s.touched i).map fun p => ⟨p,s.commits⟩ := rfl
  have hshown : (commitTx s i).shown=s.shown++(s.touched i).filterMap fun p =>
      (s.states.view (.inl i) p).bind (·.dirtySince) := rfl
  have hold : ∀ m∈(commitTx s i).marks, m.portal∉s.touched i → m∈s.marks := by
    intro m hm hp
    rw [hmarks] at hm
    cases List.mem_append.mp hm with
    | inl hs => exact hs
    | inr hnew =>
      obtain ⟨q,hq,hmq⟩ := List.mem_map.mp hnew
      rw [← hmq] at hp
      exact absurd hq hp
  have hmore : ∀ x∈s.shown, x∈(commitTx s i).shown := by
    intro x hx
    rw [hshown]
    exact List.mem_append_left _ hx
  refine ⟨?_,h.lock,?_,?_,?_,?_,?_,?_,?_⟩
  · exact fun y z q hy hz => h.apart y z q (hsome y q hy).2 (hsome z q hz).2
  · exact fun c q hc => h.flips c q (hsome _ q hc).2
  · intro q r hr
    have hv : s.states.view (.inl i) q=some r := (hrow q).symm.trans hr
    obtain ⟨hq,hsame⟩ | ⟨r',x,-,hv',hx,hactive,hq,-⟩ := hcases q
    · have hok := h.rows q r (hsame.symm.trans hv)
      exact ⟨hok.active,fun hd m hm hmq => hok.current hd m (hold m hm (hmq ▸ hq)) hmq,
        fun y hy => hmore y (hok.shown y hy)⟩
    · rw [hv'] at hv
      cases hv
      refine ⟨?_,?_,?_⟩
      · intro n hn
        rw [hactive] at hn
        obtain ⟨r0,hr0,hn0⟩ := Option.bind_eq_some_iff.mp hn
        exact (h.rows q r0 hr0).active n hn0
      · intro hd
        rw [hx] at hd
        cases hd
      · intro y hy
        rw [hshown]
        refine List.mem_append_right _ (List.mem_filterMap.mpr ⟨q,hq,?_⟩)
        rw [hv',Option.bind_some,hy]
  · intro m hm
    rw [hmarks] at hm
    cases List.mem_append.mp hm with
    | inl hs =>
      obtain ⟨hlt,hne⟩ := h.marks m hs
      exact ⟨Nat.lt_succ_of_lt hlt,hrows _ hne⟩
    | inr hnew =>
      obtain ⟨q,hq,rfl⟩ := List.mem_map.mp hnew
      refine ⟨Nat.lt_succ_self _,?_⟩
      show (s.states.commit (.inl i)).row q≠none
      rw [hrow]
      obtain ⟨hnot,-⟩ | ⟨r,x,-,hv,-⟩ := hcases q
      · exact absurd hq hnot
      · rw [hv]
        exact Option.some_ne_none r
  · intro k q o ho
    have ho' : (s.states.commit (.inl i)).own (.inl k) q=some o := ho
    obtain ⟨hki,hne⟩ := hsome _ q (ho' ▸ Option.some_ne_none o)
    rw [hown,if_neg hki] at ho'
    obtain ⟨hmem,r,hor,hdirty,hactive⟩ := h.marker k q o ho'
    have hik : k≠i := fun hx => hki (congrArg Sum.inl hx)
    have hmem' : q∈(commitTx s i).touched k := by
      show q∈Function.update s.touched i [] k
      rwa [Function.update_of_ne hik]
    refine ⟨hmem',r,hor,hdirty,?_⟩
    -- the row is not the committed transaction's
    obtain ⟨-,hsame⟩ | ⟨r',x,hi,-⟩ := hcases q
    · show r.activeBuildId=((s.states.commit (.inl i)).row q).bind (·.activeBuildId)
      rw [hrow,hsame]
      exact hactive
    · exact absurd (h.apart _ _ q hne (hi ▸ Option.some_ne_none _)) hki
  · intro k q hq
    by_cases hki : k=i
    · rw [hki] at hq
      have hnil : q∈Function.update s.touched i [] i := hq
      rw [Function.update_self] at hnil
      cases hnil
    · have hq' : q∈Function.update s.touched i [] k := hq
      rw [Function.update_of_ne hki] at hq'
      show (s.states.commit (.inl i)).own (.inl k) q≠none
      rw [hown,if_neg fun hx => hki (Sum.inl.inj hx)]
      exact h.touched k q hq'
  · have hopened : ∀ k x, Opened (commitTx s i) k x → k≠i∧Opened s k x := by
      intro k x hx
      cases hx with
      | inl hpend =>
        obtain ⟨q,hq⟩ := hpend
        have hq' : s.pending k=some (q,x) := hq
        refine ⟨?_,Or.inl ⟨q,hq'⟩⟩
        intro hki
        rw [hki,hnone] at hq'
        cases hq'
      | inr hrow =>
        obtain ⟨q,r,hq,hr⟩ := hrow
        have hq' : (s.states.commit (.inl i)).own (.inl k) q=some (some r) := hq
        obtain ⟨hki,-⟩ := hsome _ q (hq' ▸ Option.some_ne_none _)
        rw [hown,if_neg hki] at hq'
        exact ⟨fun hx => hki (congrArg Sum.inl hx),Or.inr ⟨q,r,hq',hr⟩⟩
    have hnewly : ∀ x∈(commitTx s i).shown, x∈s.shown∨Opened s i x := by
      intro x hx
      rw [hshown] at hx
      cases List.mem_append.mp hx with
      | inl hs => exact Or.inl hs
      | inr hnew =>
        obtain ⟨q,hq,hv⟩ := List.mem_filterMap.mp hnew
        obtain ⟨hnot,-⟩ | ⟨r,y,-,hv',hy,-,-,hopen⟩ := hcases q
        · exact absurd hq hnot
        · rw [hv',Option.bind_some,hy,Option.some.injEq] at hv
          exact Or.inr (hv ▸ hopen)
    refine ⟨?_,?_,?_⟩
    · intro x hx
      cases hnewly x hx with
      | inl hs => exact h.stamps.shown x hs
      | inr hi => exact (h.stamps.opened i x hi).1
    · intro k x hx
      obtain ⟨hki,hk⟩ := hopened k x hx
      refine ⟨(h.stamps.opened k x hk).1,?_⟩
      intro hs
      cases hnewly x hs with
      | inl hs => exact (h.stamps.opened k x hk).2 hs
      | inr hi => exact hki (h.stamps.apart k i x hk hi)
    · exact fun k l x hk hl => h.stamps.apart k l x (hopened k x hk).2 (hopened l x hl).2
  · intro c
    refine (h.phases c).keeps ⟨hmore,hrows,fun _ _ ha => ha,?_,fun _ _ _ _ _ hn => hn,?_⟩
    · intro j l _ hsince _ hcaught
      refine ⟨Nat.le_succ_of_le hcaught.1,?_⟩
      intro m hm hmp hl
      show ∃ r, (s.states.commit (.inl i)).row j.portal=some r∧_
      rw [hrow]
      obtain ⟨hq,hsame⟩ | ⟨r,x,-,hv,hx,-,-,hopen⟩ := hcases j.portal
      · rw [hsame]
        exact hcaught.2 m (hold m hm (hmp ▸ hq)) hmp hl
      · refine ⟨r,hv,by rw [hx]; exact Option.some_ne_none x,?_⟩
        intro hd
        rw [hx,Option.some.injEq] at hd
        exact (h.stamps.opened i x hopen).2 (hd ▸ hsince)
    · intro q bd _ hf
      obtain ⟨r,hr,hactive,hs,hcurrent⟩ := hf
      have hr' : (commitTx s i).states.own (.inr c) q=some (some r) := (hbuilder c q).trans hr
      refine ⟨r,hr',hactive,fun x hx => hmore x (hs x hx),?_⟩
      intro hd m hm hmq
      refine hcurrent hd m (hold m hm ?_) hmq
      -- the flip holds the row
      intro hmem
      have hx := h.apart _ _ q (hr ▸ Option.some_ne_none _) (h.touched i q (hmq ▸ hmem))
      cases hx

theorem Sound.abortTx (h : Sound s) :
    Sound { s with
      states := s.states.abort (.inl i)
      pending := Function.update s.pending i none
      touched := Function.update s.touched i [] } := by
  have hown : ∀ y q, (s.states.abort (.inl i)).own y q=
      if y=.inl i then none else s.states.own y q := fun y q => own_close _
  have hbuilder : ∀ c q, (s.states.abort (.inl i)).own (.inr c) q=s.states.own (.inr c) q := by
    intro c q
    rw [hown,if_neg fun hx => nomatch hx]
  have hmarker : ∀ k q o, (s.states.abort (.inl i)).own (.inl k) q=some o →
      k≠i∧s.states.own (.inl k) q=some o := by
    intro k q o ho
    rw [hown] at ho
    by_cases hki : (Sum.inl k : ι⊕β)=.inl i
    · rw [if_pos hki] at ho
      cases ho
    · rw [if_neg hki] at ho
      exact ⟨fun hx => hki (congrArg Sum.inl hx),ho⟩
  have hsome : ∀ y q, (s.states.abort (.inl i)).own y q≠none → s.states.own y q≠none := by
    intro y q hy
    rw [hown] at hy
    by_cases hyi : y=.inl i
    · exact absurd (if_pos hyi) hy
    · rwa [if_neg hyi] at hy
  refine ⟨?_,h.lock,?_,?_,h.marks,?_,?_,?_,?_⟩
  · exact fun y z q hy hz => h.apart y z q (hsome y q hy) (hsome z q hz)
  · exact fun c q hc => h.flips c q (hsome _ q hc)
  · exact fun q r hr => (h.rows q r hr).of_same rfl rfl rfl
  · intro k q o ho
    obtain ⟨hki,hold⟩ := hmarker k q o ho
    dsimp only
    rw [Function.update_of_ne hki]
    exact h.marker k q o hold
  · intro k q hq
    dsimp only at hq ⊢
    by_cases hki : k=i
    · rw [hki,Function.update_self] at hq
      cases hq
    · rw [Function.update_of_ne hki] at hq
      rw [hown,if_neg fun hx => hki (Sum.inl.inj hx)]
      exact h.touched k q hq
  · have hopened : ∀ k x, Opened { s with
        states := s.states.abort (.inl i)
        pending := Function.update s.pending i none
        touched := Function.update s.touched i [] } k x → Opened s k x := by
      intro k x hx
      cases hx with
      | inl hpend =>
        obtain ⟨q,hq⟩ := hpend
        by_cases hki : k=i
        · rw [hki] at hq
          simp only [Function.update_self] at hq
          cases hq
        · simp only [Function.update_of_ne hki] at hq
          exact Or.inl ⟨q,hq⟩
      | inr hrow =>
        obtain ⟨q,r,hq,hr⟩ := hrow
        exact Or.inr ⟨q,r,(hmarker k q _ hq).2,hr⟩
    exact ⟨h.stamps.shown,fun k x hx => h.stamps.opened k x (hopened k x hx),
      fun k l x hk hl => h.stamps.apart k l x (hopened k x hk) (hopened l x hl)⟩
  · exact fun c => (h.phases c).keeps (Keeps.of_same (fun _ => rfl) (hbuilder c) rfl rfl rfl rfl
      fun _ _ ha => ha)

end Kitp.PortalBuilds
