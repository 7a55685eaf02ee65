import Kitp.PortalBuildFlips

/-! The builds' ids: what a transaction inserts is nobody else's. -/
namespace Kitp.PortalBuilds

open Kitp.Runs Kitp.Versions

variable {ι β : Type} [DecidableEq ι] [DecidableEq β] {keep : Int} {s t : State ι β} {i : ι}
  {b c : β} {p : Int} {j : Job} {bd : Build} {pr : List Nat}

/-- The build a transaction has inserted. -/
def Phase.build : Phase → Option Build
  | .inserted _ bd _ | .filed _ bd | .flipping _ bd _ | .flipped _ bd _ | .orphan _ bd _ => some bd
  | _ => none

/-- No two builds have one id. -/
structure Numbered (s : State ι β) : Prop where
  builds : ∀ x∈s.builds, x.id < s.nextBuild
  inserted : ∀ c x, (s.phase c).build=some x → x.id < s.nextBuild∧∀ y∈s.builds, y.id≠x.id
  apart : ∀ c d x y, (s.phase c).build=some x → (s.phase d).build=some y → x.id=y.id → c=d
  unique : ∀ x∈s.builds, ∀ y∈s.builds, x.id=y.id → x=y

omit [DecidableEq ι] in
theorem Numbered.moved {ph : Phase} (h : Numbered s) (hbuilds : t.builds=s.builds)
    (hnext : t.nextBuild=s.nextBuild) (hphase : t.phase=Function.update s.phase b ph)
    (hph : ∀ x, ph.build=some x → ∃ y, (s.phase b).build=some y∧y.id=x.id) : Numbered t := by
  have hold : ∀ c x, (t.phase c).build=some x → ∃ y, (s.phase c).build=some y∧y.id=x.id := by
    intro c x hx
    rw [hphase] at hx
    by_cases hcb : c=b
    · rw [hcb,Function.update_self] at hx
      exact hcb ▸ hph x hx
    · rw [Function.update_of_ne hcb] at hx
      exact ⟨x,hx,rfl⟩
  refine ⟨?_,?_,?_,?_⟩
  · rw [hbuilds,hnext]
    exact h.builds
  · intro c x hx
    obtain ⟨y,hy,hid⟩ := hold c x hx
    rw [hbuilds,hnext,← hid]
    exact h.inserted c y hy
  · intro c d x y hx hy hxy
    obtain ⟨x',hx',hidx⟩ := hold c x hx
    obtain ⟨y',hy',hidy⟩ := hold d y hy
    exact h.apart c d x' y' hx' hy' (hidx.trans (hxy.trans hidy.symm))
  · rw [hbuilds]
    exact h.unique

omit [DecidableEq ι] [DecidableEq β] in
theorem Numbered.same (h : Numbered s) (hbuilds : t.builds=s.builds)
    (hnext : t.nextBuild=s.nextBuild) (hphase : t.phase=s.phase) : Numbered t := by
  refine ⟨?_,?_,?_,?_⟩
  · rw [hbuilds,hnext]
    exact h.builds
  · rw [hbuilds,hnext,hphase]
    exact h.inserted
  · rw [hphase]
    exact h.apart
  · rw [hbuilds]
    exact h.unique

omit [DecidableEq ι] in
theorem Numbered.insertBuild {l : Nat} {res : Result} (h : Numbered s) :
    Numbered (insertBuild s b j l res) := by
  have hnew : ∀ c x, (Function.update s.phase b (.inserted j
      ⟨s.nextBuild,j.portal,res.pageCount,res.warnings,[],res.files,l⟩ res) c).build=some x →
        c=b∧x.id=s.nextBuild∨c≠b∧(s.phase c).build=some x := by
    intro c x hx
    by_cases hcb : c=b
    · rw [hcb,Function.update_self] at hx
      cases hx
      exact Or.inl ⟨hcb,rfl⟩
    · rw [Function.update_of_ne hcb] at hx
      exact Or.inr ⟨hcb,hx⟩
  refine ⟨?_,?_,?_,h.unique⟩
  · exact fun x hx => Nat.lt_succ_of_lt (h.builds x hx)
  · intro c x hx
    cases hnew c x hx with
    | inl hself =>
      refine ⟨hself.2 ▸ Nat.lt_succ_self _,?_⟩
      intro y hy hyx
      have hlt := h.builds y hy
      rw [hyx,hself.2] at hlt
      exact absurd hlt (Nat.lt_irrefl _)
    | inr hother =>
      obtain ⟨hlt,hne⟩ := h.inserted c x hother.2
      exact ⟨Nat.lt_succ_of_lt hlt,hne⟩
  · intro c d x y hx hy hxy
    cases hnew c x hx with
    | inl hc =>
      cases hnew d y hy with
      | inl hd => exact hc.1.trans hd.1.symm
      | inr hd =>
        have hlt := (h.inserted d y hd.2).1
        rw [← hxy,hc.2] at hlt
        exact absurd hlt (Nat.lt_irrefl _)
    | inr hc =>
      cases hnew d y hy with
      | inl hd =>
        have hlt := (h.inserted c x hc.2).1
        rw [hxy,hd.2] at hlt
        exact absurd hlt (Nat.lt_irrefl _)
      | inr hd => exact h.apart c d x y hc.2 hd.2 hxy

theorem Numbered.landed {ph : Phase} (h : Numbered s) (hb : (s.phase b).build=some bd)
    (hph : ph.build=none) : Numbered (s.landed b p bd pr ph) := by
  have hold : ∀ c x, ((s.landed b p bd pr ph).phase c).build=some x →
      c≠b∧(s.phase c).build=some x := by
    intro c x hx
    have hx' : (Function.update s.phase b ph c).build=some x := hx
    by_cases hcb : c=b
    · rw [hcb,Function.update_self,hph] at hx'
      cases hx'
    · rw [Function.update_of_ne hcb] at hx'
      exact ⟨hcb,hx'⟩
  have hmem : ∀ x∈(s.landed b p bd pr ph).builds, x∈s.builds∨x=bd :=
    fun x hx => (mem_landed.mp hx).1
  refine ⟨?_,?_,?_,?_⟩
  · intro x hx
    cases hmem x hx with
    | inl hs => exact h.builds x hs
    | inr hbd => exact hbd ▸ (h.inserted b bd hb).1
  · intro c x hx
    obtain ⟨hcb,hs⟩ := hold c x hx
    refine ⟨(h.inserted c x hs).1,?_⟩
    intro y hy hyx
    cases hmem y hy with
    | inl hys => exact (h.inserted c x hs).2 y hys hyx
    | inr hbd => exact hcb (h.apart c b x bd hs hb (hbd ▸ hyx.symm))
  · exact fun c d x y hx hy hxy => h.apart c d x y (hold c x hx).2 (hold d y hy).2 hxy
  · intro x hx y hy hxy
    cases hmem x hx with
    | inl hs =>
      cases hmem y hy with
      | inl hs' => exact h.unique x hs y hs' hxy
      | inr hbd => exact absurd (hbd ▸ hxy) ((h.inserted b bd hb).2 x hs)
    | inr hbd =>
      cases hmem y hy with
      | inl hs' => exact absurd (hbd ▸ hxy.symm) ((h.inserted b bd hb).2 y hs')
      | inr hbd' => exact hbd.trans hbd'.symm

omit [DecidableEq ι] in
theorem Numbered.drop (ph : Phase) (h : Numbered s) (hbuilds : t.builds=s.builds)
    (hnext : t.nextBuild=s.nextBuild) (hphase : t.phase=Function.update s.phase b ph)
    (hph : ph.build=none) : Numbered t := by
  refine h.moved hbuilds hnext hphase ?_
  intro x hx
  rw [hph] at hx
  cases hx

theorem Numbered.updated {f : PortalState → PortalState} {ph : Phase} (h : Numbered s)
    (hph : ph.build=none) (hu : s.update b p f ph=some t) : Numbered t := by
  unfold State.update at hu
  split at hu
  · split at hu
    · cases hu
      exact h.drop _ rfl rfl rfl hph
    · cases hu
      exact h.drop _ rfl rfl rfl hph
  · cases hu

omit [DecidableEq ι] in
theorem nextPortal_numbered {todo : List (Int×Nat)} (h : Numbered s) :
    Numbered (nextPortal s b todo) := by
  cases todo with
  | nil => exact h.drop .idle rfl rfl rfl rfl
  | cons x todo =>
    simp only [nextPortal]
    cases s.lock x.1 with
    | some c => exact h.drop (.listed todo) rfl rfl rfl rfl
    | none => exact h.drop (.locked ⟨x.1,x.2,todo⟩) rfl rfl rfl rfl

theorem flip_numbered {now : Nat} (h : Numbered s) (hphase : s.phase b=.flipping j bd pr)
    (hn : flip s b j bd pr now=some t) : Numbered t := by
  have hph : ∀ x, (Phase.flipped j bd pr).build=some x →
      ∃ y, (s.phase b).build=some y∧y.id=x.id := by
    intro x hx
    cases hx
    exact ⟨bd,by rw [hphase]; rfl,rfl⟩
  unfold flip at hn
  split at hn
  · split at hn
    · cases hn
      exact h.moved rfl rfl rfl hph
    · cases hn
      exact h.moved rfl rfl rfl hph
  · cases hn

theorem fail_numbered {err : BuildError} {landed : Bool} (h : Numbered s)
    (hn : fail s b err landed=some t) : Numbered t := by
  unfold fail at hn
  split at hn
  case h_9 j bd pr hphase =>
    cases hn
    cases landed with
    | true => exact h.landed (by rw [hphase]; rfl) rfl
    | false => exact h.drop (.failed j err) rfl rfl rfl rfl
  case h_10 => cases hn
  all_goals
    cases hn
    exact h.drop _ rfl rfl rfl rfl

theorem kill_numbered {sent : Bool} (h : Numbered s) (hn : kill s b sent=some t) :
    Numbered t := by
  unfold kill at hn
  split at hn
  · cases hn
  · cases hn
  · rename_i j bd pr hphase
    cases hn
    cases sent with
    | true =>
      refine h.moved rfl rfl
        (show _=Function.update s.phase b (.orphan j.portal bd pr) from rfl) ?_
      intro x hx
      cases hx
      exact ⟨bd,by rw [hphase]; rfl,rfl⟩
    | false => exact h.drop .idle rfl rfl rfl rfl
  · cases hn
    cases (s.phase b).job with
    | none => exact h.drop .idle rfl rfl rfl rfl
    | some j => exact h.drop .idle rfl rfl rfl rfl

theorem step_numbered {e : Event ι β} (h : Numbered s) (hn : step keep s e=some t) :
    Numbered t := by
  cases e with
  | fail b err landed => exact fail_numbered h hn
  | kill b sent => exact kill_numbered h hn
  | abortTx i =>
    cases hn
    exact h.same rfl rfl rfl
  | mark i =>
    simp only [step] at hn
    split at hn
    · cases hn
    · simp only [Option.ite_none_right_eq_some,Option.some.injEq] at hn
      rw [← hn.2]
      exact h.same rfl rfl rfl
  | list b env =>
    simp only [step] at hn
    split at hn
    · cases hn
      split
      · exact h
      · exact h.drop _ rfl rfl rfl rfl
    · cases hn
  | next b =>
    simp only [step] at hn
    split at hn
    · cases hn
      exact nextPortal_numbered h
    · cases hn
  | attempt b now =>
    simp only [step] at hn
    split at hn
    · exact h.updated rfl hn
    · cases hn
  | recordError b =>
    simp only [step] at hn
    split at hn
    · exact h.updated rfl hn
    · cases hn
  | insertBuild b =>
    simp only [step] at hn
    split at hn
    · cases hn
      exact h.insertBuild
    · cases hn
  | insertFiles b =>
    simp only [step] at hn
    split at hn
    · rename_i j bd res hphase
      cases hn
      refine h.moved (b := b) rfl rfl rfl ?_
      intro x hx
      cases hx
      exact ⟨bd,by rw [hphase]; rfl,rfl⟩
    · cases hn
  | prune b =>
    simp only [step] at hn
    split at hn
    · rename_i j bd hphase
      cases hn
      refine h.moved (b := b) rfl rfl rfl ?_
      intro x hx
      cases hx
      exact ⟨bd,by rw [hphase]; rfl,rfl⟩
    · cases hn
  | flip b now =>
    simp only [step] at hn
    split at hn
    · rename_i j bd pr hphase
      exact flip_numbered h hphase hn
    · cases hn
  | commit b =>
    simp only [step] at hn
    split at hn
    · rename_i j bd pr hphase
      cases hn
      exact h.landed (by rw [hphase]; rfl) rfl
    · cases hn
  | land b committed =>
    simp only [step] at hn
    split at hn
    · rename_i p bd pr hphase
      cases hn
      cases committed with
      | true => exact h.landed (by rw [hphase]; rfl) rfl
      | false => exact h.drop .idle rfl rfl rfl rfl
    · cases hn
  | stamp i p x =>
    simp only [step] at hn
    split at hn
    · cases hn
      exact h.same rfl rfl rfl
    · cases hn
  | commitTx i =>
    simp only [step] at hn
    split at hn
    · cases hn
      exact h.same rfl rfl rfl
    · cases hn
  | _ =>
    simp only [step] at hn
    split at hn
    · cases hn
      exact h.drop _ rfl rfl rfl rfl
    · cases hn

omit [DecidableEq ι] [DecidableEq β] in
theorem start_numbered : Numbered (start : State ι β) :=
  ⟨fun _ hx => (nomatch hx),fun _ _ hx => (nomatch hx),fun _ _ _ _ hx => (nomatch hx),
    fun _ hx => (nomatch hx)⟩

end Kitp.PortalBuilds
