import Kitp.PortalBuildIds

/-! What every run of the marks and the builders keeps. -/
namespace Kitp.PortalBuilds

open Kitp.Runs Kitp.Versions

variable {ι β : Type} [DecidableEq ι] [DecidableEq β] {keep : Int} {s t : State ι β} {i : ι}
  {b c : β} {p : Int} {j : Job} {bd : Build} {pr : List Nat}

omit [DecidableEq ι] [DecidableEq β] in
/-- The newest build isn't pruned. -/
theorem not_pruned (hportal : bd.portalId=p) (hn : Newest s bd) :
    bd.id∉pruned (keepBuilds keep) (s.builds++[bd]) p := by
  intro hmem
  simp only [pruned,List.mem_filter,decide_eq_true_eq] at hmem
  obtain ⟨-,hle⟩ := hmem
  have hnone : (((s.builds++[bd]).filter (·.portalId=p)).map (·.id)).filter (bd.id < ·)=[] := by
    rw [List.filter_eq_nil_iff]
    intro n hid
    obtain ⟨x,hx,rfl⟩ := List.mem_map.mp hid
    obtain ⟨hxs,hxp⟩ := List.mem_filter.mp hx
    rw [decide_eq_true_eq] at hxp ⊢
    cases List.mem_append.mp hxs with
    | inl hs =>
      have hlt := hn x hs (hxp.trans hportal.symm)
      omega
    | inr hlast =>
      rw [List.mem_singleton.mp hlast]
      exact Nat.lt_irrefl _
  rw [hnone,List.length_nil] at hle
  unfold keepBuilds DefaultKeepBuilds at hle
  split at hle <;> omega

/-- What is listed is committed. -/
theorem dirtyPortals_listed {env : Env} (h : Sound s) (hidle : s.phase b=.idle) :
    Listed s (dirtyPortals s b env) := by
  intro x hx
  have hx := List.mem_mergeSort.mp (List.mem_of_mem_take hx)
  obtain ⟨q,hq,hd⟩ := List.mem_filterMap.mp hx
  have hview := mem_scan.mp (List.mem_filter.mp hq).1
  have hnone := h.own_none (b := b) (by rw [hidle]; rfl) q.1
  rw [Table.view,hnone,Option.getD_none] at hview
  obtain ⟨d,hd',hqd⟩ := Option.map_eq_some_iff.mp hd
  rw [← hqd]
  exact ⟨(h.rows q.1 q.2 hview).shown d hd',hview ▸ Option.some_ne_none q.2⟩

/-- A rollback leaves the builder no row. -/
theorem Sound.rollback {ph : Phase} {lock : Int → Option β} (h : Sound s)
    (hlock : ∀ c, c≠b → ∀ p, s.lock p=some c → lock p=some c)
    (hjob : ∀ j, ph.job=some j → lock j.portal=some b) (hflips : ph.flips=none)
    (hok : PhaseOk { s.rollback b ph with lock := lock } b ph) :
    Sound { s.rollback b ph with lock := lock } := by
  have hown : ∀ y q, (s.states.abort (.inr b)).own y q=
      if y=.inr b then none else s.states.own y q := fun y q => own_close _
  refine h.moved (b := b) (fun _ => rfl) ?_ ?_ rfl rfl rfl rfl rfl rfl rfl rfl hlock hjob ?_ hok
  · intro y q hy
    exact (hown y q).trans (if_neg hy)
  · intro q hq
    exact absurd ((hown _ q).trans (if_pos rfl)) hq
  · intro q hq
    rw [hflips] at hq
    cases hq

omit [DecidableEq ι] [DecidableEq β] in
/-- A lock that is given up was its holder's. -/
theorem unlock_keeps (hb : s.lock p=some b) (c : β) (hcb : c≠b) (q : Int) (hq : s.lock q=some c) :
    Function.update s.lock p none q=some c := by
  by_cases hqp : q=p
  · rw [hqp,hb] at hq
    exact absurd (Option.some.inj hq).symm hcb
  · rwa [Function.update_of_ne hqp]

/-- `lockPortal` takes a lock that nobody has. -/
theorem nextPortal_sound {todo : List (Int×Nat)} (h : Sound s) (hphase : s.phase b=.listed todo) :
    Sound (nextPortal s b todo) := by
  have hlisted : Listed s todo := by
    have hok := h.phases b
    rw [hphase] at hok
    exact hok
  have hflips : (s.phase b).flips=none := by rw [hphase]; rfl
  cases todo with
  | nil =>
    show Sound (s.goTo b .idle)
    exact h.goTo (fun j hj => by cases hj) hflips.symm trivial
  | cons x todo =>
    obtain ⟨p,d⟩ := x
    simp only [nextPortal]
    cases hlock : s.lock p with
    | some c =>
      show Sound (s.goTo b (.listed todo))
      exact h.goTo (fun j hj => by cases hj) hflips.symm
        fun x hx => hlisted x (List.mem_cons_of_mem _ hx)
    | none =>
      refine h.relock (.locked ⟨p,d,todo⟩) ?_ ?_ hflips.symm hlisted
      · intro c _ q hq
        by_cases hqp : q=p
        · rw [hqp,hlock] at hq
          cases hq
        · rwa [Function.update_of_ne hqp]
      · intro j hj
        cases hj
        exact Function.update_self _ _ _

/-- The inserted build has the newest id. -/
theorem insertBuild_sound {l : Nat} {res : Result} (h : Sound s) (hnum : Numbered s)
    (hphase : s.phase b=.stored j l res) : Sound (insertBuild s b j l res) := by
  have hok := h.phases b
  rw [hphase] at hok
  obtain ⟨hlisted,halone,hcaught⟩ := hok
  have hkeep : Alone (insertBuild s b j l res) b j.portal := by
    intro c hcb
    have hc : (insertBuild s b j l res).phase c=s.phase c := Function.update_of_ne hcb _ _
    rw [hc]
    exact halone c hcb
  refine h.moved (b := b) (fun _ => rfl) (fun _ _ _ => rfl) ?_ rfl rfl rfl rfl rfl rfl rfl rfl
    (fun _ _ _ hl => hl) ?_ (fun q hq => by cases hq)
    ⟨hlisted,hkeep,hcaught,rfl,rfl,fun x hx _ => hnum.builds x hx⟩
  · intro q hq
    have hnone := h.own_none (b := b) (by rw [hphase]; rfl) q
    exact absurd hnone hq
  · intro j' hj
    cases hj
    exact h.lock b j (by rw [hphase]; rfl)

theorem Sound.landed_flip {ph : Phase} (h : Sound s) (hphase : s.phase b=.flipped j bd pr)
    (hph : ph.flips=none) (hjob : ph.job=some j) (hok : ∀ t : State ι β, Listed t j.todo →
      PhaseOk t b ph) : Sound (s.landed b j.portal bd pr ph) := by
  have hb := h.phases b
  rw [hphase] at hb
  obtain ⟨hlisted,hflipped,hwhole,hpr⟩ := hb
  refine h.landed hflipped hwhole hpr (by rw [hphase]; rfl) hph ?_ ?_
  · intro j' hj
    rw [hphase]
    exact hjob.symm.trans hj
  · intro t hrows hshown
    exact hok t (hlisted.keeps (fun x hx => hshown ▸ hx) hrows)

/-- An early return has no job left; an error is recorded before the lock goes. -/
theorem fail_sound {err : BuildError} {landed : Bool} (h : Sound s)
    (hn : fail s b err landed=some t) : Sound t := by
  have hok := h.phases b
  have hfailed : ∀ {j : Job}, (s.phase b).job=some j → (s.phase b).flips=none →
      Listed s ((j.portal,j.since)::j.todo) → Sound (s.goTo b (.failed j err)) := by
    intro j hj hf hl
    refine h.goTo ?_ hf.symm fun x hx => hl x (List.mem_cons_of_mem _ hx)
    intro j' hj'
    exact hj.trans hj'
  cases hphase : s.phase b with
  | idle => simp [fail,hphase] at hn
  | releasing j => simp [fail,hphase] at hn
  | failed j err => simp [fail,hphase] at hn
  | orphan p bd pr => simp [fail,hphase] at hn
  | listed todo =>
    simp only [fail,hphase,Option.some.injEq] at hn
    rw [← hn]
    exact h.goTo (fun j hj => by cases hj) (by rw [hphase]; rfl) trivial
  | locked j =>
    simp only [fail,hphase,Option.some.injEq] at hn
    rw [← hn]
    refine h.relock _ (fun _ _ _ hl => hl) ?_ (by rw [hphase]; rfl) fun x hx => by cases hx
    intro j' hj
    cases hj
    exact h.lock b j (by rw [hphase]; rfl)
  | flipped j bd pr =>
    simp only [fail,hphase,Option.some.injEq] at hn
    rw [← hn]
    cases landed with
    | true =>
      rw [if_pos rfl]
      exact h.landed_flip hphase rfl rfl fun t hl => hl
    | false =>
      rw [if_neg (by decide)]
      rw [hphase] at hok
      refine h.rollback (fun _ _ _ hl => hl) ?_ rfl hok.1
      intro j' hj
      cases hj
      exact h.lock b j (by rw [hphase]; rfl)
  | _ =>
    simp only [fail,hphase,Option.some.injEq] at hn
    rw [hphase] at hok hfailed
    exact hn ▸ hfailed rfl rfl hok.1

/-- A killed builder's lock ends; a commit that was sent may still be on its way. -/
theorem kill_sound {sent : Bool} (h : Sound s) (hn : kill s b sent=some t) : Sound t := by
  have hok := h.phases b
  have gone : ∀ {j : Job}, (s.phase b).job=some j → (s.phase b).flips=none →
      Sound ((s.goTo b .idle).unlock j.portal) := fun hj hf =>
    h.relock _ (unlock_keeps (h.lock b _ hj)) (fun j hj => by cases hj) hf.symm trivial
  cases hphase : s.phase b with
  | idle => simp [kill,hphase] at hn
  | orphan p bd pr => simp [kill,hphase] at hn
  | flipped j bd pr =>
    have hlock := h.lock b j (by rw [hphase]; rfl)
    simp only [kill,hphase,Option.some.injEq] at hn
    rw [← hn]
    cases sent with
    | true =>
      rw [if_pos rfl]
      rw [hphase] at hok
      exact h.relock _ (unlock_keeps hlock) (fun j hj => by cases hj) (by rw [hphase]; rfl) hok.2
    | false =>
      rw [if_neg (by decide)]
      exact h.rollback (unlock_keeps hlock) (fun j hj => by cases hj) rfl trivial
  | listed todo =>
    simp only [kill,hphase,Phase.job,Option.elim_none,Option.some.injEq] at hn
    rw [← hn]
    exact h.goTo (fun j hj => by cases hj) (by rw [hphase]; rfl) trivial
  | _ =>
    simp only [kill,hphase,Phase.job,Option.elim_some,Option.some.injEq] at hn
    rw [hphase] at gone
    exact hn ▸ gone rfl rfl

/-- `clock_timestamp` gives a time that it never gave. -/
def NeverRepeats (s : State ι β) : Event ι β → Prop
  | .stamp _ _ time => ∀ x∈s.used, time≠x
  | _ => True

omit [DecidableEq ι] in
theorem Alone.goTo {ph : Phase} (h : Alone s b p) : Alone (s.goTo b ph) b p := by
  intro c hcb
  have hc : (s.goTo b ph).phase c=s.phase c := Function.update_of_ne hcb _ _
  rw [hc]
  exact h c hcb

/-- A try is counted once no other flip of the portal is uncommitted. -/
theorem attempt_sound {now : Nat} (h : Sound s) (hphase : s.phase b=.locked j)
    (hn : s.update b j.portal (attemptedRow · now) (.attempted j)=some t) : Sound t := by
  have hok := h.phases b
  rw [hphase] at hok
  refine h.updated (f := (attemptedRow · now)) (fun r => ⟨rfl,rfl⟩)
    (by rw [hphase]; rfl) (by rw [hphase]; rfl) (by rfl) ?_ hn
  intro t hrows hshown hphases hfree
  refine ⟨Listed.keeps hok (fun x hx => hshown ▸ hx) hrows,?_⟩
  intro c hcb
  rw [hphases c hcb]
  exact h.alone_of_free hfree c hcb

theorem recordError_sound {err : BuildError} (h : Sound s) (hphase : s.phase b=.failed j err)
    (hn : s.update b j.portal (fun r => { r with lastError := some err.message })
      (.releasing j)=some t) : Sound t := by
  have hok := h.phases b
  rw [hphase] at hok
  refine h.updated (f := fun r => { r with lastError := some err.message })
    (fun r => ⟨rfl,rfl⟩) (by rw [hphase]; rfl) (by rw [hphase]; rfl) (by rfl) ?_ hn
  intro t hrows hshown _ _
  exact Listed.keeps hok (fun x hx => hshown ▸ hx) hrows

theorem step_sound {e : Event ι β} (h : Sound s) (hnum : Numbered s) (hfresh : NeverRepeats s e)
    (hn : step keep s e=some t) : Sound t := by
  cases e with
  | stamp i p x =>
    simp only [step] at hn
    split at hn
    · cases hn
      exact h.stamp hfresh
    · cases hn
  | mark i =>
    simp only [step] at hn
    split at hn
    · cases hn
    · rename_i hpending
      simp only [Option.ite_none_right_eq_some,Option.some.injEq] at hn
      rw [← hn.2]
      exact h.mark hpending hn.1
  | commitTx i =>
    simp only [step] at hn
    split at hn
    · rename_i hnone
      cases hn
      exact commitTx_sound h hnone
    · cases hn
  | abortTx i =>
    cases hn
    exact h.abortTx
  | list b env =>
    simp only [step] at hn
    split at hn
    · rename_i hphase
      cases hn
      split
      · exact h
      · exact h.goTo (fun j hj => by cases hj) (by rw [hphase]; rfl) (dirtyPortals_listed h hphase)
    · cases hn
  | next b =>
    simp only [step] at hn
    split at hn
    · rename_i todo hphase
      cases hn
      exact nextPortal_sound h hphase
    · cases hn
  | attempt b now =>
    simp only [step] at hn
    split at hn
    · rename_i j hphase
      exact attempt_sound h hphase hn
    · cases hn
  | load b =>
    have hok := h.phases b
    simp only [step] at hn
    split at hn
    · rename_i j hphase
      rw [hphase] at hok
      cases hn
      refine h.goTo (fun j' hj => by rw [hphase]; exact hj) (by rw [hphase]; rfl)
        ⟨hok.1,hok.2.goTo,Nat.le_refl _,?_⟩
      -- every mark so far was committed before the load
      intro m hm _ hl
      have hlt := (h.marks m hm).1
      omega
    · cases hn
  | store b res =>
    have hok := h.phases b
    simp only [step] at hn
    split at hn
    · rename_i j l hphase
      rw [hphase] at hok
      cases hn
      exact h.goTo (fun j' hj => by rw [hphase]; exact hj) (by rw [hphase]; rfl)
        ⟨hok.1,hok.2.1.goTo,hok.2.2⟩
    · cases hn
  | insertBuild b =>
    simp only [step] at hn
    split at hn
    · rename_i j l res hphase
      cases hn
      exact insertBuild_sound h hnum hphase
    · cases hn
  | insertFiles b =>
    have hok := h.phases b
    simp only [step] at hn
    split at hn
    · rename_i j bd res hphase
      rw [hphase] at hok
      obtain ⟨hlisted,halone,hcaught,hportal,hfiles,hnew⟩ := hok
      cases hn
      exact h.goTo (fun j' hj => by rw [hphase]; exact hj) (by rw [hphase]; rfl)
        ⟨hlisted,halone.goTo,hcaught,⟨hportal,hfiles.symm⟩,hnew⟩
    · cases hn
  | prune b =>
    have hok := h.phases b
    simp only [step] at hn
    split at hn
    · rename_i j bd hphase
      rw [hphase] at hok
      obtain ⟨hlisted,halone,hcaught,hwhole,hnew⟩ := hok
      cases hn
      exact h.goTo (fun j' hj => by rw [hphase]; exact hj) (by rw [hphase]; rfl)
        ⟨hlisted,halone.goTo,hcaught,hwhole,not_pruned hwhole.1 hnew⟩
    · cases hn
  | flip b now =>
    simp only [step] at hn
    split at hn
    · rename_i j bd pr hphase
      exact h.flip hphase hn
    · cases hn
  | commit b =>
    simp only [step] at hn
    split at hn
    · rename_i j bd pr hphase
      cases hn
      exact h.landed_flip hphase rfl rfl fun t hl => hl
    · cases hn
  | fail b err landed => exact fail_sound h hn
  | recordError b =>
    simp only [step] at hn
    split at hn
    · rename_i j err hphase
      exact recordError_sound h hphase hn
    · cases hn
  | skipRecord b =>
    have hok := h.phases b
    simp only [step] at hn
    split at hn
    · rename_i j err hphase
      rw [hphase] at hok
      cases hn
      exact h.goTo (fun j' hj => by rw [hphase]; exact hj) (by rw [hphase]; rfl) hok
    · cases hn
  | release b =>
    have hok := h.phases b
    simp only [step] at hn
    split at hn
    · rename_i j hphase
      rw [hphase] at hok
      cases hn
      exact h.relock _ (unlock_keeps (h.lock b j (by rw [hphase]; rfl))) (fun j' hj => by cases hj)
        (by rw [hphase]; rfl) hok
    · cases hn
  | kill b sent => exact kill_sound h hn
  | land b committed =>
    have hok := h.phases b
    simp only [step] at hn
    split at hn
    · rename_i p bd pr hphase
      rw [hphase] at hok
      cases hn
      cases committed with
      | true =>
        rw [if_pos rfl]
        exact h.landed hok.1 hok.2.1 hok.2.2 (by rw [hphase]; rfl) rfl (fun j hj => by cases hj)
          fun _ _ _ => trivial
      | false =>
        rw [if_neg (by decide)]
        exact h.rollback (fun _ _ _ hl => hl) (fun j hj => by cases hj) rfl trivial
    · cases hn

theorem start_sound : Sound (start : State ι β) := by
  have hrow : ∀ p, (start : State ι β).states.row p=none := fun _ => rfl
  have hown : ∀ x p, (start : State ι β).states.own x p=none := fun _ _ => rfl
  refine ⟨?_,?_,?_,?_,?_,?_,?_,?_,?_⟩
  · exact fun x y p hx => absurd (hown x p) hx
  · exact fun b j hj => by cases hj
  · exact fun b p hp => absurd (hown _ p) hp
  · intro p r hr
    rw [hrow] at hr
    cases hr
  · exact fun m hm => by cases hm
  · intro i p o ho
    rw [hown] at ho
    cases ho
  · exact fun i p hp => by cases hp
  · have hopened : ∀ i x, ¬Opened (start : State ι β) i x := by
      intro i x hx
      cases hx with
      | inl hp =>
        obtain ⟨p,hp⟩ := hp
        cases hp
      | inr hr =>
        obtain ⟨p,r,hr,-⟩ := hr
        rw [hown] at hr
        cases hr
    exact ⟨fun x hx => (by cases hx),fun i x hx => absurd hx (hopened i x),
      fun i k x hx => absurd hx (hopened i x)⟩
  · exact fun b => trivial

instance (e : Event ι β) : Decidable (NeverRepeats s e) :=
  match e with
  | .stamp _ _ time => inferInstanceAs (Decidable (∀ x∈s.used, time≠x))
  | .mark _ | .commitTx _ | .abortTx _ | .list _ _ | .next _ | .attempt _ _ | .load _ | .store _ _
  | .insertBuild _ | .insertFiles _ | .prune _ | .flip _ _ | .commit _ | .fail _ _ _
  | .recordError _ | .skipRecord _ | .release _ | .kill _ _ | .land _ _ => isTrue trivial

theorem run_sound {es : List (Event ι β)} (hrun : Run (step keep) NeverRepeats start es s) :
    Sound s∧Numbered s := by
  refine hrun.inv (fun s => Sound s∧Numbered s) ?_ ⟨start_sound,start_numbered⟩
  intro s e t h hfresh hst
  exact ⟨step_sound h.1 h.2 hfresh hst,step_numbered h.2 hst⟩

/-- A portal that isn't dirty shows a build that was loaded after the commit of each of its marks;
no two builders have one portal; and the build a portal shows has all its files. -/
theorem portals_current {es : List (Event ι β)}
    (hrun : Run (step keep) NeverRepeats start es s) :
    (∀ m∈s.marks, ∃ r, s.states.row m.portal=some r∧(r.dirtySince=none →
      ∃ bd∈s.builds, r.activeBuildId=some bd.id∧bd.portalId=m.portal∧m.time < bd.loadedAt))∧
    (∀ b c j k, (s.phase b).job=some j → (s.phase c).job=some k → j.portal=k.portal → b=c)∧
    (∀ p r n, s.states.row p=some r → r.activeBuildId=some n →
      ∃ bd∈s.builds, bd.id=n∧bd.portalId=p∧bd.files=bd.rendered∧∀ x∈s.builds, x.id=n → x=bd) := by
  obtain ⟨h,hnum⟩ := run_sound hrun
  refine ⟨?_,?_,?_⟩
  · intro m hm
    obtain ⟨r,hr⟩ := Option.ne_none_iff_exists'.mp (h.marks m hm).2
    refine ⟨r,hr,?_⟩
    intro hclean
    obtain ⟨bd,hbd,hactive,hwhole,hlt⟩ := (h.rows m.portal r hr).current hclean m hm rfl
    exact ⟨bd,hbd,hactive,hwhole.1,hlt⟩
  · intro b c j k hj hk hjk
    have hb := h.lock b j hj
    have hc := h.lock c k hk
    rw [hjk] at hb
    exact Option.some.inj (hb.symm.trans hc)
  · intro p r n hr hn
    obtain ⟨bd,hbd,hid,hportal,hfiles⟩ := (h.rows p r hr).active n hn
    refine ⟨bd,hbd,hid,hportal,hfiles,?_⟩
    intro x hx hxn
    exact hnum.unique x hx bd hbd (hxn.trans hid.symm)

/-- A page is changed while a builder renders the one before: the portal stays dirty, and is built
again. -/
def changedMidBuild : List (Event Nat Nat) :=
  [.stamp 0 7 10,.mark 0,.commitTx 0,.list 0 ⟨false,fun _ => true,100⟩,.next 0,.attempt 0 100,
    .load 0,.stamp 1 7 20,.mark 1,.store 0 ⟨1,[],[⟨"index.html","text/html","a1",4,none⟩]⟩,
    .commitTx 1,.insertBuild 0,.insertFiles 0,.prune 0,.flip 0 110,.commit 0,.release 0,.next 0,
    .list 1 ⟨false,fun _ => true,120⟩,.next 1,.attempt 1 120,.load 1,
    .store 1 ⟨1,[],[⟨"index.html","text/html","a2",5,none⟩]⟩,.insertBuild 1,.insertFiles 1,
    .prune 1,.flip 1 130,.commit 1,.release 1]

theorem portals_current_changedMidBuild : ∃ s : State Nat Nat,
    Run (step 5) NeverRepeats start changedMidBuild s∧
    s.states.row 7=some ⟨some 2,none,some 130,none,0,none⟩∧
    s.marks.map (fun m => (m.portal,m.time))=[(7,0),(7,1)]∧
    s.builds.map (fun b => (b.id,b.loadedAt))=[(1,1),(2,2)]∧
    ∀ m∈s.marks, ∃ bd∈s.builds, bd.id=2∧m.time < bd.loadedAt := by
  have hend : (changedMidBuild.foldlM
      (fun s e => if NeverRepeats s e then step 5 s e else none) start).map
        (fun s => (s.states.row 7,s.marks.map (fun m => (m.portal,m.time)),
          s.builds.map (fun b => (b.id,b.loadedAt))))=
      some (some ⟨some 2,none,some 130,none,0,none⟩,[(7,0),(7,1)],[(1,1),(2,2)]) := by
    decide +kernel
  obtain ⟨s,hs,hobs⟩ := Option.map_eq_some_iff.mp hend
  obtain ⟨hrow,hrest⟩ := Prod.mk.inj hobs
  obtain ⟨hmarks,hbuilds⟩ := Prod.mk.inj hrest
  have hrun : Run (step 5) NeverRepeats start changedMidBuild s := Run.of_checked hs
  refine ⟨s,hrun,hrow,hmarks,hbuilds,?_⟩
  intro m hm
  obtain ⟨r,hr,hcurrent⟩ := (portals_current hrun).1 m hm
  have hportal : m.portal=7 := by
    have hmem : (m.portal,m.time)∈[((7 : Int),0),(7,1)] :=
      hmarks ▸ List.mem_map.mpr ⟨m,hm,rfl⟩
    simp only [List.mem_cons,List.not_mem_nil,or_false,Prod.mk.injEq] at hmem
    cases hmem with
    | inl h => exact h.1
    | inr h => exact h.1
  rw [hportal,hrow,Option.some.injEq] at hr
  obtain ⟨bd,hbd,hactive,-,hlt⟩ := hcurrent (by rw [← hr])
  rw [← hr,Option.some.injEq] at hactive
  exact ⟨bd,hbd,hactive.symm,hlt⟩

end Kitp.PortalBuilds
