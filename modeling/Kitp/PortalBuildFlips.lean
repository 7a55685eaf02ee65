import Kitp.PortalBuildRuns

/-! The builders' writes: their tries, their flips and the commits of those. -/
namespace Kitp.PortalBuilds

open Kitp.Runs Kitp.Versions

variable {ι β : Type} [DecidableEq ι] [DecidableEq β] {keep : Int} {s t : State ι β} {i : ι}
  {b c : β} {p : Int} {j : Job} {bd : Build} {pr : List Nat}

/-- A builder whose flip is uncommitted has written its row. -/
theorem Sound.own_of_flips (h : Sound s) (hf : (s.phase b).flips=some p) :
    s.states.own (.inr b) p≠none := by
  have hok := h.phases b
  cases hph : s.phase b with
  | flipped j bd pr =>
    rw [hph] at hf hok
    cases hf
    obtain ⟨-,⟨r,hr,-⟩,-⟩ := hok
    exact hr ▸ Option.some_ne_none _
  | orphan q bd pr =>
    rw [hph] at hf hok
    cases hf
    obtain ⟨⟨r,hr,-⟩,-⟩ := hok
    exact hr ▸ Option.some_ne_none _
  | _ => rw [hph] at hf; cases hf

theorem Sound.own_none (h : Sound s) (hf : (s.phase b).flips=none) (q : Int) :
    s.states.own (.inr b) q=none := by
  by_contra hne
  rw [h.flips b q hne] at hf
  cases hf

/-- An update of a row that leaves its build and its mark. -/
theorem Sound.updated {f : PortalState → PortalState} {ph : Phase} (h : Sound s)
    (hf : ∀ r, (f r).activeBuildId=r.activeBuildId∧(f r).dirtySince=r.dirtySince)
    (hjob : ph.job=(s.phase b).job) (hflips : (s.phase b).flips=none) (hph : ph.flips=none)
    (hok : ∀ t : State ι β, (∀ q, s.states.row q≠none → t.states.row q≠none) →
      t.shown=s.shown → (∀ c, c≠b → t.phase c=s.phase c) →
      (s.states.free (.inr b) p=true) → PhaseOk t b ph)
    (hu : s.update b p f ph=some t) : Sound t := by
  unfold State.update at hu
  by_cases hfree : s.states.free (.inr b) p=true
  · rw [if_pos hfree] at hu
    have hmine := h.own_none hflips
    have hview : s.states.view (.inr b) p=s.states.row p := by
      rw [Table.view,hmine,Option.getD_none]
    cases hv : s.states.view (.inr b) p with
    | none =>
      rw [hv] at hu
      cases hu
      refine h.goTo (fun j hj => hjob ▸ hj) (hph.trans hflips.symm) ?_
      exact hok _ (fun _ hq => hq) rfl (fun c hc => Function.update_of_ne hc _ _) hfree
    | some r =>
      rw [hv] at hu
      cases hu
      have hold : s.states.row p=some r := hview.symm.trans hv
      have hrow : ∀ q, ((s.states.put (.inr b) p (some (f r))).commit (.inr b)).row q=
          if q=p then some (f r) else s.states.row q := by
        intro q
        rw [row_commit,view_put]
        by_cases hqp : q=p
        · rw [if_pos ⟨rfl,hqp⟩,if_pos hqp]
        · rw [if_neg fun hx => hqp hx.2,if_neg hqp,Table.view,hmine,Option.getD_none]
      have hown : ∀ y q, ((s.states.put (.inr b) p (some (f r))).commit (.inr b)).own y q=
          s.states.own y q := by
        intro y q
        rw [Table.commit,own_close]
        by_cases hyb : y=.inr b
        · rw [if_pos hyb,hyb,hmine]
        · rw [if_neg hyb,own_put,if_neg fun hx => hyb hx.1]
      have hrows : ∀ q, s.states.row q≠none →
          ((s.states.put (.inr b) p (some (f r))).commit (.inr b)).row q≠none := by
        intro q hq
        rw [hrow]
        split
        · exact Option.some_ne_none _
        · exact hq
      have hself : ∀ c, c≠b → Function.update s.phase b ph c=s.phase c :=
        fun c hc => Function.update_of_ne hc _ _
      refine ⟨?_,?_,?_,?_,?_,?_,?_,?_,?_⟩
      · intro y z q hy hz
        have hy' := (hown y q).symm.trans_ne hy
        have hz' := (hown z q).symm.trans_ne hz
        exact h.apart y z q hy' hz'
      · intro c j hj
        have hj' : (Function.update s.phase b ph c).job=some j := hj
        by_cases hcb : c=b
        · rw [hcb,Function.update_self,hjob] at hj'
          exact hcb ▸ h.lock b j hj'
        · rw [hself c hcb] at hj'
          exact h.lock c j hj'
      · intro c q hc
        have hc' := h.flips c q ((hown _ q).symm.trans_ne hc)
        by_cases hcb : c=b
        · rw [hcb,hflips] at hc'
          cases hc'
        · show (Function.update s.phase b ph c).flips=some q
          rw [hself c hcb]
          exact hc'
      · intro q r' hr'
        have hr'' := (hrow q).symm.trans hr'
        by_cases hqp : q=p
        · rw [if_pos hqp,Option.some.injEq] at hr''
          have hrp := h.rows p r hold
          rw [← hr'',hqp]
          refine ⟨?_,?_,?_⟩
          · rw [(hf r).1]
            exact hrp.active
          · rw [(hf r).1,(hf r).2]
            exact hrp.current
          · rw [(hf r).2]
            exact hrp.shown
        · rw [if_neg hqp] at hr''
          exact (h.rows q r' hr'').of_same rfl rfl rfl
      · exact fun m hm => ⟨(h.marks m hm).1,hrows _ (h.marks m hm).2⟩
      · intro k q o ho
        have ho' := (hown _ q).symm.trans ho
        obtain ⟨hmem,r',hor,hdirty,hactive⟩ := h.marker k q o ho'
        refine ⟨hmem,r',hor,hdirty,?_⟩
        show r'.activeBuildId=(((s.states.put (.inr b) p (some (f r))).commit (.inr b)).row q).bind _
        rw [hrow]
        by_cases hqp : q=p
        · rw [if_pos hqp,Option.bind_some,(hf r).1,hactive,hqp,hold,Option.bind_some]
        · rw [if_neg hqp]
          exact hactive
      · exact fun k q hq => (hown _ q).trans_ne (h.touched k q hq)
      · have hopened : ∀ k x, Opened ({ s with
            states := (s.states.put (.inr b) p (some (f r))).commit (.inr b) }.goTo b ph) k x →
              Opened s k x := by
          intro k x hx
          unfold Opened at *
          simpa only [State.goTo,hown] using hx
        exact ⟨h.stamps.shown,fun k x hx => h.stamps.opened k x (hopened k x hx),
          fun k l x hk hl => h.stamps.apart k l x (hopened k x hk) (hopened l x hl)⟩
      · intro c
        show PhaseOk _ c (Function.update s.phase b ph c)
        by_cases hcb : c=b
        · rw [hcb,Function.update_self]
          exact hok _ hrows rfl hself hfree
        · rw [hself c hcb]
          refine (h.phases c).keeps ⟨fun _ hx => hx,hrows,?_,?_,fun _ _ _ _ _ hn => hn,?_⟩
          · intro j _ ha d hd hdf
            have hdf' : (Function.update s.phase b ph d).flips=some j.portal := hdf
            by_cases hdb : d=b
            · rw [hdb,Function.update_self,hph] at hdf'
              cases hdf'
            · rw [hself d hdb] at hdf'
              exact ha d hd hdf'
          · intro j l _ _ _ hcaught
            refine ⟨hcaught.1,?_⟩
            intro m hm hmp hl
            obtain ⟨r',hr',hd⟩ := hcaught.2 m hm hmp hl
            show ∃ r'', ((s.states.put (.inr b) p (some (f r))).commit (.inr b)).row j.portal=
              some r''∧_
            rw [hrow]
            by_cases hjp : j.portal=p
            · rw [hjp,hold,Option.some.injEq] at hr'
              refine ⟨f r,if_pos hjp,?_⟩
              rw [(hf r).2,hr']
              exact hd
            · exact ⟨r',(if_neg hjp).trans hr',hd⟩
          · intro q bd _ hfl
            obtain ⟨r',hr',hrest⟩ := hfl
            exact ⟨r',(hown _ q).trans hr',hrest⟩
  · rw [if_neg hfree] at hu
    cases hu

/-- The row of a free portal has nobody else's flip. -/
theorem Sound.alone_of_free (h : Sound s) (hfree : s.states.free (.inr b) p=true) : Alone s b p := by
  intro c hcb hc
  exact h.own_of_flips hc (free_iff.mp hfree (.inr c) fun hx => hcb (Sum.inr.inj hx))

/-- The flip writes the row: what was committed since the load keeps the portal dirty. -/
theorem Sound.flip {now : Nat} (h : Sound s) (hphase : s.phase b=.flipping j bd pr)
    (hn : flip s b j bd pr now=some t) : Sound t := by
  have hok := h.phases b
  rw [hphase] at hok
  obtain ⟨hlisted,halone,hcaught,hwhole,hpr⟩ := hok
  have hmine := h.own_none (b := b) (by rw [hphase]; rfl)
  have hview : s.states.view (.inr b) j.portal=s.states.row j.portal := by
    rw [Table.view,hmine,Option.getD_none]
  unfold PortalBuilds.flip at hn
  by_cases hfree : s.states.free (.inr b) j.portal=true
  · rw [if_pos hfree] at hn
    cases hv : s.states.view (.inr b) j.portal with
    | none => exact absurd (hview.symm.trans hv) (hlisted _ List.mem_cons_self).2
    | some r =>
      rw [hv] at hn
      cases hn
      have hrow := hview.symm.trans hv
      have hothers := free_iff.mp hfree
      have hown : ∀ y q, (s.states.put (.inr b) j.portal
          (some (flippedRow r bd.id j.since now))).own y q=
            if y=.inr b∧q=j.portal then some (some (flippedRow r bd.id j.since now))
            else s.states.own y q := fun y q => own_put _
      have hmarker : ∀ k q, (s.states.put (.inr b) j.portal
          (some (flippedRow r bd.id j.since now))).own (.inl k) q=s.states.own (.inl k) q := by
        intro k q
        rw [hown,if_neg fun hx => by cases hx.1]
      have hself : ∀ c, c≠b → Function.update s.phase b (.flipped j bd pr) c=s.phase c :=
        fun c hc => Function.update_of_ne hc _ _
      refine ⟨?_,?_,?_,?_,h.marks,?_,?_,?_,?_⟩
      · intro y z q hy hz
        dsimp only at hy hz
        rw [hown] at hy hz
        by_cases hyb : y=.inr b∧q=j.portal
        · by_cases hzb : z=.inr b∧q=j.portal
          · exact hyb.1.trans hzb.1.symm
          · rw [if_neg hzb,hyb.2] at hz
            by_contra hne
            exact hz (hothers z fun hx => hne (hyb.1.trans hx.symm))
        · rw [if_neg hyb] at hy
          by_cases hzb : z=.inr b∧q=j.portal
          · rw [hzb.2] at hy
            by_contra hne
            exact hy (hothers y fun hx => hne (hx.trans hzb.1.symm))
          · rw [if_neg hzb] at hz
            exact h.apart y z q hy hz
      · intro c j' hj
        have hj' : (Function.update s.phase b (.flipped j bd pr) c).job=some j' := hj
        by_cases hcb : c=b
        · rw [hcb,Function.update_self] at hj'
          rw [hcb]
          exact h.lock b j' (by rw [hphase]; exact hj')
        · rw [hself c hcb] at hj'
          exact h.lock c j' hj'
      · intro c q hc
        dsimp only at hc
        rw [hown] at hc
        show (Function.update s.phase b (.flipped j bd pr) c).flips=some q
        by_cases hcb : c=b
        · rw [hcb,Function.update_self]
          by_cases hq : q=j.portal
          · exact congrArg some hq.symm
          · rw [if_neg fun hx => hq hx.2,hcb,hmine] at hc
            exact absurd rfl hc
        · rw [if_neg fun hx => hcb (Sum.inr.inj hx.1)] at hc
          rw [hself c hcb]
          exact h.flips c q hc
      · exact fun q r' hr => (h.rows q r' hr).of_same rfl rfl rfl
      · intro k q o ho
        exact h.marker k q o ((hmarker k q).symm.trans ho)
      · intro k q hq
        dsimp only
        rw [hmarker]
        exact h.touched k q hq
      · have hopened : ∀ k x, Opened { s.goTo b (.flipped j bd pr) with
            states := s.states.put (.inr b) j.portal (some (flippedRow r bd.id j.since now)) } k x →
              Opened s k x := by
          intro k x hx
          unfold Opened at *
          simpa only [State.goTo,hmarker] using hx
        exact ⟨h.stamps.shown,fun k x hx => h.stamps.opened k x (hopened k x hx),
          fun k l x hk hl => h.stamps.apart k l x (hopened k x hk) (hopened l x hl)⟩
      · intro c
        show PhaseOk _ c (Function.update s.phase b (.flipped j bd pr) c)
        by_cases hcb : c=b
        · rw [hcb,Function.update_self]
          refine ⟨fun x hx => hlisted x (List.mem_cons_of_mem _ hx),?_,hwhole,hpr⟩
          refine ⟨flippedRow r bd.id j.since now,(hown _ _).trans (if_pos ⟨rfl,rfl⟩),rfl,?_,?_⟩
          · intro x hx
            simp only [flippedRow] at hx
            split at hx
            · cases hx
            · exact (h.rows _ r hrow).shown x hx
          · intro hd m hm hmp
            by_contra hlate
            obtain ⟨r',hr',hdirty,hsince⟩ := hcaught.2 m hm hmp (Nat.le_of_not_lt hlate)
            rw [hrow,Option.some.injEq] at hr'
            subst hr'
            simp only [flippedRow,if_neg hsince] at hd
            exact hdirty hd
        · rw [hself c hcb]
          refine (h.phases c).keeps (Keeps.of_same (fun _ => rfl) ?_ rfl rfl rfl rfl ?_)
          · intro q
            exact (hown _ q).trans (if_neg fun hx => hcb (Sum.inr.inj hx.1))
          · intro j' hj' ha d hd hdf
            have hdf' : (Function.update s.phase b (.flipped j bd pr) d).flips=some j'.portal := hdf
            by_cases hdb : d=b
            · -- the lock is one builder's
              rw [hdb,Function.update_self] at hdf'
              have hpp : j.portal=j'.portal := Option.some.inj hdf'
              have hlb := h.lock b j (by rw [hphase]; rfl)
              have hlc := h.lock c j' hj'
              rw [hpp] at hlb
              exact hcb (Option.some.inj (hlc.symm.trans hlb))
            · rw [hself d hdb] at hdf'
              exact ha d hd hdf'
  · rw [if_neg hfree] at hn
    cases hn

omit [DecidableEq ι] [DecidableEq β] in
theorem mem_landed {x : Build} : x∈(s.builds++[bd]).filter (fun x => ¬(x.portalId=p∧x.id∈pr)) ↔
    (x∈s.builds∨x=bd)∧¬(x.portalId=p∧x.id∈pr) := by
  rw [List.mem_filter,List.mem_append,List.mem_singleton,decide_eq_true_eq]

/-- The flip is committed: its build is the portal's. -/
theorem Sound.landed {ph : Phase} (h : Sound s) (hf : Flipped s b p bd) (hwhole : Whole p bd)
    (hpr : bd.id∉pr) (hflips : (s.phase b).flips=some p) (hph : ph.flips=none)
    (hjob : ∀ j, ph.job=some j → (s.phase b).job=some j)
    (hok : ∀ t : State ι β, (∀ q, s.states.row q≠none → t.states.row q≠none) →
      t.shown=s.shown → PhaseOk t b ph) : Sound (s.landed b p bd pr ph) := by
  obtain ⟨r,hr,hactive,hshown,hcurrent⟩ := hf
  have hmine : ∀ q, q≠p → s.states.own (.inr b) q=none := by
    intro q hqp
    by_contra hne
    have hq := h.flips b q hne
    rw [hflips] at hq
    exact hqp (Option.some.inj hq).symm
  have hrow : ∀ q, (s.states.commit (.inr b)).row q=if q=p then some r else s.states.row q := by
    intro q
    rw [row_commit,Table.view]
    by_cases hqp : q=p
    · rw [if_pos hqp,hqp,hr,Option.getD_some]
    · rw [if_neg hqp,hmine q hqp,Option.getD_none]
  have hown : ∀ y q, (s.states.commit (.inr b)).own y q=
      if y=.inr b then none else s.states.own y q := fun y q => own_close _
  have hsome : ∀ y q, (s.states.commit (.inr b)).own y q≠none →
      y≠.inr b∧s.states.own y q≠none := by
    intro y q hy
    rw [hown] at hy
    by_cases hyb : y=.inr b
    · exact absurd (if_pos hyb) hy
    · rw [if_neg hyb] at hy
      exact ⟨hyb,hy⟩
  have hmarker : ∀ k q, (s.states.commit (.inr b)).own (.inl k) q=s.states.own (.inl k) q := by
    intro k q
    rw [hown,if_neg fun hx => by cases hx]
  have hrows : ∀ q, s.states.row q≠none → (s.states.commit (.inr b)).row q≠none := by
    intro q hq
    rw [hrow]
    split
    · exact Option.some_ne_none r
    · exact hq
  have hself : ∀ c, c≠b → Function.update s.phase b ph c=s.phase c :=
    fun c hc => Function.update_of_ne hc _ _
  have hnew : bd∈(s.landed b p bd pr ph).builds :=
    mem_landed.mpr ⟨Or.inr rfl,fun hx => hpr hx.2⟩
  have hkept : ∀ {q : Int} {x : Build}, q≠p → x∈s.builds → Whole q x →
      x∈(s.landed b p bd pr ph).builds := by
    intro q x hqp hx hw
    exact mem_landed.mpr ⟨Or.inl hx,fun hx => hqp (hw.1.symm.trans hx.1)⟩
  refine ⟨?_,?_,?_,?_,?_,?_,?_,?_,?_⟩
  · exact fun y z q hy hz => h.apart y z q (hsome y q hy).2 (hsome z q hz).2
  · intro c j hj
    have hj' : (Function.update s.phase b ph c).job=some j := hj
    by_cases hcb : c=b
    · rw [hcb,Function.update_self] at hj'
      exact hcb ▸ h.lock b j (hjob j hj')
    · rw [hself c hcb] at hj'
      exact h.lock c j hj'
  · intro c q hc
    obtain ⟨hcb,hold⟩ := hsome _ q hc
    show (Function.update s.phase b ph c).flips=some q
    rw [hself c fun hx => hcb (congrArg Sum.inr hx)]
    exact h.flips c q hold
  · intro q r' hr'
    have hr'' := (hrow q).symm.trans hr'
    by_cases hqp : q=p
    · rw [if_pos hqp,Option.some.injEq] at hr''
      subst hr''
      rw [hqp]
      refine ⟨?_,?_,hshown⟩
      · intro n hn
        rw [hactive,Option.some.injEq] at hn
        exact ⟨bd,hnew,hn,hwhole⟩
      · exact fun hd m hm hmp => ⟨bd,hnew,hactive,hwhole,hcurrent hd m hm hmp⟩
    · rw [if_neg hqp] at hr''
      have hq := h.rows q r' hr''
      refine ⟨?_,?_,hq.shown⟩
      · intro n hn
        obtain ⟨x,hx,hid,hw⟩ := hq.active n hn
        exact ⟨x,hkept hqp hx hw,hid,hw⟩
      · intro hd m hm hmq
        obtain ⟨x,hx,hid,hw,hlt⟩ := hq.current hd m hm hmq
        exact ⟨x,hkept hqp hx hw,hid,hw,hlt⟩
  · exact fun m hm => ⟨(h.marks m hm).1,hrows _ (h.marks m hm).2⟩
  · intro k q o ho
    have ho' := (hmarker k q).symm.trans ho
    obtain ⟨hmem,r',hor,hdirty,hact⟩ := h.marker k q o ho'
    refine ⟨hmem,r',hor,hdirty,?_⟩
    show r'.activeBuildId=((s.states.commit (.inr b)).row q).bind (·.activeBuildId)
    -- the marker holds its row, the flip another
    have hqp : q≠p := by
      rintro rfl
      have hx := h.apart _ _ q (ho' ▸ Option.some_ne_none o) (hr ▸ Option.some_ne_none (some r))
      cases hx
    rw [hrow,if_neg hqp]
    exact hact
  · intro k q hq
    show (s.states.commit (.inr b)).own (.inl k) q≠none
    rw [hmarker]
    exact h.touched k q hq
  · have hopened : ∀ k x, Opened (s.landed b p bd pr ph) k x → Opened s k x := by
      intro k x hx
      unfold Opened at *
      simpa only [State.landed,State.goTo,hmarker] using hx
    exact ⟨h.stamps.shown,fun k x hx => h.stamps.opened k x (hopened k x hx),
      fun k l x hk hl => h.stamps.apart k l x (hopened k x hk) (hopened l x hl)⟩
  · intro c
    show PhaseOk _ c (Function.update s.phase b ph c)
    by_cases hcb : c=b
    · rw [hcb,Function.update_self]
      exact hok _ hrows rfl
    · rw [hself c hcb]
      have hfar : ∀ {j : Job}, Alone s c j.portal → j.portal≠p :=
        fun ha hjp => ha b (Ne.symm hcb) (hjp ▸ hflips)
      refine (h.phases c).keeps ⟨fun _ hx => hx,hrows,?_,?_,?_,?_⟩
      · intro j _ ha d hd hdf
        have hdf' : (Function.update s.phase b ph d).flips=some j.portal := hdf
        by_cases hdb : d=b
        · rw [hdb,Function.update_self,hph] at hdf'
          cases hdf'
        · rw [hself d hdb] at hdf'
          exact ha d hd hdf'
      · intro j l _ _ ha hcaught
        refine ⟨hcaught.1,?_⟩
        intro m hm hmp hl
        show ∃ r', (s.states.commit (.inr b)).row j.portal=some r'∧_
        rw [hrow,if_neg (hfar ha)]
        exact hcaught.2 m hm hmp hl
      · intro x j _ hx ha hn y hy hyx
        obtain ⟨hold,-⟩ := mem_landed.mp hy
        cases hold with
        | inl hs => exact hn y hs hyx
        | inr hyb =>
          rw [hyb,hwhole.1,hx] at hyx
          exact absurd hyx.symm (hfar ha)
      · intro q x hq hfl
        obtain ⟨r',hr',hrest⟩ := hfl
        refine ⟨r',?_,hrest⟩
        show (s.states.commit (.inr b)).own (.inr c) q=some (some r')
        rw [hown,if_neg fun hx => hcb (Sum.inr.inj hx)]
        exact hr'

end Kitp.PortalBuilds
