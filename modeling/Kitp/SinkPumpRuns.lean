import Kitp.SinkPump

/-! Runs of the pump: the horizon bounds every transaction still to commit, so
the position passes each row once and skips none. -/
namespace Kitp.SinkPump
open Kitp.Runs Kitp.Window
variable {β : Type*}

def Position.txid (p : Position) : Nat := (ofLex p).1

theorem position_lt {x y : Nat} {i j : Int} :
    position x i < position y j ↔ x < y∨x=y∧i < j := Prod.Lex.toLex_lt_toLex

theorem lt_of_txid_lt {p q : Position} (h : Position.txid p < Position.txid q) : p < q :=
  Prod.Lex.lt_iff.mpr (.inl h)

theorem txid_le_of_le {p q : Position} (h : p ≤ q) : Position.txid p ≤ Position.txid q := by
  obtain h|⟨h,-⟩ := Prod.Lex.le_iff.mp h
  · exact Nat.le_of_lt h
  · exact Nat.le_of_eq h

theorem pred_lt (r : Row β) : position r.txid (r.id-1) < r.position :=
  position_lt.mpr (.inr ⟨rfl,by omega⟩)

/-- Every transaction of this database with an id up to `n` has finished, and no
new one gets such an id. -/
def Settled (s : State β) (n : Nat) : Prop :=
  n < s.nextXid∧∀ x, running s true x=true → n < x

/-- The same for every id below `h`. -/
def Below (s : State β) (h : Nat) : Prop :=
  h ≤ s.nextXid∧∀ x, running s true x=true → h ≤ x

structure WellFormed (s : State β) : Prop where
  assigned : ∀ x o, s.xacts x=some o → 0 < x∧x < s.nextXid
  latest : s.latestCompleted < s.nextXid
  completed : ∀ x, s.xacts x=some .committed → x ≤ s.latestCompleted
  distinct : (s.rows.map Row.id).Nodup
  written : ∀ r∈s.rows, r.txid=0∨∃ o, s.xacts r.txid=some o∧o≠.running false

/-- What the tick in progress knows. `wanted` rows are in scope at every scan. -/
def PhaseInv (wanted : Row β → Prop) (s : State β) : Phase β → Prop
  | .idle => True
  | .loaded st => st.pos=s.unit.pos
  | .snapped st xip xmax => st.pos=s.unit.pos∧xmax ≤ s.nextXid∧(∀ x∈xip, x < xmax)∧
      ∀ x, running s true x=true → x < xmax → x∈xip
  | .bounded st h => st.pos=s.unit.pos∧Below s h
  | .scanned st h rows => st.pos=s.unit.pos∧Below s h∧
      rows.Pairwise (fun a b => a.position < b.position)∧
      (∀ r∈rows, r∈s.rows∧visible s r=true∧s.unit.pos < r.position∧r.txid < h)∧
      ∀ r∈s.rows, visible s r=true → wanted r → s.unit.pos < r.position →
        ∀ y∈rows, r.position ≤ y.position → r∈rows

structure Inv (start : Position) (wanted : Row β → Prop) (s : State β) : Prop where
  wf : WellFormed s
  from_start : start ≤ s.unit.pos
  pos : s.unit.pos=start∨Settled s (Position.txid s.unit.pos)
  ordered : s.decided.flatten.Pairwise fun a b => a.position < b.position
  covered : ∀ r∈s.decided.flatten, r∈s.rows∧visible s r=true∧start < r.position∧
    r.position ≤ s.unit.pos
  complete : ∀ r∈s.rows, visible s r=true → wanted r → start < r.position →
    r.position ≤ s.unit.pos → r∈s.decided.flatten
  phase : PhaseInv wanted s s.phase

variable {start : Position} {wanted : Row β → Prop} {s t u : State β} {e : Event β}
  {es : List (Event β)}

theorem running_eq {s : State β} {o : Bool} {x : Nat} :
    running s o x=true ↔ s.xacts x=some (.running o) := by
  simp [running]

theorem visible_iff {s : State β} {r : Row β} :
    visible s r=true ↔ r.txid=0∨s.xacts r.txid=some .committed := by
  simp [visible]

/-- What a step of the transactions leaves the pump with: the pump's own state is
untouched, nothing starts at or below an id given out, and rows appear only in
transactions that were still running. -/
structure Grows (s t : State β) : Prop where
  unit : t.unit=s.unit
  phase : t.phase=s.phase
  decided : t.decided=s.decided
  nextXid : s.nextXid ≤ t.nextXid
  rows : ∀ r∈s.rows, r∈t.rows
  seen : ∀ r∈s.rows, visible s r=true → visible t r=true
  begun : ∀ x, running t true x=true → running s true x=true∨s.nextXid ≤ x
  fresh : ∀ r∈t.rows, visible t r=true →
    (r∈s.rows∧visible s r=true)∨running s true r.txid=true

/-- The events of the transactions, not of the pump. -/
def Event.ofXact : Event β → Bool
  | .begin _ | .insert _ | .commit _ | .abort _ => true
  | _ => false

theorem xact_wellFormed (hw : WellFormed s) (he : e.ofXact=true) (h : step s e=some t) :
    WellFormed t := by
  have finish : ∀ {x : Nat} {o : Xact}, o≠.running false →
      (running s true x=true∨running s false x=true) → WellFormed { s with
        xacts := Function.update s.xacts x (some o),
        latestCompleted := max s.latestCompleted x } := by
    intro x o hne hx
    have hx' : ∃ o, s.xacts x=some o := hx.elim (fun h => ⟨_,running_eq.mp h⟩)
      (fun h => ⟨_,running_eq.mp h⟩)
    obtain ⟨o',ho⟩ := hx'
    have hlt := hw.assigned x o' ho
    refine ⟨fun y p hy => ?_,?_,fun y hy => ?_,hw.distinct,fun r hr => ?_⟩
    · by_cases hyx : y=x
      · exact hyx ▸ hlt
      · exact hw.assigned y p (by simpa [hyx] using hy)
    · exact Nat.max_lt.mpr ⟨hw.latest,hlt.2⟩
    · by_cases hyx : y=x
      · exact hyx ▸ Nat.le_max_right _ _
      · exact le_trans (hw.completed y (by simpa [hyx] using hy)) (Nat.le_max_left _ _)
    · refine (hw.written r hr).imp_right fun ⟨p,hp,hq⟩ => ?_
      by_cases hyx : r.txid=x
      · exact ⟨o,by simp [hyx],hne⟩
      · exact ⟨p,by simpa [hyx] using hp,hq⟩
  cases e with
  | begin ours =>
    cases h
    refine ⟨fun y p hy => ?_,Nat.lt_succ_of_lt hw.latest,fun y hy => ?_,hw.distinct,
      fun r hr => ?_⟩
    · by_cases hyx : y=s.nextXid
      · subst hyx
        exact ⟨Nat.zero_lt_of_lt hw.latest,Nat.lt_succ_self _⟩
      · obtain ⟨h0,h1⟩ := hw.assigned y p (by simpa [hyx] using hy)
        exact ⟨h0,Nat.lt_succ_of_lt h1⟩
    · by_cases hyx : y=s.nextXid
      · simp [hyx] at hy
      · exact hw.completed y (by simpa [hyx] using hy)
    · refine (hw.written r hr).imp_right fun ⟨p,hp,hq⟩ => ⟨p,?_,hq⟩
      have := (hw.assigned _ _ hp).2
      simpa [Nat.ne_of_lt this] using hp
  | insert r =>
    simp only [step] at h
    split at h <;> cases h
    rename_i hr
    refine ⟨hw.assigned,hw.latest,hw.completed,?_,fun q hq => ?_⟩
    · rw [List.map_cons,List.nodup_cons]
      refine ⟨fun hm => ?_,hw.distinct⟩
      obtain ⟨x,hx,hid⟩ := List.mem_map.mp hm
      exact hr.2.2 x hx hid
    · obtain rfl|hq := List.mem_cons.mp hq
      · exact .inr ⟨_,running_eq.mp hr.1,by simp⟩
      · exact hw.written q hq
  | commit x =>
    simp only [step] at h
    split at h <;> cases h
    exact finish (by simp) ‹_›
  | abort x =>
    simp only [step] at h
    split at h <;> cases h
    exact finish (by simp) ‹_›
  | _ => cases he

theorem xact_grows (hw : WellFormed s) (he : e.ofXact=true) (h : step s e=some t) :
    Grows s t := by
  have finish : ∀ {x : Nat} {o : Xact}, (running s true x=true∨running s false x=true) →
      (∀ b, o≠.running b) →
      Grows s { s with xacts := Function.update s.xacts x (some o),
                       latestCompleted := max s.latestCompleted x } := by
    intro x o hx hor
    have hrun : ∃ b, s.xacts x=some (.running b) := hx.elim (fun h => ⟨_,running_eq.mp h⟩)
      (fun h => ⟨_,running_eq.mp h⟩)
    obtain ⟨b,hb⟩ := hrun
    refine ⟨rfl,rfl,rfl,le_rfl,fun _ h => h,fun r hr hv => ?_,fun y hy => .inl ?_,
      fun r hr hv => ?_⟩
    · obtain h0|hc := visible_iff.mp hv
      · exact visible_iff.mpr (.inl h0)
      · have hne : r.txid≠x := by
          rintro rfl
          simp [hb] at hc
        exact visible_iff.mpr (.inr (by simpa [hne] using hc))
    · by_cases hyx : y=x
      · subst hyx
        exact absurd (by simpa [running_eq] using hy) (hor true)
      · simpa [running_eq,hyx] using hy
    · by_cases hyx : r.txid=x
      · cases b with
        | true => exact .inr (running_eq.mpr (hyx ▸ hb))
        | false =>
          obtain h0|⟨o',ho,hne⟩ := hw.written r hr
          · exact .inl ⟨hr,visible_iff.mpr (.inl h0)⟩
          · rw [hyx,hb] at ho
            exact absurd (Option.some.inj ho).symm hne
      · obtain h0|hc := visible_iff.mp hv
        · exact .inl ⟨hr,visible_iff.mpr (.inl h0)⟩
        · exact .inl ⟨hr,visible_iff.mpr (.inr (by simpa [hyx] using hc))⟩
  cases e with
  | begin ours =>
    cases h
    have hne : ∀ r : Row β, r∈s.rows → (r.txid=0∨r.txid≠s.nextXid) := fun r hr =>
      (hw.written r hr).imp_right fun ⟨o,ho,_⟩ => Nat.ne_of_lt (hw.assigned _ o ho).2
    refine ⟨rfl,rfl,rfl,Nat.le_succ _,fun _ h => h,fun r hr hv => ?_,fun y hy => ?_,
      fun r hr hv => .inl ⟨hr,?_⟩⟩
    · obtain h0|hn := hne r hr
      · exact visible_iff.mpr (.inl h0)
      · exact visible_iff.mpr ((visible_iff.mp hv).imp_right fun hc => by simpa [hn] using hc)
    · by_cases hyx : y=s.nextXid
      · exact .inr (Nat.le_of_eq hyx.symm)
      · exact .inl (by simpa [running_eq,hyx] using hy)
    · obtain h0|hn := hne r hr
      · exact visible_iff.mpr (.inl h0)
      · exact visible_iff.mpr ((visible_iff.mp hv).imp_right fun hc => by simpa [hn] using hc)
  | insert r =>
    simp only [step] at h
    split at h <;> cases h
    rename_i hr
    refine ⟨rfl,rfl,rfl,le_rfl,fun _ h => List.mem_cons_of_mem _ h,fun _ _ hv => hv,
      fun _ hy => .inl hy,fun q hq hv => ?_⟩
    obtain rfl|hq := List.mem_cons.mp hq
    · exact .inr hr.1
    · exact .inl ⟨hq,hv⟩
  | commit x =>
    simp only [step] at h
    split at h <;> cases h
    exact finish ‹_› (by simp)
  | abort x =>
    simp only [step] at h
    split at h <;> cases h
    exact finish ‹_› (by simp)
  | _ => cases he

section Grow

theorem Grows.settled (hg : Grows s t) {n : Nat} (h : Settled s n) : Settled t n := by
  refine ⟨Nat.lt_of_lt_of_le h.1 hg.nextXid,fun x hx => ?_⟩
  obtain hold|hnew := hg.begun x hx
  · exact h.2 x hold
  · exact Nat.lt_of_lt_of_le h.1 hnew

theorem Grows.below (hg : Grows s t) {n : Nat} (h : Below s n) : Below t n := by
  refine ⟨le_trans h.1 hg.nextXid,fun x hx => ?_⟩
  obtain hold|hnew := hg.begun x hx
  · exact h.2 x hold
  · exact le_trans h.1 hnew

/-- A row that has just become visible lies above the position. -/
theorem Inv.above (hi : Inv start wanted s) {r : Row β} (hx : running s true r.txid=true)
    (hs : start < r.position) : s.unit.pos < r.position := by
  obtain hp|hp := hi.pos
  · exact hp ▸ hs
  · exact lt_of_txid_lt (hp.2 _ hx)

theorem Grows.phaseInv (hg : Grows s t) {p : Phase β} (h : PhaseInv wanted s p) :
    PhaseInv wanted t p := by
  cases p with
  | idle => trivial
  | loaded st => exact h.trans (congrArg UnitState.pos hg.unit).symm
  | snapped st xip xmax =>
    obtain ⟨hp,hm,hx,hr⟩ := h
    refine ⟨hp.trans (congrArg UnitState.pos hg.unit).symm,le_trans hm hg.nextXid,hx,
      fun x hrun hlt => ?_⟩
    obtain hold|hnew := hg.begun x hrun
    · exact hr x hold hlt
    · omega
  | bounded st n =>
    exact ⟨h.1.trans (congrArg UnitState.pos hg.unit).symm,hg.below h.2⟩
  | scanned st n rows =>
    obtain ⟨hp,hb,hs,hr,hc⟩ := h
    refine ⟨hp.trans (congrArg UnitState.pos hg.unit).symm,hg.below hb,hs,fun r hm => ?_,
      fun r hm hv hw hlt y hy hle => ?_⟩
    · obtain ⟨h1,h2,h3,h4⟩ := hr r hm
      exact ⟨hg.rows r h1,hg.seen r h1 h2,hg.unit ▸ h3,h4⟩
    · rw [hg.unit] at hlt
      obtain ⟨hm',hv'⟩|hrun := hg.fresh r hm hv
      · exact hc r hm' hv' hw hlt y hy hle
      · -- the row's transaction was running, so it lies above the horizon
        have h1 := hb.2 _ hrun
        have h2 := (hr y hy).2.2.2
        have h3 : r.txid ≤ y.txid := txid_le_of_le hle
        omega

theorem Grows.inv (hg : Grows s t) (hw : WellFormed t) (hi : Inv start wanted s) :
    Inv start wanted t where
  wf := hw
  from_start := hg.unit ▸ hi.from_start
  pos := by
    rw [hg.unit]
    exact hi.pos.imp_right hg.settled
  ordered := hg.decided ▸ hi.ordered
  covered := by
    rw [hg.decided,hg.unit]
    intro r hr
    obtain ⟨h1,h2,h3⟩ := hi.covered r hr
    exact ⟨hg.rows r h1,hg.seen r h1 h2,h3⟩
  complete := by
    rw [hg.decided,hg.unit]
    intro r hr hv hwt hs hle
    obtain ⟨hr',hv'⟩|hrun := hg.fresh r hr hv
    · exact hi.complete r hr' hv' hwt hs hle
    · exact absurd hle (not_le_of_gt (hi.above hrun hs))
  phase := hg.phase ▸ hg.phaseInv hi.phase

end Grow

section Pump

theorem mem_snapshotXip {x : Nat} (hx : running s true x=true)
    (hlt : x < s.latestCompleted+1) : x∈snapshotXip s := by
  simp [snapshotXip,hx,hlt]

/-- The horizon lies at or below every transaction of this database still running. -/
theorem horizon_below {xip : List Nat} {xmax : Nat} (hm : xmax ≤ s.nextXid)
    (hx : ∀ x∈xip, x < xmax) (hr : ∀ x, running s true x=true → x < xmax → x∈xip) :
    Below s (horizon s xip xmax) := by
  unfold horizon
  cases hmin : (xip.filter (running s true)).min? with
  | none =>
    refine ⟨hm,fun x hrun => ?_⟩
    by_contra hlt
    have hmem : x∈xip.filter (running s true) :=
      List.mem_filter.mpr ⟨hr x hrun (by simpa using hlt),hrun⟩
    rw [List.min?_eq_none_iff.mp hmin] at hmem
    cases hmem
  | some m =>
    obtain ⟨hmem,hle⟩ := List.min?_eq_some_iff.mp hmin
    have hlt := hx m (List.mem_filter.mp hmem).1
    refine ⟨le_trans (Nat.le_of_lt hlt) hm,fun x hrun => ?_⟩
    simp only [Option.getD_some]
    by_cases hxm : x < xmax
    · exact hle x (List.mem_filter.mpr ⟨hr x hrun hxm,hrun⟩)
    · omega

theorem matchedRows_subset {k : Tick β} {rows rows' : List (Row β)}
    (h : matchedRows k rows=some rows') : ∀ r∈rows', r∈rows := by
  unfold matchedRows at h
  split at h
  · cases h
    simp
  · rename_i first rest hf
    intro r hr
    obtain ⟨f,-,rfl⟩ := Option.map_eq_some_iff.mp h
    exact List.mem_of_mem_filter (hf ▸ List.mem_of_mem_filter hr)

/-- What a decision records: the old position, or one below a scanned row's end
that lies in that row's transaction. -/
theorem runOnce_pos {k : Tick β} {st : UnitState} {rows : List (Row β)} {w : Record}
    (h : runOnce k st rows=some w) :
    w.pos=st.pos∨∃ y∈rows, w.pos ≤ y.position∧Position.txid w.pos=y.txid := by
  unfold runOnce at h
  split at h
  · split at h <;> cases h
    exact .inl rfl
  · rename_i last hlast
    have hmem : last∈rows := List.mem_of_getLast? hlast
    split at h
    · cases h
      exact .inr ⟨last,hmem,le_rfl,rfl⟩
    · split at h
      · cases h
      · cases h
        exact .inr ⟨last,hmem,le_rfl,rfl⟩
      · rename_i first rest hmatch
        have hfirst : first∈rows := matchedRows_subset hmatch first List.mem_cons_self
        split at h
        · cases h
          exact .inr ⟨first,hfirst,le_of_lt (pred_lt first),rfl⟩
        · split at h
          · cases h
          · split at h <;> cases h
            · exact .inl rfl
            · exact .inr ⟨last,hmem,le_rfl,rfl⟩

theorem positions_nodup (hw : WellFormed s) : (s.rows.map Row.position).Nodup := by
  have hid : (s.rows.map Row.position).map (fun p => (ofLex p).2)=s.rows.map Row.id := by
    simp [Row.position,position]
  exact List.Nodup.of_map _ (hid ▸ hw.distinct)

theorem scan_phaseInv (hi : Inv start wanted s) {st : UnitState} {n : Nat}
    (hp : st.pos=s.unit.pos) (hb : Below s n) {scope : Row β → Bool} (limit : Nat)
    (hsc : ∀ r, wanted r → scope r=true) :
    PhaseInv wanted s (.scanned st n (loadActivityBatch s st.pos n scope limit)) := by
  have hn := positions_nodup hi.wf
  refine ⟨hp,hb,window_pairwise hn,fun r hr => ?_,fun r hr hv hw hlt y hy hle => ?_⟩
  · obtain ⟨hm,hc⟩ := mem_of_mem_window hr
    simp only [Bool.and_eq_true,decide_eq_true_eq] at hc
    exact ⟨hm,hc.1.1.1,hp ▸ hc.1.1.2,hc.1.2⟩
  · refine mem_window_of_le hn hr ?_ hy hle
    have hyc := (mem_of_mem_window hy).2
    simp only [Bool.and_eq_true,decide_eq_true_eq] at hyc ⊢
    have htx : r.txid ≤ y.txid := txid_le_of_le hle
    exact ⟨⟨⟨hv,hp ▸ hlt⟩,by omega⟩,hsc r hw⟩

theorem decide_inv (hi : Inv start wanted s) {st : UnitState} {n : Nat} {rows : List (Row β)}
    (hph : s.phase=.scanned st n rows) {k : Tick β} {w : Record}
    (hrec : runOnce k st rows=some w) :
    Inv start wanted { s with
      unit := recordState s.unit w, phase := .idle,
      decided := s.decided++[rows.filter fun r => r.position ≤ (recordState s.unit w).pos] } := by
  obtain ⟨hp,hb,hs,hr,hc⟩ : PhaseInv wanted s (.scanned st n rows) := hph ▸ hi.phase
  have hforward : s.unit.pos ≤ (recordState s.unit w).pos := by
    simp only [recordState]
    split
    · exact le_of_lt ‹_›
    · exact le_rfl
  -- the position stays, or moves to a place within the last transactions scanned
  have hmove : (recordState s.unit w).pos=s.unit.pos∨
      ∃ y∈rows, (recordState s.unit w).pos ≤ y.position∧
        Position.txid (recordState s.unit w).pos=y.txid := by
    simp only [recordState]
    split
    · obtain heq|hy := runOnce_pos hrec
      · exact .inl (heq.trans hp)
      · exact .inr hy
    · exact .inl rfl
  have hmem : ∀ r, r∈rows.filter (fun r => r.position ≤ (recordState s.unit w).pos) ↔
      r∈rows∧r.position ≤ (recordState s.unit w).pos := by
    intro r
    simp
  constructor
  case wf => exact ⟨hi.wf.assigned,hi.wf.latest,hi.wf.completed,hi.wf.distinct,hi.wf.written⟩
  case from_start => exact le_trans hi.from_start hforward
  case pos =>
    obtain heq|⟨y,hy,-,htx⟩ := hmove
    · exact hi.pos.imp heq.trans fun hset => heq ▸ hset
    · have hlt : Position.txid (recordState s.unit w).pos < n := htx ▸ (hr y hy).2.2.2
      exact .inr ⟨Nat.lt_of_lt_of_le hlt hb.1,fun x hx => Nat.lt_of_lt_of_le hlt (hb.2 x hx)⟩
  case ordered =>
    simp only [List.flatten_append,List.flatten_singleton]
    refine List.pairwise_append.mpr ⟨hi.ordered,hs.sublist List.filter_sublist,
      fun a ha b hb' => ?_⟩
    have h1 := (hi.covered a ha).2.2.2
    have h2 := (hr b ((hmem b).mp hb').1).2.2.1
    exact lt_of_le_of_lt h1 h2
  case covered =>
    simp only [List.flatten_append,List.flatten_singleton]
    intro r hm
    obtain hold|hnew := List.mem_append.mp hm
    · obtain ⟨h1,h2,h3,h4⟩ := hi.covered r hold
      exact ⟨h1,h2,h3,le_trans h4 hforward⟩
    · obtain ⟨h1,h2⟩ := (hmem r).mp hnew
      obtain ⟨h3,h4,h5,-⟩ := hr r h1
      exact ⟨h3,h4,lt_of_le_of_lt hi.from_start h5,h2⟩
  case complete =>
    simp only [List.flatten_append,List.flatten_singleton]
    intro r hm hv hw hst hle
    refine List.mem_append.mpr ?_
    by_cases hold : r.position ≤ s.unit.pos
    · exact .inl (hi.complete r hm hv hw hst hold)
    · refine .inr ((hmem r).mpr ⟨?_,hle⟩)
      obtain heq|⟨y,hy,hley,-⟩ := hmove
      · exact absurd (heq ▸ hle) hold
      · exact hc r hm hv hw (lt_of_not_ge hold) y hy (le_trans hle hley)
  case phase => trivial

/-- A change of the tick's phase alone keeps the invariant when the new phase's part holds. -/
theorem Inv.set_phase (hi : Inv start wanted s) {p : Phase β} (hp : PhaseInv wanted s p) :
    Inv start wanted { s with phase := p } where
  wf := ⟨hi.wf.assigned,hi.wf.latest,hi.wf.completed,hi.wf.distinct,hi.wf.written⟩
  from_start := hi.from_start
  pos := hi.pos
  ordered := hi.ordered
  covered := hi.covered
  complete := hi.complete
  phase := by
    cases p with
    | idle => trivial
    | loaded st => exact hp
    | snapped st xip xmax => exact hp
    | bounded st n => exact hp
    | scanned st n rows => exact hp

theorem step_inv (hi : Inv start wanted s)
    (hsc : ∀ scope limit, e=.scan scope limit → ∀ r, wanted r → scope r=true)
    (h : step s e=some t) : Inv start wanted t := by
  cases e with
  | begin ours => exact (xact_grows hi.wf rfl h).inv (xact_wellFormed hi.wf rfl h) hi
  | insert r => exact (xact_grows hi.wf rfl h).inv (xact_wellFormed hi.wf rfl h) hi
  | commit x => exact (xact_grows hi.wf rfl h).inv (xact_wellFormed hi.wf rfl h) hi
  | abort x => exact (xact_grows hi.wf rfl h).inv (xact_wellFormed hi.wf rfl h) hi
  | tick now rollup =>
    simp only [step] at h
    split at h
    · split at h
      · split at h <;> cases h
        · exact hi
        · exact hi.set_phase rfl
      · cases h
        exact hi.set_phase rfl
    · cases h
  | snapshot =>
    simp only [step] at h
    split at h <;> cases h
    rename_i st hph
    have hp : PhaseInv wanted s (.loaded st) := hph ▸ hi.phase
    exact hi.set_phase ⟨hp,hi.wf.latest,fun x hx => by simpa using (List.mem_filter.mp hx).1,
      fun x hx hlt => mem_snapshotXip hx hlt⟩
  | horizon =>
    simp only [step] at h
    split at h <;> cases h
    rename_i st xip xmax hph
    obtain ⟨hp,hm,hx,hr⟩ : PhaseInv wanted s (.snapped st xip xmax) := hph ▸ hi.phase
    exact hi.set_phase ⟨hp,horizon_below hm hx hr⟩
  | scan scope limit =>
    simp only [step] at h
    split at h <;> cases h
    rename_i st n hph
    obtain ⟨hp,hb⟩ : PhaseInv wanted s (.bounded st n) := hph ▸ hi.phase
    exact hi.set_phase (scan_phaseInv hi hp hb limit (hsc scope limit rfl))
  | decide k written =>
    simp only [step] at h
    split at h
    · rename_i st n rows hph
      split at h
      · rename_i w hrec
        split at h <;> cases h
        · exact decide_inv hi hph hrec
        · exact hi.set_phase trivial
      · cases h
        exact hi.set_phase trivial
    · cases h
  | giveUp =>
    simp only [step] at h
    split at h <;> cases h
    exact hi.set_phase trivial

theorem unit_forward (h : step s e=some t) : s.unit.pos ≤ t.unit.pos := by
  have hrec : ∀ w, s.unit.pos ≤ (recordState s.unit w).pos := by
    intro w
    simp only [recordState]
    split
    · exact le_of_lt ‹_›
    · exact le_rfl
  cases e with
  | decide k written =>
    simp only [step] at h
    split at h
    · split at h
      · split at h <;> cases h
        · exact hrec _
        · exact le_rfl
      · cases h
        exact le_rfl
    · cases h
  | begin ours =>
    cases h
    exact le_rfl
  | tick now rollup =>
    simp only [step] at h
    split at h
    · split at h
      · split at h <;> cases h
        · exact le_rfl
        · exact le_rfl
      · cases h
        exact le_rfl
    · cases h
  | _ =>
    simp only [step] at h
    split at h <;> cases h
    exact le_rfl

/-- The pump writes neither transactions nor activity rows. -/
theorem pump_stream (he : e.ofXact=false) (h : step s e=some t) :
    t.rows=s.rows∧t.xacts=s.xacts := by
  cases e with
  | begin _ | insert _ | commit _ | abort _ => cases he
  | tick now rollup =>
    simp only [step] at h
    split at h
    · split at h
      · split at h <;> cases h
        · exact ⟨rfl,rfl⟩
        · exact ⟨rfl,rfl⟩
      · cases h
        exact ⟨rfl,rfl⟩
    · cases h
  | decide k written =>
    simp only [step] at h
    split at h
    · split at h
      · split at h <;> cases h
        · exact ⟨rfl,rfl⟩
        · exact ⟨rfl,rfl⟩
      · cases h
        exact ⟨rfl,rfl⟩
    · cases h
  | _ =>
    simp only [step] at h
    split at h <;> cases h
    exact ⟨rfl,rfl⟩

/-- A row seen after a step was seen before it, or its transaction was still running. -/
theorem step_fresh (hw : WellFormed s) (h : step s e=some t) {r : Row β} (hr : r∈t.rows)
    (hv : visible t r=true) :
    (r∈s.rows∧visible s r=true)∨running s true r.txid=true := by
  cases he : e.ofXact with
  | true => exact (xact_grows hw he h).fresh r hr hv
  | false =>
    obtain ⟨hrows,hx⟩ := pump_stream he h
    refine .inl ⟨hrows ▸ hr,?_⟩
    rw [visible_iff] at hv ⊢
    exact hx ▸ hv

end Pump

end Kitp.SinkPump
