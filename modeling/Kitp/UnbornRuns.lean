import Kitp.Unborn

/-! When the references of its gated leaves keep naming the same cards, a batch commits
only if each of them ran against a card that existed at its authorization. -/
namespace Kitp.Unborn
open Kitp.Dispatch Kitp.Groups Kitp.Runs
variable {s t : State} {e : Event} {d : Decided}

/-- The cards loaded for the checks exist; they only grow before the batch commits. -/
def Phase.known : Phase → List Int
  | .expand known => known
  | .decide _ known => known
  | _ => []

/-- An authorized leaf: its card was looked up, or it is recorded as unborn. -/
def Decided.Ok (d : Decided) : Prop :=
  d.leaf.handler.gated=true → d.anchor≠0 → d.anchor∈d.existed∨d.leaf.unbornAnchor=d.anchor

/-- The leaf ran against its unborn card in the current group, and the second look will
still find that card. -/
def Pending (s : State) (x : Decided×Int) : Prop :=
  s.phase=.run∧∃ group rest, s.groups=group::rest∧x.1∈group∧x.2=x.1.leaf.unbornAnchor∧
    x.2∈(view s.db s.own).cards

structure Inv (s : State) : Prop where
  nonzero : 0∉s.db.cards∧0∉s.own.made
  known : ∀ c∈s.phase.known, c∈s.db.cards
  decided : ∀ d∈s.decided, d.Ok
  groups : ∀ group∈s.groups, ∀ d∈group, d.Ok
  touched : s.phase=.aborted∨∀ x∈s.touched, x.1.leaf.handler.gated=true →
    x.2∈x.1.existed∨Pending s x

theorem firstBorn_isSome {born : List Int} {group : List (Prepared Target)} {p : Prepared Target}
    (i : Nat) (hp : p∈group) (hne : p.unbornAnchor≠0) (hborn : p.unbornAnchor∈born) :
    (firstBorn born i group).isSome=true := by
  induction group generalizing i with
  | nil => cases hp
  | cons q rest ih =>
    rw [firstBorn]
    split
    · rfl
    · rename_i h
      obtain rfl|hp := List.mem_cons.mp hp
      · exact absurd ⟨hne,hborn⟩ h
      · exact ih (i+1) hp

theorem decideLeaf_ok (db : Db) {known : List Int} (p : Prepared Target)
    (hknown : ∀ c∈known, c∈db.cards) : (decideLeaf db known p).Ok := by
  intro hg hne
  simp only [decideLeaf] at hg hne ⊢
  rw [if_pos hg] at hne ⊢
  by_cases hk : scopeCardID db p.input∈known
  · exact .inl (hknown _ hk)
  · right
    simp [unbornAnchor,hg,hne,hk]

theorem view_nonzero (h : Inv s) : 0∉(view s.db s.own).cards := by
  simp [view,h.nonzero.1,h.nonzero.2]

theorem start_inv {db : Db} {used : List Int} {plan : List (Prepared Target)} (h : 0∉db.cards) :
    Inv (start db used plan) where
  nonzero := ⟨h,by simp [start]⟩
  known := by simp [start,Phase.known]
  decided := by simp [start]
  groups := by simp [start]
  touched := .inr (by simp [start])

/-- Outside a group's run every leaf that ran is accounted for. -/
theorem Inv.settled (h : Inv s) (hrun : s.phase≠.run) : s.phase=.aborted∨∀ x∈s.touched,
    x.1.leaf.handler.gated=true → x.2∈x.1.existed := by
  refine h.touched.imp_right fun ht x hx hg => ?_
  obtain he|⟨hp,_⟩ := ht x hx hg
  · exact he
  · exact absurd hp hrun

/-- A step that leaves the leaves alone and moves to a phase outside a group's run. -/
theorem Inv.move {phase : Phase} (h : Inv s) (hrun : s.phase≠.run) (habort : s.phase≠.aborted)
    (hknown : ∀ c∈phase.known, c∈s.db.cards) : Inv { s with phase := phase } where
  nonzero := h.nonzero
  known := hknown
  decided := h.decided
  groups := h.groups
  touched := .inr fun x hx hg => .inl ((h.settled hrun).resolve_left habort x hx hg)

theorem Inv.abort (h : Inv s) : Inv { s with phase := .aborted } where
  nonzero := h.nonzero
  known := by simp [Phase.known]
  decided := h.decided
  groups := h.groups
  touched := .inl rfl

theorem others_inv {cards : List Int} {rows : List (Nat×Int)} (h : Inv s)
    (hs : step s (.others cards rows)=some t) : Inv t := by
  simp only [step] at hs
  split at hs
  · rename_i hfresh
    cases hs
    refine ⟨⟨?_,h.nonzero.2⟩,fun c hc => List.mem_append_left _ (h.known c hc),h.decided,h.groups,
      h.touched.imp_right fun ht x hx hg => (ht x hx hg).imp_right ?_⟩
    · intro hz
      obtain hz|hz := List.mem_append.mp hz
      · exact h.nonzero.1 hz
      · exact (hfresh.1 0 hz).1 rfl
    · rintro ⟨hp,group,rest,hgs,hmem,hcard,hview⟩
      refine ⟨hp,group,rest,hgs,hmem,hcard,?_⟩
      simp only [view,List.mem_filter,List.mem_append] at hview ⊢
      exact ⟨hview.1.imp_left .inl,hview.2⟩
  · cases hs

theorem touch_inv {i : Nat} (h : Inv s) (hok : Anchored s (.touch i))
    (hs : step s (.touch i)=some t) : Inv t := by
  simp only [step] at hs
  split at hs
  · rename_i group rest hp hgs
    split at hs
    · rename_i d hd
      split at hs
      · rename_i hcard
        cases hs
        have hmem := List.mem_of_getElem? hd
        refine ⟨h.nonzero,h.known,h.decided,h.groups,.inr fun x hx hg => ?_⟩
        have ht := h.touched.resolve_left (by simp [hp])
        obtain hx|hx := List.mem_append.mp hx
        · exact ht x hx hg
        · obtain rfl : x=(d,scopeCardID (view s.db s.own) d.leaf.input) := by simpa using hx
          have hanchor := hok group rest d hgs hd hg
          rw [hanchor] at hcard ⊢
          have hne : d.anchor≠0 := fun hz => view_nonzero h (hz ▸ hcard)
          have hgroup := h.groups group (hgs ▸ List.mem_cons_self) d hmem
          exact (hgroup hg hne).imp_right fun hu => ⟨hp,group,rest,hgs,hmem,hu.symm,hcard⟩
      · cases hs
    · cases hs
  · cases hs

theorem write_inv {w : Writes} (h : Inv s) (hok : Anchored s (.write w))
    (hs : step s (.write w)=some t) : Inv t := by
  simp only [step] at hs
  split at hs
  · rename_i hp
    split at hs
    · rename_i hfresh
      cases hs
      refine ⟨⟨h.nonzero.1,?_⟩,h.known,h.decided,h.groups,h.touched.imp_right
        fun ht x hx hg => (ht x hx hg).imp_right ?_⟩
      · intro hz
        obtain hz|hz := List.mem_append.mp hz
        · exact h.nonzero.2 hz
        · exact (hfresh.1 0 hz).1 rfl
      · rintro ⟨_,group,rest,hgs,hmem,hcard,hview⟩
        refine ⟨hp,group,rest,hgs,hmem,hcard,?_⟩
        have hkept := hok x hx hcard
        simp only [view,List.mem_filter,List.mem_append,decide_eq_true_eq] at hview ⊢
        refine ⟨hview.1.imp_right .inl,?_⟩
        simpa [hkept] using hview.2
    · cases hs
  · cases hs

/-- The second look lets no leaf through that ran against a card born since. -/
theorem recheck_inv (h : Inv s) (hs : step s .recheck=some t) : Inv t := by
  simp only [step] at hs
  split at hs
  · rename_i group rest hp hgs
    split at hs
    · cases hs
      exact h.abort
    · rename_i hborn
      cases hs
      refine ⟨h.nonzero,by simp [Phase.known],h.decided,
        fun g hg => h.groups g (hgs ▸ List.mem_cons_of_mem _ hg),.inr fun x hx hg => .inl ?_⟩
      obtain he|⟨_,group',rest',hgs',hmem,hcard,hview⟩ :=
        h.touched.resolve_left (by simp [hp]) x hx hg
      · exact he
      · obtain rfl : group=group' := (List.cons.inj (hgs.symm.trans hgs')).1
        have hne : x.1.leaf.unbornAnchor≠0 := fun hz => view_nonzero h (by
          rw [← hz,← hcard]
          exact hview)
        exact absurd (firstBorn_isSome 0 (List.mem_map_of_mem hmem) hne (hcard ▸ hview)) hborn
  · cases hs

theorem step_inv (h : Inv s) (hok : Anchored s e) (hs : step s e=some t) : Inv t := by
  cases e with
  | others cards rows => exact others_inv h hs
  | seed =>
    simp only [step] at hs
    split at hs
    · rename_i hp
      cases hs
      exact h.move (by simp [hp]) (by simp [hp]) (by simp [Phase.known])
    · cases hs
  | load =>
    simp only [step] at hs
    split at hs
    · rename_i hp
      cases hs
      refine h.move (by simp [hp]) (by simp [hp]) fun c hc => ?_
      simpa using (List.mem_filter.mp hc).2
    · cases hs
  | expand ancestors =>
    simp only [step] at hs
    split at hs
    · rename_i known hp
      split at hs
      · rename_i hanc
        cases hs
        refine h.move (by simp [hp]) (by simp [hp]) fun c hc => ?_
        obtain hc|hc := List.mem_append.mp hc
        · exact h.known c (by rwa [hp])
        · exact hanc c hc
      · cases hs
    · cases hs
  | decide =>
    simp only [step] at hs
    split at hs
    · rename_i p todo known hp
      cases hs
      have hknown : ∀ c∈known, c∈s.db.cards := fun c hc => h.known c (by rwa [hp])
      have hmove : Inv { s with phase := .decide todo known } :=
        h.move (by simp [hp]) (by simp [hp]) hknown
      refine ⟨hmove.nonzero,hmove.known,fun d hd => ?_,hmove.groups,hmove.touched⟩
      obtain hd|hd := List.mem_append.mp hd
      · exact h.decided d hd
      · obtain rfl : d=decideLeaf s.db known p := by simpa using hd
        exact decideLeaf_ok s.db p hknown
    · cases hs
  | fail =>
    simp only [step] at hs
    split at hs
    · cases hs
    · cases hs
      exact h.abort
  | begin =>
    simp only [step] at hs
    split at hs
    · rename_i hp
      cases hs
      refine ⟨h.nonzero,by simp [Phase.known],h.decided,fun group hg d hd => h.decided d ?_,
        .inr fun x hx hg => .inl ?_⟩
      · rw [← (groups_maximalRuns (fun d => handlerKey d.leaf) s.decided).whole]
        exact List.mem_flatten_of_mem hg hd
      · exact (h.settled (by simp [hp])).resolve_left (by simp [hp]) x hx hg
    · cases hs
  | check =>
    simp only [step] at hs
    split at hs
    · rename_i hp _
      split at hs
      · cases hs
        exact h.abort
      · cases hs
        refine ⟨h.nonzero,by simp [Phase.known],h.decided,h.groups,.inr fun x hx hg => .inl ?_⟩
        exact (h.settled (by simp [hp])).resolve_left (by simp [hp]) x hx hg
    · cases hs
  | touch i => exact touch_inv h hok hs
  | write w => exact write_inv h hok hs
  | recheck => exact recheck_inv h hs
  | commit =>
    simp only [step] at hs
    split at hs
    · rename_i hp hgs
      cases hs
      refine ⟨⟨view_nonzero h,by simp⟩,by simp [Phase.known],h.decided,h.groups,
        .inr fun x hx hg => .inl ?_⟩
      exact (h.settled (by simp [hp])).resolve_left (by simp [hp]) x hx hg
    · cases hs

/-- **A batch whose references hold still runs nothing unchecked.** In every run in which
the gated leaves run against the cards their references named at authorization, and no
card a leaf met unborn is deleted before the second look, a batch that committed has run
its gated leaves only against cards that existed when they were authorized. -/
theorem anchored_runs_checked {db : Db} {used : List Int} {plan : List (Prepared Target)}
    {es : List Event} (hzero : 0∉db.cards) (hrun : Run step Anchored (start db used plan) es t)
    (hdone : t.phase=.done) : ¬RanUnchecked t := by
  have hinv : Inv t := hrun.inv Inv (fun _ _ _ => step_inv) (start_inv hzero)
  rintro ⟨x,hx,hg,hmissing⟩
  have hall := (hinv.settled (by simp [hdone])).resolve_left (by simp [hdone])
  exact hmissing (hall x hx hg)

section Example

/-- `comment.insert` on card `1`. -/
def commentInsert : Prepared Target :=
  ⟨1,⟨"comment","insert",false,false,true,true,false,false⟩,.card 1,true,true,"",0⟩

/-- A comment on a card made meanwhile, and one on a card that stood before. -/
theorem checked_comment : ∃ t, Run step Anchored (start ⟨[1],fun _ => none⟩ [1] [commentInsert])
    [.seed,.load,.expand [],.others [2] [],.decide,.begin,.check,.touch 0,.recheck,.commit] t∧
      t.phase=.done∧¬RanUnchecked t := by
  have hrun : Run step Anchored (start ⟨[1],fun _ => none⟩ [1] [commentInsert])
      [.seed,.load,.expand [],.others [2] [],.decide,.begin,.check,.touch 0,.recheck,.commit] _ :=
    .cons trivial rfl <| .cons trivial rfl <| .cons trivial rfl <| .cons trivial rfl <|
    .cons trivial rfl <| .cons trivial rfl <| .cons trivial rfl <|
    .cons (fun _ _ _ hgs hd _ => by cases hgs; cases hd; rfl) rfl <|
    .cons trivial rfl <| .cons trivial rfl <| .nil _
  exact ⟨_,hrun,rfl,anchored_runs_checked (by decide) hrun rfl⟩

/-- `comment.update`: gated, it names its card through the comment's activity row. -/
def commentUpdate : Prepared Target :=
  ⟨0,⟨"comment","update",false,false,true,true,false,false⟩,.row 7,true,true,"",0⟩

/-- The comment does not exist yet when its edit is authorized; it and its card are
committed by another transaction before the edit runs. -/
def lateComment : List Event :=
  [.seed,.load,.expand [],.decide,.begin,.others [2] [(7,2)],.check,.touch 0,.recheck,.commit]

/-- `task.purge` of card `2`. -/
def taskPurge : Prepared Target :=
  ⟨0,⟨"task","purge",false,false,true,true,false,false⟩,.card 2,true,true,"",0⟩

/-- The task is committed by another transaction between the first look and the purge,
which leaves no card for the second look. -/
def latePurge : List Event :=
  [.seed,.load,.expand [],.decide,.begin,.check,.others [2] [],.touch 0,.write ⟨[],[2],[]⟩,.recheck,
    .commit]

theorem late_cards_unchecked :
    (∃ t, Run step (fun _ _ => True) (start ⟨[1],fun _ => none⟩ [1] [commentUpdate]) lateComment t∧
      t.phase=.done∧RanUnchecked t)∧
    ∃ t, Run step (fun _ _ => True) (start ⟨[1],fun _ => none⟩ [1] [taskPurge]) latePurge t∧
      t.phase=.done∧RanUnchecked t := by
  have hcomment : Run step (fun _ _ => True) (start ⟨[1],fun _ => none⟩ [1] [commentUpdate])
      lateComment _ :=
    .cons trivial rfl <| .cons trivial rfl <| .cons trivial rfl <| .cons trivial rfl <|
    .cons trivial rfl <| .cons trivial rfl <| .cons trivial rfl <| .cons trivial rfl <|
    .cons trivial rfl <| .cons trivial rfl <| .nil _
  have hpurge : Run step (fun _ _ => True) (start ⟨[1],fun _ => none⟩ [1] [taskPurge])
      latePurge _ :=
    .cons trivial rfl <| .cons trivial rfl <| .cons trivial rfl <| .cons trivial rfl <|
    .cons trivial rfl <| .cons trivial rfl <| .cons trivial rfl <| .cons trivial rfl <|
    .cons trivial rfl <| .cons trivial rfl <| .cons trivial rfl <| .nil _
  refine ⟨⟨_,hcomment,rfl,_,List.mem_cons_self,rfl,?_⟩,⟨_,hpurge,rfl,_,List.mem_cons_self,rfl,?_⟩⟩
  · decide
  · decide

end Example

end Kitp.Unborn
