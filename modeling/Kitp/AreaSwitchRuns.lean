import Kitp.Lib.Runs
import Kitp.AreaSwitches

/-! No area is on while one it depends on is off, unless a switch-on is committed between a
switch-off's check and its write. -/
namespace Kitp.AreaSwitches

open Kitp.Runs Kitp.Versions

variable {ι : Type} [DecidableEq ι]

/-- No area is explicitly on where one that it depends on is explicitly off. -/
def Safe (c : Catalog) (f : Option Int×String → Option Switch) : Prop :=
  ∀ q, ∀ a∈c.areas, ∀ k∈a.dependsOn, f (q,a.key)=some .on → f (q,k)≠some .off

/-- A call that has switched a dependent on doesn't commit between the check of a switch-off and
its write. -/
def Undisturbed (c : Catalog) (s : State ι) : Event ι → Prop
  | .commit j => ∀ i, i≠j → ∀ p key, s.task i=.off p key → ∀ d∈c.areas, key∈d.dependsOn →
      s.rows.own j (rowOf p d.key)≠some (some .on)
  | _ => True

/-- The areas up to the next one are on; what a switch-off has checked is as it was. -/
def TaskOk (c : Catalog) (rows : Table ι (Option Int×String) Switch) (i : ι) : Task → Prop
  | .starting p key _ todo _ => ∃ a∈c.areas, a.key=key∧∃ done, done++todo=a.dependsOn++[key]∧
      ∀ k∈done, rows.own i (rowOf p k)=some (some .on)
  | .turning p key _ k todo _ => ∃ a∈c.areas, a.key=key∧∃ done,
      done++k::todo=a.dependsOn++[key]∧∀ k∈done, rows.own i (rowOf p k)=some (some .on)
  | .checking p area => area∈c.areas∧(area.scope=.project↔p≠0)
  | .off p key => ∀ d∈c.areas, key∈d.dependsOn → rows.view i (rowOf p d.key)≠some .on
  | _ => True

/-- What a transaction sees and commits is safe. -/
structure Sound (c : Catalog) (s : State ι) : Prop where
  apart : ∀ i j k, s.rows.own i k≠none → s.rows.own j k≠none → i=j
  committed : Safe c s.rows.row
  views : ∀ i, Safe c (s.rows.view i)
  own : ∀ i q, ∀ a∈c.areas, ∀ k∈a.dependsOn, s.rows.own i (q,a.key)=some (some .on) →
    s.rows.own i (q,k)=some (some .on)
  tasks : ∀ i, TaskOk c s.rows i (s.task i)

variable {c : Catalog} {s t : State ι} {i j : ι}

theorem view_of_own {r : Table ι (Option Int×String) Switch} {k : Option Int×String} {x : Switch}
    (h : r.own i k=some (some x)) : r.view i k=some x := by
  simp [Table.view,h]

theorem Catalog.find_mem {key : String} {a : Area} (h : c.find key=some a) :
    a∈c.areas∧a.key=key :=
  ⟨List.mem_of_find?_eq_some h,by simpa using List.find?_some h⟩

theorem Catalog.key_unique {a b : Area} (ha : a∈c.areas) (hb : b∈c.areas) (h : a.key=b.key) :
    a=b :=
  List.inj_on_of_nodup_map c.unique ha hb h

/-- The next area to turn on is a dependency or, with all of those on, the area itself. -/
theorem next_cases {deps done todo : List String} {key k : String}
    (h : done++k::todo=deps++[key]) : k∈deps∨k=key∧done=deps := by
  cases List.eq_nil_or_concat todo with
  | inl hnil =>
    subst hnil
    have hinj := List.append_inj' h rfl
    simp only [List.cons.injEq,and_true] at hinj
    exact Or.inr ⟨hinj.2,hinj.1⟩
  | inr hlast =>
    obtain ⟨rest,x,hx⟩ := hlast
    subst hx
    have h' : (done++k::rest)++[x]=deps++[key] := by simpa using h
    have hinj := (List.append_inj' h' rfl).1
    refine Or.inl ?_
    rw [← hinj]
    simp

theorem TaskOk.congr {r r' : Table ι (Option Int×String) Switch} {task : Task}
    (h : TaskOk c r i task) (hown : ∀ k, r'.own i k=r.own i k)
    (hview : ∀ k, r'.view i k=r.view i k) : TaskOk c r' i task := by
  cases task with
  | idle => trivial
  | failed m => trivial
  | starting p key start todo applied => simpa only [TaskOk,hown] using h
  | turning p key start k todo applied => simpa only [TaskOk,hown] using h
  | checking p area => exact h
  | off p key => simpa only [TaskOk,hview] using h

/-- A row is written: on, where what the area depends on is; off, where no dependent is on. -/
theorem Sound.write {p : Int} {k : String} {x : Switch} {task : Task} (h : Sound c s)
    (hfree : s.rows.free i (rowOf p k)=true)
    (hon : x=.on → ∀ a∈c.areas, a.key=k → ∀ l∈a.dependsOn,
      s.rows.own i (rowOf p l)=some (some .on))
    (hoff : x=.off → ∀ d∈c.areas, k∈d.dependsOn → s.rows.view i (rowOf p d.key)≠some .on)
    (hrows : t.rows=s.rows.put i (rowOf p k) (some x))
    (htask : t.task=Function.update s.task i task) (hok : TaskOk c t.rows i task) : Sound c t := by
  have hrow : ∀ l, rowOf p l=((rowOf p k).1,l) := fun _ => rfl
  have hown : ∀ j l, t.rows.own j l=if j=i∧l=rowOf p k then some (some x) else s.rows.own j l := by
    intro j l
    rw [hrows,own_put]
  have hview : ∀ j l, t.rows.view j l=if j=i∧l=rowOf p k then some x else s.rows.view j l := by
    intro j l
    rw [hrows,view_put]
  refine ⟨?_,?_,?_,?_,?_⟩
  · intro a b l ha hb
    rw [hown] at ha hb
    have hothers := free_iff.mp hfree
    by_cases hla : a=i∧l=rowOf p k
    · by_cases hlb : b=i
      · exact hla.1.trans hlb.symm
      · rw [if_neg fun hb' => hlb hb'.1,hla.2] at hb
        exact absurd (hothers b hlb) hb
    · rw [if_neg hla] at ha
      by_cases hlb : b=i∧l=rowOf p k
      · by_cases hai : a=i
        · exact hai.trans hlb.1.symm
        · rw [hlb.2] at ha
          exact absurd (hothers a hai) ha
      · rw [if_neg hlb] at hb
        exact h.apart a b l ha hb
  · have hcommitted : t.rows.row=s.rows.row := by rw [hrows]; rfl
    rw [hcommitted]
    exact h.committed
  · intro j q a ha l hl hsw hoffl
    rw [hview] at hsw hoffl
    by_cases hli : j=i∧(q,l)=rowOf p k
    · -- the row written is the dependency's
      rw [if_pos hli,Option.some.injEq] at hoffl
      by_cases hai : j=i∧(q,a.key)=rowOf p k
      · rw [if_pos hai,hoffl] at hsw
        cases hsw
      · rw [if_neg hai,hli.1] at hsw
        have hq : (q,a.key)=rowOf p a.key := by rw [hrow,← hli.2]
        have hk : l=k := congrArg Prod.snd hli.2
        rw [hq] at hsw
        exact hoff hoffl a ha (hk ▸ hl) hsw
    · rw [if_neg hli] at hoffl
      by_cases hai : j=i∧(q,a.key)=rowOf p k
      · rw [if_pos hai,Option.some.injEq] at hsw
        have hq : (q,l)=rowOf p l := by rw [hrow,← hai.2]
        have hv := view_of_own (hon hsw a ha (congrArg Prod.snd hai.2) l hl)
        rw [← hq,← hai.1,hoffl] at hv
        cases hv
      · rw [if_neg hai] at hsw
        exact h.views j q a ha l hl hsw hoffl
  · intro j q a ha l hl hsw
    rw [hown] at hsw ⊢
    by_cases hai : j=i∧(q,a.key)=rowOf p k
    · rw [if_pos hai,Option.some.injEq,Option.some.injEq] at hsw
      have hq : (q,l)=rowOf p l := by rw [hrow,← hai.2]
      have hl' := hon hsw a ha (congrArg Prod.snd hai.2) l hl
      rw [hsw]
      split
      · rfl
      · rw [hq,hai.1]
        exact hl'
    · rw [if_neg hai] at hsw
      by_cases hli : j=i∧(q,l)=rowOf p k
      · rw [if_pos hli]
        cases hx : x with
        | on => rfl
        | off =>
          have hq : (q,a.key)=rowOf p a.key := by rw [hrow,← hli.2]
          have hk : l=k := congrArg Prod.snd hli.2
          rw [hq,hli.1] at hsw
          exact absurd (view_of_own hsw) (hoff hx a ha (hk ▸ hl))
      · rw [if_neg hli]
        exact h.own j q a ha l hl hsw
  · intro j
    rw [htask]
    by_cases hj : j=i
    · subst hj
      rw [Function.update_self]
      exact hok
    · rw [Function.update_of_ne hj]
      refine (h.tasks j).congr ?_ ?_
      · intro l
        rw [hown,if_neg fun hji => hj hji.1]
      · intro l
        rw [hview,if_neg fun hji => hj hji.1]

/-- A statement that writes no row. -/
theorem Sound.goTo {task : Task} (h : Sound c s) (hrows : t.rows=s.rows)
    (htask : t.task=Function.update s.task i task) (hok : TaskOk c s.rows i task) : Sound c t := by
  refine ⟨?_,?_,?_,?_,?_⟩
  · rw [hrows]
    exact h.apart
  · rw [hrows]
    exact h.committed
  · rw [hrows]
    exact h.views
  · rw [hrows]
    exact h.own
  · intro j
    rw [htask,hrows]
    by_cases hj : j=i
    · subst hj
      rw [Function.update_self]
      exact hok
    · rw [Function.update_of_ne hj]
      exact h.tasks j

theorem validate_ok {env : Env} {input : Input} {p : Int} {area : Area} {on : Bool}
    {start : Option String} (h : validate c env input=.ok (p,area,on,start)) :
    area∈c.areas∧(area.scope=.project↔p≠0) := by
  unfold validate at h
  split at h
  · cases h
  · split at h
    · cases h
    · cases h
    · split at h
      · cases h
      · rename_i hfind
        split at h
        · cases h
        · rename_i hscope
          split at h
          · cases h
          · split at h
            · cases h
            · split at h
              · cases h
              · cases h
                exact ⟨(Catalog.find_mem hfind).1,of_not_not hscope⟩

theorem call_sound {env : Env} {input : Input} (h : Sound c s) : Sound c (call c s i env input) := by
  unfold call
  split
  · exact h.goTo rfl rfl trivial
  · rename_i p area start hv
    obtain ⟨ha,-⟩ := validate_ok hv
    exact h.goTo rfl rfl ⟨area,ha,rfl,[],rfl,by simp⟩
  · rename_i p area start hv
    exact h.goTo rfl rfl (validate_ok hv)

theorem startArea_ok {env : Env} {p : Int} {key k : String} {start : Option String}
    {todo applied : List String}
    (h : TaskOk c s.rows i (.starting p key start (k::todo) applied)) :
    TaskOk c s.rows i (startArea c env p key start k todo applied) := by
  unfold startArea
  split
  · exact h
  · split
    · exact h
    · split
      · exact h
      · -- which starting point it is doesn't matter
        generalize (if k=key then _ else _)=st
        dsimp only
        split
        · exact h
        · trivial

theorem nil_of_first {areas : List Area} (h : first areas=none) : areas=[] := by
  have hlen := (List.mergeSort_perm areas fun a b => a.sortOrder ≤ b.sortOrder).length_eq
  rw [List.head?_eq_none_iff.mp h] at hlen
  exact List.eq_nil_of_length_eq_zero hlen.symm

/-- A dependent that isn't on, for the check, has no row that says so. -/
theorem not_on_of_areaState (env : Env) {p : Int} {area d : Area} (ha : area∈c.areas)
    (hscope : area.scope=.project↔p≠0) (hd : d∈c.areas) (hdep : area.key∈d.dependsOn)
    (h : areaState c s i env p d.key≠.on) : s.rows.view i (rowOf p d.key)≠some .on := by
  intro hon
  have hfind : c.find d.key=some d := by
    unfold Catalog.find
    cases hf : c.areas.find? (·.key=d.key) with
    | none => simpa using List.find?_eq_none.mp hf d hd
    | some b =>
      have hb := Catalog.find_mem hf
      rw [Catalog.key_unique hb.1 hd hb.2]
  have hsame := c.sameScope d hd area ha hdep
  simp only [areaState,hfind] at h
  cases hs : d.scope with
  | workspace =>
    have hp : p=0 := by
      by_contra hne
      rw [hsame,hs] at hscope
      cases hscope.mpr hne
    rw [rowOf,if_pos hp] at hon
    simp [hs,hon] at h
  | project =>
    have hp : p≠0 := hscope.mp (hsame.trans hs)
    rw [rowOf,if_neg hp] at hon
    simp [hs,hon] at h

theorem next_sound {env : Env} (h : Sound c s) (hn : next c s i env (s.task i)=some t) :
    Sound c t := by
  have htask := h.tasks i
  cases htk : s.task i with
  | idle => simp [htk,next] at hn
  | failed m => simp [htk,next] at hn
  | starting p key start todo applied =>
    rw [htk] at htask hn
    cases todo with
    | nil =>
      cases hn
      exact h.goTo rfl rfl trivial
    | cons k todo =>
      cases hn
      exact h.goTo rfl rfl (startArea_ok htask)
  | turning p key start k todo applied =>
    rw [htk] at htask hn
    obtain ⟨a,ha,hkey,done,hlist,hdone⟩ := htask
    simp only [next] at hn
    split at hn
    · rename_i hfree
      cases hn
      refine h.write hfree ?_ (by simp) rfl rfl ?_
      · intro _ b hb hbk l hl
        cases next_cases hlist with
        | inl hk =>
          have hnone := c.shallow a ha b hb (hbk ▸ hk)
          rw [hnone] at hl
          cases hl
        | inr hk =>
          have hba := Catalog.key_unique hb ha (hbk.trans (hk.1.trans hkey.symm))
          rw [hba,← hk.2] at hl
          exact hdone l hl
      · refine ⟨a,ha,hkey,done++[k],by simpa using hlist,?_⟩
        intro l hl
        change (s.rows.put i (rowOf p k) (some .on)).own i (rowOf p l)=_
        rw [own_put]
        split
        · rfl
        · rename_i hne
          cases List.mem_append.mp hl with
          | inl hl => exact hdone l hl
          | inr hl =>
            rw [List.mem_singleton.mp hl] at hne
            exact absurd ⟨rfl,rfl⟩ hne
    · cases hn
  | checking p area =>
    rw [htk] at htask hn
    cases hn
    split
    · exact h.goTo rfl rfl trivial
    · rename_i hnone
      refine h.goTo rfl rfl ?_
      intro d hd hdep
      refine not_on_of_areaState env htask.1 htask.2 hd hdep ?_
      intro hon
      have hmem := List.filter_eq_nil_iff.mp (nil_of_first hnone) d hd
      simp [hdep,hon] at hmem
  | off p key =>
    rw [htk] at htask hn
    simp only [next] at hn
    split at hn
    · rename_i hfree
      cases hn
      exact h.write hfree (by simp) (fun _ => htask) rfl rfl trivial
    · cases hn

theorem Sound.apart_close (h : Sound c s) (rows : List ((Option Int×String)×Switch)) :
    ∀ a b k, (s.rows.close i rows).own a k≠none → (s.rows.close i rows).own b k≠none → a=b := by
  intro a b k ha hb
  rw [own_close] at ha hb
  by_cases hai : a=i
  · rw [if_pos hai] at ha
    exact absurd rfl ha
  · by_cases hbi : b=i
    · rw [if_pos hbi] at hb
      exact absurd rfl hb
    · rw [if_neg hai] at ha
      rw [if_neg hbi] at hb
      exact h.apart a b k ha hb

theorem Sound.own_closed (h : Sound c s) (rows : List ((Option Int×String)×Switch)) :
    ∀ j q, ∀ a∈c.areas, ∀ k∈a.dependsOn, (s.rows.close i rows).own j (q,a.key)=some (some .on) →
      (s.rows.close i rows).own j (q,k)=some (some .on) := by
  intro j q a ha k hk hsw
  rw [own_close] at hsw ⊢
  by_cases hj : j=i
  · rw [if_pos hj] at hsw
    cases hsw
  · rw [if_neg hj] at hsw ⊢
    exact h.own j q a ha k hk hsw

/-- The transaction's rows become those it saw. -/
theorem commit_sound (h : Sound c s) (hok : Undisturbed c s (.commit i)) :
    Sound c (s.close i (s.rows.commit i)) := by
  have hown : ∀ j k, j≠i → (s.rows.commit i).own j k=s.rows.own j k := by
    intro j k hj
    rw [Table.commit,own_close,if_neg hj]
  have hrow : (s.rows.commit i).row=s.rows.view i := funext fun k => row_commit
  have hview : ∀ j k, j≠i → (s.rows.commit i).view j k=(s.rows.own j k).getD (s.rows.view i k) := by
    intro j k hj
    rw [view_commit,if_neg hj]
  have hself : (s.rows.commit i).view i=s.rows.view i := by
    funext k
    rw [view_commit,if_pos rfl]
  refine ⟨?_,?_,?_,?_,?_⟩
  · exact h.apart_close _
  · change Safe c (s.rows.commit i).row
    rw [hrow]
    exact h.views i
  · intro j q a ha l hl hsw hoff
    change (s.rows.commit i).view j _=_ at hsw hoff
    by_cases hj : j=i
    · subst hj
      rw [hself] at hsw hoff
      exact h.views j q a ha l hl hsw hoff
    · rw [hview j _ hj] at hsw hoff
      -- what it wrote itself goes together, and so does what was committed
      cases hoa : s.rows.own j (q,a.key) with
      | some o =>
        rw [hoa,Option.getD_some] at hsw
        subst hsw
        have hl' := h.own j q a ha l hl hoa
        rw [hl'] at hoff
        cases hoff
      | none =>
        rw [hoa,Option.getD_none] at hsw
        cases hol : s.rows.own j (q,l) with
        | none =>
          rw [hol,Option.getD_none] at hoff
          exact h.views i q a ha l hl hsw hoff
        | some o =>
          rw [hol,Option.getD_some] at hoff
          subst hoff
          cases hia : s.rows.own i (q,a.key) with
          | some x =>
            simp only [Table.view,hia,Option.getD_some] at hsw
            subst hsw
            have hil := h.own i q a ha l hl hia
            exact hj (h.apart j i (q,l) (by simp [hol]) (by simp [hil]))
          | none =>
            refine h.views j q a ha l hl ?_ (by simp [Table.view,hol])
            simp only [Table.view,hia,Option.getD_none] at hsw
            simp [Table.view,hoa,hsw]
  · exact h.own_closed _
  · intro j
    change TaskOk c (s.rows.commit i) j (Function.update s.task i .idle j)
    by_cases hj : j=i
    · subst hj
      rw [Function.update_self]
      trivial
    · rw [Function.update_of_ne hj]
      have htask := h.tasks j
      cases htk : s.task j with
      | idle => trivial
      | failed m => trivial
      | checking p area =>
        rw [htk] at htask
        exact htask
      | starting p key start todo applied =>
        rw [htk] at htask
        simpa only [TaskOk,hown j _ hj] using htask
      | turning p key start k todo applied =>
        rw [htk] at htask
        simpa only [TaskOk,hown j _ hj] using htask
      | off p key =>
        rw [htk] at htask
        intro d hd hdep
        have hbefore := htask d hd hdep
        have hcommit := hok j hj p key htk d hd hdep
        rw [hview j _ hj]
        intro hon
        cases hoj : s.rows.own j (rowOf p d.key) with
        | some o => simp [Table.view,hoj] at hbefore hon; exact hbefore hon
        | none =>
          simp only [Table.view,hoj,Option.getD_none] at hbefore hon
          cases hoi : s.rows.own i (rowOf p d.key) with
          | none => simp [hoi] at hon; exact hbefore hon
          | some o =>
            simp only [hoi,Option.getD_some] at hon
            rw [hon] at hoi
            exact hcommit hoi

theorem abort_sound (h : Sound c s) : Sound c (s.close i (s.rows.abort i)) := by
  have hown : ∀ j k, j≠i → (s.rows.abort i).own j k=s.rows.own j k := by
    intro j k hj
    rw [Table.abort,own_close,if_neg hj]
  have hview : ∀ j k, j≠i → (s.rows.abort i).view j k=s.rows.view j k := by
    intro j k hj
    rw [view_abort,if_neg hj]
  refine ⟨?_,h.committed,?_,?_,?_⟩
  · exact h.apart_close _
  · intro j
    change Safe c ((s.rows.abort i).view j)
    by_cases hj : j=i
    · have hself : (s.rows.abort i).view j=s.rows.row := by
        funext k
        rw [view_abort,if_pos hj]
      rw [hself]
      exact h.committed
    · have hsame : (s.rows.abort i).view j=s.rows.view j := funext fun k => hview j k hj
      rw [hsame]
      exact h.views j
  · exact h.own_closed _
  · intro j
    change TaskOk c (s.rows.abort i) j (Function.update s.task i .idle j)
    by_cases hj : j=i
    · subst hj
      rw [Function.update_self]
      trivial
    · rw [Function.update_of_ne hj]
      exact (h.tasks j).congr (fun k => hown j k hj) fun k => hview j k hj

theorem step_sound {e : Event ι} (h : Sound c s) (hok : Undisturbed c s e)
    (hs : step c s e=some t) : Sound c t := by
  cases e with
  | call i env input =>
    simp only [step] at hs
    split at hs
    · cases hs
      exact call_sound h
    · cases hs
  | next i env => exact next_sound h hs
  | commit i =>
    simp only [step] at hs
    split at hs
    · cases hs
      exact commit_sound h hok
    · cases hs
  | abort i =>
    cases hs
    exact abort_sound h

/-- No area is on while an area it depends on is off, in what is committed and in what any
transaction sees. -/
theorem switches_safe {rows : List ((Option Int×String)×Switch)} {events : List (Event ι)}
    (hrows : Safe c (Table.mk (ι := ι) rows []).row)
    (hrun : Run (step c) (Undisturbed c) (start rows) events s) :
    Safe c s.rows.row∧∀ i, Safe c (s.rows.view i) := by
  have hstart : Sound c (start (ι := ι) rows) := by
    refine ⟨fun _ _ _ h => absurd rfl h,hrows,fun _ => hrows,?_,fun _ => trivial⟩
    intro i q a _ l _ h
    cases h
  have hs := hrun.inv (Sound c) (fun _ _ _ h hok hstep => step_sound h hok hstep) hstart
  exact ⟨hs.committed,hs.views⟩

/-- The areas of `areas.hcsv`. -/
def builtin : Catalog where
  areas := [⟨"tasks","Tasks",.project,10,[],["tracker","helpdesk"]⟩,
    ⟨"conversations","Conversations",.project,20,[],["conversations"]⟩,
    ⟨"approvals","Approvals",.project,30,["tasks"],[]⟩,
    ⟨"content","Content",.project,40,[],["publishing"]⟩,
    ⟨"sites","Sites",.workspace,50,[],[]⟩]
  unique := by decide
  sameScope := by decide
  shallow := by decide

/-- An admin's call on a project that has tasks. -/
def anAdmin : Env := ⟨fun _ => true,[("admin",none)],fun _ k => k="tasks",fun _ _ => ("applied",none)⟩

/-- One call after the other: approvals, and with them tasks, go on; tasks can't go off. -/
theorem switches_safe_serial : ∃ s,
    Run (step builtin) (Undisturbed builtin) (start [] : State Unit)
      [.call () anAdmin ⟨some 5,some "approvals",some true,none⟩,.next () anAdmin,.next () anAdmin,
        .next () anAdmin,.next () anAdmin,.next () anAdmin,.commit (),
        .call () anAdmin ⟨some 5,some "tasks",some false,none⟩,.next () anAdmin,.commit ()] s∧
    s.rows.row (some 5,"tasks")=some .on∧Safe builtin s.rows.row := by
  have hend : ((([.call () anAdmin ⟨some 5,some "approvals",some true,none⟩,.next () anAdmin,
      .next () anAdmin,.next () anAdmin,.next () anAdmin,.next () anAdmin,.commit (),
      .call () anAdmin ⟨some 5,some "tasks",some false,none⟩,.next () anAdmin,.commit ()] :
        List (Event Unit)).foldlM (step builtin) (start [])).map fun s =>
      s.rows.row (some 5,"tasks"))=some (some .on) := by decide +kernel
  obtain ⟨s,hs,hend⟩ := Option.map_eq_some_iff.mp hend
  have hok : ∀ (s : State Unit) (e : Event Unit), Undisturbed builtin s e := by
    intro s e
    cases e with
    | commit j => exact fun i hi => absurd rfl hi
    | _ => trivial
  have hrun := Run.of_foldlM hs fun s e _ => hok s e
  have hrows : Safe builtin (Table.mk (ι := Unit) [] []).row := by
    intro q a _ k _ h
    cases h
  exact ⟨s,hrun,hend,(switches_safe hrows hrun).1⟩

/-- Approvals go on between the check and the write of switching tasks off. -/
theorem overlapping_switches_unsafe : ∃ s,
    Run (step builtin) (fun _ _ => True) (start [] : State Bool)
      [.call true anAdmin ⟨some 5,some "approvals",some true,none⟩,.next true anAdmin,
        .next true anAdmin,.call false anAdmin ⟨some 5,some "tasks",some false,none⟩,
        .next false anAdmin,.next true anAdmin,.next true anAdmin,.next true anAdmin,.commit true,
        .next false anAdmin,.commit false] s∧
    s.rows.row (some 5,"approvals")=some .on∧s.rows.row (some 5,"tasks")=some .off∧
      ¬Safe builtin s.rows.row := by
  have hend : ((([.call true anAdmin ⟨some 5,some "approvals",some true,none⟩,.next true anAdmin,
      .next true anAdmin,.call false anAdmin ⟨some 5,some "tasks",some false,none⟩,
      .next false anAdmin,.next true anAdmin,.next true anAdmin,.next true anAdmin,.commit true,
      .next false anAdmin,.commit false] : List (Event Bool)).foldlM (step builtin)
      (start [])).map fun s => (s.rows.row (some 5,"approvals"),s.rows.row (some 5,"tasks")))=
        some (some .on,some .off) := by decide +kernel
  obtain ⟨s,hs,hend⟩ := Option.map_eq_some_iff.mp hend
  obtain ⟨hon,hoff⟩ := Prod.mk.inj hend
  refine ⟨s,Run.of_foldlM hs (by simp),hon,hoff,?_⟩
  intro hsafe
  exact hsafe (some 5) ⟨"approvals","Approvals",.project,30,["tasks"],[]⟩ (by simp [builtin])
    "tasks" (by simp) hon hoff

end Kitp.AreaSwitches
