import Kitp.AdminBootstrap

/-! The bootstrap makes one account admin at most, and none once a sign-in has committed. -/
namespace Kitp.AdminBootstrap

open Kitp.Runs Kitp.Store Kitp.Accounts Kitp.SignIn Kitp.IdpRoles Kitp.Versions

variable {ι : Type} [DecidableEq ι] {cfg : Config} {roles : List Role} {s t : State ι} {i j : ι}

/-- No account but the system's holds admin, anywhere. -/
def NoAdmin (roles : List Role) (f : Key → Option Row) : Prop :=
  ∀ k, f k≠none → adminRole roles k.2.1=true → k.1=1

/-- An admin role that the transaction took away is remembered. -/
def Remembers (roles : List Role) (s : State ι) (i : ι) (gone : Bool) : Prop :=
  ∀ k, s.grants.own i k=some none → adminRole roles k.2.1=true → gone=true

def TaskOk (roles : List Role) (s : State ι) (i : ι) : Task → Prop
  | .mapping _ _ _ _ | .granting _ _ _ _ _ | .reconcile _ _ | .first _ | .giving _ _ =>
    Remembers roles s i false
  | .deleting _ _ gone => Remembers roles s i gone
  | .booting _ revokedAdmin => Remembers roles s i revokedAdmin
  | .recording _ claim before => claim=true → NoAdmin roles before
  | .making _ | .signedIn => s.bootstrap.view i ()≠none
  | _ => True

/-- The row of `admin_bootstrap` is written once, and a claim writes it. -/
structure Sound (roles : List Role) (s : State ι) : Prop where
  apart : ∀ i j, s.bootstrap.own i ()≠none → s.bootstrap.own j ()≠none → i=j
  first : ∀ i, s.bootstrap.own i ()≠none →
    s.bootstrap.row ()=none∧s.bootstrap.view i ()≠none
  claimed : ∀ i m, s.claimed i=some m → s.bootstrap.own i ()≠none∧NoAdmin roles m.before
  unmade : s.bootstrap.row ()=none → s.made=[]∧s.passed=false
  once : s.made.length≤1
  made : ∀ m∈s.made, NoAdmin roles m.before
  tasks : ∀ i, TaskOk roles s i (s.task i)

theorem TaskOk.congr {task : Task} (h : TaskOk roles s i task)
    (hown : ∀ k, t.grants.own i k=s.grants.own i k)
    (hview : s.bootstrap.view i ()≠none → t.bootstrap.view i ()≠none) : TaskOk roles t i task := by
  cases task with
  | making user => exact hview h
  | signedIn => exact hview h
  | mapping user claims todo desired => simpa only [TaskOk,Remembers,hown] using h
  | granting user claims role todo desired => simpa only [TaskOk,Remembers,hown] using h
  | reconcile user desired => simpa only [TaskOk,Remembers,hown] using h
  | first user => simpa only [TaskOk,Remembers,hown] using h
  | giving user role => simpa only [TaskOk,Remembers,hown] using h
  | deleting user todo gone => simpa only [TaskOk,Remembers,hown] using h
  | booting user revokedAdmin => simpa only [TaskOk,Remembers,hown] using h
  | _ => exact h

/-- A statement that leaves the row of `admin_bootstrap` alone. -/
theorem Sound.moved {task : Task} (h : Sound roles s) (hboot : t.bootstrap=s.bootstrap)
    (hclaimed : t.claimed=s.claimed) (hmade : t.made=s.made) (hpassed : t.passed=s.passed)
    (htask : t.task=Function.update s.task i task)
    (hown : ∀ j, j≠i → ∀ k, t.grants.own j k=s.grants.own j k) (hok : TaskOk roles t i task) :
    Sound roles t := by
  refine ⟨?_,?_,?_,?_,?_,?_,?_⟩
  · rw [hboot]
    exact h.apart
  · rw [hboot]
    exact h.first
  · rw [hboot,hclaimed]
    exact h.claimed
  · rw [hboot,hmade,hpassed]
    exact h.unmade
  · rw [hmade]
    exact h.once
  · rw [hmade]
    exact h.made
  · intro j
    rw [htask]
    by_cases hji : j=i
    · rw [hji,Function.update_self]
      exact hok
    · rw [Function.update_of_ne hji]
      exact (h.tasks j).congr (hown j hji) (hboot ▸ id)

theorem own_add {k l : Key} (via : Via) :
    (s.add i k via).grants.own j l=s.grants.own j l∨
      j=i∧∃ row, (s.add i k via).grants.own j l=some (some row) := by
  unfold State.add
  split
  · exact Or.inl rfl
  · simp only [own_put]
    by_cases hl : j=i∧l=k
    · exact Or.inr ⟨hl.1,_,if_pos hl⟩
    · exact Or.inl (if_neg hl)

theorem own_delete {k l : Key} :
    (s.delete i k).grants.own j l=if j=i∧l=k then some none else s.grants.own j l := own_put none

theorem Remembers.add {gone : Bool} {k : Key} {via : Via} (h : Remembers roles s i gone) :
    Remembers roles (s.add i k via) i gone := by
  intro l hl hadmin
  cases own_add (s := s) (i := i) (j := i) (k := k) (l := l) via with
  | inl hsame => exact h l (hsame ▸ hl) hadmin
  | inr hnew =>
    obtain ⟨-,row,hrow⟩ := hnew
    rw [hl] at hrow
    cases hrow

theorem Remembers.delete {gone : Bool} {k : Key} (h : Remembers roles s i gone) :
    Remembers roles (s.delete i k) i (gone||adminRole roles k.2.1) := by
  intro l hl hadmin
  rw [own_delete] at hl
  by_cases hlk : l=k
  · rw [← hlk,hadmin,Bool.or_true]
  · rw [if_neg fun hx => hlk hx.2] at hl
    rw [h l hl hadmin,Bool.true_or]

/-- Nobody but the system's account holds admin where the statement sees none and none was
taken away. -/
theorem noAdmin_of_hasAdmin {revokedAdmin : Bool} (h : Remembers roles s i revokedAdmin)
    (hclaim : (!hasAdmin roles s i&&!revokedAdmin)=true) : NoAdmin roles s.grants.row := by
  simp only [Bool.and_eq_true,Bool.not_eq_true'] at hclaim
  obtain ⟨hnone,hkept⟩ := hclaim
  intro k hk hadmin
  by_contra hsystem
  have hview : s.grants.view i k≠none := by
    cases hown : s.grants.own i k with
    | none =>
      rw [Table.view,hown,Option.getD_none]
      exact hk
    | some o =>
      cases o with
      | none =>
        have hgone := h k hown hadmin
        rw [hkept] at hgone
        cases hgone
      | some row =>
        rw [Table.view,hown,Option.getD_some]
        exact Option.some_ne_none row
  obtain ⟨row,hrow⟩ := Option.ne_none_iff_exists'.mp hview
  have hseen : hasAdmin roles s i=true := by
    rw [hasAdmin,List.any_eq_true]
    exact ⟨(k,row),mem_scan.mpr hrow,by simp [hadmin,hsystem]⟩
  rw [hnone] at hseen
  cases hseen

theorem add_frame {k : Key} (via : Via) : (s.add i k via).bootstrap=s.bootstrap∧
    (s.add i k via).claimed=s.claimed∧(s.add i k via).made=s.made∧
    (s.add i k via).passed=s.passed∧(s.add i k via).task=s.task := by
  unfold State.add
  split
  · exact ⟨rfl,rfl,rfl,rfl,rfl⟩
  · exact ⟨rfl,rfl,rfl,rfl,rfl⟩

/-- A row is added and the transaction goes on. -/
theorem Sound.add {k : Key} {via : Via} {task : Task} (h : Sound roles s)
    (hok : TaskOk roles (s.add i k via) i task) : Sound roles ((s.add i k via).goTo i task) := by
  obtain ⟨hboot,hclaimed,hmade,hpassed,htask⟩ := add_frame (s := s) (i := i) (k := k) via
  refine h.moved hboot hclaimed hmade hpassed (htask ▸ rfl) ?_ hok
  intro j hj l
  cases own_add (s := s) (i := i) (j := j) (k := k) (l := l) via with
  | inl hsame => exact hsame
  | inr hnew => exact absurd hnew.1 hj

theorem Sound.goTo {task : Task} (h : Sound roles s) (hok : TaskOk roles s i task) :
    Sound roles (s.goTo i task) :=
  h.moved rfl rfl rfl rfl rfl (fun _ _ _ => rfl) hok

theorem Sound.answer {a : Except Refusal Answer} (h : Sound roles s) :
    Sound roles (s.answer i a) :=
  h.moved rfl rfl rfl rfl rfl (fun _ _ _ => rfl) trivial

theorem Sound.answered {a : Except Refusal Answer} (h : Sound roles (s.goTo i .idle)) :
    Sound roles (s.answer i a) :=
  ⟨h.apart,h.first,h.claimed,h.unmade,h.once,h.made,
    fun j => (h.tasks j).congr (fun _ => rfl) id⟩

theorem Sound.delete {k : Key} {task : Task} (h : Sound roles s)
    (hok : TaskOk roles (s.delete i k) i task) : Sound roles ((s.delete i k).goTo i task) := by
  refine h.moved rfl rfl rfl rfl rfl ?_ hok
  intro j hj l
  have hown := own_delete (s := s) (i := i) (j := j) (k := k) (l := l)
  rwa [if_neg fun hx => hj hx.1] at hown

/-- The row of `admin_bootstrap` is written where there is none. -/
theorem Sound.write {x : Option Int} (h : Sound roles s) (hnone : s.bootstrap.view i ()=none)
    (hfree : s.bootstrap.free i ()=true) (hboot : t.bootstrap=s.bootstrap.put i () (some x))
    (hgrants : t.grants=s.grants) (hmade : t.made=s.made) (hpassed : t.passed=s.passed)
    (htask : ∀ j, j≠i → t.task j=s.task j) (hok : TaskOk roles t i (t.task i))
    (hclaimed : ∀ j m, t.claimed j=some m → s.claimed j=some m∨j=i∧NoAdmin roles m.before) :
    Sound roles t := by
  have hrow : s.bootstrap.row ()=none := by
    cases hown : s.bootstrap.own i () with
    | none => rwa [Table.view,hown,Option.getD_none] at hnone
    | some o => exact (h.first i (hown ▸ Option.some_ne_none o)).1
  have hothers := free_iff.mp hfree
  have hown : ∀ j, t.bootstrap.own j ()=if j=i then some (some x) else s.bootstrap.own j () := by
    intro j
    rw [hboot,own_put]
    by_cases hji : j=i <;> simp [hji]
  have hview : ∀ j, t.bootstrap.view j ()=if j=i then some x else s.bootstrap.view j () := by
    intro j
    rw [hboot,view_put]
    by_cases hji : j=i <;> simp [hji]
  have hsame : t.bootstrap.row ()=s.bootstrap.row () := by rw [hboot]; rfl
  have alone : ∀ j, t.bootstrap.own j ()≠none → j=i := by
    intro j hj
    by_contra hji
    rw [hown,if_neg hji] at hj
    exact hj (hothers j hji)
  refine ⟨?_,?_,?_,?_,?_,?_,?_⟩
  · intro a b ha hb
    exact (alone a ha).trans (alone b hb).symm
  · intro j hj
    refine ⟨hsame.trans hrow,?_⟩
    rw [hview,if_pos (alone j hj)]
    exact Option.some_ne_none x
  · intro j m hm
    cases hclaimed j m hm with
    | inl hold =>
      obtain ⟨hwrites,hbefore⟩ := h.claimed j m hold
      refine ⟨?_,hbefore⟩
      rw [hown]
      by_cases hji : j=i
      · simp [hji]
      · rwa [if_neg hji]
    | inr hnew =>
      refine ⟨?_,hnew.2⟩
      rw [hown,if_pos hnew.1]
      exact Option.some_ne_none _
  · rw [hsame,hmade,hpassed]
    exact h.unmade
  · rw [hmade]
    exact h.once
  · rw [hmade]
    exact h.made
  · intro j
    by_cases hji : j=i
    · rw [hji]
      exact hok
    · rw [htask j hji]
      refine (h.tasks j).congr (fun k => by rw [hgrants]) ?_
      rw [hview,if_neg hji]
      exact id

theorem Sound.record {user : Int} {claim : Bool} {before : Key → Option Row} (h : Sound roles s)
    (hclaim : claim=true → NoAdmin roles before) (hfree : s.bootstrap.free i ()=true) :
    Sound roles (recordRow s i user claim before) := by
  unfold recordRow
  split
  · rename_i o ho
    refine h.goTo ?_
    show s.bootstrap.view i ()≠none
    rw [ho]
    exact Option.some_ne_none o
  · rename_i hnone
    split
    · rename_i hc
      refine h.write hnone hfree rfl rfl rfl rfl (fun j hj => Function.update_of_ne hj _ _) ?_ ?_
      · simp only [State.goTo,Function.update_self]
        show (s.bootstrap.put i () (some (some user))).view i ()≠none
        rw [view_put,if_pos ⟨rfl,rfl⟩]
        exact Option.some_ne_none _
      · intro j m hm
        by_cases hji : j=i
        · rw [hji] at hm
          simp only [Function.update_self,Option.some.injEq] at hm
          exact Or.inr ⟨hji,hm ▸ hclaim hc⟩
        · simp only [Function.update_of_ne hji] at hm
          exact Or.inl hm
    · refine h.write hnone hfree rfl rfl rfl rfl (fun j hj => Function.update_of_ne hj _ _) ?_
        (fun _ _ hm => Or.inl hm)
      simp only [State.goTo,Function.update_self]
      show (s.bootstrap.put i () (some none)).view i ()≠none
      rw [view_put,if_pos ⟨rfl,rfl⟩]
      exact Option.some_ne_none _

theorem mapped_ok {user : Int} {claims : Claims} {desired : List Int}
    (h : Remembers roles s i false) : TaskOk roles s i (mapped cfg roles user claims desired) := by
  have hafter : TaskOk roles s i (if claimPresent claims cfg.roleClaim then
      .reconcile user desired else .booting user false) := by
    split
    · exact h
    · exact h
  unfold mapped
  dsimp only
  split
  · cases named roles cfg.defaultRole with
    | none => exact hafter
    | some r => exact h
  · exact hafter

theorem firstRole_ok {user : Int} (h : Remembers roles s i false) :
    TaskOk roles s i (firstRole cfg roles s i user) := by
  unfold firstRole
  split
  · exact h
  · cases named roles cfg.defaultRole with
    | none => exact h
    | some r => exact h

theorem setRow_sound {k : Key} (h : Sound roles s) : Sound roles (setRow s i k) := by
  unfold setRow
  split
  · rename_i row hrow
    refine h.moved rfl rfl rfl rfl rfl ?_ trivial
    intro j hj l
    have hown := own_put (t := s.grants) (i := i) (j := j) (k := k) (l := l) (some row)
    rwa [if_neg fun hx => hj hx.1] at hown
  · have hadd : Sound roles ((s.add i k .manual).goTo i .idle) := h.add trivial
    exact hadd.answered

theorem next_sound {env : Env} (h : Sound roles s)
    (hn : next cfg roles s i env (s.task i)=some t) : Sound roles t := by
  have hi := h.tasks i
  cases htask : s.task i with
  | idle => rw [htask] at hn; cases hn
  | signedIn => rw [htask] at hn; cases hn
  | mapping user claims todo desired =>
    rw [htask] at hn hi
    cases todo with
    | nil =>
      cases hn
      exact h.goTo (mapped_ok hi)
    | cons v todo =>
      simp only [next,Option.some.injEq] at hn
      rw [← hn]
      refine h.goTo ?_
      cases env.mappings.lookup v with
      | none => exact hi
      | some r => exact hi
  | granting user claims role todo desired =>
    rw [htask] at hn hi
    simp only [next,Option.ite_none_right_eq_some,Option.some.injEq] at hn
    rw [← hn.2]
    exact h.add (Remembers.add hi)
  | reconcile user desired =>
    rw [htask] at hn hi
    cases hn
    exact h.goTo hi
  | deleting user todo gone =>
    rw [htask] at hn hi
    cases todo with
    | nil =>
      cases hn
      exact h.goTo hi
    | cons p todo =>
      obtain ⟨k,id⟩ := p
      simp only [next,Option.ite_none_right_eq_some,Option.some.injEq] at hn
      rw [← hn.2]
      split
      · exact h.delete (Remembers.delete hi)
      · exact h.goTo hi
  | first user =>
    rw [htask] at hn hi
    cases hn
    exact h.goTo (firstRole_ok hi)
  | giving user role =>
    rw [htask] at hn hi
    simp only [next,Option.ite_none_right_eq_some,Option.some.injEq] at hn
    rw [← hn.2]
    exact h.add (Remembers.add hi)
  | booting user revokedAdmin =>
    rw [htask] at hn hi
    cases hn
    exact h.goTo (noAdmin_of_hasAdmin hi)
  | recording user claim before =>
    rw [htask] at hn hi
    simp only [next,Option.ite_none_right_eq_some,Option.some.injEq] at hn
    rw [← hn.2]
    exact h.record hi hn.1
  | making user =>
    rw [htask] at hn hi
    simp only [next] at hn
    split at hn
    · cases hn
      exact h.goTo hi
    · simp only [Option.ite_none_right_eq_some,Option.some.injEq] at hn
      rw [← hn.2]
      refine h.add ?_
      show (s.add i _ .manual).bootstrap.view i ()≠none
      rw [(add_frame _).1]
      exact hi
  | setting k =>
    rw [htask] at hn
    simp only [next,Option.ite_none_right_eq_some,Option.some.injEq] at hn
    rw [← hn.2]
    exact setRow_sound h
  | removing k id =>
    rw [htask] at hn
    simp only [next,Option.ite_none_right_eq_some,Option.some.injEq] at hn
    rw [← hn.2]
    split
    · have hdelete : Sound roles ((s.delete i k).goTo i .idle) := h.delete trivial
      exact hdelete.answered
    · exact h.answer

theorem own_commit : (s.bootstrap.commit i).own j ()=if j=i then none else s.bootstrap.own j () :=
  own_close _

/-- A row that is there stays where others see it. -/
theorem Sound.view_commit (h : Sound roles s) (hj : j≠i) (hrow : s.bootstrap.view j ()≠none) :
    (s.bootstrap.commit i).view j ()≠none := by
  rw [Versions.view_commit,if_neg hj]
  cases hown : s.bootstrap.own j () with
  | some o => rwa [Table.view,hown] at hrow
  | none =>
    rw [Table.view,hown,Option.getD_none] at hrow
    rw [Option.getD_none]
    by_cases hi : s.bootstrap.own i ()=none
    · rwa [Table.view,hi,Option.getD_none]
    · exact (h.first i hi).2

/-- What a commit does to the row of `admin_bootstrap` and to the claims. -/
theorem commit_sound (h : Sound roles s) (htask : s.task i=.idle∨s.task i=.signedIn) :
    Sound roles (commit s i) := by
  have hrow : (s.bootstrap.commit i).row ()=s.bootstrap.view i () := row_commit
  have hclaims : ∀ j m, (commit s i).claimed j=some m → j≠i∧s.claimed j=some m := by
    intro j m hm
    by_cases hji : j=i
    · rw [hji] at hm
      simp only [commit,State.close,Function.update_self] at hm
      cases hm
    · simp only [commit,State.close,Function.update_of_ne hji] at hm
      exact ⟨hji,hm⟩
  have hothers : ∀ j, (commit s i).bootstrap.own j ()≠none → j≠i∧s.bootstrap.own j ()≠none := by
    intro j hj
    have hown : (commit s i).bootstrap.own j ()=if j=i then none else s.bootstrap.own j () :=
      own_commit
    rw [hown] at hj
    by_cases hji : j=i
    · exact absurd (if_pos hji) hj
    · rw [if_neg hji] at hj
      exact ⟨hji,hj⟩
  have hmade : (commit s i).made=s.made++(s.claimed i).toList := rfl
  refine ⟨?_,?_,?_,?_,?_,?_,?_⟩
  · intro a b ha hb
    exact h.apart a b (hothers a ha).2 (hothers b hb).2
  · intro j hj
    obtain ⟨hji,hown⟩ := hothers j hj
    obtain ⟨hnone,hview⟩ := h.first j hown
    refine ⟨?_,h.view_commit hji hview⟩
    -- the row is one transaction's to write
    have hi : s.bootstrap.own i ()=none := by
      by_contra hi
      exact hji (h.apart j i hown hi)
    show (s.bootstrap.commit i).row ()=none
    rw [hrow,Table.view,hi,Option.getD_none]
    exact hnone
  · intro j m hm
    obtain ⟨hji,hold⟩ := hclaims j m hm
    obtain ⟨hown,hbefore⟩ := h.claimed j m hold
    refine ⟨?_,hbefore⟩
    show (s.bootstrap.commit i).own j ()≠none
    rw [own_commit,if_neg hji]
    exact hown
  · intro hnone
    have hview : s.bootstrap.view i ()=none := hrow.symm.trans hnone
    have hi : s.bootstrap.own i ()=none := by
      by_contra hi
      exact (h.first i hi).2 hview
    have hold : s.bootstrap.row ()=none := by
      rwa [Table.view,hi,Option.getD_none] at hview
    have hclaim : s.claimed i=none := by
      cases hc : s.claimed i with
      | none => rfl
      | some m => exact absurd hi (h.claimed i m hc).1
    obtain ⟨hnil,hpassed⟩ := h.unmade hold
    refine ⟨?_,?_⟩
    · rw [hmade,hnil,hclaim]
      rfl
    · cases htask with
      | inl hidle => simp [commit,State.close,hidle,hpassed]
      | inr hsigned =>
        have hi := h.tasks i
        rw [hsigned] at hi
        exact absurd hview hi
  · rw [hmade]
    cases hc : s.claimed i with
    | none => simpa using h.once
    | some m =>
      have hold := (h.first i (h.claimed i m hc).1).1
      rw [(h.unmade hold).1]
      rfl
  · intro m hm
    rw [hmade] at hm
    cases List.mem_append.mp hm with
    | inl hold => exact h.made m hold
    | inr hnew => exact (h.claimed i m (by simpa using hnew)).2
  · intro j
    by_cases hji : j=i
    · rw [hji]
      simp only [commit,State.close,Function.update_self]
      trivial
    · have hsame : (commit s i).task j=s.task j := Function.update_of_ne hji _ _
      rw [hsame]
      refine (h.tasks j).congr ?_ (h.view_commit hji)
      intro k
      show (s.grants.commit i).own j k=s.grants.own j k
      rw [Table.commit,own_close,if_neg hji]

theorem abort_sound (h : Sound roles s) :
    Sound roles (s.close i (s.grants.abort i) (s.bootstrap.abort i)) := by
  have hown : ∀ j, (s.bootstrap.abort i).own j ()=if j=i then none else s.bootstrap.own j () :=
    fun j => own_close _
  have hothers : ∀ j, (s.bootstrap.abort i).own j ()≠none → j≠i∧s.bootstrap.own j ()≠none := by
    intro j hj
    rw [hown] at hj
    by_cases hji : j=i
    · exact absurd (if_pos hji) hj
    · rw [if_neg hji] at hj
      exact ⟨hji,hj⟩
  have hview : ∀ j, j≠i → (s.bootstrap.abort i).view j ()=s.bootstrap.view j () := by
    intro j hji
    rw [view_abort,if_neg hji]
  refine ⟨?_,?_,?_,h.unmade,h.once,h.made,?_⟩
  · intro a b ha hb
    exact h.apart a b (hothers a ha).2 (hothers b hb).2
  · intro j hj
    obtain ⟨hji,hj⟩ := hothers j hj
    obtain ⟨hnone,hseen⟩ := h.first j hj
    exact ⟨hnone,(hview j hji).symm ▸ hseen⟩
  · intro j m hm
    by_cases hji : j=i
    · rw [hji] at hm
      simp only [State.close,Function.update_self] at hm
      cases hm
    · simp only [State.close,Function.update_of_ne hji] at hm
      obtain ⟨hwrites,hbefore⟩ := h.claimed j m hm
      refine ⟨?_,hbefore⟩
      show (s.bootstrap.abort i).own j ()≠none
      rw [hown,if_neg hji]
      exact hwrites
  · intro j
    by_cases hji : j=i
    · rw [hji]
      simp only [State.close,Function.update_self]
      trivial
    · have hsame : (s.close i (s.grants.abort i) (s.bootstrap.abort i)).task j=s.task j :=
        Function.update_of_ne hji _ _
      rw [hsame]
      refine (h.tasks j).congr ?_ ?_
      · intro k
        show (s.grants.abort i).own j k=s.grants.own j k
        rw [Table.abort,own_close,if_neg hji]
      · intro hseen
        show (s.bootstrap.abort i).view j ()≠none
        rw [hview j hji]
        exact hseen

theorem set_sound {env : Env} {input : Input} (h : Sound roles s) :
    Sound roles (set roles s i env input) := by
  unfold set
  split
  · exact h.answer
  · exact h.goTo trivial

theorem revoke_sound {env : Env} {input : Input} (h : Sound roles s) :
    Sound roles (revoke roles s i env input) := by
  unfold revoke
  split
  · exact h.answer
  · split
    · exact h.answer
    · exact h.goTo trivial

theorem signIn_sound {user : Int} {claims : Claims} {firstSignIn : Bool} (h : Sound roles s)
    (hclean : s.grants.writes.all (·.tx≠i)=true) :
    Sound roles (signIn cfg s i user claims firstSignIn) := by
  have hown : ∀ k, s.grants.own i k=none := by
    intro k
    simp only [List.all_eq_true,decide_eq_true_eq] at hclean
    simp only [Table.own,Option.map_eq_none_iff,List.find?_eq_none,decide_eq_true_eq,not_and]
    intro w hw htx
    exact absurd htx (hclean w hw)
  have hkept : Remembers roles s i false := by
    intro k hk
    rw [hown k] at hk
    cases hk
  refine h.goTo ?_
  split
  · split
    · exact hkept
    · exact hkept
  · exact hkept

theorem step_sound {e : Event ι} (h : Sound roles s) (hst : step cfg roles s e=some t) :
    Sound roles t := by
  cases e with
  | signIn i user claims firstSignIn =>
    simp only [step] at hst
    split at hst
    · split at hst
      · rename_i hclean
        cases hst
        exact signIn_sound h hclean
      · cases hst
    · cases hst
  | set i env input =>
    simp only [step] at hst
    split at hst
    · cases hst
      exact set_sound h
    · cases hst
  | revoke i env input =>
    simp only [step] at hst
    split at hst
    · cases hst
      exact revoke_sound h
    · cases hst
  | next i env => exact next_sound h hst
  | commit i =>
    simp only [step] at hst
    split at hst
    · rename_i htask
      cases hst
      exact commit_sound h (Or.inl htask)
    · rename_i htask
      cases hst
      exact commit_sound h (Or.inr htask)
    · cases hst
  | abort i =>
    cases hst
    exact abort_sound h

theorem start_sound {grants : List (Key×Row)} {bootstrap : List (Unit×Option Int)} :
    Sound roles (start grants bootstrap : State ι) :=
  ⟨fun _ _ h => absurd rfl h,fun _ h => absurd rfl h,fun _ _ h => (nomatch h),fun _ => ⟨rfl,rfl⟩,
    Nat.zero_le 1,fun _ h => (nomatch h),fun _ => trivial⟩

end Kitp.AdminBootstrap
