import Kitp.Store
import Kitp.Lib.Runs
import Mathlib.Data.List.Range
import Mathlib.Logic.Function.Basic

/-! The calls on an import job, `project.import.set_mapping`, `.preview` and `.commit`, of any
number of transactions statement by statement: a statement reads what is committed when it
runs, with the transaction's own writes laid over it, and a row written by one transaction
waits for it. -/
namespace Kitp.ImportJobs
open Kitp.Store Kitp.Runs Function

inductive Status where
  | pending
  | uploaded
  | mapped
  | previewed
  | running
  | completed
  | failed
  deriving DecidableEq

/-- A row of `import_job`. -/
structure Job where
  status : Status
  mapping : Option Json
  resolution : Option Json

/-- The rows the calls of a job are about: its id and how many rows its file has. -/
structure Upload where
  jobId : Int
  rows : Nat

/-- The `UPDATE` of `project_import_set_mapping_batch`. -/
def Job.setMapping (job : Job) (mapping : Json) : Job :=
  { job with
    mapping := some mapping
    status := if job.status∈[.previewed,.running,.completed,.failed] then job.status else .mapped }

/-- The `UPDATE` of `project_import_preview_batch`. -/
def Job.preview (job : Job) (resolution : Json) : Job :=
  { job with resolution := some resolution, status := .previewed }

/-- The `UPDATE` of `project_import_commit_batch`. -/
def Job.complete (job : Job) : Job := { job with status := .completed }

def Job.unmapped (job : Job) : Bool := job.mapping.all (·=.null)

/-- What a commit asks of the job before it plans the rows. -/
def commitCheck (up : Upload) (job : Job) : Except Refusal Unit :=
  if job.status=.completed then
    .error ⟨"already_committed",
      s!"import_job {up.jobId} is already completed; re-upload to re-run"⟩
  else if job.status=.running then
    .error ⟨"already_committed",s!"import_job {up.jobId} is already running (replay via Idempotency-Key if you intended a retry)"⟩
  else if job.unmapped then
    .error ⟨"no_mapping","project.import.commit: job has no mapping; call set_mapping first"⟩
  else .ok ()

def previewCheck (job : Job) : Except Refusal Unit :=
  if job.unmapped then
    .error ⟨"no_mapping","project.import.preview: job has no mapping; call set_mapping first"⟩
  else .ok ()

/-- A call that walks the job's rows. -/
inductive Call where
  | preview (resolution : Json)
  | commit

def Call.check (up : Upload) : Call → Job → Except Refusal Unit
  | .preview _ => previewCheck
  | .commit => commitCheck up

/-- Where a transaction stands: between calls, in one, or at its end. -/
inductive Phase where
  | idle
  /-- The call's `PreRun` has stored the file's rows. -/
  | stored (call : Call)
  | checked (call : Call)
  /-- A commit has inserted its tasks. -/
  | inserted
  | over

/-- A transaction: its own writes of the job, and of the tasks, by the row of the file they are
from. `commits` counts its commit calls that succeeded. -/
structure Tx where
  phase : Phase
  job : Option Job
  tasks : List Nat
  commits : Nat

structure State (ι : Type*) where
  job : Job
  tasks : List Nat
  commits : Nat
  tx : ι → Tx
  /-- Who has written rows of `import_job_row`. -/
  keys : Option ι
  /-- Who has written the row of `import_job`. -/
  writer : Option ι

variable {ι : Type*} [DecidableEq ι]

def start (ι : Type*) (job : Job) : State ι :=
  ⟨job,[],0,fun _ => ⟨.idle,none,[],0⟩,none,none⟩

variable (up : Upload) (s : State ι)

/-- The job as a statement of the transaction reads it. -/
def State.view (i : ι) : Job := (s.tx i).job.getD s.job

def State.put (i : ι) (t : Tx) : State ι := { s with tx := update s.tx i t }

/-- A row is written once whoever wrote it last is done. -/
def free (holder : Option ι) (i : ι) : Bool := holder.all (·=i)

/-- Its locks are let go. -/
def State.close (i : ι) (job : Job) (tasks : List Nat) (commits : Nat) : State ι :=
  ⟨job,tasks,commits,update s.tx i ⟨.over,none,[],0⟩,s.keys.filter (·≠i),s.writer.filter (·≠i)⟩

def State.rollback (i : ι) : State ι := s.close i s.job s.tasks s.commits

def State.commit (i : ι) : State ι :=
  s.close i (s.view i) (s.tasks++(s.tx i).tasks) (s.commits+(s.tx i).commits)

/-- The transaction writes the job. -/
def State.write (i : ι) (job : Job) (commits : Nat) : State ι :=
  { s.put i ⟨.idle,some job,(s.tx i).tasks,commits⟩ with writer := some i }

inductive Event (ι : Type*) where
  | setMapping (i : ι) (mapping : Json)
  /-- The `PreRun` of a call. -/
  | store (i : ι) (call : Call)
  /-- The call reads the job. -/
  | check (i : ι)
  /-- A commit inserts the rows it keeps as tasks. -/
  | insert (i : ι) (keep : Nat → Bool)
  /-- The call's last statement. -/
  | finish (i : ι)
  | commit (i : ι)
  /-- A refusal or a failure anywhere undoes the transaction. -/
  | rollback (i : ι)

def State.setMapping (i : ι) (mapping : Json) : Option (State ι) :=
  match (s.tx i).phase with
  | .idle =>
    if free s.writer i then
      some (s.write i ((s.view i).setMapping mapping) (s.tx i).commits)
    else none
  | _ => none

def State.store (i : ι) (call : Call) : Option (State ι) :=
  match (s.tx i).phase with
  | .idle =>
    let t := { s.tx i with phase := .stored call }
    if up.rows=0 then some (s.put i t)
    else if free s.keys i then some { s.put i t with keys := some i }
    else none
  | _ => none

def State.check (i : ι) : Option (State ι) :=
  match (s.tx i).phase with
  | .stored call =>
    match call.check up (s.view i) with
    | .error _ => some (s.rollback i)
    | .ok () => some (s.put i { s.tx i with phase := .checked call })
  | _ => none

def State.insert (i : ι) (keep : Nat → Bool) : Option (State ι) :=
  match (s.tx i).phase with
  | .checked .commit =>
    let tasks := (s.tx i).tasks++(List.range up.rows).filter keep
    some (s.put i { s.tx i with phase := .inserted, tasks })
  | _ => none

def State.finish (i : ι) : Option (State ι) :=
  if free s.writer i then
    match (s.tx i).phase with
    | .checked (.preview resolution) =>
      some (s.write i ((s.view i).preview resolution) (s.tx i).commits)
    | .inserted => some (s.write i (s.view i).complete ((s.tx i).commits+1))
    | _ => none
  else none

def step (s : State ι) : Event ι → Option (State ι)
  | .setMapping i mapping => s.setMapping i mapping
  | .store i call => s.store up i call
  | .check i => s.check up i
  | .insert i keep => s.insert up i keep
  | .finish i => s.finish i
  | .commit i => match (s.tx i).phase with
    | .idle => some (s.commit i)
    | _ => none
  | .rollback i => match (s.tx i).phase with
    | .over => none
    | _ => some (s.rollback i)

/-- A transaction in a commit that has found the job open, or past one. -/
def Tx.passed (t : Tx) : Prop :=
  0<t.commits∨match t.phase with
    | .checked .commit => True
    | .inserted => True
    | _ => False

/-- A preview finds the job not completed; and where the file has no rows, no other commit has
found the job open. -/
def Tame (s : State ι) : Event ι → Prop
  | .finish i => ∀ r, (s.tx i).phase=.checked (.preview r) → (s.view i).status≠.completed
  | .check i => up.rows=0 → (s.tx i).phase=.stored .commit → ∀ j, j≠i → ¬(s.tx j).passed
  | _ => True

variable {up} {s} {i j : ι} {t : Tx}

/-- What a transaction's own part keeps to. -/
structure Tx.Ok (t : Tx) : Prop where
  few : t.commits ≤ 1
  wrote : 0<t.commits → t.job≠none
  counted : t.phase=.checked .commit∨t.phase=.inserted → t.commits=0
  empty : t.phase=.checked .commit → t.tasks=[]
  once : t.tasks.Nodup
  used : t.tasks≠[] → t.passed

/-- The file's rows are tasks at most once: a commit that has found the job open has it to
itself, and the job knows of one that is over. -/
structure Inv (up : Upload) (s : State ι) : Prop where
  ok : ∀ i, (s.tx i).Ok
  writer : ∀ i, (s.tx i).job≠none → s.writer=some i
  stored : 0<up.rows → ∀ i call, (s.tx i).phase=.stored call → s.keys=some i
  held : 0<up.rows → ∀ i, (s.tx i).passed → s.keys=some i
  alone : ∀ i j, (s.tx i).passed → (s.tx j).passed → i=j
  fresh : ∀ i, (s.tx i).passed → s.job.status≠.completed
  own : ∀ i job, (s.tx i).job=some job →
    (job.status=.completed↔s.job.status=.completed∨0<(s.tx i).commits)
  done : s.job.status≠.completed∧s.commits=0∧s.tasks=[]∨
    s.job.status=.completed∧s.commits=1∧s.tasks.Nodup

omit [DecidableEq ι] in
theorem Inv.view (h : Inv up s) (i : ι) :
    (s.view i).status=.completed↔s.job.status=.completed∨0<(s.tx i).commits := by
  unfold State.view
  cases hjob : (s.tx i).job with
  | some job => exact h.own i job hjob
  | none =>
    have hnone : ¬0<(s.tx i).commits := fun hpos => (h.ok i).wrote hpos hjob
    simp [hnone]

/-- What one transaction may do to itself and to the locks. -/
structure Turn (up : Upload) (s : State ι) (i : ι) (t : Tx) (k w : Option ι) : Prop where
  ok : t.Ok
  writer : t.job≠none → w=some i
  writers : ∀ j, j≠i → s.writer=some j → w=some j
  keys : ∀ j, j≠i → s.keys=some j → k=some j
  stored : 0<up.rows → ∀ call, t.phase=.stored call → k=some i
  held : 0<up.rows → t.passed → k=some i
  alone : t.passed → ∀ j, j≠i → ¬(s.tx j).passed
  fresh : t.passed → s.job.status≠.completed
  own : ∀ job, t.job=some job → (job.status=.completed↔s.job.status=.completed∨0<t.commits)

theorem Inv.turn {k w : Option ι} (h : Inv up s) (ht : Turn up s i t k w) :
    Inv up ⟨s.job,s.tasks,s.commits,update s.tx i t,k,w⟩ := by
  have hself : update s.tx i t i=t := update_self ..
  have hother {j : ι} (hj : j≠i) : update s.tx i t j=s.tx j := update_of_ne hj ..
  refine ⟨fun j => ?_,fun j hjob => ?_,fun hrows j call hphase => ?_,fun hrows j hpass => ?_,
    fun j k hjp hkp => ?_,fun j hpass => ?_,fun j job hjob => ?_,h.done⟩ <;> dsimp only at *
  · by_cases hj : j=i
    · rw [hj,hself]
      exact ht.ok
    · rw [hother hj]
      exact h.ok j
  · by_cases hj : j=i
    · rw [hj,hself] at hjob
      rw [hj,ht.writer hjob]
    · rw [hother hj] at hjob
      exact ht.writers j hj (h.writer j hjob)
  · by_cases hj : j=i
    · rw [hj,hself] at hphase
      rw [hj,ht.stored hrows call hphase]
    · rw [hother hj] at hphase
      exact ht.keys j hj (h.stored hrows j call hphase)
  · by_cases hj : j=i
    · rw [hj,hself] at hpass
      rw [hj,ht.held hrows hpass]
    · rw [hother hj] at hpass
      exact ht.keys j hj (h.held hrows j hpass)
  · by_cases hj : j=i <;> by_cases hk : k=i
    · rw [hj,hk]
    · rw [hj,hself] at hjp
      rw [hother hk] at hkp
      exact absurd hkp (ht.alone hjp k hk)
    · rw [hother hj] at hjp
      rw [hk,hself] at hkp
      exact absurd hjp (ht.alone hkp j hj)
    · rw [hother hj] at hjp
      rw [hother hk] at hkp
      exact h.alone j k hjp hkp
  · by_cases hj : j=i
    · rw [hj,hself] at hpass
      exact ht.fresh hpass
    · rw [hother hj] at hpass
      exact h.fresh j hpass
  · by_cases hj : j=i
    · rw [hj,hself] at hjob ⊢
      exact ht.own job hjob
    · rw [hother hj] at hjob ⊢
      exact h.own j job hjob

theorem free_iff {holder : Option ι} : free holder i=true↔holder=none∨holder=some i := by
  cases holder <;> simp [free]

/-- Nobody else holds what is free. -/
theorem not_free {holder : Option ι} (hfree : free holder i=true) (hj : j≠i) : holder≠some j := by
  rcases free_iff.mp hfree with hnone | hmine
  · simp [hnone]
  · rw [hmine]
    exact fun h => hj (Option.some.inj h).symm

/-- A call's last statement, and `set_mapping`'s: the job is written. -/
theorem Inv.write {job : Job} {commits : Nat} (h : Inv up s) (hfree : free s.writer i=true)
    (hok : (⟨.idle,some job,(s.tx i).tasks,commits⟩ : Tx).Ok)
    (hpass : 0<commits → (s.tx i).passed)
    (hjob : job.status=.completed↔s.job.status=.completed∨0<commits) :
    Inv up (s.write i job commits) := by
  have hpassed (hp : (⟨.idle,some job,(s.tx i).tasks,commits⟩ : Tx).passed) : (s.tx i).passed :=
    hpass (by simpa [Tx.passed] using hp)
  refine h.turn ⟨hok,fun _ => rfl,fun j hj hw => absurd hw (not_free hfree hj),fun _ _ hk => hk,
    fun _ _ hphase => (by cases hphase),fun hrows hp => h.held hrows i (hpassed hp),
    fun hp j hj hpj => hj (h.alone j i hpj (hpassed hp)),fun hp => h.fresh i (hpassed hp),
    fun _ hsome => ?_⟩
  cases hsome
  exact hjob

/-- A transaction ends, and what it leaves is committed. -/
theorem Inv.close {job : Job} {tasks : List Nat} {commits : Nat} (h : Inv up s)
    (hfresh : ∀ j, j≠i → (s.tx j).passed → job.status≠.completed)
    (hown : ∀ j, j≠i → ∀ job', (s.tx j).job=some job' →
      (job'.status=.completed↔job.status=.completed∨0<(s.tx j).commits))
    (hdone : job.status≠.completed∧commits=0∧tasks=[]∨
      job.status=.completed∧commits=1∧tasks.Nodup) : Inv up (s.close i job tasks commits) := by
  have hself : update s.tx i ⟨.over,none,[],0⟩ i=⟨.over,none,[],0⟩ := update_self ..
  have hother {j : ι} (hj : j≠i) : update s.tx i ⟨.over,none,[],0⟩ j=s.tx j := update_of_ne hj ..
  have hnot : ¬(⟨.over,none,[],0⟩ : Tx).passed := by simp [Tx.passed]
  have hkept {holder : Option ι} {j : ι} (hj : j≠i) (hh : holder=some j) :
      holder.filter (·≠i)=some j := by
    simp [hh,hj]
  have hne {j : ι} (hp : (update s.tx i ⟨.over,none,[],0⟩ j).passed) : j≠i :=
    fun hj => hnot (by rwa [hj,hself] at hp)
  refine ⟨fun j => ?_,fun j hjob => ?_,fun hrows j call hphase => ?_,fun hrows j hpass => ?_,
    fun j k hjp hkp => ?_,fun j hpass => ?_,fun j job' hjob => ?_,hdone⟩ <;>
    dsimp only [State.close] at *
  · by_cases hj : j=i
    · rw [hj,hself]
      exact ⟨by simp,by simp,by simp,by simp,List.nodup_nil,by simp⟩
    · rw [hother hj]
      exact h.ok j
  · have hj : j≠i := fun hj => by simp [hj] at hjob
    rw [hother hj] at hjob
    exact hkept hj (h.writer j hjob)
  · have hj : j≠i := fun hj => by simp [hj] at hphase
    rw [hother hj] at hphase
    exact hkept hj (h.stored hrows j call hphase)
  · have hj := hne hpass
    rw [hother hj] at hpass
    exact hkept hj (h.held hrows j hpass)
  · have hj := hne hjp
    have hk := hne hkp
    rw [hother hj] at hjp
    rw [hother hk] at hkp
    exact h.alone j k hjp hkp
  · have hj := hne hpass
    rw [hother hj] at hpass
    exact hfresh j hj hpass
  · have hj : j≠i := fun hj => by simp [hj] at hjob
    rw [hother hj] at hjob ⊢
    exact hown j hj job' hjob

theorem Inv.rollback (h : Inv up s) (i : ι) : Inv up (s.rollback i) :=
  h.close (fun j _ => h.fresh j) (fun j _ => h.own j) h.done

theorem Inv.commit (h : Inv up s) (hidle : (s.tx i).phase=.idle) : Inv up (s.commit i) := by
  have hpass : (s.tx i).passed↔0<(s.tx i).commits := by simp [Tx.passed,hidle]
  have hview := h.view i
  have hfew := (h.ok i).few
  refine h.close (fun j hj hpj hdone => ?_) (fun j hj job hjob => ?_) ?_
  · rcases hview.mp hdone with hdone | hpos
    · exact h.fresh j hpj hdone
    · exact hj (h.alone j i hpj (hpass.mpr hpos))
  · have hnone : (s.tx i).job=none := by
      by_contra hsome
      have hwrites := h.writer j (by simp [hjob])
      rw [h.writer i hsome] at hwrites
      exact hj (Option.some.inj hwrites).symm
    rw [State.view,hnone,Option.getD_none]
    exact h.own j job hjob
  · by_cases hpos : 0<(s.tx i).commits
    · have hopen : s.job.status≠.completed := h.fresh i (hpass.mpr hpos)
      obtain ⟨-,hcommits,htasks⟩ := h.done.resolve_right fun hd => hopen hd.1
      refine .inr ⟨hview.mpr (.inr hpos),by omega,?_⟩
      rw [htasks,List.nil_append]
      exact (h.ok i).once
    · have htasks : (s.tx i).tasks=[] := by
        by_contra hne
        exact hpos (hpass.mp ((h.ok i).used hne))
      have hzero : (s.tx i).commits=0 := by omega
      rw [htasks,List.append_nil,hzero,Nat.add_zero]
      have hsame : (s.view i).status=.completed↔s.job.status=.completed := by
        rw [hview,or_iff_left hpos]
      rcases h.done with ⟨hopen,hrest⟩ | ⟨hdone,hrest⟩
      · exact .inl ⟨fun hc => hopen (hsame.mp hc),hrest⟩
      · exact .inr ⟨hsame.mpr hdone,hrest⟩

theorem setMapping_completed (job : Job) (mapping : Json) :
    (job.setMapping mapping).status=.completed↔job.status=.completed := by
  unfold Job.setMapping
  cases hs : job.status <;> simp

theorem commitCheck_open {job : Job} (h : commitCheck up job=.ok ()) : job.status≠.completed := by
  intro hdone
  simp [commitCheck,hdone] at h

theorem check_keeps {s' : State ι} (h : Inv up s) (hok : Tame up s (.check i))
    (hstep : s.check up i=some s') : Inv up s' := by
  unfold State.check at hstep
  split at hstep
  · rename_i call hphase
    split at hstep
    · cases hstep
      exact h.rollback i
    · rename_i hcheck
      cases hstep
      have ht := h.ok i
      have hopen (hc : call=.commit) : s.job.status≠.completed∧(s.tx i).commits=0 := by
        subst hc
        have hne := (h.view i).not.mp (commitCheck_open hcheck)
        exact ⟨fun hd => hne (.inl hd),by have := mt Or.inr hne; omega⟩
      have hpass : ({ s.tx i with phase := .checked call } : Tx).passed →
          (s.tx i).passed∨call=.commit := by
        rintro (hpos | hphase')
        · exact .inl (.inl hpos)
        · cases call with
          | preview r => cases hphase'
          | commit => exact .inr rfl
      refine h.turn ⟨⟨ht.few,ht.wrote,fun hp => ?_,fun hp => ?_,ht.once,fun hne => ?_⟩,h.writer i,
        fun _ _ hw => hw,fun _ _ hk => hk,fun _ _ hp => (by cases hp),
        fun hrows _ => h.stored hrows i call hphase,fun hp j hj hpj => ?_,fun hp => ?_,h.own i⟩
      · rcases hp with hp | hp
        · cases hp
          exact (hopen rfl).2
        · cases hp
      · cases hp
        by_contra hne
        rcases ht.used hne with hpos | hp
        · have := (hopen rfl).2
          omega
        · simp [hphase] at hp
      · rcases ht.used hne with hpos | hp
        · exact .inl hpos
        · simp [hphase] at hp
      · rcases hpass hp with hp | rfl
        · exact hj (h.alone j i hpj hp)
        · by_cases hrows : up.rows=0
          · exact hok hrows hphase j hj hpj
          · have hkeys := h.stored (by omega) i _ hphase
            rw [h.held (by omega) j hpj] at hkeys
            exact hj (Option.some.inj hkeys)
      · rcases hpass hp with hp | rfl
        · exact h.fresh i hp
        · exact (hopen rfl).1
  · cases hstep

theorem setMapping_keeps {s' : State ι} {mapping : Json} (h : Inv up s)
    (hstep : s.setMapping i mapping=some s') : Inv up s' := by
  unfold State.setMapping at hstep
  split at hstep
  · rename_i hphase
    split at hstep
    · rename_i hfree
      cases hstep
      have ht := h.ok i
      have hidle : (s.tx i).passed → 0<(s.tx i).commits := by simp [Tx.passed,hphase]
      exact h.write hfree ⟨ht.few,fun _ => (by simp),fun hp => (by simp at hp),
        fun hp => (by cases hp),ht.once,fun hne => .inl (hidle (ht.used hne))⟩ .inl
        ((setMapping_completed _ _).trans (h.view i))
    · cases hstep
  · cases hstep

theorem store_keeps {s' : State ι} {call : Call} (h : Inv up s)
    (hstep : s.store up i call=some s') : Inv up s' := by
  unfold State.store at hstep
  split at hstep
  · rename_i hphase
    have ht := h.ok i
    have hpass : ({ s.tx i with phase := .stored call } : Tx).passed → (s.tx i).passed := by
      simp [Tx.passed,hphase]
    have hok : ({ s.tx i with phase := .stored call } : Tx).Ok :=
      ⟨ht.few,ht.wrote,fun hp => (by simp at hp),fun hp => (by cases hp),ht.once,
        fun hne => by simpa [Tx.passed,hphase] using ht.used hne⟩
    have hturn (k : Option ι) (hkeys : ∀ j, j≠i → s.keys=some j → k=some j)
        (hmine : 0<up.rows → k=some i) :
        Turn up s i { s.tx i with phase := .stored call } k s.writer :=
      ⟨hok,h.writer i,fun _ _ hw => hw,hkeys,fun hrows _ _ => hmine hrows,fun hrows _ => hmine hrows,
        fun hp j hj hpj => hj (h.alone j i hpj (hpass hp)),fun hp => h.fresh i (hpass hp),h.own i⟩
    dsimp only at hstep
    split at hstep
    · rename_i hzero
      cases hstep
      exact h.turn (hturn s.keys (fun _ _ hk => hk) fun hrows => by omega)
    · split at hstep
      · rename_i hfree
        cases hstep
        exact h.turn (hturn (some i) (fun j hj hk => absurd hk (not_free hfree hj)) fun _ => rfl)
      · cases hstep
  · cases hstep

theorem insert_keeps {s' : State ι} {keep : Nat → Bool} (h : Inv up s)
    (hstep : s.insert up i keep=some s') : Inv up s' := by
  unfold State.insert at hstep
  split at hstep
  · rename_i hphase
    cases hstep
    have ht := h.ok i
    have hpass : (s.tx i).passed := by simp [Tx.passed,hphase]
    refine h.turn ⟨⟨ht.few,ht.wrote,fun _ => ht.counted (.inl hphase),fun hp => (by cases hp),?_,
      fun _ => .inr trivial⟩,h.writer i,fun _ _ hw => hw,fun _ _ hk => hk,
      fun _ _ hp => (by cases hp),fun hrows _ => h.held hrows i hpass,
      fun _ j hj hpj => hj (h.alone j i hpj hpass),fun _ => h.fresh i hpass,h.own i⟩
    show ((s.tx i).tasks++(List.range up.rows).filter keep).Nodup
    rw [ht.empty hphase,List.nil_append]
    exact List.nodup_range.filter keep
  · cases hstep

theorem finish_keeps {s' : State ι} (h : Inv up s) (hok : Tame up s (.finish i))
    (hstep : s.finish i=some s') : Inv up s' := by
  unfold State.finish at hstep
  have ht := h.ok i
  split at hstep
  · rename_i hfree
    split at hstep
    · rename_i resolution hphase
      cases hstep
      have hopen := (h.view i).not.mp (hok resolution hphase)
      have hused : (s.tx i).tasks=[] := by
        by_contra hne
        rcases ht.used hne with hpos | hp
        · exact hopen (.inr hpos)
        · simp [hphase] at hp
      refine h.write hfree ⟨ht.few,fun _ => (by simp),fun hp => (by simp at hp),
        fun hp => (by cases hp),ht.once,fun hne => absurd hused hne⟩ .inl ?_
      simp [Job.preview,hopen]
    · rename_i hphase
      cases hstep
      have hzero := ht.counted (.inr hphase)
      have hone : (s.tx i).commits+1 ≤ 1 := by omega
      refine h.write hfree ⟨hone,fun _ => (by simp),fun hp => (by simp at hp),
        fun hp => (by cases hp),ht.once,fun _ => .inl (Nat.succ_pos _)⟩
        (fun _ => by simp [Tx.passed,hphase]) ?_
      simp [Job.complete]
    · cases hstep
  · cases hstep

theorem step_keeps {s' : State ι} {e : Event ι} (h : Inv up s) (hok : Tame up s e)
    (hstep : step up s e=some s') : Inv up s' := by
  cases e with
  | setMapping i mapping => exact setMapping_keeps h hstep
  | store i call => exact store_keeps h hstep
  | check i => exact check_keeps h hok hstep
  | insert i keep => exact insert_keeps h hstep
  | finish i => exact finish_keeps h hok hstep
  | commit i =>
    simp only [step] at hstep
    split at hstep
    · rename_i hphase
      cases hstep
      exact h.commit hphase
    · cases hstep
  | rollback i =>
    simp only [step] at hstep
    split at hstep
    · cases hstep
    · cases hstep
      exact h.rollback i

omit [DecidableEq ι] in
theorem start_inv {job : Job} (hopen : job.status≠.completed) : Inv up (start ι job) :=
  ⟨fun _ => ⟨by simp [start],by simp [start],by simp [start],by simp [start],List.nodup_nil,
      by simp [start]⟩,fun _ hjob => absurd rfl hjob,fun _ _ _ hp => (by cases hp),
    fun _ _ hp => (by simp [start,Tx.passed] at hp),fun _ _ hp => (by simp [start,Tx.passed] at hp),
    fun _ hp => (by simp [start,Tx.passed] at hp),fun _ _ hjob => (by cases hjob),
    .inl ⟨hopen,rfl,rfl⟩⟩

/-- One commit of the job, no row of its file a task twice, and every later commit refused. -/
structure CommitsOnce (up : Upload) (s : State ι) : Prop where
  once : s.commits ≤ 1
  tasks : s.tasks.Nodup
  refused : 0<s.commits → ∀ i, commitCheck up (s.view i)=.error ⟨"already_committed",
    s!"import_job {up.jobId} is already completed; re-upload to re-run"⟩

theorem commits_once {job : Job} (hopen : job.status≠.completed) {es : List (Event ι)}
    (h : Run (step up) (Tame up) (start ι job) es s) : CommitsOnce up s := by
  have hI : Inv up s :=
    h.inv (Inv up) (fun _ _ _ hI hok hstep => step_keeps hI hok hstep) (start_inv hopen)
  rcases hI.done with ⟨-,hzero,htasks⟩ | ⟨hdone,hone,htasks⟩
  · exact ⟨by omega,htasks ▸ List.nodup_nil,fun hpos => by omega⟩
  · refine ⟨by omega,htasks,fun _ i => ?_⟩
    rw [commitCheck,if_pos ((hI.view i).mpr (.inl hdone))]

section Examples

def mappedJob : Job := ⟨.mapped,some (.obj [("Title",.str "title")]),none⟩

/-- A transaction of one commit of the whole file. -/
def commitAll (i : Fin 3) : List (Event (Fin 3)) :=
  [.store i .commit,.check i,.insert i fun _ => true,.finish i,.commit i]

def previewOnce (i : Fin 3) : List (Event (Fin 3)) :=
  [.store i (.preview (.obj [])),.check i,.finish i,.commit i]

/-- A preview, then a commit. -/
theorem commits_once_previewed : mappedJob.status≠.completed∧
    ∃ s, Run (step ⟨7,2⟩) (Tame ⟨7,2⟩) (start (Fin 3) mappedJob) (previewOnce 0++commitAll 1) s∧
      CommitsOnce ⟨7,2⟩ s := by
  have hrun : ∃ s, Run (step ⟨7,2⟩) (Tame ⟨7,2⟩) (start (Fin 3) mappedJob)
      (previewOnce 0++commitAll 1) s := by
    refine ⟨_,.cons trivial rfl (.cons (fun h => ?_) rfl (.cons (fun r _ => ?_) rfl
      (.cons trivial rfl (.cons trivial rfl (.cons (fun h => ?_) rfl (.cons trivial rfl
        (.cons (fun r h => ?_) rfl (.cons trivial rfl (.nil _)))))))))⟩
    · cases h
    · decide
    · cases h
    · cases h
  obtain ⟨s,hrun⟩ := hrun
  exact ⟨by decide,s,hrun,commits_once (by decide) hrun⟩

/-- A preview after the commit opens the job again, and the next commit imports the file anew. -/
theorem preview_reopens : mappedJob.status≠.completed∧
    ∃ s, Run (step ⟨7,2⟩) (fun _ _ => True) (start (Fin 3) mappedJob)
      (commitAll 0++previewOnce 1++commitAll 2) s∧¬CommitsOnce ⟨7,2⟩ s := by
  have hend : ((commitAll 0++previewOnce 1++commitAll 2).foldlM (step ⟨7,2⟩)
      (start (Fin 3) mappedJob)).map (fun s => (s.commits,s.tasks))=some (2,[0,1,0,1]) := rfl
  obtain ⟨s,hs,hend⟩ := Option.map_eq_some_iff.mp hend
  refine ⟨by decide,s,.of_foldlM hs (by simp),fun h => ?_⟩
  have htwice : s.commits=2 := congrArg Prod.fst hend
  have honce := h.once
  omega

end Examples

end Kitp.ImportJobs
