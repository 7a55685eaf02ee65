import Kitp.PersonEmailRuns

/-! What a statement does to the addresses of people: where they are verified, how they come to
be, and that a merge loses none. -/
namespace Kitp.PersonEmails
open Kitp.Store Kitp.Attributes Kitp.Versions

variable {ι : Type} [DecidableEq ι]

/-- What a merge has taken off and not laid down yet. -/
def Task.hand : Task → List Address
  | .taking _ _ taken => taken
  | .laying _ taken => taken
  | _ => []

/-- The people a merge is emptying. -/
def Task.losers : Task → List Int
  | .taking m _ _ => m.losers
  | .laying m _ => m.losers
  | _ => []

def Task.isFailed : Task → Bool
  | .failed _ => true
  | _ => false

/-- A transaction sees the address verified on the person. -/
def On (f : Int×String → Option Address) (k : Int×String) : Prop := ∃ a, f k=some a∧a.verified=true

/-- The code is the row's and has not expired. -/
def Matches (a : Address) (hash : String) (now : Int) : Prop :=
  a.verifyCodeHash=some hash∧∀ x, a.verifyExpiresAt=some x → now ≤ x

/-- A sign-in with the address, a code that is the one recorded and has not expired, or a
merge that took the address off somebody with it verified. -/
def Earned (s : State ι) (i : ι) (k : Int×String) : Prop :=
  (∃ old, s.task i=.noting k.1 k.2 old)∨
  (∃ hash now a, s.task i=.verifying k.1 k.2 hash now∧s.addresses.view i k=some a∧
    Matches a hash now)∨
  ∃ m a taken, s.task i=.laying m (a::taken)∧m.survivor=k.1∧a.email=k.2∧a.verified=true∧
    a.personCardId∈m.losers

/-- The code was compared with the row that is locked; a merge takes from its losers. -/
def TaskOk (table : Table ι (Int×String) Address) (i : ι) : Task → Prop
  | .verifying person email hash now =>
    ∃ a, table.own i (person,email)=some (some a)∧Matches a hash now
  | .taking m keys taken => (∀ k∈keys, k.1∈m.losers)∧∀ a∈taken, a.personCardId∈m.losers
  | .laying m taken => ∀ a∈taken, a.personCardId∈m.losers
  | _ => True

/-- The keys of the table and of its index, and the tasks. -/
structure Sound (s : State ι) : Prop where
  addresses : Versions.Inv verifiedEmail s.addresses
  rows : ∀ k a, s.addresses.row k=some a → a.personCardId=k.1∧a.email=k.2
  keyed : ∀ i k a, s.addresses.view i k=some a → a.personCardId=k.1∧a.email=k.2
  tasks : ∀ i, TaskOk s.addresses i (s.task i)

/-- What a statement may do to the tables. -/
def Allowed (s : State ι) (i : ι) : Effect → Prop
  | .none => True
  | .address k none => s.addresses.free i k=true∧
      (s.task i=.removing k.1 k.2∨∃ m keys taken, s.task i=.taking m (k::keys) taken)
  | .address k (some a) => s.addresses.free i k=true∧(a.personCardId=k.1∧a.email=k.2)∧
      Versions.Inv verifiedEmail (s.addresses.put i k (some a))∧
      (On (s.addresses.view i) k → a.verified=true)∧
      (a.verified=true → On (s.addresses.view i) k∨Earned s i k)
  | .primary person x => s.primaries.free i person=true∧
      (x.setter=.merge∨s.task i=.setting person x.email x.setter)
  | .gone losers => ∀ p∈(s.task i).losers, p∈losers

/-- A statement and the task it leaves. -/
structure Turn (s : State ι) (i : ι) (r : Effect×Task) : Prop where
  allowed : Allowed s i r.1
  ok : TaskOk (s.apply i r.1).addresses i r.2
  hand : ∀ a∈r.2.hand, a∈(s.task i).hand∨s.addresses.view i (a.personCardId,a.email)=some a
  leaving : ∀ p∈(s.task i).losers, p∈r.2.losers∨r.2.isFailed=true∨∃ l, r.1=.gone l∧p∈l

variable {text : Text} {s t : State ι} {i j : ι} {person : Int} {email : String} {op : Op}
  {r : Effect×Task}

/-- A task that goes on without a write and without a merge in hand. -/
theorem Turn.of_pass {task : Task} (h : pass task=some r) (hok : TaskOk s.addresses i task)
    (hhand : task.hand=[]) (hlosers : (s.task i).losers=[]∨task.isFailed=true) : Turn s i r := by
  cases h
  refine ⟨trivial,hok,?_,?_⟩
  · intro a ha
    rw [hhand] at ha
    cases ha
  · intro p hp
    cases hlosers with
    | inl hnone =>
      rw [hnone] at hp
      cases hp
    | inr hfailed => exact .inr (.inl hfailed)

theorem Turn.of_fail {code message : String} (h : fail code message=some r) : Turn s i r :=
  .of_pass h trivial rfl (.inr rfl)

/-- A row that is no more verified than it was finds room in the index. -/
theorem room_of_same {k : Int×String} {a : Address} (h : Sound s) (hfree : s.addresses.free i k=true)
    (hsame : a.verified=true → On (s.addresses.view i) k) :
    Versions.Inv verifiedEmail (s.addresses.put i k (some a)) := by
  refine h.addresses.put_same hfree ?_
  intro u hu
  unfold verifiedEmail at hu
  split at hu
  · rename_i hv
    obtain ⟨b,hb,hbv⟩ := hsame hv
    exact ⟨b,hb,by simpa [verifiedEmail,hbv] using hu⟩
  · cases hu

/-- A task that holds no addresses of a merge. -/
def Task.Plain (task : Task) : Prop := task.hand=[]∧task.losers=[]

theorem Turn.of_plain (hallowed : Allowed s i r.1) (hok : TaskOk (s.apply i r.1).addresses i r.2)
    (hplain : (s.task i).Plain) (hhand : r.2.hand=[]) : Turn s i r := by
  refine ⟨hallowed,hok,?_,?_⟩
  · intro a ha
    rw [hhand] at ha
    cases ha
  · intro p hp
    rw [hplain.2] at hp
    cases hp

theorem upsert_turn {a : Address} {refused done : Task} (hs : Sound s)
    (h : upsert s i person email a refused done=some r)
    (hkey : a.personCardId=person∧a.email=email)
    (hkept : On (s.addresses.view i) (person,email) → a.verified=true)
    (hearned : a.verified=true → On (s.addresses.view i) (person,email)∨Earned s i (person,email))
    (hrefused : Turn s i (.none,refused))
    (hdone : Allowed s i (.address (person,email) (some a)) →
      Turn s i (.address (person,email) (some a),done)) : Turn s i r := by
  simp only [upsert] at h
  split at h
  · cases h
  · rename_i hwait
    simp only [Bool.not_eq_true',not_or,Bool.not_eq_false] at hwait
    split at h
    · cases h
      exact hrefused
    · rename_i htaken
      cases h
      exact hdone ⟨hwait.1,hkey,
        hs.addresses.put_checked hwait.1 hwait.2 (by simpa using htaken),hkept,hearned⟩

theorem setPrimaryRow_turn {setter : Setter} {done : Task}
    (h : setPrimaryRow s i person email setter done=some r) (hplain : (s.task i).Plain)
    (hsetter : setter=.merge∨s.task i=.setting person email setter)
    (hok : TaskOk s.addresses i done) (hhand : done.hand=[]) : Turn s i r := by
  unfold setPrimaryRow at h
  split at h
  · rename_i hfree
    cases h
    exact .of_plain ⟨hfree,hsetter⟩ hok hplain hhand
  · cases h

theorem adding_turn {hash : String} {expires : Int} (hs : Sound s)
    (htask : s.task i=.adding person email hash expires)
    (h : next text s i (.adding person email hash expires)=some r) : Turn s i r := by
  simp only [next] at h
  split at h
  · rename_i hfree
    cases h
    have hplain : (s.task i).Plain := by rw [htask]; exact ⟨rfl,rfl⟩
    refine .of_plain ?_ trivial hplain rfl
    cases hrow : s.address i person email with
    | none =>
      have hoff : ¬On (s.addresses.view i) (person,email) := by
        rintro ⟨a,ha,-⟩
        cases hrow.symm.trans ha
      exact ⟨hfree,⟨rfl,rfl⟩,room_of_same hs hfree fun hv => by simp at hv,
        fun hon => absurd hon hoff,fun hv => by simp at hv⟩
    | some b =>
      have hon : On (s.addresses.view i) (person,email)↔b.verified=true := by
        constructor
        · rintro ⟨a,ha,hv⟩
          cases hrow.symm.trans ha
          exact hv
        · exact fun hv => ⟨b,hrow,hv⟩
      exact ⟨hfree,hs.keyed i _ b hrow,room_of_same hs hfree hon.mpr,hon.mp,
        fun hv => .inl (hon.mpr hv)⟩
  · cases h

theorem verifying_turn {hash : String} {now : Int} (hs : Sound s)
    (htask : s.task i=.verifying person email hash now)
    (h : next text s i (.verifying person email hash now)=some r) : Turn s i r := by
  simp only [next] at h
  obtain ⟨b,hb,h⟩ := Option.bind_eq_some_iff.mp h
  have hplain : (s.task i).Plain := by rw [htask]; exact ⟨rfl,rfl⟩
  have hok := hs.tasks i
  rw [htask] at hok
  obtain ⟨a,ha,hcode⟩ := hok
  have hview : s.addresses.view i (person,email)=some a := by simp [Table.view,ha]
  exact upsert_turn hs h (hs.keyed i _ b hb) (fun _ => rfl)
    (fun _ => .inr (.inr (.inl ⟨hash,now,a,htask,hview,hcode⟩)))
    (.of_plain trivial trivial hplain rfl) fun hallowed => .of_plain hallowed trivial hplain rfl

theorem noting_turn {old : String} (hs : Sound s) (htask : s.task i=.noting person email old)
    (h : next text s i (.noting person email old)=some r) : Turn s i r := by
  simp only [next] at h
  have hplain : (s.task i).Plain := by rw [htask]; exact ⟨rfl,rfl⟩
  refine upsert_turn hs h ?_ ?_ (fun _ => .inr (.inl ⟨old,htask⟩))
    (.of_plain trivial trivial hplain rfl) fun hallowed => .of_plain hallowed trivial hplain rfl
  · cases hrow : s.address i person email with
    | none => exact ⟨rfl,rfl⟩
    | some b => exact hs.keyed i _ b hrow
  · intro _
    cases s.address i person email with
    | none => rfl
    | some b => rfl

theorem taking_turn {m : Merge} {k : Int×String} {keys : List (Int×String)} {taken : List Address}
    (hs : Sound s) (htask : s.task i=.taking m (k::keys) taken)
    (h : next text s i (.taking m (k::keys) taken)=some r) : Turn s i r := by
  have hok := hs.tasks i
  rw [htask] at hok
  obtain ⟨hkeys,htaken⟩ := hok
  have hrest : ∀ x∈keys, x.1∈m.losers := fun x hx => hkeys x (List.mem_cons_of_mem _ hx)
  simp only [next] at h
  split at h
  · cases h
    refine ⟨trivial,⟨hrest,htaken⟩,?_,?_⟩
    · intro a ha
      rw [htask]
      exact .inl ha
    · intro p hp
      rw [htask] at hp
      exact .inl hp
  · rename_i a ha
    split at h
    · rename_i hfree
      cases h
      have hkey := hs.keyed i k a ha
      refine ⟨⟨hfree,.inr ⟨m,keys,taken,htask⟩⟩,⟨hrest,?_⟩,?_,?_⟩
      · intro b hb
        cases List.mem_append.mp hb with
        | inl hb => exact htaken b hb
        | inr hb =>
          rw [List.mem_singleton.mp hb,hkey.1]
          exact hkeys k List.mem_cons_self
      · intro b hb
        cases List.mem_append.mp hb with
        | inl hb =>
          rw [htask]
          exact .inl hb
        | inr hb =>
          rw [List.mem_singleton.mp hb,hkey.1,hkey.2]
          exact .inr ha
      · intro p hp
        rw [htask] at hp
        exact .inl hp
    · cases h

theorem laying_turn {m : Merge} {a : Address} {taken : List Address} (hs : Sound s)
    (htask : s.task i=.laying m (a::taken))
    (h : next text s i (.laying m (a::taken))=some r) : Turn s i r := by
  have hok := hs.tasks i
  rw [htask] at hok
  have hearned : a.verified=true → Earned s i (m.survivor,a.email) := fun hv =>
    .inr (.inr ⟨m,a,taken,htask,rfl,rfl,hv,hok a List.mem_cons_self⟩)
  simp only [next] at h
  refine upsert_turn hs h ?_ ?_ ?_ ?_ ?_
  · cases hrow : s.address i m.survivor a.email with
    | none => exact ⟨rfl,rfl⟩
    | some b => exact hs.keyed i _ b hrow
  · rintro ⟨b,hb,hv⟩
    have hrow : s.address i m.survivor a.email=some b := hb
    rw [hrow,Option.map_some,Option.getD_some]
    simp [hv]
  · cases hrow : s.address i m.survivor a.email with
    | none => exact fun hv => .inr (hearned hv)
    | some b =>
      intro hv
      cases hb : b.verified with
      | true => exact .inl ⟨b,hrow,hb⟩
      | false => exact .inr (hearned (by simpa [hb] using hv))
  · refine ⟨trivial,trivial,?_,fun _ _ => .inr (.inl rfl)⟩
    intro b hb
    cases hb
  · intro hallowed
    refine ⟨hallowed,fun b hb => hok b (List.mem_cons_of_mem _ hb),?_,?_⟩
    · intro b hb
      rw [htask]
      exact .inl (List.mem_cons_of_mem _ hb)
    · intro p hp
      rw [htask] at hp
      exact .inl hp

/-- What every statement does. -/
theorem next_turn (hs : Sound s) (h : next text s i (s.task i)=some r) : Turn s i r := by
  cases htask : s.task i with
  | idle =>
    rw [htask] at h
    cases h
  | failed e =>
    rw [htask] at h
    cases h
  | adding person email hash expires => exact adding_turn hs htask (htask ▸ h)
  | verifying person email hash now => exact verifying_turn hs htask (htask ▸ h)
  | removing person email =>
    rw [htask] at h
    simp only [next] at h
    split at h
    · exact .of_fail h
    · split at h
      · rename_i hfree
        cases h
        refine .of_plain ⟨hfree,.inl htask⟩ trivial ?_ rfl
        rw [htask]
        exact ⟨rfl,rfl⟩
      · cases h
  | choosing person email =>
    rw [htask] at h
    simp only [next] at h
    split at h
    · exact .of_pass h trivial rfl (.inl (by rw [htask]; rfl))
    · exact .of_pass h trivial rfl (.inl (by rw [htask]; rfl))
  | noting person email old => exact noting_turn hs htask (htask ▸ h)
  | noted person email old =>
    rw [htask] at h
    simp only [next] at h
    split at h
    · exact .of_pass h trivial rfl (.inl (by rw [htask]; rfl))
    · split at h
      · exact .of_pass h trivial rfl (.inl (by rw [htask]; rfl))
      · exact .of_pass h trivial rfl (.inl (by rw [htask]; rfl))
  | weighing person email primary =>
    rw [htask] at h
    simp only [next] at h
    split at h
    · exact .of_pass h trivial rfl (.inl (by rw [htask]; rfl))
    · exact .of_pass h trivial rfl (.inl (by rw [htask]; rfl))
  | setting person email setter =>
    rw [htask] at h
    exact setPrimaryRow_turn h (by rw [htask]; exact ⟨rfl,rfl⟩) (.inr htask) trivial rfl
  | relinked m email =>
    rw [htask] at h
    simp only [next] at h
    split at h
    · exact .of_pass h trivial rfl (.inl (by rw [htask]; rfl))
    · exact .of_pass h trivial rfl (.inl (by rw [htask]; rfl))
  | crowning m email =>
    rw [htask] at h
    exact setPrimaryRow_turn h (by rw [htask]; exact ⟨rfl,rfl⟩) (.inl rfl) trivial rfl
  | filling m =>
    rw [htask] at h
    simp only [next] at h
    split at h
    · exact .of_pass h trivial rfl (.inl (by rw [htask]; rfl))
    · exact .of_pass h trivial rfl (.inl (by rw [htask]; rfl))
  | searching m =>
    rw [htask] at h
    simp only [next] at h
    split at h
    · exact .of_pass h trivial rfl (.inl (by rw [htask]; rfl))
    · exact .of_pass h trivial rfl (.inl (by rw [htask]; rfl))
  | backfilling m email =>
    rw [htask] at h
    exact setPrimaryRow_turn h (by rw [htask]; exact ⟨rfl,rfl⟩) (.inl rfl) trivial rfl
  | emptying m =>
    rw [htask] at h
    refine .of_pass h ⟨?_,?_⟩ rfl (.inl (by rw [htask]; rfl))
    · intro k hk
      exact of_decide_eq_true (List.mem_filter.mp hk).2
    · intro a ha
      cases ha
  | taking m keys taken =>
    cases keys with
    | nil =>
      rw [htask] at h
      cases h
      have hok := hs.tasks i
      rw [htask] at hok
      refine ⟨trivial,hok.2,?_,?_⟩
      · intro a ha
        rw [htask]
        exact .inl ha
      · intro p hp
        rw [htask] at hp
        exact .inl hp
    | cons k keys => exact taking_turn hs htask (htask ▸ h)
  | laying m taken =>
    cases taken with
    | nil =>
      rw [htask] at h
      cases h
      refine ⟨?_,trivial,?_,?_⟩
      · intro p hp
        rw [htask] at hp
        exact hp
      · intro a ha
        cases ha
      · intro p hp
        rw [htask] at hp
        exact .inr (.inr ⟨m.losers,rfl,hp⟩)
    | cons a taken => exact laying_turn hs htask (htask ▸ h)

theorem callVerify_turn {caller : Caller} {hash : String} {now : Int} (hs : Sound s)
    (hidle : s.task i=.idle) (h : callVerify text s i caller email hash now=some r) :
    Turn s i r := by
  have hplain : (s.task i).Plain := by rw [hidle]; exact ⟨rfl,rfl⟩
  simp only [callVerify] at h
  split at h
  · exact .of_fail h
  · rename_i person _
    split at h
    · exact .of_fail h
    · rename_i a ha
      split at h
      · cases h
      · rename_i hfree
        simp only [Bool.not_eq_true',Bool.not_eq_false] at hfree
        have hon : On (s.addresses.view i) (person,folded text email)↔a.verified=true := by
          constructor
          · rintro ⟨b,hb,hv⟩
            cases hb.symm.trans ha
            exact hv
          · exact fun hv => ⟨a,ha,hv⟩
        have hallowed : Allowed s i (.address (person,folded text email) (some a)) :=
          ⟨hfree,hs.keyed i _ a ha,room_of_same hs hfree hon.mpr,hon.mp,fun hv => .inl (hon.mpr hv)⟩
        split at h
        · cases h
          exact .of_plain hallowed trivial hplain rfl
        · split at h
          · exact .of_fail h
          · rename_i hexpired
            split at h
            · exact .of_fail h
            · rename_i hcode
              cases h
              refine .of_plain hallowed ⟨a,?_,not_not.mp hcode,?_⟩ hplain rfl
              · simp [State.apply,own_put]
              · intro x hx
                simp only [hx,Option.any_some,decide_eq_true_eq,not_or,Int.not_lt] at hexpired
                exact hexpired.2

theorem call_turn (hs : Sound s) (hidle : s.task i=.idle) (h : call text s i op=some r) :
    Turn s i r := by
  have hlosers : (s.task i).losers=[] := by rw [hidle]; rfl
  cases op with
  | add env caller sent batch input =>
    simp only [call,callAdd] at h
    split at h
    · exact .of_pass h trivial rfl (.inl hlosers)
    · exact .of_pass h trivial rfl (.inl hlosers)
  | verify caller email hash now => exact callVerify_turn hs hidle h
  | remove caller person email =>
    simp only [call,callRemove] at h
    split at h
    · exact .of_fail h
    · split at h
      · exact .of_fail h
      · split at h
        · exact .of_fail h
        · exact .of_pass h trivial rfl (.inl hlosers)
  | setPrimary caller email =>
    simp only [call,callSetPrimary] at h
    split at h
    · exact .of_fail h
    · split at h
      · exact .of_fail h
      · exact .of_pass h trivial rfl (.inl hlosers)
  | noteSignin person email old =>
    simp only [call,callNoteSignin] at h
    split at h
    · exact .of_pass h trivial rfl (.inl hlosers)
    · split at h
      · exact .of_pass h trivial rfl (.inl hlosers)
      · exact .of_pass h trivial rfl (.inl hlosers)
  | merge env dir input =>
    simp only [call,callMerge] at h
    split at h
    · exact .of_pass h trivial rfl (.inl hlosers)
    · split at h
      · exact .of_fail h
      · split at h
        · exact .of_pass h trivial rfl (.inl hlosers)
        · split at h
          · exact .of_pass h trivial rfl (.inl hlosers)
          · exact .of_pass h trivial rfl (.inl hlosers)

theorem taskOk_congr {a b : Table ι (Int×String) Address} {task : Task}
    (h : ∀ k, b.own j k=a.own j k) (hok : TaskOk a j task) : TaskOk b j task := by
  cases task with
  | verifying person email hash now =>
    obtain ⟨r,hr,hcode⟩ := hok
    exact ⟨r,(h _).trans hr,hcode⟩
  | idle => trivial
  | failed e => trivial
  | adding person email hash expires => trivial
  | removing person email => trivial
  | choosing person email => trivial
  | noting person email old => trivial
  | noted person email old => trivial
  | weighing person email primary => trivial
  | setting person email setter => trivial
  | relinked m email => trivial
  | crowning m email => trivial
  | filling m => trivial
  | searching m => trivial
  | backfilling m email => trivial
  | emptying m => trivial
  | taking m keys taken => exact hok
  | laying m taken => exact hok

theorem turn_task (s : State ι) (i : ι) (r : Effect×Task) : (s.turn i r).task i=r.2 :=
  Function.update_self ..

theorem turn_task_other (s : State ι) (r : Effect×Task) (hj : j≠i) :
    (s.turn i r).task j=s.task j := by
  have happly : (s.apply i r.1).task=s.task := by cases r.1 <;> rfl
  change Function.update (s.apply i r.1).task i r.2 j=_
  rw [Function.update_of_ne hj,happly]

theorem turn_addresses (s : State ι) (i : ι) (r : Effect×Task) :
    (s.turn i r).addresses=(s.apply i r.1).addresses := rfl

theorem apply_own (s : State ι) (e : Effect) (hj : j≠i) (k : Int×String) :
    (s.apply i e).addresses.own j k=s.addresses.own j k := by
  cases e with
  | none => rfl
  | primary person x => rfl
  | gone losers => rfl
  | address l a =>
    change (s.addresses.put i l a).own j k=_
    rw [own_put,if_neg fun h => hj h.1]

theorem apply_row (s : State ι) (i : ι) (e : Effect) (k : Int×String) :
    (s.apply i e).addresses.row k=s.addresses.row k := by
  cases e <;> rfl

theorem apply_view (s : State ι) (e : Effect) (hj : j≠i) (k : Int×String) :
    (s.apply i e).addresses.view j k=s.addresses.view j k := by
  rw [Table.view,apply_own s e hj,apply_row,Table.view]

theorem turn_sound (h : Sound s) (ht : Turn s i r) : Sound (s.turn i r) := by
  have hallowed := ht.allowed
  refine ⟨?_,fun k a hrow => h.rows k a ((apply_row s i r.1 k).symm.trans hrow),?_,?_⟩
  · rw [turn_addresses]
    cases he : r.1 with
    | none => exact h.addresses
    | primary person x => exact h.addresses
    | gone losers => exact h.addresses
    | address k o =>
      rw [he] at hallowed
      cases o with
      | none =>
        refine h.addresses.put hallowed.1 ?_ ?_
        · intro _ _ hnone
          cases hnone
        · intro _ _ hnone
          cases hnone
      | some a => exact hallowed.2.2.1
  · intro j k a hview
    rw [turn_addresses] at hview
    by_cases hj : j=i
    · subst hj
      cases he : r.1 with
      | none => exact h.keyed j k a (by rw [he] at hview; exact hview)
      | primary person x => exact h.keyed j k a (by rw [he] at hview; exact hview)
      | gone losers => exact h.keyed j k a (by rw [he] at hview; exact hview)
      | address l o =>
        rw [he] at hview hallowed
        change (s.addresses.put j l o).view j k=some a at hview
        rw [view_put] at hview
        split at hview
        · rename_i hk
          subst hview
          rw [hk.2]
          exact hallowed.2.1
        · exact h.keyed j k a hview
    · rw [apply_view s r.1 hj] at hview
      exact h.keyed j k a hview
  · intro j
    by_cases hj : j=i
    · subst hj
      rw [turn_task]
      exact ht.ok
    · rw [turn_task_other s r hj]
      exact taskOk_congr (fun k => apply_own s r.1 hj k) (h.tasks j)

theorem close_sound {rows : List ((Int×String)×Address)} {primaries : Table ι Int Primary}
    {people : List Int} (h : Sound s) (hinv : Versions.Inv verifiedEmail (s.addresses.close i rows))
    (hrows : ∀ k a, (s.addresses.close i rows).row k=some a → a.personCardId=k.1∧a.email=k.2) :
    Sound (s.close i (s.addresses.close i rows) primaries people) := by
  refine ⟨hinv,hrows,?_,?_⟩
  · intro j k a hview
    have hview : (s.addresses.close i rows).view j k=some a := hview
    cases hown : (s.addresses.close i rows).own j k with
    | none =>
      rw [Table.view,hown,Option.getD_none] at hview
      exact hrows k a hview
    | some o =>
      rw [Table.view,hown,Option.getD_some] at hview
      rw [own_close] at hown
      split at hown
      · cases hown
      · exact h.keyed j k a (by rw [Table.view,hown,Option.getD_some,hview])
  intro j
  by_cases hj : j=i
  · have htask : (s.close i (s.addresses.close i rows) primaries people).task j=.idle := by
      rw [hj]
      exact Function.update_self ..
    rw [htask]
    trivial
  · have htask : (s.close i (s.addresses.close i rows) primaries people).task j=s.task j :=
      Function.update_of_ne hj ..
    rw [htask]
    refine taskOk_congr ?_ (h.tasks j)
    intro k
    exact (own_close rows).trans (if_neg hj)

/-- A step is a statement's turn, or the end of a transaction. -/
theorem step_cases {e : Event ι} (hs : Sound s) (h : step text s e=some t) :
    (∃ i r, t=s.turn i r∧Turn s i r∧((∃ op, e=.call i op∧s.task i=.idle)∨
      (e=.next i∧next text s i (s.task i)=some r)))∨
    (∃ i, e=.commit i∧s.task i=.idle∧t=s.close i (s.addresses.commit i) (s.primaries.commit i)
      (s.people.filter (· ∉ s.gone i)))∨
    ∃ i, e=.abort i∧t=s.close i (s.addresses.abort i) (s.primaries.abort i) s.people := by
  cases e with
  | call i op =>
    simp only [step] at h
    split at h
    · rename_i hidle
      obtain ⟨r,hr,rfl⟩ := Option.map_eq_some_iff.mp h
      exact .inl ⟨i,r,rfl,call_turn hs hidle hr,.inl ⟨op,rfl,hidle⟩⟩
    · cases h
  | next i =>
    obtain ⟨r,hr,rfl⟩ := Option.map_eq_some_iff.mp h
    exact .inl ⟨i,r,rfl,next_turn hs hr,.inr ⟨rfl,hr⟩⟩
  | commit i =>
    simp only [step] at h
    split at h
    · rename_i hidle
      cases h
      exact .inr (.inl ⟨i,rfl,hidle,rfl⟩)
    · cases h
  | abort i =>
    cases h
    exact .inr (.inr ⟨i,rfl,rfl⟩)

theorem step_sound {e : Event ι} (hs : Sound s) (h : step text s e=some t) : Sound t := by
  rcases step_cases hs h with ⟨i,r,rfl,ht,-⟩ | ⟨i,-,-,rfl⟩ | ⟨i,-,rfl⟩
  · exact turn_sound hs ht
  · refine close_sound hs (hs.addresses.commit i) ?_
    intro k a hrow
    exact hs.keyed i k a (row_commit.symm.trans hrow)
  · exact close_sound hs (hs.addresses.abort i) hs.rows

/-- An address is verified on one person at most. -/
theorem Sound.verified_once (h : Sound s) {p q : Int} {email : String}
    (hp : On s.addresses.row (p,email)) (hq : On s.addresses.row (q,email)) : p=q := by
  have hholds : ∀ x, On s.addresses.row (x,email) →
      Holds verifiedEmail s.addresses.row (x,email) email := by
    rintro x ⟨a,ha,hv⟩
    exact ⟨a,ha,by simp [verifiedEmail,hv]⟩
  have hkey := h.addresses.committed email _ _ (hholds p hp) (hholds q hq)
  exact congrArg Prod.fst hkey

/-- An address a transaction sees verified now was so for it, or was earned by the statement. -/
theorem turn_earned (ht : Turn s i r) {k : Int×String} (hon : On ((s.turn i r).addresses.view i) k) :
    On (s.addresses.view i) k∨Earned s i k := by
  have hallowed := ht.allowed
  rw [turn_addresses] at hon
  cases he : r.1 with
  | none => exact .inl (by rw [he] at hon; exact hon)
  | primary person x => exact .inl (by rw [he] at hon; exact hon)
  | gone losers => exact .inl (by rw [he] at hon; exact hon)
  | address l o =>
    rw [he] at hon hallowed
    obtain ⟨a,ha,hv⟩ := hon
    change (s.addresses.put i l o).view i k=some a at ha
    rw [view_put] at ha
    split at ha
    · rename_i hk
      subst ha
      rw [hk.2]
      exact hallowed.2.2.2.2 hv
    · exact .inl ⟨a,ha,hv⟩

/-- How an address comes to be verified, for a transaction and for good. -/
theorem verified_by {e : Event ι} (hs : Sound s) (h : step text s e=some t) {k : Int×String} :
    (∀ j, On (t.addresses.view j) k → ¬On (s.addresses.view j) k →
      (e=.next j∧Earned s j k)∨(∃ i, e=.commit i∧On (s.addresses.view i) k)∨
        (e=.abort j∧On s.addresses.row k))∧
    (On t.addresses.row k → ¬On s.addresses.row k → ∃ i, e=.commit i∧On (s.addresses.view i) k) := by
  rcases step_cases hs h with ⟨i,r,rfl,ht,hwhy⟩ | ⟨i,rfl,-,rfl⟩ | ⟨i,rfl,rfl⟩
  · refine ⟨?_,?_⟩
    · intro j hon hoff
      by_cases hj : j=i
      · subst hj
        have hearned : Earned s j k := (turn_earned ht hon).resolve_left hoff
        rcases hwhy with ⟨op,-,hidle⟩ | ⟨rfl,-⟩
        · rcases hearned with ⟨_,htask⟩ | ⟨_,_,_,htask,-⟩ | ⟨_,_,_,htask,-⟩
          · cases hidle.symm.trans htask
          · cases hidle.symm.trans htask
          · cases hidle.symm.trans htask
        · exact .inl ⟨rfl,hearned⟩
      · obtain ⟨a,ha,hv⟩ := hon
        rw [turn_addresses,apply_view s r.1 hj] at ha
        exact absurd ⟨a,ha,hv⟩ hoff
    · rintro ⟨a,ha,hv⟩ hoff
      rw [turn_addresses,apply_row] at ha
      exact absurd ⟨a,ha,hv⟩ hoff
  · refine ⟨?_,?_⟩
    · rintro j ⟨a,ha,hv⟩ hoff
      have ha : (s.addresses.commit i).view j k=some a := ha
      rw [view_commit] at ha
      split at ha
      · exact .inr (.inl ⟨i,rfl,a,ha,hv⟩)
      · cases hown : s.addresses.own j k with
        | none =>
          rw [hown,Option.getD_none] at ha
          exact .inr (.inl ⟨i,rfl,a,ha,hv⟩)
        | some o =>
          rw [hown,Option.getD_some] at ha
          exact absurd ⟨a,by rw [Table.view,hown,Option.getD_some,ha],hv⟩ hoff
    · rintro ⟨a,ha,hv⟩ -
      exact ⟨i,rfl,a,row_commit.symm.trans ha,hv⟩
  · refine ⟨?_,fun hon hoff => absurd hon hoff⟩
    rintro j ⟨a,ha,hv⟩ hoff
    have hrow : (s.addresses.abort i).view j k=some a := ha
    rw [view_abort] at hrow
    split at hrow
    · rename_i hj
      exact .inr (.inr ⟨by rw [hj],a,hrow,hv⟩)
    · exact absurd ⟨a,hrow,hv⟩ hoff

/-- A transaction sees the address verified on somebody, or has it so in hand. -/
def Held (s : State ι) (i : ι) (email : String) : Prop :=
  (∃ p, On (s.addresses.view i) (p,email))∨∃ a∈(s.task i).hand, a.email=email∧a.verified=true

/-- What is verified stays so for the transaction, but for an address it removes. -/
theorem turn_on (ht : Turn s i r) {k : Int×String} (hon : On (s.addresses.view i) k)
    (hkept : r.1≠.address k none) : On ((s.turn i r).addresses.view i) k := by
  have hallowed := ht.allowed
  rw [turn_addresses]
  cases he : r.1 with
  | none => exact hon
  | primary person x => exact hon
  | gone losers => exact hon
  | address l o =>
    rw [he] at hallowed hkept
    obtain ⟨a,ha,hv⟩ := hon
    by_cases hk : k=l
    · subst hk
      cases o with
      | none => exact absurd rfl hkept
      | some b =>
        refine ⟨b,?_,hallowed.2.2.2.1 ⟨a,ha,hv⟩⟩
        exact (view_put (some b)).trans (if_pos ⟨rfl,rfl⟩)
    · refine ⟨a,?_,hv⟩
      exact (view_put o).trans ((if_neg fun h => hk h.2).trans ha)

/-- A merge loses no verified address: what it takes off a loser it lays on the survivor. -/
theorem merge_holds (hs : Sound s) (h : step text s (.next i)=some t)
    (hmerge : (∃ m keys taken, s.task i=.taking m keys taken)∨∃ m taken, s.task i=.laying m taken)
    (hgoes : (t.task i).isFailed=false) :
    (∀ e, Held s i e → Held t i e)∧
      ∀ m a taken, s.task i=.laying m (a::taken) → a.verified=true →
        On (t.addresses.view i) (m.survivor,a.email) := by
  obtain ⟨r,hr,rfl⟩ := Option.map_eq_some_iff.mp h
  have ht : Turn s i r := next_turn hs hr
  rw [turn_task] at hgoes
  have htask : ((s.turn i r).task i).hand=r.2.hand := by rw [turn_task]
  rcases hmerge with ⟨m,keys,taken,hm⟩ | ⟨m,taken,hm⟩
  · refine ⟨?_,fun m' a rest hl => by cases hm.symm.trans hl⟩
    intro e hheld
    rw [Held,htask]
    rw [hm] at hr
    cases keys with
    | nil =>
      cases hr
      rw [Held,hm] at hheld
      exact hheld
    | cons k keys =>
      simp only [next] at hr
      rw [Held,hm] at hheld
      split at hr
      · cases hr
        exact hheld
      · rename_i a ha
        split at hr
        · cases hr
          rcases hheld with ⟨p,hon⟩ | ⟨b,hb,hbe⟩
          · by_cases hk : (p,e)=k
            · obtain ⟨b,hb,hv⟩ := hon
              rw [hk] at hb
              cases ha.symm.trans hb
              refine .inr ⟨a,List.mem_append_right _ List.mem_cons_self,?_,hv⟩
              rw [(hs.keyed i k a ha).2,← hk]
            · refine .inl ⟨p,turn_on ht hon ?_⟩
              intro hdrop
              injection hdrop with hkey
              exact hk hkey.symm
          · exact .inr ⟨b,List.mem_append_left _ hb,hbe⟩
        · cases hr
  · cases taken with
    | nil =>
      rw [hm] at hr
      cases hr
      refine ⟨?_,fun m' a rest hl => by cases hm.symm.trans hl⟩
      intro e hheld
      rw [Held,hm] at hheld
      rcases hheld with hon | ⟨b,hb,-⟩
      · exact .inl hon
      · cases hb
    | cons a taken =>
      have hlaid : ∃ b, r=(.address (m.survivor,a.email) (some b),.laying m taken)∧
          (a.verified=true → b.verified=true) := by
        rw [hm] at hr
        simp only [next,upsert] at hr
        split at hr
        · cases hr
        · split at hr
          · cases hr
            cases hgoes
          · cases hr
            refine ⟨_,rfl,?_⟩
            intro hv
            cases s.address i m.survivor a.email with
            | none => exact hv
            | some b => simp [hv]
      obtain ⟨b,rfl,hb⟩ := hlaid
      have hsurvivor : a.verified=true →
          On ((s.turn i (.address (m.survivor,a.email) (some b),.laying m taken)).addresses.view i)
            (m.survivor,a.email) := fun hv =>
        ⟨b,(view_put (some b)).trans (if_pos ⟨rfl,rfl⟩),hb hv⟩
      refine ⟨?_,?_⟩
      · intro e hheld
        rw [Held,hm] at hheld
        rw [Held,htask]
        rcases hheld with ⟨p,hon⟩ | ⟨c,hc,hce,hcv⟩
        · refine .inl ⟨p,turn_on ht hon ?_⟩
          intro hdrop
          injection hdrop with _ hnone
          cases hnone
        · cases List.mem_cons.mp hc with
          | inl hca =>
            subst hca
            exact .inl ⟨m.survivor,hce ▸ hsurvivor hcv⟩
          | inr hc => exact .inr ⟨c,hc,hce,hcv⟩
      · intro m' a' rest hl hv
        cases hm.symm.trans hl
        exact hsurvivor hv

/-- A merge takes what its transaction sees on a loser. -/
theorem taken_from (hs : Sound s) (h : step text s (.next i)=some t) {a : Address}
    (ha : a∈(t.task i).hand) :
    a∈(s.task i).hand∨s.addresses.view i (a.personCardId,a.email)=some a := by
  obtain ⟨r,hr,rfl⟩ := Option.map_eq_some_iff.mp h
  rw [turn_task] at ha
  exact (next_turn hs hr).hand a ha

end Kitp.PersonEmails
