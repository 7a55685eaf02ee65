import Kitp.Lib.Runs

/-! A query binding that refires (`DataController.wireQuery`, `fireQuery`): its calls go out in
batches of the dispatcher, and each result is set at the binding's path as it arrives. -/
namespace Kitp.TreeQueries
open Kitp.Runs

variable {ι α : Type*}

/-- A queued call and its input, by which identical ones of a flush are folded. -/
structure Pending (ι : Type*) where
  id : Nat
  input : ι

/-- The calls of one request, each with the one whose answer it takes. -/
abbrev Batch := List (Nat×Nat)

/-- `fired` numbers the calls; the leaf is a call's result. -/
structure State (ι α : Type*) where
  fired : Nat
  queue : List (Pending ι)
  flight : List Batch
  leaf : Option (Nat×α)
  alive : Bool

inductive Event (ι α : Type*) where
  | fire (input : ι)
  | flush
  /-- A batch is answered; a call that fails, or that the answer leaves out, has no result. -/
  | respond (batch : Batch) (answer : Nat → Option α)
  | destroy

def start : State ι α := ⟨0,[],[],none,true⟩

/-- The answers a batch brings, in the order of its calls. -/
def delivered (batch : Batch) (answer : Nat → Option α) : List (Nat×α) :=
  batch.filterMap fun c => (answer c.2).map (c.1,·)

variable [DecidableEq ι] (skips : ι → Bool)

/-- `flush` sends identical reads once. -/
def folded (queue : List (Pending ι)) : Batch :=
  queue.map fun p => (p.id,((queue.find? (·.input = p.input)).map (·.id)).getD p.id)

/-- `fireQuery`, with `skipWhenNull`. -/
def fireQuery (s : State ι α) (input : ι) : State ι α :=
  if !s.alive||skips input then s
  else { s with fired := s.fired+1, queue := s.queue++[⟨s.fired,input⟩] }

/-- `deliverResult` with `toPath`. -/
def deliverResult (s : State ι α) (r : Nat×α) : State ι α := { s with leaf := some r }

def step (s : State ι α) : Event ι α → Option (State ι α)
  | .fire input => some (fireQuery skips s input)
  | .flush => if s.queue=[] then none
    else some { s with queue := [], flight := s.flight++[folded s.queue] }
  | .respond batch answer =>
    if batch∈s.flight then
      let s := { s with flight := s.flight.erase batch }
      some (if s.alive then (delivered batch answer).foldl deliverResult s else s)
    else none
  | .destroy => some { s with alive := false }

/-- The calls whose results the control hears, in the order of their arrival. -/
def heard : Bool → List (Event ι α) → List Nat
  | _,[] => []
  | alive,.respond batch answer::es =>
    (if alive then (delivered batch answer).map (·.1) else [])++heard alive es
  | _,.destroy::es => heard false es
  | alive,_::es => heard alive es

variable {skips} {s t : State ι α} {es : List (Event ι α)} {rs : List (Nat×α)}

omit [DecidableEq ι] in
theorem foldl_deliver : rs.foldl deliverResult s={ s with leaf := rs.getLast?.or s.leaf } := by
  induction rs generalizing s with
  | nil => rfl
  | cons r rs ih =>
    rw [List.foldl_cons,ih]
    cases rs with
    | nil => rfl
    | cons q rs =>
      obtain ⟨x,hx⟩ := Option.ne_none_iff_exists'.mp (List.getLast?_eq_none_iff.not.mpr (List.cons_ne_nil q rs))
      rw [List.getLast?_cons_cons,hx]
      rfl

/-- The leaf after a run is the last result heard in it. -/
theorem run_leaf (h : Run (step skips) (fun _ _ => True) s es t) :
    t.leaf.map (·.1)=(heard s.alive es).getLast?.or (s.leaf.map (·.1)) := by
  induction h with
  | nil s => rfl
  | @cons s t u e es _ hst _ ih =>
    rw [ih]
    cases e with
    | fire input =>
      obtain rfl : fireQuery skips s input=t := by simpa [step] using hst
      unfold fireQuery
      split <;> rfl
    | flush =>
      simp only [step] at hst
      split at hst
      · cases hst
      · cases hst
        rfl
    | respond batch answer =>
      simp only [step] at hst
      split at hst
      · cases hst
        cases halive : s.alive with
        | false => simp [heard]
        | true =>
          simp only [heard,if_true,foldl_deliver,List.getLast?_append,List.getLast?_map]
          cases (heard true es).getLast? with
          | some c => rfl
          | none => cases (delivered batch answer).getLast? <;> rfl
      · cases hst
    | destroy =>
      cases hst
      rfl

/-- The path holds the most recent call's result exactly when that is the last one to arrive. -/
theorem latest_iff (h : Run (step skips) (fun _ _ => True) (start : State ι α) es s) :
    (∃ v, s.leaf=some (s.fired-1,v))↔(heard true es).getLast?=some (s.fired-1) := by
  have hleaf := run_leaf h
  rw [show (start : State ι α).alive=true from rfl,
    show (start : State ι α).leaf.map (·.1)=none from rfl,Option.or_none] at hleaf
  rw [← hleaf,Option.map_eq_some_iff]
  constructor
  · rintro ⟨v,hv⟩
    exact ⟨_,hv,rfl⟩
  · rintro ⟨⟨c,v⟩,hv,rfl⟩
    exact ⟨v,hv⟩

/-- The answers come in the order of the requests, with every result. -/
def InOrder (s : State ι α) : Event ι α → Prop
  | .respond batch answer => s.flight.head?=some batch∧∀ c∈batch, (answer c.2).isSome=true
  | .destroy => False
  | _ => True

/-- The calls not answered yet, oldest first. -/
def outstanding (s : State ι α) : List Nat := s.flight.flatten.map (·.1)++s.queue.map (·.id)

theorem delivered_all {batch : Batch} {answer : Nat → Option α}
    (h : ∀ c∈batch, (answer c.2).isSome=true) :
    (delivered batch answer).map (·.1)=batch.map (·.1) := by
  induction batch with
  | nil => rfl
  | cons c batch ih =>
    obtain ⟨v,hv⟩ := Option.isSome_iff_exists.mp (h c List.mem_cons_self)
    have hrest := ih fun d hd => h d (List.mem_cons_of_mem c hd)
    simp only [delivered,List.filterMap_cons,hv,Option.map_some,List.map_cons]
    rw [← hrest]
    rfl

/-- Answered in order, the calls are heard as they were fired. -/
theorem heard_in_order (h : Run (step skips) InOrder s es t) (halive : s.alive=true) :
    s.fired ≤ t.fired∧outstanding s++List.range' s.fired (t.fired-s.fired)=
      heard true es++outstanding t := by
  induction h with
  | nil s => simp [heard]
  | @cons s t u e es hok hst _ ih =>
    cases e with
    | fire input =>
      obtain rfl : fireQuery skips s input=t := by simpa [step] using hst
      unfold fireQuery at ih
      split at ih
      · exact ih halive
      · obtain ⟨hle,heq⟩ := ih halive
        have hle : s.fired+1 ≤ u.fired := hle
        refine ⟨by omega,?_⟩
        rw [show u.fired-s.fired=(u.fired-(s.fired+1))+1 by omega,List.range'_succ]
        simpa [outstanding,heard] using heq
    | flush =>
      simp only [step] at hst
      split at hst
      · cases hst
      · cases hst
        obtain ⟨hle,heq⟩ := ih halive
        refine ⟨hle,?_⟩
        simpa [outstanding,heard,folded,Function.comp_def] using heq
    | respond batch answer =>
      simp only [step] at hst
      split at hst
      · cases hst
        obtain ⟨hhead,hall⟩ := hok
        obtain ⟨rest,hflight⟩ := List.head?_eq_some_iff.mp hhead
        have hout : outstanding s=batch.map (·.1)++
            (rest.flatten.map (·.1)++s.queue.map (·.id)) := by
          simp [outstanding,hflight]
        simp only [halive,foldl_deliver] at ih
        obtain ⟨hle,heq⟩ := ih trivial
        refine ⟨hle,?_⟩
        simp only [heard,if_true,delivered_all hall,List.append_assoc]
        rw [hout,List.append_assoc]
        congr 1
        simpa [outstanding,hflight,List.erase_cons_head] using heq
      · cases hst
    | destroy => exact absurd hok (by simp [InOrder])

/-- Answers in order leave the most recent call's result, once all have come. -/
theorem in_order_latest (h : Run (step skips) InOrder (start : State ι α) es s)
    (hfired : s.fired≠0) (hdone : outstanding s=[]) : ∃ v, s.leaf=some (s.fired-1,v) := by
  refine (latest_iff (h.mono fun _ _ _ => trivial)).mpr ?_
  obtain ⟨-,heq⟩ := heard_in_order h rfl
  rw [hdone,List.append_nil] at heq
  rw [← heq]
  obtain ⟨n,hn⟩ := Nat.exists_eq_succ_of_ne_zero hfired
  simp [outstanding,start,hn,List.range'_concat]

section Examples

/-- Two calls, answered in the order they were fired. -/
theorem in_order_latest_two : ∃ s, Run (step fun _ => false) InOrder start
    ([.fire "1",.flush,.fire "2",.flush,.respond [(0,0)] (fun _ => some 10),
      .respond [(1,1)] (fun _ => some 20)] : List (Event String Nat)) s∧
    ∃ v, s.leaf=some (s.fired-1,v) := by
  have hrun : ∃ s, Run (step fun _ => false) InOrder start
      ([.fire "1",.flush,.fire "2",.flush,.respond [(0,0)] (fun _ => some 10),
        .respond [(1,1)] (fun _ => some 20)] : List (Event String Nat)) s∧s.fired=2∧
      outstanding s=[] :=
    ⟨_,.cons trivial rfl (.cons trivial rfl (.cons trivial rfl (.cons trivial rfl
      (.cons ⟨rfl,fun _ _ => rfl⟩ rfl (.cons ⟨rfl,fun _ _ => rfl⟩ rfl (.nil _)))))),rfl,rfl⟩
  obtain ⟨s,hrun,hfired,hdone⟩ := hrun
  exact ⟨s,hrun,in_order_latest hrun (by omega) hdone⟩

/-- The project is switched, and the first one's answer is the slower. -/
def switched : List (Event String Nat) :=
  [.fire "1",.flush,.fire "2",.flush,.respond [(1,1)] (fun _ => some 20),
    .respond [(0,0)] (fun _ => some 10)]

/-- It stays on the path. -/
theorem slow_answer_stays : ∃ s, Run (step fun _ => false) (fun _ _ => True) start switched s∧
    s.fired=2∧outstanding s=[]∧s.leaf=some (0,10) := by
  have hend : (switched.foldlM (step fun _ => false) start).map
      (fun s => (s.fired,outstanding s,s.leaf))=some (2,[],some (0,10)) := rfl
  obtain ⟨s,hs,hend⟩ := Option.map_eq_some_iff.mp hend
  simp only [Prod.mk.injEq] at hend
  exact ⟨s,.of_foldlM hs (by simp),hend.1,hend.2.1,hend.2.2⟩

/-- Answered the other way round, the second one's result is on the path. -/
theorem latest_iff_prompt : ∃ s, Run (step fun _ => false) (fun _ _ => True) start
    ([.fire "1",.flush,.fire "2",.flush,.respond [(0,0)] (fun _ => some 10),
      .respond [(1,1)] (fun _ => some 20)] : List (Event String Nat)) s∧
    s.fired=2∧∃ v, s.leaf=some (s.fired-1,v) := by
  have hend : (([.fire "1",.flush,.fire "2",.flush,.respond [(0,0)] (fun _ => some 10),
      .respond [(1,1)] (fun _ => some 20)] : List (Event String Nat)).foldlM
      (step fun _ => false) start).map (·.fired)=some 2 := rfl
  obtain ⟨s,hs,hend⟩ := Option.map_eq_some_iff.mp hend
  have hrun : Run (step fun _ => false) (fun _ _ => True) start _ s := .of_foldlM hs (by simp)
  refine ⟨s,hrun,hend,(latest_iff hrun).mpr ?_⟩
  rw [hend]
  rfl

end Examples

end Kitp.TreeQueries
