import Kitp.Cas
import Kitp.Lib.Steps

/-! Runs of the writers beside the reaper: a blob stays for the grace period of its clock,
and while a row names it. -/
namespace Kitp.Cas
open Kitp.Runs Kitp.Store Kitp.Accounts Kitp.Steps Function

/-- The answer still covers a reference: the grace period of the clock it was given at. -/
def Answer.Fresh (grace : Nat) (s : State) (ans : Answer) : Prop := s.now ≤ ans.clock+grace

/-- The blob the answer was about, its clock no earlier, and who sent it. -/
def Backs (s : State) (ans : Answer) : Prop :=
  ∃ c, s.blobs ans.address=some c∧ans.clock ≤ c∧
    ∀ u, ans.holder=some u → (ans.address,u)∈s.holders

/-- A blob that was published behind the pass's back is younger than its cutoff. -/
def SweepInv (grace : Nat) (s : State) : Sweep → Prop
  | .idle => True
  | .sweeping since _ => since ≤ s.now
  | .locked since k _ => since ≤ s.now∧
      ∀ a, k=.blob a → a∈s.published → ∃ c, s.blobs a=some c∧since ≤ c+grace

structure Inv (grace : Nat) (s : State) : Prop where
  bytes : ∀ a, s.bytes a=(s.blobs a).isSome
  clock : ∀ a c, s.blobs a=some c → c ≤ s.now
  chunks : ∀ f∈s.files, ∀ a∈f.chunks, (s.blobs a).isSome=true
  attached : ∀ a∈s.attachments, ∀ f, a.names f=true → hasFile s f=true
  jobs : ∀ f∈s.importJobs, hasFile s f=true
  holders : ∀ a u, (a,u)∈s.holders → (s.blobs a).isSome=true
  published : ∀ a∈s.published, (s.blobs a).isSome=true
  answers : ∀ ans∈s.answers, ans.Fresh grace s → Backs s ans
  sweeps : ∀ r, SweepInv grace s (s.sweep r)

/-- A portal or a theme names bytes while an answer about them is fresh. -/
def InGrace (grace : Nat) (s : State) : Event → Prop
  | .publish a => ∃ ans∈s.answers, ans.address=a∧ans.Fresh grace s
  | _ => True

variable {grace : Nat} {dir : Directory} {s t : State} {a : String} {r : Nat}

theorem inv_start : Inv grace start := by
  constructor <;> simp [start,SweepInv]

theorem advance_inv (h : Inv grace s) {n : Nat} (hle : s.now ≤ n) :
    Inv grace { s with now := n } := by
  refine { h with clock := ?_, answers := ?_, sweeps := ?_ }
  · intro a c hc
    exact Nat.le_trans (h.clock a c hc) hle
  · intro ans hans hfresh
    exact h.answers ans hans (Nat.le_trans hle hfresh)
  · intro r
    have hr := h.sweeps r
    change SweepInv grace _ (s.sweep r)
    cases hp : s.sweep r <;> rw [hp] at hr
    · trivial
    · exact Nat.le_trans hr hle
    · exact ⟨Nat.le_trans hr.1 hle,hr.2⟩

/-- The rows stay and their clocks do not go back. -/
structure Older (s t : State) : Prop where
  now : t.now=s.now
  blobs : ∀ a c, s.blobs a=some c → ∃ d, t.blobs a=some d∧c ≤ d
  holders : ∀ p∈s.holders, p∈t.holders
  files : ∀ f, hasFile s f=true → hasFile t f=true

theorem Older.isSome (h : Older s t) (hs : (s.blobs a).isSome=true) :
    (t.blobs a).isSome=true := by
  obtain ⟨c,hc⟩ := Option.isSome_iff_exists.mp hs
  obtain ⟨d,hd,-⟩ := h.blobs a c hc
  simp [hd]

theorem Older.backs (h : Older s t) {ans : Answer} (hb : Backs s ans) : Backs t ans := by
  obtain ⟨c,hc,hle,hholder⟩ := hb
  obtain ⟨d,hd,hcd⟩ := h.blobs _ c hc
  exact ⟨d,hd,Nat.le_trans hle hcd,fun u hu => h.holders _ (hholder u hu)⟩

theorem Older.sweepInv (h : Older s t) (hpub : ∀ b∈t.published, b∈s.published) {p : Sweep}
    (hp : SweepInv grace s p) : SweepInv grace t p := by
  cases p with
  | idle => trivial
  | sweeping since keys =>
    have hs : since ≤ s.now := hp
    change since ≤ t.now
    rwa [h.now]
  | locked since k keys =>
    refine ⟨by rw [h.now]; exact hp.1,?_⟩
    intro b hk hb
    obtain ⟨c,hc,hle⟩ := hp.2 b hk (hpub b hb)
    obtain ⟨d,hd,hcd⟩ := h.blobs b c hc
    exact ⟨d,hd,by omega⟩

/-- What a writer or a caller leaves: rows stay, and each new one finds what it names. -/
theorem Inv.grow (h : Inv grace s) (ho : Older s t) (hbytes : ∀ a, t.bytes a=(t.blobs a).isSome)
    (hclock : ∀ a c, t.blobs a=some c → c ≤ t.now)
    (hchunks : ∀ f∈t.files, f∉s.files → ∀ a∈f.chunks, (t.blobs a).isSome=true)
    (hattached : ∀ a∈t.attachments, ∀ f, a.names f=true → hasFile s f=true)
    (hjobs : ∀ f∈t.importJobs, hasFile s f=true)
    (hholders : ∀ a u, (a,u)∈t.holders → (a,u)∉s.holders → (t.blobs a).isSome=true)
    (hpub : ∀ b∈t.published, b∈s.published)
    (hanswers : ∀ ans∈t.answers, ans∉s.answers → Backs t ans)
    (hsweep : t.sweep=s.sweep) : Inv grace t where
  bytes := hbytes
  clock := hclock
  chunks f hf a ha := by
    by_cases hold : f∈s.files
    · exact ho.isSome (h.chunks f hold a ha)
    · exact hchunks f hf hold a ha
  attached a ha f hn := ho.files f (hattached a ha f hn)
  jobs f hf := ho.files f (hjobs f hf)
  holders a u hu := by
    by_cases hold : (a,u)∈s.holders
    · exact ho.isSome (h.holders a u hold)
    · exact hholders a u hu hold
  published b hb := ho.isSome (h.published b (hpub b hb))
  answers ans hans hfresh := by
    by_cases hold : ans∈s.answers
    · have hfresh : ans.Fresh grace s := by
        unfold Answer.Fresh at hfresh ⊢
        rwa [ho.now] at hfresh
      exact ho.backs (h.answers ans hold hfresh)
    · exact hanswers ans hans hold
  sweeps r := by
    rw [hsweep]
    exact ho.sweepInv hpub (h.sweeps r)

/-- Rows of other tables, behind the blobs. -/
theorem Older.of_rows (hnow : t.now=s.now) (hblobs : t.blobs=s.blobs)
    (hholders : ∀ p∈s.holders, p∈t.holders) (hfiles : ∀ f∈s.files, f∈t.files) : Older s t where
  now := hnow
  blobs a c hc := ⟨c,by rw [hblobs]; exact hc,Nat.le_refl c⟩
  holders := hholders
  files f hf := by
    obtain ⟨g,hg,hid⟩ := List.any_eq_true.mp hf
    exact List.any_eq_true.mpr ⟨g,hfiles g hg,hid⟩

theorem put_inv (h : Inv grace s) (p : Nat → PutPhase) : Inv grace { s with put := p } :=
  ⟨h.bytes,h.clock,h.chunks,h.attached,h.jobs,h.holders,h.published,h.answers,h.sweeps⟩

theorem answer_inv (h : Inv grace s) {holder : Option Int}
    (hholder : ∀ u, holder=some u → (a,u)∈s.holders) : Inv grace (answer s a holder) := by
  refine h.grow (.of_rows rfl rfl (fun _ h => h) (fun _ h => h)) h.bytes h.clock
    (fun f hf hnew => absurd hf hnew) h.attached h.jobs (fun a u hu hnew => absurd hu hnew)
    (fun _ h => h) ?_ rfl
  intro ans hans hnew
  have hans : ans∈((s.blobs a).map fun clock => Answer.mk a clock s.now holder).toList :=
    (List.mem_append.mp hans).resolve_left hnew
  obtain ⟨c,hc,rfl⟩ := Option.map_eq_some_iff.mp (Option.mem_toList.mp hans)
  exact ⟨c,hc,Nat.le_refl c,hholder⟩

theorem touch_inv (h : Inv grace s) (ht : touch s a=some t) : Inv grace t := by
  obtain ⟨c,hc,rfl⟩ := Option.map_eq_some_iff.mp ht
  have hisSome : ∀ b, (update s.blobs a (some s.now) b).isSome=(s.blobs b).isSome := by
    intro b
    by_cases hb : b=a <;> simp [hb,hc]
  have ho : Older s { s with blobs := update s.blobs a (some s.now) } := by
    refine ⟨rfl,?_,fun _ h => h,fun _ h => h⟩
    intro b d hd
    by_cases hb : b=a
    · subst hb
      exact ⟨s.now,by simp,h.clock b d hd⟩
    · exact ⟨d,by simpa [hb] using hd,Nat.le_refl d⟩
  refine h.grow ho (fun b => (h.bytes b).trans (hisSome b).symm) ?_
    (fun f hf hnew => absurd hf hnew) h.attached h.jobs (fun a u hu hnew => absurd hu hnew)
    (fun _ h => h) (fun ans hans hnew => absurd hans hnew) rfl
  intro b d hd
  by_cases hb : b=a
  · have hd : s.now=d := by simpa [hb] using hd
    exact Nat.le_of_eq hd.symm
  · exact h.clock b d (by simpa [hb] using hd)

theorem write_inv (h : Inv grace s) {started : Nat} (hle : started ≤ s.now) :
    Inv grace (write s a started) := by
  have ho : Older s (write s a started) := by
    refine ⟨rfl,?_,fun _ h => h,fun _ h => h⟩
    intro b d hd
    refine ⟨d,?_,Nat.le_refl d⟩
    by_cases hb : b=a
    · subst hb
      simp [write,hd]
    · simpa [write,hb] using hd
  refine h.grow ho ?_ ?_ (fun f hf hnew => absurd hf hnew) h.attached h.jobs
    (fun a u hu hnew => absurd hu hnew) (fun _ h => h) (fun ans hans hnew => absurd hans hnew) rfl
  · intro b
    by_cases hb : b=a
    · subst hb
      cases hc : s.blobs b <;> simp [write,hc]
    · simpa [write,hb] using h.bytes b
  · intro b d hd
    by_cases hb : b=a
    · subst hb
      cases hc : s.blobs b with
      | none =>
        have hd : started=d := by simpa [write,hc] using hd
        exact hd ▸ hle
      | some c =>
        have hd : c=d := by simpa [write,hc] using hd
        exact hd ▸ h.clock b c hc
    · exact h.clock b d (by simpa [write,hb] using hd)

theorem noteHolder_inv (h : Inv grace s) {u : Int} (hstored : (s.blobs a).isSome=true) :
    Inv grace { s with holders := if (a,u)∈s.holders then s.holders else s.holders++[(a,u)] } := by
  refine h.grow (.of_rows rfl rfl ?_ (fun _ h => h)) h.bytes h.clock
    (fun f hf hnew => absurd hf hnew) h.attached h.jobs ?_ (fun _ h => h)
    (fun ans hans hnew => absurd hans hnew) rfl
  · intro p hp
    change p∈if (a,u)∈s.holders then s.holders else s.holders++[(a,u)]
    split_ifs
    · exact hp
    · exact List.mem_append_left _ hp
  · intro b v hv hnew
    change (b,v)∈if (a,u)∈s.holders then s.holders else s.holders++[(a,u)] at hv
    split_ifs at hv
    · exact absurd hv hnew
    · have hb : (b,v)=(a,u) := by simpa using (List.mem_append.mp hv).resolve_left hnew
      cases hb
      exact hstored

theorem holderOf_mem {actor u : Int} (h : holderOf dir s actor a=some u) : (a,u)∈s.holders := by
  have := List.find?_some h
  simpa using this

theorem missingChunks_inv (h : Inv grace s) {actor : Int} {addresses : List String} :
    Inv grace { s with answers := s.answers++presentChunks dir s actor addresses } := by
  refine h.grow (.of_rows rfl rfl (fun _ h => h) (fun _ h => h)) h.bytes h.clock
    (fun f hf hnew => absurd hf hnew) h.attached h.jobs (fun a u hu hnew => absurd hu hnew)
    (fun _ h => h) ?_ rfl
  intro ans hans hnew
  have hans := (List.mem_append.mp hans).resolve_left hnew
  obtain ⟨a,-,ha⟩ := List.mem_filterMap.mp hans
  obtain ⟨u,hu,ha⟩ := Option.bind_eq_some_iff.mp ha
  obtain ⟨c,hc,rfl⟩ := Option.map_eq_some_iff.mp ha
  refine ⟨c,hc,Nat.le_refl c,?_⟩
  intro v hv
  cases hv
  exact holderOf_mem hu

theorem insertFile_inv (h : Inv grace s) {addresses : List String}
    (ht : insertFile s addresses=.ok t) : Inv grace t := by
  unfold insertFile at ht
  split_ifs at ht with hall
  cases ht
  refine h.grow (.of_rows rfl rfl (fun _ h => h) (fun f hf => List.mem_append_left _ hf)) h.bytes
    h.clock ?_ h.attached h.jobs (fun a u hu hnew => absurd hu hnew) (fun _ h => h)
    (fun ans hans hnew => absurd hans hnew) rfl
  intro f hf hnew b hb
  have hf : f=⟨s.nextFile,s.now,addresses⟩ := by
    simpa using (List.mem_append.mp hf).resolve_left hnew
  subst hf
  exact List.all_eq_true.mp hall b hb

theorem fileCreate_inv (h : Inv grace s) {actor : Int} {input : FileInput}
    (ht : fileCreate dir s actor input=.ok t) : Inv grace t := by
  unfold fileCreate at ht
  obtain ⟨-,-,ht⟩ := bind_ok ht
  obtain ⟨-,-,ht⟩ := bind_ok ht
  exact insertFile_inv h ht

/-- The callers that only write rows of attachments and jobs. -/
theorem Inv.rows (h : Inv grace s) {attachments : List Attachment} {next : Int} {jobs : List Int}
    (hattached : ∀ a∈attachments, ∀ f, a.names f=true → hasFile s f=true)
    (hjobs : ∀ f∈jobs, hasFile s f=true) :
    Inv grace { s with attachments := attachments, nextAttachment := next, importJobs := jobs } :=
  ⟨h.bytes,h.clock,h.chunks,hattached,hjobs,h.holders,h.published,h.answers,h.sweeps⟩

theorem names_iff {b : Attachment} {f : Int} :
    b.names f=true↔b.fileId=f∨b.thumbFileId=some f := by simp [Attachment.names]

theorem attach_inv (h : Inv grace s) {f : Int} (hf : hasFile s f=true) :
    Inv grace { s with attachments := s.attachments++[⟨s.nextAttachment,f,none,false⟩],
                       nextAttachment := s.nextAttachment+1 } := by
  apply h.rows ?_ h.jobs
  intro b hb g hg
  rcases List.mem_append.mp hb with hb|hb
  · exact h.attached b hb g hg
  · have hb : b=⟨s.nextAttachment,f,none,false⟩ := by simpa using hb
    subst hb
    have hg : f=g := by simpa [names_iff] using hg
    exact hg ▸ hf

theorem setThumb_inv (h : Inv grace s) {id f : Int} (hf : hasFile s f=true) :
    Inv grace { s with attachments := s.attachments.map fun a =>
      if a.id=id then { a with thumbFileId := some f } else a } := by
  apply h.rows ?_ h.jobs
  intro b hb g hg
  obtain ⟨c,hc,rfl⟩ := List.mem_map.mp hb
  split_ifs at hg
  · rcases names_iff.mp hg with hg|hg
    · exact h.attached c hc g (names_iff.mpr (.inl hg))
    · exact Option.some.inj hg ▸ hf
  · exact h.attached c hc g hg

theorem detach_inv (h : Inv grace s) {id : Int} :
    Inv grace { s with attachments := s.attachments.map fun a =>
      if a.id=id then { a with deleted := true } else a } := by
  apply h.rows ?_ h.jobs
  intro b hb g hg
  obtain ⟨c,hc,rfl⟩ := List.mem_map.mp hb
  split_ifs at hg <;> exact h.attached c hc g hg

theorem importJob_inv (h : Inv grace s) {f : Int} (hf : hasFile s f=true) :
    Inv grace { s with importJobs := s.importJobs++[f] } := by
  apply h.rows h.attached
  intro g hg
  rcases List.mem_append.mp hg with hg|hg
  · exact h.jobs g hg
  · have hg : g=f := by simpa using hg
    exact hg ▸ hf

/-- The blob named is younger than the cutoff of any pass under way. -/
theorem publish_inv (h : Inv grace s) {ans : Answer} (hans : ans∈s.answers)
    (hfresh : ans.Fresh grace s) : Inv grace { s with published := s.published++[ans.address] } := by
  obtain ⟨c,hc,hle,-⟩ := h.answers ans hans hfresh
  refine ⟨h.bytes,h.clock,h.chunks,h.attached,h.jobs,h.holders,?_,h.answers,?_⟩
  · intro b hb
    rcases List.mem_append.mp hb with hb|hb
    · exact h.published b hb
    · have hb : b=ans.address := by simpa using hb
      simp [hb,hc]
  · intro r
    have hr := h.sweeps r
    change SweepInv grace _ (s.sweep r)
    cases hp : s.sweep r with
    | idle => trivial
    | sweeping since keys =>
      rw [hp] at hr
      exact hr
    | locked since k keys =>
      rw [hp] at hr
      refine ⟨hr.1,?_⟩
      intro b hk hb
      rcases List.mem_append.mp hb with hb|hb
      · exact hr.2 b hk hb
      · have hb : b=ans.address := by simpa using hb
        refine ⟨c,hb ▸ hc,?_⟩
        have hsince := hr.1
        unfold Answer.Fresh at hfresh
        omega

theorem unpublish_inv (h : Inv grace s) : Inv grace { s with published := s.published.erase a } := by
  have hsub : ∀ b∈s.published.erase a, b∈s.published := fun b hb => List.mem_of_mem_erase hb
  exact h.grow (.of_rows rfl rfl (fun _ h => h) (fun _ h => h)) h.bytes h.clock
    (fun f hf hnew => absurd hf hnew) h.attached h.jobs (fun a u hu hnew => absurd hu hnew)
    hsub (fun ans hans hnew => absurd hans hnew) rfl

theorem setSweep_inv (h : Inv grace s) {p : Sweep} (hp : SweepInv grace s p) :
    Inv grace { s with sweep := update s.sweep r p } := by
  refine ⟨h.bytes,h.clock,h.chunks,h.attached,h.jobs,h.holders,h.published,h.answers,?_⟩
  intro q
  have hsame : SweepInv grace s (update s.sweep r p q) := by
    by_cases hq : q=r
    · simpa [hq] using hp
    · simpa [hq] using h.sweeps q
  change SweepInv grace _ (update s.sweep r p q)
  cases hup : update s.sweep r p q <;> rw [hup] at hsame <;> exact hsame

theorem old_iff {since : Nat} {k : Key} : old s grace since k=true↔
    ∃ c, createdAt s k=some c∧c+grace < since := by
  cases hc : createdAt s k <;> simp [old,hc]

theorem look_inv (h : Inv grace s) {since : Nat} {k : Key} {keys : List Key}
    (hp : s.sweep r=.sweeping since (k::keys)) :
    SweepInv grace s (if orphan s grace since k then .locked since k keys
      else .sweeping since keys) := by
  have hsince : SweepInv grace s (.sweeping since (k::keys)) := hp ▸ h.sweeps r
  split_ifs with ho
  · refine ⟨hsince,?_⟩
    intro a hk ha
    subst hk
    have hunused := (Bool.and_eq_true_iff.mp ho).2
    simp only [unused,Bool.and_eq_true,Bool.not_eq_true',List.any_eq_false] at hunused
    exact absurd (hunused.2 a ha) (by simp)
  · exact hsince

theorem dropFile_inv (h : Inv grace s) {f : Int} (ht : dropFile s f=some t) :
    Inv grace t∧t.now=s.now∧t.sweep=s.sweep := by
  unfold dropFile at ht
  simp only [Option.ite_none_left_eq_some,Bool.or_eq_true,List.any_eq_true,not_or,
    not_exists,not_and,Option.some.injEq] at ht
  obtain ⟨⟨hattached,hjobs⟩,rfl⟩ := ht
  have hkeep : ∀ g, g≠f → hasFile s g=true →
      (s.files.filter (·.id≠f)).any (·.id=g)=true := by
    intro g hg hfile
    obtain ⟨x,hx,hid⟩ := List.any_eq_true.mp hfile
    have hid : x.id=g := by simpa using hid
    exact List.any_eq_true.mpr ⟨x,List.mem_filter.mpr ⟨hx,by simp [hid,hg]⟩,by simp [hid]⟩
  refine ⟨⟨h.bytes,h.clock,?_,?_,?_,h.holders,h.published,h.answers,h.sweeps⟩,rfl,rfl⟩
  · intro g hg
    exact h.chunks g (List.mem_filter.mp hg).1
  · intro b hb g hg
    have hne : g≠f := by
      rintro rfl
      exact hattached b hb hg
    exact hkeep g hne (h.attached b (List.mem_filter.mp hb).1 g hg)
  · intro g hg
    have hne : g≠f := by
      rintro rfl
      exact hjobs g hg (by simp)
    exact hkeep g hne (h.jobs g hg)

/-- Past the grace period of its clock no answer about it is fresh. -/
theorem dropBlob_inv (h : Inv grace s) {since : Nat} (hsince : since ≤ s.now)
    (hold : old s grace since (.blob a)=true) (hpub : a∉s.published)
    (ht : dropBlob s a=some t) : Inv grace t∧t.now=s.now∧t.sweep=s.sweep := by
  obtain ⟨c,hc,hlt⟩ := old_iff.mp hold
  have hc : s.blobs a=some c := hc
  unfold dropBlob at ht
  simp only [Option.ite_none_left_eq_some,List.any_eq_true,not_exists,not_and,
    Option.some.injEq] at ht
  obtain ⟨hchunks,rfl⟩ := ht
  have hother : ∀ b, b≠a → update s.blobs a none b=s.blobs b := by
    intro b hb
    simp [hb]
  refine ⟨⟨?_,?_,?_,h.attached,h.jobs,?_,?_,?_,?_⟩,rfl,rfl⟩
  · intro b
    by_cases hb : b=a
    · simp [hb]
    · simpa [hb] using h.bytes b
  · intro b d hd
    by_cases hb : b=a
    · simp [hb] at hd
    · exact h.clock b d (by simpa [hb] using hd)
  · intro f hf b hb
    have hne : b≠a := by
      rintro rfl
      exact hchunks f hf b hb (by simp)
    change (update s.blobs a none b).isSome=true
    rw [hother b hne]
    exact h.chunks f hf b hb
  · intro b u hu
    obtain ⟨hu,hne⟩ := List.mem_filter.mp hu
    change (update s.blobs a none b).isSome=true
    rw [hother b (by simpa using hne)]
    exact h.holders b u hu
  · intro b hb
    have hne : b≠a := fun heq => hpub (heq ▸ hb)
    change (update s.blobs a none b).isSome=true
    rw [hother b hne]
    exact h.published b hb
  · intro ans hans hfresh
    have hfresh : s.now ≤ ans.clock+grace := hfresh
    obtain ⟨d,hd,hle,hholder⟩ := h.answers ans hans hfresh
    have hne : ans.address≠a := by
      intro heq
      have hcd : c=d := Option.some.inj (hc.symm.trans (heq ▸ hd))
      omega
    refine ⟨d,by simpa [hne] using hd,hle,?_⟩
    intro u hu
    exact List.mem_filter.mpr ⟨hholder u hu,by simpa using hne⟩
  · intro q
    have hq := h.sweeps q
    change SweepInv grace _ (s.sweep q)
    cases hp : s.sweep q with
    | idle => trivial
    | sweeping n keys =>
      rw [hp] at hq
      exact hq
    | locked n k keys =>
      rw [hp] at hq
      refine ⟨hq.1,?_⟩
      intro b hk hb
      have hne : b≠a := fun heq => hpub (heq ▸ hb)
      obtain ⟨d,hd,hle⟩ := hq.2 b hk hb
      exact ⟨d,by simpa [hne] using hd,hle⟩

theorem dropRow_inv (h : Inv grace s) {since : Nat} {k : Key} {keys : List Key}
    (hp : s.sweep r=.locked since k keys) (hold : old s grace since k=true)
    (ht : dropRow s k=some t) : Inv grace t∧t.now=s.now∧t.sweep=s.sweep := by
  have hlocked : SweepInv grace s (.locked since k keys) := hp ▸ h.sweeps r
  cases k with
  | file f => exact dropFile_inv h ht
  | blob a =>
    have hpub : a∉s.published := by
      intro ha
      obtain ⟨c,hc,hle⟩ := hlocked.2 a rfl ha
      obtain ⟨d,hd,hlt⟩ := old_iff.mp hold
      have hcd : c=d := Option.some.inj (hc.symm.trans hd)
      omega
    exact dropBlob_inv h hlocked.1 hold hpub ht

theorem drop_inv (h : Inv grace s) {since : Nat} {k : Key} {keys : List Key}
    (hp : s.sweep r=.locked since k keys)
    (ht : t=if old s grace since k then (dropRow s k).getD s else s) :
    Inv grace { t with sweep := update s.sweep r (.sweeping since keys) } := by
  have hlocked : SweepInv grace s (.locked since k keys) := hp ▸ h.sweeps r
  have hkept : Inv grace t∧t.now=s.now∧t.sweep=s.sweep := by
    subst ht
    split_ifs with hold
    · cases hrow : dropRow s k with
      | none => exact ⟨h,rfl,rfl⟩
      | some u => exact dropRow_inv h hp hold hrow
    · exact ⟨h,rfl,rfl⟩
  obtain ⟨hi,hnow,hsweep⟩ := hkept
  rw [← hsweep]
  apply setSweep_inv hi
  change since ≤ t.now
  rw [hnow]
  exact hlocked.1

theorem refused_inv (h : Inv grace s) {x : Except Refusal State} (hx : ∀ t, x=.ok t → Inv grace t) :
    Inv grace (x.toOption.getD s) := by
  cases x with
  | error e => exact h
  | ok t => exact hx t rfl

theorem step_inv (h : Inv grace s) {e : Event} (hin : InGrace grace s e)
    (hs : step dir grace s e=some t) : Inv grace t := by
  cases e with
  | advance n =>
    simp only [step,Option.ite_none_right_eq_some,Option.some.injEq] at hs
    obtain ⟨hle,rfl⟩ := hs
    exact advance_inv h hle
  | has p a =>
    simp only [step] at hs
    split at hs
    · cases hs
      exact put_inv h _
    · cases hs
  | touch p =>
    simp only [step] at hs
    split at hs
    · rename_i a hp
      cases ht : touch s a with
      | some u =>
        simp only [ht,Option.some.injEq] at hs
        subst hs
        exact put_inv (answer_inv (touch_inv h ht) (by simp)) _
      | none =>
        simp only [ht,Option.some.injEq] at hs
        subst hs
        exact put_inv h _
    · cases hs
  | write p started =>
    simp only [step] at hs
    split at hs
    · simp only [Option.ite_none_right_eq_some,Option.some.injEq] at hs
      obtain ⟨hle,rfl⟩ := hs
      exact put_inv (answer_inv (write_inv h hle) (by simp)) _
    · cases hs
  | giveUp p =>
    cases hs
    exact put_inv h _
  | noteHolder u a =>
    simp only [step] at hs
    by_cases hstored : (s.blobs a).isSome=true
    · rw [if_pos hstored] at hs
      cases hs
      apply answer_inv (noteHolder_inv h hstored)
      intro v hv
      cases hv
      change (a,u)∈if (a,u)∈s.holders then s.holders else s.holders++[(a,u)]
      split_ifs with hmem
      · exact hmem
      · simp
    · rw [if_neg hstored] at hs
      cases hs
      exact h
  | missingChunks actor addresses =>
    cases hs
    exact missingChunks_inv h
  | fileCreate actor input =>
    cases hs
    exact refused_inv h fun t ht => fileCreate_inv h ht
  | storeFile a =>
    cases hs
    exact refused_inv h fun t ht => insertFile_inv h ht
  | attach f =>
    simp only [step] at hs
    split_ifs at hs with hf <;> cases hs
    · exact attach_inv h hf
    · exact h
  | setThumb id f =>
    simp only [step] at hs
    split_ifs at hs with hf <;> cases hs
    · exact setThumb_inv h hf
    · exact h
  | detach id =>
    cases hs
    exact detach_inv h
  | importJob f =>
    simp only [step] at hs
    split_ifs at hs with hf <;> cases hs
    · exact importJob_inv h hf
    · exact h
  | publish a =>
    cases hs
    obtain ⟨ans,hans,rfl,hfresh⟩ := hin
    exact publish_inv h hans hfresh
  | unpublish a =>
    cases hs
    exact unpublish_inv h
  | sweep r keys =>
    simp only [step] at hs
    split at hs
    · simp only [Option.ite_none_right_eq_some,Option.some.injEq] at hs
      obtain ⟨-,rfl⟩ := hs
      exact setSweep_inv h (Nat.le_refl _)
    · cases hs
  | look r =>
    simp only [step] at hs
    split at hs
    · rename_i since k keys hp
      cases hs
      exact setSweep_inv h (look_inv h hp)
    · cases hs
  | drop r =>
    simp only [step] at hs
    split at hs
    · rename_i since k keys hp
      cases hs
      exact drop_inv h hp rfl
    · cases hs
  | stop r =>
    cases hs
    exact setSweep_inv h trivial

theorem run_inv {es : List Event} (h : Run (step dir grace) (InGrace grace) s es t)
    (hi : Inv grace s) : Inv grace t :=
  h.inv (Inv grace) (fun _ _ _ hi hin hs => step_inv hi hin hs) hi

/-- The row and the bytes are there. -/
def Stored (s : State) (a : String) : Prop := (s.blobs a).isSome=true∧s.bytes a=true

/-- Every live reference finds its bytes. -/
structure Kept (s : State) : Prop where
  chunks : ∀ f∈s.files, ∀ a∈f.chunks, Stored s a
  attached : ∀ a∈s.attachments, a.deleted=false → ∀ f, a.names f=true → ∃ g∈s.files, g.id=f
  published : ∀ a∈s.published, Stored s a

theorem Inv.stored (h : Inv grace s) (ha : (s.blobs a).isSome=true) : Stored s a :=
  ⟨ha,(h.bytes a).trans ha⟩

theorem Inv.kept (h : Inv grace s) : Kept s where
  chunks f hf a ha := h.stored (h.chunks f hf a ha)
  attached a ha _ f hn := by simpa [hasFile] using h.attached a ha f hn
  published a ha := h.stored (h.published a ha)

theorem Inv.fresh_stored (h : Inv grace s) {ans : Answer} (hans : ans∈s.answers)
    (hfresh : ans.Fresh grace s) : Stored s ans.address := by
  obtain ⟨c,hc,-⟩ := h.answers ans hans hfresh
  exact h.stored (by simp [hc])

theorem insertFile_ok {addresses : List String} (h : ∀ a∈addresses, (s.blobs a).isSome=true) :
    ∃ t, insertFile s addresses=.ok t := by
  unfold insertFile
  rw [if_pos (List.all_eq_true.mpr h)]
  exact ⟨_,rfl⟩

theorem holderOf_isSome {actor u : Int} (hu : u∈readerPrincipals dir actor)
    (h : (a,u)∈s.holders) : (holderOf dir s actor a).isSome=true := by
  rw [holderOf,List.find?_isSome]
  exact ⟨u,hu,by simpa using h⟩

theorem checkHeld_ok {actor : Int} {chunks : List Chunk}
    (h : ∀ c∈chunks, (holderOf dir s actor c.address).isSome=true) :
    checkHeld dir s actor chunks=.ok () := by
  have hnone : (chunks.zipIdx.find? fun c => (holderOf dir s actor c.1.address).isNone)=none := by
    rw [List.find?_eq_none]
    intro c hc hmissing
    have hmem : c.1∈chunks := by
      have := List.mem_map_of_mem (f := Prod.fst) hc
      simpa using this
    have hheld := h c.1 hmem
    simp [Option.isNone_iff_eq_none.mp hmissing] at hheld
  simp [checkHeld,hnone]

theorem Inv.fileCreate_ok (h : Inv grace s) {actor : Int} {input : FileInput}
    (hinput : checkFile input=.ok ())
    (htold : ∀ c∈input.chunks, ∃ ans∈s.answers, ans.address=c.address∧ans.Fresh grace s∧
      ∃ u∈readerPrincipals dir actor, ans.holder=some u) :
    ∃ t, fileCreate dir s actor input=.ok t := by
  have hheld : checkHeld dir s actor input.chunks=.ok () := by
    apply checkHeld_ok
    intro c hc
    obtain ⟨ans,hans,haddr,hfresh,u,hu,hholder⟩ := htold c hc
    obtain ⟨-,-,-,hrow⟩ := h.answers ans hans hfresh
    exact holderOf_isSome hu (haddr ▸ hrow u hholder)
  have hblobs : ∀ a∈input.chunks.map (·.address), (s.blobs a).isSome=true := by
    intro a ha
    obtain ⟨c,hc,rfl⟩ := List.mem_map.mp ha
    obtain ⟨ans,hans,haddr,hfresh,-⟩ := htold c hc
    exact haddr ▸ (h.fresh_stored hans hfresh).1
  obtain ⟨t,ht⟩ := insertFile_ok hblobs
  refine ⟨t,?_⟩
  simp only [fileCreate,hinput,hheld]
  exact ht

/-- While references are made in the grace period of the clock an answer was given at, no
live reference loses its bytes and none that rests on an answer is refused. -/
theorem bytes_stay {es : List Event} (h : Run (step dir grace) (InGrace grace) start es s) :
    Kept s∧
      (∀ ans∈s.answers, ans.Fresh grace s →
        Stored s ans.address∧∃ t, insertFile s [ans.address]=.ok t)∧
      ∀ actor input, checkFile input=.ok () →
        (∀ c∈input.chunks, ∃ ans∈s.answers, ans.address=c.address∧ans.Fresh grace s∧
          ∃ u∈readerPrincipals dir actor, ans.holder=some u) →
        ∃ t, fileCreate dir s actor input=.ok t := by
  have hi := run_inv h inv_start
  refine ⟨hi.kept,?_,fun _ _ hinput htold => hi.fileCreate_ok hinput htold⟩
  intro ans hans hfresh
  have hstored := hi.fresh_stored hans hfresh
  exact ⟨hstored,insertFile_ok (by simpa using hstored.1)⟩

/-- Someone who sends bytes. -/
def sender : Directory := ⟨[⟨5,none,false⟩],[],[],[]⟩

def upload : List Event := [.has 0 "ab",.write 0 0,.noteHolder 5 "ab"]

/-- A page that shows them, an hour later. -/
theorem published_kept : ∃ s, s.published=["ab"]∧Kept s := by
  have hend : ((upload++[Event.advance 3600]).foldlM (step sender 3600) start).map
      (fun s => (s.now,s.answers,s.published))=
        some (3600,[⟨"ab",0,0,none⟩,⟨"ab",0,0,some 5⟩],[]) := rfl
  obtain ⟨s,hs,hend⟩ := Option.map_eq_some_iff.mp hend
  obtain ⟨hnow,hanswers,hpublished⟩ : s.now=3600∧
      s.answers=[⟨"ab",0,0,none⟩,⟨"ab",0,0,some 5⟩]∧s.published=[] := by simpa using hend
  have hrun : Run (step sender 3600) (InGrace 3600) start (upload++[Event.advance 3600]) s :=
    Run.of_foldlM hs (by simp [upload,InGrace])
  have hfresh : InGrace 3600 s (.publish "ab") :=
    ⟨⟨"ab",0,0,none⟩,by simp [hanswers],rfl,by simp [Answer.Fresh,hnow]⟩
  have hpublish := hrun.snoc hfresh (u := { s with published := s.published++["ab"] }) rfl
  exact ⟨_,by simp [hpublished],(bytes_stay hpublish).1⟩

/-- The reference comes in the grace period after its answer. -/
def SoonTold (grace : Nat) (s : State) : Event → Prop
  | .publish a => ∃ ans∈s.answers, ans.address=a∧s.now ≤ ans.since+grace
  | _ => True

def reaped : List Event :=
  [.advance 3601,.missingChunks 5 ["ab"],.sweep 0 [.blob "ab"],.look 0,.drop 0]

/-- `cas.missing_chunks` answers, and a pass drops the bytes at the same moment. -/
theorem told_and_gone : ∃ s, Run (step sender 3600) (SoonTold 3600) start (upload++reaped) s∧
    (∃ ans∈s.answers, ans.address="ab"∧ans.since=s.now)∧¬Stored s "ab"∧
    fileCreate sender s 5 ⟨"a.txt",[⟨"ab","2"⟩]⟩=.error (notUploaded 0 "ab") := by
  have hend : ((upload++reaped).foldlM (step sender 3600) start).map
      (fun s => (s.now,s.answers,s.blobs "ab",s.holders))=
        some (3601,[⟨"ab",0,0,none⟩,⟨"ab",0,0,some 5⟩,⟨"ab",0,3601,some 5⟩],none,[]) := rfl
  obtain ⟨s,hs,hend⟩ := Option.map_eq_some_iff.mp hend
  obtain ⟨hnow,hanswers,hgone,hholders⟩ : s.now=3601∧
      s.answers=[⟨"ab",0,0,none⟩,⟨"ab",0,0,some 5⟩,⟨"ab",0,3601,some 5⟩]∧
      s.blobs "ab"=none∧s.holders=[] := by simpa using hend
  refine ⟨s,Run.of_foldlM hs (by simp [upload,reaped,SoonTold]),?_,?_,?_⟩
  · exact ⟨⟨"ab",0,3601,some 5⟩,by simp [hanswers],rfl,hnow.symm⟩
  · simp [Stored,hgone]
  · have hinput : checkFile ⟨"a.txt",[⟨"ab","2"⟩]⟩=.ok () := rfl
    simp only [fileCreate,hinput]
    simp [checkHeld,holderOf,hholders]
    rfl

end Kitp.Cas
