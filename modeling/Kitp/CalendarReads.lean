import Kitp.Lib.Bounded
import Kitp.CalendarFolds
import Mathlib.Data.List.TakeWhile

/-! A whole feed: what its reader gets is what was written, whatever the texts. -/
namespace Kitp.CalendarFeeds

open Kitp.Utf8

variable {r : Request} {title : Bytes} {evs : List Event} {e : Event} {entry : Entry}
  {entries : List Entry} {turns n : Nat} {s rest : Bytes} {chunks : List Bytes}

/-- Nothing in an entry breaks its line, and its name is one. -/
structure Entry.Sound (entry : Entry) : Prop where
  line : Single entry.line
  named : entry.name≠[]
  begins : Begins entry.name
  colon : ∀ b∈entry.name, b≠0x3A

theorem Entry.Sound.nonempty (h : entry.Sound) : entry.line≠[] := by
  obtain ⟨b,name,hname⟩ := List.exists_cons_of_ne_nil h.named
  unfold Entry.line
  rw [hname]
  exact List.cons_ne_nil _ _

theorem Entry.Sound.line_begins (h : entry.Sound) : Begins entry.line := by
  obtain ⟨b,name,hname⟩ := List.exists_cons_of_ne_nil h.named
  intro x hx
  unfold Entry.line at hx
  rw [hname] at hx
  have hbegins := h.begins x
  rw [hname] at hbegins
  exact hbegins hx

/-- The reader's name and value are those written. -/
theorem Entry.Sound.reads (h : entry.Sound) : readProp entry.line=(entry.name,entry.value) := by
  have hname : ∀ b∈entry.name, decide (b≠0x3A)=true := fun b hb => decide_eq_true (h.colon b hb)
  unfold readProp Entry.line
  rw [List.append_assoc,List.takeWhile_append_of_pos hname,List.dropWhile_append_of_pos hname]
  simp

/-- The pieces of each entry's line. -/
def Pieces (entries : List Entry) (css : List (List Bytes)) : Prop :=
  List.Forall₂ (fun entry chunks => Folds 75 entry.line chunks) entries css

theorem write_spec (h : entry.Sound) : ∃ chunks, Folds 75 entry.line chunks∧
    ∀ turns, entry.line.length < turns → ∀ w, write turns w entry=some ⟨w.b++folded chunks⟩ := by
  obtain ⟨chunks,hfolds,hrun⟩ := fold_spec h.line.valid (by omega : 4≤75)
  refine ⟨chunks,hfolds,?_⟩
  intro turns hturns w
  have hwrite : write turns w entry=line turns w entry.line := by cases entry <;> rfl
  rw [hwrite,line,hrun turns hturns]
  rfl

/-- The loop of `render` ends, whatever more turns its lines may take. -/
theorem writes_spec (h : ∀ entry∈entries, entry.Sound) : ∃ css, Pieces entries css∧
    ∀ turns, (∀ entry∈entries, entry.line.length < turns) → ∀ w,
      entries.foldlM (write turns) w=some ⟨w.b++css.flatMap folded⟩ := by
  induction entries with
  | nil =>
    refine ⟨[],List.Forall₂.nil,?_⟩
    intro turns _ w
    rw [List.flatMap_nil,List.append_nil]
    rfl
  | cons entry entries ih =>
    obtain ⟨hentry,hentries⟩ := List.forall_mem_cons.mp h
    obtain ⟨chunks,hfolds,hwrite⟩ := write_spec hentry
    obtain ⟨css,hpieces,hwrites⟩ := ih hentries
    refine ⟨chunks::css,List.Forall₂.cons hfolds hpieces,?_⟩
    intro turns hturns w
    obtain ⟨hturn,hmore⟩ := List.forall_mem_cons.mp hturns
    rw [List.foldlM_cons,hwrite turns hturn w]
    show entries.foldlM (write turns) ⟨w.b++folded chunks⟩=_
    rw [hwrites turns hmore,List.flatMap_cons]
    dsimp only
    rw [List.append_assoc]

/-- No piece of a line has a break in it. -/
theorem Folds.unbroken {limit : Nat} (h : Folds limit s chunks) (hs : Single s) :
    ∀ c∈chunks, ∀ b∈c, b≠0x0D∧b≠0x0A := by
  intro c hc b hb
  refine hs.unbroken b ?_
  rw [← h.all]
  exact List.mem_flatten.mpr ⟨c,hc,hb⟩

/-- A folded line begins as the line does. -/
theorem Folds.begins {limit : Nat} (h : Folds limit s chunks) (hne : s≠[]) (hs : Begins s) :
    Begins (folded chunks++rest) := by
  obtain ⟨c,cs,rfl⟩ := List.exists_cons_of_ne_nil h.nonempty
  obtain ⟨b,c',rfl⟩ := List.exists_cons_of_ne_nil (h.start c rfl hne)
  have hhead : s.head?=some b := by
    rw [← h.all,List.flatten_cons]
    rfl
  intro x hx
  refine hs x ?_
  have hfirst : (folded ((b::c')::cs)++rest).head?=some b := by
    cases cs <;> rfl
  rw [hhead,← hfirst]
  exact hx

theorem pieces_begin {css : List (List Bytes)} (h : Pieces entries css)
    (hs : ∀ entry∈entries, entry.Sound) : Begins (css.flatMap folded) := by
  cases h with
  | nil => exact fun b hb => absurd hb (Option.not_mem_none b)
  | cons hfolds _ =>
    have hentry := hs _ List.mem_cons_self
    rw [List.flatMap_cons]
    exact hfolds.begins hentry.nonempty hentry.line_begins

/-- Unfolding gives back the lines written, and no other. -/
theorem reads_lines {css : List (List Bytes)} (h : Pieces entries css)
    (hs : ∀ entry∈entries, entry.Sound) :
    physicalLines (unfold (css.flatMap folded))=entries.map Entry.line := by
  induction h with
  | nil => rfl
  | cons hfolds hrest ih =>
    obtain ⟨hentry,hentries⟩ := List.forall_mem_cons.mp hs
    have hunbroken := hfolds.unbroken hentry.line
    rw [List.flatMap_cons,unfold_folded hfolds.nonempty (fun c hc b hb => (hunbroken c hc b hb).1)
      (pieces_begin hrest hentries),hfolds.all,List.append_assoc]
    show physicalLines (_++0x0D::0x0A::unfold _)=_
    rw [physicalLines_line (fun b hb => (hentry.line.unbroken b hb).1),ih hentries,List.map_cons]

/-- A physical line as the standard wants it. -/
structure Physical (l : Bytes) : Prop where
  short : l.length≤75
  single : Single l

theorem Folds.physical (h : Folds 75 s chunks) (hs : Single s) :
    ∀ l∈chunks.take 1++chunks.tail.map (0x20::·), Physical l := by
  obtain ⟨c,cs,rfl⟩ := List.exists_cons_of_ne_nil h.nonempty
  have hunbroken := h.unbroken hs
  intro l hl
  cases List.mem_append.mp hl with
  | inl hfirst =>
    have hlc : l=c := List.mem_singleton.mp hfirst
    subst hlc
    exact ⟨h.first l rfl,h.valid l List.mem_cons_self,hunbroken l List.mem_cons_self⟩
  | inr hmore =>
    obtain ⟨d,hd,rfl⟩ := List.mem_map.mp hmore
    have hin : d∈c::cs := List.mem_cons_of_mem _ hd
    refine ⟨?_,(h.valid d hin).cons_ascii (by decide),?_⟩
    · rw [List.length_cons]
      exact Nat.succ_le_succ (h.more d hd)
    · exact List.forall_mem_cons.mpr ⟨by decide,hunbroken d hin⟩

theorem physical_lines {css : List (List Bytes)} (h : Pieces entries css)
    (hs : ∀ entry∈entries, entry.Sound) :
    ∀ l∈physicalLines (css.flatMap folded), Physical l := by
  induction h with
  | nil => exact fun l hl => absurd hl List.not_mem_nil
  | cons hfolds hrest ih =>
    obtain ⟨hentry,hentries⟩ := List.forall_mem_cons.mp hs
    have hunbroken := hfolds.unbroken hentry.line
    intro l hl
    rw [List.flatMap_cons,
      physicalLines_folded hfolds.nonempty (fun c hc b hb => (hunbroken c hc b hb).1)] at hl
    cases List.mem_append.mp hl with
    | inl hmine => exact hfolds.physical hentry.line l hmine
    | inr hother => exact ih hentries l hother

theorem lit_valid (t : String) : Valid (lit t) := ⟨t.toList,rfl⟩

theorem decimal_single (n : Nat) : Single (decimal n) := by
  refine ⟨⟨_,rfl⟩,?_⟩
  intro b hb
  obtain ⟨c,hc,hbyte⟩ := List.mem_flatMap.mp hb
  have hdigit := Nat.isDigit_of_mem_toDigits (by omega) (by omega) hc
  have hascii : ∀ n < 58, ∀ b∈String.utf8EncodeChar (Char.ofNat n), 48≤n → b≠0x0D∧b≠0x0A := by
    decide
  have hzero : '0'.toNat=48 := rfl
  have hnine : '9'.toNat=57 := rfl
  rw [Char.isDigit_iff_toNat] at hdigit
  rw [← Char.ofNat_toNat c] at hbyte
  exact hascii c.toNat (by omega) b hbyte (by omega)

theorem itoa_single (n : Int) : Single (itoa n) := by
  unfold itoa
  split
  · refine ⟨(decimal_single _).valid.cons_ascii (by decide),?_⟩
    exact List.forall_mem_cons.mpr ⟨by decide,(decimal_single _).unbroken⟩
  · exact decimal_single _

theorem pad_single (width n : Nat) : Single (pad width n) := by
  have hzeros : ∀ k, Single (List.replicate k 0x30) := by
    intro k
    induction k with
    | zero => exact ⟨Valid.nil,fun b hb => absurd hb List.not_mem_nil⟩
    | succ k ih =>
      exact ⟨ih.valid.cons_ascii (by decide),List.forall_mem_cons.mpr ⟨by decide,ih.unbroken⟩⟩
  exact (hzeros _).append (decimal_single n)

theorem lit_single {t : String} (h : ∀ b∈lit t, b≠0x0D∧b≠0x0A) : Single (lit t) :=
  ⟨lit_valid t,h⟩

theorem icsDate_single (d : Date) : Single (icsDate d) :=
  ((pad_single _ _).append (pad_single _ _)).append (pad_single _ _)

theorem icsStamp_single (t : Stamp) : Single (icsStamp t) :=
  (((((icsDate_single _).append (lit_single (by decide))).append (pad_single _ _)).append
    (pad_single _ _)).append (pad_single _ _)).append (lit_single (by decide))

/-- The names of the properties a feed has. -/
def headerNames : List String :=
  ["BEGIN","VERSION","PRODID","CALSCALE","METHOD","X-WR-CALNAME","REFRESH-INTERVAL;VALUE=DURATION",
    "X-PUBLISHED-TTL"]

def eventNames : List String :=
  ["BEGIN","UID","DTSTAMP","LAST-MODIFIED","DTSTART;VALUE=DATE","DTEND;VALUE=DATE","SUMMARY",
    "DESCRIPTION","URL","TRANSP","END"]

theorem names_sound : ∀ t∈headerNames++eventNames, lit t≠[]∧
    ∀ b∈lit t, b≠0x3A∧b≠0x20∧b≠0x09∧b≠0x0D∧b≠0x0A := by decide

/-- What `net/http` lets through as a host, and `url.Parse` as the public URL, is on one line. -/
structure Request.Ok (r : Request) : Prop where
  host : Single r.host
  publicURL : Single r.publicURL

def Event.Ok (e : Event) : Prop := Valid e.title∧Valid e.project∧Valid e.status

theorem host_single (h : Single r.host) : Single (r.host.takeWhile (·≠0x3A)) := by
  refine ⟨?_,fun b hb => h.unbroken b ((List.takeWhile_sublist _).subset hb)⟩
  have hsplit : r.host.takeWhile (·≠0x3A)++r.host.dropWhile (·≠0x3A)=r.host :=
    List.takeWhile_append_dropWhile
  refine Valid.before (hsplit.symm ▸ h.valid) ?_
  intro b hb
  have hcolon := List.head?_dropWhile_not (·≠0x3A) r.host
  rw [hb] at hcolon
  have hb' : b=0x3A := by simpa using hcolon
  rw [hb']
  decide

theorem trimRight_single (h : Single s) : Single (trimRight s) := by
  have hsplit : s=trimRight s++(s.reverse.takeWhile (·==0x2F)).reverse := by
    unfold trimRight
    rw [← List.reverse_append,List.takeWhile_append_dropWhile,List.reverse_reverse]
  refine ⟨?_,?_⟩
  · refine Valid.before (hsplit ▸ h.valid) ?_
    intro b hb
    have hin : b∈s.reverse.takeWhile (·==0x2F) := List.mem_reverse.mp (List.mem_of_mem_head? hb)
    have hslash : b=0x2F := by simpa using List.mem_takeWhile_imp hin
    rw [hslash]
    decide
  · intro b hb
    refine h.unbroken b ?_
    rw [hsplit]
    exact List.mem_append_left _ hb

theorem base_single (h : r.Ok) : Single (base r) := by
  unfold base
  split
  · exact trimRight_single h.publicURL
  · refine Single.append (Single.append ?_ (lit_single (by decide))) h.host
    split
    · exact lit_single (by decide)
    · exact lit_single (by decide)

theorem link_single (h : r.Ok) : Single (link r e) :=
  ((base_single h).append (lit_single (by decide))).append (itoa_single _)

theorem summary_valid (h : e.Ok) : Valid (summary e) := by
  have hmain : Valid (lit "#"++itoa e.taskID++lit " "++e.title) :=
    (((lit_valid _).append (itoa_single _).valid).append (lit_valid _)).append h.1
  unfold summary
  dsimp only
  split
  · exact (lit_valid _).append hmain
  · exact hmain

theorem desc_valid (hr : r.Ok) (h : e.Ok) : Valid (desc r e) := by
  have hstatus : Valid (if e.status≠[] then
      (if e.project≠[] then e.project++lit " · " else e.project)++e.status else e.project) := by
    split
    · refine Valid.append ?_ h.2.2
      split
      · exact h.2.1.append (lit_valid _)
      · exact h.2.1
    · exact h.2.1
  have hbreak : ∀ d, Valid d → Valid (if d≠[] then d++lit "\n" else d) := by
    intro d hd
    split
    · exact hd.append (lit_valid _)
    · exact hd
  exact (hbreak _ hstatus).append (link_single hr).valid

theorem entry_sound {t : String} (ht : t∈headerNames++eventNames) (hname : entry.name=lit t)
    (hvalue : Single entry.value) : entry.Sound := by
  obtain ⟨hne,hbytes⟩ := names_sound t ht
  refine ⟨?_,?_,?_,?_⟩
  · have hsingle : Single (lit t) := lit_single fun b hb => (hbytes b hb).2.2.2
    unfold Entry.line
    rw [hname]
    exact (hsingle.append ⟨Valid.nil.cons_ascii (by decide),by decide⟩).append hvalue
  · rwa [hname]
  · intro b hb
    rw [hname] at hb
    have hin := hbytes b (List.mem_of_mem_head? hb)
    exact ⟨hin.2.1,hin.2.2.1⟩
  · intro b hb
    rw [hname] at hb
    exact (hbytes b hb).1

theorem prop_sound {v : Bytes} (t : String) (ht : t∈headerNames++eventNames) (hv : Single v) :
    (Entry.prop (lit t) v).Sound := entry_sound ht rfl hv

theorem text_sound {v : Bytes} (t : String) (ht : t∈headerNames++eventNames) (hv : Valid v) :
    (Entry.text (lit t) v).Sound := entry_sound ht rfl (escape_single hv)

theorem eventEntries_sound (hr : r.Ok) (h : e.Ok) : ∀ entry∈eventEntries r e, entry.Sound := by
  have huid : Single (lit "task-"++itoa e.taskID++lit "@"++r.host.takeWhile (·≠0x3A)) :=
    (((lit_single (by decide)).append (itoa_single _)).append
      (lit_single (by decide))).append (host_single hr.host)
  unfold eventEntries
  simp only [List.forall_mem_cons]
  refine ⟨prop_sound "BEGIN" (by simp [headerNames,eventNames]) (lit_single (by decide)),
    prop_sound "UID" (by simp [headerNames,eventNames]) huid,
    prop_sound "DTSTAMP" (by simp [headerNames,eventNames]) (icsStamp_single _),
    prop_sound "LAST-MODIFIED" (by simp [headerNames,eventNames]) (icsStamp_single _),
    prop_sound "DTSTART;VALUE=DATE" (by simp [headerNames,eventNames]) (icsDate_single _),
    prop_sound "DTEND;VALUE=DATE" (by simp [headerNames,eventNames]) (icsDate_single _),
    text_sound "SUMMARY" (by simp [headerNames,eventNames]) (summary_valid h),
    text_sound "DESCRIPTION" (by simp [headerNames,eventNames]) (desc_valid hr h),
    prop_sound "URL" (by simp [headerNames,eventNames]) (link_single hr),
    prop_sound "TRANSP" (by simp [headerNames,eventNames]) (lit_single (by decide)),
    prop_sound "END" (by simp [headerNames,eventNames]) (lit_single (by decide)),?_⟩
  exact fun entry hentry => absurd hentry List.not_mem_nil

theorem headerEntries_sound (ht : Valid title) : ∀ entry∈headerEntries title, entry.Sound := by
  unfold headerEntries
  simp only [List.forall_mem_cons]
  refine ⟨prop_sound "BEGIN" (by simp [headerNames,eventNames]) (lit_single (by decide)),
    prop_sound "VERSION" (by simp [headerNames,eventNames]) (lit_single (by decide)),
    prop_sound "PRODID" (by simp [headerNames,eventNames]) (lit_single (by decide)),
    prop_sound "CALSCALE" (by simp [headerNames,eventNames]) (lit_single (by decide)),
    prop_sound "METHOD" (by simp [headerNames,eventNames]) (lit_single (by decide)),
    text_sound "X-WR-CALNAME" (by simp [headerNames,eventNames]) ht,
    prop_sound "REFRESH-INTERVAL;VALUE=DURATION" (by simp [headerNames,eventNames])
      (lit_single (by decide)),
    prop_sound "X-PUBLISHED-TTL" (by simp [headerNames,eventNames])
      (lit_single (by decide)),?_⟩
  exact fun entry hentry => absurd hentry List.not_mem_nil

theorem feedEntries_sound (hr : r.Ok) (ht : Valid title) (hev : ∀ e∈evs, e.Ok) :
    ∀ entry∈feedEntries r title evs, entry.Sound := by
  intro entry hentry
  rcases List.mem_append.mp hentry with hentry | hlast
  · rcases List.mem_append.mp hentry with hhead | hevent
    · exact headerEntries_sound ht entry hhead
    · obtain ⟨e,he,hmine⟩ := List.mem_flatMap.mp hevent
      exact eventEntries_sound hr (hev e he) entry hmine
  · rw [List.mem_singleton.mp hlast]
    exact prop_sound "END" (by simp [headerNames,eventNames]) (lit_single (by decide))

/-- The names of a feed's properties: they depend on the number of its events only. -/
def skeleton (n : Nat) : List Bytes :=
  headerNames.map lit++(List.replicate n (eventNames.map lit)).flatten++[lit "END"]

theorem feedEntries_names (r : Request) (title : Bytes) (evs : List Event) :
    (feedEntries r title evs).map Entry.name=skeleton evs.length := by
  have hevents : (evs.flatMap (eventEntries r)).map Entry.name=
      (List.replicate evs.length (eventNames.map lit)).flatten := by
    induction evs with
    | nil => rfl
    | cons e evs ih =>
      rw [List.flatMap_cons,List.map_append,ih,List.length_cons,List.replicate_succ,
        List.flatten_cons]
      rfl
  unfold feedEntries skeleton
  rw [List.map_append,List.map_append,hevents]
  rfl

/-- A line that begins or ends a component. -/
def component (p : Bytes×Bytes) : Bool := p.1==lit "BEGIN"||p.1==lit "END"

/-- A calendar with so many events in it. -/
def components (n : Nat) : List (Bytes×Bytes) :=
  [(lit "BEGIN",lit "VCALENDAR")]++
    (List.replicate n [(lit "BEGIN",lit "VEVENT"),(lit "END",lit "VEVENT")]).flatten++
      [(lit "END",lit "VCALENDAR")]

theorem feedEntries_components (r : Request) (title : Bytes) (evs : List Event) :
    ((feedEntries r title evs).map fun e => (e.name,e.value)).filter component=
      components evs.length := by
  have hevents : ((evs.flatMap (eventEntries r)).map fun e => (e.name,e.value)).filter component=
      (List.replicate evs.length
        [(lit "BEGIN",lit "VEVENT"),(lit "END",lit "VEVENT")]).flatten := by
    induction evs with
    | nil => rfl
    | cons e evs ih =>
      rw [List.flatMap_cons,List.map_append,List.filter_append,ih,List.length_cons,
        List.replicate_succ,List.flatten_cons]
      rfl
  unfold feedEntries components
  rw [List.map_append,List.map_append,List.filter_append,List.filter_append,hevents]
  rfl

/-- Each physical line ends with a line break, and they are all there is. -/
theorem lines_all {css : List (List Bytes)} (h : Pieces entries css)
    (hs : ∀ entry∈entries, entry.Sound) :
    (physicalLines (css.flatMap folded)).flatMap (·++[0x0D,0x0A])=css.flatMap folded := by
  have hline : ∀ c : Bytes, ∀ cs : List Bytes,
      ((c::cs).take 1++(c::cs).tail.map (0x20::·)).flatMap (·++[0x0D,0x0A])=folded (c::cs) := by
    intro c cs
    induction cs generalizing c with
    | nil => simp [folded]
    | cons d cs ih =>
      have hnext := ih d
      simp only [List.take_succ_cons,List.take_zero,List.tail_cons,List.singleton_append,
        List.flatMap_cons] at hnext ⊢
      rw [folded,← hnext]
      simp
  induction h with
  | nil => rfl
  | cons hfolds hrest ih =>
    obtain ⟨hentry,hentries⟩ := List.forall_mem_cons.mp hs
    have hunbroken := hfolds.unbroken hentry.line
    obtain ⟨c,cs,rfl⟩ := List.exists_cons_of_ne_nil hfolds.nonempty
    rw [List.flatMap_cons,
      physicalLines_folded hfolds.nonempty (fun c hc b hb => (hunbroken c hc b hb).1),
      List.flatMap_append,ih hentries,hline]

theorem exists_longer (entries : List Entry) :
    ∃ n, ∀ entry∈entries, entry.line.length < n := by
  induction entries with
  | nil => exact ⟨0,fun entry hentry => absurd hentry List.not_mem_nil⟩
  | cons entry entries ih =>
    obtain ⟨n,hn⟩ := ih
    refine ⟨n+entry.line.length+1,List.forall_mem_cons.mpr ⟨by omega,?_⟩⟩
    intro other hother
    have hlt := hn other hother
    omega

/-- Whatever the texts say, a feed is written in the end; unfolded it is the property lines
written, whose names and values read back and whose escaped texts come back; no physical line is
too long or broken inside a character; and no text adds a property or a component. -/
theorem feed_reads (hr : r.Ok) (ht : Valid title) (hev : ∀ e∈evs, e.Ok) :
    ∃ n out, (∀ turns, n≤turns → render turns r title evs=some out)∧
      physicalLines (unfold out)=(feedEntries r title evs).map Entry.line∧
      (physicalLines out).flatMap (·++[0x0D,0x0A])=out∧
      (∀ l∈physicalLines out, l.length≤75∧Valid l∧∀ b∈l, b≠0x0D∧b≠0x0A)∧
      ((physicalLines (unfold out)).map readProp=
        (feedEntries r title evs).map fun e => (e.name,e.value))∧
      (∀ s, unescape (escapeText s)=normalise s)∧
      ((physicalLines (unfold out)).map readProp).map Prod.fst=skeleton evs.length∧
      ((physicalLines (unfold out)).map readProp).filter component=components evs.length := by
  have hsound := feedEntries_sound hr ht hev
  obtain ⟨css,hpieces,hwrites⟩ := writes_spec hsound
  have hlines := reads_lines hpieces hsound
  have hreads : (physicalLines (unfold (css.flatMap folded))).map readProp=
      (feedEntries r title evs).map fun e => (e.name,e.value) := by
    rw [hlines,List.map_map]
    exact List.map_congr_left fun entry hentry => (hsound entry hentry).reads
  obtain ⟨n,hn⟩ := exists_longer (feedEntries r title evs)
  refine ⟨n,css.flatMap folded,?_,hlines,lines_all hpieces hsound,?_,hreads,unescape_escape,?_,?_⟩
  · intro turns hturns
    have hlong : ∀ entry∈feedEntries r title evs, entry.line.length < turns :=
      fun entry hentry => Nat.lt_of_lt_of_le (hn entry hentry) hturns
    unfold render
    rw [hwrites turns hlong]
    rfl
  · intro l hl
    have hphysical := physical_lines hpieces hsound l hl
    exact ⟨hphysical.short,hphysical.single.valid,hphysical.single.unbroken⟩
  · rw [hreads,List.map_map,← feedEntries_names r title evs]
    rfl
  · rw [hreads,feedEntries_components]

def plainRequest : Request :=
  ⟨lit "kitp.example:8080",true,[],⟨⟨2026,11,3⟩,9,30,0⟩⟩

/-- A title that has what is escaped, a mixed line break and wide characters where its line is
cut. -/
def wideTitle : String :=
  "Füße, Grüße; \\ ok\r\nEND:VEVENT ✓✓✓✓✓✓✓✓✓✓✓✓✓✓✓✓✓✓✓✓✓✓✓✓✓✓✓✓✓✓"

def wideEvent : Event :=
  ⟨7,⟨2026,12,31⟩,lit wideTitle,lit "Übersicht",lit "Offen",true,⟨⟨2026,11,2⟩,23,59,59⟩⟩

theorem feed_reads_wideEvent :
    ∃ n out, (∀ turns, n≤turns → render turns plainRequest (lit "Team") [wideEvent]=some out)∧
      ((physicalLines (unfold out)).map readProp).map Prod.fst=skeleton 1 := by
  have hhost : Single (lit "kitp.example:8080") := lit_single (by decide)
  have hr : plainRequest.Ok := ⟨hhost,Valid.nil,fun b hb => absurd hb List.not_mem_nil⟩
  have hok : wideEvent.Ok := by
    unfold Event.Ok wideEvent
    dsimp only
    exact ⟨lit_valid _,lit_valid _,lit_valid _⟩
  have hev : ∀ e∈[wideEvent], e.Ok := List.forall_mem_singleton.mpr hok
  obtain ⟨n,out,hrender,-,-,-,-,-,hnames,-⟩ := feed_reads hr (lit_valid "Team") hev
  exact ⟨n,out,hrender,hnames⟩

end Kitp.CalendarFeeds
