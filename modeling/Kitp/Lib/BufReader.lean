import Mathlib.Data.List.Basic

/-! Reading a connection through a buffer, as Go's `bufio` does. What arrives comes in pieces, none of
them empty. -/
namespace Kitp.BufReader

inductive Arrival (α : Type) where
  | data (first : α) (more : List α)
  | timeout
  | closed

inductive ReadErr where
  | timeout
  | closed
  | full
  deriving DecidableEq

structure Reader (α : Type) where
  buf : List α
  input : List (Arrival α)

variable {α : Type} {size n : Nat} {input rest chunks : List (Arrival α)} {r r' : Reader α}
  {b : α} {s left used : List α} {err : ReadErr}

/-- What a read left of a piece comes again. -/
def again : List α → List (Arrival α) → List (Arrival α)
  | [],input => input
  | b::s,input => .data b s::input

def pieces : List (Arrival α) → List α
  | .data b s::input => b::s++pieces input
  | _ => []

/-- One read, as much as there is room for. -/
def fill (size : Nat) (r : Reader α) : Reader α×Option ReadErr :=
  match r.input with
  | .data b s::input =>
    let room := size-r.buf.length
    (⟨r.buf++(b::s).take room,again ((b::s).drop room) input⟩,none)
  | .timeout::input => (⟨r.buf,input⟩,some .timeout)
  | _ => (r,some .closed)

theorem fill_grows (hroom : r.buf.length < size) (h : fill size r=(r',none)) :
    r.buf.length < r'.buf.length := by
  unfold fill at h
  split at h
  · obtain ⟨rfl,-⟩ := Prod.mk.inj h
    simp only [List.length_append,List.length_take,List.length_cons]
    omega
  · cases h
  · cases h

/-- `Peek`: reads until `n` are there. -/
def peek (size n : Nat) (r : Reader α) : Reader α×Option ReadErr :=
  if _hmore : r.buf.length < n∧r.buf.length < size then
    match _hfill : fill size r with
    | (r',none) => peek size n r'
    | (r',some err) => (r',some err)
  else (r,if r.buf.length < n then some .full else none)
termination_by size-r.buf.length
decreasing_by
  have hgrows := fill_grows _hmore.2 _hfill
  omega

def readByte (size : Nat) (r : Reader α) : Except ReadErr (α×Reader α) :=
  match r.buf with
  | b::s => .ok (b,⟨s,r.input⟩)
  | [] =>
    match fill size r with
    | (⟨b::s,input⟩,none) => .ok (b,⟨s,input⟩)
    | (_,some err) => .error err
    | (_,none) => .error .full

/-- Pieces of data. -/
def Data (chunks : List (Arrival α)) : Prop := ∀ a∈chunks, ∃ b s, a=.data b s

theorem pieces_append (h : Data chunks) : pieces (chunks++rest)=pieces chunks++pieces rest := by
  induction chunks with
  | nil => rfl
  | cons a chunks ih =>
    obtain ⟨b,s,rfl⟩ := h a List.mem_cons_self
    have hchunks := ih fun a ha => h a (List.mem_cons_of_mem _ ha)
    simp only [List.cons_append,pieces,hchunks,List.append_assoc]

theorem pieces_nil (h : Data chunks) (hnil : pieces chunks=[]) : chunks=[] := by
  cases chunks with
  | nil => rfl
  | cons a chunks =>
    obtain ⟨b,s,rfl⟩ := h a List.mem_cons_self
    cases hnil

/-- Of the input, `used` is taken and the buffer still to be. Only a full buffer leaves part of a
piece. -/
structure Read (size : Nat) (input : List (Arrival α)) (r : Reader α) (used : List α) : Prop where
  split : ∃ chunks rest left, input=chunks++rest∧Data chunks∧
    pieces chunks=used++r.buf++left∧r.input=again left rest∧
    (left≠[] → size≤used.length+r.buf.length)

theorem read_start (size : Nat) (input : List (Arrival α)) : Read size input ⟨[],input⟩ [] :=
  ⟨[],input,[],rfl,fun _ ha => absurd ha List.not_mem_nil,rfl,rfl,fun hne => absurd rfl hne⟩

theorem data_concat (h : Data chunks) (b : α) (s : List α) : Data (chunks++[.data b s]) := by
  intro a ha
  cases List.mem_append.mp ha with
  | inl hold => exact h a hold
  | inr hnew => exact ⟨b,s,List.mem_singleton.mp hnew⟩

theorem again_full (s : List α) (buf : List α) :
    s.drop (size-buf.length)≠[] →
      size≤used.length+(buf++s.take (size-buf.length)).length := by
  intro hne
  have hlong : size-buf.length < s.length := by
    by_contra hshort
    exact hne (List.drop_eq_nil_of_le (Nat.le_of_not_lt hshort))
  rw [List.length_append,List.length_take]
  omega

theorem Read.fill (h : Read size input r used) (hfill : fill size r=(r',none)) :
    Read size input r' used∧∃ more, r'.buf=r.buf++more := by
  obtain ⟨chunks,rest,left,hinput,hdata,hpieces,hnext,hfull⟩ := h.split
  unfold BufReader.fill at hfill
  split at hfill
  · rename_i b s input' hread
    obtain ⟨rfl,-⟩ := Prod.mk.inj hfill
    refine ⟨?_,_,rfl⟩
    cases left with
    | nil =>
      rw [show r.input=rest from hnext] at hread
      refine ⟨chunks++[.data b s],input',(b::s).drop (size-r.buf.length),?_,?_,?_,rfl,
        again_full (b::s) r.buf⟩
      · rw [hinput,hread,List.append_assoc,List.singleton_append]
      · exact data_concat hdata b s
      · rw [pieces_append hdata,hpieces]
        show used++r.buf++[]++(b::s++[])=_
        simp only [List.append_nil,List.append_assoc,List.take_append_drop]
    | cons first left =>
      rw [show r.input=.data first left::rest from hnext] at hread
      obtain ⟨hsame,rfl⟩ := List.cons.inj hread
      injection hsame with hb hs
      subst hb
      subst hs
      refine ⟨chunks,rest,(first::left).drop (size-r.buf.length),hinput,hdata,?_,rfl,
        again_full (first::left) r.buf⟩
      rw [hpieces]
      simp only [List.append_assoc,List.take_append_drop]
  · cases hfill
  · cases hfill

theorem Read.peek (h : Read size input r used) (hpeek : peek size n r=(r',none)) :
    Read size input r' used∧n ≤ r'.buf.length := by
  induction hgap : size-r.buf.length using Nat.strongRecOn generalizing r with
  | ind gap ih =>
    rw [BufReader.peek.eq_def] at hpeek
    split at hpeek
    · rename_i hmore
      split at hpeek
      · rename_i next hfill
        have hgrows := fill_grows hmore.2 hfill
        exact ih (size-next.buf.length) (by omega) (h.fill hfill).1 hpeek rfl
      · cases hpeek
    · obtain ⟨rfl,hnone⟩ := Prod.mk.inj hpeek
      refine ⟨h,?_⟩
      by_contra hless
      rw [if_pos (Nat.lt_of_not_le hless)] at hnone
      cases hnone

theorem Read.readByte (h : Read size input r used) (hread : readByte size r=.ok (b,r')) :
    Read size input r' (used++[b]) := by
  have htake : ∀ {r : Reader α} {b : α} {s : List α}, Read size input r used → r.buf=b::s →
      Read size input ⟨s,r.input⟩ (used++[b]) := by
    intro r b s h hbuf
    obtain ⟨chunks,rest,left,hinput,hdata,hpieces,hnext,hfull⟩ := h.split
    refine ⟨chunks,rest,left,hinput,hdata,?_,hnext,?_⟩
    · rw [hpieces,hbuf]
      simp
    · intro hne
      have hsize := hfull hne
      rw [hbuf] at hsize
      simp only [List.length_append,List.length_cons,List.length_nil] at hsize ⊢
      omega
  unfold BufReader.readByte at hread
  split at hread
  · rename_i hbuf
    obtain ⟨rfl,rfl⟩ := Prod.mk.inj (Except.ok.inj hread)
    exact htake h hbuf
  · split at hread
    · rename_i hfill
      obtain ⟨rfl,rfl⟩ := Prod.mk.inj (Except.ok.inj hread)
      exact htake (h.fill hfill).1 rfl
    · cases hread
    · cases hread

theorem peek_there (h : n ≤ r.buf.length) : peek size n r=(r,none) := by
  rw [peek.eq_def,dif_neg fun hboth => absurd hboth.1 (Nat.not_lt.mpr h),
    if_neg (Nat.not_lt.mpr h)]

/-- Nothing came in time. -/
theorem peek_silence (hsize : 0 < size) (h : peek size 1 ⟨[],input⟩=(r,some .timeout)) :
    ∃ rest, input=.timeout::rest∧r=⟨[],rest⟩ := by
  rw [peek.eq_def,dif_pos ⟨Nat.one_pos,hsize⟩] at h
  split at h
  · rename_i next hfill
    have hgrows : 1≤next.buf.length := fill_grows hsize hfill
    rw [peek_there hgrows] at h
    cases h
  · rename_i next err hfill
    obtain ⟨rfl,herr⟩ := Prod.mk.inj h
    unfold BufReader.fill at hfill
    split at hfill
    · cases hfill
    · rename_i input' hinput
      obtain ⟨rfl,-⟩ := Prod.mk.inj hfill
      exact ⟨input',hinput,rfl⟩
    · obtain ⟨-,hclosed⟩ := Prod.mk.inj hfill
      rw [← Option.some.inj hclosed] at herr
      cases herr

/-- A reader that has used little and buffers nothing has used whole pieces. -/
theorem Read.whole (h : Read size input r used) (hbuf : r.buf=[]) (hfew : used.length < size) :
    ∃ chunks, input=chunks++r.input∧Data chunks∧pieces chunks=used := by
  obtain ⟨chunks,rest,left,hinput,hdata,hpieces,hnext,hfull⟩ := h.split
  cases left with
  | nil =>
    refine ⟨chunks,?_,hdata,?_⟩
    · rw [hinput,hnext]
      rfl
    · rw [hpieces,hbuf,List.append_nil,List.append_nil]
  | cons b s =>
    have hsize := hfull (List.cons_ne_nil b s)
    rw [hbuf] at hsize
    simp only [List.length_nil] at hsize
    omega

/-- What is still to read, before `rest`. -/
structure Ahead (size : Nat) (rest : List (Arrival α)) (r : Reader α) (s : List α) : Prop where
  split : ∃ chunks, r.input=chunks++rest∧Data chunks∧r.buf++pieces chunks=s
  room : s.length ≤ size

theorem Ahead.fill (h : Ahead size rest r s) (hmore : r.buf.length < s.length) :
    ∃ r', fill size r=(r',none)∧Ahead size rest r' s∧r.buf.length < r'.buf.length := by
  obtain ⟨chunks,hinput,hdata,hpieces⟩ := h.split
  have hroom := h.room
  cases chunks with
  | nil =>
    have hbuf : r.buf=s := (List.append_nil _).symm.trans hpieces
    rw [hbuf] at hmore
    exact absurd hmore (Nat.lt_irrefl _)
  | cons a chunks =>
    obtain ⟨b,more,rfl⟩ := hdata a List.mem_cons_self
    have hfits : (b::more).length ≤ size-r.buf.length := by
      rw [← hpieces] at hroom
      simp only [pieces,List.length_append] at hroom
      omega
    have hfill : BufReader.fill size r=(⟨r.buf++(b::more),chunks++rest⟩,none) := by
      unfold BufReader.fill
      rw [hinput]
      dsimp only [List.cons_append]
      rw [List.take_of_length_le hfits,List.drop_eq_nil_of_le hfits]
      rfl
    refine ⟨_,hfill,⟨⟨chunks,rfl,fun a ha => hdata a (List.mem_cons_of_mem _ ha),?_⟩,hroom⟩,?_⟩
    · rw [← hpieces]
      exact List.append_assoc _ _ _
    · simp

theorem Ahead.peek (h : Ahead size rest r s) (hn : n ≤ s.length) :
    ∃ r', peek size n r=(r',none)∧Ahead size rest r' s∧n ≤ r'.buf.length := by
  induction hgap : size-r.buf.length using Nat.strongRecOn generalizing r with
  | ind gap ih =>
    rw [BufReader.peek.eq_def]
    by_cases hmore : r.buf.length < n∧r.buf.length < size
    · obtain ⟨next,hfill,hnext,hgrows⟩ := h.fill (Nat.lt_of_lt_of_le hmore.1 hn)
      obtain ⟨r',hpeek,hahead,hle⟩ := ih (size-next.buf.length) (by omega) hnext rfl
      refine ⟨r',?_,hahead,hle⟩
      rw [dif_pos hmore]
      split
      · rename_i other hother
        rw [hfill] at hother
        obtain ⟨rfl,-⟩ := Prod.mk.inj hother
        exact hpeek
      · rename_i hother
        rw [hfill] at hother
        cases hother
    · have hroom := h.room
      have hle : n ≤ r.buf.length := by omega
      rw [dif_neg hmore,if_neg (Nat.not_lt.mpr hle)]
      exact ⟨r,rfl,h,hle⟩

theorem Ahead.readByte (h : Ahead size rest r (b::s)) :
    ∃ r', readByte size r=.ok (b,r')∧Ahead size rest r' s := by
  have htake : ∀ {r : Reader α}, Ahead size rest r (b::s) → r.buf≠[] →
      ∃ buf, r.buf=b::buf∧Ahead size rest ⟨buf,r.input⟩ s := by
    intro r h hne
    obtain ⟨first,buf,hbuf⟩ := List.exists_cons_of_ne_nil hne
    obtain ⟨chunks,hinput,hdata,hpieces⟩ := h.split
    rw [hbuf,List.cons_append] at hpieces
    obtain ⟨rfl,hrest⟩ := List.cons.inj hpieces
    have hroom := h.room
    rw [List.length_cons] at hroom
    exact ⟨buf,hbuf,⟨⟨chunks,hinput,hdata,hrest⟩,by omega⟩⟩
  unfold BufReader.readByte
  by_cases hbuf : r.buf=[]
  · obtain ⟨next,hfill,hnext,hgrows⟩ := h.fill (by rw [hbuf]; exact Nat.succ_pos _)
    have hne : next.buf≠[] := by
      intro hnil
      rw [hnil] at hgrows
      exact absurd hgrows (Nat.not_lt_zero _)
    obtain ⟨buf,hcons,hahead⟩ := htake hnext hne
    rw [hbuf,hfill]
    cases next with
    | mk nextBuf nextInput =>
      subst hcons
      exact ⟨_,rfl,hahead⟩
  · obtain ⟨buf,hcons,hahead⟩ := htake h hbuf
    rw [hcons]
    exact ⟨_,rfl,hahead⟩

/-- All read, and nothing more. -/
theorem Ahead.done (h : Ahead size rest r []) : r=⟨[],rest⟩ := by
  obtain ⟨chunks,hinput,hdata,hpieces⟩ := h.split
  obtain ⟨hbuf,hnil⟩ := List.append_eq_nil_iff.mp hpieces
  rw [pieces_nil hdata hnil,List.nil_append] at hinput
  cases r with
  | mk buf input =>
    subst hbuf
    subst hinput
    rfl

end Kitp.BufReader
