import Kitp.TextNorm

/-! Spreadsheet formulas kept out of the exported CSV files. -/
namespace Kitp.CsvCells
open Kitp.TextNorm

def isDigit (c : Option Char) : Bool := c.any fun d => '0' ≤ d∧d ≤ '9'

def digits (s : GoString) : Bool := s≠[]∧s.all isDigit

def point : Option Char := some '.'

def minus : Option Char := some '-'

/-- `^-?\d+(\.\d+)?$`. -/
def plainNumber (s : GoString) : Bool :=
  let t := if s.head?=some minus then s.tail else s
  let whole := t.takeWhile (· ≠ point)
  let rest := t.dropWhile (· ≠ point)
  digits whole&&(rest.isEmpty||digits rest.tail)

/-- The characters that start a formula. -/
def marks : List (Option Char) :=
  [some '=',some '+',minus,some '@',some (Char.ofNat 9),some (Char.ofNat 13)]

def risky (s : GoString) : Bool :=
  match s with
  | [] => false
  | c::_ => marks.contains c&&!plainNumber s

def apostrophe : Option Char := some (Char.ofNat 0x27)

def cell (s : GoString) : GoString := if risky s then apostrophe::s else s

def row (r : List GoString) : List GoString := r.map cell

def uncell (s : GoString) : GoString :=
  if s.length > 1∧s.head?=some apostrophe∧risky s.tail then s.tail else s

def uncellRow (r : List GoString) : List (List Char) := r.map fun c => storable (uncell c)

/-- A sign or none, digits, and digits behind a point or nothing. -/
def PlainNumber (s : GoString) : Prop :=
  ∃ sign whole rest, s=sign++whole++rest∧(sign=[]∨sign=[minus])∧digits whole∧
    (rest=[]∨∃ t, rest=point::t∧digits t)

/-- A spreadsheet runs it. -/
def Formula (s : GoString) : Prop := ∃ c∈marks, ∃ t, s=c::t∧¬PlainNumber s

/-- The text already looks escaped. -/
def Escaped (s : GoString) : Prop := ∃ t, s=apostrophe::t∧Formula t

variable {s t : GoString} {r : List GoString}

theorem digits_point (h : digits s) : point∉s := by
  intro hmem
  have hall := List.all_eq_true.mp (of_decide_eq_true h).2 _ hmem
  have hnot : isDigit point=false := by decide
  rw [hnot] at hall
  cases hall

theorem digits_head (h : digits s) : s.head?≠some minus := by
  intro hhead
  have hmem : minus∈s := List.mem_of_mem_head? hhead
  have hall := List.all_eq_true.mp (of_decide_eq_true h).2 _ hmem
  have hnot : isDigit minus=false := by decide
  rw [hnot] at hall
  cases hall

/-- A whole part stops where the point is. -/
theorem cut_whole {whole rest : GoString} (hw : point∉whole) (hr : rest=[]∨∃ t, rest=point::t) :
    (whole++rest).takeWhile (· ≠ point)=whole∧(whole++rest).dropWhile (· ≠ point)=rest := by
  have hall : ∀ c∈whole, decide (c≠point) := by
    intro c hc
    have : c≠point := fun h => hw (h ▸ hc)
    simpa using this
  have hstop : rest.takeWhile (· ≠ point)=[]∧rest.dropWhile (· ≠ point)=rest := by
    rcases hr with rfl | ⟨t,rfl⟩
    · simp
    · simp
  constructor
  · rw [List.takeWhile_append_of_pos hall,hstop.1,List.append_nil]
  · rw [List.dropWhile_append_of_pos hall,hstop.2]

theorem plainNumber_iff (s : GoString) : plainNumber s ↔ PlainNumber s := by
  constructor
  · intro h
    have hsign : ∃ sign, (sign=[]∨sign=[minus])∧
        s=sign++if s.head?=some minus then s.tail else s := by
      cases s with
      | nil => exact ⟨[],.inl rfl,by simp⟩
      | cons c t =>
        by_cases hc : c=minus
        · exact ⟨[minus],.inr rfl,by simp [hc]⟩
        · exact ⟨[],.inl rfl,by simp [hc]⟩
    obtain ⟨sign,hs,hsplit⟩ := hsign
    generalize hrest : (if s.head?=some minus then s.tail else s)=u at hsplit
    simp only [plainNumber,hrest,Bool.and_eq_true,Bool.or_eq_true,List.isEmpty_iff] at h
    refine ⟨sign,u.takeWhile (· ≠ point),u.dropWhile (· ≠ point),?_,hs,h.1,?_⟩
    · rw [List.append_assoc,List.takeWhile_append_dropWhile]
      exact hsplit
    · rcases h.2 with hnil | hdigits
      · exact .inl hnil
      · cases hdrop : u.dropWhile (· ≠ point) with
        | nil => exact .inl rfl
        | cons c t =>
          have hc := List.head_dropWhile_not (· ≠ point) (l := u) (by rw [hdrop]; simp)
          simp only [hdrop,List.head_cons] at hc
          rw [hdrop] at hdigits
          exact .inr ⟨t,by simpa using hc,hdigits⟩
  · rintro ⟨sign,whole,rest,rfl,hsign,hwhole,hrest⟩
    have hstrip : (if (sign++whole++rest).head?=some minus then (sign++whole++rest).tail
        else sign++whole++rest)=whole++rest := by
      rcases hsign with rfl | rfl
      · have hne : whole≠[] := (of_decide_eq_true hwhole).1
        have hhead : (whole++rest).head?=whole.head? := by
          cases whole with
          | nil => exact absurd rfl hne
          | cons c w => rfl
        rw [List.nil_append,hhead,if_neg (digits_head hwhole)]
      · rfl
    have hstop : rest=[]∨∃ t, rest=point::t := hrest.imp id fun ⟨t,ht,_⟩ => ⟨t,ht⟩
    obtain ⟨htake,hdrop⟩ := cut_whole (digits_point hwhole) hstop
    simp only [plainNumber,hstrip,htake,hdrop,hwhole,Bool.true_and]
    rcases hrest with rfl | ⟨t,rfl,ht⟩
    · rfl
    · simp [ht]

theorem risky_iff (s : GoString) : risky s ↔ Formula s := by
  cases s with
  | nil => simp [risky,Formula]
  | cons c t =>
    have hplain : plainNumber (c::t)=false ↔ ¬PlainNumber (c::t) := by
      rw [← plainNumber_iff,Bool.not_eq_true]
    simp only [risky,Bool.and_eq_true,List.contains_iff_mem,Bool.not_eq_true',hplain]
    constructor
    · rintro ⟨hc,hnot⟩
      exact ⟨c,hc,t,rfl,hnot⟩
    · rintro ⟨d,hd,u,heq,hnot⟩
      cases heq
      exact ⟨hd,hnot⟩

theorem apostrophe_safe (t : GoString) : ¬Formula (apostrophe::t) := by
  rintro ⟨c,hc,u,heq,-⟩
  cases heq
  revert hc
  decide

/-- No cell runs as a formula. -/
theorem cell_safe (s : GoString) : ¬Formula (cell s) := by
  rw [cell]
  split
  · exact apostrophe_safe s
  · rename_i h
    exact fun hf => h ((risky_iff s).mpr hf)

theorem uncell_escaped (h : Formula t) : uncell (apostrophe::t)=t := by
  obtain ⟨c,hc,u,rfl,hnot⟩ := h
  have hrisky : risky (c::u) := (risky_iff _).mpr ⟨c,hc,u,rfl,hnot⟩
  rw [uncell,if_pos ⟨by simp,rfl,hrisky⟩]
  rfl

theorem uncell_plain (h : ¬Escaped s) : uncell s=s := by
  rw [uncell,if_neg]
  rintro ⟨-,hhead,hrisky⟩
  apply h
  cases s with
  | nil => cases hhead
  | cons c t =>
    cases hhead
    exact ⟨t,rfl,(risky_iff t).mp hrisky⟩

theorem apostrophe_ne (t : GoString) : t≠apostrophe::t := fun h => by
  have := congrArg List.length h
  simp at this

theorem uncell_cell (s : GoString) : uncell (cell s)=s ↔ ¬Escaped s := by
  constructor
  · rintro hback ⟨t,rfl,ht⟩
    have hplain : ¬risky (apostrophe::t) := fun h => apostrophe_safe t ((risky_iff _).mp h)
    rw [cell,if_neg hplain,uncell_escaped ht] at hback
    exact apostrophe_ne t hback
  · intro hs
    rw [cell]
    split
    · rename_i hrisky
      exact uncell_escaped ((risky_iff s).mp hrisky)
    · exact uncell_plain hs

theorem storable_apostrophe (t : GoString) :
    storable (apostrophe::t)=Char.ofNat 0x27::storable t := by
  have hnul : some (Char.ofNat 0)∈apostrophe::t ↔ some (Char.ofNat 0)∈t := by
    have : some (Char.ofNat 0)≠apostrophe := by decide
    simp [this]
  have hbroken : none∈apostrophe::t ↔ none∈t := by simp [apostrophe]
  simp only [storable,hnul,hbroken]
  split
  · rfl
  · have hkeep : decide (Char.ofNat 0x27≠Char.ofNat 0) := by decide
    rw [apostrophe,toValid,List.filter_cons,if_pos hkeep]

/-- What the import keeps of a cell is what it would keep of the text itself. -/
theorem storable_back (s : GoString) :
    storable (uncell (cell s))=storable s ↔ ¬Escaped s := by
  constructor
  · rintro hback ⟨t,rfl,ht⟩
    have hplain : ¬risky (apostrophe::t) := fun h => apostrophe_safe t ((risky_iff _).mp h)
    rw [cell,if_neg hplain,uncell_escaped ht,storable_apostrophe] at hback
    have := congrArg List.length hback
    simp at this
  · intro hs
    rw [(uncell_cell s).mpr hs]

/-- A row's cells never run as formulas; they come back, as written and as the import stores them,
exactly when no text of the row already looks escaped. -/
theorem row_back (r : List GoString) :
    (∀ c∈row r, ¬Formula c)∧(((row r).map uncell=r∧uncellRow (row r)=r.map storable) ↔
      ∀ s∈r, ¬Escaped s) := by
  have hwritten : (row r).map uncell=r ↔ ∀ s∈r, uncell (cell s)=s := by
    rw [row,List.map_map]
    constructor
    · intro h s hs
      exact List.map_inj_left.mp (h.trans (List.map_id r).symm) s hs
    · intro h
      exact (List.map_inj_left.mpr h).trans (List.map_id r)
  have hstored : uncellRow (row r)=r.map storable ↔
      ∀ s∈r, storable (uncell (cell s))=storable s := by
    rw [uncellRow,row,List.map_map,List.map_inj_left]
    rfl
  refine ⟨fun c hc => ?_,?_⟩
  · obtain ⟨s,-,rfl⟩ := List.mem_map.mp hc
    exact cell_safe s
  · rw [hwritten,hstored]
    constructor
    · exact fun h s hs => (uncell_cell s).mp (h.1 s hs)
    · exact fun h => ⟨fun s hs => (uncell_cell s).mpr (h s hs),
        fun s hs => (storable_back s).mpr (h s hs)⟩

/-- A title `'=1` comes back as `=1`. -/
theorem escaped_title_lost :
    ¬∀ s : GoString, ¬Formula (cell s)∧uncell (cell s)=s := by
  intro h
  have := (h [apostrophe,some '=',some '1']).2
  revert this
  decide

end Kitp.CsvCells
