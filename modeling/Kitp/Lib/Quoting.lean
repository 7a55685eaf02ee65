import Mathlib.Data.List.TakeWhile

/-! Text in quotes, a quote inside it doubled: the writer, the reader, and that each undoes the
other. -/
namespace Kitp.Quoting

variable {q : Char} {s b o v : List Char}

/-- A body with its quotes doubled. -/
def double (q : Char) : List Char → List Char
  | [] => []
  | c::s => if c=q then q::q::double q s else c::double q s

/-- Up to the quote that is not doubled. -/
def readQuoted (q : Char) : List Char → Option (List Char × List Char)
  | [] => none
  | c::s =>
    if c=q then
      match s with
      | [] => some ([],[])
      | d::r => if d=q then (readQuoted q r).map fun (b,o) => (q::b,o) else some ([],d::r)
    else (readQuoted q s).map fun (b,o) => (c::b,o)

theorem span_split {p : Char → Bool} (hs : ∀ c∈v, p c) (ho : ∀ c∈o.head?, p c=false) :
    (v++o).takeWhile p=v∧(v++o).dropWhile p=o := by
  have hstop : o.takeWhile p=[]∧o.dropWhile p=o := by
    cases o with
    | nil => simp
    | cons c o => simp [ho c rfl]
  constructor
  · rw [List.takeWhile_append_of_pos hs,hstop.1,List.append_nil]
  · rw [List.dropWhile_append_of_pos hs,hstop.2]

theorem span_stop (p : Char → Bool) (s : List Char) : ∀ c∈(s.dropWhile p).head?, p c=false := by
  intro c hc
  have := List.head?_dropWhile_not p s
  rw [Option.mem_def.mp hc] at this
  exact this

theorem readQuoted_sound (h : readQuoted q s=some (b,o)) :
    s=double q b++q::o∧∀ c∈o.head?, c≠q := by
  fun_induction readQuoted q s generalizing b with
  | case1 => cases h
  | case2 =>
    cases h
    exact ⟨rfl,by simp⟩
  | case3 r ih =>
    obtain ⟨⟨b',o'⟩,hr,heq⟩ := Option.map_eq_some_iff.mp h
    cases heq
    obtain ⟨rfl,ho⟩ := ih hr
    exact ⟨by simp [double],ho⟩
  | case4 d r hd =>
    cases h
    exact ⟨rfl,fun c hc => by cases hc; exact hd⟩
  | case5 c s hc ih =>
    obtain ⟨⟨b',o'⟩,hr,heq⟩ := Option.map_eq_some_iff.mp h
    cases heq
    obtain ⟨rfl,ho⟩ := ih hr
    exact ⟨by simp [double,hc],ho⟩

theorem readQuoted_double (ho : ∀ c∈o.head?, c≠q) (b : List Char) :
    readQuoted q (double q b++q::o)=some (b,o) := by
  induction b with
  | nil =>
    rw [double,List.nil_append,readQuoted.eq_def]
    cases o with
    | nil => simp
    | cons d o =>
      have hd : d≠q := ho d rfl
      simp [hd]
  | cons c b ih =>
    by_cases hc : c=q
    · rw [double,if_pos hc,hc,List.cons_append,List.cons_append,readQuoted.eq_def]
      simp [ih]
    · rw [double,if_neg hc,List.cons_append,readQuoted.eq_def]
      simp [hc,ih]

end Kitp.Quoting
