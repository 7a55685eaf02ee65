import Mathlib.Data.List.TakeWhile

/-! Cutting the ends off a list. -/
namespace Kitp.Trimming
variable {α : Type} {p : α → Bool} {s : List α} {c : α}

def trim (p : α → Bool) (s : List α) : List α :=
  ((s.dropWhile p).reverse.dropWhile p).reverse

def trimRight (p : α → Bool) (s : List α) : List α := (s.reverse.dropWhile p).reverse

theorem trimRight_split (p : α → Bool) (s : List α) : ∃ v, s=trimRight p s++v∧∀ c∈v, p c := by
  refine ⟨(s.reverse.takeWhile p).reverse,?_,fun c hc => ?_⟩
  · have := congrArg List.reverse (List.takeWhile_append_dropWhile (p := p) (l := s.reverse))
    rw [List.reverse_append,List.reverse_reverse] at this
    exact this.symm
  · exact List.mem_takeWhile_imp (List.mem_reverse.mp hc)

theorem trimRight_append (hc : ¬p c) (u s : List α) :
    trimRight p (u++c::s)=u++c::trimRight p s := by
  have hstop : (c::u.reverse).dropWhile p=c::u.reverse := List.dropWhile_cons_of_neg hc
  have hrev : (u++c::s).reverse=s.reverse++(c::u.reverse) := by simp
  rw [trimRight,trimRight,hrev,List.dropWhile_append,hstop]
  split
  · rename_i hnil
    rw [List.isEmpty_iff.mp hnil]
    simp
  · simp

theorem trimRight_pad {v : List α} (hv : ∀ c∈v, p c) (s : List α) :
    trimRight p (s++v)=trimRight p s := by
  have hv' : ∀ c∈v.reverse, p c := fun c hc => hv c (List.mem_reverse.mp hc)
  rw [trimRight,trimRight,List.reverse_append,List.dropWhile_append_of_pos hv']

theorem trimRight_all (hs : ∀ c∈s, p c) : trimRight p s=[] := by
  have := trimRight_pad hs []
  simpa [trimRight] using this

theorem trim_eq_trimRight (p : α → Bool) (s : List α) : trim p s=trimRight p (s.dropWhile p) := rfl

theorem trim_split (p : α → Bool) (s : List α) :
    ∃ u v, s=u++trim p s++v∧(∀ c∈u, p c)∧(∀ c∈v, p c)∧(∀ c∈(trim p s).head?, ¬p c)∧
      ∀ c∈(trim p s).getLast?, ¬p c := by
  have hfront := List.takeWhile_append_dropWhile (p := p) (l := s)
  have hback := List.takeWhile_append_dropWhile (p := p) (l := (s.dropWhile p).reverse)
  have hrest : s.dropWhile p=trim p s++((s.dropWhile p).reverse.takeWhile p).reverse := by
    have := congrArg List.reverse hback
    rw [List.reverse_append,List.reverse_reverse] at this
    exact this.symm
  refine ⟨s.takeWhile p,((s.dropWhile p).reverse.takeWhile p).reverse,?_,?_,?_,?_,?_⟩
  · rw [List.append_assoc,← hrest,hfront]
  · exact fun c hc => List.mem_takeWhile_imp hc
  · exact fun c hc => List.mem_takeWhile_imp (List.mem_reverse.mp hc)
  · intro c hc
    have hhead : c∈(s.dropWhile p).head? := by
      rw [hrest]
      cases ht : trim p s with
      | nil =>
        rw [ht] at hc
        cases hc
      | cons d t =>
        rw [ht] at hc
        exact hc
    have := List.head?_dropWhile_not p s
    rw [hhead] at this
    simpa using this
  · intro c hc
    have hhead : c∈((s.dropWhile p).reverse.dropWhile p).head? := by
      rw [trim,List.getLast?_reverse] at hc
      exact hc
    have := List.head?_dropWhile_not p (s.dropWhile p).reverse
    rw [hhead] at this
    simpa using this

theorem all_of_trim (h : trim p s=[]) : ∀ c∈s, p c := by
  intro c hc
  obtain ⟨u,v,hs,hu,hv,-⟩ := trim_split p s
  rw [h,List.append_nil] at hs
  rw [hs] at hc
  exact (List.mem_append.mp hc).elim (hu c) (hv c)

theorem trim_between {u v : List α} (hu : ∀ c∈u, p c)
    (hv : ∀ c∈v, p c) (hfirst : ∀ c∈s.head?, ¬p c) (hlast : ∀ c∈s.getLast?, ¬p c) :
    trim p (u++s++v)=s := by
  have hdrop (z : List α) (hz : ∀ c∈z, p c) (w : List α) :
      (z++w).dropWhile p=w.dropWhile p := by
    induction z with
    | nil => rfl
    | cons c z ih =>
      rw [List.cons_append,List.dropWhile_cons_of_pos (hz c List.mem_cons_self)]
      exact ih fun d hd => hz d (List.mem_cons_of_mem _ hd)
  have hstay (z : List α) (hz : ∀ c∈z.head?, ¬p c) : z.dropWhile p=z := by
    cases z with
    | nil => rfl
    | cons c z => exact List.dropWhile_cons_of_neg (hz c rfl)
  cases s with
  | nil =>
    have hall : ∀ c∈u++v, p c := fun c hc => (List.mem_append.mp hc).elim (hu c) (hv c)
    have hnone := hdrop (u++v) hall []
    rw [List.append_nil] at hnone
    rw [List.append_nil,trim,hnone]
    rfl
  | cons d s =>
    have hfront : (u++(d::s)++v).dropWhile p=d::s++v := by
      rw [List.append_assoc,hdrop u hu]
      exact hstay _ hfirst
    have hlast' : ∀ c∈(d::s).reverse.head?, ¬p c := by
      rw [List.head?_reverse]
      exact hlast
    rw [trim,hfront,List.reverse_append,hdrop _ (fun c hc => hv c (List.mem_reverse.mp hc)),
      hstay _ hlast',List.reverse_reverse]

/-- What is cut off anyway makes no difference. -/
theorem trim_pad {u v : List α} (hu : ∀ c∈u, p c) (hv : ∀ c∈v, p c) (s : List α) :
    trim p (u++s++v)=trim p s := by
  obtain ⟨a,b,hsplit,ha,hb,hfirst,hlast⟩ := trim_split p s
  have hwhole : u++s++v=(u++a)++trim p s++(b++v) := by
    have := congrArg (u++·++v) hsplit
    simpa using this
  rw [hwhole]
  refine trim_between ?_ ?_ hfirst hlast
  · exact fun c hc => (List.mem_append.mp hc).elim (hu c) (ha c)
  · exact fun c hc => (List.mem_append.mp hc).elim (hb c) (hv c)

theorem trim_stays (hfirst : ∀ c∈s.head?, ¬p c)
    (hlast : ∀ c∈s.getLast?, ¬p c) : trim p s=s := by
  have := trim_between (u := []) (v := []) (by simp) (by simp) hfirst hlast
  simpa using this

theorem trim_map {β : Type} {q : β → Bool} {f : α → β} (h : ∀ c, q (f c)=p c)
    (s : List α) : trim q (s.map f)=(trim p s).map f := by
  have hdrop (z : List α) : (z.map f).dropWhile q=(z.dropWhile p).map f := by
    induction z with
    | nil => rfl
    | cons c z ih =>
      rw [List.map_cons,List.dropWhile_cons,List.dropWhile_cons,h,ih]
      split <;> rfl
  rw [trim,hdrop,← List.map_reverse,hdrop,← List.map_reverse,trim]

/-- The first character that trimming leaves is the first that is not to be trimmed. -/
theorem trim_head :
    c∈(trim p s).head?↔∃ u v, s=u++c::v∧(∀ d∈u, p d)∧¬p c := by
  obtain ⟨u,v,hsplit,hu,hv,hfirst,hlast⟩ := trim_split p s
  constructor
  · intro h
    obtain ⟨w,hw⟩ := List.head?_eq_some_iff.mp h
    refine ⟨u,w++v,?_,hu,hfirst c h⟩
    rw [hw] at hsplit
    simpa using hsplit
  · rintro ⟨u',v',hs,hu',hc⟩
    have hdrop : s.dropWhile p=c::v' := by
      rw [hs,List.dropWhile_append_of_pos hu',List.dropWhile_cons_of_neg hc]
    have hdrop' : s.dropWhile p=trim p s++((s.dropWhile p).reverse.takeWhile p).reverse := by
      have := congrArg List.reverse (List.takeWhile_append_dropWhile (p := p)
        (l := (s.dropWhile p).reverse))
      rw [List.reverse_append,List.reverse_reverse] at this
      exact this.symm
    rw [hdrop] at hdrop'
    cases ht : trim p s with
    | nil =>
      rw [ht,List.nil_append] at hdrop'
      have hmem : c∈((c::v').reverse.takeWhile p).reverse := by
        rw [← hdrop']
        exact List.mem_cons_self
      exact absurd (List.mem_takeWhile_imp (List.mem_reverse.mp hmem)) hc
    | cons d t =>
      rw [ht] at hdrop'
      exact congrArg some (List.cons.inj hdrop').1.symm

theorem trim_reverse (p : α → Bool) (s : List α) :
    trim p s.reverse=(trim p s).reverse := by
  obtain ⟨u,v,hsplit,hu,hv,hfirst,hlast⟩ := trim_split p s
  have hback : s.reverse=v.reverse++(trim p s).reverse++u.reverse := by
    have := congrArg List.reverse hsplit
    simpa using this
  have hu' : ∀ c∈u.reverse, p c := fun c hc => hu c (List.mem_reverse.mp hc)
  have hv' : ∀ c∈v.reverse, p c := fun c hc => hv c (List.mem_reverse.mp hc)
  have hfirst' : ∀ c∈(trim p s).reverse.head?, ¬p c := by
    rw [List.head?_reverse]
    exact hlast
  have hlast' : ∀ c∈(trim p s).reverse.getLast?, ¬p c := by
    rw [List.getLast?_reverse]
    exact hfirst
  have htrim := trim_between hv' hu' hfirst' hlast'
  rw [← hback] at htrim
  exact htrim

theorem trim_last :
    c∈(trim p s).getLast?↔∃ u v, s=u++c::v∧(∀ d∈v, p d)∧¬p c := by
  rw [← List.head?_reverse,← trim_reverse,trim_head]
  constructor
  · rintro ⟨u,v,hs,hu,hc⟩
    refine ⟨v.reverse,u.reverse,?_,fun d hd => hu d (List.mem_reverse.mp hd),hc⟩
    have := congrArg List.reverse hs
    simpa using this
  · rintro ⟨u,v,hs,hv,hc⟩
    refine ⟨v.reverse,u.reverse,?_,fun d hd => hv d (List.mem_reverse.mp hd),hc⟩
    have := congrArg List.reverse hs
    simpa using this

end Kitp.Trimming
