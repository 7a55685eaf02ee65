import Mathlib.Data.List.Basic

/-! Patterns over lines: classes of symbols, runs of one class, sequences, choices, word borders and
the end, read through a dialect that says what is in a class. -/
namespace Kitp.LinePatterns
variable {κ α : Type}

inductive Pattern (κ : Type) where
  | one (k : κ)
  | run (least : Nat) (most : Option Nat) (k : κ)
  | seq (a b : Pattern κ)
  | alt (a b : Pattern κ)
  | border
  | finish

/-- What a pattern sees of a line: the symbol behind it and the symbols before it. -/
abbrev Spot (α : Type) := Option α×List α

/-- The spots a run of symbols of a class can end at. -/
def runEnds (p : α → Bool) : Nat → Option Nat → Option α → List α → List (Spot α)
  | least,_,b,[] => if least=0 then [(b,[])] else []
  | least,most,b,c::s =>
    (if least=0 then [(b,c::s)] else [])++
      if p c∧most≠some 0 then runEnds p (least-1) (most.map (·-1)) (some c) s else []

/-- The spots a pattern can end at. -/
def ends (has : κ → α → Bool) (word : α → Bool) : Pattern κ → Spot α → List (Spot α)
  | .one _,(_,[]) => []
  | .one k,(_,c::s) => if has k c then [(some c,s)] else []
  | .run least most k,(b,s) => runEnds (has k) least most b s
  | .seq p q,t => (ends has word p t).flatMap (ends has word q)
  | .alt p q,t => ends has word p t++ends has word q t
  | .border,(b,s) => if b.any word≠s.head?.any word then [(b,s)] else []
  | .finish,(b,s) => if s=[] then [(b,s)] else []

/-- The pattern matches from the start of the line. -/
def found (has : κ → α → Bool) (word : α → Bool) (p : Pattern κ) (s : List α) : Bool :=
  ends has word p (none,s)≠[]

/-- The patterns one after the other. -/
def inOrder : List (Pattern κ) → Pattern κ → Pattern κ
  | [],last => last
  | p::ps,last => .seq p (inOrder ps last)

theorem inOrder_append (ps qs : List (Pattern κ)) (q : Pattern κ) :
    inOrder (ps++qs) q=inOrder ps (inOrder qs q) := by
  induction ps with
  | nil => rfl
  | cons p ps ih => rw [List.cons_append,inOrder,ih,inOrder]

variable {has has' : κ → α → Bool} {word : α → Bool} {s : List α}

/-- A symbol outside the class ends a run before it. -/
theorem ends_run_stop {least : Nat} {most : Option Nat} {k : κ} {b : Option α} {c : α}
    (h : has k c=false) (q : Pattern κ) : ends has word (.seq (.run least most k) q) (b,c::s)=
      if least=0 then ends has word q (b,c::s) else [] := by
  rw [ends,ends,runEnds,h]
  split <;> simp

theorem ends_one_stop {k : κ} {b : Option α} {c : α} (h : has k c=false) (q : Pattern κ) :
    ends has word (.seq (.one k) q) (b,c::s)=[] := by
  simp [ends,h]

theorem runEnds_suffix {p : α → Bool} {least : Nat} {most : Option Nat} {b : Option α}
    {t : Spot α} (h : t∈runEnds p least most b s) : t.2<:+s := by
  induction s generalizing least most b with
  | nil =>
    rw [runEnds] at h
    split at h
    · cases List.mem_singleton.mp h
      exact List.suffix_refl _
    · cases h
  | cons c s ih =>
    rw [runEnds] at h
    cases List.mem_append.mp h with
    | inl h =>
      split at h
      · cases List.mem_singleton.mp h
        exact List.suffix_refl _
      · cases h
    | inr h =>
      split at h
      · exact (ih h).trans (List.suffix_cons c s)
      · cases h

/-- What a pattern leaves is the back of what it was given. -/
theorem ends_suffix {p : Pattern κ} {t u : Spot α} (h : u∈ends has word p t) : u.2<:+t.2 := by
  induction p generalizing t u with
  | one k =>
    obtain ⟨b,s⟩ := t
    cases s with
    | nil => cases h
    | cons c s =>
      rw [ends] at h
      split at h
      · cases List.mem_singleton.mp h
        exact List.suffix_cons c s
      · cases h
  | run least most k => exact runEnds_suffix h
  | seq p q ihp ihq =>
    obtain ⟨v,hv,hu⟩ := List.mem_flatMap.mp h
    exact (ihq hu).trans (ihp hv)
  | alt p q ihp ihq =>
    cases List.mem_append.mp h with
    | inl h => exact ihp h
    | inr h => exact ihq h
  | border =>
    rw [ends] at h
    split at h
    · cases List.mem_singleton.mp h
      exact List.suffix_refl _
    · cases h
  | finish =>
    rw [ends] at h
    split at h
    · cases List.mem_singleton.mp h
      exact List.suffix_refl _
    · cases h

theorem runEnds_congr {p q : α → Bool} (h : ∀ c∈s, p c=q c) (least : Nat) (most : Option Nat)
    (b : Option α) : runEnds p least most b s=runEnds q least most b s := by
  induction s generalizing least most b with
  | nil => rfl
  | cons c s ih =>
    have hrest := ih fun d hd => h d (List.mem_cons_of_mem _ hd)
    rw [runEnds,runEnds,h c List.mem_cons_self,hrest]

/-- Dialects that put the symbols of a line into the same classes match it alike. -/
theorem ends_congr {p : Pattern κ} {t : Spot α} (h : ∀ k, ∀ c∈t.2, has k c=has' k c) :
    ends has word p t=ends has' word p t := by
  induction p generalizing t with
  | one k =>
    obtain ⟨b,s⟩ := t
    cases s with
    | nil => rfl
    | cons c s => rw [ends,ends,h k c List.mem_cons_self]
  | run least most k => exact runEnds_congr (h k) least most t.1
  | seq p q ihp ihq =>
    rw [ends,ends,← ihp h]
    apply List.flatMap_congr
    intro u hu
    exact ihq fun k c hc => h k c ((ends_suffix hu).subset hc)
  | alt p q ihp ihq => rw [ends,ends,ihp h,ihq h]
  | border => rfl
  | finish => rfl

theorem found_congr (p : Pattern κ) (h : ∀ k, ∀ c∈s, has k c=has' k c) :
    found has word p s=found has' word p s := by
  have hends : ends has word p (none,s)=ends has' word p (none,s) := ends_congr h
  rw [found,found,hends]

/-- The symbol behind a spot once u is read. -/
def after (b : Option α) (u : List α) : Option α := u.getLast?.or b

/-- What a pattern reads: u, the symbol b behind it and r before it. -/
def Says (has : κ → α → Bool) (word : α → Bool) : Pattern κ → Option α → List α → List α → Prop
  | .one k,_,u,_ => ∃ c, u=[c]∧has k c
  | .run least most k,_,u,_ => least ≤ u.length∧(∀ m∈most, u.length ≤ m)∧∀ c∈u, has k c
  | .seq p q,b,u,r => ∃ v w, u=v++w∧Says has word p b v (w++r)∧Says has word q (after b v) w r
  | .alt p q,b,u,r => Says has word p b u r∨Says has word q b u r
  | .border,b,u,r => u=[]∧b.any word≠r.head?.any word
  | .finish,_,u,r => u=[]∧r=[]

theorem after_cons (b : Option α) (c : α) (u : List α) : after b (c::u)=after (some c) u := by
  rw [after,after,List.getLast?_cons]
  cases u.getLast? <;> rfl

theorem after_append (b : Option α) (u v : List α) : after b (u++v)=after (after b u) v := by
  rw [after,after,after,List.getLast?_append]
  cases v.getLast? <;> rfl

theorem mem_runEnds {p : α → Bool} {least : Nat} {most : Option Nat} {b : Option α} {t : Spot α} :
    t∈runEnds p least most b s ↔ ∃ u r, s=u++r∧t=(after b u,r)∧
      least ≤ u.length∧(∀ m∈most, u.length ≤ m)∧∀ c∈u, p c := by
  induction s generalizing least most b with
  | nil =>
    rw [runEnds]
    constructor
    · intro h
      split at h
      · rename_i hleast
        exact ⟨[],[],rfl,List.mem_singleton.mp h,by simp [hleast],by simp,by simp⟩
      · cases h
    · rintro ⟨u,r,hs,rfl,hleast,-,-⟩
      obtain ⟨rfl,rfl⟩ := List.append_eq_nil_iff.mp hs.symm
      rw [if_pos (Nat.le_zero.mp hleast)]
      exact List.mem_singleton.mpr rfl
  | cons c s ih =>
    rw [runEnds,List.mem_append]
    constructor
    · rintro (h | h)
      · split at h
        · rename_i hleast
          exact ⟨[],c::s,rfl,List.mem_singleton.mp h,by simp [hleast],by simp,by simp⟩
        · cases h
      · split at h
        · rename_i hc
          obtain ⟨u,r,rfl,rfl,hleast,hmost,hall⟩ := ih.mp h
          refine ⟨c::u,r,rfl,by rw [after_cons],?_,?_,?_⟩
          · simp only [List.length_cons]
            omega
          · intro m hm
            have hpos : m≠0 := by
              rintro rfl
              exact hc.2 hm
            have := hmost (m-1) (by rw [Option.mem_def.mp hm]; rfl)
            simp only [List.length_cons]
            omega
          · exact List.forall_mem_cons.mpr ⟨hc.1,hall⟩
        · cases h
    · rintro ⟨u,r,hs,rfl,hleast,hmost,hall⟩
      cases u with
      | nil =>
        left
        rw [if_pos (Nat.le_zero.mp hleast)]
        exact List.mem_singleton.mpr (by rw [hs]; rfl)
      | cons d u =>
        obtain ⟨rfl,rfl⟩ := List.cons.inj hs
        right
        have hc : p c∧most≠some 0 := by
          refine ⟨hall c List.mem_cons_self,?_⟩
          rintro rfl
          have := hmost 0 rfl
          simp at this
        rw [if_pos hc]
        refine ih.mpr ⟨u,r,rfl,by rw [after_cons],?_,?_,?_⟩
        · simp only [List.length_cons] at hleast
          omega
        · intro m hm
          obtain ⟨k,hk,rfl⟩ := Option.map_eq_some_iff.mp hm
          have := hmost k hk
          simp only [List.length_cons] at this
          omega
        · exact fun e he => hall e (List.mem_cons_of_mem _ he)

/-- The spots a pattern ends at are those behind what it reads. -/
theorem mem_ends {p : Pattern κ} {b : Option α} {t : Spot α} :
    t∈ends has word p (b,s) ↔ ∃ u r, s=u++r∧t=(after b u,r)∧Says has word p b u r := by
  induction p generalizing b s t with
  | one k =>
    cases s with
    | nil =>
      simp only [ends,List.not_mem_nil,false_iff]
      rintro ⟨u,r,hs,-,c,rfl,-⟩
      cases hs
    | cons c s =>
      rw [ends]
      constructor
      · intro h
        split at h
        · rename_i hc
          exact ⟨[c],s,rfl,List.mem_singleton.mp h,c,rfl,hc⟩
        · cases h
      · rintro ⟨u,r,hs,rfl,d,rfl,hd⟩
        obtain ⟨rfl,rfl⟩ := List.cons.inj hs
        rw [if_pos hd]
        exact List.mem_singleton.mpr rfl
  | run least most k => exact mem_runEnds
  | seq p q ihp ihq =>
    rw [ends,List.mem_flatMap]
    constructor
    · rintro ⟨⟨a,x⟩,ha,ht⟩
      obtain ⟨v,r,rfl,heq,hv⟩ := ihp.mp ha
      cases heq
      obtain ⟨w,r,rfl,rfl,hw⟩ := ihq.mp ht
      exact ⟨v++w,r,by rw [List.append_assoc],by rw [after_append],v,w,rfl,hv,hw⟩
    · rintro ⟨u,r,rfl,rfl,v,w,rfl,hv,hw⟩
      refine ⟨(after b v,w++r),ihp.mpr ⟨v,w++r,by rw [List.append_assoc],rfl,hv⟩,?_⟩
      exact ihq.mpr ⟨w,r,rfl,by rw [after_append],hw⟩
  | alt p q ihp ihq =>
    rw [ends,List.mem_append,ihp,ihq]
    constructor
    · rintro (⟨u,r,hs,ht,h⟩ | ⟨u,r,hs,ht,h⟩)
      · exact ⟨u,r,hs,ht,.inl h⟩
      · exact ⟨u,r,hs,ht,.inr h⟩
    · rintro ⟨u,r,hs,ht,h | h⟩
      · exact .inl ⟨u,r,hs,ht,h⟩
      · exact .inr ⟨u,r,hs,ht,h⟩
  | border =>
    rw [ends]
    constructor
    · intro h
      split at h
      · rename_i hb
        exact ⟨[],s,rfl,List.mem_singleton.mp h,rfl,hb⟩
      · cases h
    · rintro ⟨u,r,rfl,rfl,rfl,hb⟩
      rw [List.nil_append,if_pos hb]
      exact List.mem_singleton.mpr rfl
  | finish =>
    rw [ends]
    constructor
    · intro h
      split at h
      · rename_i hs
        exact ⟨[],s,rfl,List.mem_singleton.mp h,rfl,hs⟩
      · cases h
    · rintro ⟨u,r,rfl,rfl,rfl,rfl⟩
      exact List.mem_singleton.mpr rfl

theorem found_iff {p : Pattern κ} : found has word p s ↔ ∃ u r, s=u++r∧Says has word p none u r := by
  rw [found,decide_eq_true_eq]
  constructor
  · intro h
    obtain ⟨t,ht⟩ := List.exists_mem_of_ne_nil _ h
    obtain ⟨u,r,hs,-,hread⟩ := mem_ends.mp ht
    exact ⟨u,r,hs,hread⟩
  · rintro ⟨u,r,hs,hread⟩
    exact List.ne_nil_of_mem (mem_ends.mpr ⟨u,r,hs,rfl,hread⟩)

end Kitp.LinePatterns
