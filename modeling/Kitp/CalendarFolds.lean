import Kitp.Lib.Bounded
import Kitp.CalendarFeeds

/-! What a reader of the feed gets back: lines unfolded, values unescaped. -/
namespace Kitp.CalendarFeeds

open Kitp.Utf8

variable {s rest : Bytes} {b : UInt8} {turns limit cut n : Nat} {chunks : List Bytes}

/-- A reader's unescaping of a TEXT value. -/
def unescape : Bytes → Bytes
  | [] => []
  | [b] => [b]
  | b::x::s =>
    if b=0x5C then (if x=0x6E∨x=0x4E then 0x0A else x)::unescape s
    else b::unescape (x::s)

/-- Every line break becomes a newline. -/
def normalise : Bytes → Bytes
  | [] => []
  | [b] => [if b=0x0D then 0x0A else b]
  | b::x::s =>
    if b=0x0D∧x=0x0A then 0x0A::normalise s
    else (if b=0x0D then 0x0A else b)::normalise (x::s)

/-- The physical lines of a text, each ended by CRLF. -/
def physicalLines : Bytes → List Bytes
  | [] => []
  | [b] => [[b]]
  | b::x::s =>
    if b=0x0D∧x=0x0A then []::physicalLines s
    else
      match physicalLines (x::s) with
      | [] => [[b]]
      | l::ls => (b::l)::ls

/-- A reader's unfolding: a line break before a space or a tab goes, with the space or tab. -/
def unfold : Bytes → Bytes
  | b::x::y::s =>
    if b=0x0D∧x=0x0A∧(y=0x20∨y=0x09) then unfold s else b::unfold (x::y::s)
  | s => s

/-- A property line as a reader splits it, at its first colon. -/
def readProp (l : Bytes) : Bytes×Bytes := (l.takeWhile (·≠0x3A),(l.dropWhile (·≠0x3A)).tail)

/-- A text on one line. -/
structure Single (s : Bytes) : Prop where
  valid : Valid s
  unbroken : ∀ b∈s, b≠0x0D∧b≠0x0A

theorem Single.append {s' : Bytes} (h : Single s) (h' : Single s') : Single (s++s') := by
  refine ⟨h.valid.append h'.valid,?_⟩
  intro b hb
  cases List.mem_append.mp hb with
  | inl hfirst => exact h.unbroken b hfirst
  | inr hsecond => exact h'.unbroken b hsecond

theorem escape_cons (h : b≠0x5C∧b≠0x3B∧b≠0x2C∧b≠0x0A∧b≠0x0D) :
    escapeText (b::s)=b::escapeText s := by
  obtain ⟨h1,h2,h3,h4,h5⟩ := h
  simp [escapeText,replace,escapes,Ne.symm h1,Ne.symm h2,Ne.symm h3,Ne.symm h4,Ne.symm h5]

theorem escape_special (h : b=0x5C∨b=0x3B∨b=0x2C) :
    escapeText (b::s)=0x5C::b::escapeText s := by
  rcases h with rfl | rfl | rfl <;> simp [escapeText,replace,escapes]

theorem escape_newline : escapeText (0x0A::s)=0x5C::0x6E::escapeText s := by
  simp [escapeText,replace,escapes]

theorem escape_crlf : escapeText (0x0D::0x0A::s)=0x5C::0x6E::escapeText s := by
  simp [escapeText,replace,escapes]

theorem escape_return (h : ∀ x∈s.head?, x≠0x0A) :
    escapeText (0x0D::s)=0x5C::0x6E::escapeText s := by
  cases s with
  | nil => simp [escapeText,replace,escapes]
  | cons x s =>
    have hx : x≠0x0A := h x rfl
    simp [escapeText,replace,escapes,Ne.symm hx]

/-- An escaped text, one token at a time. -/
theorem escape_cases (b : UInt8) (s : Bytes) :
    (∃ s', b=0x0D∧s=0x0A::s'∧escapeText (b::s)=0x5C::0x6E::escapeText s')∨
    ((b=0x0D∧(∀ x∈s.head?, x≠0x0A)∨b=0x0A)∧escapeText (b::s)=0x5C::0x6E::escapeText s)∨
    ((b=0x5C∨b=0x3B∨b=0x2C)∧escapeText (b::s)=0x5C::b::escapeText s)∨
    b≠0x5C∧b≠0x0D∧b≠0x0A∧escapeText (b::s)=b::escapeText s := by
  by_cases hcr : b=0x0D
  · subst hcr
    by_cases hlf : s.head?=some 0x0A
    · obtain ⟨s',rfl⟩ := List.head?_eq_some_iff.mp hlf
      exact Or.inl ⟨s',rfl,rfl,escape_crlf⟩
    · have hnot : ∀ x∈s.head?, x≠0x0A := by
        rintro x hx rfl
        exact hlf hx
      exact Or.inr (Or.inl ⟨Or.inl ⟨rfl,hnot⟩,escape_return hnot⟩)
  · by_cases hlf : b=0x0A
    · subst hlf
      exact Or.inr (Or.inl ⟨Or.inr rfl,escape_newline⟩)
    · by_cases hspecial : b=0x5C∨b=0x3B∨b=0x2C
      · exact Or.inr (Or.inr (Or.inl ⟨hspecial,escape_special hspecial⟩))
      · simp only [not_or] at hspecial
        obtain ⟨h1,h2,h3⟩ := hspecial
        exact Or.inr (Or.inr (Or.inr ⟨h1,hcr,hlf,escape_cons ⟨h1,h2,h3,hlf,hcr⟩⟩))

/-- No line break is left in an escaped text. -/
theorem escape_unbroken (s : Bytes) : ∀ b∈escapeText s, b≠0x0D∧b≠0x0A := by
  induction hn : s.length using Nat.strongRecOn generalizing s with
  | ind n ih =>
    cases s with
    | nil =>
      intro b hb
      exact absurd hb List.not_mem_nil
    | cons x s =>
      rw [List.length_cons] at hn
      have hlow : ∀ t, t.length ≤ s.length → ∀ b∈escapeText t, b≠0x0D∧b≠0x0A :=
        fun t ht => ih t.length (by omega) t rfl
      rcases escape_cases x s with ⟨s',-,rfl,heq⟩ | ⟨-,heq⟩ | ⟨hx,heq⟩ | ⟨-,hcr,hlf,heq⟩
      · rw [heq]
        simp only [List.forall_mem_cons]
        exact ⟨by decide,by decide,hlow s' (Nat.le_succ _)⟩
      · rw [heq]
        simp only [List.forall_mem_cons]
        exact ⟨by decide,by decide,hlow s (Nat.le_refl _)⟩
      · rw [heq]
        simp only [List.forall_mem_cons]
        refine ⟨by decide,?_,hlow s (Nat.le_refl _)⟩
        rcases hx with rfl | rfl | rfl <;> decide
      · rw [heq]
        simp only [List.forall_mem_cons]
        exact ⟨⟨hcr,hlf⟩,hlow s (Nat.le_refl _)⟩

/-- What was escaped comes back, its line breaks as newlines. -/
theorem unescape_escape (s : Bytes) : unescape (escapeText s)=normalise s := by
  induction hn : s.length using Nat.strongRecOn generalizing s with
  | ind n ih =>
    cases s with
    | nil => rfl
    | cons x s =>
      rw [List.length_cons] at hn
      have hlow : ∀ t, t.length ≤ s.length → unescape (escapeText t)=normalise t :=
        fun t ht => ih t.length (by omega) t rfl
      have hnext : ∀ y t, unescape (0x5C::y::t)=
          (if y=0x6E∨y=0x4E then 0x0A else y)::unescape t := fun _ _ => rfl
      rcases escape_cases x s with ⟨s',rfl,rfl,heq⟩ | ⟨hx,heq⟩ | ⟨hx,heq⟩ | ⟨hb,hcr,hlf,heq⟩
      · rw [heq,hnext,hlow s' (Nat.le_succ _)]
        rfl
      · have hnorm : normalise (x::s)=0x0A::normalise s := by
          cases s with
          | nil => rcases hx with ⟨rfl,-⟩ | rfl <;> rfl
          | cons y s =>
            rcases hx with ⟨rfl,hy⟩ | rfl
            · have hne : y≠0x0A := hy y rfl
              simp [normalise,hne]
            · simp [normalise]
        rw [heq,hnext,hlow s (Nat.le_refl _),hnorm]
        rfl
      · have hnorm : normalise (x::s)=x::normalise s := by
          cases s <;> rcases hx with rfl | rfl | rfl <;> rfl
        rw [heq,hnext,hlow s (Nat.le_refl _),hnorm,if_neg]
        rcases hx with rfl | rfl | rfl <;> decide
      · have hnorm : normalise (x::s)=x::normalise s := by
          cases s <;> simp [normalise,hcr]
        have hcons : unescape (x::escapeText s)=x::unescape (escapeText s) := by
          cases escapeText s with
          | nil => rfl
          | cons y t => simp [unescape,hb]
        rw [heq,hcons,hlow s (Nat.le_refl _),hnorm]

/-- Bytes that aren't ASCII are written as they are. -/
theorem escape_high (h : ∀ b∈s, 0x80≤b) : escapeText (s++rest)=s++escapeText rest := by
  induction s with
  | nil => rfl
  | cons b s ih =>
    obtain ⟨hb,hs⟩ := List.forall_mem_cons.mp h
    have hne : b≠0x5C∧b≠0x3B∧b≠0x2C∧b≠0x0A∧b≠0x0D := by
      refine ⟨?_,?_,?_,?_,?_⟩ <;> rintro rfl <;> exact absurd hb (by decide)
    rw [List.cons_append,escape_cons hne,ih hs,List.cons_append]

theorem escape_valid (h : Valid s) : Valid (escapeText s) := by
  obtain ⟨cs,rfl⟩ := h
  induction hn : cs.length using Nat.strongRecOn generalizing cs with
  | ind n ih =>
    cases cs with
    | nil => exact Valid.nil
    | cons c cs =>
      rw [List.length_cons] at hn
      have hrest : Valid (escapeText (encode cs)) := ih cs.length (by omega) cs rfl
      rw [encode_cons]
      rcases encodeChar_cases c with ⟨b,hchar,hb⟩ | ⟨b,more,hchar,-,-,hb,hmore⟩
      · rw [hchar,List.singleton_append]
        rcases escape_cases b (encode cs) with ⟨s',-,hs,heq⟩ | ⟨-,heq⟩ | ⟨-,heq⟩ | ⟨-,-,-,heq⟩
        · -- the newline after the return is a character of its own
          rw [heq]
          refine (Valid.cons_ascii (by decide) (Valid.cons_ascii (by decide) ?_))
          cases cs with
          | nil => cases hs
          | cons d cs =>
            rw [List.length_cons] at hn
            rw [encode_cons] at hs
            rcases encodeChar_cases d with ⟨x,hd,-⟩ | ⟨x,more,hd,-,-,hx,-⟩
            · rw [hd,List.singleton_append] at hs
              rw [← (List.cons.inj hs).2]
              exact ih cs.length (by omega) cs rfl
            · rw [hd,List.cons_append] at hs
              rw [(List.cons.inj hs).1] at hx
              exact absurd hx (by decide)
        · rw [heq]
          exact Valid.cons_ascii (by decide) (Valid.cons_ascii (by decide) hrest)
        · rw [heq]
          exact Valid.cons_ascii (by decide) (Valid.cons_ascii hb hrest)
        · rw [heq]
          exact Valid.cons_ascii hb hrest
      · have hhigh : ∀ x∈String.utf8EncodeChar c, 0x80≤x := by
          rw [hchar]
          exact List.forall_mem_cons.mpr ⟨hb,fun x hx => (hmore x hx).2⟩
        rw [escape_high hhigh]
        exact (valid_char c).append hrest

theorem escape_single (h : Valid s) : Single (escapeText s) :=
  ⟨escape_valid h,escape_unbroken s⟩

/-- The pieces of a folded line, as they are written. -/
def folded : List Bytes → Bytes
  | [] => []
  | [c] => c++[0x0D,0x0A]
  | c::d::cs => c++[0x0D,0x0A,0x20]++folded (d::cs)

/-- What folding makes of a line. -/
structure Folds (limit : Nat) (s : Bytes) (chunks : List Bytes) : Prop where
  nonempty : chunks≠[]
  all : chunks.flatten=s
  valid : ∀ c∈chunks, Valid c
  first : ∀ c∈chunks.head?, c.length≤limit
  more : ∀ c∈chunks.tail, c.length≤74
  start : ∀ c∈chunks.head?, s≠[] → c≠[]

theorem cutBack_le : cutBack s limit≤limit := by
  induction limit with
  | zero => exact Nat.le_refl 0
  | succ limit ih =>
    unfold cutBack
    split
    · exact Nat.le_refl _
    · exact Nat.le_succ_of_le ih

/-- The cut is after every start of a character up to the limit. -/
theorem le_cutBack (hle : n≤limit) (hget : s[n]?=some b) (hstart : runeStart b=true) :
    n ≤ cutBack s limit := by
  induction limit with
  | zero => exact hle
  | succ limit ih =>
    unfold cutBack
    split
    · exact hle
    · rename_i hinside
      cases Nat.lt_or_eq_of_le hle with
      | inl hlt => exact ih (Nat.le_of_lt_succ hlt)
      | inr heq =>
        rw [← heq,List.getD_eq_getElem?_getD,hget] at hinside
        exact absurd hstart hinside

theorem cutBack_start (hpos : 0 < cutBack s limit) :
    runeStart (s.getD (cutBack s limit) 0)=true := by
  induction limit with
  | zero => exact absurd hpos (Nat.lt_irrefl 0)
  | succ limit ih =>
    unfold cutBack at hpos ⊢
    split
    · assumption
    · rename_i hinside
      rw [if_neg hinside] at hpos
      exact ih hpos

/-- A cut of a valid text leaves two valid texts, the first not much shorter than it may be. -/
theorem cutBack_spec (h : Valid s) (hlong : limit < s.length) (hlimit : 4≤limit) :
    Valid (s.take (cutBack s limit))∧Valid (s.drop (cutBack s limit))∧
      limit ≤ cutBack s limit+3 := by
  obtain ⟨m,b,hle,hnear,hget,hstart⟩ := h.back hlong
  have hcut := le_cutBack hle hget hstart
  have hpos : 0 < cutBack s limit := by omega
  have hcuts := h.cut (n := cutBack s limit) (by
    intro x hx
    have hfirst := cutBack_start hpos
    rwa [List.getD_eq_getElem?_getD,hx] at hfirst)
  exact ⟨hcuts.1,hcuts.2,by omega⟩

/-- The loop ends, whatever more turns it is given. -/
theorem fold_spec (h : Valid s) (hlimit : 4≤limit) :
    ∃ chunks, Folds limit s chunks∧∀ turns, s.length < turns →
      fold turns limit s=some (folded chunks) := by
  induction hn : s.length using Nat.strongRecOn generalizing s limit with
  | ind n ih =>
    by_cases hlong : limit < s.length
    · obtain ⟨htake,hdrop,hnear⟩ := cutBack_spec h hlong hlimit
      have hle : cutBack s limit≤limit := cutBack_le
      have hshort : (s.drop (cutBack s limit)).length < n := by
        rw [List.length_drop]
        omega
      obtain ⟨chunks,hfolds,hrun⟩ := ih _ hshort hdrop (by omega : 4≤74) rfl
      obtain ⟨d,cs,rfl⟩ := List.exists_cons_of_ne_nil hfolds.nonempty
      refine ⟨s.take (cutBack s limit)::d::cs,⟨List.cons_ne_nil _ _,?_,?_,?_,?_,?_⟩,?_⟩
      · rw [List.flatten_cons,hfolds.all,List.take_append_drop]
      · exact List.forall_mem_cons.mpr ⟨htake,hfolds.valid⟩
      · intro c hc
        rw [← Option.some.inj hc,List.length_take]
        omega
      · exact List.forall_mem_cons.mpr ⟨hfolds.first d rfl,hfolds.more⟩
      · intro c hc _ hnil
        have hlen := congrArg List.length (Option.some.inj hc)
        rw [hnil,List.length_take,List.length_nil] at hlen
        omega
      · intro turns hturns
        cases turns with
        | zero => exact absurd hturns (Nat.not_lt_zero _)
        | succ turns =>
          unfold fold
          rw [if_pos hlong]
          dsimp only
          rw [hrun turns (by omega)]
          rfl
    · refine ⟨[s],⟨List.cons_ne_nil _ _,List.append_nil s,?_,?_,?_,?_⟩,?_⟩
      · exact List.forall_mem_cons.mpr ⟨h,fun _ hc => absurd hc List.not_mem_nil⟩
      · intro c hc
        rw [← Option.some.inj hc]
        omega
      · exact fun _ hc => absurd hc List.not_mem_nil
      · exact fun c hc hne => Option.some.inj hc ▸ hne
      · intro turns hturns
        cases turns with
        | zero => exact absurd hturns (Nat.not_lt_zero _)
        | succ turns =>
          unfold fold
          rw [if_neg hlong]
          rfl

/-- A space or a tab begins no property line. -/
def Begins (s : Bytes) : Prop := ∀ b∈s.head?, b≠0x20∧b≠0x09

theorem unfold_cons (h : b≠0x0D) : unfold (b::s)=b::unfold s := by
  match s with
  | [] => rfl
  | [_] => rfl
  | x::y::s =>
    rw [unfold,if_neg]
    exact fun hbreak => h hbreak.1

theorem unfold_text (h : ∀ b∈s, b≠0x0D) : unfold (s++rest)=s++unfold rest := by
  induction s with
  | nil => rfl
  | cons b s ih =>
    obtain ⟨hb,hs⟩ := List.forall_mem_cons.mp h
    rw [List.cons_append,unfold_cons hb,ih hs,List.cons_append]

theorem unfold_end (h : Begins rest) : unfold (0x0D::0x0A::rest)=0x0D::0x0A::unfold rest := by
  cases rest with
  | nil => rfl
  | cons y rest =>
    have hy := h y rfl
    rw [unfold,if_neg]
    · rw [unfold_cons (by decide : (0x0A : UInt8)≠0x0D)]
    · rintro ⟨-,-,hspace | htab⟩
      · exact hy.1 hspace
      · exact hy.2 htab

/-- Unfolding puts the pieces together. -/
theorem unfold_folded (hne : chunks≠[]) (h : ∀ c∈chunks, ∀ b∈c, b≠0x0D) (hrest : Begins rest) :
    unfold (folded chunks++rest)=chunks.flatten++[0x0D,0x0A]++unfold rest := by
  induction chunks with
  | nil => exact absurd rfl hne
  | cons c cs ih =>
    obtain ⟨hc,hcs⟩ := List.forall_mem_cons.mp h
    cases cs with
    | nil =>
      have hpiece : folded [c]++rest=c++(0x0D::0x0A::rest) := by
        simp [folded]
      rw [hpiece,unfold_text hc,unfold_end hrest]
      simp
    | cons d ds =>
      have hpiece : folded (c::d::ds)++rest=c++(0x0D::0x0A::0x20::(folded (d::ds)++rest)) := by
        simp [folded]
      have hbreak : unfold (0x0D::0x0A::0x20::(folded (d::ds)++rest))=
          unfold (folded (d::ds)++rest) := by
        rw [unfold,if_pos]
        exact ⟨rfl,rfl,Or.inl rfl⟩
      rw [hpiece,unfold_text hc,hbreak,ih (List.cons_ne_nil _ _) hcs]
      simp

theorem physicalLines_line (h : ∀ b∈s, b≠0x0D) :
    physicalLines (s++0x0D::0x0A::rest)=s::physicalLines rest := by
  induction s with
  | nil => rfl
  | cons b s ih =>
    obtain ⟨hb,hs⟩ := List.forall_mem_cons.mp h
    have hcons : ∃ x t, s++0x0D::0x0A::rest=x::t := by
      cases s with
      | nil => exact ⟨_,_,rfl⟩
      | cons y s => exact ⟨_,_,rfl⟩
    obtain ⟨x,t,ht⟩ := hcons
    rw [List.cons_append,ht,physicalLines,if_neg (fun hbreak => hb hbreak.1),← ht,ih hs]

/-- The physical lines of a folded line are its pieces, each but the first after a space. -/
theorem physicalLines_folded (hne : chunks≠[]) (h : ∀ c∈chunks, ∀ b∈c, b≠0x0D) :
    physicalLines (folded chunks++rest)=
      (chunks.take 1++chunks.tail.map (0x20::·))++physicalLines rest := by
  have hgen : ∀ (pre : Bytes) (chunks : List Bytes), chunks≠[] → (∀ b∈pre, b≠0x0D) →
      (∀ c∈chunks, ∀ b∈c, b≠0x0D) → physicalLines (pre++folded chunks++rest)=
        ((chunks.take 1).map (pre++·)++chunks.tail.map (0x20::·))++physicalLines rest := by
    intro pre chunks hne hpre h
    induction chunks generalizing pre with
    | nil => exact absurd rfl hne
    | cons c cs ih =>
      obtain ⟨hc,hcs⟩ := List.forall_mem_cons.mp h
      have hfirst : ∀ b∈pre++c, b≠0x0D := by
        intro b hb
        cases List.mem_append.mp hb with
        | inl hin => exact hpre b hin
        | inr hin => exact hc b hin
      cases cs with
      | nil =>
        have hpiece : pre++folded [c]++rest=(pre++c)++0x0D::0x0A::rest := by simp [folded]
        rw [hpiece,physicalLines_line hfirst]
        rfl
      | cons d ds =>
        have hpiece : pre++folded (c::d::ds)++rest=
            (pre++c)++0x0D::0x0A::([0x20]++folded (d::ds)++rest) := by simp [folded]
        have hspace : ∀ b∈([0x20] : Bytes), b≠0x0D := by decide
        rw [hpiece,physicalLines_line hfirst,ih [0x20] (List.cons_ne_nil _ _) hspace hcs]
        simp
  have hall := hgen [] chunks hne (fun _ hb => absurd hb List.not_mem_nil) h
  simpa using hall

end Kitp.CalendarFeeds
