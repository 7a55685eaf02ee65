import Mathlib.Data.List.Chain
import Mathlib.Data.List.TakeWhile

/-! Unicode normal forms over the tables of the character data: canonical decomposition, canonical
order and composition, and where a text may be cut between them. -/
namespace Kitp.Normalization

/-- Full canonical decompositions, combining classes, the primary composites and which characters
are the second of one. -/
structure Tables where
  decomp : Char → List Char
  ccc : Char → Nat
  comp : Char → Char → Option Char
  second : Char → Bool

variable {U : Tables} {s t x y : List Char} {b c d l p : Char}

/-- The character never changes what stands before it. -/
def Tables.starts (U : Tables) (c : Char) : Bool :=
  (U.decomp c).head?.any fun b => U.ccc b=0∧¬U.second b

/-- What the character data promises. -/
structure Tables.Lawful (U : Tables) : Prop where
  nonempty : ∀ c, U.decomp c≠[]
  full : ∀ c, ∀ d∈U.decomp c, U.decomp d=[d]
  composite : ∀ l c p, U.comp l c=some p → U.decomp p=U.decomp l++U.decomp c
  second : ∀ l c p, U.comp l c=some p → U.second c
  rest : ∀ l c p, U.comp l c=some p → ∀ d∈(U.decomp p).tail, U.starts d=false
  joins : ∀ c, U.starts c=false → ∀ d∈U.decomp c, U.starts d=false

/-- A mark moves behind the marks of lower class. -/
def insertMark (U : Tables) (c : Char) : List Char → List Char
  | [] => [c]
  | d::s => if U.ccc d≠0∧U.ccc d < U.ccc c then d::insertMark U c s else c::d::s

def reorder (U : Tables) : List Char → List Char
  | [] => []
  | c::s => insertMark U c (reorder U s)

def nfd (U : Tables) (s : List Char) : List Char := reorder U (s.flatMap U.decomp)

/-- The composition behind a starter, of which these marks were kept apart. -/
def composeFrom (U : Tables) (l : Char) (kept : List Char) : List Char → List Char
  | [] => l::kept
  | c::s =>
    match if kept.all (U.ccc · < U.ccc c) then U.comp l c else none with
    | some p => composeFrom U p kept s
    | none =>
      if U.ccc c=0 then l::kept++composeFrom U c [] s else composeFrom U l (kept++[c]) s

def compose (U : Tables) : List Char → List Char
  | [] => []
  | c::s => if U.ccc c=0 then composeFrom U c [] s else c::compose U s

def nfc (U : Tables) (s : List Char) : List Char := compose U (nfd U s)

def IsNFC (U : Tables) (s : List Char) : Prop := nfc U s=s

instance (U : Tables) (s : List Char) : Decidable (IsNFC U s) := inferInstanceAs (Decidable (nfc U s=s))

/-- Decomposed and in canonical order. -/
structure IsNFD (U : Tables) (s : List Char) : Prop where
  plain : ∀ c∈s, U.decomp c=[c]
  ordered : s.IsChain fun a b => U.ccc b=0∨U.ccc a≤U.ccc b

theorem insertMark_perm (c : Char) (s : List Char) : (insertMark U c s).Perm (c::s) := by
  induction s with
  | nil => exact .refl _
  | cons d s ih =>
    rw [insertMark]
    split
    · exact (ih.cons d).trans (.swap c d s)
    · exact .refl _

theorem reorder_perm (s : List Char) : (reorder U s).Perm s := by
  induction s with
  | nil => exact .refl _
  | cons c s ih => exact (insertMark_perm c _).trans (ih.cons c)

theorem insertMark_comm (hb : U.ccc b≠0) (hc : U.ccc b < U.ccc c) (s : List Char) :
    insertMark U c (insertMark U b s)=insertMark U b (insertMark U c s) := by
  have hnot : ¬U.ccc c < U.ccc b := by omega
  induction s with
  | nil => simp [insertMark,hb,hc,hnot]
  | cons d s ih =>
    by_cases hd : U.ccc d≠0∧U.ccc d < U.ccc b
    · have hdc : U.ccc d≠0∧U.ccc d < U.ccc c := ⟨hd.1,by omega⟩
      rw [insertMark,if_pos hd,insertMark,if_pos hdc,insertMark,if_pos hdc,insertMark,if_pos hd,ih]
    · rw [insertMark,if_neg hd,insertMark,if_pos ⟨hb,hc⟩]
      by_cases hdc : U.ccc d≠0∧U.ccc d < U.ccc c
      · rw [insertMark,if_pos hdc,insertMark,if_neg hd]
      · rw [insertMark,if_neg hdc,insertMark,if_neg fun h => hnot h.2]

theorem reorder_append_right (h : reorder U x=reorder U y) (s : List Char) :
    reorder U (s++x)=reorder U (s++y) := by
  induction s with
  | nil => exact h
  | cons c s ih => exact congrArg (insertMark U c) ih

/-- A mark may be moved over marks of lower class. -/
theorem reorder_move {marks : List Char} (h : ∀ b∈marks, U.ccc b≠0∧U.ccc b < U.ccc c)
    (s : List Char) : reorder U (c::(marks++s))=reorder U (marks++c::s) := by
  induction marks with
  | nil => rfl
  | cons b marks ih =>
    have hb := h b List.mem_cons_self
    have hrest := ih fun d hd => h d (List.mem_cons_of_mem _ hd)
    calc
      reorder U (c::(b::marks++s))=insertMark U c (insertMark U b (reorder U (marks++s))) := rfl
      _ = insertMark U b (reorder U (c::(marks++s))) := insertMark_comm hb.1 hb.2 _
      _ = reorder U (b::marks++c::s) := congrArg (insertMark U b) hrest

/-- A starter is a border for the order. -/
theorem insertMark_append (hb : U.ccc b=0) (c : Char) (x y : List Char) :
    insertMark U c (x++b::y)=insertMark U c x++b::y := by
  induction x with
  | nil => simp [insertMark,hb]
  | cons d x ih =>
    rw [List.cons_append,insertMark,insertMark,ih]
    split <;> rfl

theorem reorder_append (hb : U.ccc b=0) (x y : List Char) :
    reorder U (x++b::y)=reorder U x++reorder U (b::y) := by
  have hstays (z : List Char) : insertMark U b z=b::z := by
    cases z with
    | nil => rfl
    | cons d z => exact if_neg fun h => by omega
  induction x with
  | nil => rfl
  | cons c x ih =>
    rw [List.cons_append,reorder,ih,reorder,reorder,hstays,insertMark_append hb]

theorem reorder_cons (hb : U.ccc b=0) (y : List Char) : reorder U (b::y)=b::reorder U y := by
  cases hy : reorder U y with
  | nil => rw [reorder,hy,insertMark]
  | cons d z => rw [reorder,hy,insertMark,if_neg fun h => by omega]

theorem reorder_starters (hx : ∀ b∈x, U.ccc b=0) (y : List Char) :
    reorder U (x++y)=x++reorder U y := by
  induction x with
  | nil => rfl
  | cons b x ih =>
    rw [List.cons_append,reorder_cons (hx b List.mem_cons_self),
      ih fun d hd => hx d (List.mem_cons_of_mem _ hd)]
    rfl

theorem insertMark_ordered (h : s.IsChain fun a b => U.ccc b=0∨U.ccc a≤U.ccc b) :
    (insertMark U c s).IsChain fun a b => U.ccc b=0∨U.ccc a≤U.ccc b := by
  induction s with
  | nil => exact .singleton c
  | cons d s ih =>
    rw [insertMark]
    split
    · rename_i hd
      have htail := ih h.tail
      cases s with
      | nil => exact .cons_cons (.inr (by omega)) (.singleton c)
      | cons e s =>
        rw [insertMark] at htail ⊢
        split at htail
        · rename_i he
          rw [if_pos he]
          exact .cons_cons (List.isChain_cons_cons.mp h).1 htail
        · rename_i he
          rw [if_neg he]
          exact .cons_cons (.inr (by omega)) htail
    · exact .cons_cons (by omega) h

theorem reorder_ordered (s : List Char) :
    (reorder U s).IsChain fun a b => U.ccc b=0∨U.ccc a≤U.ccc b := by
  induction s with
  | nil => exact .nil
  | cons c s ih => exact insertMark_ordered ih

theorem reorder_of_ordered (h : s.IsChain fun a b => U.ccc b=0∨U.ccc a≤U.ccc b) :
    reorder U s=s := by
  induction s with
  | nil => rfl
  | cons c s ih =>
    rw [reorder,ih h.tail]
    cases s with
    | nil => rfl
    | cons d s =>
      have hcd := (List.isChain_cons_cons.mp h).1
      exact if_neg fun hd => by omega

theorem flatMap_plain (h : ∀ c∈s, U.decomp c=[c]) : s.flatMap U.decomp=s := by
  induction s with
  | nil => rfl
  | cons c s ih =>
    rw [List.flatMap_cons,h c List.mem_cons_self,ih fun d hd => h d (List.mem_cons_of_mem _ hd)]
    rfl

theorem IsNFD.eq (h : IsNFD U s) : nfd U s=s := by
  rw [nfd,flatMap_plain h.plain,reorder_of_ordered h.ordered]

theorem nfd_isNFD (hU : U.Lawful) (s : List Char) : IsNFD U (nfd U s) := by
  constructor
  · intro c hc
    obtain ⟨e,-,hce⟩ := List.mem_flatMap.mp ((reorder_perm _).mem_iff.mp hc)
    exact hU.full e c hce
  · exact reorder_ordered _

theorem nfd_nfd (hU : U.Lawful) (s : List Char) : nfd U (nfd U s)=nfd U s := (nfd_isNFD hU s).eq

/-- Composing keeps a text canonically the same. -/
theorem nfd_composeFrom (hU : U.Lawful) {kept : List Char}
    (hkept : ∀ b∈kept, U.ccc b≠0∧U.decomp b=[b]) (hs : ∀ c∈s, U.decomp c=[c]) :
    nfd U (composeFrom U l kept s)=nfd U (l::kept++s) := by
  induction s generalizing l kept with
  | nil => rw [composeFrom,List.append_nil]
  | cons c s ih =>
    have hc := hs c List.mem_cons_self
    have hrest : ∀ d∈s, U.decomp d=[d] := fun d hd => hs d (List.mem_cons_of_mem _ hd)
    rw [composeFrom]
    split
    · rename_i p hp
      split at hp
      · rename_i hlow
        rw [ih hkept hrest,nfd,nfd]
        have hmarks : ∀ b∈kept, U.ccc b≠0∧U.ccc b < U.ccc c := by
          intro b hb
          exact ⟨(hkept b hb).1,by simpa using List.all_eq_true.mp hlow b hb⟩
        have hplain := flatMap_plain fun b hb => (hkept b hb).2
        have hmove := reorder_append_right (reorder_move hmarks (s.flatMap U.decomp)) (U.decomp l)
        simpa [List.flatMap_append,hU.composite l c p hp,hc,hplain] using hmove
      · cases hp
    · split
      · have hnext : nfd U (composeFrom U c [] s)=nfd U (c::s) := ih (by simp) hrest
        rw [nfd,nfd,List.flatMap_append,List.flatMap_append]
        exact reorder_append_right hnext _
      · rename_i hmark
        have hkept' : ∀ b∈kept++[c], U.ccc b≠0∧U.decomp b=[b] := by
          intro b hb
          cases List.mem_append.mp hb with
          | inl hb => exact hkept b hb
          | inr hb => exact List.mem_singleton.mp hb ▸ ⟨hmark,hc⟩
        rw [ih hkept' hrest]
        simp

theorem nfd_compose (hU : U.Lawful) (hs : ∀ c∈s, U.decomp c=[c]) :
    nfd U (compose U s)=nfd U s := by
  induction s with
  | nil => rfl
  | cons c s ih =>
    have hrest : ∀ d∈s, U.decomp d=[d] := fun d hd => hs d (List.mem_cons_of_mem _ hd)
    rw [compose]
    split
    · exact nfd_composeFrom hU (by simp) hrest
    · have hs := ih hrest
      rw [nfd,nfd,List.flatMap_cons,List.flatMap_cons]
      exact reorder_append_right hs _

theorem nfd_nfc (hU : U.Lawful) (s : List Char) : nfd U (nfc U s)=nfd U s := by
  rw [nfc,nfd_compose hU (nfd_isNFD hU s).plain,nfd_nfd hU]

theorem nfc_isNFC (hU : U.Lawful) (s : List Char) : IsNFC U (nfc U s) := by
  rw [IsNFC]
  conv_lhs => rw [nfc,nfd_nfc hU]
  rfl

/-- Texts are canonically equivalent exactly when their normal forms are the same. -/
theorem nfc_eq_iff (hU : U.Lawful) : nfc U s=nfc U t↔nfd U s=nfd U t := by
  constructor
  · intro h
    rw [← nfd_nfc hU s,h,nfd_nfc hU]
  · intro h
    rw [nfc,h,nfc]

theorem starts_iff : U.starts c↔∃ b more, U.decomp c=b::more∧U.ccc b=0∧U.second b=false := by
  rw [Tables.starts]
  cases U.decomp c with
  | nil => simp
  | cons b more => simp

theorem composeFrom_append (hU : U.Lawful) (hb : U.ccc b=0) (hsecond : U.second b=false)
    {kept : List Char} (x y : List Char) :
    composeFrom U l kept (x++b::y)=composeFrom U l kept x++composeFrom U b [] y := by
  have hnone (l : Char) : U.comp l b=none := by
    cases hl : U.comp l b with
    | none => rfl
    | some p => exact absurd (hU.second l b p hl) (by simp [hsecond])
  induction x generalizing l kept with
  | nil => simp [composeFrom,hnone,hb]
  | cons c x ih =>
    rw [List.cons_append,composeFrom,composeFrom]
    split
    · exact ih
    · split
      · rw [ih,List.append_assoc]
      · exact ih

theorem compose_append (hU : U.Lawful) (hb : U.ccc b=0) (hsecond : U.second b=false)
    (x y : List Char) : compose U (x++b::y)=compose U x++composeFrom U b [] y := by
  induction x with
  | nil => simp [compose,hb]
  | cons c x ih =>
    rw [List.cons_append,compose,compose]
    split
    · exact composeFrom_append hU hb hsecond x y
    · rw [ih,List.cons_append]

/-- A text may be normalised in pieces that begin with a starting character. -/
theorem nfc_append (hU : U.Lawful) (hc : U.starts c) (x y : List Char) :
    nfc U (x++c::y)=nfc U x++nfc U (c::y) := by
  obtain ⟨b,more,hdecomp,hb,hsecond⟩ := starts_iff.mp hc
  have hsplit : nfd U (x++c::y)=nfd U x++b::reorder U (more++y.flatMap U.decomp) := by
    rw [nfd,nfd,List.flatMap_append,List.flatMap_cons,hdecomp,List.cons_append,reorder_append hb,
      reorder_cons hb]
  have hsecondPart : nfd U (c::y)=b::reorder U (more++y.flatMap U.decomp) := by
    rw [nfd,List.flatMap_cons,hdecomp,List.cons_append,reorder_cons hb]
  rw [nfc,nfc,nfc,hsplit,hsecondPart,compose_append hU hb hsecond,compose,if_pos hb]

/-- Nothing combines with the character. -/
structure Inert (U : Tables) (c : Char) : Prop where
  plain : U.decomp c=[c]
  starter : U.ccc c=0
  first : ∀ d, U.comp c d=none
  second : U.second c=false

theorem Inert.starts (h : Inert U c) : U.starts c :=
  starts_iff.mpr ⟨c,[],h.plain,h.starter,h.second⟩

theorem composeFrom_inert (h : ∀ d, U.comp l d=none) (kept s : List Char) :
    composeFrom U l kept s=l::kept++compose U s := by
  induction s generalizing kept with
  | nil => rw [composeFrom,compose,List.append_nil]
  | cons c s ih =>
    rw [composeFrom,compose,h,ite_self]
    dsimp only
    split
    · rfl
    · rw [ih]
      simp

theorem nfc_inert_cons (h : Inert U c) (s : List Char) : nfc U (c::s)=c::nfc U s := by
  have hnfd : nfd U (c::s)=c::nfd U s := by
    rw [nfd,List.flatMap_cons,h.plain]
    exact reorder_cons h.starter _
  rw [nfc,hnfd,compose,if_pos h.starter,composeFrom_inert h.first]
  rfl

theorem nfc_inert {u : List Char} (h : ∀ c∈u, Inert U c) (s : List Char) :
    nfc U (u++s)=u++nfc U s := by
  induction u with
  | nil => rfl
  | cons c u ih =>
    rw [List.cons_append,nfc_inert_cons (h c List.mem_cons_self),
      ih fun d hd => h d (List.mem_cons_of_mem _ hd)]
    rfl

/-- Inert characters at the ends say nothing about the form of what they enclose. -/
theorem isNFC_between (hU : U.Lawful) {u v : List Char} (hu : ∀ c∈u, Inert U c)
    (hv : ∀ c∈v, Inert U c) : IsNFC U (u++s++v)↔IsNFC U s := by
  have hback : nfc U (s++v)=nfc U s++v := by
    cases v with
    | nil => rw [List.append_nil,List.append_nil]
    | cons c v =>
      have hall := nfc_inert hv []
      have hnil : nfc U []=[] := rfl
      rw [List.append_nil,hnil,List.append_nil] at hall
      rw [nfc_append hU (hv c List.mem_cons_self).starts,hall]
  rw [IsNFC,IsNFC,List.append_assoc,nfc_inert hu,hback,List.append_cancel_left_eq,
    List.append_cancel_right_eq]

/-- A composite of primary ones, or none. -/
def Composed (U : Tables) (c : Char) : Prop := ∃ l d, U.comp l d=some c

theorem starts_comp (hU : U.Lawful) (h : U.comp l c=some p) : U.starts p=U.starts l := by
  obtain ⟨b,more,hl⟩ := List.exists_cons_of_ne_nil (hU.nonempty l)
  rw [Tables.starts,Tables.starts,hU.composite l c p h,hl]
  rfl

/-- The first character that a composition behind a starter leaves. -/
theorem composeFrom_head (hU : U.Lawful) (l : Char) (kept s : List Char) :
    ∃ d z, composeFrom U l kept s=d::z∧U.starts d=U.starts l∧(d=l∨Composed U d) := by
  induction s generalizing l kept with
  | nil => exact ⟨l,kept,rfl,rfl,.inl rfl⟩
  | cons c s ih =>
    rw [composeFrom]
    split
    · rename_i p hp
      have hcomp : U.comp l c=some p := by
        split at hp
        · exact hp
        · cases hp
      obtain ⟨d,z,hz,hstarts,hd⟩ := ih p kept
      refine ⟨d,z,hz,hstarts.trans (starts_comp hU hcomp),.inr ?_⟩
      cases hd with
      | inl hd => exact ⟨l,c,hd ▸ hcomp⟩
      | inr hd => exact hd
    · split
      · exact ⟨l,_,rfl,rfl,.inl rfl⟩
      · exact ih l (kept++[c])

/-- Behind it no character starts where none did. -/
theorem composeFrom_quiet (hU : U.Lawful) {kept : List Char} {z : List Char}
    (hkept : ∀ b∈kept, U.starts b=false) (hs : ∀ c∈s, U.starts c=false)
    (h : composeFrom U l kept s=d::z) : ∀ c∈z, U.starts c=false := by
  induction s generalizing l kept d z with
  | nil =>
    cases h
    exact hkept
  | cons c s ih =>
    have hc := hs c List.mem_cons_self
    have hrest : ∀ e∈s, U.starts e=false := fun e he => hs e (List.mem_cons_of_mem _ he)
    rw [composeFrom] at h
    split at h
    · exact ih hkept hrest h
    · split at h
      · obtain ⟨e,w,hw,hstarts,-⟩ := composeFrom_head hU c [] s
        have hquiet := ih (by simp) hrest hw
        rw [List.cons_append,hw] at h
        cases h
        intro a ha
        cases List.mem_append.mp ha with
        | inl ha => exact hkept a ha
        | inr ha =>
          cases List.mem_cons.mp ha with
          | inl ha => rw [ha,hstarts,hc]
          | inr ha => exact hquiet a ha
      · apply ih ?_ hrest h
        intro b hb
        cases List.mem_append.mp hb with
        | inl hb => exact hkept b hb
        | inr hb => rw [List.mem_singleton.mp hb,hc]

theorem compose_quiet (hU : U.Lawful) (hs : ∀ c∈s, U.starts c=false) :
    ∀ c∈compose U s, U.starts c=false := by
  induction s with
  | nil => simp [compose]
  | cons c s ih =>
    have hc := hs c List.mem_cons_self
    have hrest : ∀ e∈s, U.starts e=false := fun e he => hs e (List.mem_cons_of_mem _ he)
    rw [compose]
    split
    · obtain ⟨e,w,hw,hstarts,-⟩ := composeFrom_head hU c [] s
      have hquiet := composeFrom_quiet hU (by simp) hrest hw
      rw [hw,List.forall_mem_cons]
      exact ⟨hstarts.trans hc,hquiet⟩
    · rw [List.forall_mem_cons]
      exact ⟨hc,ih hrest⟩

theorem flatMap_quiet (hU : U.Lawful) (hs : ∀ c∈s, U.starts c=false) :
    ∀ c∈s.flatMap U.decomp, U.starts c=false := by
  intro c hc
  obtain ⟨e,he,hce⟩ := List.mem_flatMap.mp hc
  exact hU.joins e (hs e he) c hce

theorem nfd_starts (h : U.decomp c=b::x) (hb : U.ccc b=0) (s : List Char) :
    nfd U (c::s)=b::reorder U (x++s.flatMap U.decomp) := by
  rw [nfd,List.flatMap_cons,h,List.cons_append,reorder_cons hb]

/-- The normal form of a text that begins with a starting character begins with one. -/
theorem nfc_starts (hU : U.Lawful) (hc : U.starts c) (s : List Char) :
    ∃ d z, nfc U (c::s)=d::z∧U.starts d := by
  obtain ⟨b,more,hdecomp,hb,hsecond⟩ := starts_iff.mp hc
  have hplain := hU.full c b (by simp [hdecomp])
  have hstarts : U.starts b := starts_iff.mpr ⟨b,[],hplain,hb,hsecond⟩
  obtain ⟨d,z,hz,hd,-⟩ := composeFrom_head hU b [] (reorder U (more++s.flatMap U.decomp))
  exact ⟨d,z,by rw [nfc,nfd_starts hdecomp hb,compose,if_pos hb,hz],hd.trans hstarts⟩

/-- Where nothing behind the first character starts, nothing does behind it in a normal form that
it still begins. -/
theorem nfc_quiet (hU : U.Lawful) {z : List Char} (hs : ∀ d∈s, U.starts d=false)
    (h : nfc U (c::s)=c::z) : ∀ d∈z, U.starts d=false := by
  cases hc : U.starts c with
  | false =>
    have hall := compose_quiet hU (s := nfd U (c::s)) fun d hd =>
      flatMap_quiet hU (List.forall_mem_cons.mpr ⟨hc,hs⟩) d ((reorder_perm _).mem_iff.mp hd)
    intro d hd
    exact hall d (by rw [← nfc,h]; exact List.mem_cons_of_mem _ hd)
  | true =>
    obtain ⟨b,more,hdecomp,hb,-⟩ := starts_iff.mp hc
    have hplain := hU.full c b (by simp [hdecomp])
    have hrun : composeFrom U b [] (reorder U (more++s.flatMap U.decomp))=c::z := by
      rw [← h,nfc,nfd_starts hdecomp hb,compose,if_pos hb]
    -- the first character is undecomposed or a composite
    have hmore : ∀ d∈more, U.starts d=false := by
      obtain ⟨e,w,hw,-,he⟩ := composeFrom_head hU b [] (reorder U (more++s.flatMap U.decomp))
      rw [hrun] at hw
      cases hw
      cases he with
      | inl he =>
        rw [he,hplain] at hdecomp
        cases hdecomp
        simp
      | inr he =>
        obtain ⟨l,k,hcomp⟩ := he
        have hrest := hU.rest l k c hcomp
        rwa [hdecomp] at hrest
    apply composeFrom_quiet hU (by simp) ?_ hrun
    intro d hd
    cases List.mem_append.mp ((reorder_perm _).mem_iff.mp hd) with
    | inl hd => exact hmore d hd
    | inr hd => exact flatMap_quiet hU hs d hd

theorem nfc_nonempty (hU : U.Lawful) (c : Char) (s : List Char) : nfc U (c::s)≠[] := by
  have hnfd : nfd U (c::s)≠[] := by
    intro hnil
    have hlen := (reorder_perm (U := U) ((c::s).flatMap U.decomp)).length_eq
    have hfirst := List.length_pos_iff.mpr (hU.nonempty c)
    rw [← nfd,hnil,List.flatMap_cons,List.length_append] at hlen
    simp only [List.length_nil] at hlen
    omega
  obtain ⟨d,z,hz⟩ := List.exists_cons_of_ne_nil hnfd
  rw [nfc,hz,compose]
  split
  · obtain ⟨e,w,hw,-⟩ := composeFrom_head hU d [] z
    simp [hw]
  · exact List.cons_ne_nil _ _

/-- The pieces of a text that begin with a starting character: a letter with its marks. -/
def clusters (U : Tables) : List Char → List (List Char)
  | [] => []
  | c::s =>
    match clusters U s with
    | [] => [[c]]
    | cl::cls => if cl.head?.any U.starts then [c]::cl::cls else (c::cl)::cls

/-- Pieces of a text: behind the first character of one nothing starts, and each but the first
begins with a starting one. -/
structure Pieces (U : Tables) (cls : List (List Char)) : Prop where
  quiet : ∀ cl∈cls, ∃ c z, cl=c::z∧∀ d∈z, U.starts d=false
  starts : ∀ cl∈cls.tail, ∃ c z, cl=c::z∧U.starts c

theorem clusters_pieces (s : List Char) : (clusters U s).flatten=s∧Pieces U (clusters U s) := by
  induction s with
  | nil => exact ⟨rfl,by simp [clusters],by simp [clusters]⟩
  | cons c s ih =>
    obtain ⟨hflat,hquiet,hstarts⟩ := ih
    rw [clusters]
    split
    · rename_i hnil
      rw [hnil] at hflat
      subst hflat
      exact ⟨rfl,by simp,by simp⟩
    · rename_i cl cls hcons
      rw [hcons] at hflat hquiet hstarts
      obtain ⟨d,z,hcl,hz⟩ := hquiet cl List.mem_cons_self
      split
      · rename_i hd
        have hd : U.starts d := by simpa [hcl] using hd
        refine ⟨by rw [← hflat]; rfl,?_,?_⟩
        · rw [List.forall_mem_cons]
          exact ⟨⟨c,[],rfl,by simp⟩,hquiet⟩
        · rw [List.tail_cons,List.forall_mem_cons]
          exact ⟨⟨d,z,hcl,hd⟩,hstarts⟩
      · rename_i hd
        have hd : U.starts d=false := by simpa [hcl] using hd
        refine ⟨by rw [← hflat]; rfl,?_,hstarts⟩
        rw [List.forall_mem_cons] at hquiet ⊢
        exact ⟨⟨c,cl,rfl,by rw [hcl,List.forall_mem_cons]; exact ⟨hd,hz⟩⟩,hquiet.2⟩

/-- A text is in normal form exactly when each of its pieces is. -/
theorem Pieces.isNFC_iff (hU : U.Lawful) {cls : List (List Char)} (h : Pieces U cls) :
    IsNFC U cls.flatten↔∀ cl∈cls, IsNFC U cl := by
  induction cls with
  | nil => simp [IsNFC,nfc,nfd,reorder,compose]
  | cons cl cls ih =>
    obtain ⟨a,x,rfl,hx⟩ := h.quiet cl List.mem_cons_self
    rw [List.forall_mem_cons,List.flatten_cons]
    cases cls with
    | nil => simp
    | cons cl' cls =>
      have hrest : Pieces U (cl'::cls) := by
        constructor
        · exact fun e he => h.quiet e (List.mem_cons_of_mem _ he)
        · exact fun e he => h.starts e (List.mem_of_mem_tail he)
      obtain ⟨c,y,rfl,hc⟩ := h.starts cl' List.mem_cons_self
      rw [← ih hrest,List.flatten_cons]
      change nfc U ((a::x)++c::(y++cls.flatten))=(a::x)++c::(y++cls.flatten)↔
        nfc U (a::x)=a::x∧nfc U (c::(y++cls.flatten))=c::(y++cls.flatten)
      rw [nfc_append hU hc]
      constructor
      · intro hall
        obtain ⟨d,z,hd,hstarts⟩ := nfc_starts hU hc (y++cls.flatten)
        rw [hd] at hall ⊢
        rcases List.append_eq_append_iff.mp hall with ⟨e,he,hback⟩ | ⟨e,he,hback⟩
        · cases e with
          | nil => exact ⟨by simpa using he.symm,hback⟩
          | cons f e =>
            -- the second piece would start inside the first one
            have hdf := (List.cons.inj hback).1
            subst hdf
            obtain ⟨g,w,hgw⟩ := List.exists_cons_of_ne_nil (nfc_nonempty hU a x)
            rw [hgw] at he
            have htail := (List.cons.inj he).2
            exact absurd (hx d (by simp [htail])) (by simp [hstarts])
        · cases e with
          | nil => exact ⟨by simpa using he,hback.symm⟩
          | cons f e =>
            have hcf := (List.cons.inj hback).1
            subst hcf
            exact absurd (nfc_quiet hU hx he c (by simp)) (by simp [hc])
      · intro hparts
        rw [hparts.1,hparts.2]

theorem isNFC_iff_clusters (hU : U.Lawful) (s : List Char) :
    IsNFC U s↔∀ cl∈clusters U s, IsNFC U cl := by
  obtain ⟨hflat,hpieces⟩ := clusters_pieces (U := U) s
  rw [← hpieces.isNFC_iff hU,hflat]

variable {P : Char → Prop}

/-- What composites keep of their parts, composing keeps. -/
theorem composeFrom_closed (hP : ∀ l c p, U.comp l c=some p → P l → P c → P p) {kept : List Char}
    (h : ∀ c∈l::kept++s, P c) : ∀ c∈composeFrom U l kept s, P c := by
  induction s generalizing l kept with
  | nil => simpa [composeFrom] using h
  | cons d s ih =>
    simp only [List.cons_append,List.forall_mem_cons,List.forall_mem_append] at h ih
    obtain ⟨hl,hkept,hd,hs⟩ := h
    rw [composeFrom]
    split
    · rename_i p hp
      have hcomp : U.comp l d=some p := by
        split at hp
        · exact hp
        · cases hp
      exact ih ⟨hP l d p hcomp hl hd,hkept,hs⟩
    · split
      · rw [List.forall_mem_append,List.forall_mem_cons]
        exact ⟨⟨hl,hkept⟩,ih ⟨hd,by simp,hs⟩⟩
      · apply ih
        rw [List.forall_mem_append]
        exact ⟨hl,⟨hkept,by simpa using hd⟩,hs⟩

theorem compose_closed (hP : ∀ l c p, U.comp l c=some p → P l → P c → P p)
    (h : ∀ c∈s, P c) : ∀ c∈compose U s, P c := by
  induction s with
  | nil => exact h
  | cons d s ih =>
    rw [compose]
    split
    · exact composeFrom_closed hP h
    · rw [List.forall_mem_cons] at h ⊢
      exact ⟨h.1,ih h.2⟩

/-- A character of the normal form is a composite or was in the decomposition of one. -/
theorem nfc_mem (h : c∈nfc U s) : (∃ e∈s, c∈U.decomp e)∨Composed U c := by
  refine compose_closed (P := fun c => (∃ e∈s, c∈U.decomp e)∨Composed U c) ?_ ?_ c h
  · exact fun l d p hp _ _ => .inr ⟨l,d,hp⟩
  · intro d hd
    exact .inl (List.mem_flatMap.mp ((reorder_perm _).mem_iff.mp hd))

theorem reorder_head (hb : U.ccc b=0) (h : b∈(reorder U s).head?) : b∈s.head? := by
  cases s with
  | nil => exact h
  | cons c s =>
    rw [reorder] at h
    cases hs : reorder U s with
    | nil =>
      rw [hs,insertMark] at h
      simpa using h
    | cons d z =>
      rw [hs,insertMark] at h
      split at h
      · rename_i hd
        have hdb : d=b := by simpa using h
        exact absurd hb (hdb ▸ hd.1)
      · simpa using h

theorem insertMark_last (hb : U.ccc b=0) (h : b∈(insertMark U c s).getLast?) :
    b∈(c::s).getLast? := by
  induction s with
  | nil => exact h
  | cons d s ih =>
    rw [insertMark] at h
    split at h
    · rename_i hd
      obtain ⟨e,z,hz⟩ : ∃ e z, insertMark U c s=e::z :=
        List.exists_cons_of_ne_nil fun hnil => by
          have hlen := (insertMark_perm (U := U) c s).length_eq
          rw [hnil] at hlen
          cases hlen
      have hlast : b∈(insertMark U c s).getLast? := by
        rw [hz] at h ⊢
        simpa using h
      have hrest := ih hlast
      cases s with
      | nil =>
        have hcb : c=b := by simpa using hrest
        rw [hcb] at hd
        omega
      | cons e s => simpa using hrest
    · exact h

theorem reorder_last (hb : U.ccc b=0) (h : b∈(reorder U s).getLast?) : b∈s.getLast? := by
  induction s with
  | nil => exact h
  | cons c s ih =>
    have hlast := insertMark_last hb h
    cases s with
    | nil => exact hlast
    | cons d s =>
      obtain ⟨e,z,hz⟩ : ∃ e z, reorder U (d::s)=e::z :=
        List.exists_cons_of_ne_nil fun hnil => by
          have hlen := (reorder_perm (U := U) (d::s)).length_eq
          rw [hnil] at hlen
          cases hlen
      have hrest : b∈(reorder U (d::s)).getLast? := by
        rw [hz] at hlast ⊢
        simpa using hlast
      simpa using ih hrest

/-- Characters that no decomposition or composition brings to the edge of a text. -/
structure Apart (U : Tables) (P : Char → Prop) : Prop where
  starter : ∀ c, P c → U.ccc c=0
  composed : ∀ c, Composed U c → ¬P c
  decomp : ∀ c, ∀ d∈U.decomp c, P d → P c

theorem Apart.nfd_head (hU : U.Lawful) (hP : Apart U P) (h : ∀ c∈s.head?, ¬P c) :
    ∀ c∈(nfd U s).head?, ¬P c := by
  intro c hc hPc
  have hfirst := reorder_head (hP.starter c hPc) hc
  cases s with
  | nil => cases hfirst
  | cons d s =>
    obtain ⟨b,more,hd⟩ := List.exists_cons_of_ne_nil (hU.nonempty d)
    have hbc : b=c := by simpa [hd] using hfirst
    exact h d rfl (hP.decomp d c (by simp [hd,hbc]) hPc)

theorem Apart.nfc_head (hU : U.Lawful) (hP : Apart U P) (h : ∀ c∈s.head?, ¬P c) :
    ∀ c∈(nfc U s).head?, ¬P c := by
  have hfirst := hP.nfd_head hU h
  rw [nfc]
  cases hs : nfd U s with
  | nil => simp [compose]
  | cons d z =>
    have hd := hfirst d (by rw [hs]; rfl)
    intro c hc
    rw [compose] at hc
    split at hc
    · obtain ⟨e,w,hw,-,he⟩ := composeFrom_head hU d [] z
      rw [hw] at hc
      cases hc
      cases he with
      | inl he => exact he ▸ hd
      | inr he => exact hP.composed _ he
    · cases hc
      exact hd

theorem Apart.nfd_last (hU : U.Lawful) (hP : Apart U P) (h : ∀ c∈s.getLast?, ¬P c) :
    ∀ c∈(nfd U s).getLast?, ¬P c := by
  intro c hc hPc
  have hlast := reorder_last (hP.starter c hPc) hc
  cases s using List.reverseRecOn with
  | nil => cases hlast
  | append_singleton s d =>
    have hmem : c∈U.decomp d := by
      have hne := hU.nonempty d
      rw [List.flatMap_append,List.flatMap_singleton,List.getLast?_append_of_ne_nil _ hne] at hlast
      exact List.mem_of_getLast? hlast
    exact h d (by simp) (hP.decomp d c hmem hPc)

theorem Apart.composeFrom_last (hU : U.Lawful) (hP : Apart U P) {kept : List Char}
    (hkept : ∀ b∈kept, U.ccc b≠0) (h : ∀ c∈(l::kept++s).getLast?, ¬P c) :
    ∀ c∈(composeFrom U l kept s).getLast?, ¬P c := by
  induction s generalizing l kept with
  | nil => simpa [composeFrom] using h
  | cons d s ih =>
    rw [composeFrom]
    split
    · rename_i p hp
      have hcomp : U.comp l d=some p := by
        split at hp
        · exact hp
        · cases hp
      apply ih hkept
      intro c hc
      cases s using List.reverseRecOn with
      | nil =>
        rw [List.append_nil] at hc
        have hmem := List.mem_of_getLast? hc
        cases List.mem_cons.mp hmem with
        | inl hcp => exact hcp ▸ hP.composed p ⟨l,d,hcomp⟩
        | inr hmark => exact fun hPc => hkept c hmark (hP.starter c hPc)
      | append_singleton s e =>
        apply h
        have hfront : p::kept++(s++[e])=(p::kept++s)++[e] := by simp
        have hback : l::kept++d::(s++[e])=(l::kept++d::s)++[e] := by simp
        rw [hfront,List.getLast?_concat] at hc
        rw [hback,List.getLast?_concat]
        exact hc
    · split
      · have hlast : ∀ c∈(composeFrom U d [] s).getLast?, ¬P c := ih (by simp) (by
          intro c hc
          apply h
          have hne : d::s≠[] := List.cons_ne_nil d s
          rw [List.getLast?_append_of_ne_nil _ hne]
          simpa using hc)
        obtain ⟨e,z,hz,-⟩ := composeFrom_head hU d [] s
        intro c hc
        apply hlast
        have hne : composeFrom U d [] s≠[] := by simp [hz]
        rwa [List.getLast?_append_of_ne_nil _ hne] at hc
      · rename_i hmark
        apply ih
        · intro b hb
          cases List.mem_append.mp hb with
          | inl hb => exact hkept b hb
          | inr hb => exact List.mem_singleton.mp hb ▸ hmark
        · simpa using h

theorem Apart.compose_last (hU : U.Lawful) (hP : Apart U P) (h : ∀ c∈s.getLast?, ¬P c) :
    ∀ c∈(compose U s).getLast?, ¬P c := by
  induction s with
  | nil => exact h
  | cons d s ih =>
    rw [compose]
    split
    · exact hP.composeFrom_last hU (by simp) h
    · rename_i hmark
      cases s with
      | nil => exact h
      | cons e s =>
        have hlast := ih (by simpa using h)
        obtain ⟨f,z,hz⟩ : ∃ f z, compose U (e::s)=f::z := by
          rw [compose]
          split
          · obtain ⟨f,z,hz,-⟩ := composeFrom_head hU e [] s
            exact ⟨f,z,hz⟩
          · exact ⟨e,_,rfl⟩
        rw [hz] at hlast ⊢
        simpa using hlast

theorem Apart.nfc_last (hU : U.Lawful) (hP : Apart U P) (h : ∀ c∈s.getLast?, ¬P c) :
    ∀ c∈(nfc U s).getLast?, ¬P c := hP.compose_last hU (hP.nfd_last hU h)

/-- A map of characters that keeps the classes keeps the order. -/
theorem reorder_map {f : Char → Char} (hf : ∀ c, U.ccc (f c)=U.ccc c) (s : List Char) :
    reorder U (s.map f)=(reorder U s).map f := by
  have hinsert (c : Char) (z : List Char) :
      insertMark U (f c) (z.map f)=(insertMark U c z).map f := by
    induction z with
    | nil => rfl
    | cons d z ih =>
      rw [List.map_cons,insertMark,insertMark,hf,hf,ih]
      split <;> rfl
  induction s with
  | nil => rfl
  | cons c s ih => rw [List.map_cons,reorder,ih,hinsert,reorder]

theorem clusters_map {f : Char → Char} (hf : ∀ c, U.starts (f c)=U.starts c) (s : List Char) :
    clusters U (s.map f)=(clusters U s).map (·.map f) := by
  induction s with
  | nil => rfl
  | cons c s ih =>
    rw [List.map_cons,clusters,clusters,ih]
    cases clusters U s with
    | nil => rfl
    | cons cl cls =>
      have hhead : (cl.map f).head?.any U.starts=cl.head?.any U.starts := by
        cases cl with
        | nil => rfl
        | cons d cl => exact hf d
      rw [List.map_cons]
      dsimp only
      rw [hhead]
      split <;> rfl

end Kitp.Normalization
