import Kitp.Lib.Bounded
import Kitp.Lib.Normalization
import Kitp.Lib.Trimming

/-! The ingress normalisers of names, addresses and file names, over the tables of the Unicode
data. -/
namespace Kitp.TextNorm
open Kitp.Normalization Kitp.Trimming

inductive Category where
  | letter
  | mark
  | number
  | punctuation
  | symbol
  | space
  | line
  | paragraph
  | control
  | format
  | surrogate
  | privateUse
  | unassigned
  deriving DecidableEq

structure Unicode extends Tables where
  lower : Char → Char
  category : Char → Category

/-- A string as ranging over it reads it: a broken byte is none. Normalising takes one as it takes
U+FFFD: nothing combines with it. -/
abbrev GoString := List (Option Char)

def runes (s : GoString) : List Char := s.map (·.getD (Char.ofNat 0xFFFD))

def ofRunes (t : List Char) : GoString := t.map some

def isControl (c : Char) : Bool := c.toNat≤0x1F∨(0x7F ≤ c.toNat∧c.toNat≤0x9F)

def isSpace (c : Char) : Bool :=
  (0x09 ≤ c.toNat∧c.toNat≤0x0D)∨c.toNat∈[0x20,0x85,0xA0,0x1680,0x2028,0x2029,0x202F,0x205F,0x3000]∨
    (0x2000 ≤ c.toNat∧c.toNat≤0x200A)

def dottedI : Char := Char.ofNat 0x130

/-- What the Unicode data promises. -/
structure Unicode.Lawful (U : Unicode) : Prop where
  tables : U.toTables.Lawful
  lower_lower : ∀ c, U.lower (U.lower c)=U.lower c
  lower_ccc : ∀ c, U.ccc (U.lower c)=U.ccc c
  lower_starts : ∀ c, U.starts (U.lower c)=U.starts c
  lower_space : ∀ c, isSpace (U.lower c)=isSpace c
  lower_decomp : ∀ c, c≠dottedI → U.decomp (U.lower c)=(U.decomp c).map U.lower
  lower_dotted : (U.decomp (U.lower dottedI)).length < (U.decomp dottedI).length
  lower_composite : ∀ l c p, U.comp l c=some p → U.lower l=l → U.lower c=c → U.lower p=p
  spaces : Apart U.toTables (isSpace ·)
  space_decomp : ∀ c, isSpace c → ∀ d∈U.decomp c, isSpace d
  controls : ∀ c, isControl c → U.category c=.control
  control_composed : ∀ c, Composed U.toTables c → isControl c=false
  control_decomp : ∀ c, ∀ d∈U.decomp c, isControl d → isControl c
  blank : Inert U.toTables ' '
  dot : Inert U.toTables '.'

/-- `strings.TrimSpace`. -/
def trimSpace (s : GoString) : GoString := trim (·.any isSpace) s

/-- `strings.ToValidUTF8` with U+FFFD: a run of broken bytes becomes one. -/
def toValid (broken : Bool) : GoString → List Char
  | [] => []
  | none::s => if broken then toValid true s else Char.ofNat 0xFFFD::toValid true s
  | some c::s => c::toValid false s

/-- Text Postgres keeps: valid UTF-8 and no NUL. -/
def storable (s : GoString) : List Char :=
  if none∉s∧some (Char.ofNat 0)∉s then runes s
  else (toValid false s).filter (· ≠ Char.ofNat 0)

variable (U : Unicode)

def name (s : GoString) : List Char :=
  let t := trim isSpace ((storable s).filter (!isControl ·))
  if t=[] then [] else nfc U.toTables t

def email (s : GoString) : List Char :=
  let t := trimSpace s
  if t=[] then [] else (nfc U.toTables (runes t)).map U.lower

inductive FilenameError where
  | empty
  | missingExtension
  deriving DecidableEq

def isGraphic (c : Char) : Bool :=
  U.category c∈[Category.letter,.mark,.number,.punctuation,.symbol,.space]

def isSeparator (c : Char) : Bool := c.toNat=0x2F∨c.toNat=0x5C

/-- The loop of `cleanFilename`, that keeps at most max runes (max < 0: all of them). -/
def keepRunes (max : Int) (n : Int) : List Char → List Char
  | [] => []
  | r::t =>
    if isSeparator r then keepRunes max n t
    else if isGraphic U r then
      if max < 0∨n < max then r::keepRunes max (n+1) t else keepRunes max n t
    else keepRunes max n t

/-- The cutset of the last trim. -/
def inCutset (c : Char) : Bool := c.toNat∈[0x20,0x09,0x0A,0x0D,0x0B,0x0C,0x2E]

def cleanFilename (s : GoString) (max : Int) : List Char :=
  trim inCutset (keepRunes U max 0 (nfc U.toTables (runes s)))

/-- `strings.LastIndex`: -1 when there is none. -/
def lastIndex (t : List Char) (c : Char) : Int := (t.length : Int)-1-(t.reverse.idxOf c : Int)

def filename (s : GoString) : Except FilenameError (List Char) :=
  let out := cleanFilename U s (-1)
  if out=[] then .error .empty
  else
    let dot := lastIndex out '.'
    if dot≤0∨(out.length : Int)-1≤dot then .error .missingExtension else .ok out

def filenameLoose (s : GoString) : List Char := cleanFilename U s 255

/-- The characters of the normal form that a file name keeps. -/
def kept (s : GoString) : List Char :=
  (nfc U.toTables (runes s)).filter fun c => !isSeparator c&&isGraphic U c

/-- Canonically equivalent up to letter case. -/
def CaselessMatch (s t : GoString) : Prop :=
  nfd U.toTables ((nfd U.toTables (runes s)).map U.lower)=
    nfd U.toTables ((nfd U.toTables (runes t)).map U.lower)

/-- Each letter of the address, lowercased, is in normal form with the marks behind it. -/
def LowersNormal (s : GoString) : Prop :=
  ∀ cl∈clusters U.toTables (nfc U.toTables (runes (trimSpace s))), IsNFC U.toTables (cl.map U.lower)

instance (s t : GoString) : Decidable (CaselessMatch U s t) := inferInstanceAs (Decidable (_=_))

instance (s : GoString) : Decidable (LowersNormal U s) :=
  inferInstanceAs (Decidable (∀ cl∈clusters U.toTables (nfc U.toTables (runes (trimSpace s))),
    IsNFC U.toTables (cl.map U.lower)))

variable {U} {s t x y : List Char} {c d : Char} {r : GoString}

theorem runes_trimSpace (r : GoString) : runes (trimSpace r)=trim isSpace (runes r) := by
  rw [runes,runes,trimSpace]
  apply (trim_map (p := fun c : Option Char => c.any isSpace) ?_ r).symm
  intro c
  cases c with
  | none => rfl
  | some c => rfl

theorem runes_ofRunes (t : List Char) : runes (ofRunes t)=t := by
  rw [runes,ofRunes,List.map_map]
  exact List.map_id t

theorem email_eq (r : GoString) :
    email U r=(nfc U.toTables (trim isSpace (runes r))).map U.lower := by
  rw [email,← runes_trimSpace]
  split
  · rename_i hnil
    rw [hnil]
    rfl
  · rfl

theorem edges_normal (hU : U.Lawful) (s : List Char) :
    (∀ c∈(nfc U.toTables (trim isSpace s)).head?, ¬isSpace c)∧
      ∀ c∈(nfc U.toTables (trim isSpace s)).getLast?, ¬isSpace c := by
  obtain ⟨-,-,-,-,-,hfirst,hlast⟩ := trim_split isSpace s
  exact ⟨hU.spaces.nfc_head hU.tables hfirst,hU.spaces.nfc_last hU.tables hlast⟩

theorem toValid_some (t : List Char) (b : Bool) : toValid b (ofRunes t)=t := by
  induction t generalizing b with
  | nil => rfl
  | cons c t ih => exact congrArg (c::·) (ih false)

theorem storable_ofRunes (h : Char.ofNat 0∉t) : storable (ofRunes t)=t := by
  have hkept : none∉ofRunes t∧some (Char.ofNat 0)∉ofRunes t := by simpa [ofRunes] using h
  rw [storable,if_pos hkept,runes_ofRunes]

theorem name_eq (r : GoString) :
    name U r=nfc U.toTables (trim isSpace ((storable r).filter (!isControl ·))) := by
  rw [name]
  split
  · rename_i hnil
    rw [hnil]
    rfl
  · rfl

/-- A name is normal and is taken again as it is. -/
theorem name_again (hU : U.Lawful) (r : GoString) :
    IsNFC U.toTables (name U r)∧name U (ofRunes (name U r))=name U r := by
  have hnormal : IsNFC U.toTables (name U r) := by
    rw [name_eq]
    exact nfc_isNFC hU.tables _
  refine ⟨hnormal,?_⟩
  have hplain : ∀ c∈name U r, isControl c=false := by
    intro c hc
    rw [name_eq] at hc
    cases nfc_mem hc with
    | inl h =>
      obtain ⟨e,he,hce⟩ := h
      cases hcontrol : isControl c with
      | false => rfl
      | true =>
        have hcontrol := hU.control_decomp e c hce hcontrol
        obtain ⟨u,v,hsplit,-⟩ := trim_split isSpace ((storable r).filter (!isControl ·))
        have hmem : e∈(storable r).filter (!isControl ·) := by
          rw [hsplit]
          simp [he]
        simp [hcontrol] at hmem
    | inr h => exact hU.control_composed c h
  have hnul : Char.ofNat 0∉name U r := by
    intro h
    exact absurd (hplain _ h) (by decide)
  have hfilter : (name U r).filter (!isControl ·)=name U r := by
    rw [List.filter_eq_self]
    intro c hc
    simp [hplain c hc]
  have htrim : trim isSpace (name U r)=name U r := by
    rw [name_eq]
    exact trim_stays (edges_normal hU _).1 (edges_normal hU _).2
  rw [name_eq (ofRunes _),storable_ofRunes hnul,hfilter,htrim]
  exact hnormal

theorem email_edges (hU : U.Lawful) (r : GoString) : trim isSpace (email U r)=email U r := by
  obtain ⟨hfirst,hlast⟩ := edges_normal hU (runes r)
  rw [email_eq,trim_map hU.lower_space,trim_stays hfirst hlast]

/-- An address is normal and taken again as it is exactly when its letters are normal once
lowercased. -/
theorem email_again_iff (hU : U.Lawful) (r : GoString) :
    IsNFC U.toTables (email U r)∧email U (ofRunes (email U r))=email U r↔LowersNormal U r := by
  have hnormal : IsNFC U.toTables (email U r)↔LowersNormal U r := by
    rw [email_eq,isNFC_iff_clusters hU.tables,clusters_map hU.lower_starts,LowersNormal,
      runes_trimSpace,List.forall_mem_map]
  rw [hnormal,and_iff_left_iff_imp]
  intro h
  have h := hnormal.mpr h
  rw [email_eq (ofRunes _),runes_ofRunes,email_edges hU,h]
  rw [email_eq,List.map_map]
  exact List.map_congr_left fun c _ => hU.lower_lower c

theorem dotted_decomposes (hU : U.Lawful) : U.decomp dottedI≠[dottedI] := by
  intro h
  have hshort := hU.lower_dotted
  have hpos := List.length_pos_iff.mpr (hU.tables.nonempty (U.lower dottedI))
  rw [h] at hshort
  simp only [List.length_singleton] at hshort
  omega

/-- Where no dotted capital is, lowercase and decomposition can be exchanged. -/
theorem nfd_lower (hU : U.Lawful) (h : dottedI∉s) :
    nfd U.toTables (s.map U.lower)=(nfd U.toTables s).map U.lower := by
  have hflat : (s.map U.lower).flatMap U.decomp=(s.flatMap U.decomp).map U.lower := by
    induction s with
    | nil => rfl
    | cons c s ih =>
      have hc : c≠dottedI := fun hc => h (hc ▸ List.mem_cons_self)
      rw [List.map_cons,List.flatMap_cons,List.flatMap_cons,List.map_append,hU.lower_decomp c hc,
        ih fun hs => h (List.mem_cons_of_mem _ hs)]
  rw [nfd,hflat,reorder_map hU.lower_ccc,nfd]

theorem nfd_dotted (hU : U.Lawful) (s : List Char) : dottedI∉nfd U.toTables s :=
  fun h => dotted_decomposes hU ((nfd_isNFD hU.tables s).plain _ h)

theorem lower_nfd (hU : U.Lawful) (s : List Char) :
    nfd U.toTables ((nfd U.toTables s).map U.lower)=(nfd U.toTables s).map U.lower := by
  rw [nfd_lower hU (nfd_dotted hU s),nfd_nfd hU.tables]

/-- Space at the ends stays out of the order. -/
theorem nfd_between (hU : U.Lawful) {u v : List Char} (hu : ∀ c∈u, isSpace c)
    (hv : ∀ c∈v, isSpace c) (t : List Char) :
    nfd U.toTables (u++t++v)=u.flatMap U.decomp++nfd U.toTables t++v.flatMap U.decomp := by
  have hstarters (w : List Char) (hw : ∀ c∈w, isSpace c) : ∀ b∈w.flatMap U.decomp, U.ccc b=0 := by
    intro b hb
    obtain ⟨c,hc,hbc⟩ := List.mem_flatMap.mp hb
    exact hU.spaces.starter b (hU.space_decomp c (hw c hc) b hbc)
  have hback (x : List Char) : reorder U.toTables (x++v.flatMap U.decomp)=
      reorder U.toTables x++v.flatMap U.decomp := by
    have hv := hstarters v hv
    cases hs : v.flatMap U.decomp with
    | nil => rw [List.append_nil,List.append_nil]
    | cons b w =>
      rw [hs] at hv
      have hall := reorder_starters hv []
      rw [reorder,List.append_nil] at hall
      rw [reorder_append (hv b List.mem_cons_self),hall]
  rw [nfd,List.flatMap_append,List.flatMap_append,hback,reorder_starters (hstarters u hu),nfd]

theorem nfd_trim (hU : U.Lawful) (s : List Char) :
    nfd U.toTables (trim isSpace s)=trim isSpace (nfd U.toTables s) := by
  obtain ⟨u,v,hsplit,hu,hv,hfirst,hlast⟩ := trim_split isSpace s
  have hspaces (w : List Char) (hw : ∀ c∈w, isSpace c) : ∀ b∈w.flatMap U.decomp, isSpace b := by
    intro b hb
    obtain ⟨c,hc,hbc⟩ := List.mem_flatMap.mp hb
    exact hU.space_decomp c (hw c hc) b hbc
  have hwhole : nfd U.toTables s=nfd U.toTables (u++trim isSpace s++v) :=
    congrArg (nfd U.toTables) hsplit
  rw [hwhole,nfd_between hU hu hv]
  exact (trim_between (hspaces u hu) (hspaces v hv) (hU.spaces.nfd_head hU.tables hfirst)
    (hU.spaces.nfd_last hU.tables hlast)).symm

/-- The address in decomposed lowercase letters. -/
def foldedAddress (U : Unicode) (r : GoString) : List Char :=
  (nfd U.toTables (trim isSpace (runes r))).map U.lower

theorem CaselessMatch.folded (hU : U.Lawful) {r q : GoString} (h : CaselessMatch U r q) :
    foldedAddress U r=foldedAddress U q := by
  rw [CaselessMatch,lower_nfd hU,lower_nfd hU] at h
  rw [foldedAddress,foldedAddress,nfd_trim hU,nfd_trim hU,← trim_map hU.lower_space,
    ← trim_map hU.lower_space,h]

/-- What makes lowercasing the composed letters safe. -/
def LowersSafe (U : Unicode) (r : GoString) : Prop :=
  LowersNormal U r∧dottedI∉nfc U.toTables (runes (trimSpace r))

/-- A safe address is the normal form of its decomposed lowercase letters. -/
theorem LowersSafe.email (hU : U.Lawful) (h : LowersSafe U r) :
    email U r=nfc U.toTables (foldedAddress U r) := by
  have hnormal := ((email_again_iff hU r).mpr h.1).1
  have hdot : dottedI∉nfc U.toTables (trim isSpace (runes r)) := by
    rw [← runes_trimSpace]
    exact h.2
  have hnfd : nfd U.toTables (TextNorm.email U r)=nfd U.toTables (foldedAddress U r) := by
    rw [email_eq,nfd_lower hU hdot,nfd_nfc hU.tables,foldedAddress,lower_nfd hU]
  rw [← (nfc_eq_iff hU.tables).mpr hnfd]
  exact hnormal.symm

/-- The spelling of an address that is composed of lowercase letters. -/
def loweredSpelling (U : Unicode) (r : GoString) : GoString :=
  ofRunes (nfc U.toTables ((nfd U.toTables (runes r)).map U.lower))

theorem lowered_match (hU : U.Lawful) (r : GoString) : CaselessMatch U r (loweredSpelling U r) := by
  rw [CaselessMatch,loweredSpelling,runes_ofRunes,nfd_nfc hU.tables,lower_nfd hU,List.map_map]
  have hlower : (nfd U.toTables (runes r)).map (U.lower∘U.lower)=
      (nfd U.toTables (runes r)).map U.lower := List.map_congr_left fun c _ => hU.lower_lower c
  rw [hlower,lower_nfd hU]

theorem lowered_email (hU : U.Lawful) (r : GoString) :
    email U (loweredSpelling U r)=nfc U.toTables (foldedAddress U r) := by
  have hfold : nfd U.toTables (trim isSpace (runes (loweredSpelling U r)))=foldedAddress U r := by
    rw [loweredSpelling,runes_ofRunes,nfd_trim hU,nfd_nfc hU.tables,lower_nfd hU,
      trim_map hU.lower_space,← nfd_trim hU,foldedAddress]
  have hplain : nfd U.toTables (foldedAddress U r)=foldedAddress U r := by
    rw [foldedAddress,lower_nfd hU]
  have hlow : ∀ c∈compose U.toTables (foldedAddress U r), U.lower c=c := by
    refine compose_closed (P := fun c => U.lower c=c) ?_ ?_
    · exact hU.lower_composite
    · intro c hc
      obtain ⟨d,-,rfl⟩ := List.mem_map.mp hc
      exact hU.lower_lower d
  have hstays : (compose U.toTables (foldedAddress U r)).map U.lower=
      compose U.toTables (foldedAddress U r) := by
    conv_rhs => rw [← List.map_id (compose U.toTables (foldedAddress U r))]
    exact List.map_congr_left fun c hc => hlow c hc
  rw [email_eq,nfc,hfold,hstays,nfc,hplain]

/-- Lowercasing never makes a decomposition longer, and shortens that of the dotted capital. -/
theorem lower_length (hU : U.Lawful) (s : List Char) :
    ((s.map U.lower).flatMap U.decomp).length≤(s.flatMap U.decomp).length∧
      (dottedI∈s → ((s.map U.lower).flatMap U.decomp).length < (s.flatMap U.decomp).length) := by
  induction s with
  | nil => exact ⟨Nat.le_refl _,by simp⟩
  | cons c s ih =>
    simp only [List.map_cons,List.flatMap_cons,List.length_append,List.mem_cons]
    by_cases hc : c=dottedI
    · have hshort := hU.lower_dotted
      rw [hc]
      omega
    · have hsame := congrArg List.length (hU.lower_decomp c hc)
      rw [List.length_map] at hsame
      refine ⟨by omega,fun h => ?_⟩
      have hs := ih.2 (h.resolve_left (Ne.symm hc))
      omega

/-- All spellings of an address have one normal form exactly when all of them are safe. -/
theorem email_match_iff (hU : U.Lawful) (r : GoString) :
    (∀ q, CaselessMatch U r q → email U q=email U r)↔∀ q, CaselessMatch U r q → LowersSafe U q := by
  constructor
  · intro h q hq
    have hlow := h _ (lowered_match hU r)
    rw [lowered_email hU] at hlow
    have hemail := (h q hq).trans hlow.symm
    have hfold := hq.folded hU
    have hnormal : IsNFC U.toTables (email U q) := by
      rw [hemail]
      exact nfc_isNFC hU.tables _
    have hagain : email U (ofRunes (email U q))=email U q := by
      have hlower : (email U q).map U.lower=email U q := by
        rw [email_eq,List.map_map]
        exact List.map_congr_left fun c _ => hU.lower_lower c
      rw [email_eq,runes_ofRunes,email_edges hU,hnormal,hlower]
    refine ⟨(email_again_iff hU q).mp ⟨hnormal,hagain⟩,?_⟩
    intro hdot
    -- the dotted capital loses its dot in lowercase, and the lowercase spelling keeps one
    rw [runes_trimSpace] at hdot
    have hshort := (lower_length hU _).2 hdot
    have hnfd : nfd U.toTables (email U q)=foldedAddress U q := by
      rw [hemail,nfd_nfc hU.tables,hfold,foldedAddress,lower_nfd hU]
    have hlen := congrArg List.length hnfd
    have hwhole := congrArg List.length (nfd_nfc hU.tables (trim isSpace (runes q)))
    rw [foldedAddress,List.length_map] at hlen
    rw [email_eq] at hlen
    rw [nfd,(reorder_perm _).length_eq] at hlen hwhole
    omega
  · intro h q hq
    rw [(h q hq).email hU,(h r rfl).email hU,hq.folded hU]

theorem keepRunes_all (max : Int) (h : max < 0) (n : Int) (t : List Char) :
    keepRunes U max n t=t.filter fun c => !isSeparator c&&isGraphic U c := by
  induction t generalizing n with
  | nil => rfl
  | cons c t ih =>
    rw [keepRunes,List.filter_cons]
    cases hsep : isSeparator c with
    | true => simp [ih]
    | false =>
      cases hgraphic : isGraphic U c with
      | true => simp [ih,h]
      | false => simp [ih]

theorem keepRunes_capped (max : Nat) (n : Nat) (t : List Char) :
    keepRunes U max n t=(t.filter fun c => !isSeparator c&&isGraphic U c).take (max-n) := by
  induction t generalizing n with
  | nil => simp [keepRunes]
  | cons c t ih =>
    rw [keepRunes,List.filter_cons]
    cases hsep : isSeparator c with
    | true => simp [ih]
    | false =>
      cases hgraphic : isGraphic U c with
      | true =>
        by_cases hn : n < max
        · have hnext := ih (n+1)
          have hcount : max-n=(max-(n+1))+1 := by omega
          have hint : (n : Int) < max := by omega
          rw [Int.natCast_add] at hnext
          simp only [Bool.false_eq_true,if_false,if_true,hint,or_true,Bool.not_false,Bool.and_self,
            hcount,List.take_succ_cons]
          exact congrArg (c::·) hnext
        · have hfull : max≤n := by omega
          simp [ih,hfull]
      | false => simp [ih]

theorem clean_all (r : GoString) : cleanFilename U r (-1)=trim inCutset (kept U r) := by
  rw [cleanFilename,keepRunes_all (-1) (by decide),kept]

theorem loose_eq (r : GoString) : filenameLoose U r=trim inCutset ((kept U r).take 255) := by
  rw [filenameLoose,cleanFilename]
  exact congrArg (trim inCutset) (keepRunes_capped 255 0 _)

/-- A file name is made of characters that stay, and trimming ended. -/
structure Cleaned (U : Unicode) (t : List Char) : Prop where
  stays : ∀ c∈t, isSeparator c=false∧isGraphic U c
  first : ∀ c∈t.head?, ¬inCutset c
  last : ∀ c∈t.getLast?, ¬inCutset c

theorem kept_stays {r : GoString} (hc : c∈kept U r) : isSeparator c=false∧isGraphic U c := by
  have := (List.mem_filter.mp hc).2
  simpa using this

theorem cleaned_trim (h : ∀ c∈s, isSeparator c=false∧isGraphic U c) :
    Cleaned U (trim inCutset s) := by
  obtain ⟨u,v,hsplit,-,-,hfirst,hlast⟩ := trim_split inCutset s
  refine ⟨?_,hfirst,hlast⟩
  intro c hc
  apply h
  rw [hsplit]
  simp [hc]

/-- A normal cleaned name is taken as it is. -/
theorem Cleaned.kept (h : Cleaned U t) (hnormal : IsNFC U.toTables t) :
    TextNorm.kept U (ofRunes t)=t := by
  rw [TextNorm.kept,runes_ofRunes,hnormal,List.filter_eq_self]
  intro c hc
  simp [h.stays c hc]

/-- Trimming says nothing about the form: spaces and dots combine with nothing. -/
theorem isNFC_trim (hU : U.Lawful) (h : ∀ c∈s, isSeparator c=false∧isGraphic U c) :
    IsNFC U.toTables (trim inCutset s)↔∀ cl∈clusters U.toTables s, IsNFC U.toTables cl := by
  obtain ⟨u,v,hsplit,hu,hv,-⟩ := trim_split inCutset s
  have hinert : ∀ c∈s, inCutset c → Inert U.toTables c := by
    intro c hc hcut
    have hgraphic := (h c hc).2
    have hcontrol : isControl c=false := by
      cases hcontrol : isControl c with
      | false => rfl
      | true =>
        rw [isGraphic,hU.controls c hcontrol] at hgraphic
        exact absurd hgraphic (by decide)
    simp only [isControl,decide_eq_false_iff_not] at hcontrol
    simp only [inCutset,decide_eq_true_eq,List.mem_cons,List.not_mem_nil,or_false] at hcut
    have hcases : c.toNat=0x20∨c.toNat=0x2E := by omega
    cases hcases with
    | inl hblank =>
      have heq : c = ' ' := Char.toNat_inj.mp hblank
      exact heq ▸ hU.blank
    | inr hdot =>
      have heq : c = '.' := Char.toNat_inj.mp hdot
      exact heq ▸ hU.dot
  have hu' : ∀ c∈u, Inert U.toTables c := fun c hc => hinert c (by rw [hsplit]; simp [hc]) (hu c hc)
  have hv' : ∀ c∈v, Inert U.toTables c := fun c hc => hinert c (by rw [hsplit]; simp [hc]) (hv c hc)
  rw [← isNFC_between hU.tables hu' hv',← hsplit,isNFC_iff_clusters hU.tables]

theorem loose_again_iff (hU : U.Lawful) (r : GoString) :
    IsNFC U.toTables (filenameLoose U r)∧
        filenameLoose U (ofRunes (filenameLoose U r))=filenameLoose U r↔
      ∀ cl∈clusters U.toTables ((kept U r).take 255), IsNFC U.toTables cl := by
  have hstays : ∀ c∈(kept U r).take 255, isSeparator c=false∧isGraphic U c :=
    fun c hc => kept_stays (List.mem_of_mem_take hc)
  rw [← isNFC_trim hU hstays,loose_eq,and_iff_left_iff_imp]
  intro h
  have hclean := cleaned_trim hstays
  rw [loose_eq,hclean.kept h,List.take_of_length_le,trim_stays hclean.first hclean.last]
  obtain ⟨u,v,hsplit,-⟩ := trim_split inCutset ((kept U r).take 255)
  have hlen := congrArg List.length hsplit
  rw [List.length_take,List.length_append,List.length_append] at hlen
  omega

theorem loose_length (r : GoString) : (filenameLoose U r).length≤255 := by
  obtain ⟨u,v,hsplit,-⟩ := trim_split inCutset ((kept U r).take 255)
  have hlen := congrArg List.length hsplit
  rw [List.length_take,List.length_append,List.length_append] at hlen
  rw [loose_eq]
  omega

theorem filename_ok {r : GoString} {out : List Char} (h : filename U r=.ok out) :
    out=trim inCutset (kept U r)∧0 < lastIndex out '.' ∧lastIndex out '.' < (out.length : Int)-1 := by
  rw [filename] at h
  split at h
  · cases h
  · dsimp only at h
    split at h
    · cases h
    · rename_i hdot
      cases h
      rw [clean_all] at hdot ⊢
      exact ⟨rfl,by omega,by omega⟩

theorem filename_again_iff (hU : U.Lawful) {r : GoString} {out : List Char}
    (h : filename U r=.ok out) :
    IsNFC U.toTables out∧filename U (ofRunes out)=.ok out↔
      ∀ cl∈clusters U.toTables (kept U r), IsNFC U.toTables cl := by
  obtain ⟨hout,hdot,hend⟩ := filename_ok h
  have hstays : ∀ c∈kept U r, isSeparator c=false∧isGraphic U c := fun c hc => kept_stays hc
  rw [← isNFC_trim hU hstays,← hout,and_iff_left_iff_imp]
  intro hnormal
  have hclean : Cleaned U out := hout ▸ cleaned_trim hstays
  have hsame : cleanFilename U (ofRunes out) (-1)=out := by
    rw [clean_all,hclean.kept hnormal,trim_stays hclean.first hclean.last]
  have hne : out≠[] := by
    rintro rfl
    simp only [List.length_nil] at hend
    omega
  have hno : ¬(lastIndex out '.'≤0∨(out.length : Int)-1≤lastIndex out '.') := by omega
  rw [filename,hsame,if_neg hne]
  dsimp only
  rw [if_neg hno]

/-- The last dot parts a stem from an extension. -/
theorem lastIndex_split (h : 0 < lastIndex t '.') (h' : lastIndex t '.' < (t.length : Int)-1) :
    ∃ stem ext, t=stem++ '.'::ext∧stem≠[]∧ext≠[] := by
  rw [lastIndex] at h h'
  have hmem : t.reverse.idxOf '.' < t.reverse.length := by
    rw [List.length_reverse]
    omega
  have hdrop := List.drop_eq_getElem_cons hmem
  rw [List.getElem_idxOf hmem] at hdrop
  have hsplit := (List.take_append_drop (t.reverse.idxOf '.') t.reverse).symm
  rw [hdrop] at hsplit
  generalize hfront : t.reverse.take (t.reverse.idxOf '.')=front at hsplit
  generalize hback : t.reverse.drop (t.reverse.idxOf '.' +1)=back at hsplit
  have hflen := congrArg List.length hfront
  have hblen := congrArg List.length hback
  rw [List.length_take,List.length_reverse] at hflen
  rw [List.length_drop,List.length_reverse] at hblen
  refine ⟨back.reverse,front.reverse,?_,?_,?_⟩
  · have := congrArg List.reverse hsplit
    simpa using this
  · intro hnil
    rw [List.reverse_eq_nil_iff.mp hnil,List.length_nil] at hblen
    omega
  · intro hnil
    rw [List.reverse_eq_nil_iff.mp hnil,List.length_nil] at hflen
    omega

/-- Wherever only spaces and dots of the cutset stand before it, no other space stands. -/
def FrontClear (s : List Char) : Prop :=
  ∀ u c v, s=u++c::v → (∀ d∈u, inCutset d) → isSpace c → inCutset c

def BackClear (s : List Char) : Prop :=
  ∀ u c v, s=u++c::v → (∀ d∈v, inCutset d) → isSpace c → inCutset c

theorem trim_front (s : List Char) : (∀ c∈(trim inCutset s).head?, ¬isSpace c)↔FrontClear s := by
  constructor
  · intro h u c v hs hu hspace
    by_contra hcut
    exact h c (trim_head.mpr ⟨u,v,hs,hu,hcut⟩) hspace
  · intro h c hc hspace
    obtain ⟨u,v,hs,hu,hcut⟩ := trim_head.mp hc
    exact hcut (h u c v hs hu hspace)

theorem trim_back (s : List Char) : (∀ c∈(trim inCutset s).getLast?, ¬isSpace c)↔BackClear s := by
  constructor
  · intro h u c v hs hv hspace
    by_contra hcut
    exact h c (trim_last.mpr ⟨u,v,hs,hv,hcut⟩) hspace
  · intro h c hc hspace
    obtain ⟨u,v,hs,hv,hcut⟩ := trim_last.mp hc
    exact hcut (h u c v hs hv hspace)

/-- What an accepted file name is made of. -/
structure WellNamed (U : Unicode) (out : List Char) : Prop where
  visible : ∀ c∈out, isControl c=false∧U.category c∉[Category.control,.format,.surrogate,.privateUse]
  whole : ∀ c∈out, c.toNat≠0x2F∧c.toNat≠0x5C
  dots : '.'∉out.head? ∧ '.'∉out.getLast?
  parts : ∃ stem ext, out=stem++ '.'::ext∧stem≠[]∧ext≠[]

theorem filename_named (hU : U.Lawful) {r : GoString} {out : List Char}
    (h : filename U r=.ok out) : WellNamed U out := by
  obtain ⟨hout,hdot,hend⟩ := filename_ok h
  have hclean : Cleaned U out := hout ▸ cleaned_trim fun c hc => kept_stays hc
  have hcut : inCutset '.' := by decide
  constructor
  · intro c hc
    have hgraphic := (hclean.stays c hc).2
    rw [isGraphic,decide_eq_true_eq] at hgraphic
    have hcategory : U.category c∉[Category.control,.format,.surrogate,.privateUse] := by
      generalize U.category c=k at hgraphic ⊢
      cases k <;> simp_all
    refine ⟨?_,hcategory⟩
    cases hcontrol : isControl c with
    | false => rfl
    | true =>
      rw [hU.controls c hcontrol] at hcategory
      exact absurd List.mem_cons_self hcategory
  · intro c hc
    have hsep := (hclean.stays c hc).1
    simpa [isSeparator] using hsep
  · exact ⟨fun hfirst => hclean.first _ hfirst hcut,fun hlast => hclean.last _ hlast hcut⟩
  · exact lastIndex_split hdot hend

/-- Names are canonical; addresses and file names exactly as far as lowercasing and dropping leave
letters in normal form with their marks. -/
theorem normalisers_canonical (hU : U.Lawful) :
    (∀ r, IsNFC U.toTables (name U r)∧name U (ofRunes (name U r))=name U r)∧
    (∀ r, IsNFC U.toTables (email U r)∧email U (ofRunes (email U r))=email U r↔LowersNormal U r)∧
    (∀ r, (∀ q, CaselessMatch U r q → email U q=email U r)↔
      ∀ q, CaselessMatch U r q → LowersSafe U q)∧
    (∀ r out, filename U r=.ok out →
      (IsNFC U.toTables out∧filename U (ofRunes out)=.ok out↔
        ∀ cl∈clusters U.toTables (kept U r), IsNFC U.toTables cl)∧
      WellNamed U out∧
      ((∀ c∈out.head?, ¬isSpace c)∧(∀ c∈out.getLast?, ¬isSpace c)↔
        FrontClear (kept U r)∧BackClear (kept U r)))∧
    ∀ r, (IsNFC U.toTables (filenameLoose U r)∧
        filenameLoose U (ofRunes (filenameLoose U r))=filenameLoose U r↔
      ∀ cl∈clusters U.toTables ((kept U r).take 255), IsNFC U.toTables cl)∧
      (filenameLoose U r).length≤255 := by
  refine ⟨name_again hU,email_again_iff hU,email_match_iff hU,?_,?_⟩
  · intro r out h
    refine ⟨filename_again_iff hU h,filename_named hU h,?_⟩
    rw [(filename_ok h).1,trim_front,trim_back]
  · exact fun r => ⟨loose_again_iff hU r,loose_length r⟩

/-- The decompositions of a few letters. -/
def latinParts : List (Char×List Char) :=
  [(Char.ofNat 0xC9,['E',Char.ofNat 0x301]),(Char.ofNat 0xE9,['e',Char.ofNat 0x301]),
    (Char.ofNat 0x1E96,['h',Char.ofNat 0x331]),(dottedI,['I',Char.ofNat 0x307])]

def latinMarks : List (Char×Nat) :=
  [(Char.ofNat 0x301,230),(Char.ofNat 0x307,230),(Char.ofNat 0x331,220)]

def latinCapitals : List (Char×Char) :=
  [(dottedI,'i'),(Char.ofNat 0xC9,Char.ofNat 0xE9)]++
    "ABCDEFGHIJKLMNOPQRSTUVWXYZ".toList.zip "abcdefghijklmnopqrstuvwxyz".toList

/-- The Unicode data, cut down to those letters. -/
def latin : Unicode where
  decomp c := (latinParts.lookup c).getD [c]
  ccc c := (latinMarks.lookup c).getD 0
  comp l c := (latinParts.find? (·.2=[l,c])).map (·.1)
  second c := (latinMarks.lookup c).isSome
  lower c := (latinCapitals.lookup c).getD c
  category c :=
    if isControl c then .control
    else if c=Char.ofNat 0x200D then .format
    else if isSpace c then .space
    else if (latinMarks.lookup c).isSome then .mark
    else if c = '.' ∨c = '@' ∨c = '/' then .punctuation
    else .letter

/-- The characters the tables say something about. -/
def latinListed : List Char :=
  latinParts.map (·.1)++latinParts.flatMap (·.2)++latinCapitals.map (·.1)

theorem latin_plain {c : Char} (h : c∉latinListed) :
    latin.decomp c=[c]∧latin.ccc c=0∧latin.second c=false∧latin.lower c=c∧latin.starts c := by
  have hnone {β : Type} {l : List (Char×β)} (hl : c∉l.map (·.1)) : l.lookup c=none := by
    rw [List.lookup_eq_none_iff]
    intro q hq
    have hne : c≠q.1 := fun heq => hl (heq ▸ List.mem_map_of_mem hq)
    simpa using hne
  have hmarks : ∀ d∈latinMarks.map (·.1), d∈latinListed := by decide
  have hparts : latinParts.lookup c=none := hnone fun hc => h (by simp [latinListed,hc])
  have hmark : latinMarks.lookup c=none := hnone fun hc => h (hmarks c hc)
  have hcapital : latinCapitals.lookup c=none := hnone fun hc => h (by simp [latinListed,hc])
  have hdecomp : latin.decomp c=[c] := by simp [latin,hparts]
  have hccc : latin.ccc c=0 := by simp [latin,hmark]
  have hsecond : latin.second c=false := by simp [latin,hmark]
  exact ⟨hdecomp,hccc,hsecond,by simp [latin,hcapital],starts_iff.mpr ⟨c,[],hdecomp,hccc,hsecond⟩⟩

/-- What holds of the listed characters and of those the tables leave alone holds of all. -/
theorem latin_all {Q : Char → Prop} (hlisted : ∀ c∈latinListed, Q c)
    (hplain : ∀ c, latin.decomp c=[c] → latin.ccc c=0 → latin.lower c=c → latin.starts c → Q c)
    (c : Char) : Q c := by
  by_cases hc : c∈latinListed
  · exact hlisted c hc
  · obtain ⟨hdecomp,hccc,-,hlower,hstarts⟩ := latin_plain hc
    exact hplain c hdecomp hccc hlower hstarts

theorem latin_composite {l c p : Char} (h : latin.comp l c=some p) :
    latin.decomp p=latin.decomp l++latin.decomp c∧latin.second c∧
      (∀ d∈(latin.decomp p).tail, latin.starts d=false)∧
      (latin.lower l=l → latin.lower c=c → latin.lower p=p)∧isSpace p=false∧isControl p=false∧
      l ≠ ' ' ∧l ≠ '.' := by
  have hall : ∀ q∈latinParts, ∀ l∈q.2.take 1, ∀ c∈q.2.drop 1,
      latin.decomp q.1=latin.decomp l++latin.decomp c∧latin.second c∧
        (∀ d∈(latin.decomp q.1).tail, latin.starts d=false)∧
        (latin.lower l=l → latin.lower c=c → latin.lower q.1=q.1)∧isSpace q.1=false∧
        isControl q.1=false∧l ≠ ' ' ∧l ≠ '.' := by decide +kernel
  obtain ⟨q,hq,rfl⟩ := Option.map_eq_some_iff.mp h
  have hparts := List.find?_some hq
  rw [decide_eq_true_eq] at hparts
  exact hall q (List.mem_of_find?_eq_some hq) l (by simp [hparts]) c (by simp [hparts])

theorem latin_listed : ∀ c∈latinListed,
    (latin.decomp c≠[]∧(∀ d∈latin.decomp c, latin.decomp d=[d])∧
      (latin.starts c=false → ∀ d∈latin.decomp c, latin.starts d=false))∧
    (latin.lower (latin.lower c)=latin.lower c∧latin.ccc (latin.lower c)=latin.ccc c∧
      latin.starts (latin.lower c)=latin.starts c∧isSpace (latin.lower c)=isSpace c∧
      (c≠dottedI → latin.decomp (latin.lower c)=(latin.decomp c).map latin.lower))∧
    isSpace c=false∧∀ d∈latin.decomp c, isSpace d=false∧isControl d=false := by decide +kernel

theorem latin_lawful : latin.Lawful where
  tables :=
    { nonempty := latin_all (fun c hc => (latin_listed c hc).1.1) fun c hc _ _ _ => by simp [hc]
      full := latin_all (fun c hc => (latin_listed c hc).1.2.1) fun c hc _ _ _ => by simp [hc]
      composite := fun _ _ _ h => (latin_composite h).1
      second := fun _ _ _ h => (latin_composite h).2.1
      rest := fun _ _ _ h => (latin_composite h).2.2.1
      joins := latin_all (fun c hc => (latin_listed c hc).1.2.2) fun c _ _ _ hc => by simp [hc] }
  lower_lower := latin_all (fun c hc => (latin_listed c hc).2.1.1) fun c _ _ hc _ => by rw [hc,hc]
  lower_ccc := latin_all (fun c hc => (latin_listed c hc).2.1.2.1) fun c _ _ hc _ => by rw [hc]
  lower_starts := latin_all (fun c hc => (latin_listed c hc).2.1.2.2.1) fun c _ _ hc _ => by rw [hc]
  lower_space := latin_all (fun c hc => (latin_listed c hc).2.1.2.2.2.1) fun c _ _ hc _ => by rw [hc]
  lower_decomp := latin_all (fun c hc => (latin_listed c hc).2.1.2.2.2.2)
    fun c hc _ hlower _ _ => by simp [hc,hlower]
  lower_dotted := by decide
  lower_composite := fun _ _ _ h => (latin_composite h).2.2.2.1
  spaces :=
    { starter := latin_all (fun c hc hspace => by simp [(latin_listed c hc).2.2.1] at hspace)
        fun c _ hc _ _ _ => hc
      composed := fun c h => by
        obtain ⟨l,d,h⟩ := h
        simp [(latin_composite h).2.2.2.2.1]
      decomp := latin_all (fun c hc d hd hspace => by simp [((latin_listed c hc).2.2.2 d hd).1] at hspace)
        fun c hc _ _ _ => by simp [hc] }
  space_decomp := latin_all (fun c hc hspace => by simp [(latin_listed c hc).2.2.1] at hspace)
    fun c hc _ _ _ => by simp [hc]
  controls := fun c hc => if_pos hc
  control_composed := fun c h => by
    obtain ⟨l,d,h⟩ := h
    exact (latin_composite h).2.2.2.2.2.1
  control_decomp := latin_all
    (fun c hc d hd hcontrol => by simp [((latin_listed c hc).2.2.2 d hd).2] at hcontrol)
    fun c hc _ _ _ => by simp [hc]
  blank :=
    { plain := by decide
      starter := by decide
      first := fun d => by
        cases h : latin.comp ' ' d with
        | none => rfl
        | some p => exact absurd rfl (latin_composite h).2.2.2.2.2.2.1
      second := by decide }
  dot :=
    { plain := by decide
      starter := by decide
      first := fun d => by
        cases h : latin.comp '.' d with
        | none => rfl
        | some p => exact absurd rfl (latin_composite h).2.2.2.2.2.2.2
      second := by decide }

/-- An address with a composed capital is canonical. -/
theorem composed_address : IsNFC latin.toTables (email latin (ofRunes "\u00C9ve@Kitp.org".toList))∧
    email latin (ofRunes (email latin (ofRunes "\u00C9ve@Kitp.org".toList)))=
      email latin (ofRunes "\u00C9ve@Kitp.org".toList) :=
  ((normalisers_canonical latin_lawful).2.1 (ofRunes "\u00C9ve@Kitp.org".toList)).mpr (by decide +kernel)

/-- A capital that has no composite with its mark gives another address than its lowercase one, a
dropped joiner leaves a letter beside its accent, and another space stays before a name. -/
theorem spellings_apart :
    (CaselessMatch latin (ofRunes "H\u0331@kitp.org".toList) (ofRunes "\u1E96@kitp.org".toList)∧
      email latin (ofRunes "H\u0331@kitp.org".toList)≠
        email latin (ofRunes "\u1E96@kitp.org".toList)∧
      ¬IsNFC latin.toTables (email latin (ofRunes "H\u0331@kitp.org".toList)))∧
    (filename latin (ofRunes "e\u200D\u0301.txt".toList)=.ok "e\u0301.txt".toList∧
      filename latin (ofRunes "e\u0301.txt".toList)=.ok "\u00E9.txt".toList)∧
    filename latin (ofRunes "\u00A0a.txt".toList)=.ok "\u00A0a.txt".toList := by
  decide +kernel

end Kitp.TextNorm
