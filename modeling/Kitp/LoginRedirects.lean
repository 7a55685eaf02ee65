import Kitp.Lib.Bounded
import Kitp.Lib.WebPaths

/-! Where a sign-in ends: the guard of the stored redirect, and what `http.Redirect` makes of it. -/
namespace Kitp.LoginRedirects

open Kitp.WebPaths

variable {raw s : Bytes} {b : UInt8}

def maxRedirectLen : Nat := 2048

structure Url where
  scheme : Bytes
  opaquePart : Bytes
  host : Bytes
  path : Bytes
  deriving DecidableEq

def isCTL (b : UInt8) : Bool := b < 0x20∨b=0x7F

/-- `url.Parse` of a text that begins with one slash, which has no scheme and no authority. The
fragment is cut off first, then the query; an escape in the path or the fragment may be wrong. -/
def parse (raw : Bytes) : Option Url :=
  let u := raw.takeWhile (·≠0x23)
  let frag := (raw.dropWhile (·≠0x23)).tail
  if u.any isCTL then none
  else
    match unescape (u.takeWhile (·≠0x3F)) with
    | none => none
    | some path => (unescape frag).map fun _ => ⟨[],[],[],path⟩

/-- The runes below 0x20, and 0x7F, are the octets. -/
def safeLocalRedirect (raw : Bytes) : Bytes :=
  if raw=[]∨raw.head?≠some 0x2F∨maxRedirectLen < raw.length then [0x2F]
  else if [0x2F,0x2F].isPrefixOf raw∨raw.contains 0x5C then [0x2F]
  else if raw.any isCTL then [0x2F]
  else
    match parse raw with
    | none => [0x2F]
    | some u =>
      if u.scheme≠[]∨u.host≠[]∨u.opaquePart≠[] then [0x2F]
      else
        let cleaned := clean u.path
        if cleaned=[]∨cleaned.head?≠some 0x2F∨[0x2F,0x2F].isPrefixOf cleaned then [0x2F] else raw

/-- The path cleaned, its last slash kept, and then the query. -/
def cleanedURL (url : Bytes) : Bytes :=
  let path := url.takeWhile (·≠0x3F)
  let query := url.dropWhile (·≠0x3F)
  let trailing := path.getLast?=some 0x2F
  let cleaned := clean path
  (if trailing∧cleaned.getLast?≠some 0x2F then cleaned++[0x2F] else cleaned)++query

/-- The Location of `http.Redirect` for a text that begins with one slash. -/
def location (url : Bytes) : Bytes :=
  hexEscapeNonASCII (match parse url with
    | none => url
    | some u => if u.scheme=[]∧u.host=[] then cleanedURL url else url)

/-- A rooted local path the guard takes: one slash, nothing a browser reads in another way, and
percent escapes that are right in the path and in the fragment. -/
structure Local (raw : Bytes) : Prop where
  rooted : raw.head?=some 0x2F
  once : raw.tail.head?≠some 0x2F
  short : raw.length ≤ maxRedirectLen
  plain : ∀ b∈raw, b≠0x5C∧0x20≤b∧b≠0x7F
  path : Escaped ((raw.takeWhile (·≠0x23)).takeWhile (·≠0x3F))
  fragment : Escaped (raw.dropWhile (·≠0x23)).tail

theorem isCTL_iff : isCTL b=false ↔ 0x20≤b∧b≠0x7F := by
  simp [isCTL]

theorem parse_some (hctl : ∀ b∈raw, isCTL b=false) : (∃ u, parse raw=some u) ↔
    Escaped ((raw.takeWhile (·≠0x23)).takeWhile (·≠0x3F))∧
      Escaped (raw.dropWhile (·≠0x23)).tail := by
  have hnone : (raw.takeWhile (·≠0x23)).any isCTL=false := by
    rw [List.any_eq_false]
    intro b hb
    rw [hctl b ((List.takeWhile_sublist _).subset hb)]
    exact Bool.false_ne_true
  rw [← unescape_some_iff,← unescape_some_iff]
  unfold parse
  dsimp only
  rw [hnone,if_neg Bool.false_ne_true]
  cases unescape ((raw.takeWhile (·≠0x23)).takeWhile (·≠0x3F)) with
  | none => simp
  | some path =>
    cases unescape (raw.dropWhile (·≠0x23)).tail with
    | none => simp
    | some frag => simp

/-- The path of a rooted text is rooted. -/
theorem parse_rooted {u : Url} (h : parse raw=some u) (hroot : raw.head?=some 0x2F) :
    u.scheme=[]∧u.host=[]∧u.opaquePart=[]∧u.path.head?=some 0x2F := by
  obtain ⟨s,rfl⟩ := List.head?_eq_some_iff.mp hroot
  unfold parse at h
  dsimp only at h
  split at h
  · cases h
  · split at h
    · cases h
    · rename_i path hpath
      obtain ⟨frag,-,rfl⟩ := Option.map_eq_some_iff.mp h
      refine ⟨rfl,rfl,rfl,?_⟩
      have hfirst : ((0x2F::s).takeWhile (·≠0x23)).takeWhile (·≠0x3F)=
          0x2F::(s.takeWhile (·≠0x23)).takeWhile (·≠0x3F) := rfl
      rw [hfirst,unescape.eq_def] at hpath
      dsimp only at hpath
      rw [if_neg (by decide)] at hpath
      obtain ⟨out,-,rfl⟩ := Option.map_eq_some_iff.mp hpath
      rfl

/-- A cleaned rooted path passes the guard's last check. -/
theorem clean_passes {path : Bytes} (h : path.head?=some 0x2F) :
    ¬(clean path=[]∨(clean path).head?≠some 0x2F∨[0x2F,0x2F].isPrefixOf (clean path)=true) := by
  obtain ⟨kept,hclean,hone,-⟩ := clean_rooted h
  rw [hclean]
  rintro (hnil | hhead | hpre)
  · cases hnil
  · exact hhead rfl
  · cases kept with
    | nil => cases hpre
    | cons c kept =>
      have hc : (0x2F : UInt8)=c := by simpa using hpre
      exact hone (by rw [hc]; rfl)

theorem doubled_iff {t : Bytes} :
    [0x2F,0x2F].isPrefixOf (0x2F::t)=true ↔ t.head?=some 0x2F := by
  cases t with
  | nil => simp
  | cons c t =>
    simp only [List.isPrefixOf,beq_self_eq_true,Bool.and_true,Bool.true_and,beq_iff_eq,
      List.head?_cons,Option.some.injEq]
    exact eq_comm

/-- The guard keeps a rooted local path and nothing else. -/
theorem guard_cases (raw : Bytes) :
    safeLocalRedirect raw=[0x2F]∧¬Local raw∨safeLocalRedirect raw=raw∧Local raw := by
  unfold safeLocalRedirect
  by_cases hshape : raw=[]∨raw.head?≠some 0x2F∨maxRedirectLen < raw.length
  · rw [if_pos hshape]
    refine Or.inl ⟨rfl,?_⟩
    rintro ⟨hroot,-,hshort,-⟩
    rcases hshape with hnil | hhead | hlong
    · rw [hnil] at hroot
      cases hroot
    · exact hhead hroot
    · exact absurd hshort (Nat.not_le.mpr hlong)
  · rw [if_neg hshape]
    simp only [not_or,Nat.not_lt,ne_eq,not_not] at hshape
    obtain ⟨-,hroot,hshort⟩ := hshape
    obtain ⟨t,rfl⟩ := List.head?_eq_some_iff.mp hroot
    by_cases hslash : [0x2F,0x2F].isPrefixOf (0x2F::t)=true∨(0x2F::t).contains 0x5C=true
    · rw [if_pos hslash]
      refine Or.inl ⟨rfl,?_⟩
      rintro ⟨-,honce,-,hplain,-⟩
      rcases hslash with hpre | hback
      · exact honce (doubled_iff.mp hpre)
      · exact (hplain 0x5C (List.contains_iff_mem.mp hback)).1 rfl
    · rw [if_neg hslash]
      simp only [not_or,doubled_iff,List.contains_iff_mem] at hslash
      obtain ⟨honce,hback⟩ := hslash
      by_cases hctl : (0x2F::t).any isCTL=true
      · rw [if_pos hctl]
        refine Or.inl ⟨rfl,?_⟩
        rintro ⟨-,-,-,hplain,-⟩
        obtain ⟨b,hb,hbad⟩ := List.any_eq_true.mp hctl
        rw [isCTL_iff.mpr (hplain b hb).2] at hbad
        cases hbad
      · rw [if_neg hctl]
        have hgood : ∀ b∈0x2F::t, isCTL b=false := by
          intro b hb
          by_contra hbad
          exact hctl (List.any_eq_true.mpr ⟨b,hb,by simpa using hbad⟩)
        have hplain : ∀ b∈0x2F::t, b≠0x5C∧0x20≤b∧b≠0x7F := by
          intro b hb
          exact ⟨fun heq => hback (heq ▸ hb),isCTL_iff.mp (hgood b hb)⟩
        cases hparse : parse (0x2F::t) with
        | none =>
          refine Or.inl ⟨rfl,?_⟩
          rintro ⟨-,-,-,-,hpath,hfrag⟩
          obtain ⟨u,hu⟩ := (parse_some hgood).mpr ⟨hpath,hfrag⟩
          rw [hparse] at hu
          cases hu
        | some u =>
          obtain ⟨hscheme,hhost,hpart,hroot'⟩ := parse_rooted hparse rfl
          obtain ⟨hpath,hfrag⟩ := (parse_some hgood).mp ⟨u,hparse⟩
          dsimp only
          rw [if_neg (by simp [hscheme,hhost,hpart]),if_neg (clean_passes hroot')]
          exact Or.inr ⟨rfl,rfl,honce,hshort,hplain,hpath,hfrag⟩

/-- The result is a rooted local path in any case. -/
theorem guard_local (raw : Bytes) : Local (safeLocalRedirect raw) := by
  rcases guard_cases raw with ⟨hroot,-⟩ | ⟨hkept,hlocal⟩
  · rw [hroot]
    refine ⟨rfl,by decide,by decide,by decide,?_,?_⟩
    · show Escaped [0x2F]
      exact (escaped_cons (by decide)).mpr Escaped.nil
    · exact Escaped.nil
  · rw [hkept]
    exact hlocal

/-- What `http.Redirect` makes of a rooted local path: one slash still, and no new octet. -/
theorem cleanedURL_spec (h : Local raw) :
    ∃ t, cleanedURL raw=0x2F::t∧t.head?≠some 0x2F∧∀ b∈t, b∈raw := by
  obtain ⟨s,rfl⟩ := List.head?_eq_some_iff.mp h.rooted
  have hpath : ((0x2F::s).takeWhile (·≠0x3F)).head?=some 0x2F := rfl
  obtain ⟨kept,hclean,hone,hmem⟩ := clean_rooted hpath
  have hkept : ∀ b∈kept, b∈0x2F::s := fun b hb => (List.takeWhile_sublist _).subset (hmem b hb)
  have hquery : ∀ b∈(0x2F::s).dropWhile (·≠0x3F), b∈0x2F::s :=
    fun b hb => (List.dropWhile_sublist _).subset hb
  have hmark : ((0x2F::s).dropWhile (·≠0x3F)).head?≠some 0x2F := by
    intro hslash
    have hstop := List.head?_dropWhile_not (·≠0x3F) (0x2F::s)
    rw [hslash] at hstop
    revert hstop
    decide
  have hhead : ∀ more : Bytes, more.head?≠some 0x2F → (kept++more).head?≠some 0x2F := by
    intro more hmore
    cases kept with
    | nil => exact hmore
    | cons c kept => exact hone
  unfold cleanedURL
  dsimp only
  rw [hclean]
  split
  · rename_i htrailing
    cases kept with
    | nil => exact absurd rfl htrailing.2
    | cons c kept =>
      refine ⟨c::kept++[0x2F]++(0x2F::s).dropWhile (·≠0x3F),rfl,hone,?_⟩
      intro b hb
      rcases List.mem_append.mp hb with hb | hb
      · rcases List.mem_append.mp hb with hb | hb
        · exact hkept b hb
        · rw [List.mem_singleton.mp hb]
          exact List.mem_cons_self
      · exact hquery b hb
  · refine ⟨kept++(0x2F::s).dropWhile (·≠0x3F),rfl,hhead _ hmark,?_⟩
    intro b hb
    rcases List.mem_append.mp hb with hb | hb
    · exact hkept b hb
    · exact hquery b hb

theorem location_eq (h : Local raw) : location raw=hexEscapeNonASCII (cleanedURL raw) := by
  have hgood : ∀ b∈raw, isCTL b=false := fun b hb => isCTL_iff.mpr (h.plain b hb).2
  obtain ⟨u,hu⟩ := (parse_some hgood).mpr ⟨h.path,h.fragment⟩
  obtain ⟨hscheme,hhost,-⟩ := parse_rooted hu h.rooted
  unfold location
  rw [hu]
  dsimp only
  rw [if_pos ⟨hscheme,hhost⟩]

/-- Whatever the redirect, it is kept or replaced by the root; the Location sent for it leads a
browser to the same origin and has no octet a header could end at; and it is kept exactly when it
is a rooted local path. -/
theorem redirect_local (raw : Bytes) :
    (safeLocalRedirect raw=[0x2F]∨safeLocalRedirect raw=raw)∧
      (∀ scheme, resolve scheme (location (safeLocalRedirect raw))=.origin)∧
      (∀ b∈location (safeLocalRedirect raw), 0x20≤b∧b < 0x7F)∧
      (safeLocalRedirect raw=raw ↔ Local raw) := by
  have hlocal := guard_local raw
  obtain ⟨t,hurl,hone,hmem⟩ := cleanedURL_spec hlocal
  have hloc : location (safeLocalRedirect raw)=0x2F::hexEscapeNonASCII t := by
    rw [location_eq hlocal,hurl]
    rfl
  have hbytes : ∀ b∈hexEscapeNonASCII t, 0x20≤b∧b < 0x7F∧b≠0x5C := by
    intro b hb
    rcases mem_hexEscape hb with ⟨hin,hascii⟩ | hescape
    · obtain ⟨hback,hlow,hdel⟩ := hlocal.plain b (hmem b hin)
      have hlt : ∀ b : UInt8, b < 0x80 → b≠0x7F → b < 0x7F := by
        intro b hb hne
        rw [UInt8.lt_iff_toNat_lt] at hb ⊢
        have hnat : b.toNat≠127 := fun heq => hne (UInt8.toNat_inj.mp heq)
        have h80 : (0x80 : UInt8).toNat=128 := rfl
        have h7F : (0x7F : UInt8).toNat=127 := rfl
        omega
      exact ⟨hlow,hlt b hascii hdel,hback⟩
    · exact hescape
  have hnext : ∀ b∈(hexEscapeNonASCII t).head?, isSlash b=false := by
    intro b hb
    cases t with
    | nil => cases hb
    | cons c t =>
      unfold hexEscapeNonASCII at hb
      rw [List.flatMap_cons] at hb
      split at hb
      · rw [← Option.some.inj hb]
        rfl
      · have hbc : c=b := Option.some.inj hb
        have hne : c≠0x2F := fun heq => hone (by rw [heq]; rfl)
        have hback := (hlocal.plain c (hmem c List.mem_cons_self)).1
        rw [← hbc]
        exact decide_eq_false (not_or.mpr ⟨hne,hback⟩)
  refine ⟨?_,?_,?_,?_⟩
  · rcases guard_cases raw with ⟨hroot,-⟩ | ⟨hkept,-⟩
    · exact Or.inl hroot
    · exact Or.inr hkept
  · intro scheme
    rw [hloc]
    exact resolve_local scheme (fun b hb => (hbytes b hb).1) hnext
  · rw [hloc]
    exact List.forall_mem_cons.mpr ⟨by decide,fun b hb => ⟨(hbytes b hb).1,(hbytes b hb).2.1⟩⟩
  · constructor
    · intro hkept
      rw [← hkept]
      exact hlocal
    · intro hraw
      rcases guard_cases raw with ⟨-,hnot⟩ | ⟨hkept,-⟩
      · exact absurd hraw hnot
      · exact hkept

/-- A percent sign on its own: the guard drops the path, though it is rooted, short and without
anything a browser reads in another way. -/
theorem percent_dropped :
    ¬∀ raw : Bytes, raw.head?=some 0x2F → raw.tail.head?≠some 0x2F → raw.length ≤ maxRedirectLen →
      (∀ b∈raw, b≠0x09∧b≠0x0A∧b≠0x5C) → safeLocalRedirect raw=raw := by
  intro hall
  have hkept := hall [0x2F,0x31,0x30,0x30,0x25] rfl (by decide) (by decide) (by decide)
  have hdropped : safeLocalRedirect [0x2F,0x31,0x30,0x30,0x25]=[0x2F] := by decide
  rw [hdropped] at hkept
  revert hkept
  decide

end Kitp.LoginRedirects
