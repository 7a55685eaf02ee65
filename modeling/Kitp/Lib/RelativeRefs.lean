import Kitp.Lib.Bounded
import Kitp.Lib.NetIP
import Kitp.Lib.WebPaths

/-! Where a relative reference leads among files in directories, each with an index. -/
namespace Kitp.RelativeRefs

open Kitp.WebPaths

variable {dir es segs : List Bytes} {e s last frag : Bytes} {n : Nat} {b : UInt8}

def dot : Bytes := [0x2E]

def dotdot : Bytes := [0x2E,0x2E]

def index : Bytes := NetIP.ascii "index.html"

/-- The elements of a path followed from a directory: the directory they lead to, and a file's name. -/
def follow : (dir : List Bytes) → List Bytes → Option (List Bytes×Bytes)
  | dir,[] => some (dir,[])
  | dir,e::es =>
    if e=dotdot then (if dir=[] then none else follow dir.dropLast es)
    else if e=dot then follow dir es
    else if es=[] then some (dir,e)
    else follow (dir++[e]) es

/-- What comes before a query or a fragment. -/
def refPath (href : Bytes) : Bytes := href.takeWhile fun b => b≠0x23∧b≠0x3F

def fileOf (p : List Bytes×Bytes) : Bytes := join (p.1++[if p.2=[] then index else p.2])

/-- The file a relative reference in a directory leads to, none when it isn't relative or leads out. -/
def target (dir : List Bytes) (href : Bytes) : Option Bytes :=
  let path := refPath href
  if path.head?=some 0x2F∨((elements path).head?.any fun e => e.contains 0x3A) then none
  else (follow dir (elements path)).map fileOf

/-- An element that stands for itself. -/
structure Clean (e : Bytes) : Prop where
  nonempty : e≠[]
  noDot : e≠dot
  noDotdot : e≠dotdot
  bytes : ∀ b∈e, b≠0x2F∧b≠0x23∧b≠0x3F∧b≠0x3A

def climb (n : Nat) : Bytes := (List.replicate n (NetIP.ascii "../")).flatten

theorem elements_ne (s : Bytes) : elements s≠[] := by
  cases s with
  | nil => exact List.cons_ne_nil _ _
  | cons b s =>
    unfold elements
    split
    · exact List.cons_ne_nil _ _
    · split
      · exact List.cons_ne_nil _ _
      · exact List.cons_ne_nil _ _

theorem elements_plain (he : ∀ b∈e, b≠0x2F) : elements e=[e] := by
  induction e with
  | nil => rfl
  | cons b e ih =>
    rw [elements,if_neg (he b List.mem_cons_self),ih fun b hb => he b (List.mem_cons_of_mem _ hb)]

theorem elements_slash (he : ∀ b∈e, b≠0x2F) : elements (e++0x2F::s)=e::elements s := by
  induction e with
  | nil => rw [List.nil_append,elements,if_pos rfl]
  | cons b e ih =>
    rw [List.cons_append,elements,if_neg (he b List.mem_cons_self),
      ih fun b hb => he b (List.mem_cons_of_mem _ hb)]

theorem elements_join (hne : es≠[]) (hes : ∀ e∈es, ∀ b∈e, b≠0x2F) : elements (join es)=es := by
  induction es with
  | nil => exact absurd rfl hne
  | cons e es ih =>
    have he := hes e List.mem_cons_self
    cases es with
    | nil => exact elements_plain he
    | cons d ds =>
      have hrest := ih (List.cons_ne_nil d ds) fun e he => hes e (List.mem_cons_of_mem _ he)
      show elements (e++0x2F::join (d::ds))=_
      rw [elements_slash he,hrest]

/-- Joined elements tell the elements. -/
theorem join_inj {ds : List Bytes} (hne : es≠[]) (hne' : ds≠[]) (hes : ∀ e∈es, ∀ b∈e, b≠0x2F)
    (hds : ∀ d∈ds, ∀ b∈d, b≠0x2F) (h : join es=join ds) : es=ds := by
  rw [← elements_join hne hes,h,elements_join hne' hds]

theorem join_snoc (hne : es≠[]) (e : Bytes) : join (es++[e])=join es++0x2F::e := by
  induction es with
  | nil => exact absurd rfl hne
  | cons d ds ih =>
    cases ds with
    | nil => rfl
    | cons c cs =>
      have hrest := ih (List.cons_ne_nil c cs)
      show d++0x2F::join ((c::cs)++[e])=d++0x2F::join (c::cs)++0x2F::e
      rw [hrest,List.append_assoc,List.cons_append]

theorem elements_climb (n : Nat) (s : Bytes) :
    elements (climb n++s)=List.replicate n dotdot++elements s := by
  induction n with
  | zero => rfl
  | succ n ih =>
    have hstep : climb (n+1)++s=dotdot++0x2F::(climb n++s) := by
      unfold climb
      rw [List.replicate_succ,List.flatten_cons,List.append_assoc]
      rfl
    rw [hstep,elements_slash (by decide),ih]
    rfl

theorem follow_climb (h : dir.length=n) : follow dir (List.replicate n dotdot++es)=follow [] es := by
  induction n generalizing dir with
  | zero => rw [List.length_eq_zero_iff.mp h]; rfl
  | succ n ih =>
    have hne : dir≠[] := by
      rintro rfl
      cases h
    rw [List.replicate_succ,List.cons_append,follow,if_pos rfl,if_neg hne]
    exact ih (by rw [List.length_dropLast,h]; rfl)

theorem follow_clean (hsegs : ∀ e∈segs, Clean e) (hlast : last=[]∨Clean last) :
    follow dir (segs++[last])=some (dir++segs,last) := by
  induction segs generalizing dir with
  | nil =>
    have hplain : last≠dotdot∧last≠dot := by
      rcases hlast with rfl | hlast
      · decide
      · exact ⟨hlast.noDotdot,hlast.noDot⟩
    rw [List.nil_append,follow,if_neg hplain.1,if_neg hplain.2,if_pos rfl,List.append_nil]
  | cons e segs ih =>
    have he := hsegs e List.mem_cons_self
    have hmore : segs++[last]≠[] := List.append_ne_nil_of_right_ne_nil _ (List.cons_ne_nil _ _)
    rw [List.cons_append,follow,if_neg he.noDotdot,if_neg he.noDot,if_neg hmore,
      ih fun e he => hsegs e (List.mem_cons_of_mem _ he),List.append_assoc,List.singleton_append]

/-- No query or fragment in it. -/
def Pathlike (s : Bytes) : Prop := ∀ b∈s, b≠0x23∧b≠0x3F

theorem refPath_pathlike (hs : Pathlike s) (hfrag : frag=[]∨frag.head?=some 0x23) :
    refPath (s++frag)=s := by
  unfold refPath
  rw [List.takeWhile_append_of_pos fun b hb => decide_eq_true (hs b hb)]
  rcases hfrag with rfl | hfrag
  · exact List.append_nil s
  · obtain ⟨more,rfl⟩ := List.head?_eq_some_iff.mp hfrag
    rw [List.takeWhile_cons_of_neg (by decide),List.append_nil]

theorem climb_pathlike (n : Nat) : Pathlike (climb n) := by
  intro b hb
  obtain ⟨part,hpart,hin⟩ := List.mem_flatten.mp hb
  rw [List.eq_of_mem_replicate hpart] at hin
  have hall : ∀ b∈NetIP.ascii "../", b≠0x23∧b≠0x3F := by decide
  exact hall b hin

theorem join_pathlike (hsegs : ∀ e∈segs, Clean e) (hlast : last=[]∨Clean last) :
    Pathlike (join (segs++[last])) := by
  intro b hb
  rcases mem_join hb with rfl | ⟨e,he,hin⟩
  · decide
  · have hclean : Clean e := by
      cases List.mem_append.mp he with
      | inl he => exact hsegs e he
      | inr he =>
        rw [List.mem_singleton.mp he] at hin ⊢
        rcases hlast with rfl | hlast
        · cases hin
        · exact hlast
    exact ⟨(hclean.bytes b hin).2.1,(hclean.bytes b hin).2.2.1⟩

/-- From any directory, up to the root and down again. -/
theorem target_climb (hdir : dir.length=n) (hsegs : ∀ e∈segs, Clean e) (hlast : last=[]∨Clean last)
    (hfrag : frag=[]∨frag.head?=some 0x23) :
    target dir (climb n++join (segs++[last])++frag)=some (fileOf (segs,last)) := by
  have hall : ∀ e∈segs++[last], ∀ b∈e, b≠0x2F∧b≠0x3A := by
    intro e he b hb
    cases List.mem_append.mp he with
    | inl he => exact ⟨((hsegs e he).bytes b hb).1,((hsegs e he).bytes b hb).2.2.2⟩
    | inr he =>
      rw [List.mem_singleton.mp he] at hb
      rcases hlast with rfl | hlast
      · cases hb
      · exact ⟨(hlast.bytes b hb).1,(hlast.bytes b hb).2.2.2⟩
  have hne : segs++[last]≠[] := List.append_ne_nil_of_right_ne_nil _ (List.cons_ne_nil _ _)
  have hpath : refPath (climb n++join (segs++[last])++frag)=climb n++join (segs++[last]) := by
    refine refPath_pathlike ?_ hfrag
    intro b hb
    cases List.mem_append.mp hb with
    | inl hb => exact climb_pathlike n b hb
    | inr hb => exact join_pathlike hsegs hlast b hb
  have helements : elements (climb n++join (segs++[last]))=
      List.replicate n dotdot++(segs++[last]) := by
    rw [elements_climb,elements_join hne fun e he b hb => (hall e he b hb).1]
  have hfirst : ∀ e, (elements (climb n++join (segs++[last]))).head?=some e →
      elements (climb n++join (segs++[last]))=[[]]∨e≠[]∧∀ b∈e, b≠0x3A := by
    intro e he
    rw [helements] at he ⊢
    cases n with
    | succ n =>
      rw [← Option.some.inj he]
      exact Or.inr (by decide)
    | zero =>
      cases segs with
      | nil =>
        rw [← Option.some.inj he]
        rcases hlast with rfl | hlast
        · exact Or.inl rfl
        · exact Or.inr ⟨hlast.nonempty,fun b hb => (hlast.bytes b hb).2.2.2⟩
      | cons d ds =>
        have hd := hsegs d List.mem_cons_self
        rw [← Option.some.inj he]
        exact Or.inr ⟨hd.nonempty,fun b hb => (hd.bytes b hb).2.2.2⟩
  have hrelative : ¬((climb n++join (segs++[last])).head?=some 0x2F∨
      ((elements (climb n++join (segs++[last]))).head?.any fun e => e.contains 0x3A)=true) := by
    rintro (hslash | hcolon)
    · obtain ⟨more,hmore⟩ := List.head?_eq_some_iff.mp hslash
      have hempty : elements (0x2F::more)=[]::elements more := by rw [elements,if_pos rfl]
      rw [hmore,hempty] at hfirst
      rcases hfirst [] rfl with hone | hsome
      · exact elements_ne more (List.cons.inj hone).2
      · exact hsome.1 rfl
    · obtain ⟨e,he,hin⟩ := (Option.any_eq_true _ _).mp hcolon
      rcases hfirst e he with hone | hsome
      · rw [hone] at he
        rw [← Option.some.inj he] at hin
        cases hin
      · exact hsome.2 _ (List.contains_iff_mem.mp hin) rfl
  unfold target
  dsimp only
  rw [hpath,if_neg hrelative,helements,follow_climb hdir,follow_clean hsegs hlast]
  rfl

/-- To the root itself. -/
theorem target_here (frag : Bytes) (hfrag : frag=[]∨frag.head?=some 0x23) :
    target [] (NetIP.ascii "./"++frag)=some index := by
  have hpath : refPath (NetIP.ascii "./"++frag)=NetIP.ascii "./" :=
    refPath_pathlike (by unfold Pathlike; decide) hfrag
  unfold target
  dsimp only
  rw [hpath]
  decide

end Kitp.RelativeRefs
