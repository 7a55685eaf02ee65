import Kitp.Lib.Bounded
import Kitp.Lib.Steps
import Kitp.SiteLinks

/-! A build's files have paths of their own, and each page of it names its pages by their paths unless
a path is another page's number. -/
namespace Kitp.SiteRender

open Kitp.NetIP Kitp.RelativeRefs
open Kitp.WebPaths (elements join mem_join mem_elements join_head)

variable {toLower : Bytes → Bytes} {g : Renderer} {s : Site} {root : Page} {n m : Node} {r : Tree}
  {b : Build} {path : Bytes} {st st' : Files} {d : Dest} {image : Bytes} {k pages : Nat} {res : Result}

/-- Where an attachment is published. -/
def attachmentFile (toLower : Bytes → Bytes) (id : Int) (name : Bytes) : Bytes :=
  ascii "_files/"++formatInt id++0x2f::fileSegment toLower name

theorem trimSet_last {cut : UInt8 → Bool} {t : Bytes} :
    ∀ b, (trimSet cut t).reverse.head?=some b → cut b=false := by
  intro b hb
  unfold trimSet at hb
  rw [List.reverse_reverse] at hb
  have hnot := List.head?_dropWhile_not cut (t.dropWhile cut).reverse
  rw [hb] at hnot
  exact hnot

theorem fileByte_plain {b : UInt8} (h : isFileByte b=true) : b≠0x2F∧b≠0x23∧b≠0x3F∧b≠0x3A := by
  refine ⟨?_,?_,?_,?_⟩
  all_goals
    rintro rfl
    exact absurd h (by decide)

theorem fileSegment_clean (toLower : Bytes → Bytes) (name : Bytes) :
    Clean (fileSegment toLower name) := by
  unfold fileSegment
  dsimp only
  generalize hs : trimSet (fun b => b=0x2d∨b=0x2e) (stripRuns isFileByte false (toLower name))=t
  have hbytes : ∀ b∈t, isFileByte b=true := by
    intro b hb
    rw [← hs] at hb
    cases stripRuns_bytes isFileByte false _ b (trimSet_subset _ _ b hb) with
    | inl hkeep => exact hkeep
    | inr hdash =>
      rw [hdash]
      decide
  have hlast : ∀ b, t.reverse.head?=some b → b≠0x2e := by
    intro b hb hdot
    rw [← hs] at hb
    have hcut := trimSet_last b hb
    rw [hdot] at hcut
    revert hcut
    decide
  have hshort : t≠dot∧t≠dotdot := by
    refine ⟨?_,?_⟩
    · rintro rfl
      exact hlast 0x2e rfl rfl
    · rintro rfl
      exact hlast 0x2e rfl rfl
  split
  · rename_i hlong
    have hlen : (t.drop (t.length-80)).length=80 := by
      rw [List.length_drop]
      omega
    have hne : ∀ e : Bytes, e.length < 80 → t.drop (t.length-80)≠e := by
      rintro e he rfl
      omega
    rw [if_neg (hne [] (by decide))]
    exact ⟨hne [] (by decide),hne dot (by decide),hne dotdot (by decide),
      fun b hb => fileByte_plain (hbytes b (List.mem_of_mem_drop hb))⟩
  · split
    · exact ⟨by decide,by decide,by decide,by decide⟩
    · rename_i hne
      exact ⟨hne,hshort.1,hshort.2,fun b hb => fileByte_plain (hbytes b hb)⟩

theorem formatInt_clean (id : Int) : Clean (formatInt id) := by
  refine Seg.clean ⟨?_,formatInt_seg id⟩
  unfold formatInt
  split
  · exact List.cons_ne_nil _ _
  · exact decimal_ne _

theorem formatInt_inj {i j : Int} (h : formatInt i=formatInt j) : i=j := by
  have hdigits : ∀ k t, decimal k≠0x2d::t := by
    intro k t heq
    have hmem : (0x2d : UInt8)∈decimal k := by
      rw [heq]
      exact List.mem_cons_self
    obtain ⟨e,he,hdash⟩ := decimal_digits k _ hmem
    have hdigit := (digit_isDigit he).1
    rw [← hdash] at hdigit
    revert hdigit
    decide
  unfold formatInt at h
  split at h
  · split at h
    · have hsame := decimal_inj (List.cons.inj h).2
      omega
    · exact absurd h.symm (hdigits _ _)
  · split at h
    · exact absurd h (hdigits _ _)
    · have hsame := decimal_inj h
      omega

def filesName : Bytes := ascii "_files"

theorem attachmentFile_join (toLower : Bytes → Bytes) (id : Int) (name : Bytes) :
    attachmentFile toLower id name=join ([filesName,formatInt id]++[fileSegment toLower name]) := by
  have hlead : ascii "_files/"=filesName++[0x2F] := by decide
  unfold attachmentFile
  rw [hlead]
  show _=filesName++0x2F::(formatInt id++0x2F::fileSegment toLower name)
  simp

theorem attachment_clean (id : Int) : ∀ e∈[filesName,formatInt id], Clean e := by
  intro e he
  simp only [List.mem_cons,List.not_mem_nil,or_false] at he
  rcases he with rfl | rfl
  · exact ⟨by decide,by decide,by decide,by decide⟩
  · exact formatInt_clean id

theorem attachmentFile_elements (toLower : Bytes → Bytes) (id : Int) (name : Bytes) :
    elements (attachmentFile toLower id name)=[filesName,formatInt id,fileSegment toLower name] := by
  rw [attachmentFile_join]
  refine elements_join (List.cons_ne_nil _ _) ?_
  intro e he b hb
  cases List.mem_append.mp he with
  | inl he => exact ((attachment_clean id e he).bytes b hb).1
  | inr he =>
    rw [List.mem_singleton.mp he] at hb
    exact ((fileSegment_clean toLower name).bytes b hb).1

/-- What is published: each attachment once, under a path of its number. -/
structure Published (toLower : Bytes → Bytes) (st : Files) : Prop where
  refs : ∀ p∈st.published, ∃ a∈st.attachments, a.id=p.1∧a.path=p.2
  listed : ∀ a∈st.attachments, (a.id,a.path)∈st.published
  paths : ∀ a∈st.attachments, ∃ name, a.path=attachmentFile toLower a.id name
  ids : (st.attachments.map FileRef.id).Nodup

theorem Published.nil (toLower : Bytes → Bytes) : Published toLower ⟨[],[]⟩ :=
  ⟨fun _ hp => absurd hp List.not_mem_nil,fun _ ha => absurd ha List.not_mem_nil,
    fun _ ha => absurd ha List.not_mem_nil,List.nodup_nil⟩

/-- One destination published, what it is found under, and all that was there before. -/
theorem publish_keeps (h : Published toLower st) (dest : Bytes) :
    Published toLower (publish toLower s r st dest).1∧
      (∀ a∈st.attachments, a∈(publish toLower s r st dest).1.attachments)∧
      ∀ p, (publish toLower s r st dest).2=some (some p) →
        ∃ a∈(publish toLower s r st dest).1.attachments, a.path=p := by
  unfold publish
  split
  · exact ⟨h,fun _ ha => ha,fun p hp => by cases hp⟩
  · rename_i id hid
    split
    · exact ⟨h,fun _ ha => ha,fun p hp => by cases hp⟩
    · rename_i f hf
      split
      · exact ⟨h,fun _ ha => ha,fun p hp => by cases hp⟩
      · split
        · exact ⟨h,fun _ ha => ha,fun p hp => by cases hp⟩
        · split
          · rename_i p hp
            refine ⟨h,fun _ ha => ha,?_⟩
            intro q hq
            obtain ⟨a,ha,-,hpath⟩ := h.refs _ (lookup_mem hp)
            rw [← Option.some.inj (Option.some.inj hq)]
            exact ⟨a,ha,hpath⟩
          · rename_i hnone
            have hnew : ∀ a∈st.attachments, a.id≠id := by
              intro a ha heq
              have hmem := h.listed a ha
              rw [heq] at hmem
              rw [List.lookup_eq_none_iff] at hnone
              have hother := hnone _ hmem
              simp at hother
            dsimp only
            refine ⟨⟨?_,?_,?_,?_⟩,fun a ha => List.mem_append_left _ ha,?_⟩
            · intro p hp
              cases List.mem_cons.mp hp with
              | inl hp =>
                rw [hp]
                exact ⟨_,List.mem_append_right _ (List.mem_singleton.mpr rfl),rfl,rfl⟩
              | inr hp =>
                obtain ⟨a,ha,heq⟩ := h.refs p hp
                exact ⟨a,List.mem_append_left _ ha,heq⟩
            · intro a ha
              cases List.mem_append.mp ha with
              | inl ha => exact List.mem_cons_of_mem _ (h.listed a ha)
              | inr ha =>
                rw [List.mem_singleton.mp ha]
                exact List.mem_cons_self
            · intro a ha
              cases List.mem_append.mp ha with
              | inl ha => exact h.paths a ha
              | inr ha =>
                rw [List.mem_singleton.mp ha]
                exact ⟨f.name,rfl⟩
            · rw [List.map_append,List.nodup_append]
              refine ⟨h.ids,List.nodup_singleton _,?_⟩
              intro i hi j hj heq
              obtain ⟨a,ha,rfl⟩ := List.mem_map.mp hi
              rw [List.mem_singleton.mp hj] at heq
              exact hnew a ha heq
            · intro q hq
              rw [← Option.some.inj (Option.some.inj hq)]
              exact ⟨_,List.mem_append_right _ (List.mem_singleton.mpr rfl),rfl⟩

/-- An image: none, one elsewhere, or a file published. -/
def Shows (st : Files) (image : Bytes) : Prop :=
  image=[]∨isHTTP image=true∨∃ a∈st.attachments, a.path=image

theorem Shows.mono (h : Shows st image) (hkeep : ∀ a∈st.attachments, a∈st'.attachments) :
    Shows st' image := by
  rcases h with hnil | hhttp | ⟨a,ha,heq⟩
  · exact Or.inl hnil
  · exact Or.inr (Or.inl hhttp)
  · exact Or.inr (Or.inr ⟨a,hkeep a ha,heq⟩)

theorem publishDest_keeps (h : Published toLower st) (himage : Shows st image) (d : Dest) :
    Published toLower (publishDest toLower s r (st,image) d).1∧
      (∀ a∈st.attachments, a∈(publishDest toLower s r (st,image) d).1.attachments)∧
      Shows (publishDest toLower s r (st,image) d).1 (publishDest toLower s r (st,image) d).2 := by
  cases d with
  | link dest =>
    unfold publishDest
    dsimp only
    split
    · exact ⟨h,fun _ ha => ha,himage⟩
    · obtain ⟨hpub,hkeep,-⟩ := publish_keeps (s := s) (r := r) h dest
      exact ⟨hpub,hkeep,himage.mono hkeep⟩
  | image dest =>
    obtain ⟨hpub,hkeep,hfound⟩ := publish_keeps (s := s) (r := r) h dest
    unfold publishDest
    dsimp only
    split
    · rename_i st' path heq
      rw [heq] at hpub hkeep hfound
      refine ⟨hpub,hkeep,?_⟩
      split
      · exact Or.inr (Or.inr (hfound path rfl))
      · exact himage.mono hkeep
    · rename_i st' heq
      rw [heq] at hpub hkeep
      exact ⟨hpub,hkeep,himage.mono hkeep⟩
    · rename_i st' heq
      rw [heq] at hpub hkeep
      refine ⟨hpub,hkeep,?_⟩
      split
      · rename_i hhttp
        exact Or.inr (Or.inl hhttp.2)
      · exact himage.mono hkeep

theorem dests_keep (ds : List Dest) (h : Published toLower st) (himage : Shows st image) :
    Published toLower (ds.foldl (publishDest toLower s r) (st,image)).1∧
      (∀ a∈st.attachments, a∈(ds.foldl (publishDest toLower s r) (st,image)).1.attachments)∧
      Shows (ds.foldl (publishDest toLower s r) (st,image)).1
        (ds.foldl (publishDest toLower s r) (st,image)).2 := by
  induction ds generalizing st image with
  | nil => exact ⟨h,fun _ ha => ha,himage⟩
  | cons d ds ih =>
    obtain ⟨hpub,hkeep,hshows⟩ := publishDest_keeps (s := s) (r := r) h himage d
    rw [List.foldl_cons]
    generalize publishDest toLower s r (st,image) d=next at hpub hkeep hshows ⊢
    obtain ⟨hpub',hkeep',hshows'⟩ := ih hpub hshows
    exact ⟨hpub',fun a ha => hkeep' a (hkeep a ha),hshows'⟩

/-- What rendering the bodies leaves. -/
theorem bodies_keep (g : Renderer) (s : Site) (r : Tree) :
    Published g.toLower (renderBodies g s r).1∧
      ∀ p∈(renderBodies g s r).2, Shows (renderBodies g s r).1 p.2 := by
  refine Steps.foldl_inv (I := fun p : Files×List (Node×Bytes) => Published g.toLower p.1∧∀ q∈p.2, Shows p.1 q.2)
    ⟨Published.nil _,fun _ hp => absurd hp List.not_mem_nil⟩ ?_
  rintro ⟨st,images⟩ ⟨hpub,himages⟩ n -
  obtain ⟨hpub',hkeep,hshows⟩ := dests_keep (s := s) (r := r) (g.dests r n) hpub
    (Or.inl rfl : Shows st [])
  unfold renderBody
  refine ⟨hpub',?_⟩
  intro q hq
  cases List.mem_cons.mp hq with
  | inl hself =>
    rw [hself]
    dsimp only
    split
    · exact hshows
    · exact Or.inl rfl
  | inr hold => exact (himages q hold).mono hkeep

theorem isHTTP_abs (h : isHTTP image=true) : Build.isAbsURL image=true := by
  rcases of_decide_eq_true h with hs | hs
  · obtain ⟨t,rfl⟩ := List.isPrefixOf_iff_prefix.mp hs
    rfl
  · obtain ⟨t,rfl⟩ := List.isPrefixOf_iff_prefix.mp hs
    rfl

/-- The files a node's pages are written to. -/
def pagePaths (b : Build) (n : Node) : List Bytes :=
  (List.range (b.pageCount n).1).map fun i => (b.pageOf n (b.pageCount n).1 (i+1)).1

def themePaths (t : Theme) : List Bytes :=
  (t.assets.mergeSort fun x y => x.1≤y.1).map (fun a => ascii "_theme/"++a.1)++
    [ascii "_theme/custom.css"]

theorem renderPages_paths {out : List File×List Warning} (h : b.renderPages n=.ok out) :
    out.1.map File.path=pagePaths b n∧∀ f∈out.1, f.cardID=n.page.id := by
  unfold Build.renderPages at h
  dsimp only at h
  cases hmap : (List.range (b.pageCount n).1).mapM fun i => b.renderPage n (b.pageCount n).1 (i+1) with
  | error err =>
    rw [hmap] at h
    cases h
  | ok pages =>
    rw [hmap] at h
    have hout := Except.ok.inj h
    have hpage : ∀ i, ∀ p, b.renderPage n (b.pageCount n).1 (i+1)=.ok p →
        p.1.path=(b.pageOf n (b.pageCount n).1 (i+1)).1∧p.1.cardID=n.page.id := by
      intro i p hp
      unfold Build.renderPage at hp
      cases hexec : b.execute n.page.title (b.pageOf n (b.pageCount n).1 (i+1)).2 with
      | error err =>
        rw [hexec] at hp
        cases hp
      | ok out =>
        rw [hexec] at hp
        rw [← Except.ok.inj hp]
        exact ⟨rfl,rfl⟩
    rw [← hout]
    refine ⟨?_,?_⟩
    · rw [List.map_map]
      exact Steps.mapM_map hmap fun i _ p hp => (hpage i p hp).1
    · intro f hf
      obtain ⟨p,hp,rfl⟩ := List.mem_map.mp hf
      obtain ⟨i,-,hi⟩ := Steps.mapM_mem hmap hp
      exact (hpage i p hi).2

theorem page_cases (b : Build) (n : Node) (pages : Nat) (hk : 1≤k) : (b.pageOf n pages k).1=filePath n.path∧k=1∨
    1 < k∧(b.pageOf n pages k).1=Build.listPage n k++index := by
  unfold Build.pageOf
  dsimp only
  split
  · rename_i hmore
    exact Or.inr ⟨hmore,rfl⟩
  · exact Or.inl ⟨rfl,by omega⟩

theorem mem_pagePaths (hp : path∈pagePaths b n) :
    path=filePath n.path∨∃ k, 1 < k∧k≤(b.pageCount n).1∧path=Build.listPage n k++index := by
  obtain ⟨i,hi,rfl⟩ := List.mem_map.mp hp
  have hless := List.mem_range.mp hi
  rcases page_cases b n (b.pageCount n).1 (k := i+1) (by omega) with
    ⟨heq,-⟩ | ⟨hmore,heq⟩
  · exact Or.inl heq
  · exact Or.inr ⟨i+1,hmore,by omega,heq⟩

theorem pageCount_pos (n : Node) : 1≤(b.pageCount n).1 := by
  unfold Build.pageCount
  dsimp only
  split
  · rename_i hper
    split
    · exact Nat.le_refl 1
    · show 1≤((b.listed n).length+b.site.theme.paginate-1)/b.site.theme.paginate
      rw [Nat.le_div_iff_mul_le hper.1]
      omega
  · exact Nat.le_refl 1

theorem filePath_mem (n : Node) : filePath n.path∈pagePaths b n := by
  have hpos := pageCount_pos (b := b) n
  refine List.mem_map.mpr ⟨0,List.mem_range.mpr (by omega),?_⟩
  rfl

theorem listPage_mem (hlow : 1 < k) (hhigh : k≤(b.pageCount n).1) :
    Build.listPage n k++index∈pagePaths b n := by
  refine List.mem_map.mpr ⟨k-1,List.mem_range.mpr (by omega),?_⟩
  have hsame : k-1+1=k := by omega
  rw [hsame]
  rcases page_cases b n (b.pageCount n).1 (k := k) (by omega) with
    ⟨-,hone⟩ | ⟨-,heq⟩
  · omega
  · exact heq

/-- Where a path starts: in a page's directory, or at the root's index. -/
def PageHead (path : Bytes) : Prop := ∃ e, (elements path).head?=some e∧(Seg e∨e=index)

theorem pageHead_join {segs : List Bytes} (hsegs : ∀ e∈segs, Seg e) : PageHead (join (segs++[index])) := by
  have hall : ∀ e∈segs++[index], ∀ b∈e, b≠0x2F := by
    intro e he
    cases List.mem_append.mp he with
    | inl he => exact segs_slash hsegs e he
    | inr he =>
      rw [List.mem_singleton.mp he]
      exact index_plain
  unfold PageHead
  rw [elements_join (List.append_ne_nil_of_right_ne_nil _ (List.cons_ne_nil _ _)) hall]
  cases segs with
  | nil => exact ⟨index,rfl,Or.inr rfl⟩
  | cons e segs => exact ⟨e,rfl,Or.inl (hsegs e List.mem_cons_self)⟩

theorem list_segs {segs : List Bytes} (hsegs : ∀ e∈segs, Seg e) (k : Nat) :
    ∀ e∈segs++[ascii "page",decimal k], Seg e := by
  intro e he
  cases List.mem_append.mp he with
  | inl he => exact hsegs e he
  | inr he =>
    simp only [List.mem_cons,List.not_mem_nil,or_false] at he
    rcases he with rfl | rfl
    · exact ⟨by decide,by decide⟩
    · exact ⟨decimal_ne k,decimal_seg k⟩

theorem pagePaths_head (hsegs : ∃ segs, Segs n segs) (hp : path∈pagePaths b n) : PageHead path := by
  obtain ⟨segs,hsegs⟩ := hsegs
  rcases mem_pagePaths hp with rfl | ⟨k,-,-,rfl⟩
  · rw [hsegs.filePath]
    exact pageHead_join hsegs.each
  · rw [(hsegs.listPage k).2]
    exact pageHead_join (list_segs hsegs.each k)

/-- An element that starts neither a page's directory nor is the root's index. -/
theorem head_other {e : Bytes} (hpath : PageHead path) (hne : e≠index)
    (hbyte : ∃ b∈e, isSegByte b=false) : (elements path).head?≠some e := by
  obtain ⟨f,hf,hseg⟩ := hpath
  intro heq
  rw [hf] at heq
  obtain rfl : f=e := Option.some.inj heq
  rcases hseg with hseg | hindex
  · obtain ⟨b,hb,hnot⟩ := hbyte
    rw [hseg.bytes b hb] at hnot
    cases hnot
  · exact hne hindex

theorem segs_index {ds es : List Bytes} (hds : ∀ e∈ds, Seg e) (hes : ∀ e∈es, Seg e)
    (h : join (ds++[index])=join (es++[index])) : ds=es := by
  have hplain : ∀ {cs : List Bytes}, (∀ e∈cs, Seg e) → ∀ e∈cs++[index], ∀ b∈e, b≠0x2F := by
    intro cs hcs e he
    cases List.mem_append.mp he with
    | inl he => exact segs_slash hcs e he
    | inr he =>
      rw [List.mem_singleton.mp he]
      exact index_plain
  have hboth := join_inj (List.append_ne_nil_of_right_ne_nil _ (List.cons_ne_nil _ _))
    (List.append_ne_nil_of_right_ne_nil _ (List.cons_ne_nil _ _)) (hplain hds) (hplain hes) h
  exact List.append_cancel_right hboth

/-- The pages of one node have paths of their own. -/
theorem pagePaths_nodup (hsegs : ∃ segs, Segs n segs) : (pagePaths b n).Nodup := by
  obtain ⟨segs,hsegs⟩ := hsegs
  refine List.nodup_range.map_on ?_
  intro i _ j _ heq
  rcases page_cases b n (b.pageCount n).1 (k := i+1) (by omega) with
    ⟨hi,hione⟩ | ⟨-,hi⟩
  · rcases page_cases b n (b.pageCount n).1 (k := j+1) (by omega) with
      ⟨-,hjone⟩ | ⟨-,hj⟩
    · omega
    · rw [hi,hj,hsegs.filePath,(hsegs.listPage (j+1)).2] at heq
      have hlists := segs_index hsegs.each (list_segs hsegs.each (j+1)) heq
      exact absurd hlists.symm (by simp)
  · rcases page_cases b n (b.pageCount n).1 (k := j+1) (by omega) with
      ⟨hj,-⟩ | ⟨-,hj⟩
    · rw [hi,hj,hsegs.filePath,(hsegs.listPage (i+1)).2] at heq
      have hlists := segs_index (list_segs hsegs.each (i+1)) hsegs.each heq
      exact absurd hlists (by simp)
    · rw [hi,hj,(hsegs.listPage (i+1)).2,(hsegs.listPage (j+1)).2] at heq
      have hlists := segs_index (list_segs hsegs.each (i+1)) (list_segs hsegs.each (j+1)) heq
      have htwo := List.append_cancel_left hlists
      have hsame := decimal_inj (List.cons.inj (List.cons.inj htwo).2).1
      omega

theorem lookup_some {α β : Type} [BEq α] [LawfulBEq α] {l : List (α×β)} {a : α} {x : β}
    (h : (a,x)∈l) : (l.lookup a).isSome=true := by
  rw [Option.isSome_iff_ne_none]
  intro hnone
  have hother := List.lookup_eq_none_iff.mp hnone _ h
  simp at hother

theorem pageCount_clash
    (h : (b.tree.byPath.lookup (joinPath m.path (ascii "page"))).isSome=true) :
    (b.pageCount m).1=1 := by
  unfold Build.pageCount
  dsimp only
  split
  · rfl
  · rfl

/-- No page is placed where the pages of a list are: it would have a parent beside them. -/
theorem Grown.no_clash (h : Grown toLower s root b.tree) (hn : n∈b.tree.all) (hm : m∈b.tree.all)
    (hlow : 1 < k) (hhigh : k≤(b.pageCount m).1) : filePath n.path≠Build.listPage m k++index := by
  intro heq
  obtain ⟨ms,hmlen,hms,hmpath⟩ := h.segs hm
  have hmsegs : Segs m ms := ⟨hmlen,hms,hmpath⟩
  rcases h.nodes n hn with rfl | ⟨c,seg,p,rfl,hp,-,-,hseg⟩
  · rw [(hmsegs.listPage k).2] at heq
    have hempty : filePath (Node.top root).path=join ([]++[index]) := rfl
    rw [hempty] at heq
    have hlists := segs_index (fun e he => absurd he List.not_mem_nil) (list_segs hms k) heq
    exact absurd hlists.symm (by simp)
  · obtain ⟨ps,hplen,hps,hppath⟩ := h.segs hp
    have hchild : Segs (.child c (joinPath p.path seg) (p.depth+1) p) (ps++[seg]) := by
      refine ⟨?_,segs_snoc hps hseg,?_⟩
      · rw [List.length_append,hplen]
        rfl
      · show joinPath p.path seg=_
        rw [hppath,joinPath_join hps]
    rw [hchild.filePath,(hmsegs.listPage k).2] at heq
    have hlists := segs_index hchild.each (list_segs hms k) heq
    have hends : ms++[ascii "page",decimal k]=(ms++[ascii "page"])++[decimal k] := by simp
    rw [hends] at hlists
    have hparent : ps=ms++[ascii "page"] := (List.append_inj' hlists rfl).1
    have hpath : p.path=joinPath m.path (ascii "page") := by
      rw [hppath,hparent,hmpath,joinPath_join hms]
    have hsome : (b.tree.byPath.lookup (joinPath m.path (ascii "page"))).isSome=true :=
      lookup_some ((h.byPath _ p).mpr ⟨hp,hpath⟩)
    have hone := pageCount_clash hsome
    omega

theorem Grown.segs_of (h : Grown toLower s root r) (hn : n∈r.all) : ∃ segs, Segs n segs := by
  obtain ⟨segs,hlen,hsegs,hpath⟩ := h.segs hn
  exact ⟨segs,hlen,hsegs,hpath⟩

/-- Pages of different nodes are in different files. -/
theorem Grown.pages_apart (h : Grown toLower s root b.tree) (hn : n∈b.tree.all) (hm : m∈b.tree.all)
    (hne : n≠m) (hp : path∈pagePaths b n) (hq : path∈pagePaths b m) : False := by
  obtain ⟨ns,hns⟩ := h.segs_of hn
  obtain ⟨ms,hms⟩ := h.segs_of hm
  have hsame : ns≠ms := by
    rintro rfl
    exact hne (h.paths hn hm (by rw [hns.path,hms.path]))
  rcases mem_pagePaths hp with rfl | ⟨k,hlow,hhigh,rfl⟩
  · rcases mem_pagePaths hq with heq | ⟨j,hlow,hhigh,heq⟩
    · rw [hns.filePath,hms.filePath] at heq
      exact hsame (segs_index hns.each hms.each heq)
    · exact h.no_clash hn hm hlow hhigh heq
  · rcases mem_pagePaths hq with heq | ⟨j,hlow',hhigh',heq⟩
    · exact h.no_clash hm hn hlow hhigh heq.symm
    · rw [(hns.listPage k).2,(hms.listPage j).2] at heq
      have hlists := segs_index (list_segs hns.each k) (list_segs hms.each j) heq
      exact hsame (List.append_inj' hlists rfl).1

theorem Grown.pages_nodup (h : Grown toLower s root b.tree) :
    (b.tree.all.flatMap (pagePaths b)).Nodup := by
  rw [List.nodup_flatMap]
  refine ⟨fun n hn => pagePaths_nodup (h.segs_of hn),?_⟩
  refine List.Pairwise.imp_of_mem ?_ h.nodup
  intro n m hn hm hne path hp hq
  exact h.pages_apart hn hm hne hp hq

theorem themePaths_nodup (t : Theme) : (themePaths t).Nodup := by
  unfold themePaths
  have hperm := (List.mergeSort_perm t.assets fun x y => decide (x.1≤y.1)).map fun a => ascii "_theme/"++a.1
  rw [List.nodup_append]
  refine ⟨?_,List.nodup_singleton _,?_⟩
  · rw [hperm.nodup_iff]
    have hmap : t.assets.map (fun a => ascii "_theme/"++a.1)=
        (t.assets.map Prod.fst).map fun p => ascii "_theme/"++p := by
      rw [List.map_map]
      rfl
    rw [hmap]
    exact t.distinct.map_on fun p _ q _ heq => List.append_cancel_left heq
  · intro p hp q hq heq
    obtain ⟨a,ha,rfl⟩ := List.mem_map.mp (hperm.mem_iff.mp hp)
    rw [List.mem_singleton.mp hq] at heq
    have hboth : ascii "_theme/"++a.1=ascii "_theme/"++ascii "custom.css" := heq
    have hname := List.append_cancel_left hboth
    exact t.custom a.2 (hname ▸ ha)

theorem themePaths_head {t : Theme} (hp : path∈themePaths t) :
    (elements path).head?=some (ascii "_theme") := by
  have hlead : ascii "_theme/"=ascii "_theme"++[0x2F] := by decide
  have hhead : ∀ p, (elements (ascii "_theme/"++p)).head?=some (ascii "_theme") := by
    intro p
    rw [hlead,List.append_assoc,List.singleton_append,elements_slash (by decide)]
    rfl
  unfold themePaths at hp
  cases List.mem_append.mp hp with
  | inl hp =>
    obtain ⟨a,-,rfl⟩ := List.mem_map.mp hp
    exact hhead a.1
  | inr hp =>
    rw [List.mem_singleton.mp hp]
    exact hhead (ascii "custom.css")

/-- The paths of a build's files, its attachments among them. -/
def buildPaths (res : Result) : List Bytes :=
  res.files.map File.path++res.attachments.map FileRef.path

theorem rootOf_mem (h : rootOf s=some root) : root∈s.pages := by
  unfold rootOf at h
  split at h
  · cases h
  · exact List.mem_of_find?_eq_some h

theorem treeOf_grown (g : Renderer) (h : rootOf s=some root) :
    Grown g.toLower s root (treeOf g s)∧Full g.toLower s (treeOf g s) := by
  unfold treeOf
  rw [h]
  exact placeSite_grown g.toLower s root

theorem treeOf_empty (g : Renderer) (h : rootOf s=none) : (treeOf g s).all=[] := by
  unfold treeOf
  rw [h]

/-- What a build that succeeds writes. -/
theorem render_paths (h : Render g s=.ok res) :
    res.files.map File.path=(match rootOf s with
      | none => [index]
      | some _ => (treeOf g s).all.flatMap (pagePaths (buildOf g s)))++
        (ascii "404.html"::themePaths s.theme)∧
    res.attachments=(match rootOf s with
      | none => []
      | some _ => (renderBodies g s (treeOf g s)).1.attachments)∧
    ∀ n∈(treeOf g s).all, ∃ f∈res.files, f.path=filePath n.path∧f.cardID=n.page.id := by
  have htheme : (buildOf g s).themeFiles.map File.path=themePaths s.theme := by
    unfold Build.themeFiles themePaths
    rw [List.map_append,List.map_map]
    rfl
  unfold Render at h
  cases hroot : rootOf s with
  | none =>
    rw [hroot] at h
    dsimp only at h ⊢
    unfold Build.renderEmpty at h
    split at h
    · rw [← Except.ok.inj h]
      refine ⟨?_,rfl,?_⟩
      · rw [List.map_append,htheme]
        rfl
      · intro n hn
        rw [treeOf_empty g hroot] at hn
        cases hn
    · cases h
    · cases h
  | some root =>
    rw [hroot] at h
    dsimp only at h ⊢
    cases hpages : (buildOf g s).tree.all.mapM (buildOf g s).renderPages with
    | error err =>
      rw [hpages] at h
      cases h
    | ok pages =>
      rw [hpages] at h
      cases hout : g.execute (buildOf g s).notFoundView with
      | error err =>
        have herr : (buildOf g s).g.execute (buildOf g s).notFoundView=.error err := hout
        rw [show (Except.ok pages : Except ExecErr _).bind _=_ from rfl,herr] at h
        cases h
      | ok out =>
        have hok : (buildOf g s).g.execute (buildOf g s).notFoundView=.ok out := hout
        rw [show (Except.ok pages : Except ExecErr _).bind _=_ from rfl,hok] at h
        rw [← Except.ok.inj h]
        have hmap : pages.map (fun p => p.1.map File.path)=
            (buildOf g s).tree.all.map (pagePaths (buildOf g s)) :=
          Steps.mapM_map hpages fun n _ p hp => (renderPages_paths hp).1
        refine ⟨?_,rfl,?_⟩
        · dsimp only
          rw [List.map_append,List.map_append,htheme,List.map_flatMap,List.flatMap_def,hmap,
            ← List.flatMap_def,List.append_assoc]
          rfl
        · intro n hn
          obtain ⟨p,hp,hn'⟩ := Steps.mapM_hits hpages hn
          obtain ⟨hpaths,hcards⟩ := renderPages_paths hn'
          have hfile := filePath_mem (b := buildOf g s) n
          rw [← hpaths] at hfile
          obtain ⟨f,hf,heq⟩ := List.mem_map.mp hfile
          refine ⟨f,?_,heq,hcards f hf⟩
          exact List.mem_append_left _ (List.mem_append_left _ (List.mem_flatMap.mpr ⟨p,hp,hf⟩))

/-- No two files share a path. -/
theorem render_nodup (h : Render g s=.ok res) : (buildPaths res).Nodup := by
  obtain ⟨hfiles,hattachments,-⟩ := render_paths h
  have hpub := (bodies_keep g s (treeOf g s)).1
  have hatt : (res.attachments.map FileRef.path).Nodup∧
      ∀ p∈res.attachments.map FileRef.path, (elements p).head?=some filesName := by
    rw [hattachments]
    split
    · exact ⟨List.nodup_nil,fun p hp => absurd hp List.not_mem_nil⟩
    · refine ⟨?_,?_⟩
      · refine List.Nodup.map_on ?_ (List.Nodup.of_map _ hpub.ids)
        intro a ha c hc heq
        obtain ⟨name,hname⟩ := hpub.paths a ha
        obtain ⟨name',hname'⟩ := hpub.paths c hc
        rw [hname,hname'] at heq
        have hlists := congrArg elements heq
        rw [attachmentFile_elements,attachmentFile_elements] at hlists
        have hids := formatInt_inj (List.cons.inj (List.cons.inj hlists).2).1
        exact List.inj_on_of_nodup_map hpub.ids ha hc hids
      · intro p hp
        obtain ⟨a,ha,rfl⟩ := List.mem_map.mp hp
        obtain ⟨name,hname⟩ := hpub.paths a ha
        rw [hname,attachmentFile_elements]
        rfl
  generalize hpaged : (match rootOf s with
      | none => [index]
      | some _ => (treeOf g s).all.flatMap (pagePaths (buildOf g s)))=paged at hfiles
  have hpages : paged.Nodup∧∀ p∈paged, PageHead p := by
    rw [← hpaged]
    cases hroot : rootOf s with
    | none =>
      refine ⟨List.nodup_singleton _,?_⟩
      intro p hp
      rw [List.mem_singleton.mp hp]
      exact ⟨index,rfl,Or.inr rfl⟩
    | some root =>
      have hgrown : Grown g.toLower s root (buildOf g s).tree := (treeOf_grown g hroot).1
      refine ⟨hgrown.pages_nodup,?_⟩
      intro p hp
      obtain ⟨n,hn,hin⟩ := List.mem_flatMap.mp hp
      exact pagePaths_head (hgrown.segs_of hn) hin
  have hnames : (elements (ascii "404.html")).head?=some (ascii "404.html") := by decide
  have hnot : ∀ {p q : Bytes} {e : Bytes}, PageHead p → (elements q).head?=some e → e≠index →
      (∃ b∈e, isSegByte b=false) → p≠q := by
    rintro p q e hp hq hne hbyte rfl
    exact head_other hp hne hbyte hq
  have hsite : (ascii "404.html"::themePaths s.theme).Nodup∧
      ∀ p∈ascii "404.html"::themePaths s.theme, (elements p).head?=some (ascii "404.html")∨
        (elements p).head?=some (ascii "_theme") := by
    refine ⟨List.nodup_cons.mpr ⟨?_,themePaths_nodup s.theme⟩,?_⟩
    · intro hmem
      have hhead := themePaths_head hmem
      rw [hnames] at hhead
      revert hhead
      decide
    · intro p hp
      cases List.mem_cons.mp hp with
      | inl hp =>
        rw [hp]
        exact Or.inl hnames
      | inr hp => exact Or.inr (themePaths_head hp)
  have hnotFound : ascii "404.html"≠index∧∃ b∈ascii "404.html", isSegByte b=false := by decide
  have htheme : ascii "_theme"≠index∧∃ b∈ascii "_theme", isSegByte b=false := by decide
  have hfilesName : filesName≠index∧∃ b∈filesName, isSegByte b=false := by decide
  unfold buildPaths
  rw [hfiles,List.append_assoc]
  refine List.nodup_append.mpr ⟨hpages.1,List.nodup_append.mpr ⟨hsite.1,hatt.1,?_⟩,?_⟩
  · rintro p hp q hq rfl
    have hq' := hatt.2 p hq
    rcases hsite.2 p hp with hhead | hhead
    · rw [hhead] at hq'
      revert hq'
      decide
    · rw [hhead] at hq'
      revert hq'
      decide
  · intro p hp q hq
    have hhead := hpages.2 p hp
    cases List.mem_append.mp hq with
    | inl hq =>
      rcases hsite.2 q hq with hq' | hq'
      · exact hnot hhead hq' hnotFound.1 hnotFound.2
      · exact hnot hhead hq' htheme.1 htheme.2
    | inr hq => exact hnot hhead (hatt.2 q hq) hfilesName.1 hfilesName.2

/-- A build's links have where to lead. -/
theorem render_hosts (h : Render g s=.ok res) : Hosts (buildOf g s) (buildPaths res) := by
  obtain ⟨hfiles,hattachments,-⟩ := render_paths h
  have hin : ∀ {p : Bytes}, p∈res.files.map File.path → p∈buildPaths res :=
    fun hp => List.mem_append_left _ hp
  have htheme : ∀ p, (s.theme.assets.lookup p).isSome=true → ascii "_theme/"++p∈buildPaths res := by
    intro p hp
    obtain ⟨data,hdata⟩ := Option.isSome_iff_exists.mp hp
    refine hin ?_
    rw [hfiles]
    refine List.mem_append_right _ (List.mem_cons_of_mem _ (List.mem_append_left _ ?_))
    exact List.mem_map.mpr ⟨(p,data),(List.mergeSort_perm _ _).mem_iff.mpr (lookup_mem hdata),rfl⟩
  cases hroot : rootOf s with
  | none =>
    have hempty : ∀ n, n∉(buildOf g s).tree.all := by
      intro n hn
      have hnone : (buildOf g s).tree.all=[] := treeOf_empty g hroot
      rw [hnone] at hn
      cases hn
    rw [hroot] at hfiles
    refine ⟨fun n hn => absurd hn (hempty n),fun n hn => absurd hn (hempty n),?_,
      fun n hn => absurd hn (hempty n),fun n hn => absurd hn (hempty n),htheme,?_⟩
    · refine hin ?_
      rw [hfiles]
      exact List.mem_append_left _ (List.mem_singleton.mpr rfl)
    · intro n image himage
      have hbodies : (renderBodies g s (treeOf g s)).2=[] := by
        unfold renderBodies
        rw [treeOf_empty g hroot]
        rfl
      have himage' : (n,image)∈(renderBodies g s (treeOf g s)).2 := himage
      rw [hbodies] at himage'
      cases himage'
  | some root =>
    have hgrown : Grown g.toLower s root (buildOf g s).tree := (treeOf_grown g hroot).1
    rw [hroot] at hfiles hattachments
    have hpage : ∀ n∈(buildOf g s).tree.all, ∀ p∈pagePaths (buildOf g s) n, p∈buildPaths res := by
      intro n hn p hp
      refine hin ?_
      rw [hfiles]
      exact List.mem_append_left _ (List.mem_flatMap.mpr ⟨n,hn,hp⟩)
    refine ⟨fun n hn => hgrown.segs_of hn,?_,?_,?_,?_,htheme,?_⟩
    · intro n hn p hp
      rcases hgrown.nodes n hn with rfl | ⟨c,seg,m,rfl,hm,-⟩
      · cases hp
      · rwa [← Option.some.inj hp]
    · have htop := hpage (.top root) hgrown.top _ (filePath_mem _)
      exact htop
    · exact fun n hn => hpage n hn _ (filePath_mem n)
    · exact fun n hn k hlow hhigh => hpage n hn _ (listPage_mem hlow hhigh)
    · intro n image himage
      obtain ⟨hpub,hshows⟩ := bodies_keep g s (treeOf g s)
      rcases hshows (n,image) himage with hnil | hhttp | ⟨a,ha,heq⟩
      · exact Or.inl hnil
      · exact Or.inr (Or.inl (isHTTP_abs hhttp))
      · obtain ⟨name,hname⟩ := hpub.paths a ha
        have heq' : a.path=image := heq
        refine Or.inr (Or.inr ⟨[filesName,formatInt a.id],fileSegment g.toLower name,
          attachment_clean a.id,fileSegment_clean _ _,?_,?_⟩)
        · rw [← heq',hname,attachmentFile_join]
        · refine List.mem_append_right _ (List.mem_map.mpr ⟨a,?_,heq'⟩)
          rw [hattachments]
          exact ha

end Kitp.SiteRender
