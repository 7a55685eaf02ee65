import Kitp.Lib.Bounded
import Kitp.SiteTree
import Mathlib.Data.List.Nodup
import Mathlib.Data.List.Perm.Subperm

/-! The site tree holds each page that can be reached from the root, once, at a path of its own. -/
namespace Kitp.SiteRender

open Kitp.NetIP Kitp.TrustedProxies Kitp.RelativeRefs
open Kitp.WebPaths (elements join mem_join)

variable {toLower : Bytes → Bytes} {s : Site} {root c p : Page} {n m q : Node} {r r' r₀ : Tree}
  {seg base path : Bytes} {used : List Bytes} {left : Nat} {id : Int}

/-- Small letters, digits and dashes. -/
def isSegByte (b : UInt8) : Bool := isSlugByte b∨b=0x2d

structure Seg (e : Bytes) : Prop where
  nonempty : e≠[]
  bytes : ∀ b∈e, isSegByte b=true

theorem segByte_clean {b : UInt8} (h : isSegByte b=true) :
    b≠0x2F∧b≠0x23∧b≠0x3F∧b≠0x3A∧b≠0x2E∧b≠0x5f := by
  refine ⟨?_,?_,?_,?_,?_,?_⟩
  all_goals
    rintro rfl
    exact absurd h (by decide)

theorem Seg.clean (h : Seg seg) : Clean seg := by
  have hdot : (0x2E : UInt8)∉seg := fun hmem => (segByte_clean (h.bytes _ hmem)).2.2.2.2.1 rfl
  refine ⟨h.nonempty,?_,?_,?_⟩
  · rintro rfl
    exact hdot List.mem_cons_self
  · rintro rfl
    exact hdot List.mem_cons_self
  · intro b hb
    have hclean := segByte_clean (h.bytes b hb)
    exact ⟨hclean.1,hclean.2.1,hclean.2.2.1,hclean.2.2.2.1⟩

theorem stripRuns_bytes (keep : UInt8 → Bool) (run : Bool) (t : Bytes) :
    ∀ b∈stripRuns keep run t, keep b=true∨b=0x2d := by
  induction t generalizing run with
  | nil =>
    intro b hb
    cases hb
  | cons c t ih =>
    rw [stripRuns]
    split
    · rename_i hkeep
      intro b hb
      cases List.mem_cons.mp hb with
      | inl hb =>
        rw [hb]
        exact Or.inl hkeep
      | inr hb => exact ih false b hb
    · split
      · exact ih true
      · intro b hb
        cases List.mem_cons.mp hb with
        | inl hb => exact Or.inr hb
        | inr hb => exact ih true b hb

theorem trimSet_subset (cut : UInt8 → Bool) (t : Bytes) : ∀ b∈trimSet cut t, b∈t := by
  intro b hb
  have hback := List.mem_reverse.mp hb
  have hfront := (List.dropWhile_sublist _).subset hback
  exact (List.dropWhile_sublist _).subset (List.mem_reverse.mp hfront)

theorem slugify_bytes (t : Bytes) : ∀ b∈slugify toLower t, isSegByte b=true := by
  have hstrip : ∀ b∈trimSet (·=0x2d) (stripRuns isSlugByte false (toLower (trimSpace t))),
      isSegByte b=true := fun b hb =>
    decide_eq_true (stripRuns_bytes isSlugByte false _ b (trimSet_subset _ _ b hb))
  unfold slugify
  dsimp only
  split
  · intro b hb
    exact hstrip b (List.mem_of_mem_take (trimSet_subset _ _ b hb))
  · exact hstrip

theorem digit_seg {d : Nat} (h : d < 10) : isSegByte (digit d)=true := by
  have hall : ∀ d : Fin 10, isSegByte (digit d)=true := by decide
  exact hall ⟨d,h⟩

theorem decimal_seg (k : Nat) : ∀ b∈decimal k, isSegByte b=true := by
  intro b hb
  obtain ⟨d,hd,rfl⟩ := decimal_digits k b hb
  exact digit_seg hd

theorem formatInt_seg (k : Int) : ∀ b∈formatInt k, isSegByte b=true := by
  unfold formatInt
  split
  · intro b hb
    cases List.mem_cons.mp hb with
    | inl hb =>
      rw [hb]
      decide
    | inr hb => exact decimal_seg _ b hb
  · exact decimal_seg _

theorem segment_seg (c : Page) : Seg (segment toLower c) := by
  unfold segment
  split
  · rename_i hslug
    exact ⟨hslug,slugify_bytes c.slug⟩
  · split
    · rename_i htitle
      exact ⟨htitle,slugify_bytes c.title⟩
    · refine ⟨List.append_ne_nil_of_left_ne_nil (by decide) _,?_⟩
      intro b hb
      cases List.mem_append.mp hb with
      | inl hb =>
        have hall : ∀ b∈ascii "page-", isSegByte b=true := by decide
        exact hall b hb
      | inr hb => exact formatInt_seg c.id b hb

theorem numbered_seg (h : Seg base) (i : Nat) : Seg (base++0x2d::decimal i) := by
  refine ⟨List.append_ne_nil_of_left_ne_nil h.nonempty _,?_⟩
  intro b hb
  cases List.mem_append.mp hb with
  | inl hb => exact h.bytes b hb
  | inr hb =>
    cases List.mem_cons.mp hb with
    | inl hb =>
      rw [hb]
      decide
    | inr hb => exact decimal_seg i b hb

theorem freshSegment_seg (hbase : Seg base) {i : Nat} (hseg : Seg seg) :
    Seg (freshSegment used base left i seg) := by
  induction left generalizing i seg with
  | zero => exact hseg
  | succ left ih =>
    rw [freshSegment]
    split
    · exact ih (numbered_seg hbase i)
    · exact hseg

theorem decimal_inj {i j : Nat} (h : decimal i=decimal j) : i=j := by
  rw [← decimal_number i,h,decimal_number]

/-- The names a segment is tried under. -/
def candidate (base : Bytes) (i : Nat) : Bytes := if i=0 then base else base++0x2d::decimal (i+1)

theorem candidate_inj {i j : Nat} (h : candidate base i=candidate base j) : i=j := by
  unfold candidate at h
  have hlonger : ∀ k, base≠base++0x2d::decimal k := fun k heq =>
    List.cons_ne_nil _ _ (List.append_right_eq_self.mp heq.symm)
  split at h
  · rename_i hi
    split at h
    · rename_i hj
      rw [hi,hj]
    · exact absurd h (hlonger _)
  · split at h
    · exact absurd h.symm (hlonger _)
    · have hsame := decimal_inj (List.cons.inj (List.append_cancel_left h)).2
      omega

/-- The search ends: there are more names than are used. -/
theorem freshSegment_tried {k : Nat} (hleft : k+left=used.length+1)
    (htried : ∀ j < k, candidate base j∈used) :
    freshSegment used base left (k+2) (candidate base k)∉used := by
  induction left generalizing k with
  | zero =>
    have hnodup : ((List.range k).map (candidate base)).Nodup :=
      List.nodup_range.map_on fun i _ j _ h => candidate_inj h
    have hsub : (List.range k).map (candidate base)⊆used := by
      intro name hname
      obtain ⟨j,hj,rfl⟩ := List.mem_map.mp hname
      exact htried j (List.mem_range.mp hj)
    have hlen := (hnodup.subperm hsub).length_le
    rw [List.length_map,List.length_range] at hlen
    omega
  | succ left ih =>
    rw [freshSegment]
    split
    · rename_i hmem
      have hnext : base++0x2d::decimal (k+2)=candidate base (k+1) := rfl
      rw [hnext]
      refine ih (by omega) ?_
      intro j hj
      by_cases hlast : j=k
      · rw [hlast]
        exact hmem
      · exact htried j (by omega)
    · assumption

theorem freshSegment_fresh (used : List Bytes) (base : Bytes) :
    freshSegment used base (used.length+1) 2 base∉used := by
  have hfresh : freshSegment used base (used.length+1) (0+2) (candidate base 0)∉used :=
    freshSegment_tried (Nat.zero_add _) fun j hj => absurd hj (Nat.not_lt_zero j)
  exact hfresh

theorem mem_kids : c∈kids toLower s id ↔ c∈s.pages∧c.moved=false∧c.parentID=id := by
  unfold kids
  rw [(List.mergeSort_perm _ _).mem_iff,List.mem_filter]
  simp

theorem joinPath_seg {seg' : Bytes} (h : joinPath path seg=joinPath path seg') : seg=seg' := by
  unfold joinPath at h
  split at h
  · exact h
  · exact (List.cons.inj (List.append_cancel_left h)).2

/-- A tree under way: its nodes hang below one another, each page is on it once, and no two children of
a node share a path. -/
structure Grown (toLower : Bytes → Bytes) (s : Site) (root : Page) (r : Tree) : Prop where
  top : .top root∈r.all
  nodup : r.all.Nodup
  nodes : ∀ n∈r.all, n=.top root∨∃ c seg m, n=.child c (joinPath m.path seg) (m.depth+1) m∧
    m∈r.all∧m.depth < maxDepth∧c∈kids toLower s m.page.id∧Seg seg
  ids : ∀ n∈r.all, ∀ m∈r.all, n.page.id=m.page.id → n=m
  siblings : ∀ n∈r.all, ∀ m∈r.all, n.parent=m.parent → n.parent≠none → n.path=m.path → n=m
  byID : ∀ id n, r.byID.lookup id=some n ↔ n∈r.all∧n.page.id=id
  byPath : ∀ path n, (path,n)∈r.byPath ↔ n∈r.all∧n.path=path

theorem Grown.warn (h : Grown toLower s root r) (w : Warning) : Grown toLower s root (r.warn w) :=
  ⟨h.top,h.nodup,h.nodes,h.ids,h.siblings,h.byID,h.byPath⟩

theorem Grown.start (toLower : Bytes → Bytes) (s : Site) (root : Page) :
    Grown toLower s root (startTree root) := by
  have hone : ∀ n, n∈(startTree root).all ↔ n=.top root := fun n => List.mem_singleton
  refine ⟨(hone _).mpr rfl,List.nodup_singleton _,fun n hn => Or.inl ((hone n).mp hn),?_,?_,?_,?_⟩
  · intro n hn m hm _
    rw [(hone n).mp hn,(hone m).mp hm]
  · intro n hn m hm _ _ _
    rw [(hone n).mp hn,(hone m).mp hm]
  · intro id n
    rw [hone]
    show [(root.id,Node.top root)].lookup id=some n ↔ _
    rw [List.lookup_cons]
    by_cases hid : id=root.id
    · rw [hid]
      constructor
      · intro h
        simp only [beq_self_eq_true] at h
        rw [← Option.some.inj h]
        exact ⟨rfl,rfl⟩
      · rintro ⟨rfl,-⟩
        simp only [beq_self_eq_true]
    · have hne : (id==root.id)=false := beq_eq_false_iff_ne.mpr hid
      rw [hne]
      constructor
      · intro h
        cases h
      · rintro ⟨rfl,hsame⟩
        exact absurd hsame.symm hid
  · intro path n
    rw [hone]
    show (path,n)∈[([],Node.top root)] ↔ _
    rw [List.mem_singleton]
    constructor
    · intro h
      obtain ⟨rfl,rfl⟩ := Prod.mk.inj h
      exact ⟨rfl,rfl⟩
    · rintro ⟨rfl,rfl⟩
      rfl

/-- A child placed. -/
theorem Grown.add (h : Grown toLower s root r) (hm : m∈r.all) (hdepth : m.depth < maxDepth)
    (hc : c∈kids toLower s m.page.id) (hnew : r.byID.lookup c.id=none) (hseg : Seg seg)
    (hfree : ∀ n∈r.all, n.parent=some m → n.path≠joinPath m.path seg) :
    Grown toLower s root (r.add (.child c (joinPath m.path seg) (m.depth+1) m)) := by
  generalize hchild : Node.child c (joinPath m.path seg) (m.depth+1) m=child
  have hpage : child.page=c := by rw [← hchild]; rfl
  have hpath : child.path=joinPath m.path seg := by rw [← hchild]; rfl
  have hparent : child.parent=some m := by rw [← hchild]; rfl
  have hall : ∀ n, n∈(r.add child).all ↔ n∈r.all∨n=child := by
    intro n
    show n∈r.all++[child] ↔ _
    rw [List.mem_append,List.mem_singleton]
  have hother : ∀ n∈r.all, n.page.id≠c.id := by
    intro n hn heq
    rw [(h.byID c.id n).mpr ⟨hn,heq⟩] at hnew
    cases hnew
  refine ⟨(hall _).mpr (Or.inl h.top),?_,?_,?_,?_,?_,?_⟩
  · show (r.all++[child]).Nodup
    refine List.nodup_append.mpr ⟨h.nodup,List.nodup_singleton _,?_⟩
    intro n hn m hm heq
    rw [heq,List.mem_singleton.mp hm] at hn
    exact hother child hn (by rw [hpage])
  · intro n hn
    cases (hall n).mp hn with
    | inl hn =>
      rcases h.nodes n hn with rfl | ⟨c',seg',m',rfl,hm',hd,hc',hs⟩
      · exact Or.inl rfl
      · exact Or.inr ⟨c',seg',m',rfl,(hall m').mpr (Or.inl hm'),hd,hc',hs⟩
    | inr hn =>
      exact Or.inr ⟨c,seg,m,by rw [hn,← hchild],(hall m).mpr (Or.inl hm),hdepth,hc,hseg⟩
  · intro n hn q hq heq
    rcases (hall n).mp hn with hold | rfl
    · rcases (hall q).mp hq with hold' | rfl
      · exact h.ids n hold q hold' heq
      · rw [hpage] at heq
        exact absurd heq (hother n hold)
    · rcases (hall q).mp hq with hold | rfl
      · rw [hpage] at heq
        exact absurd heq.symm (hother q hold)
      · rfl
  · intro n hn q hq hsame hsome heq
    rcases (hall n).mp hn with hold | rfl
    · rcases (hall q).mp hq with hold' | rfl
      · exact h.siblings n hold q hold' hsame hsome heq
      · rw [hpath] at heq
        exact absurd heq (hfree n hold (hsame.trans hparent))
    · rcases (hall q).mp hq with hold | rfl
      · rw [hpath] at heq
        exact absurd heq.symm (hfree q hold (hsame.symm.trans hparent))
      · rfl
  · intro id n
    rw [hall]
    show ((child.page.id,child)::r.byID).lookup id=some n ↔ _
    rw [List.lookup_cons,hpage]
    by_cases hid : id=c.id
    · rw [hid]
      simp only [beq_self_eq_true]
      constructor
      · intro hsome
        rw [← Option.some.inj hsome,hpage]
        exact ⟨Or.inr rfl,rfl⟩
      · rintro ⟨hn | rfl,heq⟩
        · exact absurd heq (hother n hn)
        · rfl
    · have hne : (id==c.id)=false := beq_eq_false_iff_ne.mpr hid
      rw [hne]
      dsimp only
      rw [h.byID]
      constructor
      · rintro ⟨hn,heq⟩
        exact ⟨Or.inl hn,heq⟩
      · rintro ⟨hn | rfl,heq⟩
        · exact ⟨hn,heq⟩
        · rw [hpage] at heq
          exact absurd heq.symm hid
  · intro path n
    rw [hall]
    show (path,n)∈(child.path,child)::r.byPath ↔ _
    rw [List.mem_cons,h.byPath]
    constructor
    · rintro (heq | ⟨hn,heq⟩)
      · obtain ⟨rfl,rfl⟩ := Prod.mk.inj heq
        exact ⟨Or.inr rfl,rfl⟩
      · exact ⟨Or.inl hn,heq⟩
    · rintro ⟨hn | rfl,rfl⟩
      · exact Or.inr ⟨hn,rfl⟩
      · exact Or.inl rfl

/-- What a walk below `n` made of the tree `r₀`, the segments under `n` used so far. -/
structure Growing (toLower : Bytes → Bytes) (s : Site) (root : Page) (n : Node) (r₀ r : Tree)
    (used : List Bytes) : Prop where
  grown : Grown toLower s root r
  keeps : ∀ m∈r₀.all, m∈r.all
  below : ∀ m∈r.all, m∉r₀.all → ∃ q, m.parent=some q∧n.depth≤q.depth
  used : ∀ m∈r.all, m.parent=some n → ∃ seg∈used, m.path=joinPath n.path seg
  closed : ∀ m∈r.all, m∉r₀.all → m.depth < maxDepth → ∀ c∈kids toLower s m.page.id,
    ∃ q∈r.all, q.page.id=c.id

theorem Grown.start_growing (h : Grown toLower s root r) (hnone : ∀ m∈r.all, m.parent≠some n) :
    Growing toLower s root n r r [] :=
  ⟨h,fun _ hm => hm,fun _ hm hnot => absurd hm hnot,fun m hm hparent => absurd hparent (hnone m hm),
    fun _ hm hnot => absurd hm hnot⟩

/-- The walk below a child, joined to that of its parent. -/
theorem Growing.join {used' : List Bytes} {child : Node}
    (h : Growing toLower s root n r₀ r used) (hchild : child=.child c (joinPath n.path seg) (n.depth+1) n)
    (hdepth : child.depth+left=maxDepth)
    {r₁ : Tree} (hall : ∀ m, m∈r₁.all ↔ m∈r.all∨m=child)
    (hwalk : Growing toLower s root child r₁ r' used')
    (hbelow : 0 < left → ∀ c∈kids toLower s child.page.id, ∃ p∈r'.all, p.page.id=c.id) :
    Growing toLower s root n r₀ r' (seg::used) := by
  have hparent : child.parent=some n := by rw [hchild]; rfl
  have hlevel : child.depth=n.depth+1 := by rw [hchild]; rfl
  have hpath : child.path=joinPath n.path seg := by rw [hchild]; rfl
  have hold : ∀ m∈r.all, m∈r'.all := fun m hm => hwalk.keeps m ((hall m).mpr (Or.inl hm))
  refine ⟨hwalk.grown,fun m hm => hold m (h.keeps m hm),?_,?_,?_⟩
  · intro m hm hnew
    by_cases hin : m∈r₁.all
    · rcases (hall m).mp hin with hmr | rfl
      · exact h.below m hmr hnew
      · exact ⟨n,hparent,Nat.le_refl _⟩
    · obtain ⟨p,hp,hle⟩ := hwalk.below m hm hin
      exact ⟨p,hp,by omega⟩
  · intro m hm hmn
    by_cases hin : m∈r₁.all
    · rcases (hall m).mp hin with hmr | rfl
      · obtain ⟨t,ht,heq⟩ := h.used m hmr hmn
        exact ⟨t,List.mem_cons_of_mem _ ht,heq⟩
      · exact ⟨seg,List.mem_cons_self,hpath⟩
    · obtain ⟨p,hp,hle⟩ := hwalk.below m hm hin
      rw [hmn] at hp
      rw [← Option.some.inj hp] at hle
      omega
  · intro m hm hnew hless d hd
    by_cases hin : m∈r₁.all
    · rcases (hall m).mp hin with hmr | rfl
      · obtain ⟨p,hp,heq⟩ := h.closed m hmr hnew hless d hd
        exact ⟨p,hold p hp,heq⟩
      · exact hbelow (by omega) d hd
    · exact hwalk.closed m hm hin hless d hd

/-- What a walk below a node does to a tree. -/
def Walks (toLower : Bytes → Bytes) (s : Site) (root : Page) (left : Nat)
    (walk : Node → Tree → Tree) : Prop :=
  ∀ n r, Grown toLower s root r → n∈r.all → n.depth+left=maxDepth → (∀ m∈r.all, m.parent≠some n) →
    (∃ used, Growing toLower s root n r (walk n r) used)∧
      (0 < left → ∀ c∈kids toLower s n.page.id, ∃ q∈(walk n r).all, q.page.id=c.id)

theorem placeChild_grows {walk : Node → Tree → Tree} (hwalk : Walks toLower s root left walk)
    (hn : n∈r₀.all) (hdepth : n.depth+(left+1)=maxDepth) (hc : c∈kids toLower s n.page.id)
    (h : Growing toLower s root n r₀ r used) :
    (∃ used', Growing toLower s root n r₀ (placeChild toLower walk n (r,used) c).1 used'∧
      (placeChild toLower walk n (r,used) c).2=used')∧
      (∀ m∈r.all, m∈(placeChild toLower walk n (r,used) c).1.all)∧
      ∃ q∈(placeChild toLower walk n (r,used) c).1.all, q.page.id=c.id := by
  unfold placeChild
  dsimp only
  split
  · rename_i hsome
    obtain ⟨q,hq⟩ := Option.isSome_iff_exists.mp hsome
    exact ⟨⟨used,h,rfl⟩,fun _ hm => hm,q,((h.grown.byID c.id q).mp hq)⟩
  · rename_i hnone
    generalize hbase : segment toLower c=base
    generalize hseg : freshSegment used base (used.length+1) 2 base=seg
    generalize hwarned : (if seg≠base then r.warn (.shared c.title base seg) else r)=r₁
    have hbaseSeg : Seg base := hbase ▸ segment_seg c
    have hsegSeg : Seg seg := hseg ▸ freshSegment_seg hbaseSeg hbaseSeg
    have hfresh : seg∉used := hseg ▸ freshSegment_fresh used base
    have hsame : r₁.all=r.all∧r₁.byID=r.byID := by
      rw [← hwarned]
      split
      · exact ⟨rfl,rfl⟩
      · exact ⟨rfl,rfl⟩
    have hgrown : Grown toLower s root r₁ := by
      rw [← hwarned]
      split
      · exact h.grown.warn _
      · exact h.grown
    have hnr : n∈r₁.all := by
      rw [hsame.1]
      exact h.keeps n hn
    have hnew : r₁.byID.lookup c.id=none := by
      rw [hsame.2]
      exact Option.not_isSome_iff_eq_none.mp hnone
    have hfree : ∀ m∈r₁.all, m.parent=some n → m.path≠joinPath n.path seg := by
      intro m hm hparent heq
      rw [hsame.1] at hm
      obtain ⟨t,ht,hpath⟩ := h.used m hm hparent
      rw [hpath] at heq
      rw [joinPath_seg heq] at ht
      exact hfresh ht
    have hadd := hgrown.add hnr (by omega) hc hnew hsegSeg hfree
    generalize hchild : Node.child c (joinPath n.path seg) (n.depth+1) n=child at hadd ⊢
    have hall : ∀ m, m∈(r₁.add child).all ↔ m∈r.all∨m=child := by
      intro m
      show m∈r₁.all++[child] ↔ _
      rw [List.mem_append,List.mem_singleton,hsame.1]
    have hlevel : child.depth+left=maxDepth := by
      rw [← hchild]
      show n.depth+1+left=maxDepth
      omega
    have hpage : child.page=c := by rw [← hchild]; rfl
    have hchildless : ∀ m∈(r₁.add child).all, m.parent≠some child := by
      intro m hm hparent
      have hout : child∉r₁.all := by
        intro hin
        rw [(hgrown.byID c.id child).mpr ⟨hin,by rw [hpage]⟩] at hnew
        cases hnew
      rw [hsame.1] at hout
      rcases (hall m).mp hm with hmr | rfl
      · rcases h.grown.nodes m hmr with rfl | ⟨c',seg',m',rfl,hm',-⟩
        · cases hparent
        · have hsame' : m'=child := Option.some.inj hparent
          exact hout (hsame' ▸ hm')
      · have hsome : m.parent=some n := by rw [← hchild]; rfl
        rw [hparent] at hsome
        rw [← hsame.1,Option.some.inj hsome] at hout
        exact hout hnr
    obtain ⟨⟨used',hgrows⟩,hbelow⟩ := hwalk child (r₁.add child) hadd
      ((hall child).mpr (Or.inr rfl)) hlevel hchildless
    have hjoin := h.join hchild.symm hlevel hall hgrows hbelow
    refine ⟨⟨_,hjoin,rfl⟩,fun m hm => hgrows.keeps m ((hall m).mpr (Or.inl hm)),child,
      hgrows.keeps child ((hall child).mpr (Or.inr rfl)),?_⟩
    rw [hpage]

theorem fold_grows {walk : Node → Tree → Tree} (hwalk : Walks toLower s root left walk)
    (hn : n∈r₀.all) (hdepth : n.depth+(left+1)=maxDepth) (cs : List Page)
    (hcs : ∀ c∈cs, c∈kids toLower s n.page.id) (h : Growing toLower s root n r₀ r used) :
    (∃ used', Growing toLower s root n r₀ (cs.foldl (placeChild toLower walk n) (r,used)).1 used')∧
      (∀ m∈r.all, m∈(cs.foldl (placeChild toLower walk n) (r,used)).1.all)∧
      ∀ c∈cs, ∃ q∈(cs.foldl (placeChild toLower walk n) (r,used)).1.all, q.page.id=c.id := by
  induction cs generalizing r used with
  | nil => exact ⟨⟨used,h⟩,fun _ hm => hm,fun _ hc => absurd hc List.not_mem_nil⟩
  | cons c cs ih =>
    obtain ⟨⟨used',hgrows,hused⟩,hkeep,q,hq,hid⟩ :=
      placeChild_grows hwalk hn hdepth (hcs c List.mem_cons_self) h
    rw [List.foldl_cons]
    generalize placeChild toLower walk n (r,used) c=next at hgrows hused hkeep hq ⊢
    obtain ⟨r₁,used₁⟩ := next
    obtain rfl : used₁=used' := hused
    obtain ⟨hfold,hkeep',hall⟩ := ih (fun c hc => hcs c (List.mem_cons_of_mem _ hc)) hgrows
    refine ⟨hfold,fun m hm => hkeep' m (hkeep m hm),?_⟩
    intro d hd
    cases List.mem_cons.mp hd with
    | inl hd =>
      rw [hd]
      exact ⟨q,hkeep' q hq,hid⟩
    | inr hd => exact hall d hd

/-- A walk keeps a tree one, and leaves out no page below the nodes it adds. -/
theorem place_walks (toLower : Bytes → Bytes) (s : Site) (root : Page) (left : Nat) :
    Walks toLower s root left (place toLower s left) := by
  induction left with
  | zero =>
    intro n r h hn hdepth hnone
    refine ⟨⟨[],?_⟩,fun hpos => absurd hpos (Nat.lt_irrefl 0)⟩
    rw [place]
    split
    · have hwarn := (h.warn (.tooDeep n.page.title)).start_growing hnone
      exact ⟨hwarn.grown,hwarn.keeps,hwarn.below,hwarn.used,hwarn.closed⟩
    · exact h.start_growing hnone
  | succ left ih =>
    intro n r h hn hdepth hnone
    rw [place]
    obtain ⟨hgrowing,-,hkids⟩ := fold_grows ih hn hdepth _ (fun c hc => hc) (h.start_growing hnone)
    exact ⟨hgrowing,fun _ => hkids⟩

/-- Every page below a node that isn't too deep is on the tree. -/
def Full (toLower : Bytes → Bytes) (s : Site) (r : Tree) : Prop :=
  ∀ m∈r.all, m.depth < maxDepth → ∀ c∈kids toLower s m.page.id, ∃ q∈r.all, q.page.id=c.id

theorem placeSite_grown (toLower : Bytes → Bytes) (s : Site) (root : Page) :
    Grown toLower s root (placeSite toLower s root)∧Full toLower s (placeSite toLower s root) := by
  have hstart := Grown.start toLower s root
  have hchildless : ∀ m∈(startTree root).all, m.parent≠some (.top root) := by
    intro m hm hparent
    rw [List.mem_singleton.mp hm] at hparent
    cases hparent
  obtain ⟨⟨used,hgrows⟩,hkids⟩ := place_walks toLower s root maxDepth (.top root) (startTree root)
    hstart hstart.top (Nat.zero_add _) hchildless
  have hfull : Full toLower s (place toLower s maxDepth (.top root) (startTree root)) := by
    intro m hm hless
    by_cases hold : m∈(startTree root).all
    · rw [List.mem_singleton.mp hold]
      exact hkids (by decide)
    · exact hgrows.closed m hm hold hless
  unfold placeSite
  dsimp only
  split
  · exact ⟨hgrows.grown.warn _,hfull⟩
  · exact ⟨hgrows.grown,hfull⟩

theorem Grown.depth_le (h : Grown toLower s root r) (hn : n∈r.all) : n.depth ≤ maxDepth := by
  rcases h.nodes n hn with rfl | ⟨c,seg,m,rfl,-,hless,-⟩
  · exact Nat.zero_le _
  · exact hless

theorem join_empty {segs : List Bytes} (hsegs : ∀ e∈segs, Seg e) (h : join segs=[]) : segs=[] := by
  cases segs with
  | nil => rfl
  | cons e segs =>
    have he := (hsegs e List.mem_cons_self).nonempty
    cases segs with
    | nil => exact absurd h he
    | cons d ds => exact absurd h (List.append_ne_nil_of_left_ne_nil he _)

theorem joinPath_join {segs : List Bytes} (hsegs : ∀ e∈segs, Seg e) (seg : Bytes) :
    joinPath (join segs) seg=join (segs++[seg]) := by
  unfold joinPath
  split
  · rename_i hempty
    rw [join_empty hsegs hempty]
    rfl
  · rename_i hsome
    rw [join_snoc]
    rintro rfl
    exact hsome rfl

theorem segs_snoc {segs : List Bytes} (hsegs : ∀ e∈segs, Seg e) (hseg : Seg seg) :
    ∀ e∈segs++[seg], Seg e := by
  intro e he
  cases List.mem_append.mp he with
  | inl he => exact hsegs e he
  | inr he => rwa [List.mem_singleton.mp he]

/-- A node's path is made of as many segments as it is deep. -/
theorem Grown.segs (h : Grown toLower s root r) (hn : n∈r.all) :
    ∃ segs : List Bytes, segs.length=n.depth∧(∀ e∈segs, Seg e)∧n.path=join segs := by
  induction n with
  | top page => exact ⟨[],rfl,fun e he => absurd he List.not_mem_nil,rfl⟩
  | child page path depth parent ih =>
    rcases h.nodes _ hn with heq | ⟨c,seg,m,heq,hm,-,-,hseg⟩
    · cases heq
    · obtain ⟨rfl,rfl,rfl,rfl⟩ := Node.child.inj heq
      obtain ⟨segs,hlen,hsegs,hpath⟩ := ih hm
      refine ⟨segs++[seg],?_,segs_snoc hsegs hseg,?_⟩
      · rw [List.length_append,hlen]
        rfl
      · show joinPath parent.path seg=_
        rw [hpath,joinPath_join hsegs]

theorem segs_inj {segs segs' : List Bytes} (hsegs : ∀ e∈segs, Seg e) (hsegs' : ∀ e∈segs', Seg e)
    (h : join segs=join segs') : segs=segs' := by
  by_cases hempty : segs=[]
  · subst hempty
    exact (join_empty hsegs' h.symm).symm
  · by_cases hempty' : segs'=[]
    · subst hempty'
      exact join_empty hsegs h
    · exact join_inj hempty hempty' (fun e he b hb => ((hsegs e he).clean.bytes b hb).1)
        (fun e he b hb => ((hsegs' e he).clean.bytes b hb).1) h

/-- Nodes have paths of their own. -/
theorem Grown.paths (h : Grown toLower s root r) (hn : n∈r.all) (hm : m∈r.all)
    (heq : n.path=m.path) : n=m := by
  induction n generalizing m with
  | top page =>
    rcases h.nodes _ hn with htop | ⟨c,seg,q,hchild,-⟩
    · rcases h.nodes m hm with rfl | ⟨c,seg,q,rfl,hq,-,-,hseg⟩
      · exact htop
      · obtain ⟨segs,-,hsegs,hpath⟩ := h.segs hq
        have hnil : joinPath q.path seg=[] := heq.symm
        rw [hpath,joinPath_join hsegs] at hnil
        have hall := segs_snoc hsegs hseg
        exact absurd (join_empty hall hnil)
          (List.append_ne_nil_of_right_ne_nil _ (List.cons_ne_nil _ _))
    · cases hchild
  | child page path depth parent ih =>
    rcases h.nodes _ hn with htop | ⟨c,seg,p,hchild,hp,-,-,hseg⟩
    · cases htop
    · obtain ⟨rfl,rfl,rfl,rfl⟩ := Node.child.inj hchild
      obtain ⟨segs,-,hsegs,hpath⟩ := h.segs hp
      have hall := segs_snoc hsegs hseg
      have hjoin : joinPath parent.path seg=join (segs++[seg]) := by
        rw [hpath,joinPath_join hsegs]
      rcases h.nodes m hm with rfl | ⟨c',seg',p',rfl,hp',-,-,hseg'⟩
      · have hnil : joinPath parent.path seg=[] := heq
        rw [hjoin] at hnil
        exact absurd (join_empty hall hnil)
          (List.append_ne_nil_of_right_ne_nil _ (List.cons_ne_nil _ _))
      · obtain ⟨segs',-,hsegs',hpath'⟩ := h.segs hp'
        have hall' := segs_snoc hsegs' hseg'
        have hboth : joinPath parent.path seg=joinPath p'.path seg' := heq
        rw [hjoin,hpath',joinPath_join hsegs'] at hboth
        have hlists := segs_inj hall hall' hboth
        have hsame : segs=segs' := (List.append_inj' hlists rfl).1
        have hparents : parent=p' := ih hp hp' (by rw [hpath,hpath',hsame])
        subst hparents
        exact h.siblings _ hn _ hm rfl (fun hnone => by cases hnone) heq

/-- What can be reached from the root, going down `d` times. -/
inductive Reach (s : Site) (root : Page) : Nat → Page → Prop where
  | root : Reach s root 0 root
  | child {d : Nat} {p c : Page} (h : Reach s root d p) (hc : c∈s.pages) (hmoved : c.moved=false)
      (hparent : c.parentID=p.id) : Reach s root (d+1) c

theorem Grown.reach (h : Grown toLower s root r) (hn : n∈r.all) : Reach s root n.depth n.page := by
  induction n with
  | top page =>
    rcases h.nodes _ hn with heq | ⟨c,seg,m,heq,-⟩
    · rw [heq]
      exact .root
    · cases heq
  | child page path depth parent ih =>
    rcases h.nodes _ hn with heq | ⟨c,seg,m,heq,hm,-,hc,-⟩
    · cases heq
    · obtain ⟨rfl,rfl,rfl,rfl⟩ := Node.child.inj heq
      obtain ⟨hpage,hmoved,hparent⟩ := mem_kids.mp hc
      exact .child (ih hm) hpage hmoved hparent

theorem pages_inj (hc : c∈s.pages) (hp : p∈s.pages) (h : c.id=p.id) : c=p :=
  List.inj_on_of_nodup_map s.distinct hc hp h

theorem Grown.page_mem (h : Grown toLower s root r) (hroot : root∈s.pages) (hn : n∈r.all) :
    n.page∈s.pages := by
  rcases h.nodes n hn with rfl | ⟨c,seg,m,rfl,-,-,hc,-⟩
  · exact hroot
  · exact (mem_kids.mp hc).1

theorem Grown.reached (h : Grown toLower s root r) (hfull : Full toLower s r) (hroot : root∈s.pages)
    {d : Nat} (hd : d ≤ maxDepth) (hp : Reach s root d p) : ∃ n∈r.all, n.page=p∧n.depth≤d := by
  induction hp with
  | root => exact ⟨.top root,h.top,rfl,Nat.le_refl _⟩
  | child hreach hc hmoved hparent ih =>
    rename_i d p c
    obtain ⟨m,hm,rfl,hle⟩ := ih (by omega)
    have hkid : c∈kids toLower s m.page.id := mem_kids.mpr ⟨hc,hmoved,hparent⟩
    obtain ⟨q,hq,hid⟩ := hfull m hm (by omega) c hkid
    have hpage : q.page=c := pages_inj (h.page_mem hroot hq) hc hid
    refine ⟨q,hq,hpage,?_⟩
    rcases h.nodes q hq with rfl | ⟨c',seg,m',rfl,hm',-,hc',-⟩
    · exact Nat.zero_le _
    · have hsame : m'=m := by
        refine h.ids m' hm' m hm ?_
        have hup : c'.parentID=m'.page.id := (mem_kids.mp hc').2.2
        have hcc : c'=c := hpage
        rw [← hup,hcc,hparent]
      show m'.depth+1≤d+1
      rw [hsame]
      omega

/-- A page is placed just when the root reaches it, in one place. -/
theorem placed_iff (hroot : root∈s.pages) :
    (∃ n∈(placeSite toLower s root).all, n.page=p) ↔ ∃ d ≤ maxDepth, Reach s root d p := by
  obtain ⟨hgrown,hfull⟩ := placeSite_grown toLower s root
  constructor
  · rintro ⟨n,hn,rfl⟩
    exact ⟨n.depth,hgrown.depth_le hn,hgrown.reach hn⟩
  · rintro ⟨d,hd,hp⟩
    obtain ⟨n,hn,hpage,-⟩ := hgrown.reached hfull hroot hd hp
    exact ⟨n,hn,hpage⟩

end Kitp.SiteRender
