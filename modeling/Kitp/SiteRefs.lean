import Kitp.SiteBuilds

/-! The pages a build's `ref:` links name. -/
namespace Kitp.SiteRender

open Kitp.NetIP Kitp.RelativeRefs
open Kitp.WebPaths (elements join join_head)

variable {toLower : Bytes → Bytes} {g : Renderer} {s : Site} {root : Page} {n m : Node} {r : Tree}
  {b : Build} {base target path : Bytes} {paths : List Bytes} {res : Result} {id : Int}

theorem dropWhile_keep {cut : UInt8 → Bool} {t : Bytes} (h : ∀ b, t.head?=some b → cut b=false) :
    t.dropWhile cut=t := by
  cases t with
  | nil => rfl
  | cons b t => rw [List.dropWhile_cons_of_neg (by rw [h b rfl]; decide)]

theorem trimSet_keep {cut : UInt8 → Bool} {t : Bytes} (h : ∀ b, t.head?=some b → cut b=false)
    (hlast : ∀ b, t.getLast?=some b → cut b=false) : trimSet cut t=t := by
  unfold trimSet
  rw [dropWhile_keep h,dropWhile_keep,List.reverse_reverse]
  intro b hb
  rw [List.head?_reverse] at hb
  exact hlast b hb

theorem join_last {segs : List Bytes} (hsegs : ∀ e∈segs, Seg e) :
    ∀ b, (join segs).getLast?=some b → b≠0x2F := by
  induction segs with
  | nil =>
    intro b hb
    cases hb
  | cons e segs ih =>
    have he := hsegs e List.mem_cons_self
    cases segs with
    | nil =>
      intro b hb
      exact (he.clean.bytes b (List.mem_of_getLast? hb)).1
    | cons d ds =>
      intro b hb
      have hrest := fun e he => hsegs e (List.mem_cons_of_mem _ he)
      have hmore : join (d::ds)≠[] := fun hnil => absurd (join_empty hrest hnil) (List.cons_ne_nil _ _)
      have hlast : (join (e::d::ds)).getLast?=(join (d::ds)).getLast? := by
        show (e++0x2F::join (d::ds)).getLast?=_
        rw [List.getLast?_append_of_ne_nil _ (List.cons_ne_nil _ _),
          List.getLast?_cons_of_ne_nil hmore]
      rw [hlast] at hb
      exact ih hrest b hb

theorem Segs.trim {segs : List Bytes} (h : Segs n segs) : trimSet (·=0x2f) n.path=n.path := by
  rw [h.path]
  refine trimSet_keep ?_ ?_
  · intro b hb
    have hhead := join_head fun e he => ⟨(h.each e he).nonempty,segs_slash h.each e he⟩
    refine decide_eq_false ?_
    rintro rfl
    exact hhead hb
  · intro b hb
    exact decide_eq_false (join_last h.each b hb)

/-- A path that isn't a number names its page. -/
theorem Grown.refNode_path (h : Grown toLower s root r) (hm : m∈r.all) (hword : parseInt m.path=none) :
    refNode r m.path=some m := by
  obtain ⟨segs,hsegs⟩ := h.segs_of hm
  unfold refNode
  rw [hword]
  dsimp only
  rw [hsegs.trim]
  have hsome := lookup_some ((h.byPath m.path m).mpr ⟨hm,rfl⟩)
  obtain ⟨n,hn⟩ := Option.isSome_iff_exists.mp hsome
  obtain ⟨hmem,hpath⟩ := (h.byPath m.path n).mp (lookup_mem hn)
  rw [hn,h.paths hmem hm hpath]

theorem Grown.refNode_id (h : Grown toLower s root r) (hid : parseInt path=some id) :
    refNode r path=some m ↔ m∈r.all∧m.page.id=id := by
  unfold refNode
  rw [hid]
  exact h.byID id m

theorem refNode_mem (h : Grown toLower s root r) (hm : refNode r path=some m) : m∈r.all := by
  unfold refNode at hm
  split at hm
  · exact ((h.byID _ m).mp hm).1
  · exact ((h.byPath _ m).mp (lookup_mem hm)).1

theorem target_fragment {segs : List Bytes} (h : Segs n segs) :
    linkTarget (filePath n.path) [0x23]=some (filePath n.path) := by
  have hall : ∀ e∈segs++[index], ∀ b∈e, b≠0x2F := by
    intro e he
    cases List.mem_append.mp he with
    | inl he => exact segs_slash h.each e he
    | inr he =>
      rw [List.mem_singleton.mp he]
      exact index_plain
  have helements : elements (join (segs++[index]))=segs++[index] :=
    elements_join (List.append_ne_nil_of_right_ne_nil _ (List.cons_ne_nil _ _)) hall
  have hother : join (segs++[index])≠ascii "404.html" := by
    intro heq
    have hlast : (segs++[index]).getLast?=(elements (ascii "404.html")).getLast? := by
      rw [← heq,helements]
    rw [List.getLast?_concat] at hlast
    exact absurd hlast (by decide)
  rw [h.filePath]
  unfold linkTarget
  rw [if_neg hother,helements,List.dropLast_concat]
  rfl

/-- A `ref:` link leads to the page it names, and without one nowhere else. -/
theorem ref_target (hb : Hosts b paths) (hn : n∈b.tree.all) (hm : m∈b.tree.all)
    (hname : refNode b.tree (cutFragment target).1=some m) :
    linkTarget (filePath n.path) (refHref b.tree n.base target)=some (filePath m.path) := by
  have hrefs : refs b.tree target=
      some (m.rootRel++if (cutFragment target).2≠[] then 0x23::(cutFragment target).2 else []) := by
    unfold refs
    dsimp only
    rw [hname]
    rfl
  unfold refHref
  rw [hrefs]
  refine (carrier_page hb hn).fragment hb hm ?_
  split
  · exact Or.inr rfl
  · exact Or.inl rfl

theorem ref_lead (h : Grown toLower s root b.tree) (hb : Hosts b paths) (hn : n∈b.tree.all)
    (target : Bytes) : Leads paths (filePath n.path) (refHref b.tree n.base target) := by
  cases hname : refNode b.tree (cutFragment target).1 with
  | none =>
    obtain ⟨segs,hsegs⟩ := hb.segs n hn
    have hnone : refHref b.tree n.base target=[0x23] := by
      unfold refHref refs
      dsimp only
      rw [hname]
      rfl
    rw [hnone]
    exact ⟨_,hb.pages n hn,target_fragment hsegs⟩
  | some m =>
    have hm := refNode_mem h hname
    exact ⟨_,hb.pages m hm,ref_target hb hn hm hname⟩

/-- What a build is to be: files apart, the pages the root reaches placed and no others, and links that
lead to the files they are for. -/
structure Linked (g : Renderer) (s : Site) (res : Result) : Prop where
  distinct : (buildPaths res).Nodup
  placed : ∀ root, rootOf s=some root → ∀ p,
    (∃! n, n∈(treeOf g s).all∧n.page=p) ↔ ∃ d ≤ maxDepth, Reach s root d p
  only : ∀ root, rootOf s=some root → ∀ n∈(treeOf g s).all, ∃ d ≤ maxDepth, Reach s root d n.page
  apart : ∀ n∈(treeOf g s).all, ∀ m∈(treeOf g s).all, n.path=m.path → n=m
  files : ∀ n∈(treeOf g s).all, ∃ f∈res.files, f.path=filePath n.path∧f.cardID=n.page.id
  pages : ∀ n∈(treeOf g s).all, ∀ k, 1≤k → k≤((buildOf g s).pageCount n).1 → ∀ h,
    ((buildOf g s).pageOf n ((buildOf g s).pageCount n).1 k).2.Carries h →
    Leads (buildPaths res) ((buildOf g s).pageOf n ((buildOf g s).pageCount n).1 k).1 h
  notFound : ∀ h, (buildOf g s).notFoundView.Carries h → Leads (buildPaths res) (ascii "404.html") h
  empty : rootOf s=none → ∀ h, (buildOf g s).emptyView.Carries h → Leads (buildPaths res) index h
  lists : ∀ n∈(treeOf g s).all, ∀ line∈(buildOf g s).children n++(buildOf g s).nav n,
    Leads (buildPaths res) (filePath n.path) line.2.href
  refs : ∀ n∈(treeOf g s).all, ∀ target,
    Leads (buildPaths res) (filePath n.path) (refHref (treeOf g s) n.base target)
  named : ∀ n∈(treeOf g s).all, ∀ m∈(treeOf g s).all, ∀ target,
    refNode (treeOf g s) (cutFragment target).1=some m →
    linkTarget (filePath n.path) (refHref (treeOf g s) n.base target)=some (filePath m.path)
  byID : ∀ m∈(treeOf g s).all, ∀ path, parseInt path=some m.page.id →
    refNode (treeOf g s) path=some m
  byPath : ∀ m∈(treeOf g s).all, refNode (treeOf g s) m.path=some m

/-- A build is linked just when no page's path is another number than its own. -/
theorem build_links_iff (g : Renderer) (s : Site) (res : Result) (h : Render g s=.ok res) :
    Linked g s res ↔ ∀ m∈(treeOf g s).all, ∀ id, parseInt m.path=some id → m.page.id=id := by
  have hhosts := render_hosts h
  obtain ⟨-,-,hfiles⟩ := render_paths h
  constructor
  · intro hlinked m hm id hid
    have hname := hlinked.byPath m hm
    cases hroot : rootOf s with
    | none =>
      rw [treeOf_empty g hroot] at hm
      cases hm
    | some root => exact ((((treeOf_grown g hroot).1.refNode_id hid).mp hname)).2
  · intro hnumbers
    have hgrown : ∀ n∈(treeOf g s).all, ∃ root, rootOf s=some root∧
        Grown g.toLower s root (treeOf g s) := by
      intro n hn
      cases hroot : rootOf s with
      | none =>
        rw [treeOf_empty g hroot] at hn
        cases hn
      | some root => exact ⟨root,rfl,(treeOf_grown g hroot).1⟩
    refine ⟨render_nodup h,?_,?_,?_,hfiles,?_,?_,?_,?_,?_,?_,?_,?_⟩
    · intro root hroot p
      have htree : treeOf g s=placeSite g.toLower s root := by
        unfold treeOf
        rw [hroot]
      rw [htree,← placed_iff (rootOf_mem hroot)]
      constructor
      · rintro ⟨n,hn,-⟩
        exact ⟨n,hn⟩
      · rintro ⟨n,hn,hpage⟩
        refine ⟨n,⟨hn,hpage⟩,?_⟩
        rintro m ⟨hm,hpage'⟩
        exact (placeSite_grown g.toLower s root).1.ids m hm n hn (by rw [hpage,hpage'])
    · intro root hroot n hn
      have hg := (treeOf_grown g hroot).1
      exact ⟨n.depth,hg.depth_le hn,hg.reach hn⟩
    · intro n hn m hm heq
      obtain ⟨root,-,hg⟩ := hgrown n hn
      exact hg.paths hn hm heq
    · intro n hn k hlow hhigh h hcarries
      exact pageOf_lead hhosts hn rfl hhigh hcarries
    · exact fun h hcarries => notFound_lead hhosts hcarries
    · exact fun _ h hcarries => empty_lead hhosts hcarries
    · intro n hn line hline
      cases List.mem_append.mp hline with
      | inl hchild =>
        exact mdLines_lead (carrier_page hhosts hn) hhosts (fun m hm => (children_mem hm).1) hchild
      | inr hnav =>
        exact mdLines_lead (carrier_page hhosts hn) hhosts (fun m hm => topChildren_mem hm) hnav
    · intro n hn target
      obtain ⟨root,-,hg⟩ := hgrown n hn
      have hg' : Grown g.toLower s root (buildOf g s).tree := hg
      exact ref_lead hg' hhosts hn target
    · exact fun n hn m hm target hname => ref_target hhosts hn hm hname
    · intro m hm path hpath
      obtain ⟨root,-,hg⟩ := hgrown m hm
      exact (hg.refNode_id hpath).mpr ⟨hm,rfl⟩
    · intro m hm
      obtain ⟨root,-,hg⟩ := hgrown m hm
      cases hpath : parseInt m.path with
      | none => exact hg.refNode_path hm hpath
      | some id => exact (hg.refNode_id hpath).mpr ⟨hm,hnumbers m hm id hpath⟩

def plain : Renderer := ⟨fun t => t,fun _ _ => [],fun _ _ => none,fun t => t,fun _ => .ok []⟩

def homePage : Page := ⟨1,0,ascii "Home",[],0,none,false,false,false⟩

def childPage (slug : Bytes) : Page := ⟨7,1,ascii "Child",slug,0,none,false,false,false⟩

/-- A root page with one page below it. -/
def pairSite (slug : Bytes) : Site where
  title := ascii "Site"
  rootID := 1
  pages := [homePage,childPage slug]
  files := []
  theme := ⟨.navFull,0,.orderSite,[],[],List.nodup_nil,fun _ => List.not_mem_nil,[]⟩
  distinct := by
    show [(1 : Int),7].Nodup
    decide

theorem pair_kids (slug : Bytes) : kids (fun t => t) (pairSite slug) 1=[childPage slug]∧
    kids (fun t => t) (pairSite slug) 7=[] := by
  refine ⟨?_,?_⟩
  · have hfilter : ((pairSite slug).pages.filter fun p => ¬p.moved∧p.parentID=1)=[childPage slug] := rfl
    unfold kids
    rw [hfilter,List.mergeSort_singleton]
  · have hfilter : ((pairSite slug).pages.filter fun p => ¬p.moved∧p.parentID=7)=[] := rfl
    unfold kids
    rw [hfilter,List.mergeSort_nil]

theorem pair_tree {slug seg : Bytes} (hseg : segment (fun t => t) (childPage slug)=seg) :
    treeOf plain (pairSite slug)=
      (startTree homePage).add (.child (childPage slug) seg 1 (.top homePage)) := by
  have hplace : place (fun t => t) (pairSite slug) maxDepth (.top homePage) (startTree homePage)=
      (startTree homePage).add (.child (childPage slug) seg 1 (.top homePage)) := by
    have hkids : kids (fun t => t) (pairSite slug) (Node.top homePage).page.id=[childPage slug] :=
      (pair_kids slug).1
    have hnone : kids (fun t => t) (pairSite slug)
        (Node.child (childPage slug) seg 1 (.top homePage)).page.id=[] := (pair_kids slug).2
    have hbelow : ∀ r, place (fun t => t) (pairSite slug) 15
        (.child (childPage slug) seg 1 (.top homePage)) r=r := by
      intro r
      rw [place,hnone]
      rfl
    have hfresh : freshSegment [] seg 1 2 seg=seg := rfl
    show place _ _ (15+1) _ _=_
    rw [place,hkids]
    unfold placeChild
    dsimp only [List.foldl_cons,List.foldl_nil]
    have hnew : ¬((startTree homePage).byID.lookup (childPage slug).id).isSome=true :=
      Bool.false_ne_true
    rw [if_neg hnew,hseg]
    simp only [List.length_nil,Nat.zero_add,hfresh,ne_eq,not_true,if_false]
    exact hbelow _
  unfold treeOf
  show placeSite _ _ homePage=_
  unfold placeSite
  dsimp only [plain]
  rw [hplace]
  rfl

theorem pair_render (slug : Bytes) : ∃ res, Render plain (pairSite slug)=.ok res := by
  have hexecute : ∀ title v, (buildOf plain (pairSite slug)).execute title v=.ok ([],[]) :=
    fun _ _ => rfl
  have hpage : ∀ n pages k, ∃ out, (buildOf plain (pairSite slug)).renderPage n pages k=.ok out := by
    intro n pages k
    unfold Build.renderPage
    rw [hexecute]
    exact ⟨_,rfl⟩
  have hpages : ∀ n, ∃ out, (buildOf plain (pairSite slug)).renderPages n=.ok out := by
    intro n
    unfold Build.renderPages
    obtain ⟨out,hout⟩ := Steps.mapM_total (fun i => hpage n _ (i+1))
      (List.range ((buildOf plain (pairSite slug)).pageCount n).1)
    dsimp only
    rw [hout]
    exact ⟨_,rfl⟩
  obtain ⟨pages,hall⟩ := Steps.mapM_total hpages (buildOf plain (pairSite slug)).tree.all
  have hroot : rootOf (pairSite slug)=some homePage := rfl
  unfold Render
  rw [hroot]
  dsimp only
  rw [hall]
  exact ⟨_,rfl⟩

theorem pair_nodes {slug seg : Bytes} (hseg : segment (fun t => t) (childPage slug)=seg)
    (hm : m∈(treeOf plain (pairSite slug)).all) :
    m=.top homePage∨m=.child (childPage slug) seg 1 (.top homePage) := by
  rw [pair_tree hseg] at hm
  have hm' : m∈[Node.top homePage]++[.child (childPage slug) seg 1 (.top homePage)] := hm
  cases List.mem_append.mp hm' with
  | inl htop => exact Or.inl (List.mem_singleton.mp htop)
  | inr hchild => exact Or.inr (List.mem_singleton.mp hchild)

theorem build_links_guide : ∃ res, Render plain (pairSite (ascii "guide"))=.ok res∧
    Linked plain (pairSite (ascii "guide")) res := by
  obtain ⟨res,hres⟩ := pair_render (ascii "guide")
  refine ⟨res,hres,(build_links_iff plain (pairSite (ascii "guide")) res hres).mpr ?_⟩
  intro m hm id hid
  have hseg : segment (fun t => t) (childPage (ascii "guide"))=ascii "guide" := by decide
  rcases pair_nodes hseg hm with rfl | rfl
  · cases hid
  · have hnone : parseInt (ascii "guide")=none := by decide
    rw [show (Node.child (childPage (ascii "guide")) (ascii "guide") 1 (.top homePage)).path=
      ascii "guide" from rfl,hnone] at hid
    cases hid

/-- A page at the path `2026` isn't named by it. -/
theorem year_unnamed : ∃ res, Render plain (pairSite (ascii "2026"))=.ok res∧
    ¬Linked plain (pairSite (ascii "2026")) res := by
  obtain ⟨res,hres⟩ := pair_render (ascii "2026")
  refine ⟨res,hres,?_⟩
  intro hlinked
  have hseg : segment (fun t => t) (childPage (ascii "2026"))=ascii "2026" := by decide
  have htree := pair_tree hseg
  have hname := hlinked.byPath (.child (childPage (ascii "2026")) (ascii "2026") 1 (.top homePage))
    (by rw [htree]; exact List.mem_append_right _ (List.mem_singleton.mpr rfl))
  rw [htree] at hname
  revert hname
  decide

end Kitp.SiteRender
