import Kitp.Lib.Bounded
import Kitp.SitePages
import Kitp.SiteTrees

/-! Every link on a page of a build leads to one of the build's files. -/
namespace Kitp.SiteRender

open Kitp.NetIP Kitp.RelativeRefs
open Kitp.WebPaths (elements join mem_join)

variable {toLower : Bytes → Bytes} {s : Site} {root : Page} {n m c : Node} {r : Tree} {b : Build}
  {file base h path : Bytes} {paths : List Bytes} {k pages left : Nat}

/-- The file a link on a page leads to. The page shown where none is found is served with the site's
root in its links. -/
def linkTarget (file href : Bytes) : Option Bytes :=
  if file=ascii "404.html" then (cutPrefix NotFoundBase href).bind (target [])
  else target (elements file).dropLast href

/-- `base` leads from a page's file to the root. -/
structure Carrier (file base : Bytes) : Prop where
  leads : ∀ segs last frag, (∀ e∈segs, Clean e) → last=[]∨Clean last → frag=[]∨frag.head?=some 0x23 →
    linkTarget file (base++join (segs++[last])++frag)=some (fileOf (segs,last))
  here : base=[] → linkTarget file (ascii "./")=some index

theorem index_plain : ∀ b∈index, b≠0x2F := by decide

theorem segs_slash {segs : List Bytes} (hsegs : ∀ e∈segs, Seg e) : ∀ e∈segs, ∀ b∈e, b≠0x2F :=
  fun e he b hb => ((hsegs e he).clean.bytes b hb).1

theorem segs_clean {segs : List Bytes} (hsegs : ∀ e∈segs, Seg e) : ∀ e∈segs, Clean e :=
  fun e he => (hsegs e he).clean

/-- An index in a directory carries links from there. -/
theorem carrier_index {dir : List Bytes} (hdir : ∀ e∈dir, ∀ b∈e, b≠0x2F) (hk : dir.length=k) :
    Carrier (join (dir++[index])) (climb k) := by
  have hall : ∀ e∈dir++[index], ∀ b∈e, b≠0x2F := by
    intro e he
    cases List.mem_append.mp he with
    | inl he => exact hdir e he
    | inr he =>
      rw [List.mem_singleton.mp he]
      exact index_plain
  have helements : elements (join (dir++[index]))=dir++[index] :=
    elements_join (List.append_ne_nil_of_right_ne_nil _ (List.cons_ne_nil _ _)) hall
  have hother : join (dir++[index])≠ascii "404.html" := by
    intro heq
    have hlast : (dir++[index]).getLast?=(elements (ascii "404.html")).getLast? := by
      rw [← heq,helements]
    rw [List.getLast?_concat] at hlast
    exact absurd hlast (by decide)
  refine ⟨?_,?_⟩
  · intro segs last frag hsegs hlast hfrag
    unfold linkTarget
    rw [if_neg hother,helements,List.dropLast_concat]
    exact target_climb hk hsegs hlast hfrag
  · intro hbase
    have hnil : dir=[] := by
      cases k with
      | zero => exact List.length_eq_zero_iff.mp hk
      | succ k =>
        unfold climb at hbase
        rw [List.replicate_succ,List.flatten_cons] at hbase
        exact absurd hbase (List.append_ne_nil_of_left_ne_nil (by decide) _)
    unfold linkTarget
    rw [if_neg hother,helements,List.dropLast_concat,hnil]
    exact target_here [] (Or.inl rfl)

/-- The page shown where none is found carries links from the root. -/
theorem carrier_notFound : Carrier (ascii "404.html") NotFoundBase := by
  refine ⟨?_,fun hnil => absurd hnil (by decide)⟩
  intro segs last frag hsegs hlast hfrag
  have hcut : cutPrefix NotFoundBase (NotFoundBase++join (segs++[last])++frag)=
      some (climb 0++join (segs++[last])++frag) := by
    unfold cutPrefix
    rw [List.append_assoc,if_pos (List.isPrefixOf_iff_prefix.mpr (List.prefix_append _ _)),
      List.drop_left]
    rfl
  unfold linkTarget
  rw [if_pos rfl,hcut]
  exact target_climb rfl hsegs hlast hfrag

/-- A node's path and files, by its segments. -/
structure Segs (n : Node) (segs : List Bytes) : Prop where
  depth : segs.length=n.depth
  each : ∀ e∈segs, Seg e
  path : n.path=join segs

theorem Segs.rootRel {segs : List Bytes} (h : Segs n segs) : n.rootRel=join (segs++[[]]) := by
  unfold Node.rootRel
  rw [h.path]
  split
  · rename_i hnil
    rw [join_empty h.each hnil]
    rfl
  · rename_i hsome
    rw [join_snoc]
    rintro rfl
    exact hsome rfl

theorem Segs.filePath {segs : List Bytes} (h : Segs n segs) :
    filePath n.path=join (segs++[index]) := by
  unfold SiteRender.filePath
  rw [h.path]
  split
  · rename_i hnil
    rw [join_empty h.each hnil]
    rfl
  · rename_i hsome
    rw [join_snoc]
    rintro rfl
    exact hsome rfl

theorem Segs.listPage {segs : List Bytes} (h : Segs n segs) (k : Nat) :
    Build.listPage n k=join (segs++[ascii "page",decimal k]++[[]])∧
      Build.listPage n k++index=join (segs++[ascii "page",decimal k]++[index]) := by
  have hmore : ∀ last : Bytes, n.rootRel++ascii "page/"++decimal k++0x2F::last=
      join (segs++[ascii "page",decimal k]++[last]) := by
    intro last
    have hends : segs++[ascii "page",decimal k]=(segs++[ascii "page"])++[decimal k] := by simp
    have hpage : ascii "page/"=ascii "page"++[0x2F] := by decide
    rw [join_snoc (by simp),hends,join_snoc (by simp),h.rootRel,hpage]
    cases segs with
    | nil => simp [join]
    | cons e segs =>
      rw [join_snoc (List.cons_ne_nil _ _),join_snoc (List.cons_ne_nil _ _)]
      simp
  refine ⟨?_,?_⟩
  · rw [← hmore]
    rfl
  · rw [← hmore]
    unfold Build.listPage
    rw [List.append_assoc]
    rfl

/-- Where a build's links can lead: its pages, the pages of its lists, the theme's files and the
images. -/
structure Hosts (b : Build) (paths : List Bytes) : Prop where
  segs : ∀ n∈b.tree.all, ∃ segs, Segs n segs
  parents : ∀ n∈b.tree.all, ∀ p, n.parent=some p → p∈b.tree.all
  home : index∈paths
  pages : ∀ n∈b.tree.all, filePath n.path∈paths
  lists : ∀ n∈b.tree.all, ∀ k, 1 < k → k≤(b.pageCount n).1 → Build.listPage n k++index∈paths
  theme : ∀ p, (b.site.theme.assets.lookup p).isSome=true → ascii "_theme/"++p∈paths
  images : ∀ n image, (n,image)∈b.images → image=[]∨Build.isAbsURL image=true∨
    ∃ segs last, (∀ e∈segs, Clean e)∧Clean last∧image=join (segs++[last])∧image∈paths

def Leads (paths : List Bytes) (file h : Bytes) : Prop := ∃ f∈paths, linkTarget file h=some f

/-- A link to a page, with a fragment or without. -/
theorem Carrier.fragment {frag : Bytes} (hc : Carrier file base) (hb : Hosts b paths)
    (hn : n∈b.tree.all) (hfrag : frag=[]∨frag.head?=some 0x23) :
    linkTarget file (hrefAt base (n.rootRel++frag))=some (filePath n.path) := by
  obtain ⟨segs,hsegs⟩ := hb.segs n hn
  rw [hsegs.filePath]
  unfold hrefAt
  split
  · rename_i hnil
    rw [hc.here hnil.2]
    have hroot : segs=[] := by
      have hempty := (List.append_eq_nil_iff.mp hnil.1).1
      rw [hsegs.rootRel] at hempty
      cases segs with
      | nil => rfl
      | cons e segs =>
        rw [join_snoc (List.cons_ne_nil _ _)] at hempty
        exact absurd hempty (List.append_ne_nil_of_right_ne_nil _ (List.cons_ne_nil _ _))
    rw [hroot]
    rfl
  · have hleads := hc.leads segs [] frag (segs_clean hsegs.each) (Or.inl rfl) hfrag
    rw [← hsegs.rootRel,List.append_assoc] at hleads
    rw [hleads]
    rfl

theorem Carrier.node (hc : Carrier file base) (hb : Hosts b paths) (hn : n∈b.tree.all) :
    Leads paths file (hrefAt base n.rootRel) := by
  have hleads := hc.fragment hb hn (Or.inl rfl)
  rw [List.append_nil] at hleads
  exact ⟨filePath n.path,hb.pages n hn,hleads⟩

theorem Carrier.home (hc : Carrier file base) (hb : Hosts b paths) :
    Leads paths file (hrefAt base []) := by
  refine ⟨index,hb.home,?_⟩
  unfold hrefAt
  split
  · rename_i hnil
    exact hc.here hnil.2
  · have hleads := hc.leads [] [] [] (fun e he => absurd he List.not_mem_nil) (Or.inl rfl) (Or.inl rfl)
    rwa [List.append_nil] at hleads

/-- A file in a directory below the root. -/
theorem Carrier.download {segs : List Bytes} {last : Bytes} (hc : Carrier file base)
    (hsegs : ∀ e∈segs, Clean e) (hlast : Clean last) (hmem : join (segs++[last])∈paths) :
    Leads paths file (base++join (segs++[last])) := by
  refine ⟨_,hmem,?_⟩
  have hleads := hc.leads segs last [] hsegs (Or.inr hlast) (Or.inl rfl)
  rw [List.append_nil] at hleads
  rw [hleads]
  unfold fileOf
  rw [if_neg hlast.nonempty]

theorem page_clean : Clean (ascii "page") := ⟨by decide,by decide,by decide,by decide⟩

theorem decimal_clean (k : Nat) : Clean (decimal k) :=
  Seg.clean ⟨decimal_ne k,decimal_seg k⟩

theorem list_clean {segs : List Bytes} (hsegs : ∀ e∈segs, Seg e) (k : Nat) :
    ∀ e∈segs++[ascii "page",decimal k], Clean e := by
  intro e he
  cases List.mem_append.mp he with
  | inl he => exact (hsegs e he).clean
  | inr he =>
    simp only [List.mem_cons,List.not_mem_nil,or_false] at he
    rcases he with rfl | rfl
    · exact page_clean
    · exact decimal_clean k

/-- A page of a list. -/
theorem Carrier.listPage (hc : Carrier file base) (hb : Hosts b paths) (hn : n∈b.tree.all)
    (hlow : 1 < k) (hhigh : k≤(b.pageCount n).1) :
    Leads paths file (base++Build.listPage n k) := by
  obtain ⟨segs,hsegs⟩ := hb.segs n hn
  refine ⟨_,hb.lists n hn k hlow hhigh,?_⟩
  have hleads := hc.leads _ [] [] (list_clean hsegs.each k) (Or.inl rfl) (Or.inl rfl)
  rw [List.append_nil,← (hsegs.listPage k).1] at hleads
  rw [hleads,(hsegs.listPage k).2]
  rfl

theorem carrier_page (hb : Hosts b paths) (hn : n∈b.tree.all) : Carrier (filePath n.path) n.base := by
  obtain ⟨segs,hsegs⟩ := hb.segs n hn
  rw [hsegs.filePath]
  exact carrier_index (segs_slash hsegs.each) hsegs.depth

theorem climb_two (k : Nat) : climb k++ascii "../../"=climb (k+2) := by
  unfold climb
  rw [List.replicate_add,List.flatten_append]
  rfl

theorem carrier_list (hb : Hosts b paths) (hn : n∈b.tree.all) (k : Nat) :
    Carrier (Build.listPage n k++index) (n.base++ascii "../../") := by
  obtain ⟨segs,hsegs⟩ := hb.segs n hn
  rw [(hsegs.listPage k).2]
  unfold Node.base
  rw [climb_two]
  refine carrier_index ?_ ?_
  · exact fun e he b hb => ((list_clean hsegs.each k e he).bytes b hb).1
  · rw [List.length_append,hsegs.depth]
    rfl

/-- A navigation item's links, its own and those below it. -/
inductive NavItem.Carries : NavItem → Bytes → Prop where
  | here {title href : Bytes} {current inPath hasChildren opened collapsible : Bool}
      {children : List NavItem} :
      Carries (.mk title href current inPath hasChildren opened collapsible children) href
  | child {title href h : Bytes} {current inPath hasChildren opened collapsible : Bool}
      {children : List NavItem} {item : NavItem} (hitem : item∈children) (hcarries : item.Carries h) :
      Carries (.mk title href current inPath hasChildren opened collapsible children) h

theorem children_mem (h : m∈b.tree.children n) : m∈b.tree.all∧m.parent=some n := by
  have hmem := List.mem_filter.mp h
  exact ⟨hmem.1,of_decide_eq_true hmem.2⟩

theorem navItems_lead (hc : Carrier file base) (hb : Hosts b paths) {cur : Option Node}
    {list : List Node} (hlist : ∀ n∈list, n∈b.tree.all) {item : NavItem}
    (hitem : item∈b.navItems cur base left list) (hcarries : item.Carries h) :
    Leads paths file h := by
  induction left generalizing list item with
  | zero => cases hitem
  | succ left ih =>
    rw [Build.navItems] at hitem
    obtain ⟨c,hc',rfl⟩ := List.mem_map.mp hitem
    have hmem := hlist c (List.mem_filter.mp hc').1
    cases hcarries with
    | here => exact hc.node hb hmem
    | child hin hbelow =>
      split at hin
      · exact ih (fun n hn => (children_mem hn).1) hin hbelow
      · cases hin

theorem mdLines_lead (hc : Carrier file n.base) (hb : Hosts b paths) {inNav : Bool} {level : Nat}
    {list : List Node} (hlist : ∀ m∈list, m∈b.tree.all) {line : Nat×NavLink}
    (hline : line∈b.mdLines n inNav left level list) : Leads paths file line.2.href := by
  induction left generalizing list level with
  | zero => cases hline
  | succ left ih =>
    rw [Build.mdLines] at hline
    obtain ⟨c,hc',hin⟩ := List.mem_flatMap.mp hline
    split at hin
    · cases hin
    · cases List.mem_cons.mp hin with
      | inl hself =>
        rw [hself]
        exact hc.node hb (hlist c hc')
      | inr hbelow =>
        split at hbelow
        · exact ih (fun m hm => (children_mem hm).1) hbelow
        · cases hbelow

theorem above_mem (hb : Hosts b paths) (hn : n∈b.tree.all) (hm : m∈n.above) : m∈b.tree.all := by
  induction n with
  | top page => cases hm
  | child page path depth parent ih =>
    have hparent := hb.parents _ hn parent rfl
    cases List.mem_append.mp hm with
    | inl hup => exact ih hparent hup
    | inr hself =>
      rw [List.mem_singleton.mp hself]
      exact hparent

theorem visible_mem (h : m∈b.navVisible n) : m∈b.tree.all := (children_mem (List.mem_filter.mp h).1).1

theorem walk_mem (hn : n∈b.tree.all) (hm : m∈b.walk left n) : m∈b.tree.all := by
  induction left generalizing n with
  | zero =>
    rw [List.mem_singleton.mp hm]
    exact hn
  | succ left ih =>
    rw [Build.walk] at hm
    cases List.mem_cons.mp hm with
    | inl hself => exact hself ▸ hn
    | inr hbelow =>
      obtain ⟨c,hc,hin⟩ := List.mem_flatMap.mp hbelow
      exact ih (visible_mem hc) hin

theorem top_mem (h : b.top=some n) : n∈b.tree.all := List.mem_of_mem_head? h

theorem reading_mem (h : m∈b.reading) : m∈b.tree.all := by
  unfold Build.reading at h
  cases htop : b.top with
  | none =>
    rw [htop] at h
    cases h
  | some n =>
    rw [htop] at h
    exact walk_mem (top_mem htop) h

theorem neighbours_mem {before : Option Node} {list : List Node} :
    (∀ m, (neighbours n before list).1=some m → before=some m∨m∈list)∧
      ∀ m, (neighbours n before list).2=some m → m∈list := by
  induction list generalizing before with
  | nil =>
    refine ⟨?_,?_⟩
    · intro m hm
      cases hm
    · intro m hm
      cases hm
  | cons x xs ih =>
    have hrest : (∀ m, (neighbours n (some x) xs).1=some m → some x=some m∨m∈xs)∧
        ∀ m, (neighbours n (some x) xs).2=some m → m∈xs := ih
    have hfirst : ∀ m, (neighbours n (some x) xs).1=some m → m∈x::xs := by
      intro m hm
      cases hrest.1 m hm with
      | inl hself =>
        rw [Option.some.inj hself]
        exact List.mem_cons_self
      | inr hin => exact List.mem_cons_of_mem _ hin
    rw [neighbours]
    split
    · refine ⟨?_,?_⟩
      · intro m hm
        cases Option.or_eq_some_iff.mp hm with
        | inl hfound => exact Or.inr (hfirst m hfound)
        | inr hbefore => exact Or.inl hbefore.2
      · intro m hm
        cases Option.or_eq_some_iff.mp hm with
        | inl hfound => exact List.mem_cons_of_mem _ (hrest.2 m hfound)
        | inr hnext => exact List.mem_cons_of_mem _ (List.mem_of_mem_head? hnext.2)
    · exact ⟨fun m hm => Or.inr (hfirst m hm),fun m hm => List.mem_cons_of_mem _ (hrest.2 m hm)⟩

theorem findAsset_some {t : Theme} {stem : String} {exts : List String}
    (h : findAsset t stem exts≠[]) : ∃ e∈exts, findAsset t stem exts=ascii stem++ascii e∧
      (t.assets.lookup (findAsset t stem exts)).isSome=true := by
  unfold findAsset at h ⊢
  cases hfind : (exts.map fun e => ascii stem++ascii e).find? fun p => (t.assets.lookup p).isSome with
  | none =>
    rw [hfind] at h
    exact absurd rfl h
  | some p =>
    have hsome := List.find?_some hfind
    obtain ⟨e,he,rfl⟩ := List.mem_map.mp (List.mem_of_find?_eq_some hfind)
    exact ⟨e,he,rfl,hsome⟩

/-- The theme's file names for a site's pictures stand for themselves. -/
theorem picture_clean {t : Theme} {p : Bytes} (h : p=logoPath t∨p=iconPath t) (hp : p≠[]) :
    Clean p∧(t.assets.lookup p).isSome=true := by
  have hlogo : ∀ e∈[".svg",".png",".webp",".jpg",".jpeg",".gif"], ascii "logo"++ascii e≠[]∧
      ascii "logo"++ascii e≠dot∧ascii "logo"++ascii e≠dotdot∧∀ b∈ascii "logo"++ascii e,
      b≠0x2F∧b≠0x23∧b≠0x3F∧b≠0x3A := by decide
  have hicon : ∀ e∈[".svg",".png",".ico"], ascii "favicon"++ascii e≠[]∧
      ascii "favicon"++ascii e≠dot∧ascii "favicon"++ascii e≠dotdot∧∀ b∈ascii "favicon"++ascii e,
      b≠0x2F∧b≠0x23∧b≠0x3F∧b≠0x3A := by decide
  rcases h with rfl | rfl
  · obtain ⟨e,he,heq,hsome⟩ := findAsset_some hp
    obtain ⟨hne,hdot,hdotdot,hbytes⟩ := hlogo e he
    refine ⟨?_,hsome⟩
    unfold logoPath
    rw [heq]
    exact ⟨hne,hdot,hdotdot,hbytes⟩
  · obtain ⟨e,he,heq,hsome⟩ := findAsset_some hp
    obtain ⟨hne,hdot,hdotdot,hbytes⟩ := hicon e he
    refine ⟨?_,hsome⟩
    unfold iconPath
    rw [heq]
    exact ⟨hne,hdot,hdotdot,hbytes⟩

theorem theme_lead (hc : Carrier file base) (hb : Hosts b paths) {p : Bytes}
    (h : p=logoPath b.site.theme∨p=iconPath b.site.theme) (hp : p≠[]) :
    Leads paths file (base++ascii "_theme/"++p) := by
  obtain ⟨hclean,hsome⟩ := picture_clean h hp
  have htheme : Clean (ascii "_theme") := ⟨by decide,by decide,by decide,by decide⟩
  have hpath : ascii "_theme/"++p=join ([ascii "_theme"]++[p]) := rfl
  have hmem := hb.theme p hsome
  rw [hpath] at hmem
  rw [List.append_assoc,hpath]
  exact hc.download (fun e he => List.mem_singleton.mp he ▸ htheme) hclean hmem

def Pager.hrefs (p : Pager) : List Bytes :=
  [p.prev,p.next].filter (·≠[])++p.links.map PagerLink.href

/-- The links a view's templates write, those of the navigation apart. Pictures elsewhere aren't
relative. -/
def View.hrefs (v : View) : List Bytes :=
  [v.root.href]++[v.logo,v.icon].filter (·≠[])++v.crumbs.map NavLink.href++
    (v.parent.toList++v.prev.toList++v.next.toList).map NavLink.href++
    v.children.map Article.href++
    (v.children.map Article.image).filter (fun image => image≠[]∧¬Build.isAbsURL image)++
    v.pager.toList.flatMap Pager.hrefs

def View.Carries (v : View) (h : Bytes) : Prop :=
  h∈v.hrefs∨∃ item∈v.nav++v.inSection.toList, item.Carries h

theorem siteView_lead (hc : Carrier file base) (hb : Hosts b paths)
    (h' : (b.siteView base).Carries h) : Leads paths file h := by
  rcases h' with hflat | ⟨item,hitem,-⟩
  · simp only [View.hrefs,Build.siteView,List.map_nil,List.append_nil,Option.toList_none,
      List.flatMap_nil,List.filter_nil,List.mem_append,List.mem_filter,
      List.mem_cons,List.not_mem_nil,or_false,decide_eq_true_eq] at hflat
    rcases hflat with rfl | ⟨rfl | rfl,hne⟩
    · exact hc.home hb
    · split at hne
      · rename_i hsome
        rw [if_pos hsome]
        exact theme_lead hc hb (Or.inl rfl) hsome
      · exact absurd rfl hne
    · split at hne
      · rename_i hsome
        rw [if_pos hsome]
        exact theme_lead hc hb (Or.inr rfl) hsome
      · exact absurd rfl hne
  · cases hitem

/-- What a view's links are. -/
theorem View.hrefs_cases {v : View} (hv : h∈v.hrefs) :
    h∈[v.root.href]++[v.logo,v.icon].filter (·≠[])∨(∃ l∈v.crumbs, l.href=h)∨
      (∃ l, (v.parent=some l∨v.prev=some l∨v.next=some l)∧l.href=h)∨(∃ a∈v.children, a.href=h)∨
      (∃ a∈v.children, a.image=h∧h≠[]∧¬Build.isAbsURL h=true)∨∃ p, v.pager=some p∧h∈p.hrefs := by
  unfold View.hrefs at hv
  rcases List.mem_append.mp hv with hv | hpager
  · rcases List.mem_append.mp hv with hv | himage
    · rcases List.mem_append.mp hv with hv | hchild
      · rcases List.mem_append.mp hv with hv | haround
        · rcases List.mem_append.mp hv with hsite | hcrumb
          · exact Or.inl hsite
          · exact Or.inr (Or.inl (List.mem_map.mp hcrumb))
        · obtain ⟨l,hl,heq⟩ := List.mem_map.mp haround
          simp only [List.mem_append,Option.mem_toList,or_assoc] at hl
          exact Or.inr (Or.inr (Or.inl ⟨l,hl,heq⟩))
      · exact Or.inr (Or.inr (Or.inr (Or.inl (List.mem_map.mp hchild))))
    · obtain ⟨hin,hrelative⟩ := List.mem_filter.mp himage
      obtain ⟨a,ha,heq⟩ := List.mem_map.mp hin
      exact Or.inr (Or.inr (Or.inr (Or.inr (Or.inl ⟨a,ha,heq,of_decide_eq_true hrelative⟩))))
  · obtain ⟨p,hp,hin⟩ := List.mem_flatMap.mp hpager
    exact Or.inr (Or.inr (Or.inr (Or.inr (Or.inr ⟨p,Option.mem_toList.mp hp,hin⟩))))

theorem lookup_mem {α β : Type} [BEq α] [LawfulBEq α] {l : List (α×β)} {a : α} {x : β}
    (hl : l.lookup a=some x) : (a,x)∈l := by
  induction l with
  | nil => cases hl
  | cons p l ih =>
    obtain ⟨k,y⟩ := p
    rw [List.lookup_cons] at hl
    split at hl
    · rename_i hsame
      rw [eq_of_beq hsame,Option.some.inj hl]
      exact List.mem_cons_self
    · exact List.mem_cons_of_mem _ (ih hl)

theorem article_image (hc : Carrier file base) (hb : Hosts b paths)
    (himage : (b.article base c).image=h) (hne : h≠[]) (hrelative : ¬Build.isAbsURL h=true) :
    Leads paths file h := by
  unfold Build.article at himage
  dsimp only at himage
  split at himage
  · exact absurd himage.symm hne
  · rename_i hsome
    split at himage
    · rename_i habs
      rw [himage] at habs
      exact absurd habs hrelative
    · rename_i hnot
      cases hlook : b.images.lookup c with
      | none =>
        rw [hlook] at hsome
        exact absurd rfl hsome
      | some image =>
        rw [hlook,Option.getD_some] at hsome hnot himage
        rcases hb.images c image (lookup_mem hlook) with hnil | habs | ⟨segs,last,hsegs,hlast,rfl,hmem⟩
        · exact absurd hnil hsome
        · exact absurd habs hnot
        · rw [← himage]
          exact hc.download hsegs hlast hmem

theorem pager_lead (hc : Carrier file base) (hb : Hosts b paths) (hn : n∈b.tree.all) {cur : Nat}
    (hcur : cur≤pages) (hpages : pages=(b.pageCount n).1) (hh : h∈(Build.pager n base cur pages).hrefs) :
    Leads paths file h := by
  have hone : ∀ k, 1≤k → k≤pages →
      Leads paths file (if k=1 then hrefAt base n.rootRel else base++Build.listPage n k) := by
    intro k hlow hhigh
    split
    · exact hc.node hb hn
    · exact hc.listPage hb hn (by omega) (hpages ▸ hhigh)
  unfold Pager.hrefs Build.pager at hh
  dsimp only at hh
  rcases List.mem_append.mp hh with hnear | hlink
  · obtain ⟨hin,hne⟩ := List.mem_filter.mp hnear
    simp only [List.mem_cons,List.not_mem_nil,or_false] at hin
    rcases hin with rfl | rfl
    · split at hne
      · rename_i hmore
        rw [if_pos hmore]
        exact hone (cur-1) (by omega) (by omega)
      · exact absurd rfl (of_decide_eq_true hne)
    · split at hne
      · rename_i hmore
        rw [if_pos hmore]
        exact hone (cur+1) (by omega) (by omega)
      · exact absurd rfl (of_decide_eq_true hne)
  · obtain ⟨l,hl,rfl⟩ := List.mem_map.mp hlink
    obtain ⟨i,hi,rfl⟩ := List.mem_map.mp hl
    have hless := List.mem_range.mp hi
    exact hone (i+1) (by omega) (by omega)

theorem listed_mem (hm : m∈b.listed n) : m∈b.tree.all := by
  unfold Build.listed at hm
  split at hm
  · exact visible_mem hm
  · exact visible_mem ((List.mergeSort_perm _ _).mem_iff.mp hm)

theorem topChildren_mem (hm : m∈(b.top.map b.tree.children).getD []) : m∈b.tree.all := by
  cases htop : b.top with
  | none =>
    rw [htop] at hm
    cases hm
  | some n =>
    rw [htop] at hm
    exact (children_mem hm).1

/-- Every link of a page's view leads to a file. -/
theorem pageOf_lead (hb : Hosts b paths) (hn : n∈b.tree.all) (hpages : pages=(b.pageCount n).1)
    (hk : k≤pages) (hh : (b.pageOf n pages k).2.Carries h) :
    Leads paths (b.pageOf n pages k).1 h := by
  generalize hbase : (if 1 < k then n.base++ascii "../../" else n.base)=base
  have hc : Carrier (b.pageOf n pages k).1 base := by
    rw [← hbase]
    unfold Build.pageOf
    dsimp only
    split
    · exact carrier_list hb hn k
    · exact carrier_page hb hn
  generalize (b.pageOf n pages k).1=file at hc ⊢
  unfold Build.pageOf at hh
  dsimp only at hh
  rw [hbase] at hh
  rcases hh with hflat | ⟨item,hitem,hcarries⟩
  · rcases View.hrefs_cases hflat with hsite | ⟨l,hl,rfl⟩ | ⟨l,hl,rfl⟩ | ⟨a,ha,rfl⟩ |
      ⟨a,ha,himage,hne,hrelative⟩ | ⟨p,hp,hin⟩
    · refine siteView_lead hc hb (Or.inl ?_)
      unfold View.hrefs
      simp only [List.append_assoc]
      rw [← List.append_assoc]
      exact List.mem_append_left _ hsite
    · obtain ⟨m,hm,rfl⟩ := List.mem_map.mp hl
      exact hc.node hb (above_mem hb hn hm)
    · have haround : (∀ m, (neighbours n none b.reading).1=some m → none=some m∨m∈b.reading)∧
          ∀ m, (neighbours n none b.reading).2=some m → m∈b.reading := neighbours_mem
      have hnode : ∃ m∈b.tree.all, l=Build.link base m := by
        rcases hl with hparent | hprev | hnext
        · obtain ⟨m,hm,rfl⟩ := Option.map_eq_some_iff.mp hparent
          exact ⟨m,hb.parents n hn m hm,rfl⟩
        · obtain ⟨m,hm,rfl⟩ := Option.map_eq_some_iff.mp hprev
          cases haround.1 m hm with
          | inl hnone => cases hnone
          | inr hin => exact ⟨m,reading_mem hin,rfl⟩
        · obtain ⟨m,hm,rfl⟩ := Option.map_eq_some_iff.mp hnext
          exact ⟨m,reading_mem (haround.2 m hm),rfl⟩
      obtain ⟨m,hm,rfl⟩ := hnode
      exact hc.node hb hm
    · obtain ⟨m,hm,rfl⟩ := List.mem_map.mp ha
      have hlisted : m∈b.listed n := by
        split at hm
        · exact List.mem_of_mem_drop (List.mem_of_mem_take hm)
        · exact hm
      exact hc.node hb (listed_mem hlisted)
    · obtain ⟨m,hm,rfl⟩ := List.mem_map.mp ha
      exact article_image hc hb himage hne hrelative
    · dsimp only at hp
      split at hp
      · rw [← Option.some.inj hp] at hin
        exact pager_lead hc hb hn hk hpages hin
      · cases hp
  · have hnav : item∈(b.pageView n base).nav := by
      rcases List.mem_append.mp hitem with hnav | hsection
      · exact hnav
      · have hlast : ((b.pageView n base).nav.filter NavItem.inPath).getLast?=some item :=
          Option.mem_toList.mp hsection
        exact (List.mem_filter.mp (List.mem_of_getLast? hlast)).1
    exact navItems_lead hc hb (fun m hm => topChildren_mem hm) hnav hcarries

/-- So does every link of the page shown where none is found. -/
theorem notFound_lead (hb : Hosts b paths) (hh : b.notFoundView.Carries h) :
    Leads paths (ascii "404.html") h := by
  rcases hh with hflat | ⟨item,hitem,hcarries⟩
  · exact siteView_lead carrier_notFound hb (Or.inl hflat)
  · rcases List.mem_append.mp hitem with hnav | hsection
    · have hnav' : item∈(b.top.map fun n =>
          b.navItems none NotFoundBase maxDepth (b.tree.children n)).getD [] := hnav
      cases htop : b.top with
      | none =>
        rw [htop] at hnav'
        cases hnav'
      | some n =>
        rw [htop] at hnav'
        exact navItems_lead carrier_notFound hb (fun m hm => (children_mem hm).1) hnav' hcarries
    · cases hsection

theorem empty_lead (hb : Hosts b paths) (hh : b.emptyView.Carries h) : Leads paths index h := by
  have hroot : Carrier (join ([]++[index])) (climb 0) :=
    carrier_index (fun e he => absurd he List.not_mem_nil) rfl
  have hc : Carrier index [] := hroot
  rcases hh with hflat | ⟨item,hitem,-⟩
  · exact siteView_lead hc hb (Or.inl hflat)
  · cases hitem

end Kitp.SiteRender
