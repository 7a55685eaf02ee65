import Kitp.SiteTree

/-! The files of a portal's build: the pages, the pages of their lists, the theme's files and the
attachments. Markdown and the theme's templates are taken as given. -/
namespace Kitp.SiteRender

open Kitp.NetIP Kitp.RelativeRefs

/-- `strconv.ParseInt` in base ten, of 64 bits. -/
def parseInt (s : Bytes) : Option Int :=
  let magnitude (limit : Nat) (digits : Bytes) : Option Nat :=
    if digits=[]∨¬digits.all isDigit∨limit≤number 10 digits then none else some (number 10 digits)
  match s with
  | 0x2d::digits => (magnitude (2^63+1) digits).map fun n => -Int.ofNat n
  | 0x2b::digits => (magnitude (2^63) digits).map Int.ofNat
  | digits => (magnitude (2^63) digits).map Int.ofNat

/-- `strings.Cut` at a number sign. -/
def cutFragment (target : Bytes) : Bytes×Bytes :=
  (target.takeWhile (·≠0x23),(target.dropWhile (·≠0x23)).tail)

/-- The page a `ref:` target names. -/
def refNode (r : Tree) (p : Bytes) : Option Node :=
  match parseInt p with
  | some id => r.byID.lookup id
  | none => r.byPath.lookup (trimSet (·=0x2f) p)

def refs (r : Tree) (target : Bytes) : Option Bytes :=
  let (p,frag) := cutFragment target
  (refNode r p).map fun n => n.rootRel++if frag≠[] then 0x23::frag else []

/-- Where a link `ref:target` on a page at `base` goes. -/
def refHref (r : Tree) (base target : Bytes) : Bytes :=
  match refs r target with
  | some p => hrefAt base p
  | none => [0x23]

/-- A destination goldmark finds in a body. -/
inductive Dest where
  | link (dest : Bytes)
  | image (dest : Bytes)

def cutPrefix (lead s : Bytes) : Option Bytes :=
  if lead.isPrefixOf s then some (s.drop lead.length) else none

/-- `/api/v1/attachment/<id>/view`, `/download` or `/thumb`: the id's digits. -/
def attachmentPath (s : Bytes) : Option Bytes :=
  (cutPrefix (ascii "/api/v1/attachment/") s).bind fun s =>
    let digits := s.takeWhile isDigit
    let rest := s.dropWhile isDigit
    let ends := [ascii "/view",ascii "/download",ascii "/thumb"].filterMap fun way => cutPrefix way rest
    if digits≠[]∧ends.any fun s => s=[]∨(s.head?=some 0x3f∨s.head?=some 0x23)∧¬s.contains 0x0a
    then some digits else none

/-- `attachmentID`, with or without a host. -/
def attachmentID (dest : Bytes) : Option Int :=
  let digits := match cutPrefix (ascii "attachment:") dest with
    | some id => some id
    | none =>
      match [ascii "https://",ascii "http://"].filterMap fun lead => cutPrefix lead dest with
      | rest::_ =>
        if rest.takeWhile (·≠0x2f)=[] then none else attachmentPath (rest.dropWhile (·≠0x2f))
      | [] => attachmentPath dest
  (digits.bind parseInt).filter fun id => 0 < id

def isFileByte (b : UInt8) : Bool := isSlugByte b∨b=0x2e∨b=0x5f∨b=0x2d

def MaxPublishedFileBytes : Nat := 25*2^20

structure FileRef where
  id : Int
  path : Bytes
  mime : Bytes
  cardID : Int

/-- What rendering the bodies has published so far. -/
structure Files where
  published : List (Int×Bytes)
  attachments : List FileRef

structure Rendered where
  html : Bytes
  headings : List (Nat×Bytes×Bytes)
  summary : Bytes

structure NavLink where
  title : Bytes
  href : Bytes
  deriving DecidableEq

inductive NavItem where
  | mk (title href : Bytes) (current inPath hasChildren opened collapsible : Bool)
      (children : List NavItem)

structure Article where
  title : Bytes
  href : Bytes
  summary : Bytes
  image : Bytes
  published : Option Nat
  hasChildren : Bool

structure PagerLink where
  number : Nat
  href : Bytes
  current : Bool

structure Pager where
  page : Nat
  pages : Nat
  prev : Bytes
  next : Bytes
  links : List PagerLink

inductive Kind where
  | page
  | notfound
  | empty

/-- The data a template receives. -/
structure View where
  siteTitle : Bytes
  logo : Bytes
  icon : Bytes
  footer : Bytes
  title : Bytes
  isHome : Bool
  kind : Kind
  published : Option Nat
  base : Bytes
  theme : Bytes
  root : NavLink
  rootCurrent : Bool
  content : Bytes
  crumbs : List NavLink
  parent : Option NavLink
  nav : List NavItem
  inSection : Option NavItem
  children : List Article
  pager : Option Pager
  prev : Option NavLink
  next : Option NavLink
  headings : List (Nat×Bytes×Bytes)

inductive ExecErr where
  | tooLarge
  | template

/-- What a build takes as given: lower-casing; for each node goldmark's reading of its body, and the
HTML when it isn't too large; Markdown of the footer; the theme's templates. -/
structure Renderer where
  toLower : Bytes → Bytes
  dests : Tree → Node → List Dest
  body : Tree → Node → Option Rendered
  footer : Bytes → Bytes
  execute : View → Except ExecErr Bytes

def fileSegment (toLower : Bytes → Bytes) (name : Bytes) : Bytes :=
  let s := trimSet (fun b => b=0x2d∨b=0x2e) (stripRuns isFileByte false (toLower name))
  let s := if 80 < s.length then s.drop (s.length-80) else s
  if s=[] then ascii "file" else s

/-- `files`: none when `dest` is no attachment, and no path when it isn't published. -/
def publish (toLower : Bytes → Bytes) (s : Site) (r : Tree) (st : Files) (dest : Bytes) :
    Files×Option (Option Bytes) :=
  match attachmentID dest with
  | none => (st,none)
  | some id =>
    match s.files.find? fun f => f.id=id with
    | none => (st,some none)
    | some f =>
      -- only an attachment on a page placed in this site
      if (r.byID.lookup f.cardID).isNone then (st,some none)
      else if MaxPublishedFileBytes < f.size then (st,some none)
      else
        match st.published.lookup id with
        | some p => (st,some (some p))
        | none =>
          let p := ascii "_files/"++formatInt id++0x2f::fileSegment toLower f.name
          (⟨(id,p)::st.published,st.attachments++[⟨id,p,f.mime,f.cardID⟩]⟩,some (some p))

def isHTTP (dest : Bytes) : Bool :=
  (ascii "https://").isPrefixOf dest∨(ascii "http://").isPrefixOf dest

/-- One destination, and the body's first image. -/
def publishDest (toLower : Bytes → Bytes) (s : Site) (r : Tree) (p : Files×Bytes) (d : Dest) :
    Files×Bytes :=
  match d with
  | .link dest =>
    if (ascii "ref:").isPrefixOf dest then p else ((publish toLower s r p.1 dest).1,p.2)
  | .image dest =>
    match publish toLower s r p.1 dest with
    | (st,some (some path)) => (st,if p.2=[] then path else p.2)
    | (st,some none) => (st,p.2)
    | (st,none) => (st,if p.2=[]∧isHTTP dest then dest else p.2)

/-- `renderBody`: the files published, and the node's image. -/
def renderBody (g : Renderer) (s : Site) (r : Tree) (p : Files×List (Node×Bytes)) (n : Node) :
    Files×List (Node×Bytes) :=
  let (st,image) := (g.dests r n).foldl (publishDest g.toLower s r) (p.1,[])
  (st,(n,if (g.body r n).isSome then image else [])::p.2)

def renderBodies (g : Renderer) (s : Site) (r : Tree) : Files×List (Node×Bytes) :=
  r.all.foldl (renderBody g s r) (⟨[],[]⟩,[])

def filePath (p : Bytes) : Bytes := if p=[] then index else p++0x2f::index

/-- What a tree, once its bodies are rendered, is shown with. -/
structure Build where
  g : Renderer
  site : Site
  tree : Tree
  images : List (Node×Bytes)

def findAsset (t : Theme) (stem : String) (exts : List String) : Bytes :=
  ((exts.map fun e => ascii stem++ascii e).find? fun p => (t.assets.lookup p).isSome).getD []

def logoPath (t : Theme) : Bytes :=
  findAsset t "logo" [".svg",".png",".webp",".jpg",".jpeg",".gif"]

def iconPath (t : Theme) : Bytes := findAsset t "favicon" [".svg",".png",".ico"]

namespace Build

variable (b : Build)

def navVisible (n : Node) : List Node := (b.tree.children n).filter fun c => ¬c.page.navHidden

/-- The reading order from a node `left` levels above the deepest. -/
def walk : (left : Nat) → Node → List Node
  | 0,n => [n]
  | left+1,n => n::(b.navVisible n).flatMap (walk left)

def top : Option Node := b.tree.all.head?

def reading : List Node := (b.top.map (b.walk maxDepth)).getD []

def listed (n : Node) : List Node :=
  match b.site.theme.order with
  | .orderSite => b.navVisible n
  | .orderNewest => (b.navVisible n).mergeSort fun x y => ¬x.page.publishedAt.getD 0 < y.page.publishedAt.getD 0

def siteView (base : Bytes) : View where
  siteTitle := b.site.title
  logo := if logoPath b.site.theme≠[] then base++ascii "_theme/"++logoPath b.site.theme else []
  icon := if iconPath b.site.theme≠[] then base++ascii "_theme/"++iconPath b.site.theme else []
  footer := if b.site.theme.footer≠[] then b.g.footer b.site.theme.footer else []
  title := []
  isHome := false
  kind := .page
  published := none
  base := base
  theme := base++ascii "_theme/"
  root := ⟨(b.top.map fun n => n.page.title).getD b.site.title,hrefAt base []⟩
  rootCurrent := false
  content := []
  crumbs := []
  parent := none
  nav := []
  inSection := none
  children := []
  pager := none
  prev := none
  next := none
  headings := []

def link (base : Bytes) (n : Node) : NavLink := ⟨n.page.title,hrefAt base n.rootRel⟩

end Build

/-- The nodes above, the top first. -/
def Node.above : Node → List Node
  | .top _ => []
  | .child _ _ _ parent => parent.above++[parent]

def ancestorOrSelf (a : Node) : Node → Bool
  | .top page => a=.top page
  | .child page path depth parent => a=.child page path depth parent∨ancestorOrSelf a parent

namespace Build

variable (b : Build)

/-- `navItems` of nodes `left-1` levels above the deepest, as seen from `cur`. -/
def navItems (cur : Option Node) (base : Bytes) : (left : Nat) → List Node → List NavItem
  | 0,_ => []
  | left+1,list => (list.filter fun c => ¬c.page.navHidden).map fun c =>
    let inPath := cur.any fun n => ancestorOrSelf c n
    let hasChildren := ¬c.page.navHideChildren∧(b.tree.children c).any fun k => ¬k.page.navHidden
    let children := if hasChildren∧(b.site.theme.nav≠.navSection∨inPath)
      then navItems cur base left (b.tree.children c) else []
    .mk c.page.title (hrefAt base c.rootRel) (cur=some c) inPath hasChildren
      (b.site.theme.nav=.navFull∨inPath) (b.site.theme.nav=.navCollapsible∧¬children.isEmpty) children

end Build

def NavItem.inPath : NavItem → Bool
  | .mk _ _ _ inPath _ _ _ _ => inPath

/-- The neighbours of `n` in a list. -/
def neighbours (n : Node) : (before : Option Node) → List Node → Option Node×Option Node
  | _,[] => (none,none)
  | before,x::xs =>
    let found := neighbours n (some x) xs
    if x=n then (found.1.or before,found.2.or xs.head?) else found

namespace Build

variable (b : Build)

def pageView (n : Node) (base : Bytes) : View :=
  let nav := b.navItems (some n) base maxDepth ((b.top.map b.tree.children).getD [])
  let around := neighbours n none b.reading
  { b.siteView base with
    title := n.page.title
    isHome := b.top=some n
    published := n.page.publishedAt
    rootCurrent := b.top=some n
    crumbs := n.above.map (link base)
    nav := nav
    inSection := (nav.filter NavItem.inPath).getLast?
    prev := around.1.map (link base)
    next := around.2.map (link base)
    parent := n.parent.map (link base) }

def isScheme (s : Bytes) : Bool :=
  let letter (c : UInt8) : Bool := 0x41 ≤ c∧c≤0x5a∨0x61 ≤ c∧c≤0x7a
  let more (c : UInt8) : Bool := letter c∨isDigit c∨c=0x2b∨c=0x2e∨c=0x2d
  (s.head?.any letter)∧(s.dropWhile more).head?=some 0x3a

def isAbsURL (s : Bytes) : Bool := [0x2f,0x2f].isPrefixOf s∨isScheme s

def article (base : Bytes) (c : Node) : Article :=
  let image := (b.images.lookup c).getD []
  { title := c.page.title
    href := hrefAt base c.rootRel
    summary := ((b.g.body b.tree c).map Rendered.summary).getD []
    image := if image=[] then [] else if isAbsURL image then image else base++image
    published := c.page.publishedAt
    hasChildren := (b.tree.children c).any fun k => ¬k.page.navHidden }

/-- How many pages the list of child pages takes, and a warning when it isn't split. -/
def pageCount (n : Node) : Nat×Option Warning :=
  let per := b.site.theme.paginate
  if 0 < per∧per < (b.listed n).length then
    if (b.tree.byPath.lookup (joinPath n.path (ascii "page"))).isSome
    then (1,some (.unsplit n.page.title (n.rootRel++ascii "page/")))
    else (((b.listed n).length+per-1)/per,none)
  else (1,none)

def listPage (n : Node) (k : Nat) : Bytes := n.rootRel++ascii "page/"++decimal k++[0x2f]

def pager (n : Node) (base : Bytes) (cur pages : Nat) : Pager :=
  let href (k : Nat) : Bytes := if k=1 then hrefAt base n.rootRel else base++listPage n k
  { page := cur
    pages := pages
    prev := if 1 < cur then href (cur-1) else []
    next := if cur < pages then href (cur+1) else []
    links := (List.range pages).map fun i => ⟨i+1,href (i+1),i+1=cur⟩ }

/-- The `k`-th page of `n`: its file and what is shown on it. -/
def pageOf (n : Node) (pages k : Nat) : Bytes×View :=
  let per := b.site.theme.paginate
  let base := if 1 < k then n.base++ascii "../../" else n.base
  let file := if 1 < k then listPage n k++index else filePath n.path
  let items := if 1 < pages then ((b.listed n).drop ((k-1)*per)).take per else b.listed n
  (file,{ b.pageView n base with
    content := if k=1 then ((b.g.body b.tree n).map Rendered.html).getD [] else []
    headings := if k=1 then ((b.g.body b.tree n).map Rendered.headings).getD [] else []
    children := items.map (b.article base)
    pager := if 1 < pages then some (pager n base k pages) else none })

end Build

namespace Build

variable (b : Build)

/-- The lines of `mdList`, each with its level, of nodes `left` levels deep. -/
def mdLines (n : Node) (inNav : Bool) : (left level : Nat) → List Node → List (Nat×NavLink)
  | 0,_,_ => []
  | left+1,level,list => list.flatMap fun c =>
    if inNav∧c.page.navHidden then []
    else (level,link n.base c)::
      if 0 < left∧¬(inNav∧c.page.navHideChildren)
      then mdLines n inNav left (level+1) (b.tree.children c) else []

def mdEscape (s : Bytes) : Bytes :=
  s.flatMap fun c => if (ascii "\\[]*_`<").contains c then [0x5c,c] else [c]

/-- The links of a placeholder of children, or of the whole site. -/
def children (n : Node) : List (Nat×NavLink) := b.mdLines n false 1 0 (b.tree.children n)

def nav (n : Node) : List (Nat×NavLink) :=
  b.mdLines n true maxDepth 0 ((b.top.map b.tree.children).getD [])

def mdList (lines : List (Nat×NavLink)) : Bytes :=
  if lines=[] then []
  else ascii "\n\n"++lines.flatMap (fun (level,l) => (List.replicate level (ascii "  ")).flatten++
    ascii "- ["++mdEscape l.title++ascii "]("++l.href++ascii ")\n")++ascii "\n"

end Build

structure File where
  path : Bytes
  data : Bytes
  cardID : Int

structure Result where
  files : List File
  attachments : List FileRef
  warnings : List Warning
  pageCount : Nat

namespace Build

variable (b : Build)

/-- A page too large is published without its text. -/
def execute (title : Bytes) (v : View) : Except ExecErr (Bytes×List Warning) :=
  match b.g.execute v with
  | .ok out => .ok (out,[])
  | .error .tooLarge =>
    if v.content≠[] then
      (b.g.execute { v with content := [], headings := [] }).map fun out => (out,[.tooLarge title])
    else .error .tooLarge
  | .error err => .error err

def renderPage (n : Node) (pages k : Nat) : Except ExecErr (File×List Warning) :=
  (b.execute n.page.title (b.pageOf n pages k).2).map fun (out,warnings) =>
    (⟨(b.pageOf n pages k).1,out,n.page.id⟩,warnings)

def renderPages (n : Node) : Except ExecErr (List File×List Warning) :=
  let (pages,warning) := b.pageCount n
  ((List.range pages).mapM fun i => b.renderPage n pages (i+1)).map fun out =>
    (out.map Prod.fst,warning.toList++out.flatMap Prod.snd)

end Build

/-- Replaced with the site root's path when the page is served. -/
def NotFoundBase : Bytes := ascii "__KITP_SITE_BASE__"

namespace Build

variable (b : Build)

def notFoundView : View :=
  { b.siteView NotFoundBase with
    title := ascii "Page not found"
    kind := .notfound
    content := ascii "<p class=\"empty\">There's no page at this address. It may have moved, or not be published here.</p>"
    nav := (b.top.map fun n => b.navItems none NotFoundBase maxDepth (b.tree.children n)).getD [] }

def emptyView : View :=
  { b.siteView [] with
    title := ascii "Nothing published yet"
    kind := .empty
    isHome := true
    rootCurrent := true
    content := ascii "<p class=\"empty\">Nothing has been published to this site yet.</p>" }

def themeFiles : List File :=
  (b.site.theme.assets.mergeSort fun x y => x.1≤y.1).map (fun a => ⟨ascii "_theme/"++a.1,a.2,0⟩)++
    [⟨ascii "_theme/custom.css",b.site.theme.customCSS,0⟩]

def renderEmpty (warnings : List Warning) : Except ExecErr Result :=
  match b.g.execute b.emptyView,b.g.execute b.notFoundView with
  | .ok empty,.ok out =>
    .ok ⟨[⟨index,empty,0⟩,⟨ascii "404.html",out,0⟩]++b.themeFiles,[],warnings,0⟩
  | .error err,_ => .error err
  | _,.error err => .error err

end Build

/-- The tree of a site with a root page. -/
def rootOf (s : Site) : Option Page :=
  if s.rootID=0 then none else s.pages.find? fun p => p.id=s.rootID

def treeOf (g : Renderer) (s : Site) : Tree :=
  match rootOf s with
  | none => ⟨[],[],[],[]⟩
  | some root => placeSite g.toLower s root

def buildOf (g : Renderer) (s : Site) : Build :=
  ⟨g,s,treeOf g s,(renderBodies g s (treeOf g s)).2⟩

/-- `Render`. -/
def Render (g : Renderer) (s : Site) : Except ExecErr Result :=
  let b := buildOf g s
  match rootOf s with
  | none =>
    let titles := (s.pages.map Page.title).mergeSort fun x y => x≤y
    b.renderEmpty (if s.rootID=0 then [.noRoot]
      else .rootUnpublished::if s.pages≠[] then [.elsewhere titles] else [])
  | some _ =>
    let moved := (s.pages.filter Page.moved).map fun p => Warning.moved p.title
    (b.tree.all.mapM b.renderPages).bind fun pages =>
      (b.g.execute b.notFoundView).map fun out =>
        ⟨pages.flatMap Prod.fst++[⟨ascii "404.html",out,0⟩]++b.themeFiles,
          (renderBodies g s b.tree).1.attachments,
          moved++b.tree.warnings++pages.flatMap Prod.snd,b.tree.all.length⟩

end Kitp.SiteRender
