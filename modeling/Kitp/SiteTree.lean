import Kitp.Lib.AddrText
import Kitp.Lib.RelativeRefs
import Kitp.TrustedProxies

/-! The site tree of a portal: the pages published to it, placed below its root page. Texts are their
octets. -/
namespace Kitp.SiteRender

open Kitp.NetIP Kitp.TrustedProxies Kitp.RelativeRefs

structure Page where
  id : Int
  parentID : Int
  title : Bytes
  slug : Bytes
  sort : Rat
  publishedAt : Option Nat
  navHidden : Bool
  navHideChildren : Bool
  moved : Bool
  deriving DecidableEq

structure SiteFile where
  id : Int
  cardID : Int
  name : Bytes
  mime : Bytes
  size : Nat

/-- Navigation modes. -/
inductive Nav where
  | navFull
  | navSection
  | navCollapsible
  deriving DecidableEq

inductive Order where
  | orderSite
  | orderNewest
  deriving DecidableEq

/-- A resolved theme. Its published files are by path, all but the stylesheet every build writes. -/
structure Theme where
  nav : Nav
  paginate : Nat
  order : Order
  footer : Bytes
  assets : List (Bytes×Bytes)
  distinct : (assets.map Prod.fst).Nodup
  custom : ∀ data, (ascii "custom.css",data)∉assets
  customCSS : Bytes

structure Site where
  title : Bytes
  rootID : Int
  pages : List Page
  files : List SiteFile
  theme : Theme
  distinct : (pages.map Page.id).Nodup

/-- A build's warnings, but for those about bodies. -/
inductive Warning where
  | noRoot
  | rootUnpublished
  | elsewhere (titles : List Bytes)
  | moved (title : Bytes)
  | tooDeep (title : Bytes)
  | shared (title base seg : Bytes)
  | stray (titles : List Bytes)
  | unsplit (page list : Bytes)
  | tooLarge (page : Bytes)
  deriving DecidableEq

def maxDepth : Nat := 16

/-- A page placed in the site tree. -/
inductive Node where
  | top (page : Page)
  | child (page : Page) (path : Bytes) (depth : Nat) (parent : Node)
  deriving DecidableEq

def Node.page : Node → Page
  | .top page => page
  | .child page _ _ _ => page

def Node.path : Node → Bytes
  | .top _ => []
  | .child _ path _ _ => path

def Node.depth : Node → Nat
  | .top _ => 0
  | .child _ _ depth _ => depth

def Node.parent : Node → Option Node
  | .top _ => none
  | .child _ _ _ parent => some parent

def Node.rootRel (n : Node) : Bytes := if n.path=[] then [] else n.path++[0x2f]

def Node.base (n : Node) : Bytes := climb n.depth

def hrefAt (base rootRel : Bytes) : Bytes :=
  if rootRel=[] ∧ base=[] then ascii "./" else base++rootRel

def isSlugByte (b : UInt8) : Bool := 0x61≤b∧b≤0x7a∨0x30≤b∧b≤0x39

/-- Each run of octets not kept becomes a dash. -/
def stripRuns (keep : UInt8 → Bool) : (run : Bool) → Bytes → Bytes
  | _,[] => []
  | run,b::s =>
    if keep b then b::stripRuns keep false s
    else if run then stripRuns keep true s
    else 0x2d::stripRuns keep true s

/-- `strings.Trim` of a set of octets. -/
def trimSet (cut : UInt8 → Bool) (s : Bytes) : Bytes :=
  ((s.dropWhile cut).reverse.dropWhile cut).reverse

def formatInt (n : Int) : Bytes := if n < 0 then 0x2d::decimal n.natAbs else decimal n.natAbs

section
variable (toLower : Bytes → Bytes)

def slugify (s : Bytes) : Bytes :=
  let s := trimSet (·=0x2d) (stripRuns isSlugByte false (toLower (trimSpace s)))
  if 80 < s.length then trimSet (·=0x2d) (s.take 80) else s

def segment (c : Page) : Bytes :=
  if slugify toLower c.slug≠[] then slugify toLower c.slug
  else if slugify toLower c.title≠[] then slugify toLower c.title
  else ascii "page-"++formatInt c.id

/-- The order among siblings: sort value, title, number. -/
def pageLess (a b : Page) : Bool :=
  if a.sort≠b.sort then a.sort < b.sort
  else if toLower a.title≠toLower b.title then toLower a.title < toLower b.title
  else a.id < b.id

/-- `kids[parent]`. -/
def kids (s : Site) (parent : Int) : List Page :=
  (s.pages.filter fun p => ¬p.moved∧p.parentID=parent).mergeSort fun a b => ¬pageLess toLower b a

/-- From `seg` on, the first of `base-i`, `base-(i+1)`, … that isn't used. -/
def freshSegment (used : List Bytes) (base : Bytes) : (left i : Nat) → (seg : Bytes) → Bytes
  | 0,_,seg => seg
  | left+1,i,seg =>
    if seg∈used then freshSegment used base left (i+1) (base++0x2d::decimal i) else seg

/-- The renderer's tree: the nodes in the order they are placed, and the maps to them, the newest entry
first. -/
structure Tree where
  all : List Node
  byPath : List (Bytes×Node)
  byID : List (Int×Node)
  warnings : List Warning

def Tree.add (r : Tree) (n : Node) : Tree :=
  { r with all := r.all++[n], byPath := (n.path,n)::r.byPath, byID := (n.page.id,n)::r.byID }

def Tree.warn (r : Tree) (w : Warning) : Tree := { r with warnings := r.warnings++[w] }

def Tree.children (r : Tree) (n : Node) : List Node := r.all.filter fun c => c.parent=some n

def joinPath (path seg : Bytes) : Bytes := if path=[] then seg else path++0x2f::seg

/-- One child of `n` placed, under a segment not used by its siblings, and what is below it. -/
def placeChild (walk : Node → Tree → Tree) (n : Node) (p : Tree×List Bytes) (c : Page) :
    Tree×List Bytes :=
  let (r,used) := p
  -- a parent cycle: already placed
  if (r.byID.lookup c.id).isSome then (r,used)
  else
    let base := segment toLower c
    let seg := freshSegment used base (used.length+1) 2 base
    let r := if seg≠base then r.warn (.shared c.title base seg) else r
    let child := Node.child c (joinPath n.path seg) (n.depth+1) n
    (walk child (r.add child),seg::used)

/-- The walk below a node `left` levels above the deepest. -/
def place (s : Site) : (left : Nat) → (n : Node) → Tree → Tree
  | 0,n,r => if kids toLower s n.page.id≠[] then r.warn (.tooDeep n.page.title) else r
  | left+1,n,r =>
    ((kids toLower s n.page.id).foldl (placeChild toLower (place s left) n) (r,[])).1

def startTree (root : Page) : Tree := ⟨[.top root],[([],.top root)],[(root.id,.top root)],[]⟩

/-- `place` of the whole site. -/
def placeSite (s : Site) (root : Page) : Tree :=
  let r := place toLower s maxDepth (.top root) (startTree root)
  let stray := (s.pages.filter fun p => (r.byID.lookup p.id).isNone).map Page.title
  if stray≠[] then r.warn (.stray (stray.mergeSort fun a b => a≤b)) else r

end

end Kitp.SiteRender
