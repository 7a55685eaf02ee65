import Kitp.Lib.Bounded
import Kitp.Lib.UrlPaths
import Mathlib.Data.List.TakeWhile

/-! The web client's routes: `matchRoute`, and the URLs its builders make. -/
namespace Kitp.Router
open Kitp.PercentText Kitp.UrlPaths

inductive RouteName where
  | projects
  | project
  | screen
  | task
  | page
  | thread
  | site
  | activity
  | account
  | watchLists
  | myScreen
  | myScreens
  | agents
  | admin
  | notfound
  deriving DecidableEq

structure RouteMatch where
  name : RouteName
  params : List (Text×Text)
  path : Text
  deriving DecidableEq

structure RoutePattern where
  pattern : String
  name : RouteName

/-- First match wins. -/
def routes : List RoutePattern :=
  [⟨"/",.projects⟩,⟨"/projects",.projects⟩,⟨"/project/:id",.project⟩,
    ⟨"/project/:id/screen/:slug",.screen⟩,⟨"/task/:id",.task⟩,⟨"/page/:id",.page⟩,
    ⟨"/thread/:id",.thread⟩,⟨"/site/:id",.site⟩,⟨"/activity",.activity⟩,⟨"/account",.account⟩,
    ⟨"/watch-lists",.watchLists⟩,⟨"/my/:id",.myScreen⟩,⟨"/my-screens",.myScreens⟩,
    ⟨"/agents",.agents⟩,⟨"/admin/:key",.admin⟩]

/-- `split('/').filter(Boolean)`. -/
def segments (p : Text) : List Text := (p.splitOn '/').filter (·≠[])

/-- The loop over the parts: the outer none is a throw of `decodeURIComponent`, the inner one no
match. -/
def matchParts : List (Text×Text) → Option (Option (List (Text×Text)))
  | [] => some (some [])
  | (pp,pv)::parts =>
    if pp.head?=some ':' then
      (decodeURIComponent pv).bind fun v => (matchParts parts).map (·.map ((pp.tail,v)::·))
    else if pp≠pv then some none
    else matchParts parts

def matchPattern (patParts pathParts : List Text) : Option (Option (List (Text×Text))) :=
  if patParts.length≠pathParts.length then some none else matchParts (patParts.zip pathParts)

def matchRoutes (p : Text) : List RoutePattern → Option RouteMatch
  | [] => some ⟨.notfound,[],p⟩
  | r::rs =>
    match matchPattern (segments r.pattern.toList) (segments p) with
    | none => none
    | some none => matchRoutes p rs
    | some (some params) => some ⟨r.name,params,p⟩

/-- Query, hash and a trailing slash are dropped. -/
def normalised (pathname : Text) : Text :=
  let p := ((if pathname=[] then ['/'] else pathname).takeWhile (· ≠ '?')).takeWhile (· ≠ '#')
  if 1<p.length∧p.getLast?=some '/' then p.dropLast else p

/-- None where it throws. -/
def matchRoute (pathname : Text) : Option RouteMatch := matchRoutes (normalised pathname) routes

/-- `id.toString()`. -/
def idText (id : Nat) : Text := Nat.toDigits 10 id

def projectUrl (id : Nat) : Text := "/project/".toList++idText id

def screenUrl (id : Nat) (slug : Text) : Text :=
  "/project/".toList++idText id++"/screen/".toList++slug

def taskUrl (id : Nat) : Text := "/task/".toList++idText id

def pageUrl (id : Nat) : Text := "/page/".toList++idText id

def threadUrl (id : Nat) : Text := "/thread/".toList++idText id

def siteRouteUrl (portalId : Nat) : Text := "/site/".toList++idText portalId

def adminUrl (key : Text) : Text := "/admin/".toList++key

/-- The URL, read by the browser, is matched as this route with these parameters. -/
def Back (url : Text) (name : RouteName) (params : List (Text×Text)) : Prop :=
  ∃ p r, browserPathname url=some p∧matchRoute p=some r∧r.name=name∧r.params=params

/-- The routes of two segments: the first of them, and what the second one is captured as. -/
def captured : List (Text×RouteName×Text) :=
  [("project".toList,.project,"id".toList),("task".toList,.task,"id".toList),
    ("page".toList,.page,"id".toList),("thread".toList,.thread,"id".toList),
    ("site".toList,.site,"id".toList),("my".toList,.myScreen,"id".toList),
    ("admin".toList,.admin,"key".toList)]

/-- Each captured segment of the pathname spells a text. -/
def Captures (pathname : Text) : Prop :=
  match segments (normalised pathname) with
  | [a,v] => a∈captured.map (·.1) → ∃ t, Spelled t v
  | [a,v,w,x] => a="project".toList → (∃ t, Spelled t v)∧(w="screen".toList → ∃ t, Spelled t x)
  | _ => True

variable {p s e : Text} {c : Char}

theorem segments_append (s t : Text) : segments (s++ '/'::t)=segments s++segments t := by
  rw [segments,List.splitOn_append_cons_self,List.filter_append]
  rfl

theorem segments_whole (h : ∀ c∈e, c ≠ '/') : segments e=if e=[] then [] else [e] := by
  have hone : e.splitOn '/'=[e] := List.splitOnP_eq_singleton fun c hc => by simpa using h c hc
  rw [segments,hone]
  split <;> simp_all

/-- The segments of a path are those it was made of. -/
theorem segments_flatMap {segs : List Text} (h : ∀ e∈segs, ∀ c∈e, c ≠ '/') :
    segments (segs.flatMap ('/'::·))=segs.filter (·≠[]) := by
  have hall (pre : Text) : segments (pre++segs.flatMap ('/'::·))=
      segments pre++segs.filter (·≠[]) := by
    induction segs generalizing pre with
    | nil => simp
    | cons e segs ih =>
      have hfirst : pre++(e::segs).flatMap ('/'::·)=(pre++ '/'::e)++segs.flatMap ('/'::·) := by simp
      rw [hfirst,ih (fun d hd => h d (List.mem_cons_of_mem _ hd)),segments_append,
        segments_whole (h e List.mem_cons_self)]
      by_cases he : e=[] <;> simp [he]
  exact hall []

/-- A slash at the end makes no segment. -/
theorem segments_dropLast (hp : p.getLast?=some '/') : segments p.dropLast=segments p := by
  obtain ⟨r,rfl⟩ := List.getLast?_eq_some_iff.mp hp
  have hnone : segments []=[] := rfl
  rw [List.dropLast_concat,segments_append,hnone,List.append_nil]

/-- A path of the browser keeps its segments. -/
theorem segments_normalised {segs : List Text}
    (h : ∀ e∈segs, ∀ c∈e, isSlash c=false∧endsPath c=false) :
    segments (normalised (segs.flatMap ('/'::·)))=segs.filter (·≠[]) := by
  have hslash : ∀ e∈segs, ∀ c∈e, c ≠ '/' := by
    rintro e he c hc rfl
    exact absurd (h e he '/' hc).1 (by decide)
  have hplain : ∀ c∈segs.flatMap ('/'::·), c ≠ '?' ∧ c ≠ '#' := by
    intro c hc
    obtain ⟨e,he,hc⟩ := List.mem_flatMap.mp hc
    cases List.mem_cons.mp hc with
    | inl hc =>
      rw [hc]
      decide
    | inr hc =>
      have hends := (h e he c hc).2
      constructor
      · rintro rfl
        exact absurd hends (by decide)
      · rintro rfl
        exact absurd hends (by decide)
  have htake (q : Text) (hq : ∀ c∈q, c ≠ '?' ∧ c ≠ '#') :
      (q.takeWhile (· ≠ '?')).takeWhile (· ≠ '#')=q := by
    have hquery : q.takeWhile (· ≠ '?')=q := List.takeWhile_eq_self_iff.mpr fun c hc => by
      simpa using (hq c hc).1
    rw [hquery]
    exact List.takeWhile_eq_self_iff.mpr fun c hc => by simpa using (hq c hc).2
  have hparts := segments_flatMap hslash
  unfold normalised
  split
  · rename_i hempty
    rw [hempty] at hparts
    rw [← hparts]
    rfl
  · rw [htake _ hplain]
    dsimp only
    split
    · rename_i hlast
      rw [segments_dropLast hlast.2,hparts]
    · exact hparts

/-- The loop over the table, the parts of its patterns computed. -/
def matchTable (p : Text) (parts : List Text) : List (List Text×RouteName) → Option RouteMatch
  | [] => some ⟨.notfound,[],p⟩
  | (pattern,name)::rows =>
    match matchPattern pattern parts with
    | none => none
    | some none => matchTable p parts rows
    | some (some params) => some ⟨name,params,p⟩

def table : List (List Text×RouteName) :=
  (([[],["projects"],["project",":id"],["project",":id","screen",":slug"],["task",":id"],
    ["page",":id"],["thread",":id"],["site",":id"],["activity"],["account"],["watch-lists"],
    ["my",":id"],["my-screens"],["agents"],["admin",":key"]] : List (List String)).map
      (·.map String.toList)).zip (routes.map (·.name))

/-! The rows of the table. -/

theorem table_rows : table=routes.map fun r => (segments r.pattern.toList,r.name) := by
  decide +kernel

theorem table_two :
    table.filter (·.1.length=2)=captured.map fun c => ([c.1,':'::c.2.2],c.2.1) := by
  decide

theorem table_four : table.filter (·.1.length=4)=
    [(["project".toList,':'::"id".toList,"screen".toList,':'::"slug".toList],.screen)] := by
  decide

theorem table_other : ∀ row∈table, row.1.length≠2 → row.1.length≠4 →
    row.2≠.screen∧row.2≠.admin∧row.1.length≤1∧∀ pp∈row.1, pp.head?≠some ':' := by
  decide

theorem captured_rows : ∀ c∈captured, c.1.head?≠some ':' ∧c.2.1≠.screen := by decide

/-- What was matched: a route of two segments, a screen, or neither a screen nor an admin page. -/
inductive Matched (p : Text) : RouteMatch → Prop where
  | two {a v key x : Text} {name : RouteName} : segments (normalised p)=[a,v] →
      captured.lookup a=some (name,key) → Spelled x v → Matched p ⟨name,[(key,x)],normalised p⟩
  | screen {v x i t : Text} :
      segments (normalised p)=["project".toList,v,"screen".toList,x] → Spelled t x →
      Matched p ⟨.screen,[("id".toList,i),("slug".toList,t)],normalised p⟩
  | other {r : RouteMatch} : r.name≠.screen → r.name≠.admin → Matched p r

theorem matchRoutes_table : matchRoutes p routes=matchTable p (segments p) table := by
  have hloop (rs : List RoutePattern) : matchRoutes p rs=
      matchTable p (segments p) (rs.map fun r => (segments r.pattern.toList,r.name)) := by
    induction rs with
    | nil => rfl
    | cons r rs ih =>
      rw [matchRoutes,List.map_cons,matchTable,ih]
  rw [table_rows,hloop]

/-- A row of another length doesn't match. -/
theorem matchPattern_length {pattern parts : List Text} (h : pattern.length≠parts.length) :
    matchPattern pattern parts=some none := if_pos h

theorem matchTable_filter (parts : List Text) (rows : List (List Text×RouteName)) :
    matchTable p parts rows=matchTable p parts (rows.filter (·.1.length=parts.length)) := by
  induction rows with
  | nil => rfl
  | cons row rows ih =>
    by_cases hlen : row.1.length=parts.length
    · rw [List.filter_cons_of_pos (by simpa using hlen),matchTable,matchTable,ih]
    · rw [List.filter_cons_of_neg (by simpa using hlen),matchTable,matchPattern_length hlen]
      exact ih

/-- Two segments: the first one chooses the route. -/
theorem match_two (a v : Text) : matchTable p [a,v] table=
    match captured.lookup a with
    | none => some ⟨.notfound,[],p⟩
    | some c => (decodeURIComponent v).map fun x => ⟨c.1,[(c.2,x)],p⟩ := by
  have hloop (cs : List (Text×RouteName×Text)) (hcs : ∀ c∈cs, c.1.head?≠some ':') :
      matchTable p [a,v] (cs.map fun c => ([c.1,':'::c.2.2],c.2.1))=
        match cs.lookup a with
        | none => some ⟨.notfound,[],p⟩
        | some c => (decodeURIComponent v).map fun x => ⟨c.1,[(c.2,x)],p⟩ := by
    induction cs with
    | nil => rfl
    | cons c cs ih =>
      have hlit := hcs c List.mem_cons_self
      have hrest := ih fun d hd => hcs d (List.mem_cons_of_mem _ hd)
      by_cases ha : c.1=a
      · subst ha
        have hrow : matchPattern [c.1,':'::c.2.2] [c.1,v]=
            (decodeURIComponent v).map fun x => some [(c.2.2,x)] := by
          cases hv : decodeURIComponent v <;> simp [matchPattern,matchParts,hlit,hv]
        have hlookup : (c::cs).lookup c.1=some c.2 := List.lookup_cons_self
        rw [List.map_cons,matchTable,hrow,hlookup]
        cases decodeURIComponent v <;> rfl
      · have hrow : matchPattern [c.1,':'::c.2.2] [a,v]=some none := by
          simp [matchPattern,matchParts,hlit,ha]
        have hlookup : (c::cs).lookup a=cs.lookup a := by
          have hne : (a==c.1)=false := by simpa using Ne.symm ha
          exact List.lookup_cons.trans (by rw [hne])
        rw [List.map_cons,matchTable,hrow,hlookup]
        exact hrest
  have hlen : [a,v].length=2 := rfl
  rw [matchTable_filter,hlen,table_two,hloop captured fun c hc => (captured_rows c hc).1]

/-- A pattern of four parts, each second one captured. -/
theorem matchPattern_four {lit word key last : Text} (h : lit.head?≠some ':')
    (h' : word.head?≠some ':') (a v w x : Text) :
    matchPattern [lit,':'::key,word,':'::last] [a,v,w,x]=
      if a=lit then
        (decodeURIComponent v).bind fun i =>
          if w=word then (decodeURIComponent x).map fun t => some [(key,i),(last,t)]
          else some none
      else some none := by
  by_cases ha : a=lit
  · cases hv : decodeURIComponent v with
    | none => simp [matchPattern,matchParts,ha,h,hv]
    | some i =>
      by_cases hw : w=word
      · cases hx : decodeURIComponent x <;> simp [matchPattern,matchParts,ha,h,hv,hw,h',hx]
      · simp [matchPattern,matchParts,ha,h,hv,hw,h',Ne.symm hw]
  · simp [matchPattern,matchParts,ha,h,Ne.symm ha]

/-- Four segments: a screen of a project. -/
theorem match_four (a v w x : Text) : matchTable p [a,v,w,x] table=
    if a="project".toList then
      (decodeURIComponent v).bind fun i =>
        if w="screen".toList then
          (decodeURIComponent x).map fun t => ⟨.screen,[("id".toList,i),("slug".toList,t)],p⟩
        else some ⟨.notfound,[],p⟩
    else some ⟨.notfound,[],p⟩ := by
  have hlits : "project".toList.head?≠some ':' ∧ "screen".toList.head?≠some ':' := by decide
  have hlen : [a,v,w,x].length=4 := rfl
  rw [matchTable_filter,hlen,table_four,matchTable,matchPattern_four hlits.1 hlits.2]
  by_cases ha : a="project".toList
  · rw [if_pos ha,if_pos ha]
    cases decodeURIComponent v with
    | none => rfl
    | some i =>
      by_cases hw : w="screen".toList
      · rw [Option.bind_some,Option.bind_some,if_pos hw,if_pos hw]
        cases decodeURIComponent x <;> rfl
      · rw [Option.bind_some,Option.bind_some,if_neg hw,if_neg hw]
        rfl
  · rw [if_neg ha,if_neg ha]
    rfl

/-- Any other number of segments captures nothing. -/
theorem match_other {parts : List Text} (h2 : parts.length≠2) (h4 : parts.length≠4) :
    ∃ r, matchTable p parts table=some r∧r.name≠.screen∧r.name≠.admin := by
  have hloop (rows : List (List Text×RouteName)) (hr : ∀ row∈rows, row.1.length=parts.length →
      row.2≠.screen∧row.2≠.admin∧row.1.length≤1∧∀ pp∈row.1, pp.head?≠some ':') :
      ∃ r, matchTable p parts rows=some r∧r.name≠.screen∧r.name≠.admin := by
    induction rows with
    | nil => exact ⟨_,rfl,nofun,nofun⟩
    | cons row rows ih =>
      obtain ⟨pattern,name⟩ := row
      have hrest := ih fun d hd => hr d (List.mem_cons_of_mem _ hd)
      by_cases hlen : pattern.length=parts.length
      · obtain ⟨hscreen,hadmin,hshort,hplain⟩ := hr (pattern,name) List.mem_cons_self hlen
        have hrow : matchPattern pattern parts=some none∨matchPattern pattern parts=some (some []) := by
          cases pattern with
          | nil =>
            have hnil : parts=[] := List.eq_nil_of_length_eq_zero hlen.symm
            exact .inr (by rw [hnil]; rfl)
          | cons pp more =>
            have hmore : more=[] := List.eq_nil_of_length_eq_zero (by simpa using hshort)
            subst hmore
            obtain ⟨pv,rfl⟩ := List.length_eq_one_iff.mp hlen.symm
            have hlit := hplain pp List.mem_cons_self
            by_cases hpp : pp=pv
            · subst hpp
              exact .inr (by simp [matchPattern,matchParts,hlit])
            · exact .inl (by simp [matchPattern,matchParts,hlit,hpp])
        rw [matchTable]
        cases hrow with
        | inl hrow =>
          rw [hrow]
          exact hrest
        | inr hrow =>
          rw [hrow]
          exact ⟨_,rfl,hscreen,hadmin⟩
      · rw [matchTable,matchPattern_length hlen]
        exact hrest
  apply hloop table
  intro row hrow hlen
  exact table_other row hrow (hlen ▸ h2) (hlen ▸ h4)

theorem digits_joinable (id : Nat) : Joinable (idText id)∧Literal (idText id) := by
  have hdigit : ∀ c∈idText id, 48 ≤ c.toNat∧c.toNat≤57 := by
    intro c hc
    have hc := Nat.isDigit_of_mem_toDigits (by decide) (by decide) hc
    simpa [Char.isDigit,UInt32.le_iff_toNat_le] using hc
  have hdot : ∀ c∈idText id, c ≠ '.' ∧c ≠ '%' := by
    intro c hc
    have hrange := hdigit c hc
    constructor
    · rintro rfl
      exact absurd hrange.1 (by decide)
    · rintro rfl
      exact absurd hrange.1 (by decide)
  constructor
  · refine ⟨?_,?_,?_,?_⟩
    · intro c hc
      have := hdigit c hc
      simp only [List.mem_cons,List.not_mem_nil,or_false,not_or]
      omega
    · intro c hc
      have := hdigit c (List.mem_of_getLast? hc)
      omega
    · intro heq
      exact (hdot '.' (by simp [heq])).1 rfl
    · intro heq
      exact (hdot '.' (by simp [heq])).1 rfl
  · refine ⟨Nat.toDigits_ne_nil,fun c hc => ?_⟩
    have hrange := hdigit c hc
    have hplain := hdot c hc
    refine ⟨?_,?_,?_,hplain⟩
    · simp only [inPathSet,decide_eq_false_iff_not,List.mem_cons,List.not_mem_nil,or_false,not_or]
      omega
    · simp only [isSlash,decide_eq_false_iff_not,not_or]
      omega
    · simp only [endsPath,decide_eq_false_iff_not,not_or]
      omega

/-- The segments that `matchRoute` sees of literal ones with a text joined behind them. -/
theorem joined_segments {lits : List Text} (hne : lits≠[]) (h : ∀ l∈lits, Literal l) (t : Text) :
    ∃ p, browserPathname ('/'::lits.flatMap (·++['/'])++t)=some p∧
      segments (normalised p)=((pathState lits.reverse [] (cut t)).filter (·≠[])).reverse := by
  refine ⟨_,browserPathname_joined hne h,?_⟩
  rw [segments_normalised,List.filter_reverse]
  intro e he
  apply pathState_separators ?_ e (List.mem_reverse.mp he)
  intro l hl c hc
  have hlit := (h l (List.mem_reverse.mp hl)).chars c hc
  exact ⟨hlit.2.1,hlit.2.2.1⟩

theorem matchRoute_table (p : Text) :
    matchRoute p=matchTable (normalised p) (segments (normalised p)) table := matchRoutes_table

theorem written_ne (h : Spelled s e) (hs : s≠[]) : e≠[] := by
  rintro rfl
  exact hs (h.unique .nil)

/-- A joinable text behind the first segment of a two-segment route. -/
theorem back_two {a t key : Text} {name : RouteName} (ha : Literal a)
    (hroute : captured.lookup a=some (name,key)) (ht : t≠[]) (hj : Joinable t) :
    Back ('/'::[a].flatMap (·++['/'])++t) name [(key,t)] := by
  obtain ⟨p,hp,hparts⟩ := joined_segments (List.cons_ne_nil a []) (by simpa using ha) t
  obtain ⟨hlast,hspelled⟩ := hj.last_segment [a]
  have hne := written_ne hspelled ht
  have hanil := ha.nonempty
  have htwo : segments (normalised p)=[a,writePath t] := by
    rw [hparts,List.reverse_singleton,hlast]
    simp [hne,hanil]
  have hmatch : matchRoute p=some ⟨name,[(key,t)],normalised p⟩ := by
    rw [matchRoute_table,htwo,match_two,hroute]
    dsimp only
    rw [decode_iff.mpr hspelled]
    rfl
  exact ⟨p,_,hp,hmatch,rfl,rfl⟩

theorem four_segments {parts : List Text} (h : parts.length=4) : ∃ a v w x, parts=[a,v,w,x] := by
  match parts,h with
  | [a,v,w,x],_ => exact ⟨a,v,w,x,rfl⟩

theorem matched_of_route {r : RouteMatch} (h : matchRoute p=some r) : Matched p r := by
  have hnone : Matched p ⟨.notfound,[],normalised p⟩ := .other nofun nofun
  rw [matchRoute_table] at h
  by_cases h2 : (segments (normalised p)).length=2
  · obtain ⟨a,v,htwo⟩ := List.length_eq_two.mp h2
    rw [htwo,match_two] at h
    split at h
    · cases h
      exact hnone
    · rename_i c hc
      obtain ⟨x,hx,rfl⟩ := Option.map_eq_some_iff.mp h
      exact .two htwo hc (decode_iff.mp hx)
  · by_cases h4 : (segments (normalised p)).length=4
    · obtain ⟨a,v,w,x,hfour⟩ := four_segments h4
      rw [hfour,match_four] at h
      split at h
      · rename_i ha
        obtain ⟨i,-,h⟩ := Option.bind_eq_some_iff.mp h
        split at h
        · rename_i hw
          obtain ⟨t,ht,rfl⟩ := Option.map_eq_some_iff.mp h
          rw [ha,hw] at hfour
          exact .screen hfour (decode_iff.mp ht)
        · cases h
          exact hnone
      · cases h
        exact hnone
    · obtain ⟨m,hm,hscreen,hadmin⟩ := match_other (p := normalised p) h2 h4
      have hmr := Option.some.inj (hm.symm.trans h)
      subst hmr
      exact .other hscreen hadmin

theorem captured_name {a : Text} {c : RouteName×Text} (h : captured.lookup a=some c) :
    c.1≠.screen := by
  obtain ⟨l₁,l₂,hsplit,-⟩ := List.lookup_eq_some_iff.mp h
  exact (captured_rows (a,c) (by simp [hsplit])).2

/-- `matchRoute` returns exactly when every captured segment spells a text. -/
theorem captures_iff : (∃ r, matchRoute p=some r)↔Captures p := by
  have hfound : ∀ {m : Option Text} {e : Text}, m=decodeURIComponent e →
      (m.isSome↔∃ t, Spelled t e) := by
    rintro m e rfl
    rw [Option.isSome_iff_exists]
    exact exists_congr fun t => decode_iff
  rw [← Option.isSome_iff_exists,matchRoute_table,Captures]
  by_cases h2 : (segments (normalised p)).length=2
  · obtain ⟨a,v,htwo⟩ := List.length_eq_two.mp h2
    rw [htwo,match_two]
    cases hlookup : captured.lookup a with
    | none =>
      have hnot : a∉captured.map (·.1) := by
        intro ha
        obtain ⟨c,hc,rfl⟩ := List.mem_map.mp ha
        have hmiss := List.lookup_eq_none_iff.mp hlookup c hc
        simp at hmiss
      simp [hnot]
    | some c =>
      have hmem : a∈captured.map (·.1) := by
        obtain ⟨l₁,l₂,hsplit,-⟩ := List.lookup_eq_some_iff.mp hlookup
        simp [hsplit]
      simp only [Option.isSome_map,hfound rfl,hmem,true_implies]
  · by_cases h4 : (segments (normalised p)).length=4
    · obtain ⟨a,v,w,x,hfour⟩ := four_segments h4
      rw [hfour,match_four]
      by_cases ha : a="project".toList
      · rw [if_pos ha]
        have hv := hfound (m := decodeURIComponent v) rfl
        have hx := hfound (m := decodeURIComponent x) rfl
        simp only [ha,true_implies,← hv,← hx]
        cases decodeURIComponent v with
        | none => simp only [Option.bind_none,Option.isSome_none,Bool.false_eq_true,false_and]
        | some i =>
          by_cases hw : w="screen".toList
          · simp only [hw,if_true,Option.bind_some,Option.isSome_map,Option.isSome_some,true_implies,
              true_and]
          · simp only [hw,if_false,Option.bind_some,Option.isSome_some,false_implies,and_self]
      · simp only [ha,if_false,Option.isSome_some,false_implies]
    · obtain ⟨m,hm,-⟩ := match_other (p := normalised p) h2 h4
      rw [hm]
      generalize segments (normalised p)=parts at h2 h4
      match parts,h2,h4 with
      | [],_,_ => simp
      | [_],_,_ => simp
      | [_,_],h2,_ => exact absurd rfl h2
      | [_,_,_],_,_ => simp
      | [_,_,_,_],_,h4 => exact absurd rfl h4
      | _::_::_::_::_::_,_,_ => simp

/-- The segments of a path that was made by joining a text, its last one read back. -/
theorem joinable_of_segments {lits parts : List Text} {t x : Text} (hne : lits≠[])
    (h : ∀ l∈lits, Literal l) (ht : t≠[])
    (hp : browserPathname ('/'::lits.flatMap (·++['/'])++t)=some p)
    (hparts : segments (normalised p)=parts++[x]) (hlen : lits.length≤parts.length)
    (hread : Spelled t x) : Joinable t := by
  obtain ⟨q,hq,hq'⟩ := joined_segments hne h t
  have hpq : p=q := Option.some.inj (hp.symm.trans hq)
  subst hpq
  have hfilter : (pathState lits.reverse [] (cut t)).filter (·≠[])=x::parts.reverse := by
    have := congrArg List.reverse (hq'.symm.trans hparts)
    simpa using this
  exact joinable_of_last ht hfilter (by simpa using hlen) hread

theorem admin_joined (key : Text) : adminUrl key = '/'::["admin".toList].flatMap (·++['/'])++key := rfl

theorem back_admin {key : Text} (hkey : key≠[]) :
    Back (adminUrl key) .admin [("key".toList,key)]↔Joinable key := by
  have hlit : Literal "admin".toList := ⟨by decide,by decide⟩
  rw [admin_joined]
  constructor
  · intro h
    obtain ⟨p,r,hp,hr,hname,hparams⟩ := h
    cases matched_of_route hr with
    | two htwo _ hread =>
      have hx := (Prod.mk.inj (List.cons.inj hparams).1).2
      rename_i a v _ _ _ _
      have hsplit : segments (normalised p)=[a]++[v] := htwo
      exact joinable_of_segments (List.cons_ne_nil _ []) (by simpa using hlit) hkey hp hsplit
        (Nat.le_refl 1) (hx ▸ hread)
    | screen _ _ => cases hname
    | other _ hadmin => exact absurd hname hadmin
  · intro h
    exact back_two hlit (by decide) hkey h

theorem screen_joined (d slug : Text) : "/project/".toList++d++"/screen/".toList++slug=
    '/'::["project".toList,d,"screen".toList].flatMap (·++['/'])++slug := by
  have hfront : "/project/".toList = '/'::("project".toList++['/']) := by decide
  have hback : "/screen/".toList = '/'::("screen".toList++['/']) := by decide
  rw [hfront,hback,List.flatMap_cons,List.flatMap_cons,List.flatMap_singleton]
  simp only [List.append_assoc,List.cons_append,List.nil_append]

theorem back_four {d slug : Text} (hd : Joinable d) (hlit : Literal d) (hslug : slug≠[]) :
    Back ('/'::["project".toList,d,"screen".toList].flatMap (·++['/'])++slug) .screen
      [("id".toList,d),("slug".toList,slug)]↔Joinable slug := by
  have hproject : Literal "project".toList := ⟨by decide,by decide⟩
  have hscreen : Literal "screen".toList := ⟨by decide,by decide⟩
  have hlits : ∀ l∈["project".toList,d,"screen".toList], Literal l := by
    intro l hl
    simp only [List.mem_cons,List.not_mem_nil,or_false] at hl
    rcases hl with rfl | rfl | rfl
    · exact hproject
    · exact hlit
    · exact hscreen
  have hne : ["project".toList,d,"screen".toList]≠[] := List.cons_ne_nil _ _
  constructor
  · intro h
    obtain ⟨p,r,hp,hr,hname,hparams⟩ := h
    cases matched_of_route hr with
    | two _ hlookup _ => exact absurd hname (captured_name hlookup)
    | screen hfour hread =>
      rename_i v x _ _
      have hx := (Prod.mk.inj (List.cons.inj (List.cons.inj hparams).2).1).2
      have hsplit : segments (normalised p)=["project".toList,v,"screen".toList]++[x] := hfour
      exact joinable_of_segments hne hlits hslug hp hsplit (Nat.le_refl 3) (hx ▸ hread)
    | other hnot _ => exact absurd hname hnot
  · intro h
    obtain ⟨p,hp,hparts⟩ := joined_segments hne hlits slug
    obtain ⟨hlast,hspelled⟩ := h.last_segment ["screen".toList,d,"project".toList]
    have hread : Spelled d d := by
      have := writePath_spelled hd.no_percent
      rwa [hlit.written] at this
    have hfour : segments (normalised p)=["project".toList,d,"screen".toList,writePath slug] := by
      have hrev : ["project".toList,d,"screen".toList].reverse=
          ["screen".toList,d,"project".toList] := rfl
      have hkeep : ∀ e∈[writePath slug,"screen".toList,d,"project".toList], decide (e≠[]) := by
        simp only [List.forall_mem_cons,decide_eq_true_eq]
        exact ⟨written_ne hspelled hslug,hscreen.nonempty,hlit.nonempty,hproject.nonempty,nofun⟩
      rw [hparts,hrev,hlast,List.filter_eq_self.mpr hkeep]
      rfl
    have hmatch : matchRoute p=
        some ⟨.screen,[("id".toList,d),("slug".toList,slug)],normalised p⟩ := by
      rw [matchRoute_table,hfour,match_four,if_pos rfl,decode_iff.mpr hread,
        decode_iff.mpr hspelled]
      rfl
    exact ⟨p,_,hp,hmatch,rfl,rfl⟩

theorem back_screen (id : Nat) {slug : Text} (hslug : slug≠[]) :
    Back (screenUrl id slug) .screen [("id".toList,idText id),("slug".toList,slug)]↔
      Joinable slug := by
  have hid := digits_joinable id
  have hurl : screenUrl id slug=_ := screen_joined (idText id) slug
  rw [hurl]
  exact back_four hid.1 hid.2 hslug

theorem back_id {front a key : Text} {name : RouteName} (id : Nat)
    (hfront : front = '/'::[a].flatMap (·++['/'])) (ha : Literal a)
    (hroute : captured.lookup a=some (name,key)) : Back (front++idText id) name [(key,idText id)] := by
  have hid := digits_joinable id
  rw [hfront]
  exact back_two ha hroute hid.2.nonempty hid.1

/-- The URLs of ids come back; that of a text does exactly when the text is joinable, and
`matchRoute` returns exactly when each captured segment spells a text. -/
theorem routes_back (id : Nat) (slug key pathname : Text) :
    (Back (projectUrl id) .project [("id".toList,idText id)]∧
      Back (taskUrl id) .task [("id".toList,idText id)]∧
      Back (pageUrl id) .page [("id".toList,idText id)]∧
      Back (threadUrl id) .thread [("id".toList,idText id)]∧
      Back (siteRouteUrl id) .site [("id".toList,idText id)])∧
    (slug≠[] → (Back (screenUrl id slug) .screen [("id".toList,idText id),("slug".toList,slug)]↔
      Joinable slug))∧
    (key≠[] → (Back (adminUrl key) .admin [("key".toList,key)]↔Joinable key))∧
    ((∃ r, matchRoute pathname=some r)↔Captures pathname) := by
  have hlit : ∀ a∈["project","task","page","thread","site"], Literal a.toList := by
    have hall : ∀ a∈["project","task","page","thread","site"], a.toList≠[]∧∀ c∈a.toList,
        inPathSet c=false∧isSlash c=false∧endsPath c=false∧c ≠ '.' ∧c ≠ '%' := by decide +kernel
    exact fun a ha => ⟨(hall a ha).1,(hall a ha).2⟩
  refine ⟨⟨?_,?_,?_,?_,?_⟩,back_screen id,back_admin,captures_iff⟩
  · exact back_id id (a := "project".toList) (by decide +kernel) (hlit "project" (by decide))
      (by decide +kernel)
  · exact back_id id (a := "task".toList) (by decide +kernel) (hlit "task" (by decide))
      (by decide +kernel)
  · exact back_id id (a := "page".toList) (by decide +kernel) (hlit "page" (by decide))
      (by decide +kernel)
  · exact back_id id (a := "thread".toList) (by decide +kernel) (hlit "thread" (by decide))
      (by decide +kernel)
  · exact back_id id (a := "site".toList) (by decide +kernel) (hlit "site" (by decide))
      (by decide +kernel)

theorem inbox_back : Back (screenUrl 7 "in box".toList) .screen
    [("id".toList,idText 7),("slug".toList,"in box".toList)] :=
  ((routes_back 7 "in box".toList [] []).2.1 (by decide)).mpr
    ⟨by decide,by decide,by decide⟩

/-- A slash in a slug makes another path, and a percent sign alone throws. -/
theorem slug_lost :
    (¬Back (screenUrl 42 "a/b".toList) .screen [("id".toList,idText 42),("slug".toList,"a/b".toList)])∧
      matchRoute "/task/%".toList=none := by
  have hpath : browserPathname (screenUrl 42 "a/b".toList)=
      some "/project/42/screen/a/b".toList := by decide
  have hmatch : matchRoute "/project/42/screen/a/b".toList=
      some ⟨.notfound,[],"/project/42/screen/a/b".toList⟩ := by decide
  refine ⟨?_,by decide⟩
  intro h
  obtain ⟨p,r,hp,hr,hname,-⟩ := h
  have hp := Option.some.inj (hpath.symm.trans hp)
  subst hp
  have hr := Option.some.inj (hmatch.symm.trans hr)
  subst hr
  cases hname

end Kitp.Router
