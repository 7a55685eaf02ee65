import Kitp.Lib.Utf8

/-! `calendar/ics.go` and the feed's render: what is written, octet by octet. -/
namespace Kitp.CalendarFeeds

open Kitp.Utf8

abbrev Bytes := List UInt8

def lit (s : String) : Bytes := encode s.toList

/-- `strings.NewReplacer`: at each position the first pair that is there, in the order given. The
count is what is left of a match. -/
def replace (pairs : List (Bytes×Bytes)) : Nat → Bytes → Bytes
  | _,[] => []
  | n+1,_::s => replace pairs n s
  | 0,b::s =>
    match pairs.find? (fun pair => pair.1.isPrefixOf (b::s)) with
    | none => b::replace pairs 0 s
    | some pair => pair.2++replace pairs (pair.1.length-1) s

def escapes : List (Bytes×Bytes) :=
  [([0x5C],[0x5C,0x5C]),([0x3B],[0x5C,0x3B]),([0x2C],[0x5C,0x2C]),([0x0D,0x0A],[0x5C,0x6E]),
    ([0x0A],[0x5C,0x6E]),([0x0D],[0x5C,0x6E])]

def escapeText (s : Bytes) : Bytes := replace escapes 0 s

/-- The last start of a character up to the limit. -/
def cutBack (s : Bytes) : Nat → Nat
  | 0 => 0
  | cut+1 => if runeStart (s.getD (cut+1) 0) then cut+1 else cutBack s cut

/-- The loop of `line`, for so many turns at most. -/
def fold : Nat → Nat → Bytes → Option Bytes
  | 0,_,_ => none
  | turns+1,limit,s =>
    if limit < s.length then
      let cut := cutBack s limit
      (fold turns 74 (s.drop cut)).map fun rest => s.take cut++[0x0D,0x0A,0x20]++rest
    else some (s++[0x0D,0x0A])

structure IcsWriter where
  b : Bytes

variable (turns : Nat)

def line (w : IcsWriter) (s : Bytes) : Option IcsWriter :=
  (fold turns 75 s).map fun out => ⟨w.b++out⟩

def prop (w : IcsWriter) (name value : Bytes) : Option IcsWriter :=
  line turns w (name++[0x3A]++value)

def text (w : IcsWriter) (name value : Bytes) : Option IcsWriter :=
  prop turns w name (escapeText value)

def decimal (n : Nat) : Bytes := encode (Nat.toDigits 10 n)

def itoa (n : Int) : Bytes := if n < 0 then 0x2D::decimal n.natAbs else decimal n.natAbs

def pad (width n : Nat) : Bytes :=
  List.replicate (width-(decimal n).length) 0x30++decimal n

structure Date where
  year : Nat
  month : Nat
  day : Nat

/-- An instant, as UTC shows it. -/
structure Stamp where
  date : Date
  hour : Nat
  minute : Nat
  second : Nat

def daysIn (year month : Nat) : Nat :=
  if month=2 then if year%4=0∧(year%100≠0∨year%400=0) then 29 else 28
  else if month=4∨month=6∨month=9∨month=11 then 30 else 31

/-- `AddDate(0, 0, 1)`. -/
def Date.next (d : Date) : Date :=
  if d.day < daysIn d.year d.month then { d with day := d.day+1 }
  else if d.month < 12 then ⟨d.year,d.month+1,1⟩
  else ⟨d.year+1,1,1⟩

def icsDate (d : Date) : Bytes := pad 4 d.year++pad 2 d.month++pad 2 d.day

def icsStamp (t : Stamp) : Bytes :=
  icsDate t.date++lit "T"++pad 2 t.hour++pad 2 t.minute++pad 2 t.second++lit "Z"

structure Event where
  taskID : Int
  due : Date
  title : Bytes
  project : Bytes
  status : Bytes
  terminal : Bool
  modified : Stamp

/-- What `render` reads of the request and the configuration. `https` is whether the request came by
TLS or says so in `X-Forwarded-Proto`. -/
structure Request where
  host : Bytes
  https : Bool
  publicURL : Bytes
  now : Stamp

def trimRight (s : Bytes) : Bytes := (s.reverse.dropWhile (·==0x2F)).reverse

def base (r : Request) : Bytes :=
  if r.publicURL≠[] then trimRight r.publicURL
  else (if r.https then lit "https" else lit "http")++lit "://"++r.host

/-- A call of `prop` or `text`. -/
inductive Entry where
  | prop (name value : Bytes)
  | text (name value : Bytes)

def Entry.name : Entry → Bytes
  | .prop name _ => name
  | .text name _ => name

/-- The value as it is written. -/
def Entry.value : Entry → Bytes
  | .prop _ value => value
  | .text _ value => escapeText value

def Entry.line (e : Entry) : Bytes := e.name++[0x3A]++e.value

def write (w : IcsWriter) : Entry → Option IcsWriter
  | .prop name value => CalendarFeeds.prop turns w name value
  | .text name value => CalendarFeeds.text turns w name value

def link (r : Request) (e : Event) : Bytes := base r++lit "/task/"++itoa e.taskID

def summary (e : Event) : Bytes :=
  let summary := lit "#"++itoa e.taskID++lit " "++e.title
  if e.terminal then lit "✓ "++summary else summary

def desc (r : Request) (e : Event) : Bytes :=
  let desc := e.project
  let desc := if e.status≠[] then (if desc≠[] then desc++lit " · " else desc)++e.status else desc
  let desc := if desc≠[] then desc++lit "\n" else desc
  desc++link r e

def eventEntries (r : Request) (e : Event) : List Entry :=
  let host := r.host.takeWhile (·≠0x3A)
  [.prop (lit "BEGIN") (lit "VEVENT"),
    .prop (lit "UID") (lit "task-"++itoa e.taskID++lit "@"++host),
    .prop (lit "DTSTAMP") (icsStamp r.now),
    .prop (lit "LAST-MODIFIED") (icsStamp e.modified),
    .prop (lit "DTSTART;VALUE=DATE") (icsDate e.due),
    .prop (lit "DTEND;VALUE=DATE") (icsDate e.due.next),
    .text (lit "SUMMARY") (summary e),
    .text (lit "DESCRIPTION") (desc r e),
    .prop (lit "URL") (link r e),
    .prop (lit "TRANSP") (lit "TRANSPARENT"),
    .prop (lit "END") (lit "VEVENT")]

def headerEntries (title : Bytes) : List Entry :=
  [.prop (lit "BEGIN") (lit "VCALENDAR"),
    .prop (lit "VERSION") (lit "2.0"),
    .prop (lit "PRODID") (lit "-//kitp//calendar feed//EN"),
    .prop (lit "CALSCALE") (lit "GREGORIAN"),
    .prop (lit "METHOD") (lit "PUBLISH"),
    .text (lit "X-WR-CALNAME") title,
    .prop (lit "REFRESH-INTERVAL;VALUE=DURATION") (lit "PT1H"),
    .prop (lit "X-PUBLISHED-TTL") (lit "PT1H")]

/-- The calls of `render`, in order. -/
def feedEntries (r : Request) (title : Bytes) (evs : List Event) : List Entry :=
  headerEntries title++evs.flatMap (eventEntries r)++[.prop (lit "END") (lit "VCALENDAR")]

def render (r : Request) (title : Bytes) (evs : List Event) : Option Bytes :=
  ((feedEntries r title evs).foldlM (write turns) ⟨[]⟩).map (·.b)

end Kitp.CalendarFeeds
