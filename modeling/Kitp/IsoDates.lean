import Kitp.Attributes
import Kitp.Lib.LinePatterns
import Kitp.Lib.Utf8

/-! The one form of dates and timestamps: the check in the database and the one of the server. -/
namespace Kitp.IsoDates
open Kitp.LinePatterns
open Kitp.Attributes (daysIn)

abbrev Text := List Char

abbrev Bytes := List UInt8

/-! The database. -/

inductive Mark where
  | digit
  | dash
  | colon
  | point
  | tee
  | zulu
  | sign
  deriving DecidableEq

/-- The bracket expressions; `\d` is the ten digits. -/
def has : Mark → Char → Bool
  | .digit,c => c.isDigit
  | .dash,c => c = '-'
  | .colon,c => c = ':'
  | .point,c => c = '.'
  | .tee,c => c = 'T'||c = 't'
  | .zulu,c => c = 'Z'||c = 'z'
  | .sign,c => c = '+'||c = '-'

def digitRun (n : Nat) : Pattern Mark := .run n (some n) .digit

def dateParts : List (Pattern Mark) :=
  [digitRun 4,.one .dash,digitRun 2,.one .dash,digitRun 2]

def timeParts : List (Pattern Mark) :=
  [digitRun 2,.one .colon,digitRun 2,.one .colon,digitRun 2]

/-- `(\.\d{1,9})?`. -/
def fractionPart : Pattern Mark :=
  .alt (.seq (.one .point) (.run 1 (some 9) .digit)) (.run 0 (some 0) .digit)

def offsetPart : Pattern Mark := inOrder [.one .sign,digitRun 2,.one .colon] (digitRun 2)

/-- `^\d{4}-\d{2}-\d{2}$`. -/
def datePattern : Pattern Mark := inOrder dateParts .finish

/-- `^\d{4}-\d{2}-\d{2}[Tt]\d{2}:\d{2}:\d{2}(\.\d{1,9})?([Zz]|[+-]\d{2}:\d{2})$`. -/
def timestampPattern : Pattern Mark :=
  inOrder (dateParts++[.one .tee]++timeParts++[fractionPart,.alt (.one .zulu) offsetPart]) .finish

/-- `[+-]\d{2}:\d{2}$`. -/
def offsetPattern : Pattern Mark := .seq offsetPart .finish

def anchored (p : Pattern Mark) (s : Text) : Bool := found has (fun _ => false) p s

/-- A match that may begin anywhere. -/
def anywhere (p : Pattern Mark) (s : Text) : Bool := s.tails.any (anchored p)

inductive SqlError where
  | datetimeFieldOverflow
  | invalidDatetimeFormat
  | invalidTimeZoneDisplacement
  | invalidTextRepresentation
  deriving DecidableEq

/-- `substr`, counted from one. -/
def substr (s : Text) (start count : Nat) : Text := (s.drop (start-1)).take count

def value (s : Text) : Nat := s.foldl (fun n c => 10*n+(c.toNat-48)) 0

/-- `::int`, of a few digits. -/
def toInt (s : Text) : Except SqlError Nat :=
  if s≠[]∧s.all Char.isDigit then .ok (value s) else .error .invalidTextRepresentation

def realDay (year month day : Nat) : Bool :=
  1 ≤ month∧ month ≤ 12∧1 ≤ day∧day ≤ daysIn year month

/-- `make_date`: there is no year zero. -/
def makeDate (year month day : Nat) : Except SqlError (Nat × Nat × Nat) :=
  if 1 ≤ year∧realDay year month day then .ok (year,month,day) else .error .datetimeFieldOverflow

/-- The exceptions a block handles make its answer false. -/
def handling (caught : List SqlError) (x : Except SqlError Bool) : Except SqlError Bool :=
  match x with
  | .ok b => .ok b
  | .error e => if caught.contains e then .ok false else .error e

def isoDateOk (s : Text) : Except SqlError Bool :=
  if !anchored datePattern s then .ok false
  else
    handling [.datetimeFieldOverflow,.invalidDatetimeFormat] do
      let _ ← makeDate (← toInt (substr s 1 4)) (← toInt (substr s 6 2)) (← toInt (substr s 9 2))
      let year ← toInt (substr s 1 4)
      .ok (decide (1 ≤ year))

/-- The fields of a timestamp. -/
structure Stamp where
  date : Nat × Nat × Nat
  hour : Nat
  minute : Nat
  second : Nat
  deriving DecidableEq

/-- `::timestamptz` of an RFC 3339 text; the last minute of a day may be written 24:00:00, and a
minute may have a second 60. -/
def toTimestamptz (s : Text) : Except SqlError Stamp := do
  if !anchored timestampPattern s then .error .invalidDatetimeFormat
  let date ← makeDate (← toInt (substr s 1 4)) (← toInt (substr s 6 2)) (← toInt (substr s 9 2))
  let hour ← toInt (substr s 12 2)
  let minute ← toInt (substr s 15 2)
  let second ← toInt (substr s 18 2)
  if 24 < hour∨59 < minute∨60 < second∨(hour=24∧(0 < minute∨0 < second)) then
    .error .datetimeFieldOverflow
  if anywhere offsetPattern s then
    if 15 < (← toInt (substr s (s.length-4) 2))∨59 < (← toInt (substr s (s.length-1) 2)) then
      .error .invalidTimeZoneDisplacement
  .ok ⟨date,hour,minute,second⟩

def isoTimestampOk (s : Text) : Except SqlError Bool :=
  handling [.datetimeFieldOverflow,.invalidDatetimeFormat,.invalidTimeZoneDisplacement] do
    if !anchored timestampPattern s then return false
    if !(← isoDateOk (substr s 1 10)) then return false
    if (← toInt (substr s 12 2)) > 23∨(← toInt (substr s 15 2)) > 59∨
        (← toInt (substr s 18 2)) > 59 then
      return false
    if anywhere offsetPattern s then
      if (← toInt (substr s (s.length-4) 2)) > 15∨(← toInt (substr s (s.length-1) 2)) > 59 then
        return false
    let _ ← toTimestamptz s
    return true

/-! The server, over the bytes of a string. -/

def isDigit (b : UInt8) : Bool := 0x30 ≤ b∧b ≤ 0x39

def digits (s : Bytes) : Bool := s.all isDigit&&s≠[]

/-- `s[i:j]`. -/
def slice (s : Bytes) (i j : Nat) : Bytes := (s.drop i).take (j-i)

def number (s : Bytes) : Nat := s.foldl (fun n b => 10*n+(b.toNat-48)) 0

inductive DateError where
  | notDate
  | notTimestamp
  deriving DecidableEq

/-- `time.Parse` of a text in the form of `DateLayout`. -/
def timeParseDate (s : Bytes) : Option (Nat × Nat × Nat) :=
  let year := number (slice s 0 4)
  let month := number (slice s 5 7)
  let day := number (slice s 8 10)
  if realDay year month day then some (year,month,day) else none

def parseDate (s : Bytes) : Except DateError (Nat × Nat × Nat) :=
  if s.length≠10∨!digits (slice s 0 4)∨s[4]?≠some 0x2D∨!digits (slice s 5 7)∨s[7]?≠some 0x2D∨
      !digits (slice s 8 10) then .error .notDate
  else
    match timeParseDate s with
    | none => .error .notDate
    | some t => if t.1 < 1 then .error .notDate else .ok t

def validDate (s : Bytes) : Bool := (parseDate s).isOk

/-- The fraction is passed over: a point and one to nine digits. -/
def dropFraction (rest : Bytes) : Option Bytes :=
  if rest.head?=some 0x2E then
    let n := 1+(rest.tail.takeWhile isDigit).length
    if n=1∨n > 10 then none else some (rest.drop n)
  else some rest

/-- The order of strings. -/
def textLe : Bytes → Bytes → Bool
  | [],_ => true
  | _::_,[] => false
  | a::s,b::t => a < b||(a=b&&textLe s t)

def zoneShape (rest : Bytes) : Bool :=
  if rest=[0x5A]∨rest=[0x7A] then true
  else if rest.length=6∧(rest[0]?=some 0x2B∨rest[0]?=some 0x2D)∧digits (slice rest 1 3)∧
      rest[3]?=some 0x3A∧digits (slice rest 4 6) then
    textLe (slice rest 1 3) [0x31,0x35]∧textLe (slice rest 4 6) [0x35,0x39]
  else false

def timestampShape (s : Bytes) : Bool :=
  if s.length < 20∨!validDate (slice s 0 10)∨(s[10]?≠some 0x54∧s[10]?≠some 0x74) then false
  else if !digits (slice s 11 13)∨s[13]?≠some 0x3A∨!digits (slice s 14 16)∨s[16]?≠some 0x3A∨
      !digits (slice s 17 19) then false
  else
    match dropFraction (s.drop 19) with
    | none => false
    | some rest => zoneShape rest

/-- `time.Parse` of a text of that shape: what is left to check are the fields' ranges. -/
def timeParse (s : Bytes) : Option Stamp :=
  let hour := number (slice s 11 13)
  let minute := number (slice s 14 16)
  let second := number (slice s 17 19)
  match timeParseDate (slice s 0 10) with
  | none => none
  | some date =>
    if hour ≤ 23∧minute ≤ 59∧second ≤ 59 then some ⟨date,hour,minute,second⟩ else none

def parseTimestamp (s : Bytes) : Except DateError Stamp :=
  if !timestampShape s then .error .notTimestamp
  else
    let b := s.set 10 0x54
    let b := if b.getLast?=some 0x7A then b.dropLast++[0x5A] else b
    match timeParse b with
    | none => .error .notTimestamp
    | some t => .ok t

end Kitp.IsoDates
