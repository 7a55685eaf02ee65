import Kitp.Lib.NetIP

/-! Which proxies are believed about a client's address, and the address believed. Texts are their
octets. -/
namespace Kitp.TrustedProxies

open Kitp.NetIP

def mustParsePrefix (text : String) : Prefix := (parsePrefix (ascii text)).getD (.v4 0 ⟨0,by decide⟩)

def privateNets : List Prefix :=
  ["10.0.0.0/8","172.16.0.0/12","192.168.0.0/16","100.64.0.0/10","127.0.0.0/8","::1/128",
    "fc00::/7"].map mustParsePrefix

def defaultTrusted : List Prefix :=
  ["10.0.0.0/8","172.16.0.0/12","192.168.0.0/16","127.0.0.0/8","::1/128","fc00::/7"].map
    mustParsePrefix

def IsPrivate (a : Addr) : Bool := privateNets.any fun p => p.contains a.unmap

structure Trusted where
  nets : List Prefix
  configured : Bool

inductive ParseErr where
  | notAddress (field : Bytes)
  | notPrivate (p : Prefix)

/-- `strings.FieldsFunc` at commas and blanks. -/
def trustedFields (s : Bytes) : List Bytes :=
  (s.splitOnP fun b => b=0x2c∨b=0x20∨b=0x09∨b=0x0a).filter (·≠[])

/-- One entry of the setting. -/
def parseEntry (f : Bytes) : Except ParseErr Prefix :=
  let p := match parsePrefix f with
    | some p => some p
    | none => (parseAddr f).bind fun a => Prefix.single a.unmap
  match p with
  | none => .error (.notAddress f)
  | some p =>
    let p := p.masked
    if privateNets.any fun q => q.bits≤p.bits∧q.contains p.addr then .ok p
    else .error (.notPrivate p)

def ParseTrusted (s : Bytes) : Except ParseErr Trusted :=
  if trustedFields s=[] then .ok ⟨defaultTrusted,false⟩
  else ((trustedFields s).mapM parseEntry).map fun nets => ⟨nets,true⟩

/-- `Contains`, of no set too. -/
def contains (t : Option Trusted) (a : Addr) : Bool :=
  match t with
  | none => false
  | some t => a.isValid∧t.nets.any fun p => p.contains a.unmap

/-- White space in UTF-8. -/
def whiteSpace : List Bytes :=
  [[0x09],[0x0a],[0x0b],[0x0c],[0x0d],[0x20],[0xc2,0x85],[0xc2,0xa0],[0xe1,0x9a,0x80],
    [0xe2,0x80,0x80],[0xe2,0x80,0x81],[0xe2,0x80,0x82],[0xe2,0x80,0x83],[0xe2,0x80,0x84],
    [0xe2,0x80,0x85],[0xe2,0x80,0x86],[0xe2,0x80,0x87],[0xe2,0x80,0x88],[0xe2,0x80,0x89],
    [0xe2,0x80,0x8a],[0xe2,0x80,0xa8],[0xe2,0x80,0xa9],[0xe2,0x80,0xaf],[0xe2,0x81,0x9f],
    [0xe3,0x80,0x80]]

/-- At most `n` of `spaces` off the front. -/
def trimFront (spaces : List Bytes) : (n : Nat) → Bytes → Bytes
  | 0,s => s
  | n+1,s =>
    match spaces.find? fun space => space.isPrefixOf s with
    | none => s
    | some space => trimFront spaces n (s.drop space.length)

/-- `strings.TrimSpace`. -/
def trimSpace (s : Bytes) : Bytes :=
  let s := trimFront whiteSpace s.length s
  (trimFront (whiteSpace.map List.reverse) s.length s.reverse).reverse

def hopAddr (h : Bytes) : Option Addr :=
  match parseAddr h with
  | some a => some a.unmap
  | none =>
    match parseAddrPort h with
    | some (a,_) => some a.unmap
    | none =>
      match h with
      | 0x5b::more =>
        if more.getLast?=some 0x5d then (parseAddr more.dropLast).map Addr.unmap else none
      | _ => none

/-- The TCP peer, none when its text is no address. -/
def peerOf (remoteAddr : Bytes) : Addr :=
  match parseAddrPort remoteAddr with
  | some (a,_) => a.unmap
  | none =>
    match parseAddr remoteAddr with
    | some a => a.unmap
    | none => .zero

/-- The entries of the header's lines, joined by commas. -/
def hopsOf (lines : List Bytes) : List Bytes := ([0x2c].intercalate lines).splitOn 0x2c

/-- The hops, the nearest first. -/
def walk (t : Option Trusted) : List Bytes → (last : Addr) → Addr
  | [],last => last
  | hop::hops,last =>
    if trimSpace hop=[] then walk t hops last
    else
      match hopAddr (trimSpace hop) with
      | none => last
      | some a => if contains t a then walk t hops a else a

/-- `ClientIP` of a request from `remoteAddr` with these lines of `X-Forwarded-For`. -/
def ClientIP (t : Option Trusted) (remoteAddr : Bytes) (lines : List Bytes) : Addr :=
  let peer := peerOf remoteAddr
  if contains t peer then walk t (hopsOf lines).reverse peer else peer

/-- How a proxy adds an entry: in a line of its own, behind the last line, or behind all of them. -/
inductive Style where
  | line
  | last
  | joined

/-- The header as a proxy passes it on. -/
def forward (lines : List Bytes) (style : Style) (entry : Bytes) : List Bytes :=
  match style,lines.getLast? with
  | _,none => [entry]
  | .line,_ => lines++[entry]
  | .last,some line => lines.dropLast++[line++0x2c::0x20::entry]
  | .joined,_ => [[0x2c,0x20].intercalate lines++0x2c::0x20::entry]

end Kitp.TrustedProxies
