import Kitp.Lib.BufReader
import Kitp.TrustedProxies

/-! Sniffing the PROXY header a proxy sends before the greeting. -/
namespace Kitp.ProxyHeaders

open Kitp.NetIP Kitp.BufReader Kitp.TrustedProxies

abbrev AddrPort := Addr×Nat

def v2Sig : Bytes := [0x0d,0x0a,0x0d,0x0a,0x00,0x0d,0x0a,0x51,0x55,0x49,0x54,0x0a]

def RefuseUntrustedProxy : String := "PROXY header from an untrusted peer"
def RefuseEarlyTalker : String := "spoke before the greeting"
def RefuseBadProxyHeader : String := "malformed PROXY header"

/-- The reader's buffer. -/
def size : Nat := 512

/-- Fields under way: `skip` more octets of white space, and the field so far. -/
def scanFields : (skip : Nat) → (field : Bytes) → Bytes → List Bytes
  | _,field,[] => [field]
  | skip+1,field,_::s => scanFields skip field s
  | 0,field,b::s =>
    match whiteSpace.find? fun space => space.isPrefixOf (b::s) with
    | some space => field::scanFields (space.length-1) [] s
    | none => scanFields 0 (field++[b]) s

/-- `strings.Fields`. -/
def fields (s : Bytes) : List Bytes := (scanFields 0 [] s).filter (·≠[])

inductive HeaderErr where
  | notProxy
  | bad
  deriving DecidableEq

/-- At most `n` octets more, up to a newline. -/
def readLine : (n : Nat) → Reader UInt8 → (line : Bytes) → Except HeaderErr (Bytes×Reader UInt8)
  | 0,r,line => .ok (line,r)
  | n+1,r,line =>
    match readByte size r with
    | .error _ => .error .bad
    | .ok (b,r) => if b=0x0a then .ok (line++[b],r) else readLine n r (line++[b])

def parseV1 (line : Bytes) : Except HeaderErr (Option AddrPort) :=
  if ¬[0x0d,0x0a].isSuffixOf line then .error .bad
  else
    let f := fields (trimSpace line)
    if f[1]?=some (ascii "UNKNOWN") then .ok none
    else
      match f with
      | [_,proto,source,_,port,_] =>
        if proto=ascii "TCP4"∨proto=ascii "TCP6" then
          match parseAddr source,parseUint 16 port with
          | some a,some port => .ok (some (a.unmap,port))
          | _,_ => .error .bad
        else .error .bad
      | _ => .error .bad

def readV1 (r : Reader UInt8) : Except HeaderErr (Option AddrPort×Reader UInt8) :=
  match peek size 6 r with
  | (_,some _) => .error .bad
  | (r,none) =>
    if r.buf.take 6≠ascii "PROXY " then .error .notProxy
    else
      match readLine 107 r [] with
      | .error err => .error err
      | .ok (line,r) => (parseV1 line).map fun src => (src,r)

def bigEndian (s : Bytes) : Nat := s.foldl (fun n b => n*256+b.toNat) 0

/-- `io.ReadFull`. -/
def readFull : (n : Nat) → Reader UInt8 → Except HeaderErr (Bytes×Reader UInt8)
  | 0,r => .ok ([],r)
  | n+1,r =>
    match readByte size r with
    | .error _ => .error .bad
    | .ok (b,r) => (readFull n r).map fun (buf,r) => (b::buf,r)

/-- The source of a command, family and body. -/
def parseV2 (verCmd fam : UInt8) (body : Bytes) : Except HeaderErr (Option AddrPort) :=
  if verCmd&&&0x0f=0 then .ok none
  else if fam=0x11∨fam=0x12 then
    if body.length < 12 then .error .bad
    else .ok (some (.v4 (BitVec.ofNat 32 (bigEndian (body.take 4))),
      bigEndian ((body.drop 8).take 2)))
  else if fam=0x21∨fam=0x22 then
    if body.length < 36 then .error .bad
    else .ok (some ((Addr.v6 (BitVec.ofNat 128 (bigEndian (body.take 16))) []).unmap,
      bigEndian ((body.drop 32).take 2)))
  else .ok none

def readV2 (r : Reader UInt8) : Except HeaderErr (Option AddrPort×Reader UInt8) :=
  match peek size 16 r with
  | (_,some _) => .error .bad
  | (r,none) =>
    let head := r.buf.take 16
    if head.take 12≠v2Sig then .error .notProxy
    else
      let verCmd := head.getD 12 0
      let fam := head.getD 13 0
      let n := bigEndian (head.drop 14)
      if verCmd>>>4≠2∨216 < n then .error .bad
      else
        match readFull (16+n) r with
        | .error err => .error err
        | .ok (buf,r) => (parseV2 verCmd fam (buf.drop 16)).map fun src => (src,r)

inductive Outcome where
  | conn (remote : AddrPort) (r : Reader UInt8)
  | refused (reason : String)

/-- `Sniff` of a connection from `remote`, where `input` arrives. -/
def Sniff (trusted : Option Trusted) (remote : AddrPort) (input : List (Arrival UInt8)) : Outcome :=
  match peek size 1 ⟨[],input⟩ with
  | (r,some .timeout) => .conn remote r
  | (_,some _) => .refused ""
  | (r,none) =>
    let isV1 := r.buf.head?=some 0x50
    let isV2 := r.buf.head?=some 0x0d
    if ¬isV1∧¬isV2 then .refused RefuseEarlyTalker
    else
      match if isV1 then readV1 r else readV2 r with
      | .error .notProxy => .refused RefuseEarlyTalker
      | .error .bad => .refused RefuseBadProxyHeader
      | .ok (src,r) =>
        if ¬contains trusted remote.1.unmap then .refused RefuseUntrustedProxy
        -- data right behind the header
        else if r.buf≠[] then .refused RefuseEarlyTalker
        else .conn (src.getD remote) r

end Kitp.ProxyHeaders
