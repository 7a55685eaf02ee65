import Mathlib.Data.BitVec
import Mathlib.Data.List.Basic

/-! IP addresses and prefixes as Go's `net/netip` has them, read from text octet by octet. -/
namespace Kitp.NetIP

abbrev Bytes := List UInt8

def ascii (text : String) : Bytes := text.toList.map fun c => UInt8.ofNat c.toNat

inductive Addr where
  | zero
  | v4 (ip : BitVec 32)
  | v6 (ip : BitVec 128) (zone : Bytes)
  deriving DecidableEq

def Addr.isValid : Addr → Bool
  | .zero => false
  | _ => true

def Addr.is4 : Addr → Bool
  | .v4 _ => true
  | _ => false

def Addr.is6 : Addr → Bool
  | .v6 _ _ => true
  | _ => false

/-- An IPv4-mapped address is the IPv4 one. -/
def Addr.unmap : Addr → Addr
  | .v6 ip zone => if ip>>>32=0xffff then .v4 (ip.setWidth 32) else .v6 ip zone
  | a => a

def isDigit (b : UInt8) : Bool := 0x30≤b∧b≤0x39

def isHex (b : UInt8) : Bool := isDigit b∨0x61≤b∧b≤0x66∨0x41≤b∧b≤0x46

def hexValue (b : UInt8) : Nat :=
  if isDigit b then b.toNat-0x30 else if 0x61≤b then b.toNat-0x61+10 else b.toNat-0x41+10

/-- A number's value, its digits in a base. -/
def number (base : Nat) (s : Bytes) : Nat := s.foldl (fun n b => n*base+hexValue b) 0

/-- `parseIPv4Fields`: the octet under way has `digits` digits and value `val`. -/
def ipv4Fields : Bytes → (val digits : Nat) → (fields : List Nat) → Option (List Nat)
  | [],val,_,fields => if fields.length < 3 then none else some (fields++[val])
  | b::s,val,digits,fields =>
    if isDigit b then
      if digits=1∧val=0 then none
      else
        let val := val*10+(b.toNat-0x30)
        if 255 < val then none else ipv4Fields s val (digits+1) fields
    else if b=0x2e then
      if digits=0∨s=[] then none
      else if fields.length=3 then none
      else ipv4Fields s 0 0 (fields++[val])
    else none

def ofFields (fields : List Nat) : BitVec 32 := BitVec.ofNat 32 (fields.foldl (fun n f => n*256+f) 0)

def parseIPv4 (s : Bytes) : Option Addr := (ipv4Fields s 0 0 []).map fun fields => .v4 (ofFields fields)

/-- The 16-bit groups of an IPv6 address, `n` more at most, and where the ellipsis is. -/
def ipv6Groups : (n : Nat) → Bytes → (ip : List Nat) → (ellipsis : Option Nat) →
    Option (Bytes×List Nat×Option Nat)
  | 0,s,ip,ellipsis => some (s,ip,ellipsis)
  | n+1,s,ip,ellipsis =>
    let digits := s.takeWhile isHex
    if digits=[]∨4 < digits.length then none
    else
      let ip' := ip++[number 16 digits]
      match s.dropWhile isHex with
      | [] => some ([],ip',ellipsis)
      | 0x2e::_ =>
        -- the final four octets in dotted form
        if ellipsis=none∧ip.length≠6 then none
        else if n=0 then none
        else (ipv4Fields s 0 0 []).map fun fields =>
          ([],ip++[fields.getD 0 0*256+fields.getD 1 0,fields.getD 2 0*256+fields.getD 3 0],
            ellipsis)
      | 0x3a::0x3a::s =>
        if ellipsis.isSome then none
        else if s=[] then some ([],ip',some ip'.length)
        else ipv6Groups n s ip' (some ip'.length)
      | 0x3a::b::s => ipv6Groups n (b::s) ip' ellipsis
      | _ => none

def ofGroups (groups : List Nat) : BitVec 128 :=
  BitVec.ofNat 128 (groups.foldl (fun n g => n*65536+g) 0)

/-- The groups an ellipsis stands for, at least one. -/
def expand (ip : List Nat) : Option Nat → Option (List Nat)
  | none => if ip.length < 8 then none else some ip
  | some e =>
    if ip.length < 8 then some (ip.take e++List.replicate (8-ip.length) 0++ip.drop e) else none

def parseIPv6 (s : Bytes) : Option Addr :=
  let (s,zone) := (s.takeWhile (·≠0x25),s.dropWhile (·≠0x25))
  if zone=[0x25] then none
  else
    let zone := zone.tail
    match s with
    | 0x3a::0x3a::[] => some (.v6 0 zone)
    | 0x3a::0x3a::s => finish zone (ipv6Groups 8 s [] (some 0))
    | s => finish zone (ipv6Groups 8 s [] none)
where
  finish (zone : Bytes) : Option (Bytes×List Nat×Option Nat) → Option Addr
    | some ([],ip,ellipsis) => (expand ip ellipsis).map fun ip => .v6 (ofGroups ip) zone
    | _ => none

def parseAddr (s : Bytes) : Option Addr :=
  match s.find? fun b => b=0x2e∨b=0x3a∨b=0x25 with
  | some 0x2e => parseIPv4 s
  | some 0x3a => parseIPv6 s
  | _ => none

/-- `strconv.ParseUint` in base ten. -/
def parseUint (bits : Nat) (s : Bytes) : Option Nat :=
  if s=[]∨¬s.all isDigit∨2^bits≤number 10 s then none else some (number 10 s)

/-- The text before the last `b`, and that after it. -/
def cutLast (b : UInt8) (s : Bytes) : Option (Bytes×Bytes) :=
  let after := (s.reverse.takeWhile (·≠b)).reverse
  if after.length < s.length then some (s.take (s.length-after.length-1),after) else none

def parseAddrPort (s : Bytes) : Option (Addr×Nat) :=
  (cutLast 0x3a s).bind fun (ip,port) =>
    match ip with
    | [] => none
    | 0x5b::more =>
      if more.getLast?=some 0x5d then
        (parseUint 16 port).bind fun port => (parseAddr more.dropLast).bind fun a =>
          if a.is4 then none else some (a,port)
      else none
    | ip => (parseUint 16 port).bind fun port => (parseAddr ip).bind fun a =>
        if a.is6 then none else some (a,port)

/-- A prefix: an address without a zone, and how many of its bits count. -/
inductive Prefix where
  | v4 (ip : BitVec 32) (bits : Fin 33)
  | v6 (ip : BitVec 128) (bits : Fin 129)
  deriving DecidableEq

def Prefix.bits : Prefix → Nat
  | .v4 _ bits => bits
  | .v6 _ bits => bits

def Prefix.addr : Prefix → Addr
  | .v4 ip _ => .v4 ip
  | .v6 ip _ => .v6 ip []

def Prefix.contains : Prefix → Addr → Bool
  | .v4 p bits,.v4 ip => ip>>>(32-bits.val)=p>>>(32-bits.val)
  | .v6 p bits,.v6 ip zone => zone=[]∧ip>>>(128-bits.val)=p>>>(128-bits.val)
  | _,_ => false

def Prefix.masked : Prefix → Prefix
  | .v4 ip bits => .v4 (ip>>>(32-bits.val)<<<(32-bits.val)) bits
  | .v6 ip bits => .v6 (ip>>>(128-bits.val)<<<(128-bits.val)) bits

/-- `PrefixFrom` of all an address's bits. -/
def Prefix.single : Addr → Option Prefix
  | .zero => none
  | .v4 ip => some (.v4 ip 32)
  | .v6 ip _ => some (.v6 ip 128)

def parsePrefix (s : Bytes) : Option Prefix :=
  (cutLast 0x2f s).bind fun (ip,bits) => (parseAddr ip).bind fun a =>
    if 1 < bits.length∧bits.head?=some 0x30 then none
    else (parseUint 64 bits).bind fun bits =>
      match a with
      | .zero => none
      | .v4 ip => if h : bits < 33 then some (.v4 ip ⟨bits,h⟩) else none
      | .v6 ip zone => if h : zone=[]∧bits < 129 then some (.v6 ip ⟨bits,h.2⟩) else none

variable {p q : Prefix} {a : Addr}

/-- A prefix within another holds no other addresses. -/
theorem Prefix.contains_trans (hbits : q.bits≤p.bits) (hq : q.contains p.addr=true)
    (hp : p.contains a=true) : q.contains a=true := by
  cases p with
  | v4 ip n =>
    cases q with
    | v6 ip' m => cases hq
    | v4 ip' m =>
      cases a with
      | zero => cases hp
      | v6 x zone => cases hp
      | v4 x =>
        have hle : m.val≤n.val := hbits
        have hq' : ip>>>(32-m.val)=ip'>>>(32-m.val) := of_decide_eq_true hq
        have hp' : x>>>(32-n.val)=ip>>>(32-n.val) := of_decide_eq_true hp
        have hsplit : 32-m.val=(32-n.val)+(n.val-m.val) := by omega
        refine decide_eq_true ?_
        rw [← hq',hsplit,BitVec.shiftRight_add,hp',BitVec.shiftRight_add]
  | v6 ip n =>
    cases q with
    | v4 ip' m => cases hq
    | v6 ip' m =>
      cases a with
      | zero => cases hp
      | v4 x => cases hp
      | v6 x zone =>
        have hle : m.val≤n.val := hbits
        have hq' : []=[]∧ip>>>(128-m.val)=ip'>>>(128-m.val) := of_decide_eq_true hq
        have hp' : zone=[]∧x>>>(128-n.val)=ip>>>(128-n.val) := of_decide_eq_true hp
        have hsplit : 128-m.val=(128-n.val)+(n.val-m.val) := by omega
        refine decide_eq_true ⟨hp'.1,?_⟩
        rw [← hq'.2,hsplit,BitVec.shiftRight_add,hp'.2,BitVec.shiftRight_add]

end Kitp.NetIP
