import Kitp.Lib.AddrText
import Kitp.Lib.Bounded
import Kitp.ProxySniffs

/-! The headers a proxy sends for a connection, in text or octets, give it its source. -/
namespace Kitp.ProxyHeaders

open Kitp.NetIP Kitp.BufReader Kitp.TrustedProxies

variable {s x y field h : Bytes} {b c : UInt8} {src dst : AddrPort} {n : Nat}

/-- Visible ASCII. -/
def plainByte (b : UInt8) : Bool := 0x21≤b∧b≤0x7e

structure Plain (s : Bytes) : Prop where
  nonempty : s≠[]
  visible : ∀ b∈s, plainByte b=true

def v1Line (proto source dest port destPort : Bytes) : Bytes :=
  ascii "PROXY"++0x20::(proto++0x20::(source++0x20::(dest++0x20::(port++0x20::destPort))))++
    [0x0d,0x0a]

def octets (k n : Nat) : Bytes := (places 256 k n).map UInt8.ofNat

/-- A v2 header's octets. -/
def v2Header (fam : UInt8) (body : Bytes) : Bytes := v2Sig++[0x21,fam]++octets 2 body.length++body

/-- The headers for a connection. The addresses and ports of a line are in any text of theirs. -/
inductive HeaderOf (src dst : AddrPort) : Bytes → Prop where
  | line {proto source dest port destPort : Bytes} (hproto : proto=ascii "TCP4"∨proto=ascii "TCP6")
      (hsource : Plain source) (hdest : Plain dest) (hport : Plain port)
      (hdestPort : Plain destPort) (hsrc : parseAddr source=some src.1)
      (hdst : parseAddr dest=some dst.1) (hsrcPort : parseUint 16 port=some src.2)
      (hdstPort : parseUint 16 destPort=some dst.2)
      (hlen : (v1Line proto source dest port destPort).length≤107) :
      HeaderOf src dst (v1Line proto source dest port destPort)
  | ipv4 {a b : BitVec 32} {fam : UInt8} {extra : Bytes} (hfam : fam=0x11∨fam=0x12)
      (hsrc : src.1=.v4 a) (hdst : dst.1=.v4 b) (hport : src.2 < 65536)
      (hdestPort : dst.2 < 65536) (hlen : 12+extra.length≤216) :
      HeaderOf src dst (v2Header fam (octets 4 a.toNat++octets 4 b.toNat++octets 2 src.2++
        octets 2 dst.2++extra))
  | ipv6 {a b : BitVec 128} {fam : UInt8} {extra : Bytes} (hfam : fam=0x21∨fam=0x22)
      (hsrc : src.1=.v6 a []) (hdst : dst.1=.v6 b []) (hport : src.2 < 65536)
      (hdestPort : dst.2 < 65536) (hlen : 36+extra.length≤216) :
      HeaderOf src dst (v2Header fam (octets 16 a.toNat++octets 16 b.toNat++octets 2 src.2++
        octets 2 dst.2++extra))

/-- No white space, forwards or backwards, starts with a visible octet. -/
theorem no_space {spaces : List Bytes} (hb : plainByte b=true)
    (hspaces : (spaces.all fun space => space.head?.any fun c => !plainByte c)=true) :
    (spaces.find? fun space => space.isPrefixOf (b::s))=none := by
  rw [List.find?_eq_none]
  intro space hspace hprefix
  have hhead := List.all_eq_true.mp hspaces space hspace
  cases space with
  | nil => cases hhead
  | cons c space =>
    have hsame : c=b := by
      rw [List.isPrefixOf,Bool.and_eq_true] at hprefix
      exact eq_of_beq hprefix.1
    rw [hsame,List.head?_cons,Option.any_some,hb] at hhead
    cases hhead

theorem trimFront_plain {spaces : List Bytes} (n : Nat) (hb : plainByte b=true)
    (hspaces : (spaces.all fun space => space.head?.any fun c => !plainByte c)=true) :
    trimFront spaces n (b::s)=b::s := by
  cases n with
  | zero => rfl
  | succ n => rw [trimFront,no_space hb hspaces]

theorem trimSpace_line (hfront : x.head?=some b) (hb : plainByte b=true)
    (hback : x.reverse.head?=some c) (hc : plainByte c=true) : trimSpace (x++[0x0d,0x0a])=x := by
  obtain ⟨y,hx⟩ := List.head?_eq_some_iff.mp hfront
  obtain ⟨z,hreverse⟩ := List.head?_eq_some_iff.mp hback
  have hstart : trimFront whiteSpace (x++[0x0d,0x0a]).length (x++[0x0d,0x0a])=x++[0x0d,0x0a] := by
    rw [hx,List.cons_append]
    exact trimFront_plain _ hb (by decide)
  have hend : ∀ n, trimFront (whiteSpace.map List.reverse) (n+2) (0x0a::0x0d::x.reverse)=
      x.reverse := by
    intro n
    have htwo : trimFront (whiteSpace.map List.reverse) (n+2) (0x0a::0x0d::x.reverse)=
      trimFront (whiteSpace.map List.reverse) n x.reverse := rfl
    rw [htwo,hreverse]
    exact trimFront_plain n hc (by decide)
  unfold trimSpace
  dsimp only
  rw [hstart,List.reverse_append,List.length_append]
  show (trimFront (whiteSpace.map List.reverse) (x.length+2) (0x0a::0x0d::x.reverse)).reverse=x
  rw [hend,List.reverse_reverse]

theorem scanFields_plain (hs : ∀ b∈s, plainByte b=true) :
    scanFields 0 field (s++x)=scanFields 0 (field++s) x := by
  induction s generalizing field with
  | nil => rw [List.nil_append,List.append_nil]
  | cons b s ih =>
    rw [List.cons_append,scanFields,no_space (hs b List.mem_cons_self) (by decide)]
    dsimp only
    rw [ih fun b hb => hs b (List.mem_cons_of_mem _ hb),List.append_assoc,List.singleton_append]

theorem scanFields_token (hs : Plain s) :
    scanFields 0 [] (s++0x20::x)=s::scanFields 0 [] x := by
  rw [scanFields_plain hs.visible,List.nil_append]
  rfl

theorem scanFields_last (hs : Plain s) : scanFields 0 [] s=[s] := by
  have hall : scanFields 0 [] (s++[])=scanFields 0 ([]++s) [] := scanFields_plain hs.visible
  rw [List.append_nil,List.nil_append] at hall
  rw [hall,scanFields]

theorem proto_plain {proto : Bytes} (h : proto=ascii "TCP4"∨proto=ascii "TCP6") : Plain proto := by
  rcases h with rfl | rfl
  · exact ⟨by decide,by decide⟩
  · exact ⟨by decide,by decide⟩

theorem v1Line_fields {proto source dest port destPort : Bytes} (hproto : Plain proto)
    (hsource : Plain source) (hdest : Plain dest) (hport : Plain port) (hdestPort : Plain destPort) :
    fields (trimSpace (v1Line proto source dest port destPort))=
      [ascii "PROXY",proto,source,dest,port,destPort] := by
  obtain ⟨c,more,hlast⟩ : ∃ c more, destPort.reverse=c::more :=
    List.exists_cons_of_ne_nil (mt List.reverse_eq_nil_iff.mp hdestPort.nonempty)
  have hc : plainByte c=true := by
    refine hdestPort.visible c (List.mem_reverse.mp ?_)
    rw [hlast]
    exact List.mem_cons_self
  have hname : Plain (ascii "PROXY") := ⟨by decide,by decide⟩
  unfold v1Line
  have hback : (ascii "PROXY"++0x20::(proto++0x20::(source++0x20::(dest++0x20::
      (port++0x20::destPort))))).reverse.head?=some c := by
    simp only [List.reverse_append,List.reverse_cons,hlast,List.cons_append,List.head?_cons]
  have htrim := trimSpace_line (by rfl) (by decide) hback hc
  rw [htrim]
  unfold fields
  rw [scanFields_token hname,scanFields_token hproto,scanFields_token hsource,
    scanFields_token hdest,scanFields_token hport,scanFields_last hdestPort]
  refine List.filter_eq_self.mpr fun f hf => decide_eq_true ?_
  simp only [List.mem_cons,List.not_mem_nil,or_false] at hf
  rcases hf with rfl | rfl | rfl | rfl | rfl | rfl
  · exact hname.nonempty
  · exact hproto.nonempty
  · exact hsource.nonempty
  · exact hdest.nonempty
  · exact hport.nonempty
  · exact hdestPort.nonempty

theorem v1Line_header {proto source dest port destPort : Bytes} {a : Addr}
    (hproto : proto=ascii "TCP4"∨proto=ascii "TCP6") (hsource : Plain source) (hdest : Plain dest)
    (hport : Plain port) (hdestPort : Plain destPort) (ha : parseAddr source=some a)
    (hn : parseUint 16 port=some n)
    (hlen : (v1Line proto source dest port destPort).length≤107) :
    V1 (v1Line proto source dest port destPort) (some (a.unmap,n)) := by
  have hfields := v1Line_fields (proto_plain hproto) hsource hdest hport hdestPort
  refine ⟨rfl,hlen,⟨_,rfl,?_⟩,Or.inr ⟨_,_,_,_,_,_,a,n,hfields,hproto,ha,hn,rfl⟩⟩
  have hclean : ∀ {s : Bytes}, Plain s → 0x0a∉s := fun hs hmem =>
    absurd (hs.visible _ hmem) (by decide)
  simp only [List.mem_append,List.mem_cons,not_or]
  exact ⟨by decide,by decide,hclean (proto_plain hproto),by decide,hclean hsource,by decide,
    hclean hdest,by decide,hclean hport,by decide,hclean hdestPort⟩

theorem octets_length (k n : Nat) : (octets k n).length=k := by
  rw [octets,List.length_map,places_length]

theorem bigEndian_octets (k n : Nat) : bigEndian (octets k n)=n%256^k := by
  have hfold : bigEndian (octets k n)=(places 256 k n).foldl (fun n d => n*256+d) 0 := by
    unfold bigEndian octets
    rw [List.foldl_map]
    refine List.foldl_ext _ _ _ fun m d hd => ?_
    have hlt : d < 256 := places_lt (by decide) hd
    rw [UInt8.toNat_ofNat_of_lt' hlt]
  rw [hfold,places_value]

/-- A v2 header with such a body is one. -/
theorem v2Header_header {fam : UInt8} {body : Bytes} {found : Option AddrPort}
    (hlen : body.length≤216) (hparse : parseV2 0x21 fam body=.ok found) :
    V2 (v2Header fam body) found := by
  obtain ⟨hi,lo,htwo⟩ : ∃ hi lo, octets 2 body.length=[hi,lo] := ⟨_,_,rfl⟩
  have hvalue := bigEndian_octets 2 body.length
  rw [htwo,Nat.mod_eq_of_lt (by omega)] at hvalue
  refine ⟨0x21,fam,hi,lo,body,?_,by decide,hvalue.symm,hlen,hparse⟩
  unfold v2Header
  rw [htwo]
  rfl

theorem parseV2_ipv4 {a b : BitVec 32} {fam : UInt8} {sp dp : Nat} {extra : Bytes}
    (hfam : fam=0x11∨fam=0x12) (hsp : sp < 65536) :
    parseV2 0x21 fam (octets 4 a.toNat++octets 4 b.toNat++octets 2 sp++octets 2 dp++extra)=
      .ok (some (.v4 a,sp)) := by
  generalize hbody : octets 4 a.toNat++octets 4 b.toNat++octets 2 sp++octets 2 dp++extra=body
  have hlen : ¬body.length < 12 := by
    rw [← hbody]
    simp only [List.length_append,octets_length]
    omega
  have hip : body.take 4=octets 4 a.toNat := by
    rw [← hbody]
    simp only [List.append_assoc]
    exact List.take_left' (octets_length 4 _)
  have hport : (body.drop 8).take 2=octets 2 sp := by
    rw [← hbody]
    simp only [List.append_assoc]
    rw [← List.append_assoc,List.drop_left' (by rw [List.length_append,octets_length,octets_length])]
    exact List.take_left' (octets_length 2 _)
  have ha : a.toNat < 256^4 := a.isLt
  unfold parseV2
  rw [if_neg (by decide),if_pos hfam,if_neg hlen,hip,hport,bigEndian_octets,bigEndian_octets,
    Nat.mod_eq_of_lt ha,Nat.mod_eq_of_lt (show sp < 256^2 from hsp),BitVec.ofNat_toNat,
    BitVec.setWidth_eq]

theorem parseV2_ipv6 {a b : BitVec 128} {fam : UInt8} {sp dp : Nat} {extra : Bytes}
    (hfam : fam=0x21∨fam=0x22) (hsp : sp < 65536) :
    parseV2 0x21 fam (octets 16 a.toNat++octets 16 b.toNat++octets 2 sp++octets 2 dp++extra)=
      .ok (some ((Addr.v6 a []).unmap,sp)) := by
  generalize hbody : octets 16 a.toNat++octets 16 b.toNat++octets 2 sp++octets 2 dp++extra=body
  have hlen : ¬body.length < 36 := by
    rw [← hbody]
    simp only [List.length_append,octets_length]
    omega
  have hip : body.take 16=octets 16 a.toNat := by
    rw [← hbody]
    simp only [List.append_assoc]
    exact List.take_left' (octets_length 16 _)
  have hport : (body.drop 32).take 2=octets 2 sp := by
    rw [← hbody]
    simp only [List.append_assoc]
    rw [← List.append_assoc,List.drop_left' (by rw [List.length_append,octets_length,octets_length])]
    exact List.take_left' (octets_length 2 _)
  have ha : a.toNat < 256^16 := a.isLt
  have hother : ¬(fam=0x11∨fam=0x12) := by
    rcases hfam with rfl | rfl
    · decide
    · decide
  unfold parseV2
  rw [if_neg (by decide),if_neg hother,if_pos hfam,if_neg hlen,hip,hport,bigEndian_octets,
    bigEndian_octets,Nat.mod_eq_of_lt ha,Nat.mod_eq_of_lt (show sp < 256^2 from hsp),
    BitVec.ofNat_toNat,BitVec.setWidth_eq]

/-- A connection's header is read as its source. -/
theorem HeaderOf.header (hh : HeaderOf src dst h) : Header h (some (src.1.unmap,src.2)) := by
  cases hh with
  | line hproto hsource hdest hport hdestPort hsrc hdst hsrcPort hdstPort hlen =>
    exact Or.inl (v1Line_header hproto hsource hdest hport hdestPort hsrc hsrcPort hlen)
  | ipv4 hfam hsrc hdst hport hdestPort hlen =>
    rw [hsrc]
    refine Or.inr (v2Header_header ?_ (parseV2_ipv4 hfam hport))
    simp only [List.length_append,octets_length]
    omega
  | ipv6 hfam hsrc hdst hport hdestPort hlen =>
    rw [hsrc]
    refine Or.inr (v2Header_header ?_ (parseV2_ipv6 hfam hport))
    simp only [List.length_append,octets_length]
    omega

/-- An address one can connect from: no zone. -/
def Real (a : Addr) : Prop := a.isValid=true∧∀ ip zone, a=.v6 ip zone → zone=[]

theorem addrByte_plain (h : isAddrByte b=true) : plainByte b=true := by
  simp only [isAddrByte,isHex,isDigit,UInt8.le_iff_toNat_le,Bool.decide_or,Bool.decide_and,
    Bool.or_eq_true,Bool.and_eq_true,decide_eq_true_eq] at h
  refine decide_eq_true ?_
  rw [UInt8.le_iff_toNat_le,UInt8.le_iff_toNat_le]
  rcases h with ((hdigit | hsmall | hlarge) | rfl | rfl)
  · have hlow : 0x30≤b.toNat := hdigit.1
    have hhigh : b.toNat≤0x39 := hdigit.2
    exact ⟨by show 0x21≤b.toNat; omega,by show b.toNat≤0x7e; omega⟩
  · have hlow : 0x61≤b.toNat := hsmall.1
    have hhigh : b.toNat≤0x66 := hsmall.2
    exact ⟨by show 0x21≤b.toNat; omega,by show b.toNat≤0x7e; omega⟩
  · have hlow : 0x41≤b.toNat := hlarge.1
    have hhigh : b.toNat≤0x46 := hlarge.2
    exact ⟨by show 0x21≤b.toNat; omega,by show b.toNat≤0x7e; omega⟩
  · decide
  · decide

theorem text_plain {a : Addr} (ha : Real a) : Plain a.text := by
  refine ⟨?_,?_⟩
  · intro hnil
    have hread := parseAddr_text ha.1 ha.2
    rw [hnil] at hread
    cases hread
  · intro b hb
    exact addrByte_plain (text_bytes a b hb)

theorem decimal_plain (n : Nat) : Plain (decimal n) := by
  refine ⟨decimal_ne n,?_⟩
  intro b hb
  obtain ⟨d,hd,rfl⟩ := decimal_digits n b hb
  have hall : ∀ d : Fin 10, plainByte (digit d)=true := by decide
  exact hall ⟨d,hd⟩

/-- Every two addresses and ports have a line. -/
theorem line_of {proto : Bytes} (hproto : proto=ascii "TCP4"∨proto=ascii "TCP6")
    (hsrc : Real src.1) (hdst : Real dst.1) (hport : src.2 < 65536) (hdestPort : dst.2 < 65536) :
    HeaderOf src dst (v1Line proto src.1.text dst.1.text (decimal src.2) (decimal dst.2)) := by
  refine .line hproto (text_plain hsrc) (text_plain hdst) (decimal_plain _) (decimal_plain _)
    (parseAddr_text hsrc.1 hsrc.2) (parseAddr_text hdst.1 hdst.2) (parseUint_decimal hport)
    (parseUint_decimal hdestPort) ?_
  have hname : (ascii "PROXY").length=5 := rfl
  have hfour : proto.length=4 := by
    rcases hproto with rfl | rfl
    · rfl
    · rfl
  have hsrcText := text_length src.1
  have hdstText := text_length dst.1
  have hsrcPort : (decimal src.2).length≤5 := decimal_length (by omega) (by decide)
  have hdstPort : (decimal dst.2).length≤5 := decimal_length (by omega) (by decide)
  unfold v1Line
  simp only [List.length_append,List.length_cons,List.length_nil,hname,hfour]
  omega

/-- A trusted proxy's header, however it comes, gives the connection its source, and all behind it is
still to read; a connection handed on came from silence or behind one whole header. -/
theorem sniff_believes (trusted : Option Trusted) (remote : AddrPort) :
    (∀ src dst h chunks rest, contains trusted remote.1.unmap=true → HeaderOf src dst h →
      Data chunks → pieces chunks=h →
      Sniff trusted remote (chunks++rest)=.conn (src.1.unmap,src.2) ⟨[],rest⟩)∧
    (∀ (src dst : AddrPort) (proto : Bytes), proto=ascii "TCP4"∨proto=ascii "TCP6" →
      Real src.1 → Real dst.1 → src.2 < 65536 → dst.2 < 65536 →
      HeaderOf src dst (v1Line proto src.1.text dst.1.text (decimal src.2) (decimal dst.2)))∧
    ∀ input out r, Sniff trusted remote input=.conn out r →
      r.buf=[]∧Heard trusted remote input out r.input := by
  refine ⟨?_,?_,?_⟩
  · intro src dst h chunks rest htrusted hh hdata hpieces
    rw [← hpieces] at hh
    exact sniff_header htrusted hdata hh.header
  · intro src dst proto hproto hsrc hdst hport hdestPort
    exact line_of hproto hsrc hdst hport hdestPort
  · intro input out r hsniff
    exact sniff_heard hsniff

def localProxy : Option Trusted := some ⟨[.v4 0x7f000000 ⟨8,by decide⟩],true⟩

def localPeer : AddrPort := (.v4 0x7f000001,40000)

/-- From 203.0.113.9:4711 to 192.0.2.25:25, with an extra field, in two pieces. -/
theorem sniff_believes_visitor :
    Sniff localProxy localPeer ([.data 0x0d (v2Sig.tail++[0x21]),
      .data 0x11 [0,15,203,0,113,9,192,0,2,25,0x12,0x67,0,25,0x04,0,0]]++[.timeout])=
      .conn (.v4 0xcb007109,4711) ⟨[],[.timeout]⟩ := by
  have hheader : HeaderOf (.v4 0xcb007109,4711) (.v4 0xc0000219,25) (v2Header 0x11
      (octets 4 (0xcb007109 : BitVec 32).toNat++octets 4 (0xc0000219 : BitVec 32).toNat++
        octets 2 4711++octets 2 25++[0x04,0,0])) :=
    .ipv4 (Or.inl rfl) rfl rfl (by decide) (by decide) (by decide)
  refine (sniff_believes localProxy localPeer).1 _ _ _ _ _ (by decide) hheader ?_ (by decide)
  intro a ha
  simp only [List.mem_cons,List.not_mem_nil,or_false] at ha
  rcases ha with rfl | rfl
  · exact ⟨_,_,rfl⟩
  · exact ⟨_,_,rfl⟩

/-- No destination. -/
def sourceOnly : Bytes := v1Line (ascii "TCP4") (ascii "203.0.113.9") (ascii "-") (ascii "4711")
  (ascii "-")

theorem sourceOnly_header : Header sourceOnly (some (.v4 0xcb007109,4711)) :=
  Or.inl (v1Line_header (a := .v4 0xcb007109) (Or.inl rfl) ⟨by decide,by decide⟩
    ⟨by decide,by decide⟩ ⟨by decide,by decide⟩ ⟨by decide,by decide⟩ (by decide) (by decide)
    (by decide))

theorem sourceOnly_other : ¬HeaderOf src dst sourceOnly := by
  intro hh
  generalize hline : sourceOnly=line at hh
  cases hh with
  | line hproto hsource hdest hport hdestPort hsrc hdst hsrcPort hdstPort hlen =>
    have hfields := v1Line_fields (proto_plain hproto) hsource hdest hport hdestPort
    rw [← hline,sourceOnly,v1Line_fields ⟨by decide,by decide⟩ ⟨by decide,by decide⟩
      ⟨by decide,by decide⟩ ⟨by decide,by decide⟩ ⟨by decide,by decide⟩] at hfields
    simp only [List.cons.injEq] at hfields
    have hnone : parseAddr (ascii "-")=none := by decide
    rw [← hfields.2.2.2.1,hnone] at hdst
    cases hdst
  | ipv4 hfam hsrc hdst hport hdestPort hlen => cases (List.cons.inj hline).1
  | ipv6 hfam hsrc hdst hport hdestPort hlen => cases (List.cons.inj hline).1

def sourcePieces : List (Arrival UInt8) := [.data 0x50 sourceOnly.tail]

theorem sourcePieces_sniff (rest : List (Arrival UInt8)) :
    Sniff localProxy localPeer (sourcePieces++rest)=.conn (.v4 0xcb007109,4711) ⟨[],rest⟩ := by
  have hpieces : pieces sourcePieces=sourceOnly := by decide
  have hdata : Data sourcePieces := fun a ha => ⟨_,_,List.mem_singleton.mp ha⟩
  have htrusted : contains localProxy localPeer.1.unmap=true := by decide
  have hheader : Header (pieces sourcePieces) (some (.v4 0xcb007109,4711)) := by
    rw [hpieces]
    exact sourceOnly_header
  exact sniff_header htrusted hdata hheader

/-- A header without a destination is believed too, and what comes behind it, in another piece, is
handed on. -/
theorem source_alone :
    (¬∀ trusted remote input out r, Sniff trusted remote input=.conn out r →
      out=remote∨contains trusted remote.1.unmap=true∧∃ src dst chunks, input=chunks++r.input∧
        Data chunks∧HeaderOf src dst (pieces chunks)∧out=(src.1.unmap,src.2))∧
    Sniff localProxy localPeer (sourcePieces++[.data 0x45 (ascii "HLO a\r\n")])=
      .conn (.v4 0xcb007109,4711) ⟨[],[.data 0x45 (ascii "HLO a\r\n")]⟩ := by
  refine ⟨?_,sourcePieces_sniff _⟩
  intro hclaim
  cases hclaim _ _ _ _ _ (sourcePieces_sniff []) with
  | inl hsame =>
    revert hsame
    decide
  | inr hsuch =>
    obtain ⟨-,src,dst,chunks,hinput,-,hheader,-⟩ := hsuch
    rw [← List.append_cancel_right hinput] at hheader
    exact sourceOnly_other hheader

end Kitp.ProxyHeaders
