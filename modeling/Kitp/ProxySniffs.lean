import Kitp.ProxyHeaders

/-! A connection is handed on after silence or one whole PROXY header, nothing else read. -/
namespace Kitp.ProxyHeaders

open Kitp.NetIP Kitp.BufReader Kitp.TrustedProxies

variable {input rest : List (Arrival UInt8)} {r r' : Reader UInt8} {line used s h body : Bytes}
  {src : Option AddrPort} {n : Nat} {b : UInt8} {trusted : Option Trusted} {remote : AddrPort}

/-- A v1 line, of six fields or of a proxy's own connection. The fourth field and the sixth aren't
read. -/
structure V1 (line : Bytes) (src : Option AddrPort) : Prop where
  start : line.take 6=ascii "PROXY "
  short : line.length≤107
  ended : ∃ body, line=body++[0x0d,0x0a]∧0x0a∉body
  source : (fields (trimSpace line))[1]?=some (ascii "UNKNOWN")∧src=none∨
    ∃ head proto source dest port destPort a n,
      fields (trimSpace line)=[head,proto,source,dest,port,destPort]∧
      (proto=ascii "TCP4"∨proto=ascii "TCP6")∧parseAddr source=some a∧parseUint 16 port=some n∧
      src=some (a.unmap,n)

/-- A v2 header: its command, family and length, and as many octets. -/
structure V2 (h : Bytes) (src : Option AddrPort) : Prop where
  parts : ∃ (verCmd fam hi lo : UInt8) (body : Bytes), h=v2Sig++[verCmd,fam,hi,lo]++body∧
    verCmd>>>4=2∧body.length=bigEndian [hi,lo]∧body.length≤216∧parseV2 verCmd fam body=.ok src

def Header (h : Bytes) (src : Option AddrPort) : Prop := V1 h src∨V2 h src

theorem parseV1_ok (h : parseV1 line=.ok src) :
    ((fields (trimSpace line))[1]?=some (ascii "UNKNOWN")∧src=none∨
      ∃ head proto source dest port destPort a n,
        fields (trimSpace line)=[head,proto,source,dest,port,destPort]∧
        (proto=ascii "TCP4"∨proto=ascii "TCP6")∧parseAddr source=some a∧
        parseUint 16 port=some n∧src=some (a.unmap,n))∧
    [0x0d,0x0a].isSuffixOf line=true := by
  unfold parseV1 at h
  split at h
  · cases h
  · rename_i hsuffix
    refine ⟨?_,not_not.mp hsuffix⟩
    dsimp only at h
    split at h
    · rename_i hunknown
      exact Or.inl ⟨hunknown,(Except.ok.inj h).symm⟩
    · split at h
      · rename_i head proto source dest port destPort hfields
        split at h
        · rename_i hproto
          split at h
          · rename_i a n ha hn
            exact Or.inr ⟨head,proto,source,dest,port,destPort,a,n,hfields,hproto,ha,hn,
              (Except.ok.inj h).symm⟩
          · cases h
        · cases h
      · cases h

theorem V1.parse (h : V1 line src) : parseV1 line=.ok src := by
  obtain ⟨body,rfl,-⟩ := h.ended
  have hsuffix : [0x0d,0x0a].isSuffixOf (body++[0x0d,0x0a])=true :=
    List.isSuffixOf_iff_suffix.mpr (List.suffix_append body _)
  unfold parseV1
  rw [if_neg (not_not.mpr hsuffix)]
  dsimp only
  rcases h.source with ⟨hunknown,rfl⟩ | ⟨head,proto,source,dest,port,destPort,a,n,hf,hproto,ha,hn,rfl⟩
  · rw [if_pos hunknown]
  · rw [hf]
    have hknown : ¬[head,proto,source,dest,port,destPort][1]?=some (ascii "UNKNOWN") := by
      intro heq
      have hproto' : proto=ascii "UNKNOWN" := Option.some.inj heq
      rw [hproto'] at hproto
      revert hproto
      decide
    rw [if_neg hknown]
    dsimp only
    rw [if_pos hproto,ha,hn]

/-- A line read: up to its newline, or as long as may be. -/
theorem readLine_read (hr : Read size input r used) (h : readLine n r line=.ok (s,r')) :
    ∃ more, s=line++more∧Read size input r' (used++more)∧more.length≤n∧
      ∀ body, more=body++[0x0a] → 0x0a∉body := by
  induction n generalizing r line used with
  | zero =>
    obtain ⟨rfl,rfl⟩ := Prod.mk.inj (Except.ok.inj h)
    refine ⟨[],(List.append_nil _).symm,?_,Nat.le_refl 0,?_⟩
    · rwa [List.append_nil]
    · intro body hbody
      exact absurd hbody.symm (List.append_ne_nil_of_right_ne_nil _ (List.cons_ne_nil _ _))
  | succ n ih =>
    unfold readLine at h
    split at h
    · cases h
    · rename_i b next hread
      have hnext := hr.readByte hread
      split at h
      · rename_i hnewline
        obtain ⟨rfl,rfl⟩ := Prod.mk.inj (Except.ok.inj h)
        refine ⟨[b],rfl,hnext,by simp,?_⟩
        intro body hbody
        cases body with
        | nil => exact List.not_mem_nil
        | cons c body =>
          obtain ⟨-,hrest⟩ := List.cons.inj hbody
          exact absurd hrest.symm (List.append_ne_nil_of_right_ne_nil _ (List.cons_ne_nil _ _))
      · rename_i hother
        obtain ⟨more,hs,hmore,hlen,hclean⟩ := ih hnext h
        refine ⟨b::more,?_,?_,by simpa using hlen,?_⟩
        · rw [hs,List.append_assoc,List.singleton_append]
        · rwa [List.append_assoc,List.singleton_append] at hmore
        · intro body hbody
          cases body with
          | nil =>
            rw [List.nil_append] at hbody
            exact absurd (List.cons.inj hbody).1 hother
          | cons c body =>
            obtain ⟨rfl,hrest⟩ := List.cons.inj hbody
            rw [List.mem_cons,not_or]
            exact ⟨fun hsame => hother hsame.symm,hclean body hrest⟩

theorem readFull_read (hr : Read size input r used) (h : readFull n r=.ok (s,r')) :
    Read size input r' (used++s)∧s.length=n := by
  induction n generalizing r used s with
  | zero =>
    obtain ⟨rfl,rfl⟩ := Prod.mk.inj (Except.ok.inj h)
    rw [List.append_nil]
    exact ⟨hr,rfl⟩
  | succ n ih =>
    unfold readFull at h
    split at h
    · cases h
    · rename_i b next hread
      have hnext := hr.readByte hread
      cases hfull : readFull n next with
      | error err =>
        rw [hfull] at h
        cases h
      | ok p =>
        obtain ⟨buf,last⟩ := p
        rw [hfull] at h
        obtain ⟨rfl,rfl⟩ := Prod.mk.inj (Except.ok.inj h)
        obtain ⟨hlast,hlen⟩ := ih hnext hfull
        rw [List.append_assoc,List.singleton_append] at hlast
        exact ⟨hlast,by rw [List.length_cons,hlen]⟩

/-- A line starts with what the buffer holds before any newline. -/
theorem readLine_start {p q : Bytes} (hr : Read size input r used) (hbuf : r.buf=p++q)
    (hclean : 0x0a∉p) (hlen : p.length≤n) (h : readLine n r line=.ok (s,r')) :
    line++p<+:s := by
  induction p generalizing n r used line with
  | nil =>
    obtain ⟨more,rfl,-⟩ := readLine_read hr h
    rw [List.append_nil]
    exact List.prefix_append line more
  | cons c p ih =>
    cases n with
    | zero => exact absurd hlen (Nat.not_succ_le_zero _)
    | succ n =>
      have hread : readByte size r=.ok (c,⟨p++q,r.input⟩) := by
        unfold readByte
        rw [hbuf]
        rfl
      have hnext := hr.readByte hread
      unfold readLine at h
      rw [hread] at h
      dsimp only at h
      rw [List.mem_cons,not_or] at hclean
      rw [if_neg fun hsame => hclean.1 hsame.symm] at h
      have hrest := ih hnext rfl hclean.2 (Nat.le_of_succ_le_succ hlen) h
      rwa [List.append_assoc,List.singleton_append] at hrest

theorem readFull_start {p q : Bytes} (hbuf : r.buf=p++q) (hlen : p.length≤n)
    (h : readFull n r=.ok (s,r')) : p<+:s := by
  induction p generalizing n r s with
  | nil => exact List.nil_prefix
  | cons c p ih =>
    cases n with
    | zero => exact absurd hlen (Nat.not_succ_le_zero _)
    | succ n =>
      have hread : readByte size r=.ok (c,⟨p++q,r.input⟩) := by
        unfold readByte
        rw [hbuf]
        rfl
      unfold readFull at h
      rw [hread] at h
      dsimp only at h
      cases hfull : readFull n ⟨p++q,r.input⟩ with
      | error err =>
        rw [hfull] at h
        cases h
      | ok more =>
        obtain ⟨buf,last⟩ := more
        rw [hfull] at h
        obtain ⟨rfl,rfl⟩ := Prod.mk.inj (Except.ok.inj h)
        exact List.prefix_cons_inj c |>.mpr (ih rfl (Nat.le_of_succ_le_succ hlen) hfull)

/-- Where reading a header ends well, it has read one. -/
theorem readV1_header (hr : Read size input r []) (h : readV1 r=.ok (src,r')) :
    ∃ line, Read size input r' line∧line.length < size∧Header line src := by
  unfold readV1 at h
  split at h
  · cases h
  · rename_i next hpeek
    obtain ⟨hnext,hlong⟩ := hr.peek hpeek
    split at h
    · cases h
    · rename_i hstart
      split at h
      · cases h
      · rename_i line last hline
        obtain ⟨more,hsame,hread,hlen,hclean⟩ := readLine_read hnext hline
        rw [List.nil_append] at hsame hread
        subst hsame
        have hhead : next.buf=ascii "PROXY "++next.buf.drop 6 := by
          rw [← not_not.mp hstart,List.take_append_drop]
        have hprefix := readLine_start hnext hhead (by decide) (by decide) hline
        rw [List.nil_append] at hprefix
        cases hparse : parseV1 line with
        | error err =>
          rw [hparse] at h
          cases h
        | ok p =>
          rw [hparse] at h
          obtain ⟨rfl,rfl⟩ := Prod.mk.inj (Except.ok.inj h)
          obtain ⟨hsource,hsuffix⟩ := parseV1_ok hparse
          obtain ⟨body,hbody⟩ := List.isSuffixOf_iff_suffix.mp hsuffix
          refine ⟨line,hread,by unfold size; omega,Or.inl ⟨?_,hlen,⟨body,hbody.symm,?_⟩,hsource⟩⟩
          · obtain ⟨behind,rfl⟩ := hprefix
            exact List.take_left' (by decide)
          · have hclean' := hclean (body++[0x0d]) (by rw [← hbody]; simp)
            exact fun hmem => hclean' (List.mem_append_left _ hmem)

theorem four_octets (h : s.length=4) : ∃ a b c d, s=[a,b,c,d] := by
  match s,h with
  | [a,b,c,d],_ => exact ⟨a,b,c,d,rfl⟩

theorem readV2_header (hr : Read size input r []) (h : readV2 r=.ok (src,r')) :
    ∃ buf, Read size input r' buf∧buf.length < size∧Header buf src := by
  unfold readV2 at h
  split at h
  · cases h
  · rename_i next hpeek
    obtain ⟨hnext,hlong⟩ := hr.peek hpeek
    dsimp only at h
    generalize hhead : next.buf.take 16=head at h
    have hlen : head.length=16 := by
      rw [← hhead,List.length_take,Nat.min_eq_left hlong]
    have hbuf : next.buf=head++next.buf.drop 16 := by
      rw [← hhead,List.take_append_drop]
    split at h
    · cases h
    · rename_i hsig
      split at h
      · cases h
      · rename_i hversion
        rw [not_or,not_not,Nat.not_lt] at hversion
        split at h
        · cases h
        · rename_i buf last hfull
          obtain ⟨hread,hall⟩ := readFull_read hnext hfull
          rw [List.nil_append] at hread
          obtain ⟨body,rfl⟩ := readFull_start hbuf (by omega) hfull
          obtain ⟨verCmd,fam,hi,lo,hfour⟩ := four_octets (s := head.drop 12) (by simp [hlen])
          have hparts : head=v2Sig++[verCmd,fam,hi,lo] := by
            rw [← not_not.mp hsig,← hfour,List.take_append_drop]
          subst hparts
          have hversion' : verCmd>>>4=2∧bigEndian [hi,lo]≤216 := hversion
          have hbody : body.length=bigEndian [hi,lo] := by
            have hwhole : (v2Sig++[verCmd,fam,hi,lo]++body).length=16+bigEndian [hi,lo] := hall
            have hsixteen : (v2Sig++[verCmd,fam,hi,lo]).length=16 := rfl
            rw [List.length_append,hsixteen] at hwhole
            omega
          have hparsed : (parseV2 verCmd fam body).map (fun src => (src,last))=.ok (src,r') := h
          cases hparse : parseV2 verCmd fam body with
          | error err =>
            rw [hparse] at hparsed
            cases hparsed
          | ok p =>
            rw [hparse] at hparsed
            obtain ⟨rfl,rfl⟩ := Prod.mk.inj (Except.ok.inj hparsed)
            refine ⟨_,hread,?_,Or.inr ⟨verCmd,fam,hi,lo,body,rfl,hversion'.1,hbody,?_,hparse⟩⟩
            · rw [hall]
              have hshort : bigEndian [hi,lo]≤216 := hversion'.2
              show 16+bigEndian [hi,lo] < 512
              omega
            · omega

/-- What a run of `Sniff` that hands the connection on has read. -/
def Heard (trusted : Option Trusted) (remote : AddrPort) (input : List (Arrival UInt8))
    (out : AddrPort) (rest : List (Arrival UInt8)) : Prop :=
  (input=.timeout::rest∧out=remote)∨
    contains trusted remote.1.unmap=true∧∃ chunks src, input=chunks++rest∧Data chunks∧
      Header (pieces chunks) src∧out=src.getD remote

theorem sniff_heard {out : AddrPort} (h : Sniff trusted remote input=.conn out r) :
    r.buf=[]∧Heard trusted remote input out r.input := by
  unfold Sniff at h
  split at h
  · rename_i next hpeek
    obtain ⟨rest,hinput,rfl⟩ := peek_silence (by decide) hpeek
    injection h with hout hlast
    subst hlast
    exact ⟨rfl,Or.inl ⟨hinput,hout.symm⟩⟩
  · cases h
  · rename_i next hpeek
    obtain ⟨hnext,-⟩ := (read_start size input).peek hpeek
    dsimp only at h
    split at h
    · cases h
    · split at h
      · cases h
      · cases h
      · rename_i src last hread
        split at h
        · cases h
        · rename_i htrusted
          split at h
          · cases h
          · rename_i hbuf
            injection h with hout hlast
            subst hlast
            have hheader : ∃ h, Read size input last h∧h.length < size∧Header h src := by
              split at hread
              · exact readV1_header hnext hread
              · exact readV2_header hnext hread
            obtain ⟨h,hused,hfew,hheader⟩ := hheader
            obtain ⟨chunks,hinput,hdata,rfl⟩ := hused.whole (not_not.mp hbuf) hfew
            exact ⟨not_not.mp hbuf,Or.inr ⟨not_not.mp htrusted,chunks,src,hinput,hdata,hheader,
              hout.symm⟩⟩

theorem ahead_take (h : Ahead size rest r s) (hn : n ≤ r.buf.length) : r.buf.take n=s.take n := by
  obtain ⟨chunks,-,-,rfl⟩ := h.split
  rw [List.take_append_of_le_length hn]

theorem readLine_ahead (h : Ahead size rest r (body++[0x0a])) (hclean : 0x0a∉body)
    (hlen : body.length < n) :
    ∃ r', readLine n r line=.ok (line++body++[0x0a],r')∧Ahead size rest r' [] := by
  induction body generalizing n r line with
  | nil =>
    cases n with
    | zero => exact absurd hlen (Nat.not_lt_zero _)
    | succ n =>
      obtain ⟨r',hread,hahead⟩ := h.readByte
      refine ⟨r',?_,hahead⟩
      unfold readLine
      rw [hread]
      simp
  | cons c body ih =>
    cases n with
    | zero => exact absurd hlen (Nat.not_lt_zero _)
    | succ n =>
      obtain ⟨next,hread,hahead⟩ := h.readByte
      rw [List.mem_cons,not_or] at hclean
      obtain ⟨r',hline,hdone⟩ := ih hahead hclean.2 (Nat.lt_of_succ_lt_succ hlen)
      refine ⟨r',?_,hdone⟩
      unfold readLine
      rw [hread]
      dsimp only
      rw [if_neg fun hsame => hclean.1 hsame.symm,hline]
      simp

theorem readFull_ahead (h : Ahead size rest r s) :
    ∃ r', readFull s.length r=.ok (s,r')∧Ahead size rest r' [] := by
  induction s generalizing r with
  | nil => exact ⟨r,rfl,h⟩
  | cons b s ih =>
    obtain ⟨next,hread,hahead⟩ := h.readByte
    obtain ⟨r',hfull,hdone⟩ := ih hahead
    refine ⟨r',?_,hdone⟩
    rw [List.length_cons]
    unfold readFull
    rw [hread]
    dsimp only
    rw [hfull]
    rfl

/-- Any header is read, however it comes in pieces. -/
theorem readV1_ahead (hh : V1 h src) (hr : Ahead size rest r h) :
    readV1 r=.ok (src,⟨[],rest⟩) := by
  obtain ⟨body,hbody,hclean⟩ := hh.ended
  have hlong : 6≤h.length := by
    have hsix := congrArg List.length hh.start
    rw [List.length_take] at hsix
    have hascii : (ascii "PROXY ").length=6 := by decide
    omega
  obtain ⟨next,hpeek,hnext,hle⟩ := hr.peek hlong
  have hparse := hh.parse
  have hshort := hh.short
  rw [hbody] at hshort
  have hline : h=(body++[0x0d])++[0x0a] := by rw [hbody]; simp
  have hclean' : 0x0a∉body++[0x0d] := by
    rw [List.mem_append,not_or]
    exact ⟨hclean,by decide⟩
  have hroom : (body++[0x0d]).length < 107 := by
    simp only [List.length_append,List.length_cons,List.length_nil] at hshort ⊢
    omega
  have hread : ∃ r', readLine 107 next []=.ok ([]++(body++[0x0d])++[0x0a],r')∧
      Ahead size rest r' [] := readLine_ahead (hline ▸ hnext) hclean' hroom
  obtain ⟨r',hread,hdone⟩ := hread
  unfold readV1
  rw [hpeek]
  dsimp only
  rw [ahead_take hnext hle,hh.start,if_neg (not_not.mpr rfl),hread]
  dsimp only
  rw [List.nil_append,← hline,hparse,hdone.done]
  rfl

theorem readV2_ahead (hh : V2 h src) (hr : Ahead size rest r h) :
    readV2 r=.ok (src,⟨[],rest⟩) := by
  obtain ⟨verCmd,fam,hi,lo,body,rfl,hversion,hlen,hshort,hparse⟩ := hh.parts
  have hsixteen : (v2Sig++[verCmd,fam,hi,lo]).length=16 := rfl
  have hlong : 16≤(v2Sig++[verCmd,fam,hi,lo]++body).length := by
    rw [List.length_append,hsixteen]
    omega
  obtain ⟨next,hpeek,hnext,hle⟩ := hr.peek hlong
  have hhead : next.buf.take 16=v2Sig++[verCmd,fam,hi,lo] := by
    rw [ahead_take hnext hle]
    exact List.take_left' hsixteen
  obtain ⟨r',hread,hdone⟩ := readFull_ahead hnext
  have hwhole : (v2Sig++[verCmd,fam,hi,lo]++body).length=16+bigEndian [hi,lo] := by
    rw [List.length_append,hsixteen,hlen]
  rw [hwhole] at hread
  have hbits : ¬(verCmd>>>4≠2∨216 < bigEndian [hi,lo]) := by
    rw [not_or,not_not,Nat.not_lt,← hlen]
    exact ⟨hversion,hshort⟩
  unfold readV2
  rw [hpeek]
  dsimp only
  rw [hhead]
  show (if v2Sig≠v2Sig then _ else if verCmd>>>4≠2∨216 < bigEndian [hi,lo] then _ else _)=_
  rw [if_neg (not_not.mpr rfl),if_neg hbits]
  have hsize : bigEndian ((v2Sig++[verCmd,fam,hi,lo]).drop 14)=bigEndian [hi,lo] := rfl
  rw [hsize,hread]
  show (parseV2 verCmd fam body).map (fun src => (src,r'))=_
  rw [hparse,hdone.done]
  rfl

theorem header_first (hh : Header h src) : ∃ b more, h=b::more∧(b=0x50∨b=0x0d) := by
  rcases hh with hv1 | hv2
  · obtain ⟨b,more,rfl⟩ : ∃ b more, h=b::more := by
      refine List.exists_cons_of_ne_nil ?_
      rintro rfl
      have hstart := hv1.start
      revert hstart
      decide
    have hletter : (ascii "PROXY ").head?=some 0x50 := by decide
    rw [← hv1.start] at hletter
    exact ⟨b,more,rfl,Or.inl (Option.some.inj hletter)⟩
  · obtain ⟨verCmd,fam,hi,lo,body,rfl,-⟩ := hv2.parts
    exact ⟨_,_,rfl,Or.inr rfl⟩

theorem header_short (hh : Header h src) : h.length ≤ size := by
  rcases hh with hv1 | hv2
  · exact hv1.short.trans (by decide)
  · obtain ⟨verCmd,fam,hi,lo,body,rfl,-,-,hshort,-⟩ := hv2.parts
    have hsixteen : (v2Sig++[verCmd,fam,hi,lo]).length=16 := rfl
    rw [List.length_append,hsixteen]
    unfold size
    omega

/-- A trusted peer's header gives the connection its source. -/
theorem sniff_header {chunks : List (Arrival UInt8)} (htrusted : contains trusted remote.1.unmap=true)
    (hdata : Data chunks) (hh : Header (pieces chunks) src) :
    Sniff trusted remote (chunks++rest)=.conn (src.getD remote) ⟨[],rest⟩ := by
  obtain ⟨b,more,hfirst,hb⟩ := header_first hh
  have hstart : Ahead size rest ⟨[],chunks++rest⟩ (pieces chunks) :=
    ⟨⟨chunks,rfl,hdata,rfl⟩,header_short hh⟩
  have hone : 1≤(pieces chunks).length := by
    rw [hfirst]
    exact Nat.succ_pos _
  obtain ⟨next,hpeek,hnext,hle⟩ := hstart.peek hone
  have hhead : next.buf.head?=some b := by
    have htake := ahead_take hnext hle
    rw [hfirst] at htake
    cases hbuf : next.buf with
    | nil =>
      rw [hbuf] at hle
      exact absurd hle (Nat.not_succ_le_zero 0)
    | cons c buf =>
      rw [hbuf] at htake
      rw [(List.cons.inj htake).1]
      rfl
  have hread : (if b=0x50 then readV1 next else readV2 next)=.ok (src,⟨[],rest⟩) := by
    rcases hh with hv1 | hv2
    · have hletter : (ascii "PROXY ").head?=some 0x50 := by decide
      rw [← hv1.start,hfirst] at hletter
      rw [if_pos (Option.some.inj hletter)]
      exact readV1_ahead hv1 hnext
    · obtain ⟨verCmd,fam,hi,lo,body,hparts,-⟩ := hv2.parts
      rw [hfirst] at hparts
      have hreturn : b=0x0d := (List.cons.inj hparts).1
      rw [if_neg (by rw [hreturn]; decide)]
      exact readV2_ahead hv2 hnext
  unfold Sniff
  rw [hpeek]
  dsimp only
  rw [hhead]
  have hproxy : ¬(¬some b=some 0x50∧¬some b=some 0x0d) := by
    rintro ⟨hnot,hnot'⟩
    cases hb with
    | inl h => exact hnot (congrArg some h)
    | inr h => exact hnot' (congrArg some h)
  rw [if_neg hproxy]
  simp only [Option.some.injEq]
  rw [hread]
  dsimp only
  rw [if_neg (not_not.mpr htrusted),if_neg (not_not.mpr rfl)]

theorem sniff_silence (trusted : Option Trusted) (remote : AddrPort)
    (rest : List (Arrival UInt8)) :
    Sniff trusted remote (.timeout::rest)=.conn remote ⟨[],rest⟩ := by
  have hpeek : peek size 1 (⟨[],.timeout::rest⟩ : Reader UInt8)=(⟨[],rest⟩,some .timeout) := by
    rw [peek.eq_def,dif_pos ⟨Nat.one_pos,Nat.zero_lt_succ 511⟩]
    split
    · rename_i hfill
      cases hfill
    · rename_i hfill
      cases hfill
      rfl
  unfold Sniff
  rw [hpeek]

end Kitp.ProxyHeaders
