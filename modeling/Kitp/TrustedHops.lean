import Kitp.Lib.Steps
import Kitp.TrustedProxies

/-! No client's text is believed: only private ranges are trusted, and the first hop outside them is
the client. -/
namespace Kitp.TrustedProxies

open Kitp.NetIP

variable {t : Option Trusted} {a last : Addr} {p : Prefix} {lines : List Bytes} {s entry : Bytes}
  {style : Style}

/-- The prefix lies inside a private range. -/
def Inside (p : Prefix) : Prop := ∃ q∈privateNets, ∀ a, p.contains a=true → q.contains a=true

theorem parseEntry_inside (h : parseEntry s=.ok p) : Inside p := by
  unfold parseEntry at h
  dsimp only at h
  split at h
  · cases h
  · split at h
    · rename_i hinside
      obtain ⟨q,hq,hboth⟩ := List.any_eq_true.mp hinside
      obtain ⟨hbits,hcontains⟩ := of_decide_eq_true hboth
      rw [← Except.ok.inj h]
      exact ⟨q,hq,fun a ha => Prefix.contains_trans hbits hcontains ha⟩
    · cases h

theorem defaultTrusted_inside (hp : p∈defaultTrusted) : Inside p := by
  refine ⟨p,?_,fun _ ha => ha⟩
  unfold defaultTrusted at hp
  unfold privateNets
  obtain ⟨text,htext,rfl⟩ := List.mem_map.mp hp
  refine List.mem_map_of_mem ?_
  revert text
  decide

theorem mapM_inside {fields : List Bytes} {nets : List Prefix}
    (h : fields.mapM parseEntry=.ok nets) (hp : p∈nets) : Inside p := by
  obtain ⟨f,-,hf⟩ := Steps.mapM_mem h hp
  exact parseEntry_inside hf

/-- Whatever is set, no one outside the private ranges is trusted. -/
theorem parseTrusted_private {t : Trusted} (h : ParseTrusted s=.ok t)
    (ha : contains (some t) a=true) : IsPrivate a=true := by
  have hnets : ∀ p∈t.nets, Inside p := by
    unfold ParseTrusted at h
    split at h
    · rw [← Except.ok.inj h]
      exact fun p hp => defaultTrusted_inside hp
    · cases hmap : (trustedFields s).mapM parseEntry with
      | error err =>
        rw [hmap] at h
        cases h
      | ok nets =>
        rw [hmap] at h
        rw [← Except.ok.inj h]
        exact fun p hp => mapM_inside hmap hp
  obtain ⟨-,hany⟩ := of_decide_eq_true ha
  obtain ⟨p,hp,hcontains⟩ := List.any_eq_true.mp hany
  obtain ⟨q,hq,hle⟩ := hnets p hp
  exact List.any_eq_true.mpr ⟨q,hq,hle _ hcontains⟩

theorem trimSpace_blank (s : Bytes) : trimSpace (0x20::s)=trimSpace s := by
  have hfront : trimFront whiteSpace (0x20::s).length (0x20::s)=trimFront whiteSpace s.length s := rfl
  unfold trimSpace
  rw [hfront]

/-- The entries, without the blanks around them. -/
def trimmed (lines : List Bytes) : List Bytes := (hopsOf lines).map trimSpace

theorem intercalate_concat (sep : Bytes) (h : lines≠[]) :
    sep.intercalate (lines++[entry])=sep.intercalate lines++sep++entry := by
  induction lines with
  | nil => exact absurd rfl h
  | cons l rest ih =>
    cases rest with
    | nil => simp
    | cons l' rest =>
      have hrest := ih (List.cons_ne_nil l' rest)
      simp only [List.cons_append] at hrest ⊢
      rw [List.intercalate_cons_cons,List.intercalate_cons_cons,hrest]
      simp only [List.append_assoc]

/-- A blank at the start makes no difference to the entries. -/
theorem split_blank (s : Bytes) :
    ((0x20::s).splitOn 0x2c).map trimSpace=(s.splitOn 0x2c).map trimSpace := by
  rw [List.splitOn_cons_eq_if_modifyHead,if_neg (by decide)]
  cases s.splitOn 0x2c with
  | nil => rfl
  | cons first rest =>
    rw [List.modifyHead_cons,List.map_cons,List.map_cons,trimSpace_blank]

/-- Lines joined with a comma and a blank have the same entries. -/
theorem joined_trimmed (lines : List Bytes) :
    (([0x2c,0x20].intercalate lines).splitOn 0x2c).map trimSpace=trimmed lines := by
  unfold trimmed hopsOf
  induction lines with
  | nil => rfl
  | cons l rest ih =>
    cases rest with
    | nil => rfl
    | cons l' rest =>
      rw [List.intercalate_cons_cons,List.intercalate_cons_cons]
      have hblank : l++[0x2c,0x20]++[0x2c,0x20].intercalate (l'::rest)=
          l++0x2c::0x20::[0x2c,0x20].intercalate (l'::rest) := by simp
      have hcomma : l++[0x2c]++[0x2c].intercalate (l'::rest)=
          l++0x2c::[0x2c].intercalate (l'::rest) := by simp
      rw [hblank,hcomma,List.splitOn_append_cons_self,List.splitOn_append_cons_self,List.map_append,
        List.map_append,split_blank,ih]

theorem entry_trimmed (hcomma : (0x2c : UInt8)∉entry) :
    (entry.splitOn 0x2c).map trimSpace=[trimSpace entry] := by
  rw [List.splitOn_eq_singleton hcomma]
  rfl

theorem forward_ne_nil : forward lines style entry≠[] := by
  unfold forward
  split
  · exact List.cons_ne_nil _ _
  · exact List.append_ne_nil_of_right_ne_nil _ (List.cons_ne_nil _ _)
  · exact List.append_ne_nil_of_right_ne_nil _ (List.cons_ne_nil _ _)
  · exact List.cons_ne_nil _ _

/-- A proxy adds its entry behind the others, whichever way. -/
theorem forward_trimmed (hcomma : (0x2c : UInt8)∉entry) (h : lines≠[]) :
    trimmed (forward lines style entry)=trimmed lines++[trimSpace entry] := by
  obtain ⟨first,line,rfl⟩ := (List.eq_nil_or_concat' lines).resolve_left h
  have hlast : (first++[line]).getLast?=some line := List.getLast?_concat
  have hadded : ∀ s : Bytes, ((s++0x2c::0x20::entry).splitOn 0x2c).map trimSpace=
      (s.splitOn 0x2c).map trimSpace++[trimSpace entry] := by
    intro s
    rw [List.splitOn_append_cons_self,List.map_append,split_blank,entry_trimmed hcomma]
  unfold forward
  rw [hlast]
  cases style with
  | line =>
    dsimp only
    unfold trimmed hopsOf
    rw [intercalate_concat _ h,List.append_assoc,List.singleton_append,
      List.splitOn_append_cons_self,List.map_append,entry_trimmed hcomma]
  | last =>
    dsimp only
    rw [List.dropLast_concat]
    have hjoin : [0x2c].intercalate (first++[line++0x2c::0x20::entry])=
        [0x2c].intercalate (first++[line])++0x2c::0x20::entry := by
      cases first with
      | nil => simp
      | cons l rest =>
        rw [intercalate_concat _ (List.cons_ne_nil l rest),
          intercalate_concat _ (List.cons_ne_nil l rest)]
        simp only [List.append_assoc]
    unfold trimmed hopsOf
    rw [hjoin,hadded]
  | joined =>
    dsimp only
    have hentries := hadded ([0x2c,0x20].intercalate (first++[line]))
    rw [joined_trimmed] at hentries
    unfold trimmed at hentries ⊢
    unfold hopsOf at hentries ⊢
    rw [List.intercalate_singleton,hentries]

/-- An entry a proxy adds, and how. -/
structure Entry where
  text : Bytes
  style : Style
  comma : (0x2c : UInt8)∉text

def forwardAll (lines : List Bytes) (entries : List Entry) : List Bytes :=
  entries.foldl (fun lines e => forward lines e.style e.text) lines

theorem forwardAll_trimmed (entries : List Entry) (h : lines≠[]) :
    trimmed (forwardAll lines entries)=
      trimmed lines++entries.map fun e => trimSpace e.text := by
  induction entries generalizing lines with
  | nil => exact (List.append_nil _).symm
  | cons e entries ih =>
    show trimmed (forwardAll (forward lines e.style e.text) entries)=_
    rw [ih forward_ne_nil,forward_trimmed e.comma h,List.map_cons,List.append_assoc,
      List.singleton_append]

/-- The entries stand behind whatever came with the request. -/
theorem forwardAll_behind (lines : List Bytes) (e : Entry) (entries : List Entry) :
    ∃ own, trimmed (forwardAll lines (e::entries))=
      own++(e::entries).map fun e => trimSpace e.text := by
  by_cases h : lines=[]
  · refine ⟨[],?_⟩
    subst h
    show trimmed (forwardAll (forward [] e.style e.text) entries)=_
    rw [forwardAll_trimmed _ forward_ne_nil]
    have hfirst : forward [] e.style e.text=[e.text] := by
      unfold forward
      cases e.style <;> rfl
    have hone : trimmed [e.text]=[trimSpace e.text] := by
      unfold trimmed hopsOf
      rw [List.intercalate_singleton,entry_trimmed e.comma]
    rw [hfirst,hone]
    rfl
  · exact ⟨trimmed lines,forwardAll_trimmed _ h⟩

/-- Only the entries without their blanks matter. -/
theorem walk_congr {hops hops' : List Bytes} (h : hops.map trimSpace=hops'.map trimSpace)
    (last : Addr) : walk t hops last=walk t hops' last := by
  induction hops generalizing hops' last with
  | nil =>
    rw [List.map_nil] at h
    rw [List.map_eq_nil_iff.mp h.symm]
  | cons hop hops ih =>
    cases hops' with
    | nil => cases h
    | cons hop' hops' =>
      rw [List.map_cons,List.map_cons] at h
      obtain ⟨hsame,hrest⟩ := List.cons.inj h
      unfold walk
      rw [hsame]
      split
      · exact ih hrest last
      · split
        · rfl
        · rename_i a _
          rw [ih hrest a]

/-- The entry is no trusted hop's. -/
def Stops (t : Option Trusted) (text : Bytes) : Prop :=
  trimSpace text≠[]∧∀ a, hopAddr (trimSpace text)=some a → contains t a=false

/-- What stands behind an entry that isn't trusted isn't read. -/
theorem walk_stops {hop : Bytes} (h : Stops t hop) (before after : List Bytes) (last : Addr) :
    walk t (before++hop::after) last=walk t (before++[hop]) last := by
  induction before generalizing last with
  | nil =>
    rw [List.nil_append,List.nil_append]
    unfold walk
    rw [if_neg h.1,if_neg h.1]
    split
    · rfl
    · rename_i a ha
      rw [h.2 a ha,if_neg Bool.false_ne_true,if_neg Bool.false_ne_true]
  | cons first before ih =>
    rw [List.cons_append,List.cons_append]
    unfold walk
    split
    · exact ih last
    · split
      · rfl
      · rename_i a _
        rw [ih a]

theorem hopAddr_ne_nil {h : Bytes} (ha : hopAddr h=some a) : h≠[] := by
  rintro rfl
  cases ha

/-- Trusted hops are passed over. -/
theorem walk_client {hop : Bytes} {before : List Bytes}
    (hbefore : ∀ b∈before, ∃ a, hopAddr (trimSpace b)=some a∧contains t a=true)
    (hhop : hopAddr (trimSpace hop)=some a) (ha : contains t a=false) (after : List Bytes)
    (last : Addr) : walk t (before++hop::after) last=a := by
  induction before generalizing last with
  | nil =>
    rw [List.nil_append]
    unfold walk
    rw [if_neg (hopAddr_ne_nil hhop),hhop]
    dsimp only
    rw [ha,if_neg Bool.false_ne_true]
  | cons first before ih =>
    obtain ⟨b,hb,htrusted⟩ := hbefore first List.mem_cons_self
    rw [List.cons_append]
    unfold walk
    rw [if_neg (hopAddr_ne_nil hb),hb]
    dsimp only
    rw [htrusted,if_pos rfl]
    exact ih (fun c hc => hbefore c (List.mem_cons_of_mem first hc)) b

/-- A hop of a chain: its address, and the entry its proxy adds for it. -/
structure Hop extends Entry where
  address : Addr
  reads : hopAddr (trimSpace text)=some address

/-- The hops as they are read: those of the chain, its last first, then what came with the request. -/
theorem hopsOf_chain (lines : List Bytes) (e : Entry) (entries : List Entry) :
    ∃ chain own, (hopsOf (forwardAll lines (e::entries))).reverse=chain++own∧
      chain.map trimSpace=((e::entries).map fun e => trimSpace e.text).reverse := by
  obtain ⟨own,hown⟩ := forwardAll_behind lines e entries
  obtain ⟨first,rest,hsplit,-,hrest⟩ := List.map_eq_append_iff.mp hown
  refine ⟨rest.reverse,first.reverse,?_,?_⟩
  · rw [hsplit,List.reverse_append]
  · rw [List.map_reverse,hrest]

/-- Behind trusted proxies the client's address is the one they give, whatever header it sent. -/
theorem clientIP_chain {remoteAddr : Bytes} (hpeer : contains t (peerOf remoteAddr)=true)
    {client : Hop} {proxies : List Hop} (hproxies : ∀ h∈proxies, contains t h.address=true)
    (hclient : contains t client.address=false) (lines : List Bytes) :
    ClientIP t remoteAddr (forwardAll lines ((client::proxies).map Hop.toEntry))=
      client.address := by
  obtain ⟨chain,own,hhops,htexts⟩ := hopsOf_chain lines client.toEntry (proxies.map Hop.toEntry)
  unfold ClientIP
  dsimp only
  rw [if_pos hpeer,List.map_cons,hhops]
  rw [List.map_cons,List.reverse_cons] at htexts
  obtain ⟨before,hop,hchain,hbefore,hhop⟩ := List.map_eq_append_iff.mp htexts
  obtain ⟨last,hlast,hlast'⟩ := List.map_eq_singleton_iff.mp hhop
  rw [hchain,hlast,List.append_assoc,List.singleton_append]
  refine walk_client ?_ (hlast' ▸ client.reads) hclient own _
  intro b hb
  have hmem : trimSpace b∈before.map trimSpace := List.mem_map_of_mem hb
  rw [hbefore,List.mem_reverse,List.map_map] at hmem
  obtain ⟨h,hh,hsame⟩ := List.mem_map.mp hmem
  exact ⟨h.address,hsame ▸ h.reads,hproxies h hh⟩

/-- An entry that isn't a trusted hop's hides all that came with the request. -/
theorem clientIP_stops {remoteAddr : Bytes} {entries : List Entry}
    (h : ∃ e∈entries, Stops t e.text) (lines lines' : List Bytes) :
    ClientIP t remoteAddr (forwardAll lines entries)=
      ClientIP t remoteAddr (forwardAll lines' entries) := by
  obtain ⟨e,he,hstops⟩ := h
  cases entries with
  | nil => exact absurd he List.not_mem_nil
  | cons first entries =>
    obtain ⟨chain,own,hhops,htexts⟩ := hopsOf_chain lines first entries
    obtain ⟨chain',own',hhops',htexts'⟩ := hopsOf_chain lines' first entries
    have hcut : ∃ before after : List Bytes, ∃ hop, chain=before++hop::after∧Stops t hop := by
      have hmem : trimSpace e.text∈chain.map trimSpace := by
        rw [htexts,List.mem_reverse]
        exact List.mem_map_of_mem he
      obtain ⟨hop,hhop,hsame⟩ := List.mem_map.mp hmem
      obtain ⟨before,after,hsplit⟩ := List.append_of_mem hhop
      refine ⟨before,after,hop,hsplit,?_⟩
      unfold Stops
      rw [hsame]
      exact hstops
    obtain ⟨before,after,hop,rfl,hhop⟩ := hcut
    obtain ⟨before',more,rfl,hbefore,hmore⟩ := List.map_eq_append_iff.mp
      (htexts'.trans (htexts.symm.trans List.map_append))
    obtain ⟨hop',after',rfl,hsame,-⟩ := List.map_eq_cons_iff.mp hmore
    have hhop' : Stops t hop' := by
      unfold Stops
      rw [hsame]
      exact hhop
    have hends : (before++[hop]).map trimSpace=(before'++[hop']).map trimSpace := by
      rw [List.map_append,List.map_append,hbefore,List.map_singleton,List.map_singleton,hsame]
    unfold ClientIP
    dsimp only
    rw [hhops,hhops',List.append_assoc,List.append_assoc,List.cons_append,List.cons_append,
      walk_stops hhop,walk_stops hhop',walk_congr hends]

/-- The header counts only from a trusted peer, and from its chain of trusted proxies only what they
added; and none but private addresses are trusted. -/
theorem clientIP_believes (t : Option Trusted) (remoteAddr : Bytes) :
    (contains t (peerOf remoteAddr)=false →
      ∀ lines, ClientIP t remoteAddr lines=peerOf remoteAddr)∧
    (contains t (peerOf remoteAddr)=true → ∀ (client : Hop) (proxies : List Hop),
      (∀ h∈proxies, contains t h.address=true) → contains t client.address=false →
        ∀ lines, ClientIP t remoteAddr (forwardAll lines ((client::proxies).map Hop.toEntry))=
          client.address)∧
    (∀ entries : List Entry, (∃ e∈entries, Stops t e.text) → ∀ lines lines',
      ClientIP t remoteAddr (forwardAll lines entries)=
        ClientIP t remoteAddr (forwardAll lines' entries))∧
    ∀ s t', ParseTrusted s=.ok t' → ∀ a, contains (some t') a=true → IsPrivate a=true := by
  refine ⟨?_,?_,?_,?_⟩
  · intro hpeer lines
    unfold ClientIP
    dsimp only
    rw [hpeer,if_neg Bool.false_ne_true]
  · intro hpeer client proxies hproxies hclient lines
    exact clientIP_chain hpeer hproxies hclient lines
  · intro entries h lines lines'
    exact clientIP_stops h lines lines'
  · intro s t' h a ha
    exact parseTrusted_private h ha

/-- A client that names itself `1.2.3.4`, behind one proxy. -/
def visitor : Hop where
  text := ascii "203.0.113.9:4711"
  style := .joined
  comma := by decide
  address := .v4 0xcb007109
  reads := by decide

theorem clientIP_believes_visitor : ClientIP (some ⟨defaultTrusted,false⟩) (ascii "10.0.0.2:443")
    (forward [ascii "1.2.3.4, 10.0.0.7"] .joined (ascii "203.0.113.9:4711"))=.v4 0xcb007109 := by
  obtain ⟨-,hchain,-⟩ := clientIP_believes (some ⟨defaultTrusted,false⟩) (ascii "10.0.0.2:443")
  exact hchain (by decide) visitor [] (fun h hh => absurd hh List.not_mem_nil)
    (by decide) [ascii "1.2.3.4, 10.0.0.7"]

end Kitp.TrustedProxies
