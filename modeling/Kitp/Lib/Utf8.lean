import Mathlib.Data.List.Basic

/-! UTF-8 text as bytes: which byte starts a character, and where a text may be cut. -/
namespace Kitp.Utf8

variable {bs bs' : List UInt8} {c : Char} {cs : List Char} {b : UInt8} {n : Nat}

def encode (cs : List Char) : List UInt8 := cs.flatMap String.utf8EncodeChar

def Valid (bs : List UInt8) : Prop := ∃ cs, encode cs=bs

/-- `RuneStart`: no byte inside a character. -/
def runeStart (b : UInt8) : Bool := b&&&0xC0≠0x80

theorem byte_below {P : UInt8 → Prop} {m : Nat} (h : ∀ n < m, P (UInt8.ofNat n)) (b : UInt8)
    (hb : b.toNat < m) : P b := by
  have hn := h b.toNat hb
  rwa [UInt8.ofNat_toNat] at hn

theorem byte_all {P : UInt8 → Prop} (h : ∀ n < 256, P (UInt8.ofNat n)) (b : UInt8) : P b :=
  byte_below h b b.toNat_lt_size

theorem masked_lt (b m : UInt8) : (b&&&m).toNat < m.toNat+1 := by
  rw [UInt8.toNat_and]
  exact Nat.lt_succ_of_le Nat.and_le_right

theorem runeStart_continuation (b : UInt8) :
    runeStart (b&&&0x3f|||0x80)=false∧0x80≤(b&&&0x3f|||0x80) :=
  byte_below (P := fun x => runeStart (x|||0x80)=false∧0x80≤(x|||0x80)) (by decide) _
    (masked_lt b 0x3f)

theorem runeStart_ascii (b : UInt8) (hb : b < 0x80) : runeStart b=true :=
  byte_below (P := fun b => runeStart b=true) (m := 128) (by decide) b
    (UInt8.lt_iff_toNat_lt.mp hb)

theorem runeStart_first (b : UInt8) :
    (runeStart (b&&&0x1f|||0xc0)=true∧0x80≤(b&&&0x1f|||0xc0))∧
    (runeStart (b&&&0x0f|||0xe0)=true∧0x80≤(b&&&0x0f|||0xe0))∧
      runeStart (b&&&0x07|||0xf0)=true∧0x80≤(b&&&0x07|||0xf0) :=
  ⟨byte_below (P := fun x => runeStart (x|||0xc0)=true∧0x80≤(x|||0xc0)) (by decide) _
      (masked_lt b 0x1f),
    byte_below (P := fun x => runeStart (x|||0xe0)=true∧0x80≤(x|||0xe0)) (by decide) _
      (masked_lt b 0x0f),
    byte_below (P := fun x => runeStart (x|||0xf0)=true∧0x80≤(x|||0xf0)) (by decide) _
      (masked_lt b 0x07)⟩

/-- A character is one ASCII byte, or a first byte and up to three more, none of them ASCII. -/
theorem encodeChar_cases (c : Char) :
    (∃ b, String.utf8EncodeChar c=[b]∧b < 0x80)∨
    ∃ b more, String.utf8EncodeChar c=b::more∧more.length≤3∧runeStart b=true∧0x80≤b∧
      ∀ x∈more, runeStart x=false∧0x80≤x := by
  rcases c.utf8Size_eq with hsize | hsize | hsize | hsize
  · left
    refine ⟨_,String.utf8EncodeChar_eq_singleton hsize,?_⟩
    have hval := Char.utf8Size_eq_one_iff.mp hsize
    rw [UInt32.le_iff_toNat_le] at hval
    rw [UInt8.lt_iff_toNat_lt,UInt32.toNat_toUInt8]
    have hsmall : c.val.toNat≤127 := hval
    show c.val.toNat%2^8 < 128
    omega
  · right
    refine ⟨_,_,String.utf8EncodeChar_eq_cons_cons hsize,?_,(runeStart_first _).1.1,
      (runeStart_first _).1.2,?_⟩
    · show 1≤3
      omega
    · intro x hx
      rw [List.mem_singleton.mp hx]
      exact runeStart_continuation _
  · right
    refine ⟨_,_,String.utf8EncodeChar_eq_cons_cons_cons hsize,?_,(runeStart_first _).2.1.1,
      (runeStart_first _).2.1.2,?_⟩
    · show 2≤3
      omega
    · intro x hx
      simp only [List.mem_cons,List.not_mem_nil,or_false] at hx
      rcases hx with rfl | rfl <;> exact runeStart_continuation _
  · right
    refine ⟨_,_,String.utf8EncodeChar_eq_cons_cons_cons_cons hsize,?_,(runeStart_first _).2.2.1,
      (runeStart_first _).2.2.2,?_⟩
    · show 3≤3
      omega
    · intro x hx
      simp only [List.mem_cons,List.not_mem_nil,or_false] at hx
      rcases hx with rfl | rfl | rfl <;> exact runeStart_continuation _

theorem encode_cons : encode (c::cs)=String.utf8EncodeChar c++encode cs := List.flatMap_cons

theorem encode_append {ds : List Char} : encode (cs++ds)=encode cs++encode ds :=
  List.flatMap_append

theorem Valid.nil : Valid [] := ⟨[],rfl⟩

theorem Valid.append (h : Valid bs) (h' : Valid bs') : Valid (bs++bs') := by
  obtain ⟨cs,rfl⟩ := h
  obtain ⟨ds,rfl⟩ := h'
  exact ⟨cs++ds,encode_append⟩

theorem valid_char (c : Char) : Valid (String.utf8EncodeChar c) :=
  ⟨[c],by rw [encode_cons,encode,List.flatMap_nil,List.append_nil]⟩

theorem encodeChar_ascii (b : UInt8) (hb : b < 0x80) :
    String.utf8EncodeChar (Char.ofNat b.toNat)=[b] :=
  byte_below (P := fun b => String.utf8EncodeChar (Char.ofNat b.toNat)=[b]) (by decide) b
    (UInt8.lt_iff_toNat_lt.mp hb)

theorem Valid.cons_ascii (hb : b < 0x80) (h : Valid bs) : Valid (b::bs) := by
  have hvalid := (valid_char (Char.ofNat b.toNat)).append h
  rwa [encodeChar_ascii b hb] at hvalid

/-- A text may be cut where a character starts, and at its end. -/
theorem Valid.cut (h : Valid bs) (hn : ∀ b, bs[n]?=some b → runeStart b=true) :
    Valid (bs.take n)∧Valid (bs.drop n) := by
  obtain ⟨cs,rfl⟩ := h
  induction cs generalizing n with
  | nil =>
    have hnil : encode []=[] := rfl
    rw [hnil,List.take_nil,List.drop_nil]
    exact ⟨Valid.nil,Valid.nil⟩
  | cons c cs ih =>
    rw [encode_cons] at hn ⊢
    by_cases hlen : (String.utf8EncodeChar c).length≤n
    · have hrest : ∀ b, (encode cs)[n-(String.utf8EncodeChar c).length]?=some b →
          runeStart b=true := by
        intro b hb
        exact hn b ((List.getElem?_append_right hlen).trans hb)
      obtain ⟨htake,hdrop⟩ := ih hrest
      rw [List.take_append,List.drop_append,List.take_of_length_le hlen,
        List.drop_of_length_le hlen,List.nil_append]
      exact ⟨(valid_char c).append htake,hdrop⟩
    · cases n with
      | zero => exact ⟨Valid.nil,⟨c::cs,encode_cons⟩⟩
      | succ n =>
        rcases encodeChar_cases c with ⟨b,hchar,-⟩ | ⟨b,more,hchar,-,-,-,hmore⟩
        · rw [hchar,List.length_singleton] at hlen
          omega
        · rw [hchar] at hlen hn
          rw [List.length_cons] at hlen
          have hlt : n < more.length := by omega
          have hget : ((b::more)++encode cs)[n+1]?=some more[n] := by
            rw [List.cons_append,List.getElem?_cons_succ,List.getElem?_append_left hlt,
              List.getElem?_eq_getElem hlt]
          have hstart := hn _ hget
          rw [(hmore _ (List.getElem_mem hlt)).1] at hstart
          cases hstart

/-- No character is longer than four bytes. -/
theorem Valid.back (h : Valid bs) (hn : n < bs.length) :
    ∃ m b, m≤n∧n ≤ m+3∧bs[m]?=some b∧runeStart b=true := by
  obtain ⟨cs,rfl⟩ := h
  induction cs generalizing n with
  | nil => exact absurd hn (Nat.not_lt_zero n)
  | cons c cs ih =>
    rw [encode_cons] at hn ⊢
    by_cases hlen : (String.utf8EncodeChar c).length≤n
    · rw [List.length_append] at hn
      have hrest : n-(String.utf8EncodeChar c).length < (encode cs).length := by omega
      obtain ⟨m,b,hle,hnear,hget,hstart⟩ := ih hrest
      refine ⟨m+(String.utf8EncodeChar c).length,b,by omega,by omega,?_,hstart⟩
      rw [List.getElem?_append_right (Nat.le_add_left _ _),Nat.add_sub_cancel]
      exact hget
    · rcases encodeChar_cases c with ⟨b,hchar,hb⟩ | ⟨b,more,hchar,hmore,hstart,-,-⟩
      · rw [hchar] at hlen ⊢
        rw [List.length_singleton] at hlen
        exact ⟨0,b,Nat.zero_le n,by omega,rfl,runeStart_ascii b hb⟩
      · rw [hchar] at hlen ⊢
        rw [List.length_cons] at hlen
        exact ⟨0,b,Nat.zero_le n,by omega,rfl,hstart⟩

/-- A text that is cut at an ASCII byte is a text before it. -/
theorem Valid.before {more : List UInt8} (h : Valid (bs++more)) (hb : ∀ b∈more.head?, b < 0x80) :
    Valid bs := by
  have hcut := h.cut (n := bs.length) (by
    intro b hget
    rw [List.getElem?_append_right (Nat.le_refl _),Nat.sub_self,← List.head?_eq_getElem?] at hget
    exact runeStart_ascii b (hb b hget))
  rw [List.take_left] at hcut
  exact hcut.1

end Kitp.Utf8
