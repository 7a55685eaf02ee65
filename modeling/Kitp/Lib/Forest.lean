import Mathlib.Data.List.Basic
import Mathlib.Logic.Relation

/-! Parent maps: the capped walk up from an entry, what is above it, and which changes
of the map close no cycle. -/
namespace Kitp.Forest
open Relation

variable {α : Type*} {p q : α → Option α} {n : Nat} {c x y : α}

/-- One step up. -/
def Up (p : α → Option α) (x y : α) : Prop := p x=some y

def Reaches (p : α → Option α) : α → α → Prop := ReflTransGen (Up p)

def Acyclic (p : α → Option α) : Prop := ∀ x, ¬TransGen (Up p) x x

/-- The entries from `x` up, `x` first, at most `n` of them. -/
def walk (p : α → Option α) : Nat → α → List α
  | 0,_ => []
  | n+1,x => x::(p x).elim [] (walk p n)

theorem reaches_of_mem_walk (h : y∈walk p n x) : Reaches p x y := by
  induction n generalizing x with
  | zero => simp [walk] at h
  | succ n ih =>
    cases hx : p x with
    | none =>
      have hy : y=x := by simpa [walk,hx] using h
      exact hy ▸ .refl
    | some z =>
      have hy : y=x∨y∈walk p n z := by simpa [walk,hx] using h
      cases hy with
      | inl hy => exact hy ▸ .refl
      | inr hy => exact .head hx (ih hy)

/-- A walk that stopped short of its cap has met everything above. -/
theorem mem_walk_of_reaches (hn : (walk p n x).length<n) (h : Reaches p x y) :
    y∈walk p n x := by
  induction n generalizing x with
  | zero => simp at hn
  | succ n ih =>
    cases ReflTransGen.cases_head h with
    | inl hxy => simp [walk,hxy]
    | inr hz =>
      obtain ⟨z,hxz,hzy⟩ := hz
      have hx : p x=some z := hxz
      have hlen : (walk p n z).length<n := by simpa [walk,hx] using hn
      have hmem : y∈walk p n z := ih hlen hzy
      simp [walk,hx,hmem]

/-- A longer cap changes nothing for a walk that stops by itself. -/
theorem walk_succ (hn : (walk p (n+1) x).length ≤ n) : walk p (n+1) x=walk p n x := by
  induction n generalizing x with
  | zero => simp [walk] at hn
  | succ n ih =>
    cases hx : p x with
    | none => simp [walk,hx]
    | some z =>
      have hz : (walk p (n+1) z).length ≤ n := by
        have hlen : (walk p (n+1+1) x).length=(walk p (n+1) z).length+1 := by simp [walk,hx]
        omega
      have hwalk : walk p (n+1) z=walk p n z := ih hz
      calc walk p (n+1+1) x=x::walk p (n+1) z := by simp [walk,hx]
        _=x::walk p n z := by rw [hwalk]
        _=walk p (n+1) x := by simp [walk,hx]

/-- What leads to `c` in a map changed only at `c` led there before. -/
theorem reaches_of_agree (hq : ∀ z, z≠c → q z=p z) (h : Reaches q x c) : Reaches p x c := by
  induction h using ReflTransGen.head_induction_on with
  | refl => exact .refl
  | @head x z hxz _ ih =>
    by_cases hx : x=c
    · exact hx ▸ .refl
    · have hp : p x=some z := (hq x hx).symm.trans hxz
      exact .head hp ih

/-- The way up from an entry is the same in a map that agrees along it. -/
theorem reaches_iff_of_agree (hq : ∀ z, Reaches p x z → q z=p z) :
    Reaches q x y↔Reaches p x y := by
  constructor
  · intro h
    induction h with
    | refl => exact .refl
    | @tail z w _ hzw ih =>
      have hp : p z=some w := (hq z ih).symm.trans hzw
      exact ih.tail hp
  · intro h
    induction h with
    | refl => exact .refl
    | @tail z w hxz hzw ih =>
      have hw : q z=some w := (hq z hxz).trans hzw
      exact ih.tail hw

/-- A way up in `q` is one in `p`, or it passes an entry where the two differ. -/
theorem transGen_agree_or (h : TransGen (Up q) x y) :
    TransGen (Up p) x y∨∃ w, q w≠p w∧Reaches q x w∧TransGen (Up q) w y := by
  induction h using TransGen.head_induction_on with
  | @single x hxy =>
    by_cases hx : q x=p x
    · have hp : p x=some y := hx.symm.trans hxy
      exact .inl (.single hp)
    · exact .inr ⟨x,hx,.refl,.single hxy⟩
  | @head x z hxz hzy ih =>
    by_cases hx : q x=p x
    · cases ih with
      | inl ih =>
        have hp : p x=some z := hx.symm.trans hxz
        exact .inl (.head hp ih)
      | inr ih =>
        obtain ⟨w,hw,hzw,hwy⟩ := ih
        exact .inr ⟨w,hw,.head hxz hzw,hwy⟩
    · exact .inr ⟨x,hx,.refl,.head hxz hzy⟩

/-- A changed map stays acyclic when no changed entry is above its own new parent. -/
theorem acyclic_of_changes (hp : Acyclic p)
    (hq : ∀ w z, q w≠p w → q w=some z → ¬Reaches q z w) : Acyclic q := by
  intro x hx
  cases transGen_agree_or (p := p) hx with
  | inl h => exact hp x h
  | inr h =>
    obtain ⟨w,hw,hxw,hwx⟩ := h
    have hww : TransGen (Up q) w w := hwx.trans_left hxw
    obtain ⟨z,hwz,hzw⟩ := TransGen.head'_iff.mp hww
    exact hq w z hw hwz hzw

/-- Re-parenting one entry under one that it is not above. -/
theorem acyclic_update (hp : Acyclic p) (hq : ∀ z, z≠c → q z=p z) (hc : q c=some y)
    (hy : ¬Reaches p y c) : Acyclic q := by
  apply acyclic_of_changes hp
  intro w z hw hz h
  have hwc : w=c := by
    by_contra hne
    exact hw (hq w hne)
  subst hwc
  have hzy : z=y := Option.some.inj (hz.symm.trans hc)
  subst hzy
  exact hy (reaches_of_agree hq h)

theorem acyclic_of_rank (rank : α → Nat) (h : ∀ x y, p x=some y → rank y < rank x) :
    Acyclic p := by
  have hlt : ∀ x y, TransGen (Up p) x y → rank y < rank x := by
    intro x y hxy
    induction hxy with
    | single hxy => exact h _ _ hxy
    | tail _ hyz ih => exact Nat.lt_trans (h _ _ hyz) ih
  exact fun x hx => Nat.lt_irrefl _ (hlt x x hx)

/-- A cycle runs through every entry that is above its own parent. -/
theorem not_acyclic_of_reaches (hc : p c=some y) (hy : Reaches p y c) : ¬Acyclic p :=
  fun h => h c (TransGen.head'_iff.mpr ⟨y,hc,hy⟩)

/-- `x` is the `n`th entry of its chain, the top counted as the first. -/
inductive Depth (p : α → Option α) : α → Nat → Prop
  | top {x : α} : p x=none → Depth p x 1
  | under {x y : α} {n : Nat} : p x=some y → Depth p y n → Depth p x (n+1)

/-- Every chain ends, after at most `N` entries. -/
def Bounded (p : α → Option α) (N : Nat) : Prop := ∀ x, ∃ n ≤ N, Depth p x n

/-- The entry `d` steps above. -/
def up (p : α → Option α) : Nat → α → Option α
  | 0,x => some x
  | d+1,x => (p x).bind (up p d)

theorem Depth.pos (h : Depth p x n) : 0<n := by
  cases h <;> omega

theorem Depth.unique {m : Nat} (h : Depth p x m) (k : Depth p x n) : m=n := by
  induction h generalizing n with
  | top hx =>
    cases k with
    | top => rfl
    | under hy => simp [hx] at hy
  | under hx _ ih =>
    cases k with
    | top hn => simp [hx] at hn
    | under hy k =>
      have hyz := Option.some.inj (hx.symm.trans hy)
      subst hyz
      rw [ih k]

/-- The chain passes no entry below its own top. -/
theorem Depth.up_lt {d : Nat} (h : Depth p x n) (hd : up p d x=some y) :
    ∃ m, Depth p y m∧n=m+d := by
  induction d generalizing x n with
  | zero =>
    have hxy : x=y := by simpa [up] using hd
    subst hxy
    exact ⟨n,h,by omega⟩
  | succ d ih =>
    obtain ⟨z,hxz,hzy⟩ := Option.bind_eq_some_iff.mp hd
    cases h with
    | top hx => simp [hx] at hxz
    | under hx h =>
      have hz := Option.some.inj (hx.symm.trans hxz)
      subst hz
      obtain ⟨m,hm,hn⟩ := ih h hzy
      exact ⟨m,hm,by omega⟩

theorem up_succ (p : α → Option α) (d : Nat) (x : α) : up p (d+1) x=(up p d x).bind p := by
  induction d generalizing x with
  | zero => simp [up,Option.bind_some]
  | succ d ih =>
    cases hx : p x with
    | none => simp [up,hx]
    | some z =>
      have hz := ih z
      calc up p (d+1+1) x=up p (d+1) z := by simp [up,hx]
        _=(up p d z).bind p := hz
        _=(up p (d+1) x).bind p := by simp [up,hx]

/-- A chain has one end. -/
theorem top_unique {z : α} (hy : Reaches p x y) (hz : Reaches p x z) (hyn : p y=none)
    (hzn : p z=none) : y=z := by
  induction hy using ReflTransGen.head_induction_on with
  | refl =>
    cases ReflTransGen.cases_head hz with
    | inl h => exact h
    | inr h =>
      obtain ⟨w,hw,-⟩ := h
      have hw : p y=some w := hw
      simp [hyn] at hw
  | @head x w hxw _ ih =>
    have hxw : p x=some w := hxw
    cases ReflTransGen.cases_head hz with
    | inl h => simp [h,hzn] at hxw
    | inr h =>
      obtain ⟨v,hv,hvz⟩ := h
      have hv : p x=some v := hv
      have hvw : v=w := Option.some.inj (hv.symm.trans hxw)
      exact ih (hvw ▸ hvz)

theorem reaches_of_up {d : Nat} (h : up p d x=some y) : Reaches p x y := by
  induction d generalizing x with
  | zero =>
    have hxy : x=y := by simpa [up] using h
    exact hxy ▸ .refl
  | succ d ih =>
    obtain ⟨z,hxz,hzy⟩ := Option.bind_eq_some_iff.mp h
    exact .head hxz (ih hzy)

theorem exists_up (h : Reaches p x y) : ∃ d, up p d x=some y := by
  induction h using ReflTransGen.head_induction_on with
  | refl => exact ⟨0,rfl⟩
  | @head x z hxz _ ih =>
    obtain ⟨d,hd⟩ := ih
    have hx : p x=some z := hxz
    exact ⟨d+1,by simp [up,hx,hd]⟩

theorem mem_walk_of_up {d : Nat} (h : up p d x=some y) (hd : d<n) : y∈walk p n x := by
  induction n generalizing d x with
  | zero => omega
  | succ n ih =>
    cases d with
    | zero =>
      have hxy : x=y := by simpa [up] using h
      simp [walk,hxy]
    | succ d =>
      obtain ⟨z,hz,hzy⟩ := Option.bind_eq_some_iff.mp h
      have hmem : y∈walk p n z := ih hzy (by omega)
      simp [walk,hz,hmem]

/-- One more entry of the cap is one more entry at the end. -/
theorem walk_snoc (p : α → Option α) (n : Nat) (x : α) :
    walk p (n+1) x=walk p n x++(up p n x).toList := by
  induction n generalizing x with
  | zero => cases hx : p x <;> simp [walk,up,hx]
  | succ n ih =>
    cases hx : p x with
    | none => simp [walk,up,hx]
    | some z =>
      have hz := ih z
      calc walk p (n+1+1) x=x::walk p (n+1) z := by simp [walk,hx]
        _=x::(walk p n z++(up p n z).toList) := by rw [hz]
        _=walk p (n+1) x++(up p (n+1) x).toList := by simp [walk,up,hx]

/-- A walk finds nothing where no step up leads to one. -/
theorem find_walk_none {f : α → Bool} :
    (walk p n x).find? f=none↔∀ d<n, (up p d x).any f=false := by
  induction n with
  | zero => simp [walk]
  | succ n ih =>
    have hlast : (up p n x).toList.find? f=none↔(up p n x).any f=false := by
      cases up p n x <;> simp
    rw [walk_snoc,List.find?_append,Option.or_eq_none_iff,ih,hlast]
    constructor
    · intro h d hd
      by_cases hdn : d=n
      · exact hdn ▸ h.2
      · exact h.1 d (by omega)
    · intro h
      exact ⟨fun d hd => h d (by omega),h n (by omega)⟩

/-- A walk with room for the chain is the whole chain. -/
theorem Depth.length_walk {N : Nat} (h : Depth p x n) (hn : n ≤ N) : (walk p N x).length=n := by
  induction h generalizing N with
  | top hx =>
    cases N with
    | zero => omega
    | succ N => simp [walk,hx]
  | under hx _ ih =>
    cases N with
    | zero => omega
    | succ N =>
      have hlen := ih (N := N) (by omega)
      simp [walk,hx,hlen]

theorem Depth.length_walk_le (h : Depth p x n) (N : Nat) : (walk p N x).length ≤ n := by
  induction h generalizing N with
  | top hx => cases N <;> simp [walk,hx]
  | under hx _ ih =>
    cases N with
    | zero => simp [walk]
    | succ N =>
      have hlen := ih N
      simp [walk,hx,hlen]

theorem Bounded.acyclic {N : Nat} (h : Bounded p N) : Acyclic p := by
  choose rank hrank hdepth using h
  apply acyclic_of_rank rank
  intro x y hxy
  have hx : Depth p x (rank y+1) := .under hxy (hdepth y)
  have heq := hx.unique (hdepth x)
  omega

/-- The chain of an entry that no changed entry is above. -/
theorem Depth.of_agree (h : Depth p x n) (hq : ∀ z, Reaches p x z → q z=p z) : Depth q x n := by
  induction h with
  | top hx => exact .top ((hq _ .refl).trans hx)
  | under hx _ ih =>
    exact .under ((hq _ .refl).trans hx) (ih fun z hz => hq z (.head hx hz))

/-- Entries re-parented under one that none of them is above: each chain is as before, or
runs up to a moved entry and on from the new parent. -/
theorem Depth.graft {W : α → Prop} {s : α} {k : Nat} (h : Depth p x n)
    (hq : ∀ z, ¬W z → q z=p z) (hW : ∀ w, W w → q w=some s)
    (hs : ∀ w, W w → ¬Reaches p s w) (hk : Depth p s k) :
    Depth q x n∨∃ d w, W w∧up p d x=some w∧Depth q x (d+1+k) := by
  have hks : Depth q s k := hk.of_agree fun z hz => hq z fun hw => hs z hw hz
  induction h with
  | @top x hx =>
    by_cases hw : W x
    · exact .inr ⟨0,x,hw,rfl,by simpa [Nat.add_comm] using Depth.under (hW x hw) hks⟩
    · exact .inl (.top ((hq x hw).trans hx))
  | @under x y n hx _ ih =>
    by_cases hw : W x
    · exact .inr ⟨0,x,hw,rfl,by simpa [Nat.add_comm] using Depth.under (hW x hw) hks⟩
    · have hqx : q x=some y := (hq x hw).trans hx
      cases ih with
      | inl ih => exact .inl (.under hqx ih)
      | inr ih =>
        obtain ⟨d,w,hww,hup,hd⟩ := ih
        have hlen : d+1+k+1=d+1+1+k := by omega
        exact .inr ⟨d+1,w,hww,by simp [up,hx,hup],hlen ▸ .under hqx hd⟩

/-- The graft keeps the bound when the new parent has room for what hangs below each
moved entry. -/
theorem Bounded.graft {W : α → Prop} {s : α} {k N : Nat} (h : Bounded p N)
    (hq : ∀ z, ¬W z → q z=p z) (hW : ∀ w, W w → q w=some s)
    (hs : ∀ w, W w → ¬Reaches p s w) (hk : Depth p s k)
    (hroom : ∀ x d w, W w → up p d x=some w → d+1+k ≤ N) : Bounded q N := by
  intro x
  obtain ⟨n,hn,hx⟩ := h x
  cases hx.graft hq hW hs hk with
  | inl hx => exact ⟨n,hn,hx⟩
  | inr hx =>
    obtain ⟨d,w,hw,hup,hd⟩ := hx
    exact ⟨d+1+k,hroom x d w hw hup,hd⟩

end Kitp.Forest
