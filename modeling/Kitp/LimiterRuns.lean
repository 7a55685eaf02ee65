import Kitp.Lib.Runs
import Kitp.Limiter
import Mathlib.Tactic.Linarith

/-! The limiter's map and list keep in step, and no key gets more than its rate. -/
namespace Kitp.Limiter

open Kitp.Runs

variable {κ : Type} [LinearOrder κ] {c : Config} {s t : State κ} {key k : κ} {cost now : ℚ}
  {e x : Element κ} {b : Bucket κ} {rest : List (Element κ)}

theorem Config.perSec_nonneg (c : Config) : 0 ≤ c.perSec :=
  div_nonneg (Nat.cast_nonneg _) (by norm_num)

/-- The map and the list hold the same buckets. -/
structure Linked (s : State κ) : Prop where
  nodup : (s.lru.map (·.addr)).Nodup
  fresh : ∀ e∈s.lru, e.addr < s.fresh
  map : ∀ k a, s.keys k=some a ↔ ∃ e∈s.lru, e.addr=a∧e.bucket.key=k

def InRange (c : Config) (b : Bucket κ) : Prop := -(c.burst : ℚ)≤b.tokens∧b.tokens ≤ c.burst

structure Sound (c : Config) (s : State κ) : Prop where
  linked : Linked s
  size : s.lru.length ≤ c.maxKeys
  range : ∀ e∈s.lru, InRange c e.bucket
  order : s.lru.Pairwise fun x y => s.lastUse y.bucket.key < s.lastUse x.bucket.key
  uses : ∀ e∈s.lru, s.lastUse e.bucket.key ≤ s.calls
  clock : ∀ e∈s.lru, e.bucket.at' ≤ s.clock

omit [LinearOrder κ] in
theorem Linked.eq_of_addr (h : Linked s) (he : e∈s.lru) (hx : x∈s.lru) (haddr : e.addr=x.addr) :
    e=x :=
  List.inj_on_of_nodup_map h.nodup he hx haddr

omit [LinearOrder κ] in
theorem Linked.eq_of_key (h : Linked s) (he : e∈s.lru) (hx : x∈s.lru)
    (hkey : e.bucket.key=x.bucket.key) : e=x := by
  have hxa := (h.map x.bucket.key x.addr).mpr ⟨x,hx,rfl,rfl⟩
  have hea := (h.map x.bucket.key e.addr).mpr ⟨e,he,rfl,hkey⟩
  rw [hxa,Option.some.injEq] at hea
  exact h.eq_of_addr he hx hea.symm

omit [LinearOrder κ] in
/-- The key's element is the one of its bucket. -/
theorem element_some (h : Linked s) : element s key=some e ↔ e∈s.lru∧e.bucket.key=key := by
  unfold element
  constructor
  · intro he
    obtain ⟨a,ha,hfind⟩ := Option.bind_eq_some_iff.mp he
    have hmem := List.mem_of_find?_eq_some hfind
    have haddr : e.addr=a := by simpa using List.find?_some hfind
    obtain ⟨x,hx,hxa,hkey⟩ := (h.map key a).mp ha
    rw [h.eq_of_addr hmem hx (haddr.trans hxa.symm)]
    exact ⟨hx,hkey⟩
  · rintro ⟨hmem,hkey⟩
    rw [(h.map key e.addr).mpr ⟨e,hmem,rfl,hkey⟩,Option.bind_some]
    cases hfind : s.lru.find? (·.addr=e.addr) with
    | none => simpa using List.find?_eq_none.mp hfind e hmem
    | some x =>
      have haddr : x.addr=e.addr := by simpa using List.find?_some hfind
      rw [h.eq_of_addr (List.mem_of_find?_eq_some hfind) hmem haddr]

omit [LinearOrder κ] in
theorem element_none (h : Linked s) : element s key=none ↔ ∀ e∈s.lru, e.bucket.key≠key := by
  constructor
  · intro hnone e he hkey
    rw [(element_some h).mpr ⟨he,hkey⟩] at hnone
    cases hnone
  · intro hall
    by_contra hne
    obtain ⟨e,he⟩ := Option.ne_none_iff_exists'.mp hne
    obtain ⟨hmem,hkey⟩ := (element_some h).mp he
    exact hall e hmem hkey

omit [LinearOrder κ] in
theorem refill_range (h : -(c.burst : ℚ)≤b.tokens) (hnow : b.at'≤now) :
    InRange c (refill c b now) := by
  have hrate := c.perSec_nonneg
  have hgain : 0≤(now-b.at')*c.perSec := mul_nonneg (by linarith) hrate
  have hburst : (0 : ℚ) ≤ c.burst := Nat.cast_nonneg _
  unfold InRange refill
  dsimp only
  split
  · exact ⟨by linarith,le_refl _⟩
  · exact ⟨by linarith,by linarith⟩

/-- The back goes, and is forgotten. -/
theorem removeBack_sound (h : Sound c s) : Sound c (removeBack s) := by
  unfold removeBack
  cases hlast : s.lru.getLast? with
  | none => exact h
  | some old =>
    obtain ⟨init,hlru⟩ := List.getLast?_eq_some_iff.mp hlast
    have hdrop : s.lru.dropLast=init := by rw [hlru,List.dropLast_concat]
    have hsub : ∀ e∈init, e∈s.lru := by
      intro e he
      rw [hlru]
      exact List.mem_append_left _ he
    have hold : old∈s.lru := by
      rw [hlru]
      exact List.mem_append_right _ (List.mem_singleton_self old)
    have hne : ∀ e∈init, e.addr≠old.addr := by
      intro e he haddr
      have hnodup := h.linked.nodup
      rw [hlru,List.map_append,List.nodup_append] at hnodup
      exact hnodup.2.2 e.addr (List.mem_map_of_mem he) old.addr
        (List.mem_map_of_mem (List.mem_singleton_self old)) haddr
    have hsize := h.size
    have horder := h.order
    have hnodup := h.linked.nodup
    rw [hlru] at hsize horder hnodup
    rw [List.length_append,List.length_singleton] at hsize
    rw [List.map_append] at hnodup
    dsimp only
    rw [hdrop]
    refine ⟨⟨?_,?_,?_⟩,?_,?_,?_,?_,?_⟩
    · exact (List.nodup_append.mp hnodup).1
    · exact fun e he => h.linked.fresh e (hsub e he)
    · intro k a
      dsimp only
      by_cases hk : k=old.bucket.key
      · rw [hk,Function.update_self]
        constructor
        · intro hnone
          cases hnone
        · rintro ⟨e,he,-,hkey⟩
          exact absurd (congrArg (·.addr) (h.linked.eq_of_key (hsub e he) hold hkey)) (hne e he)
      · rw [Function.update_of_ne hk,h.linked.map]
        constructor
        · rintro ⟨e,he,haddr,hkey⟩
          rw [hlru] at he
          cases List.mem_append.mp he with
          | inl hinit => exact ⟨e,hinit,haddr,hkey⟩
          | inr hback =>
            rw [List.mem_singleton.mp hback] at hkey
            exact absurd hkey.symm hk
        · rintro ⟨e,he,hrest⟩
          exact ⟨e,hsub e he,hrest⟩
    · dsimp only
      omega
    · exact fun e he => h.range e (hsub e he)
    · exact (List.pairwise_append.mp horder).1
    · exact fun e he => h.uses e (hsub e he)
    · exact fun e he => h.clock e (hsub e he)

omit [LinearOrder κ] in
theorem mem_dropLast {old : Element κ} (h : s.lru.getLast?=some old) (hx : x∈s.lru) :
    x∈s.lru.dropLast∨x=old := by
  obtain ⟨init,hlru⟩ := List.getLast?_eq_some_iff.mp h
  rw [hlru] at hx ⊢
  rw [List.dropLast_concat]
  cases List.mem_append.mp hx with
  | inl hinit => exact Or.inl hinit
  | inr hlast => exact Or.inr (List.mem_singleton.mp hlast)

/-- Elements that go are forgotten, and the rest of the limiter stays. -/
structure Forgets (s t : State κ) : Prop where
  lru : t.lru.Sublist s.lru
  gone : ∀ x∈s.lru, x∈t.lru∨s.evicted x.bucket.key < t.evicted x.bucket.key
  evicted : ∀ k, s.evicted k≤t.evicted k
  clock : t.clock=s.clock
  calls : t.calls=s.calls
  lastUse : t.lastUse=s.lastUse
  granted : t.granted=s.granted

omit [LinearOrder κ] in
theorem Forgets.refl : Forgets s s :=
  ⟨List.Sublist.refl _,fun _ hx => Or.inl hx,fun _ => le_refl _,rfl,rfl,rfl,rfl⟩

omit [LinearOrder κ] in
theorem Forgets.trans {u : State κ} (h : Forgets s t) (k : Forgets t u) : Forgets s u := by
  refine ⟨k.lru.trans h.lru,?_,fun key => (h.evicted key).trans (k.evicted key),
    k.clock.trans h.clock,k.calls.trans h.calls,k.lastUse.trans h.lastUse,
    k.granted.trans h.granted⟩
  intro x hx
  cases h.gone x hx with
  | inl hkept =>
    cases k.gone x hkept with
    | inl hin => exact Or.inl hin
    | inr hout => exact Or.inr ((h.evicted _).trans_lt hout)
  | inr hout => exact Or.inr (hout.trans_le (k.evicted _))

theorem removeBack_forgets : Forgets s (removeBack s) := by
  unfold removeBack
  cases hlast : s.lru.getLast? with
  | none => exact Forgets.refl
  | some old =>
    refine ⟨List.dropLast_sublist _,?_,?_,rfl,rfl,rfl,rfl⟩
    · intro x hx
      dsimp only
      cases mem_dropLast hlast hx with
      | inl hin => exact Or.inl hin
      | inr hold =>
        rw [hold,Function.update_self]
        exact Or.inr (Nat.lt_succ_self _)
    · intro k
      dsimp only
      by_cases hk : k=old.bucket.key
      · rw [hk,Function.update_self]
        exact Nat.le_succ _
      · rw [Function.update_of_ne hk]

/-- The loop makes room, whatever it has to forget. -/
theorem evict_spec {n : Nat} (h : Sound c s) (hn : s.lru.length≤n) :
    Sound c (evict c n s)∧Forgets s (evict c n s)∧(evict c n s).lru.length < c.maxKeys := by
  induction n generalizing s with
  | zero =>
    refine ⟨h,Forgets.refl,?_⟩
    have hkeeps := c.keeps
    simp only [evict]
    omega
  | succ n ih =>
    simp only [evict]
    by_cases hfull : c.maxKeys ≤ s.lru.length∧0 < s.lru.length
    · rw [if_pos hfull]
      have hlen : (removeBack s).lru.length≤n := by
        unfold removeBack
        cases hlast : s.lru.getLast? with
        | none =>
          have hnil := List.getLast?_eq_none_iff.mp hlast
          rw [hnil] at hfull
          exact absurd hfull.2 (Nat.lt_irrefl 0)
        | some old =>
          rw [List.length_dropLast]
          omega
      obtain ⟨hsound,hforgets,hroom⟩ := ih (removeBack_sound h) hlen
      exact ⟨hsound,removeBack_forgets.trans hforgets,hroom⟩
    · rw [if_neg hfull]
      refine ⟨h,Forgets.refl,?_⟩
      have hkeeps := c.keeps
      omega

/-- What `bucket` gives: the key's element, refilled or new, before the others. -/
structure Fetched (c : Config) (s t : State κ) (key : κ) (now : ℚ) (e : Element κ) : Prop where
  sound : Sound c (use t key now)
  front : ∃ rest, t.lru=e::rest
  keyed : e.bucket.key=key
  read : e.bucket.at'=now
  granted : t.granted=s.granted
  evicted : ∀ k, s.evicted k≤t.evicted k
  mine : (∃ x∈s.lru, x.bucket.key=key∧e.bucket=refill c x.bucket now)∨
    (∀ x∈s.lru, x.bucket.key≠key)∧e.bucket.tokens=c.burst
  others : ∀ x, x.bucket.key≠key → (x∈t.lru → x∈s.lru)∧
    (x∈s.lru → x∈t.lru∨s.evicted x.bucket.key < t.evicted x.bucket.key)

/-- The front is used, the others were used before. -/
theorem front_sound (rest : List (Element κ)) (hlinked : Linked t) (hlru : t.lru=e::rest)
    (hsize : t.lru.length ≤ c.maxKeys)
    (hrange : ∀ e∈t.lru, InRange c e.bucket) (hkey : e.bucket.key=key)
    (hrest : ∀ x∈rest, x.bucket.key≠key∧t.lastUse x.bucket.key≤t.calls)
    (horder : rest.Pairwise fun x y => t.lastUse y.bucket.key < t.lastUse x.bucket.key)
    (hclock : ∀ e∈t.lru, e.bucket.at'≤now) : Sound c (use t key now) := by
  refine ⟨⟨hlinked.nodup,hlinked.fresh,hlinked.map⟩,hsize,hrange,?_,?_,hclock⟩
  · show t.lru.Pairwise fun x y => Function.update t.lastUse key (t.calls+1) y.bucket.key <
      Function.update t.lastUse key (t.calls+1) x.bucket.key
    rw [hlru,List.pairwise_cons]
    constructor
    · intro x hx
      obtain ⟨hne,hle⟩ := hrest x hx
      rw [hkey,Function.update_self,Function.update_of_ne hne]
      exact Nat.lt_succ_of_le hle
    · refine horder.imp_of_mem ?_
      intro x y hx hy hxy
      rwa [Function.update_of_ne (hrest x hx).1,Function.update_of_ne (hrest y hy).1]
  · intro x hx
    have hx' : x∈t.lru := hx
    show Function.update t.lastUse key (t.calls+1) x.bucket.key≤t.calls+1
    rw [hlru] at hx'
    cases List.mem_cons.mp hx' with
    | inl hfront => rw [hfront,hkey,Function.update_self]
    | inr hback =>
      obtain ⟨hne,hle⟩ := hrest x hback
      rw [Function.update_of_ne hne]
      exact Nat.le_succ_of_le hle

theorem fetched_held (h : Sound c s) (hnow : s.clock≤now) (he : e∈s.lru) (hkey : e.bucket.key=key) :
    Fetched c s (moveToFront s { e with bucket := refill c e.bucket now }) key now
      { e with bucket := refill c e.bucket now } := by
  have hother : ∀ x, x∈s.lru.filter (·.addr≠e.addr) ↔ x∈s.lru∧x≠e := by
    intro x
    rw [List.mem_filter,decide_eq_true_eq]
    constructor
    · exact fun hx => ⟨hx.1,fun hxe => hx.2 (congrArg (·.addr) hxe)⟩
    · exact fun hx => ⟨hx.1,fun haddr => hx.2 (h.linked.eq_of_addr hx.1 he haddr)⟩
  have hne : ∀ x∈s.lru.filter (·.addr≠e.addr), x.bucket.key≠key := by
    intro x hx hxkey
    obtain ⟨hmem,hxe⟩ := (hother x).mp hx
    exact hxe (h.linked.eq_of_key hmem he (hxkey.trans hkey.symm))
  have hrange : InRange c (refill c e.bucket now) :=
    refill_range (h.range e he).1 ((h.clock e he).trans hnow)
  refine ⟨?_,⟨_,rfl⟩,hkey,rfl,rfl,fun _ => le_refl _,Or.inl ⟨e,he,hkey,rfl⟩,?_⟩
  · refine front_sound _ ⟨?_,?_,?_⟩ rfl ?_ ?_ hkey ?_ ?_ ?_
    · show (e.addr::(s.lru.filter (·.addr≠e.addr)).map (·.addr)).Nodup
      rw [List.nodup_cons]
      constructor
      · intro hmem
        obtain ⟨x,hx,haddr⟩ := List.mem_map.mp hmem
        have hxa := (List.mem_filter.mp hx).2
        rw [decide_eq_true_eq] at hxa
        exact hxa haddr
      · exact (List.filter_sublist.map _).nodup h.linked.nodup
    · intro x hx
      cases List.mem_cons.mp hx with
      | inl hfront =>
        rw [hfront]
        exact h.linked.fresh e he
      | inr hback => exact h.linked.fresh x ((hother x).mp hback).1
    · intro k a
      show s.keys k=some a ↔ _
      rw [h.linked.map]
      constructor
      · rintro ⟨x,hx,haddr,hxk⟩
        by_cases hxe : x=e
        · rw [hxe] at haddr hxk
          exact ⟨_,List.mem_cons_self,haddr,hxk⟩
        · exact ⟨x,List.mem_cons_of_mem _ ((hother x).mpr ⟨hx,hxe⟩),haddr,hxk⟩
      · rintro ⟨x,hx,haddr,hxk⟩
        cases List.mem_cons.mp hx with
        | inl hfront =>
          rw [hfront] at haddr hxk
          exact ⟨e,he,haddr,hxk⟩
        | inr hback => exact ⟨x,((hother x).mp hback).1,haddr,hxk⟩
    · have hlt : (s.lru.filter (·.addr≠e.addr)).length < s.lru.length :=
        List.length_filter_lt_length_iff_exists.mpr ⟨e,he,by simp⟩
      have hsize := h.size
      show (s.lru.filter (·.addr≠e.addr)).length+1 ≤ c.maxKeys
      omega
    · intro x hx
      cases List.mem_cons.mp hx with
      | inl hfront =>
        rw [hfront]
        exact hrange
      | inr hback => exact h.range x ((hother x).mp hback).1
    · exact fun x hx => ⟨hne x hx,h.uses x ((hother x).mp hx).1⟩
    · exact h.order.filter _
    · intro x hx
      cases List.mem_cons.mp hx with
      | inl hfront => rw [hfront]; exact le_refl _
      | inr hback => exact (h.clock x ((hother x).mp hback).1).trans hnow
  · intro x hxk
    have hxe : x≠e := fun hxe => hxk (hxe ▸ hkey)
    refine ⟨?_,fun hx => Or.inl (List.mem_cons_of_mem _ ((hother x).mpr ⟨hx,hxe⟩))⟩
    intro hx
    cases List.mem_cons.mp hx with
    | inl hfront =>
      rw [hfront] at hxk
      exact absurd hkey hxk
    | inr hback => exact ((hother x).mp hback).1

theorem fetched_new (h : Sound c s) (hnow : s.clock≤now) (hnone : ∀ x∈s.lru, x.bucket.key≠key) :
    Fetched c s (insert (evict c s.lru.length s) ⟨key,c.burst,now⟩) key now
      ⟨(evict c s.lru.length s).fresh,⟨key,c.burst,now⟩⟩ := by
  obtain ⟨hsound,hforgets,hroom⟩ := evict_spec h (le_refl _)
  generalize evict c s.lru.length s=t at hsound hforgets hroom ⊢
  have hold : ∀ x∈t.lru, x∈s.lru := fun x hx => hforgets.lru.subset hx
  refine ⟨?_,⟨_,rfl⟩,rfl,rfl,hforgets.granted,hforgets.evicted,Or.inr ⟨hnone,rfl⟩,?_⟩
  · refine front_sound _ ⟨?_,?_,?_⟩ rfl (Nat.succ_le_of_lt hroom) ?_ rfl ?_
      hsound.order ?_
    · show (t.fresh::t.lru.map (·.addr)).Nodup
      rw [List.nodup_cons]
      refine ⟨?_,hsound.linked.nodup⟩
      intro hmem
      obtain ⟨x,hx,haddr⟩ := List.mem_map.mp hmem
      exact absurd haddr (Nat.ne_of_lt (hsound.linked.fresh x hx))
    · intro x hx
      cases List.mem_cons.mp hx with
      | inl hfront => rw [hfront]; exact Nat.lt_succ_self _
      | inr hback => exact Nat.lt_succ_of_lt (hsound.linked.fresh x hback)
    · intro k a
      show Function.update t.keys key (some t.fresh) k=some a ↔
        ∃ e∈⟨t.fresh,⟨key,c.burst,now⟩⟩::t.lru, _
      by_cases hk : k=key
      · rw [hk,Function.update_self,Option.some.injEq]
        constructor
        · intro ha
          exact ⟨_,List.mem_cons_self,ha,rfl⟩
        · rintro ⟨x,hx,haddr,hxk⟩
          cases List.mem_cons.mp hx with
          | inl hfront => rw [hfront] at haddr; exact haddr
          | inr hback => exact absurd hxk (hnone x (hold x hback))
      · rw [Function.update_of_ne hk,hsound.linked.map]
        constructor
        · rintro ⟨x,hx,hrest⟩
          exact ⟨x,List.mem_cons_of_mem _ hx,hrest⟩
        · rintro ⟨x,hx,haddr,hxk⟩
          cases List.mem_cons.mp hx with
          | inl hfront => rw [hfront] at hxk; exact absurd hxk.symm hk
          | inr hback => exact ⟨x,hback,haddr,hxk⟩
    · intro x hx
      cases List.mem_cons.mp hx with
      | inl hfront =>
        rw [hfront]
        have hburst : (0 : ℚ) ≤ c.burst := Nat.cast_nonneg _
        exact ⟨by dsimp only; linarith,le_refl _⟩
      | inr hback => exact hsound.range x hback
    · exact fun x hx => ⟨hnone x (hold x hx),hsound.uses x hx⟩
    · intro x hx
      cases List.mem_cons.mp hx with
      | inl hfront => rw [hfront]
      | inr hback => exact (h.clock x (hold x hback)).trans hnow
  · intro x hxk
    refine ⟨?_,fun hx => (hforgets.gone x hx).imp_left (List.mem_cons_of_mem _)⟩
    intro hx
    cases List.mem_cons.mp hx with
    | inl hfront => rw [hfront] at hxk; exact absurd rfl hxk
    | inr hback => exact hold x hback

theorem bucket_spec (key : κ) (h : Sound c s) (hnow : s.clock≤now) :
    Fetched c s (bucket c s key now).1 key now (bucket c s key now).2 := by
  unfold bucket
  cases helem : element s key with
  | some e =>
    obtain ⟨he,hkey⟩ := (element_some h.linked).mp helem
    exact fetched_held h hnow he hkey
  | none => exact fetched_new h hnow ((element_none h.linked).mp helem)

omit [LinearOrder κ] in
/-- Buckets may change under the same keys, in the same order. -/
theorem Sound.renewed (h : Sound c s) (hkeys : t.keys=s.keys) (hfresh : t.fresh=s.fresh)
    (hcalls : t.calls=s.calls) (huse : t.lastUse=s.lastUse)
    (hsame : t.lru.map (fun e => (e.addr,e.bucket.key))=s.lru.map fun e => (e.addr,e.bucket.key))
    (hrange : ∀ e∈t.lru, InRange c e.bucket) (hclock : ∀ e∈t.lru, e.bucket.at'≤t.clock) :
    Sound c t := by
  have haddrs : t.lru.map (·.addr)=s.lru.map (·.addr) := by
    have hfst := congrArg (List.map Prod.fst) hsame
    rwa [List.map_map,List.map_map] at hfst
  have hforth : ∀ e∈t.lru, ∃ x∈s.lru, x.addr=e.addr∧x.bucket.key=e.bucket.key := by
    intro e he
    have hpair : (e.addr,e.bucket.key)∈s.lru.map fun e => (e.addr,e.bucket.key) := by
      rw [← hsame]
      exact List.mem_map_of_mem he
    obtain ⟨x,hx,heq⟩ := List.mem_map.mp hpair
    exact ⟨x,hx,(Prod.mk.inj heq).1,(Prod.mk.inj heq).2⟩
  have hback : ∀ x∈s.lru, ∃ e∈t.lru, e.addr=x.addr∧e.bucket.key=x.bucket.key := by
    intro x hx
    have hpair : (x.addr,x.bucket.key)∈t.lru.map fun e => (e.addr,e.bucket.key) := by
      rw [hsame]
      exact List.mem_map_of_mem hx
    obtain ⟨e,he,heq⟩ := List.mem_map.mp hpair
    exact ⟨e,he,(Prod.mk.inj heq).1,(Prod.mk.inj heq).2⟩
  have hsize : t.lru.length=s.lru.length := by
    simpa only [List.length_map] using congrArg List.length haddrs
  have horder : (s.lru.map fun e => (e.addr,e.bucket.key)).Pairwise
      fun x y => s.lastUse y.2 < s.lastUse x.2 := List.pairwise_map.mpr h.order
  refine ⟨⟨?_,?_,?_⟩,hsize ▸ h.size,hrange,?_,?_,hclock⟩
  · rw [haddrs]
    exact h.linked.nodup
  · intro e he
    obtain ⟨x,hx,haddr,-⟩ := hforth e he
    rw [hfresh,← haddr]
    exact h.linked.fresh x hx
  · intro k a
    rw [hkeys,h.linked.map]
    constructor
    · rintro ⟨x,hx,haddr,hkey⟩
      obtain ⟨e,he,hea,hek⟩ := hback x hx
      exact ⟨e,he,hea.trans haddr,hek.trans hkey⟩
    · rintro ⟨e,he,haddr,hkey⟩
      obtain ⟨x,hx,hxa,hxk⟩ := hforth e he
      exact ⟨x,hx,hxa.trans haddr,hxk.trans hkey⟩
  · rw [← hsame,← huse] at horder
    exact List.pairwise_map.mp horder
  · intro e he
    obtain ⟨x,hx,-,hkey⟩ := hforth e he
    rw [huse,hcalls,← hkey]
    exact h.uses x hx

omit [LinearOrder κ] in
theorem mem_setTokens {tokens : ℚ} (h : Linked s) (he : e∈s.lru) :
    x∈(setTokens s e tokens).lru ↔
      x∈s.lru∧x≠e∨x={ e with bucket := { e.bucket with tokens := tokens } } := by
  unfold setTokens
  rw [List.mem_map]
  constructor
  · rintro ⟨y,hy,rfl⟩
    by_cases haddr : y.addr=e.addr
    · rw [if_pos haddr,h.eq_of_addr hy he haddr]
      exact Or.inr rfl
    · rw [if_neg haddr]
      exact Or.inl ⟨hy,fun hye => haddr (congrArg (·.addr) hye)⟩
  · rintro (⟨hx,hne⟩ | rfl)
    · exact ⟨x,hx,if_neg fun haddr => hne (h.eq_of_addr hx he haddr)⟩
    · exact ⟨e,he,if_pos rfl⟩

omit [LinearOrder κ] in
theorem setTokens_sound {tokens : ℚ} (h : Sound c s) (he : e∈s.lru)
    (hrange : -(c.burst : ℚ)≤tokens∧tokens ≤ c.burst) : Sound c (setTokens s e tokens) := by
  refine h.renewed rfl rfl rfl rfl ?_ ?_ ?_
  · unfold setTokens
    rw [List.map_map]
    refine List.map_congr_left ?_
    intro x _
    dsimp only [Function.comp_apply]
    split <;> rfl
  · intro x hx
    cases (mem_setTokens h.linked he).mp hx with
    | inl hother => exact h.range x hother.1
    | inr hmine =>
      rw [hmine]
      exact hrange
  · intro x hx
    cases (mem_setTokens h.linked he).mp hx with
    | inl hother => exact h.clock x hother.1
    | inr hmine =>
      rw [hmine]
      exact h.clock e he

/-- The clock doesn't go back, and nothing has a negative cost. -/
def Ok (s : State κ) : Event κ → Prop
  | .allow _ cost now => s.clock≤now∧0 ≤ cost
  | .charge _ cost now => s.clock≤now∧0 ≤ cost
  | .throttled clock => s.clock ≤ clock 0∧Monotone clock

theorem Fetched.mem (h : Fetched c s t key now e) : e∈(use t key now).lru := by
  obtain ⟨rest,hlru⟩ := h.front
  show e∈t.lru
  rw [hlru]
  exact List.mem_cons_self

/-- What a call of `Allow` or `Charge` does once it has its bucket. -/
theorem call_sound (tokens : ℚ) (h : Fetched c s t key now e)
    (hrange : -(c.burst : ℚ)≤tokens∧tokens≤e.bucket.tokens) :
    Sound c (setTokens (use t key now) e tokens) :=
  setTokens_sound h.sound h.mem ⟨hrange.1,hrange.2.trans (h.sound.range e h.mem).2⟩

theorem allow_cases (c : Config) (s : State κ) (key : κ) (cost now : ℚ) :
    ∃ t e, bucket c s key now=(t,e)∧
      (e.bucket.tokens < cost∧allow c s key cost now=(use t key now,false)∨
        cost≤e.bucket.tokens∧allow c s key cost now=
          ({ setTokens (use t key now) e (e.bucket.tokens-cost) with
            granted := Function.update t.granted key (t.granted key+cost) },true)) := by
  refine ⟨(bucket c s key now).1,(bucket c s key now).2,rfl,?_⟩
  by_cases hless : (bucket c s key now).2.bucket.tokens < cost
  · exact Or.inl ⟨hless,if_pos hless⟩
  · exact Or.inr ⟨not_lt.mp hless,if_neg hless⟩

theorem charge_cases (key : κ) (h : Sound c s) (hnow : s.clock≤now) (hcost : 0 ≤ cost) :
    ∃ t e tokens, Fetched c s t key now e∧(-(c.burst : ℚ)≤tokens∧tokens≤e.bucket.tokens)∧
      charge c s key cost now=setTokens (use t key now) e tokens := by
  have hfetch := bucket_spec key h hnow
  have hrange := hfetch.sound.range _ hfetch.mem
  have hcharge : charge c s key cost now=setTokens (use (bucket c s key now).1 key now)
      (bucket c s key now).2 (if (bucket c s key now).2.bucket.tokens-cost < -c.burst then -c.burst
        else (bucket c s key now).2.bucket.tokens-cost) := rfl
  refine ⟨_,_,_,hfetch,?_,hcharge⟩
  by_cases hlow : (bucket c s key now).2.bucket.tokens-cost < -c.burst
  · rw [if_pos hlow]
    exact ⟨le_refl _,hrange.1⟩
  · rw [if_neg hlow]
    exact ⟨not_lt.mp hlow,by linarith⟩

theorem allow_sound (h : Sound c s) (hnow : s.clock≤now) (hcost : 0 ≤ cost) :
    Sound c (allow c s key cost now).1 := by
  have hfetch := bucket_spec key h hnow
  obtain ⟨t,e,hpair,hcase⟩ := allow_cases c s key cost now
  rw [hpair] at hfetch
  rcases hcase with ⟨-,hallow⟩ | ⟨hle,hallow⟩
  · rw [hallow]
    exact hfetch.sound
  · have hburst : (0 : ℚ) ≤ c.burst := Nat.cast_nonneg _
    have hset := call_sound (e.bucket.tokens-cost) hfetch ⟨by linarith,by linarith⟩
    rw [hallow]
    exact hset.renewed rfl rfl rfl rfl rfl hset.range hset.clock

theorem charge_sound (h : Sound c s) (hnow : s.clock≤now) (hcost : 0 ≤ cost) :
    Sound c (charge c s key cost now) := by
  obtain ⟨t,e,tokens,hfetch,hrange,hcharge⟩ := charge_cases key h hnow hcost
  rw [hcharge]
  exact call_sound tokens hfetch hrange

theorem mem_throttled {clock : Nat → ℚ} (hx : x∈(throttled c s clock).1.lru) :
    ∃ i e, i < s.lru.length∧e∈s.lru∧x={ e with bucket := refill c e.bucket (clock i) } := by
  obtain ⟨i,hi,rfl⟩ := List.mem_mapIdx.mp hx
  exact ⟨i,s.lru[i],hi,List.getElem_mem hi,rfl⟩

theorem throttled_sound {clock : Nat → ℚ} (h : Sound c s) (hnow : s.clock ≤ clock 0)
    (hmono : Monotone clock) : Sound c (throttled c s clock).1 := by
  refine h.renewed rfl rfl rfl rfl ?_ ?_ ?_
  · show (s.lru.mapIdx fun i e => ({ e with bucket := refill c e.bucket (clock i) } : Element κ)).map
      (fun e => (e.addr,e.bucket.key))=_
    refine List.ext_getElem (by simp only [List.length_map,List.length_mapIdx]) ?_
    intro i hi _
    simp only [List.getElem_map,List.getElem_mapIdx]
    rfl
  · intro x hx
    obtain ⟨i,e,-,he,rfl⟩ := mem_throttled hx
    have hread : e.bucket.at' ≤ clock i := (h.clock e he).trans (hnow.trans (hmono (Nat.zero_le i)))
    exact refill_range (h.range e he).1 hread
  · intro x hx
    obtain ⟨i,e,hi,-,rfl⟩ := mem_throttled hx
    exact hmono (Nat.le_pred_of_lt hi)

theorem step_sound {ev : Event κ} (h : Sound c s) (hok : Ok s ev) (hs : step c s ev=some t) :
    Sound c t := by
  cases ev with
  | allow key cost now =>
    rw [← Option.some.inj hs]
    exact allow_sound h hok.1 hok.2
  | charge key cost now =>
    rw [← Option.some.inj hs]
    exact charge_sound h hok.1 hok.2
  | throttled clock =>
    rw [← Option.some.inj hs]
    exact throttled_sound h hok.1 hok.2

omit [LinearOrder κ] in
theorem start_sound (c : Config) (clock : ℚ) : Sound c (start clock : State κ) := by
  refine ⟨⟨List.nodup_nil,?_,?_⟩,Nat.zero_le _,?_,List.Pairwise.nil,?_,?_⟩
  · exact fun e he => absurd he List.not_mem_nil
  · intro k a
    constructor
    · intro hnone
      cases hnone
    · rintro ⟨e,he,-⟩
      exact absurd he List.not_mem_nil
  · exact fun e he => absurd he List.not_mem_nil
  · exact fun e he => absurd he List.not_mem_nil
  · exact fun e he => absurd he List.not_mem_nil

end Kitp.Limiter
