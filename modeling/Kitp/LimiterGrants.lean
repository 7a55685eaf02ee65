import Kitp.LimiterRuns
import Mathlib.Data.String.Basic
import Mathlib.Tactic.Ring

/-! What `Allow` grants a key while the limiter remembers it. -/
namespace Kitp.Limiter

open Kitp.Runs

variable {κ : Type} [LinearOrder κ] {c : Config} {s t u : State κ} {key k : κ}
  {cost now t0 g0 : ℚ} {e x : Element κ} {n : Nat} {ev : Event κ}

/-- The time of a call; that of `Throttled` is its first reading. -/
def Event.time : Event κ → ℚ
  | .allow _ _ now => now
  | .charge _ _ now => now
  | .throttled clock => clock 0

/-- What a key may get from the time `t0` until `now`. -/
def Config.allowance (c : Config) (t0 now : ℚ) : ℚ := c.burst+c.perSec*(now-t0)

/-- Since `t0` the key, granted `g0` before, got nothing, or no more than its allowance, and what
its bucket holds fits under that too. -/
def Bounded (c : Config) (k : κ) (t0 g0 : ℚ) (s : State κ) : Prop :=
  s.granted k=g0∨s.granted k-g0 ≤ c.allowance t0 s.clock∧
    ∃ e∈s.lru, e.bucket.key=k∧t0≤e.bucket.at'∧
      s.granted k-g0+e.bucket.tokens ≤ c.allowance t0 e.bucket.at'

theorem Config.allowance_mono (c : Config) {a b : ℚ} (h : a≤b) :
    c.allowance t0 a ≤ c.allowance t0 b := by
  have hmul := mul_le_mul_of_nonneg_left (sub_le_sub_right h t0) c.perSec_nonneg
  unfold allowance
  linarith

theorem Config.burst_le_allowance (c : Config) (h : t0≤now) : c.burst ≤ c.allowance t0 now := by
  have hrate := mul_nonneg c.perSec_nonneg (sub_nonneg.mpr h)
  unfold allowance
  linarith

theorem Config.allowance_nonneg (c : Config) (h : t0≤now) : 0 ≤ c.allowance t0 now :=
  (Nat.cast_nonneg c.burst).trans (c.burst_le_allowance h)

omit [LinearOrder κ] in
theorem refill_tokens (c : Config) (b : Bucket κ) (now : ℚ) :
    (refill c b now).tokens≤b.tokens+(now-b.at')*c.perSec∧(refill c b now).tokens ≤ c.burst := by
  unfold refill
  dsimp only
  split
  · exact ⟨by linarith,le_refl _⟩
  · exact ⟨le_refl _,by linarith⟩

omit [LinearOrder κ] in
/-- A refill keeps a bucket under the allowance. -/
theorem refill_allowance {g : ℚ} {b : Bucket κ} (h : g+b.tokens ≤ c.allowance t0 b.at') :
    g+(refill c b now).tokens ≤ c.allowance t0 now := by
  have hgain := (refill_tokens c b now).1
  unfold Config.allowance at h ⊢
  calc g+(refill c b now).tokens
      ≤ (g+b.tokens)+(now-b.at')*c.perSec := by linarith
    _ ≤ c.burst+c.perSec*(b.at'-t0)+(now-b.at')*c.perSec := by linarith
    _ = c.burst+c.perSec*(now-t0) := by ring

/-- The key's bucket as `bucket` gives it is under the allowance. -/
theorem Bounded.mine (hb : Bounded c k t0 g0 s) (h : Sound c s) (hf : Fetched c s t k now e)
    (hlater : t0≤now) : s.granted k-g0+e.bucket.tokens ≤ c.allowance t0 now := by
  rcases hb with hsame | ⟨-,y,hy,hyk,hread,hsum⟩
  · have hburst := c.burst_le_allowance hlater
    have hcap := (hf.sound.range e hf.mem).2
    rw [hsame]
    linarith
  · rcases hf.mine with ⟨x,hx,hkey,hrefill⟩ | ⟨hnone,-⟩
    · rw [hrefill,h.linked.eq_of_key hx hy (hkey.trans hyk.symm)]
      exact refill_allowance hsum
    · exact absurd hyk (hnone y hy)

/-- A call leaves a key under its allowance, or forgets it. -/
theorem Bounded.fetched (hb : Bounded c k t0 g0 s) (h : Sound c s)
    (hf : Fetched c s t key now e) (hnow : s.clock≤now) (hlater : t0≤now) :
    s.evicted k < t.evicted k∨Bounded c k t0 g0 (use t key now) := by
  have hgranted : (use t key now).granted=s.granted := hf.granted
  unfold Bounded
  rw [hgranted]
  rcases hb with hsame | ⟨hle,y,hy,hyk,hread,hsum⟩
  · exact Or.inr (Or.inl hsame)
  · have hpast := hle.trans (c.allowance_mono hnow)
    by_cases hk : k=key
    · have hmine := Bounded.mine (Or.inr ⟨hle,y,hy,hyk,hread,hsum⟩) h (hk ▸ hf) hlater
      rw [← hf.read] at hmine
      exact Or.inr (Or.inr ⟨hpast,e,hf.mem,hf.keyed.trans hk.symm,hf.read ▸ hlater,hmine⟩)
    · have hkept := (hf.others y (hyk ▸ hk)).2 hy
      rw [hyk] at hkept
      rcases hkept with hin | hgone
      · exact Or.inr (Or.inr ⟨hpast,y,hin,hyk,hread,hsum⟩)
      · exact Or.inl hgone

omit [LinearOrder κ] in
/-- Taking tokens keeps the keys under their allowance. -/
theorem Bounded.lowered (tokens : ℚ) (hb : Bounded c k t0 g0 s) (h : Linked s) (he : e∈s.lru)
    (hle : tokens≤e.bucket.tokens) : Bounded c k t0 g0 (setTokens s e tokens) := by
  rcases hb with hsame | ⟨hgranted,y,hy,hyk,hread,hsum⟩
  · exact Or.inl hsame
  · refine Or.inr ⟨hgranted,?_⟩
    by_cases hye : y=e
    · subst hye
      refine ⟨_,(mem_setTokens h he).mpr (Or.inr rfl),hyk,hread,?_⟩
      have hless : s.granted k-g0+tokens ≤ s.granted k-g0+y.bucket.tokens := by linarith
      exact hless.trans hsum
    · exact ⟨y,(mem_setTokens h he).mpr (Or.inl ⟨hy,hye⟩),hyk,hread,hsum⟩

omit [LinearOrder κ] in
theorem Bounded.congr (hb : Bounded c k t0 g0 s) (hlru : t.lru=s.lru) (hclock : t.clock=s.clock)
    (hgranted : t.granted k=s.granted k) : Bounded c k t0 g0 t := by
  unfold Bounded at hb ⊢
  rwa [hlru,hclock,hgranted]

/-- `Allow` grants no more than the key's bucket holds. -/
theorem allow_bounded (hb : Bounded c k t0 g0 s) (h : Sound c s) (hnow : s.clock≤now)
    (hcost : 0 ≤ cost) (hlater : t0≤now) :
    s.evicted k < (allow c s key cost now).1.evicted k∨
      Bounded c k t0 g0 (allow c s key cost now).1 := by
  have hf := bucket_spec key h hnow
  obtain ⟨t,e,hpair,hcase⟩ := allow_cases c s key cost now
  rw [hpair] at hf
  have hfetched := hb.fetched h hf hnow hlater
  rcases hcase with ⟨-,hallow⟩ | ⟨hle,hallow⟩
  · rw [hallow]
    exact hfetched
  · rw [hallow]
    rcases hfetched with hgone | hkept
    · exact Or.inl hgone
    · right
      by_cases hk : k=key
      · subst hk
        have hmine := hb.mine h hf hlater
        have hpaid : Function.update t.granted k (t.granted k+cost) k=s.granted k+cost := by
          rw [Function.update_self,hf.granted]
        unfold Bounded
        dsimp only
        rw [hpaid]
        right
        constructor
        · show s.granted k+cost-g0 ≤ c.allowance t0 now
          linarith
        · refine ⟨_,(mem_setTokens hf.sound.linked hf.mem).mpr (Or.inr rfl),hf.keyed,?_,?_⟩
          · exact hf.read ▸ hlater
          · dsimp only
            rw [hf.read]
            linarith
      · have hlow := hkept.lowered (e.bucket.tokens-cost) hf.sound.linked hf.mem (by linarith)
        exact hlow.congr rfl rfl (Function.update_of_ne hk _ _)

theorem charge_bounded (hb : Bounded c k t0 g0 s) (h : Sound c s) (hnow : s.clock≤now)
    (hcost : 0 ≤ cost) (hlater : t0≤now) :
    s.evicted k < (charge c s key cost now).evicted k∨
      Bounded c k t0 g0 (charge c s key cost now) := by
  obtain ⟨t,e,tokens,hf,hrange,hcharge⟩ := charge_cases key h hnow hcost
  rw [hcharge]
  rcases hb.fetched h hf hnow hlater with hgone | hkept
  · exact Or.inl hgone
  · exact Or.inr (hkept.lowered tokens hf.sound.linked hf.mem hrange.2)

theorem throttled_bounded {clock : Nat → ℚ} (hb : Bounded c k t0 g0 s) (hnow : s.clock ≤ clock 0)
    (hmono : Monotone clock) (hlater : t0 ≤ clock 0) :
    Bounded c k t0 g0 (throttled c s clock).1 := by
  rcases hb with hsame | ⟨hgranted,y,hy,hyk,hread,hsum⟩
  · exact Or.inl hsame
  · have hend : s.clock ≤ clock (s.lru.length-1) := hnow.trans (hmono (Nat.zero_le _))
    refine Or.inr ⟨hgranted.trans (c.allowance_mono hend),?_⟩
    obtain ⟨i,hi,rfl⟩ := List.getElem_of_mem hy
    have hmem : ({ s.lru[i] with bucket := refill c s.lru[i].bucket (clock i) } : Element κ)∈
        (throttled c s clock).1.lru := List.mem_mapIdx.mpr ⟨i,hi,rfl⟩
    exact ⟨_,hmem,hyk,hlater.trans (hmono (Nat.zero_le i)),refill_allowance hsum⟩

/-- A step forgets the key or keeps it under its allowance. -/
theorem step_bounded (hb : Bounded c k t0 g0 s) (h : Sound c s) (hok : Ok s ev)
    (hlater : t0≤ev.time) (hs : step c s ev=some t) :
    s.evicted k < t.evicted k∨Bounded c k t0 g0 t := by
  cases ev with
  | allow key cost now =>
    rw [← Option.some.inj hs]
    exact allow_bounded hb h hok.1 hok.2 hlater
  | charge key cost now =>
    rw [← Option.some.inj hs]
    exact charge_bounded hb h hok.1 hok.2 hlater
  | throttled clock =>
    rw [← Option.some.inj hs]
    exact Or.inr (throttled_bounded hb hok.1 hok.2 hlater)

/-- A call is over no sooner than it began, and forgets only more. -/
theorem step_passes (h : Sound c s) (hok : Ok s ev) (hs : step c s ev=some t) :
    ev.time≤t.clock∧∀ k, s.evicted k≤t.evicted k := by
  cases ev with
  | allow key cost now =>
    have hf := bucket_spec key h hok.1
    obtain ⟨w,e,hpair,hcase⟩ := allow_cases c s key cost now
    rw [hpair] at hf
    rw [← Option.some.inj hs]
    rcases hcase with ⟨-,hallow⟩ | ⟨-,hallow⟩ <;>
      · rw [hallow]
        exact ⟨le_refl _,hf.evicted⟩
  | charge key cost now =>
    obtain ⟨w,e,tokens,hf,-,hcharge⟩ := charge_cases key h hok.1 hok.2
    rw [← Option.some.inj hs,hcharge]
    exact ⟨le_refl _,hf.evicted⟩
  | throttled clock =>
    rw [← Option.some.inj hs]
    exact ⟨hok.2 (Nat.zero_le _),fun _ => le_refl _⟩

omit [LinearOrder κ] in
theorem Ok.time (h : Ok s ev) : s.clock≤ev.time := by
  cases ev with
  | allow key cost now => exact h.1
  | charge key cost now => exact h.1
  | throttled clock => exact h.1

/-- A stretch of calls since `t0`, as one key sees it. -/
structure Stretch (c : Config) (k : κ) (t0 g0 : ℚ) (n : Nat) (s : State κ) : Prop where
  sound : Sound c s
  clock : t0 ≤ s.clock
  evicted : n ≤ s.evicted k
  bounded : n < s.evicted k∨Bounded c k t0 g0 s

theorem stretch_step (h : Sound c s) (hok : Ok s ev) (hlater : t0≤ev.time)
    (hn : n ≤ s.evicted k) (hb : n < s.evicted k∨Bounded c k t0 g0 s) (hs : step c s ev=some t) :
    Stretch c k t0 g0 n t := by
  obtain ⟨htime,hmore⟩ := step_passes h hok hs
  refine ⟨step_sound h hok hs,hlater.trans htime,hn.trans (hmore k),?_⟩
  rcases hb with hgone | hheld
  · exact Or.inl (hgone.trans_le (hmore k))
  · exact (step_bounded hheld h hok hlater hs).imp_left hn.trans_lt

/-- Over a stretch in which a key isn't forgotten it gets its allowance at most. -/
theorem granted_le {es : List (Event κ)} (h : Sound c s) (hr : Run (step c) Ok s (ev::es) t)
    (hkept : t.evicted k=s.evicted k) :
    t.granted k-s.granted k ≤ c.allowance ev.time t.clock := by
  cases hr with
  | cons hok hs hrest =>
    have hfirst : Stretch c k ev.time (s.granted k) (s.evicted k) _ :=
      stretch_step h hok (le_refl _) (le_refl _) (Or.inr (Or.inl rfl)) hs
    have hlast := hrest.inv (Stretch c k ev.time (s.granted k) (s.evicted k))
      (fun _ _ _ hi hok hs =>
        stretch_step hi.sound hok (hi.clock.trans hok.time) hi.evicted hi.bounded hs) hfirst
    rcases hlast.bounded with hgone | hsame | ⟨hle,-⟩
    · exact absurd hkept (Nat.ne_of_gt hgone)
    · rw [hsame,sub_self]
      exact c.allowance_nonneg hlast.clock
    · exact hle

/-- However the calls go: the map and the list hold the same buckets, no more than there may be, in
the order of their last use; no bucket is beyond the burst; and a key that stays gets the burst and
its rate at most. -/
theorem limiter_keeps {clock : ℚ} {es : List (Event κ)}
    (h : Run (step c) Ok (start clock) es s) :
    Linked s∧s.lru.length ≤ c.maxKeys∧
      s.lru.Pairwise (fun x y => s.lastUse y.bucket.key < s.lastUse x.bucket.key)∧
      (∀ e∈s.lru, -(c.burst : ℚ)≤e.bucket.tokens∧e.bucket.tokens ≤ c.burst)∧
      ∀ ev fs t k, Run (step c) Ok s (ev::fs) t → t.evicted k=s.evicted k →
        t.granted k-s.granted k ≤ c.burst+c.perSec*(t.clock-ev.time) := by
  have hsound : Sound c s := h.inv (Sound c)
    (fun _ _ _ hi hok hs => step_sound hi hok hs) (start_sound c clock)
  exact ⟨hsound.linked,hsound.size,hsound.order,hsound.range,
    fun _ _ _ _ hr hkept => granted_le hsound hr hkept⟩

/-- Three tokens, one more a second, for two keys. -/
def small : Config := ⟨60,3,2,by decide⟩

def once : State String := (allow small (start 0) "203.0.113.7" 2 0).1

def twice : State String := (allow small once "203.0.113.7" 2 1).1

/-- A limiter used by one address, and its next request a second later. -/
theorem limiter_keeps_small :
    twice.granted "203.0.113.7"-once.granted "203.0.113.7"=2∧
      twice.granted "203.0.113.7"-once.granted "203.0.113.7"≤
        small.burst+small.perSec*(twice.clock-1) := by
  have hfirst : Run (step small) Ok (start 0) [Event.allow "203.0.113.7" 2 0] once :=
    Run.single ⟨le_refl _,by norm_num⟩ rfl
  have hnext : Run (step small) Ok once [Event.allow "203.0.113.7" 2 1] twice :=
    Run.single ⟨show (0 : ℚ)≤1 by norm_num,by norm_num⟩ rfl
  have hkept : twice.evicted "203.0.113.7"=once.evicted "203.0.113.7" := by decide +kernel
  obtain ⟨-,-,-,-,hbound⟩ := limiter_keeps hfirst
  exact ⟨by decide +kernel,hbound (Event.allow "203.0.113.7" 2 1) [] twice "203.0.113.7" hnext hkept⟩

/-- `Allow` with a negative cost fills a bucket beyond the burst. -/
theorem limiter_beyond_burst :
    ∃ e∈(allow small (start 0) "203.0.113.7" (-1) 0).1.lru,
      (small.burst : ℚ) < e.bucket.tokens := by
  have hhead : ((allow small (start 0) "203.0.113.7" (-1) 0).1.lru.map (·.bucket.tokens)).head?=
      some (4 : ℚ) := by decide +kernel
  obtain ⟨e,he,htokens⟩ := List.mem_map.mp (List.mem_of_head? hhead)
  refine ⟨e,he,?_⟩
  rw [htokens]
  show ((3 : Nat) : ℚ) < 4
  norm_num

end Kitp.Limiter
