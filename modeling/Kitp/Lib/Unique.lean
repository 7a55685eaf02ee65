import Mathlib.Logic.Function.Basic

/-! Keys that at most one entry has, where transactions read what is committed with their own
writes laid over it, and a lock on a key is held from the check that it is free until the
transaction ends. -/
namespace Kitp.Unique

variable {ι γ ρ α ν κ : Type*}

@[ext] structure Store (γ ρ α ν : Type*) where
  row : γ → Option ρ
  field : γ → α → Option ν

/-- What a transaction has written; `loose` are the entries whose keys it didn't look up. -/
@[ext] structure Tx (γ ρ α ν : Type*) where
  rows : γ → Option ρ
  fields : γ → α → Option ν
  loose : γ → Prop

def Tx.empty : Tx γ ρ α ν := ⟨fun _ => none,fun _ _ => none,fun _ => False⟩

def laid (s : Store γ ρ α ν) (t : Tx γ ρ α ν) : Store γ ρ α ν :=
  ⟨fun c => (t.rows c).or (s.row c),fun c a => (t.fields c a).or (s.field c a)⟩

/-- The locks: an entry has one writer or several readers, and a key one holder. -/
@[ext] structure State (ι γ ρ α ν κ : Type*) where
  store : Store γ ρ α ν
  tx : ι → Tx γ ρ α ν
  writer : γ → Option ι
  reads : ι → γ → Prop
  holder : κ → Option ι

def State.view (s : State ι γ ρ α ν κ) (i : ι) : Store γ ρ α ν := laid s.store (s.tx i)

variable (key : ρ → α → ν → Option κ)

/-- The entry has the key through one of its fields. -/
def Has (s : Store γ ρ α ν) (c : γ) (k : κ) : Prop :=
  ∃ r a v, s.row c=some r∧s.field c a=some v∧key r a v=some k

def UniqueKeys (s : Store γ ρ α ν) : Prop := ∀ c d k, Has key s c k → Has key s d k → c=d

/-- Some value of the field gives a key. -/
def Gives (a : α) : Prop := ∃ r v, key r a v≠none

/-- A transaction may touch an entry that it writes or reads. -/
def State.Touches (s : State ι γ ρ α ν κ) (i : ι) (c : γ) : Prop := s.writer c=some i∨s.reads i c

structure Inv (s : State ι γ ρ α ν κ) : Prop where
  unique : UniqueKeys key s.store
  apart : ∀ i j c, s.writer c=some i → s.reads j c → j=i
  rows_held : ∀ i c, (s.tx i).rows c≠none → s.writer c=some i
  fields_held : ∀ i c a, (s.tx i).fields c a≠none → Gives key a → s.Touches i c
  /-- What was checked to be free is the checker's alone. -/
  alone : ∀ i k, s.holder k=some i → ∀ c d, ¬(s.tx i).loose c → ¬(s.tx i).loose d →
    Has key (s.view i) c k → Has key (s.view i) d k → c=d
  /-- A key of what a transaction wrote is one it holds. -/
  claimed : ∀ i c a r v k, ¬(s.tx i).loose c → (s.view i).row c=some r →
    (s.view i).field c a=some v → (s.tx i).rows c≠none∨(s.tx i).fields c a≠none →
    key r a v=some k → s.holder k=some i

variable {key} {s : State ι γ ρ α ν κ} {i j : ι} {c d : γ} {k : κ}

theorem gives_of_key {r : ρ} {a : α} {v : ν} (h : key r a v=some k) : Gives key a :=
  ⟨r,v,by simp [h]⟩

theorem Inv.touches_alone (h : Inv key s) (hw : s.writer c=some i) (ht : s.Touches j c) : j=i := by
  cases ht with
  | inl hj => exact Option.some.inj (hj.symm.trans hw)
  | inr hj => exact h.apart i j c hw hj

/-- What a transaction wrote of an entry is out of reach of the others. -/
theorem Inv.rows_none (h : Inv key s) (hw : (s.tx i).rows c≠none) (hne : j≠i) :
    (s.tx j).rows c=none∧∀ a, Gives key a → (s.tx j).fields c a=none := by
  have hwriter := h.rows_held i c hw
  refine ⟨?_,fun a ha => ?_⟩
  · by_contra hr
    exact hne (h.touches_alone hwriter (.inl (h.rows_held j c hr)))
  · by_contra hf
    exact hne (h.touches_alone hwriter (h.fields_held j c a hf ha))

/-- A key that an entry has for a transaction is one the transaction holds, or the entry has
it for everyone. -/
theorem Inv.has_cases (h : Inv key s) (hc : ¬(s.tx i).loose c) (hk : Has key (s.view i) c k) :
    s.holder k=some i∨Has key s.store c k := by
  obtain ⟨r,a,v,hr,hv,hkey⟩ := hk
  by_cases hw : (s.tx i).rows c≠none∨(s.tx i).fields c a≠none
  · exact .inl (h.claimed i c a r v k hc hr hv hw hkey)
  · simp only [ne_eq,not_or,not_not] at hw
    refine .inr ⟨r,a,v,?_,?_,hkey⟩
    · simpa [State.view,laid,hw.1] using hr
    · simpa [State.view,laid,hw.2] using hv

/-- No entry whose keys a transaction didn't look up has one that another entry has, or that
another transaction holds. -/
def State.Clear (key : ρ → α → ν → Option κ) (s : State ι γ ρ α ν κ) (i : ι) : Prop :=
  ∀ c, (s.tx i).loose c → ∀ k, Has key (s.view i) c k →
    (∀ d, Has key (s.view i) d k → d=c)∧∀ j, s.holder k=some j → j=i

/-- What another transaction sees of an entry once this one has committed. -/
theorem Inv.has_after (h : Inv key s) (hclear : s.Clear key i) (hne : j≠i)
    (hk : s.holder k=some j) (hc : Has key (laid (s.view i) (s.tx j)) c k) :
    Has key (s.view j) c k := by
  obtain ⟨r,a,v,hr,hv,hkey⟩ := hc
  have ha := gives_of_key hkey
  by_cases hrows : (s.tx j).rows c=none
  · by_cases hfield : (s.tx j).fields c a=none
    · -- it reads the committed entry
      have hr' : (s.view i).row c=some r := by simpa [laid,hrows] using hr
      have hv' : (s.view i).field c a=some v := by simpa [laid,hfield] using hv
      by_cases hloose : (s.tx i).loose c
      · exact absurd ((hclear c hloose k ⟨r,a,v,hr',hv',hkey⟩).2 j hk) hne
      · by_cases hw : (s.tx i).rows c≠none∨(s.tx i).fields c a≠none
        · have hi := h.claimed i c a r v k hloose hr' hv' hw hkey
          exact absurd (Option.some.inj (hk.symm.trans hi)) hne
        · simp only [ne_eq,not_or,not_not] at hw
          refine ⟨r,a,v,?_,?_,hkey⟩
          · simpa [State.view,laid,hrows,hw.1] using hr'
          · simpa [State.view,laid,hfield,hw.2] using hv'
    · -- its own value keeps the committed row from changing
      have hi : (s.tx i).rows c=none := by
        by_contra hi
        exact hfield ((h.rows_none hi hne).2 a ha)
      refine ⟨r,a,v,?_,?_,hkey⟩
      · simpa [State.view,laid,hrows,hi] using hr
      · obtain ⟨w,hw⟩ := Option.ne_none_iff_exists'.mp hfield
        simpa [State.view,laid,hw] using hv
  · obtain ⟨hi,hfields⟩ := h.rows_none hrows (Ne.symm hne)
    refine ⟨r,a,v,?_,?_,hkey⟩
    · simpa [State.view,laid,hi] using hr
    · simpa [State.view,laid,hfields a ha] using hv

/-- An entry that is not written anew had its keys before. -/
theorem has_before {t : Tx γ ρ α ν} (hk : Has key (laid s.store t) c k)
    (hrow : t.rows c=(s.tx i).rows c) (hfield : ∀ a, Gives key a → t.fields c a=(s.tx i).fields c a) :
    Has key (s.view i) c k := by
  obtain ⟨r,a,v,hr,hv,hkey⟩ := hk
  refine ⟨r,a,v,?_,?_,hkey⟩
  · simpa only [laid,State.view,hrow] using hr
  · simpa only [laid,State.view,hfield a (gives_of_key hkey)] using hv

theorem put_writer [DecidableEq γ] {x : γ → Option ι} (hfree : ∀ j, x c=some j → j=i) {j : ι}
    (hd : x d=some j) : Function.update x c (some i) d=some j := by
  by_cases hdc : d=c
  · subst hdc
    rw [Function.update_self,hfree j hd]
  · rwa [Function.update_of_ne hdc]

theorem put_apart [DecidableEq γ] (h : Inv key s) (hfree : ∀ j, s.Touches j c → j=i) (j l : ι)
    (d : γ) (hw : Function.update s.writer c (some i) d=some j) (hr : s.reads l d) : l=j := by
  by_cases hdc : d=c
  · subst hdc
    rw [Function.update_self] at hw
    exact (hfree l (.inr hr)).trans (Option.some.inj hw)
  · rw [Function.update_of_ne hdc] at hw
    exact h.apart j l d hw hr

/-- The writer of a row holds it. -/
theorem put_held [DecidableEq γ] (h : Inv key s) {r : ρ}
    (hd : Function.update (s.tx i).rows c (some r) d≠none) :
    Function.update s.writer c (some i) d=some i := by
  by_cases hdc : d=c
  · rw [hdc,Function.update_self]
  · rw [Function.update_of_ne hdc] at hd ⊢
    exact h.rows_held i d hd

variable [DecidableEq ι]

/-- A transaction ends. -/
def State.close (s : State ι γ ρ α ν κ) (i : ι) (store : Store γ ρ α ν) : State ι γ ρ α ν κ where
  store := store
  tx := Function.update s.tx i .empty
  writer c := if s.writer c=some i then none else s.writer c
  reads j c := j≠i∧s.reads j c
  holder k := if s.holder k=some i then none else s.holder k

theorem close_some {x : Option ι} (h : (if x=some i then none else x)=some j) :
    j≠i∧x=some j := by
  split at h
  · cases h
  · rename_i hx
    exact ⟨fun hji => hx (hji ▸ h),h⟩

/-- The store a transaction leaves keeps what the others wrote in its place. -/
theorem Inv.close (h : Inv key s) {store : Store γ ρ α ν} (hunique : UniqueKeys key store)
    (hhas : ∀ j c k, j≠i → s.holder k=some j → Has key (laid store (s.tx j)) c k →
      Has key (s.view j) c k)
    (hrow : ∀ j c a, j≠i → (s.tx j).fields c a≠none → Gives key a → store.row c=s.store.row c)
    (hfield : ∀ j c a, j≠i → (s.tx j).rows c≠none → Gives key a →
      store.field c a=s.store.field c a) :
    Inv key (s.close i store) := by
  have hother {j : ι} (hj : j≠i) : (s.close i store).tx j=s.tx j := Function.update_of_ne hj ..
  have hself : (s.close i store).tx i=.empty := Function.update_self ..
  have hempty {j : ι} {c : γ} (hj : j=i) : ((s.close i store).tx j).rows c=none∧
      ∀ a, ((s.close i store).tx j).fields c a=none := by
    rw [hj,hself]
    exact ⟨rfl,fun _ => rfl⟩
  have hview {j : ι} (hj : j≠i) : (s.close i store).view j=laid store (s.tx j) := by
    rw [State.view,hother hj]
    rfl
  refine ⟨hunique,?_,?_,?_,?_,?_⟩
  · intro j l c hw hr
    exact h.apart j l c (close_some hw).2 hr.2
  · intro j c hw
    have hj : j≠i := fun hj => hw (hempty hj).1
    rw [hother hj] at hw
    have hheld := h.rows_held j c hw
    simp [State.close,hheld,hj]
  · intro j c a hw ha
    have hj : j≠i := fun hj => hw ((hempty hj).2 a)
    rw [hother hj] at hw
    cases h.fields_held j c a hw ha with
    | inl hheld => exact .inl (by simp [State.close,hheld,hj])
    | inr hread => exact .inr ⟨hj,hread⟩
  · intro j k hk c d hc hd hck hdk
    obtain ⟨hj,hk⟩ := close_some hk
    rw [hview hj] at hck hdk
    rw [hother hj] at hc hd
    exact h.alone j k hk c d hc hd (hhas j c k hj hk hck) (hhas j d k hj hk hdk)
  · intro j c a r v k hc hr hv hw hkey
    have hj : j≠i := by
      intro hj
      rcases hw with hw | hw
      · exact hw (hempty hj).1
      · exact hw ((hempty hj).2 a)
    rw [hview hj] at hr hv
    rw [hother hj] at hc hw
    have hr' : (s.view j).row c=some r := by
      rcases hw with hw | hw
      · obtain ⟨q,hq⟩ := Option.ne_none_iff_exists'.mp hw
        simpa [State.view,laid,hq] using hr
      · change ((s.tx j).rows c).or (s.store.row c)=some r
        rw [← hrow j c a hj hw (gives_of_key hkey)]
        exact hr
    have hv' : (s.view j).field c a=some v := by
      rcases hw with hw | hw
      · change ((s.tx j).fields c a).or (s.store.field c a)=some v
        rw [← hfield j c a hj hw (gives_of_key hkey)]
        exact hv
      · obtain ⟨q,hq⟩ := Option.ne_none_iff_exists'.mp hw
        simpa [State.view,laid,hq] using hv
    have hheld := h.claimed j c a r v k hc hr' hv' hw hkey
    simp [State.close,hheld,hj]

/-- What a transaction wrote leaves what the others wrote in its place. -/
theorem Inv.commit (h : Inv key s) (hclear : s.Clear key i) : Inv key (s.close i (s.view i)) := by
  refine h.close ?_ (fun j c k hne hk hc => h.has_after hclear hne hk hc) ?_ ?_
  · intro c d k hc hd
    by_cases hcl : (s.tx i).loose c
    · exact ((hclear c hcl k hc).1 d hd).symm
    · by_cases hdl : (s.tx i).loose d
      · exact (hclear d hdl k hd).1 c hc
      · by_cases hk : s.holder k=some i
        · exact h.alone i k hk c d hcl hdl hc hd
        · exact h.unique c d k ((h.has_cases hcl hc).resolve_left hk)
            ((h.has_cases hdl hd).resolve_left hk)
  · intro j c a hne hw ha
    have hi : (s.tx i).rows c=none := by
      by_contra hi
      exact hw ((h.rows_none hi hne).2 a ha)
    simp [State.view,laid,hi]
  · intro j c a hne hw ha
    have hi := (h.rows_none hw (Ne.symm hne)).2 a ha
    simp [State.view,laid,hi]

theorem Inv.abort (h : Inv key s) : Inv key (s.close i s.store) :=
  h.close h.unique (fun _ _ _ _ _ hc => hc) (fun _ _ _ _ _ _ => rfl) fun _ _ _ _ _ _ => rfl

section Turns

/-- A transaction goes on with more writes and locks. -/
def State.turn (s : State ι γ ρ α ν κ) (i : ι) (t : Tx γ ρ α ν) (writer : γ → Option ι)
    (reads : ι → γ → Prop) (holder : κ → Option ι) : State ι γ ρ α ν κ :=
  ⟨s.store,Function.update s.tx i t,writer,reads,holder⟩

variable {t : Tx γ ρ α ν} {writer : γ → Option ι} {reads : ι → γ → Prop} {holder : κ → Option ι}

theorem Inv.turn (h : Inv key s) (hwriter : ∀ c j, s.writer c=some j → writer c=some j)
    (hreads : ∀ j c, s.reads j c → reads j c) (hholder : ∀ k j, s.holder k=some j → holder k=some j)
    (hothers : ∀ k j, j≠i → holder k=some j → s.holder k=some j)
    (hapart : ∀ i j c, writer c=some i → reads j c → j=i)
    (hrows : ∀ c, t.rows c≠none → writer c=some i)
    (hfields : ∀ c a, t.fields c a≠none → Gives key a → writer c=some i∨reads i c)
    (halone : ∀ k, holder k=some i → ∀ c d, ¬t.loose c → ¬t.loose d →
      Has key (laid s.store t) c k → Has key (laid s.store t) d k → c=d)
    (hclaimed : ∀ c a r v k, ¬t.loose c → (laid s.store t).row c=some r →
      (laid s.store t).field c a=some v → t.rows c≠none∨t.fields c a≠none → key r a v=some k →
      holder k=some i) : Inv key (s.turn i t writer reads holder) := by
  have hself : (s.turn i t writer reads holder).tx i=t := Function.update_self ..
  have hother {j : ι} (hj : j≠i) : (s.turn i t writer reads holder).tx j=s.tx j :=
    Function.update_of_ne hj ..
  have hview : (s.turn i t writer reads holder).view i=laid s.store t := by
    rw [State.view,hself]
    rfl
  have hviews {j : ι} (hj : j≠i) : (s.turn i t writer reads holder).view j=s.view j := by
    rw [State.view,hother hj]
    rfl
  refine ⟨h.unique,hapart,?_,?_,?_,?_⟩
  · intro j c hw
    by_cases hj : j=i
    · subst hj
      exact hrows c (hself ▸ hw)
    · exact hwriter c j (h.rows_held j c (hother hj ▸ hw))
  · intro j c a hw ha
    by_cases hj : j=i
    · subst hj
      exact hfields c a (hself ▸ hw) ha
    · cases h.fields_held j c a (hother hj ▸ hw) ha with
      | inl hheld => exact .inl (hwriter c j hheld)
      | inr hread => exact .inr (hreads j c hread)
  · intro j k hk c d hc hd
    by_cases hj : j=i
    · subst hj
      rw [hview]
      exact halone k hk c d (hself ▸ hc) (hself ▸ hd)
    · rw [hviews hj]
      exact h.alone j k (hothers k j hj hk) c d (hother hj ▸ hc) (hother hj ▸ hd)
  · intro j c a r v k hc hr hv hw hkey
    by_cases hj : j=i
    · subst hj
      rw [hview] at hr hv
      rw [hself] at hc hw
      exact hclaimed c a r v k hc hr hv hw hkey
    · rw [hviews hj] at hr hv
      rw [hother hj] at hc hw
      exact hholder k j (h.claimed j c a r v k hc hr hv hw hkey)

/-- A row is held from changing. -/
theorem Inv.share (h : Inv key s) (hfree : s.writer c=none∨s.writer c=some i) :
    Inv key (s.turn i (s.tx i) s.writer (fun j d => s.reads j d∨(j=i∧d=c)) s.holder) := by
  refine h.turn (fun _ _ hw => hw) (fun _ _ hr => .inl hr) (fun _ _ hk => hk) (fun _ _ _ hk => hk)
    ?_ (h.rows_held i) (fun d a hw ha => ?_) (h.alone i) (h.claimed i)
  · intro j l d hw hr
    cases hr with
    | inl hr => exact h.apart j l d hw hr
    | inr hr =>
      obtain ⟨hl,hd⟩ := hr
      subst hl hd
      cases hfree with
      | inl hnone => simp [hnone] at hw
      | inr hmine => exact Option.some.inj (hmine.symm.trans hw)
  · cases h.fields_held i d a hw ha with
    | inl hheld => exact .inl hheld
    | inr hread => exact .inr (.inl hread)

/-- A key that nobody else holds is held. -/
theorem Inv.hold (h : Inv key s) {held : κ → Option ι}
    (hheld : ∀ k' j, held k'=some j↔s.holder k'=some j∨(j=i∧k'=k)) :
    Inv key (s.turn i (s.tx i) s.writer s.reads held) := by
  refine h.turn (fun _ _ hw => hw) (fun _ _ hr => hr) (fun k' j hj => (hheld k' j).mpr (.inl hj))
    (fun k' j hne hj => ((hheld k' j).mp hj).resolve_right fun hi => hne hi.1) h.apart
    (h.rows_held i) (h.fields_held i) ?_ ?_
  · intro k' hk' c d hc hd hck hdk
    by_cases hmine : s.holder k'=some i
    · exact h.alone i k' hmine c d hc hd hck hdk
    · -- the key was free, so nothing that has it is new
      exact h.unique c d k' ((h.has_cases hc hck).resolve_left hmine)
        ((h.has_cases hd hdk).resolve_left hmine)
  · intro c a r v k' hc hr hv hw hkey
    exact (hheld k' i).mpr (.inl (h.claimed i c a r v k' hc hr hv hw hkey))

variable [DecidableEq γ] {r : ρ}

/-- A row is written, whatever its keys. -/
theorem Inv.putRow (h : Inv key s) (hfree : ∀ j, s.Touches j c → j=i) (r : ρ) :
    Inv key (s.turn i ⟨Function.update (s.tx i).rows c (some r),(s.tx i).fields,
      fun d => (s.tx i).loose d∨d=c⟩ (Function.update s.writer c (some i)) s.reads s.holder) := by
  have hwriter (d : γ) (j : ι) (hw : s.writer d=some j) :=
    put_writer (c := c) (i := i) (fun j hj => hfree j (.inl hj)) hw
  have hsame {d : γ} (hd : ¬((s.tx i).loose d∨d=c)) : Function.update (s.tx i).rows c (some r) d=
      (s.tx i).rows d := Function.update_of_ne (fun hdc => hd (.inr hdc)) ..
  have hold {d : γ} (hd : ¬((s.tx i).loose d∨d=c)) : ¬(s.tx i).loose d := fun hl => hd (.inl hl)
  refine h.turn hwriter (fun _ _ hr => hr) (fun _ _ hk => hk) (fun _ _ _ hk => hk)
    (put_apart h hfree) ?_ ?_ ?_ ?_
  · exact fun d hd => put_held h hd
  · intro d b hd hb
    cases h.fields_held i d b hd hb with
    | inl hheld => exact .inl (hwriter d i hheld)
    | inr hread => exact .inr hread
  · intro k hk d e hd he hdk hek
    exact h.alone i k hk d e (hold hd) (hold he)
      (has_before hdk (hsame hd) fun _ _ => rfl) (has_before hek (hsame he) fun _ _ => rfl)
  · intro d b q w k hd hq hw hwrote hkey
    have hq' : (s.view i).row d=some q := by
      simpa only [laid,hsame hd,State.view] using hq
    have hwrote' : (s.tx i).rows d≠none∨(s.tx i).fields d b≠none := by
      simpa only [hsame hd] using hwrote
    exact h.claimed i d b q w k (hold hd) hq' hw hwrote' hkey

/-- A row is written that gives no key with the values there are. -/
theorem Inv.openRow (h : Inv key s) (hfree : ∀ j, s.Touches j c → j=i)
    (hno : ∀ a v, (s.view i).field c a=some v → key r a v=none) :
    Inv key (s.turn i ⟨Function.update (s.tx i).rows c (some r),(s.tx i).fields,(s.tx i).loose⟩
      (Function.update s.writer c (some i)) s.reads s.holder) := by
  have hwriter (d : γ) (j : ι) (hw : s.writer d=some j) :=
    put_writer (c := c) (i := i) (fun j hj => hfree j (.inl hj)) hw
  have hrow {d : γ} {q : ρ} {b : α} {w : ν} {k : κ} (hq : (laid s.store
      ⟨Function.update (s.tx i).rows c (some r),(s.tx i).fields,(s.tx i).loose⟩).row d=some q)
      (hw : (s.view i).field d b=some w) (hkey : key q b w=some k) : d≠c := by
    rintro rfl
    have hqr : r=q := by simpa [laid] using hq
    rw [← hqr,hno b w hw] at hkey
    cases hkey
  have hsame {d : γ} (hd : d≠c) : Function.update (s.tx i).rows c (some r) d=(s.tx i).rows d :=
    Function.update_of_ne hd ..
  refine h.turn hwriter (fun _ _ hr => hr) (fun _ _ hk => hk) (fun _ _ _ hk => hk)
    (put_apart h hfree) ?_ ?_ ?_ ?_
  · exact fun d hd => put_held h hd
  · intro d b hd hb
    cases h.fields_held i d b hd hb with
    | inl hheld => exact .inl (hwriter d i hheld)
    | inr hread => exact .inr hread
  · intro k hk d e hd he hdk hek
    obtain ⟨q,b,w,hq,hw,hkey⟩ := hdk
    obtain ⟨q',b',w',hq',hw',hkey'⟩ := hek
    exact h.alone i k hk d e hd he
      (has_before ⟨q,b,w,hq,hw,hkey⟩ (hsame (hrow hq hw hkey)) fun _ _ => rfl)
      (has_before ⟨q',b',w',hq',hw',hkey'⟩ (hsame (hrow hq' hw' hkey')) fun _ _ => rfl)
  · intro d b q w k hd hq hw hwrote hkey
    have hdc := hsame (hrow hq hw hkey)
    have hq' : (s.view i).row d=some q := by
      simpa only [laid,hdc,State.view] using hq
    have hwrote' : (s.tx i).rows d≠none∨(s.tx i).fields d b≠none := by
      simpa only [hdc] using hwrote
    exact h.claimed i d b q w k hd hq' hw hwrote' hkey

variable [DecidableEq α]

/-- A value is written of an entry the transaction may touch, whatever key it gives. -/
theorem Inv.putField (h : Inv key s) (ht : s.Touches i c) (a : α) (v : ν) :
    Inv key (s.turn i ⟨(s.tx i).rows,fun d b => if d=c∧b=a then some v else (s.tx i).fields d b,
      fun d => (s.tx i).loose d∨d=c⟩ s.writer s.reads s.holder) := by
  have hsame {d : γ} (hd : ¬((s.tx i).loose d∨d=c)) (b : α) :
      (if d=c∧b=a then some v else (s.tx i).fields d b)=(s.tx i).fields d b :=
    if_neg fun hdc => hd (.inr hdc.1)
  have hold {d : γ} (hd : ¬((s.tx i).loose d∨d=c)) : ¬(s.tx i).loose d := fun hl => hd (.inl hl)
  refine h.turn (fun _ _ hw => hw) (fun _ _ hr => hr) (fun _ _ hk => hk) (fun _ _ _ hk => hk)
    h.apart (h.rows_held i) ?_ ?_ ?_
  · intro d b hd hb
    by_cases hdc : d=c
    · exact hdc ▸ ht
    · have hd : (if d=c∧b=a then some v else (s.tx i).fields d b)≠none := hd
      rw [if_neg fun hdc' => hdc hdc'.1] at hd
      exact h.fields_held i d b hd hb
  · intro k hk d e hd he hdk hek
    exact h.alone i k hk d e (hold hd) (hold he)
      (has_before hdk rfl fun b _ => hsame hd b) (has_before hek rfl fun b _ => hsame he b)
  · intro d b q w k hd hq hw hwrote hkey
    have hw' : (s.view i).field d b=some w := by
      simpa only [laid,hsame hd,State.view] using hw
    have hwrote' : (s.tx i).rows d≠none∨(s.tx i).fields d b≠none := by
      simpa only [hsame hd] using hwrote
    exact h.claimed i d b q w k (hold hd) hq hw' hwrote' hkey

/-- A value is written of a field that gives no key. -/
theorem Inv.putOther (h : Inv key s) {a : α} (hno : ¬Gives key a) (c : γ) (v : ν) :
    Inv key (s.turn i ⟨(s.tx i).rows,fun d b => if d=c∧b=a then some v else (s.tx i).fields d b,
      (s.tx i).loose⟩ s.writer s.reads s.holder) := by
  have hsame (d : γ) (b : α) (hb : Gives key b) :
      (if d=c∧b=a then some v else (s.tx i).fields d b)=(s.tx i).fields d b :=
    if_neg fun hdb : d=c∧b=a => hno (hdb.2 ▸ hb)
  refine h.turn (fun _ _ hw => hw) (fun _ _ hr => hr) (fun _ _ hk => hk) (fun _ _ _ hk => hk)
    h.apart (h.rows_held i) ?_ ?_ ?_
  · intro d b hd hb
    have hd : (if d=c∧b=a then some v else (s.tx i).fields d b)≠none := hd
    rw [hsame d b hb] at hd
    exact h.fields_held i d b hd hb
  · intro k hk d e hd he hdk hek
    exact h.alone i k hk d e hd he (has_before hdk rfl (hsame d)) (has_before hek rfl (hsame e))
  · intro d b q w k hd hq hw hwrote hkey
    have hb := hsame d b (gives_of_key hkey)
    have hw' : (s.view i).field d b=some w := by
      simpa only [laid,hb,State.view] using hw
    have hwrote' : (s.tx i).rows d≠none∨(s.tx i).fields d b≠none := by
      simpa only [hb] using hwrote
    exact h.claimed i d b q w k hd hq hw' hwrote' hkey

/-- A value is written whose key, if any, was free and no other entry has. -/
theorem Inv.claim (h : Inv key s) (ht : s.Touches i c) (a : α) (v : ν) {held : κ → Option ι}
    (hheld : ∀ k j, held k=some j↔s.holder k=some j∨
      (j=i∧∃ r, (s.view i).row c=some r∧key r a v=some k))
    (hfree : ∀ r k, (s.view i).row c=some r → key r a v=some k →
      (∀ j, s.holder k=some j → j=i)∧∀ d, d≠c → ¬Has key (s.view i) d k) :
    Inv key (s.turn i ⟨(s.tx i).rows,fun d b => if d=c∧b=a then some v else (s.tx i).fields d b,
      (s.tx i).loose⟩ s.writer s.reads held) := by
  have hsame {d : γ} {b : α} (hd : ¬(d=c∧b=a)) :
      (if d=c∧b=a then some v else (s.tx i).fields d b)=(s.tx i).fields d b := if_neg hd
  -- the keys after it, one by one: the new one, or one from before
  have hcases {d : γ} {q : ρ} {b : α} {w : ν} {k : κ} (hq : (s.view i).row d=some q)
      (hw : (if d=c∧b=a then some v else (s.tx i).fields d b).or (s.store.field d b)=some w)
      (hkey : key q b w=some k) :
      (d=c∧b=a∧key q a v=some k)∨(¬(d=c∧b=a)∧(s.view i).field d b=some w) := by
    by_cases hd : d=c∧b=a
    · rw [if_pos hd,Option.some_or,Option.some.injEq] at hw
      exact .inl ⟨hd.1,hd.2,by rw [hw,← hd.2]; exact hkey⟩
    · rw [if_neg hd] at hw
      exact .inr ⟨hd,hw⟩
  refine h.turn (fun _ _ hw => hw) (fun _ _ hr => hr) (fun k j hk => (hheld k j).mpr (.inl hk))
    (fun k j hj hk => ((hheld k j).mp hk).resolve_right fun hi => hj hi.1) h.apart (h.rows_held i)
    ?_ ?_ ?_
  · intro d b hd hb
    by_cases hdc : d=c
    · exact hdc ▸ ht
    · have hd : (if d=c∧b=a then some v else (s.tx i).fields d b)≠none := hd
      rw [hsame fun hd => hdc hd.1] at hd
      exact h.fields_held i d b hd hb
  · intro k hk x y hx hy ⟨q,b,w,hq,hw,hkey⟩ ⟨q',b',w',hq',hw',hkey'⟩
    rcases hcases hq hw hkey with ⟨hxc,-,hnew⟩ | ⟨-,hold⟩
    · subst hxc
      rcases hcases hq' hw' hkey' with ⟨hyc,-,-⟩ | ⟨-,hold'⟩
      · exact hyc.symm
      · by_contra hne
        exact (hfree q k hq hnew).2 y (Ne.symm hne) ⟨q',b',w',hq',hold',hkey'⟩
    · rcases hcases hq' hw' hkey' with ⟨hyc,-,hnew⟩ | ⟨-,hold'⟩
      · subst hyc
        by_contra hne
        exact (hfree q' k hq' hnew).2 x hne ⟨q,b,w,hq,hold,hkey⟩
      · have hxk : Has key (s.view i) x k := ⟨q,b,w,hq,hold,hkey⟩
        have hyk : Has key (s.view i) y k := ⟨q',b',w',hq',hold',hkey'⟩
        rcases (hheld k i).mp hk with hk | ⟨-,r,hr,hnew⟩
        · exact h.alone i k hk x y hx hy hxk hyk
        · have honly := (hfree r k hr hnew).2
          have hxc : x=c := by
            by_contra hne
            exact honly x hne hxk
          have hyc : y=c := by
            by_contra hne
            exact honly y hne hyk
          exact hxc.trans hyc.symm
  · intro d b q w k hd hq hw hwrote hkey
    rcases hcases hq hw hkey with ⟨hdc,-,hnew⟩ | ⟨hdb,hold⟩
    · subst hdc
      exact (hheld k i).mpr (.inr ⟨rfl,q,hq,hnew⟩)
    · have hwrote' : (s.tx i).rows d≠none∨(s.tx i).fields d b≠none := by
        simpa only [hsame hdb] using hwrote
      exact (hheld k i).mpr (.inl (h.claimed i d b q w k hd hq hold hwrote' hkey))

end Turns

end Kitp.Unique
