import Mathlib.Data.List.Dedup

/-! A table under READ COMMITTED: each transaction sees the committed rows with its own writes
laid over them, a row that a transaction wrote waits for its end, and a unique index waits for
what others are writing. -/
namespace Kitp.Versions

variable {ι κ ρ υ : Type*}

/-- A transaction's write of a row; none deletes it. -/
structure Write (ι κ ρ : Type*) where
  tx : ι
  key : κ
  row : Option ρ

structure Table (ι κ ρ : Type*) where
  rows : List (κ×ρ)
  writes : List (Write ι κ ρ)

namespace Table

variable [DecidableEq ι] [DecidableEq κ] (t : Table ι κ ρ) (i : ι) (k : κ)

def row : Option ρ := (t.rows.find? (·.1=k)).map (·.2)

def own : Option (Option ρ) := (t.writes.find? fun w => w.tx=i∧w.key=k).map (·.row)

/-- What a statement of the transaction sees. -/
def view : Option ρ := (t.own i k).getD (t.row k)

def keys : List κ := (t.writes.map (·.key)++t.rows.map (·.1)).dedup

/-- All the rows it sees. -/
def scan : List (κ×ρ) := t.keys.filterMap fun k => (t.view i k).map (k,·)

/-- No other transaction wrote the row. -/
def free : Bool := t.writes.all fun w => w.key≠k∨w.tx=i

def put (r : Option ρ) : Table ι κ ρ :=
  { t with writes := ⟨i,k,r⟩::t.writes.filter fun w => ¬(w.tx=i∧w.key=k) }

/-- The transaction ends. -/
def close (rows : List (κ×ρ)) : Table ι κ ρ := ⟨rows,t.writes.filter (·.tx≠i)⟩

def commit : Table ι κ ρ := t.close i (t.scan i)

def abort : Table ι κ ρ := t.close i t.rows

variable [DecidableEq υ] (idx : κ → ρ → Option υ)

/-- No other transaction is writing, or taking away, an entry that the index would have to
wait for. -/
def settled (r : ρ) : Bool :=
  (idx k r).all fun u => t.writes.all fun w => w.tx=i∨
    ((w.row.bind (idx w.key))≠some u∧((t.row w.key).bind (idx w.key))≠some u)

/-- Another row has the entry. -/
def taken (r : ρ) : Bool :=
  (idx k r).any fun u => (t.scan i).any fun p => p.1≠k∧idx p.1 p.2=some u

end Table

open Table

variable [DecidableEq ι] [DecidableEq κ] {t : Table ι κ ρ} {i j : ι} {k l : κ} {r : ρ} {u : υ}

theorem free_iff : t.free i k=true↔∀ j, j≠i → t.own j k=none := by
  simp only [free,own,List.all_eq_true,decide_eq_true_eq,Option.map_eq_none_iff,
    List.find?_eq_none,not_and]
  constructor
  · intro h j hj w hw htx hkey
    rcases h w hw with hne | hi
    · exact hne hkey
    · exact hj (htx.symm.trans hi)
  · intro h w hw
    by_cases hi : w.tx=i
    · exact .inr hi
    · exact .inl (h w.tx hi w hw rfl)

theorem mem_keys_of_view (h : t.view i k=some r) : k∈t.keys := by
  simp only [keys,List.mem_dedup,List.mem_append,List.mem_map]
  cases hown : t.own i k with
  | some o =>
    obtain ⟨w,hw,-⟩ := Option.map_eq_some_iff.mp hown
    have hkey := List.find?_some hw
    simp only [decide_eq_true_eq] at hkey
    exact .inl ⟨w,List.mem_of_find?_eq_some hw,hkey.2⟩
  | none =>
    rw [view,hown,Option.getD_none] at h
    obtain ⟨p,hp,-⟩ := Option.map_eq_some_iff.mp h
    have hkey := List.find?_some hp
    exact .inr ⟨p,List.mem_of_find?_eq_some hp,of_decide_eq_true hkey⟩

theorem mem_scan {p : κ×ρ} : p∈t.scan i↔t.view i p.1=some p.2 := by
  simp only [scan,List.mem_filterMap,Option.map_eq_some_iff]
  constructor
  · rintro ⟨k,-,r,hr,rfl⟩
    exact hr
  · intro h
    exact ⟨p.1,mem_keys_of_view h,p.2,h,rfl⟩

/-- The rows of a commit are those the transaction saw. -/
theorem row_scan (rows : List (Write ι κ ρ)) :
    (Table.mk (t.scan i) rows).row k=t.view i k := by
  cases hrow : (Table.mk (t.scan i) rows).row k with
  | some r =>
    obtain ⟨p,hp,rfl⟩ := Option.map_eq_some_iff.mp hrow
    have hkey : p.1=k := by simpa using List.find?_some hp
    rw [← hkey]
    exact (mem_scan.mp (List.mem_of_find?_eq_some hp)).symm
  | none =>
    cases hview : t.view i k with
    | none => rfl
    | some r =>
      have hnone := List.find?_eq_none.mp (Option.map_eq_none_iff.mp hrow) (k,r)
        (mem_scan.mpr hview)
      simp at hnone

theorem own_put (o : Option ρ) : (t.put i k o).own j l=if j=i∧l=k then some o else t.own j l := by
  by_cases h : j=i∧l=k
  · obtain ⟨rfl,rfl⟩ := h
    simp [own,put]
  · have hne : ¬(i=j∧k=l) := fun h' => h ⟨h'.1.symm,h'.2.symm⟩
    rw [if_neg h]
    simp only [own,put]
    rw [List.find?_cons_of_neg (by simpa using hne),List.find?_filter]
    congr 2
    funext w
    by_cases hw : w.tx=j∧w.key=l
    · have hother : ¬(w.tx=i∧w.key=k) := fun hw' => hne ⟨hw'.1.symm.trans hw.1,hw'.2.symm.trans hw.2⟩
      simp [hw.1,hw.2,show ¬(j=i∧l=k) from h]
    · simp [hw]

theorem view_put (o : Option ρ) : (t.put i k o).view j l=if j=i∧l=k then o else t.view j l := by
  rw [view,own_put]
  split
  · rfl
  · rfl

theorem own_close (rows : List (κ×ρ)) : (t.close i rows).own j k=if j=i then none else t.own j k := by
  simp only [own,close,List.find?_filter]
  split
  · rename_i hj
    subst hj
    rw [Option.map_eq_none_iff,List.find?_eq_none]
    intro w _
    simp only [decide_eq_true_eq,not_and]
    intro hne hj
    exact absurd hj hne
  · rename_i hj
    congr 2
    funext w
    by_cases hw : w.tx=j
    · simp [hw,hj]
    · simp [hw]

theorem row_commit : (t.commit i).row k=t.view i k := row_scan _

theorem row_abort : (t.abort i).row k=t.row k := rfl

theorem view_commit : (t.commit i).view j k=if j=i then t.view i k else (t.own j k).getD (t.view i k) := by
  rw [view,row_commit,commit,own_close]
  split
  · rfl
  · rfl

theorem view_abort : (t.abort i).view j k=if j=i then t.row k else t.view j k := by
  rw [view,row_abort,abort,own_close]
  split
  · rfl
  · rfl

variable {idx : κ → ρ → Option υ}

/-- The row is there and has the entry. -/
def Holds (idx : κ → ρ → Option υ) (f : κ → Option ρ) (k : κ) (u : υ) : Prop :=
  ∃ r, f k=some r∧idx k r=some u

def Unique (idx : κ → ρ → Option υ) (f : κ → Option ρ) : Prop :=
  ∀ u k l, Holds idx f k u → Holds idx f l u → k=l

/-- Every transaction sees a unique index, and no two of them write one entry. -/
structure Inv (idx : κ → ρ → Option υ) (t : Table ι κ ρ) : Prop where
  apart : ∀ i j k, t.own i k≠none → t.own j k≠none → i=j
  committed : Unique idx t.row
  views : ∀ i, Unique idx (t.view i)
  clear : ∀ i j u k l, Holds idx (fun k => (t.own i k).join) k u →
    Holds idx (fun k => (t.own j k).join) l u → i=j

theorem Inv.start {rows : List (κ×ρ)} (h : Unique idx (Table.mk (ι := ι) rows []).row) :
    Inv idx (Table.mk (ι := ι) rows []) :=
  ⟨fun _ _ _ h => absurd rfl h,h,fun _ => h,fun _ _ _ _ _ ⟨_,hr,_⟩ => by cases hr⟩

theorem holds_own {o : Option ρ} (h : t.own i k=some o) (hv : Holds idx (t.view i) k u) :
    Holds idx (fun k => (t.own i k).join) k u := by
  obtain ⟨r,hr,hu⟩ := hv
  refine ⟨r,?_,hu⟩
  simpa [view,h] using hr

/-- A row is written that the index has room for. -/
theorem Inv.put {o : Option ρ} (h : Inv idx t) (hfree : t.free i k=true)
    (hview : ∀ r u, o=some r → idx k r=some u → ∀ l, Holds idx (t.view i) l u → l=k)
    (hothers : ∀ r u, o=some r → idx k r=some u → ∀ j l, j≠i →
      ¬Holds idx (fun k => (t.own j k).join) l u) : Inv idx (t.put i k o) := by
  have hfree := free_iff.mp hfree
  refine ⟨?_,h.committed,?_,?_⟩
  · intro a b l ha hb
    rw [own_put] at ha hb
    by_cases hla : a=i∧l=k
    · by_cases hlb : b=i∧l=k
      · exact hla.1.trans hlb.1.symm
      · rw [if_neg hlb] at hb
        rw [hla.2] at hb
        by_contra hne
        exact hb (hfree b fun hbi => hne (hla.1.trans hbi.symm))
    · rw [if_neg hla] at ha
      by_cases hlb : b=i∧l=k
      · rw [hlb.2] at ha
        by_contra hne
        exact ha (hfree a fun hai => hne (hai.trans hlb.1.symm))
      · rw [if_neg hlb] at hb
        exact h.apart a b l ha hb
  · intro a u l m hl hm
    by_cases ha : a=i
    · subst ha
      -- of two rows with one entry, the new one or neither is among them
      have hcases : ∀ x, Holds idx ((t.put a k o).view a) x u → (x=k∧∃ r, o=some r∧idx k r=some u)∨
          (x≠k∧Holds idx (t.view a) x u) := by
        rintro x ⟨r,hr,hu⟩
        rw [view_put] at hr
        by_cases hx : x=k
        · subst hx
          rw [if_pos ⟨rfl,rfl⟩] at hr
          exact .inl ⟨rfl,r,hr,hu⟩
        · rw [if_neg fun hax => hx hax.2] at hr
          exact .inr ⟨hx,r,hr,hu⟩
      rcases hcases l hl with ⟨rfl,r,hr,hu⟩ | ⟨-,hl'⟩
      · rcases hcases m hm with ⟨rfl,-⟩ | ⟨-,hm'⟩
        · rfl
        · exact (hview r u hr hu m hm').symm
      · rcases hcases m hm with ⟨rfl,r,hr,hu⟩ | ⟨-,hm'⟩
        · exact hview r u hr hu l hl'
        · exact h.views a u l m hl' hm'
    · have hsame : (t.put i k o).view a=t.view a := by
        funext x
        rw [view_put,if_neg fun hax => ha hax.1]
      rw [hsame] at hl hm
      exact h.views a u l m hl hm
  · intro a b u l m hl hm
    have hcases : ∀ c x, Holds idx (fun k_1 => ((t.put i k o).own c k_1).join) x u →
        (c=i∧∃ r, o=some r∧idx k r=some u)∨Holds idx (fun k => (t.own c k).join) x u := by
      rintro c x ⟨r,hr,hu⟩
      dsimp only at hr
      rw [own_put] at hr
      by_cases hx : c=i∧x=k
      · rw [if_pos hx,Option.join_some] at hr
        exact .inl ⟨hx.1,r,hr,hx.2 ▸ hu⟩
      · rw [if_neg hx] at hr
        exact .inr ⟨r,hr,hu⟩
    rcases hcases a l hl with ⟨rfl,r,hr,hu⟩ | hl'
    · rcases hcases b m hm with ⟨rfl,-⟩ | hm'
      · rfl
      · by_contra hne
        exact hothers r u hr hu b m (Ne.symm hne) hm'
    · rcases hcases b m hm with ⟨rfl,r,hr,hu⟩ | hm'
      · by_contra hne
        exact hothers r u hr hu a l hne hl'
      · exact h.clear a b u l m hl' hm'

theorem Inv.commit (h : Inv idx t) (i : ι) : Inv idx (t.commit i) := by
  have hother : ∀ {j k}, (t.commit i).own j k≠none → j≠i∧t.own j k≠none := by
    intro j k hj
    rw [Table.commit,own_close] at hj
    split at hj
    · exact absurd rfl hj
    · rename_i hne
      exact ⟨hne,hj⟩
  refine ⟨fun a b k ha hb => h.apart a b k (hother ha).2 (hother hb).2,?_,?_,?_⟩
  · have hrow : (t.commit i).row=t.view i := funext fun k => row_commit
    rw [hrow]
    exact h.views i
  · intro j u k l hk hl
    by_cases hj : j=i
    · have hsame : (t.commit i).view j=t.view i := by
        funext x
        rw [view_commit,if_pos hj]
      rw [hsame] at hk hl
      exact h.views i u k l hk hl
    · -- an entry it sees now is its own, or one the committed transaction saw
      have hcases : ∀ x, Holds idx ((t.commit i).view j) x u →
          (Holds idx (fun k => (t.own j k).join) x u)∨
            (t.own j x=none∧Holds idx (t.view i) x u) := by
        rintro x ⟨r,hr,hu⟩
        rw [view_commit,if_neg hj] at hr
        cases hown : t.own j x with
        | none =>
          rw [hown,Option.getD_none] at hr
          exact .inr ⟨rfl,r,hr,hu⟩
        | some o =>
          rw [hown,Option.getD_some] at hr
          exact .inl ⟨r,by simp [hown,hr],hu⟩
      have hview : ∀ x, Holds idx (fun k => (t.own j k).join) x u → Holds idx (t.view j) x u := by
        rintro x ⟨r,hr,hu⟩
        refine ⟨r,?_,hu⟩
        cases hown : t.own j x with
        | none => simp [hown] at hr
        | some o => simpa [Table.view,hown] using hr
      have hmixed : ∀ x y, Holds idx (fun k => (t.own j k).join) x u → t.own j y=none →
          Holds idx (t.view i) y u → x=y := by
        rintro x y hx hnone hy
        cases hown : t.own i y with
        | some o => exact absurd (h.clear i j u y x (holds_own hown hy) hx) (Ne.symm hj)
        | none =>
          obtain ⟨r,hr,hu⟩ := hy
          refine h.views j u x y (hview x hx) ⟨r,?_,hu⟩
          rw [Table.view,hown,Option.getD_none] at hr
          rw [Table.view,hnone,Option.getD_none,hr]
      rcases hcases k hk with hk | ⟨hnk,hk⟩
      · rcases hcases l hl with hl | ⟨hnl,hl⟩
        · exact h.views j u k l (hview k hk) (hview l hl)
        · exact hmixed k l hk hnl hl
      · rcases hcases l hl with hl | ⟨hnl,hl⟩
        · exact (hmixed l k hl hnk hk).symm
        · exact h.views i u k l hk hl
  · intro a b u k l hk hl
    have hown : ∀ c x, Holds idx (fun k => ((t.commit i).own c k).join) x u →
        Holds idx (fun k => (t.own c k).join) x u := by
      rintro c x ⟨r,hr,hu⟩
      refine ⟨r,?_,hu⟩
      dsimp only at hr ⊢
      rw [Table.commit,own_close] at hr
      split at hr
      · cases hr
      · exact hr
    exact h.clear a b u k l (hown a k hk) (hown b l hl)

theorem Inv.abort (h : Inv idx t) (i : ι) : Inv idx (t.abort i) := by
  have hother : ∀ {j k}, (t.abort i).own j k≠none → t.own j k≠none := by
    intro j k hj
    rw [Table.abort,own_close] at hj
    split at hj
    · exact absurd rfl hj
    · exact hj
  refine ⟨fun a b k ha hb => h.apart a b k (hother ha) (hother hb),h.committed,?_,?_⟩
  · intro j
    by_cases hj : j=i
    · have hsame : (t.abort i).view j=t.row := by
        funext x
        rw [view_abort,if_pos hj]
      rw [hsame]
      exact h.committed
    · have hsame : (t.abort i).view j=t.view j := by
        funext x
        rw [view_abort,if_neg hj]
      rw [hsame]
      exact h.views j
  · intro a b u k l hk hl
    have hown : ∀ c x, Holds idx (fun k => ((t.abort i).own c k).join) x u →
        Holds idx (fun k => (t.own c k).join) x u := by
      rintro c x ⟨r,hr,hu⟩
      refine ⟨r,?_,hu⟩
      dsimp only at hr ⊢
      rw [Table.abort,own_close] at hr
      split at hr
      · cases hr
      · exact hr
    exact h.clear a b u k l (hown a k hk) (hown b l hl)

/-- A row is written that has the entry its last version had, or none. -/
theorem Inv.put_same (h : Inv idx t) (hfree : t.free i k=true)
    (hsame : ∀ u, idx k r=some u → Holds idx (t.view i) k u) : Inv idx (t.put i k (some r)) := by
  refine h.put hfree ?_ ?_
  · intro r' u hr hu l hl
    cases hr
    exact h.views i u l k hl (hsame u hu)
  · intro r' u hr hu j l hj hl
    cases hr
    have hk := hsame u hu
    cases hown : t.own i k with
    | some o => exact hj (h.clear j i u l k hl (holds_own hown hk))
    | none =>
      -- the row is committed, and nobody else's
      obtain ⟨q,hq,hqu⟩ := hk
      have hother := free_iff.mp hfree j hj
      have hview : Holds idx (t.view j) k u := by
        refine ⟨q,?_,hqu⟩
        rw [view,hown,Option.getD_none] at hq
        rw [view,hother,Option.getD_none,hq]
      obtain ⟨p,hp,hpu⟩ := hl
      dsimp only at hp
      have hlk : l=k := by
        refine h.views j u l k ⟨p,?_,hpu⟩ hview
        cases hl : t.own j l with
        | none => simp [hl] at hp
        | some o => simpa [view,hl] using hp
      rw [hlk,hother] at hp
      cases hp

variable [DecidableEq υ]

/-- What the checks of an index entry leave room for. -/
theorem Inv.put_checked (h : Inv idx t) (hfree : t.free i k=true)
    (hsettled : t.settled i k idx r=true) (htaken : t.taken i k idx r=false) :
    Inv idx (t.put i k (some r)) := by
  refine h.put hfree ?_ ?_
  · intro r' u hr hu l hl
    cases hr
    obtain ⟨q,hq,hqu⟩ := hl
    by_contra hne
    have hany : t.taken i k idx r=true := by
      rw [taken,hu,Option.any_some,List.any_eq_true]
      exact ⟨(l,q),mem_scan.mpr hq,by simp [hne,hqu]⟩
    rw [htaken] at hany
    cases hany
  · intro r' u hr hu j l hj hl
    cases hr
    obtain ⟨q,hq,hqu⟩ := hl
    dsimp only at hq
    cases hown : t.own j l with
    | none => simp [hown] at hq
    | some o =>
      obtain ⟨w,hw,rfl⟩ := Option.map_eq_some_iff.mp hown
      have hkey : w.tx=j∧w.key=l := by simpa using List.find?_some hw
      have hmem := List.mem_of_find?_eq_some hw
      rw [settled,hu,Option.all_some,List.all_eq_true] at hsettled
      have hclear := of_decide_eq_true (hsettled w hmem)
      rw [hown,Option.join_some] at hq
      rcases hclear with hi | hno
      · exact hj (hkey.1.symm.trans hi)
      · exact hno.1 (by rw [hq,Option.bind_some,hkey.2,hqu])

end Kitp.Versions
