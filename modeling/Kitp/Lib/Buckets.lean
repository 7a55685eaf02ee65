import Mathlib.Data.List.Dedup
import Mathlib.Data.List.Perm.Basic

/-! A sequence put into buckets by key: the keys in the order they first come, what the
buckets hold together, and the first entry of each key. -/
namespace Kitp.Buckets

variable {α κ : Type*} [DecidableEq κ]

/-- The keys of the entries, each where it first comes. -/
def firstKeys (ks : List κ) : List κ := ks.reverse.dedup.reverse

def bucket (key : α → κ) (l : List α) (k : κ) : List α := l.filter (key · = k)

/-- The first entry of every key that isn't in `seen`. -/
def firstPer (key : α → κ) : List κ → List α → List α
  | _,[] => []
  | seen,a::l => if key a∈seen then firstPer key seen l else a::firstPer key (key a::seen) l

section
variable {key : α → κ} {keys seen : List κ} {l : List α} {a : α} {k : κ}

theorem mem_firstKeys {ks : List κ} : k∈firstKeys ks↔k∈ks := by
  simp [firstKeys]

theorem nodup_firstKeys (ks : List κ) : (firstKeys ks).Nodup :=
  List.nodup_reverse.mpr (List.nodup_dedup _)

theorem bucket_cons_self : bucket key (a::l) (key a)=a::bucket key l (key a) := by
  simp [bucket]

theorem bucket_cons_ne (h : key a≠k) : bucket key (a::l) k=bucket key l k := by
  simp [bucket,h]

/-- The buckets of distinct keys that cover the entries hold each of them once. -/
theorem perm_flatMap_bucket (hk : keys.Nodup) (h : ∀ a∈l, key a∈keys) :
    (keys.flatMap (bucket key l)).Perm l := by
  induction l with
  | nil => simp [bucket]
  | cons a l ih =>
    have hrest : (keys.flatMap (bucket key l)).Perm l :=
      ih fun b hb => h b (List.mem_cons_of_mem a hb)
    obtain ⟨before,tail,hkeys⟩ := List.append_of_mem (h a List.mem_cons_self)
    subst hkeys
    have hnot := List.nodup_middle.mp hk
    have hne : ∀ k∈before++tail, key a≠k := fun k hmem heq =>
      (List.nodup_cons.mp hnot).1 (heq ▸ hmem)
    have hsame (ks : List κ) (hks : ∀ k∈ks, key a≠k) :
        ks.flatMap (bucket key (a::l))=ks.flatMap (bucket key l) :=
      List.flatMap_congr fun k hmem => bucket_cons_ne (hks k hmem)
    have hbefore := hsame before fun k hmem => hne k (List.mem_append_left tail hmem)
    have htail := hsame tail fun k hmem => hne k (List.mem_append_right before hmem)
    rw [List.flatMap_append,List.flatMap_cons] at hrest ⊢
    rw [hbefore,htail,bucket_cons_self,List.cons_append]
    exact List.perm_middle.trans (hrest.cons a)

/-- The first entry of a key is still the first of that key. -/
theorem find?_firstPer (hk : k∉seen) :
    (firstPer key seen l).find? (key · = k)=l.find? (key · = k) := by
  induction l generalizing seen with
  | nil => rfl
  | cons a l ih =>
    by_cases ha : key a∈seen
    · have hne : key a≠k := fun h => hk (h ▸ ha)
      rw [firstPer,if_pos ha,ih hk,List.find?_cons_of_neg (by simpa using hne)]
    · rw [firstPer,if_neg ha]
      by_cases hak : key a=k
      · rw [List.find?_cons_of_pos (by simpa using hak),List.find?_cons_of_pos (by simpa using hak)]
      · have hseen : k∉key a::seen := by simp [Ne.symm hak,hk]
        rw [List.find?_cons_of_neg (by simpa using hak),List.find?_cons_of_neg (by simpa using hak),
          ih hseen]

end

end Kitp.Buckets
