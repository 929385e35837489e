import Mathlib
import TreePlan.Json.Printer

/-! The order of texts by their code points. Texts that are put in it come in ascending order if they are all
different, and so do pairs by their keys; there is then one order for them only. -/

namespace TreePlan

namespace Text

/-- Code point order is the lexicographic order. -/
theorem le_iff (s t : Text) : le s t = true ↔ ¬t < s := by
  induction s generalizing t with
  | nil => simp [le]
  | cons a s ih =>
    cases t with
    | nil => simp [le]
    | cons b t =>
      unfold le
      rw [List.cons_lt_cons_iff]
      split
      · next h => simp [ih, h]
      · next h =>
        rw [decide_eq_true_eq, ← Fin.lt_def, or_iff_left fun he => h he.1.symm, not_lt]
        exact ⟨le_of_lt, fun hle => lt_of_le_of_ne hle h⟩

theorem le_of_le_of_le (s t u : Text) (hst : le s t = true) (htu : le t u = true) : le s u = true := by
  rw [le_iff, not_lt] at *
  exact hst.trans htu

theorem le_or_le (s t : Text) : (le s t || le t s) = true := by
  rw [Bool.or_eq_true, le_iff, le_iff, not_lt, not_lt]
  exact le_total s t

/-- Texts that differ come in ascending order. -/
theorem sorted_lt {ts : List Text} (h : ts.Nodup) : (sorted ts).Pairwise (· < ·) := by
  have hperm : (sorted ts).Perm ts := List.mergeSort_perm ..
  have hle : (sorted ts).Pairwise fun s t => le s t = true := List.pairwise_mergeSort le_of_le_of_le le_or_le ts
  refine (hle.and (hperm.nodup_iff.2 h)).imp fun {s t} hst => ?_
  exact lt_of_le_of_ne (not_lt.1 ((le_iff s t).1 hst.1)) hst.2

/-- A text comes before its extensions. -/
theorem lt_append (t : Text) {r : Text} (hr : r ≠ []) : t < t ++ r := by
  induction t with
  | nil =>
    obtain ⟨c, r, rfl⟩ := List.exists_cons_of_ne_nil hr
    exact List.nil_lt_cons c r
  | cons c t ih => exact List.cons_lt_cons_self.2 ih

end Text

namespace Json

variable {α : Type} {pairs more : List (Text × α)}

/-- Pairs with keys that differ come in ascending order of their keys. -/
theorem sortByKey_lt (h : (pairs.map Prod.fst).Nodup) : (sortByKey pairs).Pairwise fun p q => p.1 < q.1 := by
  have hperm : (sortByKey pairs).Perm pairs := List.mergeSort_perm ..
  have hle : (sortByKey pairs).Pairwise fun p q => Text.le p.1 q.1 = true :=
    List.pairwise_mergeSort (fun p q r => Text.le_of_le_of_le p.1 q.1 r.1) (fun p q => Text.le_or_le p.1 q.1) pairs
  have hne : (sortByKey pairs).Pairwise fun p q => p.1 ≠ q.1 :=
    List.pairwise_map.1 ((hperm.map Prod.fst).nodup_iff.2 h)
  refine (hle.and hne).imp fun {p q} hpq => ?_
  exact lt_of_le_of_ne (not_lt.1 ((Text.le_iff p.1 q.1).1 hpq.1)) hpq.2

/-- It does not matter in which order they were before. -/
theorem sortByKey_eq_of_perm (h : (pairs.map Prod.fst).Nodup) (hp : pairs.Perm more) :
    sortByKey pairs = sortByKey more := by
  have hmore : (more.map Prod.fst).Nodup := (hp.map Prod.fst).nodup_iff.1 h
  have hsorted : (sortByKey pairs).Perm (sortByKey more) :=
    ((List.mergeSort_perm ..).trans hp).trans (List.mergeSort_perm ..).symm
  exact List.Perm.eq_of_pairwise (fun p q _ _ hpq hqp => absurd hqp hpq.asymm) (sortByKey_lt h) (sortByKey_lt hmore)
    hsorted

end Json

end TreePlan
