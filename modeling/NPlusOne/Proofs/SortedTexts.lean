import Mathlib.Data.List.Sort
import Mathlib.Data.String.Basic
import NPlusOne.FileTree.Glob

namespace NPlusOne

theorem mem_sortUnique {text : String} {texts : List String} :
    text ∈ sortUnique texts ↔ text ∈ texts := by
  rw [sortUnique, List.mem_eraseDups, List.mem_mergeSort]

theorem nodup_eraseDups (texts : List String) : texts.eraseDups.Nodup := by
  -- By the length, since what is looked at next is the tail without the copies of its head.
  induction hn : texts.length using Nat.strongRecOn generalizing texts with
  | ind n ih =>
    cases texts with
    | nil => simp
    | cons text rest =>
      rw [List.eraseDups_cons, List.nodup_cons]
      have hle := List.length_filter_le (fun other => !other == text) rest
      exact ⟨by simp, ih _ (by simp only [List.length_cons] at hn; omega) _ rfl⟩

theorem nodup_sortUnique (texts : List String) : (sortUnique texts).Nodup :=
  nodup_eraseDups _

theorem eraseDups_sublist (texts : List String) : texts.eraseDups.Sublist texts := by
  induction hn : texts.length using Nat.strongRecOn generalizing texts with
  | ind n ih =>
    cases texts with
    | nil => simp
    | cons text rest =>
      rw [List.eraseDups_cons]
      have hle := List.length_filter_le (fun other => !other == text) rest
      refine List.Sublist.cons_cons text (List.Sublist.trans (ih _ ?_ _ rfl) List.filter_sublist)
      simp only [List.length_cons] at hn
      omega

theorem pairwise_sortUnique (texts : List String) : (sortUnique texts).Pairwise (· < ·) := by
  have hsorted : (texts.mergeSort fun a b => decide (a ≤ b)).Pairwise fun a b => a ≤ b := by
    have htrans : ∀ a b c : String, decide (a ≤ b) = true → decide (b ≤ c) = true →
        decide (a ≤ c) = true := by
      simpa using fun a b c (hab : a ≤ b) (hbc : b ≤ c) => String.le_trans hab hbc
    have htotal : ∀ a b : String, (decide (a ≤ b) || decide (b ≤ a)) = true := by
      simpa using String.le_total
    simpa using List.pairwise_mergeSort htrans htotal texts
  have hkept := (hsorted.sublist (eraseDups_sublist _)).and (nodup_sortUnique texts)
  refine hkept.imp fun {a b} hab => ?_
  exact String.not_le.mp fun hba => hab.2 (String.le_antisymm hab.1 hba)

/-- Increasing texts are what any list of the same texts is sorted to. -/
theorem sortUnique_eq {texts sorted : List String} (hs : sorted.Pairwise (· < ·))
    (h : ∀ text, text ∈ texts ↔ text ∈ sorted) : sortUnique texts = sorted := by
  have hasymm : ∀ a b : String, a < b → b < a → a = b :=
    fun a b hab hba => absurd (String.lt_trans hab hba) (String.lt_irrefl a)
  have hnodup : sorted.Nodup := by
    refine hs.imp ?_
    rintro a _ hlt rfl
    exact String.lt_irrefl a hlt
  refine List.Perm.eq_of_pairwise (fun a b _ _ => hasymm a b) (pairwise_sortUnique texts) hs ?_
  refine (List.perm_ext_iff_of_nodup (nodup_sortUnique _) hnodup).mpr fun text => ?_
  rw [mem_sortUnique, h]

/-- The order and the repetitions of texts are lost when they are sorted. -/
theorem sortUnique_congr {texts texts' : List String} (h : ∀ text, text ∈ texts ↔ text ∈ texts') :
    sortUnique texts = sortUnique texts' :=
  sortUnique_eq (pairwise_sortUnique texts') fun text => by rw [mem_sortUnique, h]

/-- The same by a sort that follows the list. -/
theorem sortUnique_eq_insertionSort (texts : List String) :
    sortUnique texts = (texts.insertionSort (· ≤ ·)).eraseDups := by
  rw [sortUnique, List.mergeSort_eq_insertionSort]

end NPlusOne
