import Mathlib
import TapeMachine.Store.Tables

/-!
# The order of listings

A listing sorts its rows by the time at which they were added, and by their numbers where the times are the
same. If no two rows have one number, this order leaves no choice: there is one listing of the rows
(`eq_newestFirst`). Two facts follow. The rows of a part of a table are listed as they are in the listing of
the whole (`newestFirst_filter`); and if the clock has never gone back, a listing gives the rows in the
opposite of the order in which they were added (`newestFirst_eq_reverse`).
-/

namespace TapeMachine

namespace Row

theorem precedes_iff {a b : Row} :
    a.precedes b ↔ b.createdAt < a.createdAt ∨ a.createdAt = b.createdAt ∧ b.id ≤ a.id := by
  simp [precedes]

theorem precedes_trans {a b c : Row} (hab : a.precedes b) (hbc : b.precedes c) : a.precedes c := by
  rw [precedes_iff] at hab hbc ⊢
  rcases hab with hab | ⟨hab, hid⟩
  · rcases hbc with hbc | ⟨hbc, -⟩
    · exact .inl (hbc.trans hab)
    · exact .inl (hbc ▸ hab)
  · rcases hbc with hbc | ⟨hbc, hid'⟩
    · exact .inl (hab ▸ hbc)
    · exact .inr ⟨hab.trans hbc, hid'.trans hid⟩

theorem precedes_total (a b : Row) : a.precedes b ∨ b.precedes a := by
  rw [precedes_iff, precedes_iff]
  rcases lt_trichotomy a.createdAt b.createdAt with h | h | h
  · exact .inr (.inl h)
  · rcases le_total a.id b.id with hid | hid
    · exact .inr (.inr ⟨h.symm, hid⟩)
    · exact .inl (.inr ⟨h, hid⟩)
  · exact .inl (.inl h)

theorem id_eq_of_precedes {a b : Row} (hab : a.precedes b) (hba : b.precedes a) : a.id = b.id := by
  rw [precedes_iff] at hab hba
  rcases hab with hab | ⟨hab, hid⟩
  · rcases hba with hba | ⟨hba, -⟩
    · exact absurd hab hba.asymm
    · exact absurd (hba ▸ hab) (lt_irrefl _)
  · rcases hba with hba | ⟨-, hid'⟩
    · exact absurd (hab ▸ hba) (lt_irrefl _)
    · exact le_antisymm hid' hid

/-- A row that was added later, with a larger number, precedes. -/
theorem precedes_of_le {a b : Row} (htime : a.createdAt ≤ b.createdAt) (hid : a.id ≤ b.id) :
    b.precedes a := by
  rw [precedes_iff]
  rcases htime.lt_or_eq with h | h
  · exact .inl h
  · exact .inr ⟨h.symm, hid⟩

end Row

section Listings

variable {α : Type} {row : α → Row} {rows : List α}

theorem newestFirst_perm (row : α → Row) (rows : List α) : (newestFirst row rows).Perm rows :=
  List.mergeSort_perm rows _

theorem pairwise_newestFirst (row : α → Row) (rows : List α) :
    (newestFirst row rows).Pairwise fun a b => (row a).precedes (row b) := by
  apply List.pairwise_mergeSort
  · intro a b c hab hbc
    exact Row.precedes_trans hab hbc
  · intro a b
    rw [Bool.or_eq_true]
    exact Row.precedes_total (row a) (row b)

/-- **There is one listing** of rows with different numbers. -/
theorem eq_newestFirst (hids : (rows.map fun r => (row r).id).Nodup) {listed : List α}
    (hperm : listed.Perm rows) (hsorted : listed.Pairwise fun a b => (row a).precedes (row b)) :
    listed = newestFirst row rows := by
  refine List.Perm.eq_of_pairwise ?_ hsorted (pairwise_newestFirst row rows)
    (hperm.trans (newestFirst_perm row rows).symm)
  intro a b ha hb hab hba
  have ha' : a ∈ rows := hperm.mem_iff.1 ha
  have hb' : b ∈ rows := (newestFirst_perm row rows).mem_iff.1 hb
  exact List.inj_on_of_nodup_map hids ha' hb' (Row.id_eq_of_precedes hab hba)

/-- **Listing commutes with picking rows.** -/
theorem newestFirst_filter (hids : (rows.map fun r => (row r).id).Nodup) (p : α → Bool) :
    newestFirst row (rows.filter p) = (newestFirst row rows).filter p := by
  have hpicked : ((rows.filter p).map fun r => (row r).id).Nodup :=
    hids.sublist (List.filter_sublist.map _)
  exact (eq_newestFirst hpicked ((newestFirst_perm row rows).filter p)
    ((pairwise_newestFirst row rows).filter p)).symm

/-- **Under a clock that never goes back**, rows that are numbered on are listed from the last to the
first. -/
theorem newestFirst_eq_reverse (hids : (rows.map fun r => (row r).id) = List.range' 1 rows.length)
    (htimes : (rows.map fun r => (row r).createdAt).Pairwise (· ≤ ·)) :
    newestFirst row rows = rows.reverse := by
  have hnodup : (rows.map fun r => (row r).id).Nodup := by
    rw [hids]
    exact List.nodup_range' 1
  have hnumbers : (rows.map fun r => (row r).id).Pairwise (· < ·) := by
    rw [hids]
    exact List.pairwise_lt_range' 1
  rw [List.pairwise_map] at htimes hnumbers
  refine (eq_newestFirst hnodup (List.reverse_perm rows) ?_).symm
  rw [List.pairwise_reverse]
  exact htimes.imp₂ (fun a b htime hid => Row.precedes_of_le htime hid.le) hnumbers

end Listings

end TapeMachine
