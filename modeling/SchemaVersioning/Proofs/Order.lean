import Mathlib.Data.List.Pairwise
import SchemaVersioning.Diagnostic

/-!
# The order of reports

Sorting diagnostics keeps the order of those that agree in file, line, column, rule code and
subject.  A list is determined by being such a stable sort of another (`StablySorts.unique`), and a
part of a list may be sorted before the whole is (`StablySorts.of_append`).
-/

namespace SchemaVersioning

open Std

instance : TransCmp Diagnostic.compare := by
  unfold Diagnostic.compare
  infer_instance

namespace Diagnostic

/-- A list holds the diagnostics of another in the order of reports, and those that agree in their
place, rule and subject in their former order. -/
structure StablySorts (sorted ds : List Diagnostic) : Prop where
  perm : sorted.Perm ds
  ordered : sorted.Pairwise fun a b => (compare a b).isLE
  stable : ∀ a, (sorted.filter fun b => compare a b = .eq) = ds.filter fun b => compare a b = .eq

@[simp] theorem compare_self (a : Diagnostic) : compare a a = .eq := ReflCmp.compare_self

theorem compare_swap (a b : Diagnostic) : compare a b = (compare b a).swap := OrientedCmp.eq_swap

theorem isLE_trans (a b c : Diagnostic) (hab : (compare a b).isLE) (hbc : (compare b c).isLE) :
    (compare a c).isLE := TransCmp.isLE_trans hab hbc

theorem isLE_total (a b : Diagnostic) : (compare a b).isLE || (compare b a).isLE := by
  rw [compare_swap b a]
  cases compare a b <;> rfl

theorem compare_eq_of_isLE {a b : Diagnostic} (hab : (compare a b).isLE)
    (hba : (compare b a).isLE) : compare a b = .eq := by
  rw [compare_swap] at hba
  cases h : compare a b with
  | eq => rfl
  | lt => simp [h] at hba
  | gt => simp [h] at hab

theorem pairwise_filter_eq (ds : List Diagnostic) (a : Diagnostic) :
    (ds.filter fun b => compare a b = .eq).Pairwise fun b c => (compare b c).isLE := by
  refine List.pairwise_of_forall_mem_list fun b hb c hc => ?_
  have hab : compare a b = .eq := by simpa using (List.mem_filter.1 hb).2
  have hac : compare a c = .eq := by simpa using (List.mem_filter.1 hc).2
  rw [← TransCmp.congr_left hab, hac]
  rfl

/-- The order of reports is a stable sort. -/
theorem stablySorts_sort (ds : List Diagnostic) : StablySorts (sort ds) ds where
  perm := List.mergeSort_perm ds _
  ordered := List.pairwise_mergeSort isLE_trans isLE_total ds
  stable a := by
    -- The diagnostics that agree with `a` are sorted already, so sorting keeps them in order.
    have hsub : (ds.filter fun b => compare a b = .eq).Sublist (sort ds) :=
      List.sublist_mergeSort isLE_trans isLE_total (pairwise_filter_eq ds a) List.filter_sublist
    have hfilter := hsub.filter fun b => compare a b = .eq
    simp only [List.filter_filter, Bool.and_self] at hfilter
    exact (hfilter.eq_of_length ((List.mergeSort_perm ds _).filter _).length_eq.symm).symm

/-- There is one stable sort of a list. -/
theorem StablySorts.unique {xs ys ds : List Diagnostic} (hx : StablySorts xs ds)
    (hy : StablySorts ys ds) : xs = ys := by
  have hperm := hx.perm.trans hy.perm.symm
  have hstable := fun a => (hx.stable a).trans (hy.stable a).symm
  have hxs := hx.ordered
  have hys := hy.ordered
  clear hx hy
  induction xs generalizing ys with
  | nil => exact (List.perm_nil.1 hperm.symm).symm
  | cons x xs ih =>
    cases ys with
    | nil => exact absurd hperm.symm (List.not_perm_nil_cons x xs)
    | cons y ys =>
      obtain ⟨hxle, hxrest⟩ := List.pairwise_cons.1 hxs
      obtain ⟨hyle, hyrest⟩ := List.pairwise_cons.1 hys
      -- The heads are least in both lists, so they agree, and stability makes them equal.
      have heq : compare x y = .eq := by
        rcases List.mem_cons.1 (hperm.mem_iff.2 List.mem_cons_self) with h | h
        · rw [h, compare_self]
        · rcases List.mem_cons.1 (hperm.mem_iff.1 List.mem_cons_self) with h' | h'
          · rw [h', compare_self]
          · exact compare_eq_of_isLE (hxle y h) (hyle x h')
      have hhead := hstable x
      rw [List.filter_cons_of_pos (by simp), List.filter_cons_of_pos (by simp [heq])] at hhead
      obtain rfl : x = y := (List.cons.inj hhead).1
      rw [ih ((List.perm_cons x).1 hperm) (fun a => ?_) hxrest hyrest]
      have ha := hstable a
      by_cases hax : compare a x = .eq
      · rw [List.filter_cons_of_pos (by simp [hax]), List.filter_cons_of_pos (by simp [hax])] at ha
        exact (List.cons.inj ha).2
      · rwa [List.filter_cons_of_neg (by simp [hax]), List.filter_cons_of_neg (by simp [hax])] at ha

/-- A stable sort of a list whose end is a stable sort of another sorts that other one. -/
theorem StablySorts.of_append {xs as bs cs : List Diagnostic} (h : StablySorts xs (as ++ bs))
    (hb : StablySorts bs cs) : StablySorts xs (as ++ cs) where
  perm := h.perm.trans (hb.perm.append_left as)
  ordered := h.ordered
  stable a := by rw [h.stable a, List.filter_append, List.filter_append, hb.stable a]

end Diagnostic

end SchemaVersioning
