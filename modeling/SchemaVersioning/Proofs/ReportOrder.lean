import SchemaVersioning.Proofs.Order

/-!
# Places in the order of reports

Reports go by file, line, column, rule code and subject of a diagnostic; those that agree in all of
these keep their order.  A diagnostic without a place is sorted like one at the start of a file
without a name, so it comes before every diagnostic with a place except those that lie just there:
among these and the ones without a place, rule code and subject decide (`reports_ordered_exactly`).
-/

namespace SchemaVersioning

/-- The place that stands for an unknown one in the order of reports. -/
def Location.origin : Location := ⟨"", 0, 0⟩

theorem Location.eq_iff {l m : Location} :
    l = m ↔ l.file = m.file ∧ l.line = m.line ∧ l.column = m.column := by
  cases l
  cases m
  simp

namespace Diagnostic

/-! ## The order in terms of the diagnostics -/

/-- At one place the rule code of a diagnostic comes first, or its subject if the codes agree. -/
def PrecedesAtPlace (a b : Diagnostic) : Prop :=
  a.rule.code < b.rule.code ∨ a.rule.code = b.rule.code ∧ a.subject < b.subject

/-- A diagnostic at a place comes before one at another place: by file, line and column, and at one
place by rule code and subject. -/
def Precedes (a b : Diagnostic) (l m : Location) : Prop :=
  l.file < m.file ∨ l.file = m.file ∧
    (l.line < m.line ∨ l.line = m.line ∧
      (l.column < m.column ∨ l.column = m.column ∧ a.PrecedesAtPlace b))

/-- Two diagnostics agree in rule code and subject. -/
def AgreesWith (a b : Diagnostic) : Prop := a.rule.code = b.rule.code ∧ a.subject = b.subject

/-- A list holds the diagnostics of another in the order of reports. -/
structure Reports (sorted ds : List Diagnostic) : Prop where
  perm : sorted.Perm ds
  located : sorted.Pairwise fun a b => ∀ l m, a.location = some l → b.location = some m →
    ¬ b.Precedes a m l
  unlocated : sorted.Pairwise fun a b => a.location = none → b.location = none →
    ¬ b.PrecedesAtPlace a
  /-- Diagnostics that agree in place, rule code and subject keep their order. -/
  stable : ∀ (location : Option Location) (code subject : String),
    (sorted.filter fun d => d.location = location ∧ d.rule.code = code ∧ d.subject = subject)
      = ds.filter fun d => d.location = location ∧ d.rule.code = code ∧ d.subject = subject
  /-- Which diagnostics with a place stand before one without a place. -/
  aheadOfUnlocated : ∀ a ∈ ds, ∀ b ∈ ds, a.location ≠ none → b.location = none →
    ([a, b].Sublist sorted ↔
      a.location = some .origin ∧ (a.PrecedesAtPlace b ∨ a.AgreesWith b ∧ [a, b].Sublist ds))
  /-- When all those without a place come first. -/
  unlocatedFirst : (sorted.Pairwise fun a b => b.location = none → a.location = none) ↔
    ∀ a ∈ ds, ∀ b ∈ ds, a.location = some .origin → b.location = none →
      ¬ (a.PrecedesAtPlace b ∨ a.AgreesWith b ∧ [a, b].Sublist ds)

variable {a b : Diagnostic} {ds : List Diagnostic}

/-! ## Comparing -/

theorem compare_text_eq_lt_iff {s t : String} : Ord.compare s t = .lt ↔ s < t :=
  compareOfLessAndEq_eq_lt

theorem compare_eq_lt_iff : compare a b = .lt ↔ a.Precedes b a.place b.place := by
  simp only [compare, compareLex, compareOn, Ordering.then_eq_lt, compare_text_eq_lt_iff,
    Nat.compare_eq_lt, Std.compare_eq_iff_eq, Precedes, PrecedesAtPlace]

theorem compare_eq_eq_iff : compare a b = .eq ↔ a.place = b.place ∧ a.AgreesWith b := by
  simp only [compare, compareLex, compareOn, Ordering.then_eq_eq, Std.compare_eq_iff_eq,
    AgreesWith, Location.eq_iff, and_assoc]

theorem isLE_iff : (compare a b).isLE ↔ ¬ b.Precedes a b.place a.place := by
  rw [← compare_eq_lt_iff, compare_swap]
  cases compare b a <;> simp

theorem place_of_location {l : Location} (h : a.location = some l) : a.place = l := by
  rw [place, h]
  rfl

theorem place_of_unlocated (h : a.location = none) : a.place = .origin := by
  rw [place, h]
  rfl

/-- At one place only rule code and subject count. -/
theorem precedes_self_iff {l : Location} : a.Precedes b l l ↔ a.PrecedesAtPlace b := by
  simp [Precedes]

theorem eq_empty_of_not_lt {s : String} (h : ¬ "" < s) : s = "" := by
  rw [String.lt_iff] at h
  rw [← String.toList_inj]
  cases hs : s.toList with
  | nil => rfl
  | cons c cs => exact absurd (hs ▸ List.nil_lt_cons c cs) h

/-- No place comes before the one that stands for an unknown place. -/
theorem eq_origin_of_not_precedes {l : Location} (h : ¬ b.Precedes a .origin l) : l = .origin := by
  simp only [Precedes, Location.origin, not_or, not_and, Nat.not_lt, Nat.le_zero] at h
  obtain ⟨hfile, h⟩ := h
  have hname := eq_empty_of_not_lt hfile
  obtain ⟨hline, h⟩ := h hname.symm
  obtain ⟨hcolumn, -⟩ := h hline.symm
  exact Location.eq_iff.2 ⟨hname, hline, hcolumn⟩

/-! ## Neighbours -/

/-- A diagnostic that precedes another stands before it. -/
theorem sublist_sort_of_lt (ha : a ∈ ds) (hb : b ∈ ds) (h : compare a b = .lt) :
    [a, b].Sublist (sort ds) := by
  have hordered := (stablySorts_sort ds).ordered
  have hperm := (stablySorts_sort ds).perm
  obtain ⟨before, after, hsplit⟩ := List.append_of_mem (hperm.mem_iff.2 ha)
  rw [hsplit] at hordered ⊢
  have hmem : b ∈ before ++ a :: after := hsplit ▸ hperm.mem_iff.2 hb
  rcases List.mem_append.1 hmem with hbefore | hafter
  · have hle := (List.pairwise_append.1 hordered).2.2 b hbefore a List.mem_cons_self
    rw [compare_swap, h] at hle
    cases hle
  · rcases List.mem_cons.1 hafter with rfl | hafter
    · rw [compare_self] at h
      cases h
    · exact (List.Sublist.cons_cons a (List.singleton_sublist.2 hafter)).trans
        (List.sublist_append_right before _)

/-- Diagnostics that agree stand in the order in which they came. -/
theorem sublist_sort_iff_of_eq (h : compare a b = .eq) :
    [a, b].Sublist (sort ds) ↔ [a, b].Sublist ds := by
  have hpair : [a, b].filter (fun d => compare a d = .eq) = [a, b] := by simp [h]
  constructor
  · intro hsub
    have hfilter := hsub.filter fun d => compare a d = .eq
    rw [hpair, (stablySorts_sort ds).stable a] at hfilter
    exact hfilter.trans List.filter_sublist
  · exact List.pair_sublist_mergeSort isLE_trans isLE_total (by rw [h]; rfl)

/-! ## Diagnostics without a place -/

/-- A diagnostic with a place stands before one without a place exactly if it lies at the place that
stands for an unknown one, and rule code and subject put it first, or it came first. -/
theorem sublist_sort_unlocated_iff (ha : a ∈ ds) (hb : b ∈ ds) (hlocated : a.location ≠ none)
    (hunlocated : b.location = none) :
    [a, b].Sublist (sort ds) ↔
      a.location = some .origin ∧ (a.PrecedesAtPlace b ∨ a.AgreesWith b ∧ [a, b].Sublist ds) := by
  obtain ⟨l, hl⟩ := Option.ne_none_iff_exists'.1 hlocated
  have hplace : a.place = l := place_of_location hl
  have horigin : b.place = .origin := place_of_unlocated hunlocated
  constructor
  · intro hsub
    have hle := List.pairwise_iff_forall_sublist.1 (stablySorts_sort ds).ordered hsub
    have hnot := isLE_iff.1 hle
    rw [hplace, horigin] at hnot
    obtain rfl := eq_origin_of_not_precedes hnot
    refine ⟨hl, ?_⟩
    cases hcompare : compare a b with
    | lt =>
      rw [compare_eq_lt_iff, hplace, horigin, precedes_self_iff] at hcompare
      exact Or.inl hcompare
    | eq =>
      exact Or.inr ⟨(compare_eq_eq_iff.1 hcompare).2, (sublist_sort_iff_of_eq hcompare).1 hsub⟩
    | gt =>
      rw [hcompare] at hle
      cases hle
  · rintro ⟨heq, h⟩
    obtain rfl : l = .origin := Option.some.inj (hl.symm.trans heq)
    rcases h with hlt | ⟨hagree, hsub⟩
    · refine sublist_sort_of_lt ha hb ?_
      rwa [compare_eq_lt_iff, hplace, horigin, precedes_self_iff]
    · refine (sublist_sort_iff_of_eq ?_).2 hsub
      exact compare_eq_eq_iff.2 ⟨hplace.trans horigin.symm, hagree⟩

/-- The diagnostics without a place come first unless one of them has to stand behind another. -/
theorem pairwise_unlocated_iff :
    ((sort ds).Pairwise fun a b => b.location = none → a.location = none) ↔
      ∀ a ∈ ds, ∀ b ∈ ds, a.location = some .origin → b.location = none →
        ¬ (a.PrecedesAtPlace b ∨ a.AgreesWith b ∧ [a, b].Sublist ds) := by
  rw [List.pairwise_iff_forall_sublist]
  constructor
  · intro h a ha b hb hl hunlocated hbefore
    have hlocated : a.location ≠ none := by simp [hl]
    exact hlocated
      (h ((sublist_sort_unlocated_iff ha hb hlocated hunlocated).2 ⟨hl, hbefore⟩) hunlocated)
  · intro h a b hsub hunlocated
    by_contra hlocated
    have hmem := fun d hd => (stablySorts_sort ds).perm.mem_iff.1 (hsub.subset (a := d) hd)
    have ha : a ∈ ds := hmem a (by simp)
    have hb : b ∈ ds := hmem b (by simp)
    obtain ⟨hl, hbefore⟩ := (sublist_sort_unlocated_iff ha hb hlocated hunlocated).1 hsub
    exact h a ha b hb hl hunlocated hbefore

/-! ## The order of reports -/

/-- Diagnostics all of which agree keep their order. -/
theorem filter_sort_eq {same : Diagnostic → Bool}
    (hsame : ∀ a b, same a = true → same b = true → compare a b = .eq) (ds : List Diagnostic) :
    (sort ds).filter same = ds.filter same := by
  by_cases hany : ∃ a ∈ ds, same a = true
  · obtain ⟨a, -, ha⟩ := hany
    -- They are among those that agree with `a`, which keep their order.
    have hfilter : ∀ l : List Diagnostic,
        l.filter same = (l.filter fun d => compare a d = .eq).filter same := by
      intro l
      rw [List.filter_filter]
      refine List.filter_congr fun d _ => ?_
      by_cases hd : same d = true
      · simp [hd, hsame a d ha hd]
      · simp [hd]
    rw [hfilter, hfilter ds, (stablySorts_sort ds).stable a]
  · have hnone : ∀ l : List Diagnostic, l.Perm ds → l.filter same = [] := by
      intro l hl
      rw [List.filter_eq_nil_iff]
      exact fun d hd hdsame => hany ⟨d, hl.mem_iff.1 hd, hdsame⟩
    rw [hnone _ (stablySorts_sort ds).perm, hnone _ (List.Perm.refl ds)]

/-- Sorting puts diagnostics in the order of reports.  Those without a place come first exactly if
none of them has to stand behind a diagnostic at the start of a nameless file. -/
theorem reports_ordered_exactly (ds : List Diagnostic) : Reports (sort ds) ds where
  perm := (stablySorts_sort ds).perm
  located := (stablySorts_sort ds).ordered.imp fun {a b} hle l m hl hm => by
    rw [isLE_iff, place_of_location hl, place_of_location hm] at hle
    exact hle
  unlocated := (stablySorts_sort ds).ordered.imp fun {a b} hle ha hb => by
    rw [isLE_iff, place_of_unlocated ha, place_of_unlocated hb, precedes_self_iff] at hle
    exact hle
  stable location code subject := by
    refine filter_sort_eq (fun a b ha hb => ?_) ds
    obtain ⟨hla, hca, hsa⟩ := of_decide_eq_true ha
    obtain ⟨hlb, hcb, hsb⟩ := of_decide_eq_true hb
    refine compare_eq_eq_iff.2 ⟨?_, hca.trans hcb.symm, hsa.trans hsb.symm⟩
    rw [place, place, hla, hlb]
  aheadOfUnlocated _ ha _ hb := sublist_sort_unlocated_iff ha hb
  unlocatedFirst := pairwise_unlocated_iff

/-- A leak at an unknown place. -/
def unplacedLeak : Diagnostic := ⟨.specificVersionLeak, "names V1", "App.load", none, none⟩

/-- An empty family at the start of a file without a name. -/
def namelessFamily : Diagnostic := ⟨.emptyFamily, "no versions", "Account", some .origin, none⟩

/-- Of a leak without a place and a family at the start of a nameless file the family is first. -/
theorem located_before_unlocated : ¬ (sort [unplacedLeak, namelessFamily]).Pairwise
    fun a b => b.location = none → a.location = none := by
  rw [pairwise_unlocated_iff]
  intro h
  refine h namelessFamily (by simp) unplacedLeak (by simp) rfl rfl (Or.inl (Or.inl ?_))
  decide

end Diagnostic

end SchemaVersioning
