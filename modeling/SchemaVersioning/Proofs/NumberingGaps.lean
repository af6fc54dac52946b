import Mathlib.Data.List.Sort
import SchemaVersioning.Proofs.LatestMembers

/-!
# Gaps in the numbers of versions

The numbers of the versions of a container are `1..n` exactly if none is absent below the largest,
none is repeated and none is zero (`perm_range'_iff`).  So where the build finds that they are not,
it has something to name: the report lists the absent and the repeated numbers, each once and in
ascending order, and says that zero is no version if it is there (`numbering_reported_exactly`).
-/

namespace SchemaVersioning

/-! ## What keeps numbers from being `1..n` -/

/-- A number from one to the largest of a list that the list lacks. -/
def IsAbsent (ns : List Nat) (n : Nat) : Prop := 1 ≤ n ∧ (∃ m ∈ ns, n ≤ m) ∧ n ∉ ns

/-- A number that occurs more than once in a list. -/
def IsRepeated (ns : List Nat) (n : Nat) : Prop := 2 ≤ ns.count n

/-- A list without repetitions holds the numbers with a property in ascending order. -/
structure Lists (listed : List Nat) (P : Nat → Prop) : Prop where
  mem_iff : ∀ n, n ∈ listed ↔ P n
  ascending : listed.Pairwise (· < ·)

/-- The details of a report say what keeps numbers from being `1..n`. -/
structure GapReport (ns : List Nat) (details : List String) : Prop where
  nonempty : details ≠ []
  listed : ∃ absent repeated, Lists absent (IsAbsent ns) ∧ Lists repeated (IsRepeated ns) ∧
    details = (if absent = [] then [] else ["missing " ++ versionNames absent])
      ++ (if repeated = [] then [] else ["duplicate " ++ versionNames repeated])
      ++ (if 0 ∈ ns then ["V0 is not a valid version"] else [])
  zero : "V0 is not a valid version" ∈ details ↔ 0 ∈ ns

section Numbers

variable {ns : List Nat} {n : Nat}

theorem le_foldl_max_iff {start : Nat} :
    n ≤ ns.foldl max start ↔ n ≤ start ∨ ∃ m ∈ ns, n ≤ m := by
  induction ns generalizing start with
  | nil => simp
  | cons k ns ih => simp [ih, or_assoc]

theorem mem_absentNumbers : n ∈ absentNumbers ns ↔ IsAbsent ns n := by
  rw [absentNumbers, List.mem_filter, List.mem_range'_1, IsAbsent]
  simp only [Bool.not_eq_true', List.contains_eq_mem, decide_eq_false_iff_not]
  constructor
  · rintro ⟨⟨hpos, hlt⟩, hmissing⟩
    have hle : n ≤ ns.foldl max 0 := by omega
    exact ⟨hpos, (le_foldl_max_iff.1 hle).resolve_left (by omega), hmissing⟩
  · rintro ⟨hpos, hbelow, hmissing⟩
    have hle : n ≤ ns.foldl max 0 := le_foldl_max_iff.2 (Or.inr hbelow)
    exact ⟨⟨hpos, by omega⟩, hmissing⟩

theorem lists_absentNumbers : Lists (absentNumbers ns) (IsAbsent ns) where
  mem_iff _ := mem_absentNumbers
  ascending := (List.pairwise_lt_range' 1).filter _

theorem mem_repeatedNumbers : n ∈ repeatedNumbers ns ↔ IsRepeated ns n := by
  induction ns with
  | nil => simp [repeatedNumbers, IsRepeated]
  | cons k ns ih =>
    unfold repeatedNumbers
    by_cases hk : n = k
    · subst hk
      have hcount : 1 ≤ ns.count n ↔ n ∈ ns := List.one_le_count_iff
      by_cases hmem : n ∈ ns
      · simp [hmem, IsRepeated, hcount]
      · simp [hmem, IsRepeated]
    · have hcount : IsRepeated (k :: ns) n ↔ IsRepeated ns n := by
        rw [IsRepeated, List.count_cons_of_ne (Ne.symm hk), IsRepeated]
      rw [hcount]
      dsimp only
      split
      · simp [hk, ih]
      · simp [hk, ih]

theorem repeatedNumbers_sublist : (repeatedNumbers ns).Sublist ns := by
  induction ns with
  | nil => exact List.Sublist.refl []
  | cons k ns ih =>
    unfold repeatedNumbers
    have hothers : ((repeatedNumbers ns).filter (· ≠ k)).Sublist ns :=
      List.filter_sublist.trans ih
    dsimp only
    split
    · exact hothers.cons_cons k
    · exact hothers.cons k

theorem nodup_repeatedNumbers : (repeatedNumbers ns).Nodup := by
  induction ns with
  | nil => exact List.nodup_nil
  | cons k ns ih =>
    unfold repeatedNumbers
    dsimp only
    split
    · exact List.nodup_cons.2 ⟨by simp, ih.filter _⟩
    · exact ih.filter _

/-- Of ascending numbers the repeated ones are listed in ascending order. -/
theorem lists_repeatedNumbers (h : ns.Pairwise (· ≤ ·)) :
    Lists (repeatedNumbers ns) (IsRepeated ns) where
  mem_iff _ := mem_repeatedNumbers
  ascending := ((h.sublist repeatedNumbers_sublist).and nodup_repeatedNumbers).imp
    fun ⟨hle, hne⟩ => Nat.lt_of_le_of_ne hle hne

/-- The numbers of a list are `1..n` exactly if none is absent, none repeated and none zero. -/
theorem perm_range'_iff : ns.Perm (List.range' 1 ns.length) ↔
    (∀ n, ¬ IsAbsent ns n) ∧ (∀ n, ¬ IsRepeated ns n) ∧ 0 ∉ ns := by
  constructor
  · intro h
    have hmem : ∀ n, n ∈ ns ↔ 1 ≤ n ∧ n < 1 + ns.length := fun n => by
      rw [h.mem_iff, List.mem_range'_1]
    refine ⟨?_, fun n hn => ?_, fun h0 => ?_⟩
    · rintro n ⟨hpos, ⟨m, hm, hle⟩, hmissing⟩
      have hlt := ((hmem m).1 hm).2
      exact hmissing ((hmem n).2 ⟨hpos, by omega⟩)
    · have hcount := List.nodup_iff_count_le_one.1 (h.nodup_iff.2 List.nodup_range') n
      unfold IsRepeated at hn
      omega
    · exact absurd ((hmem 0).1 h0).1 (by decide)
  · rintro ⟨habsent, hrepeated, hzero⟩
    have hnodup : ns.Nodup := List.nodup_iff_count_le_one.2 fun n =>
      Nat.le_of_lt_succ (Nat.lt_of_not_le (hrepeated n))
    -- The list holds the numbers from one to its largest, so it has as many as that.
    have hperm : ns.Perm (List.range' 1 (ns.foldl max 0)) := by
      rw [List.perm_ext_iff_of_nodup hnodup List.nodup_range']
      intro n
      rw [List.mem_range'_1]
      constructor
      · intro hn
        have hpos : n ≠ 0 := fun h0 => hzero (h0 ▸ hn)
        have hle : n ≤ ns.foldl max 0 := le_foldl_max_iff.2 (Or.inr ⟨n, hn, Nat.le_refl n⟩)
        omega
      · rintro ⟨hpos, hlt⟩
        have hle : n ≤ ns.foldl max 0 := by omega
        by_contra hmissing
        exact habsent n
          ⟨hpos, (le_foldl_max_iff.1 hle).resolve_left (by omega), hmissing⟩
    have hlength := hperm.length_eq
    rw [List.length_range'] at hlength
    rwa [← hlength] at hperm

theorem isAbsent_congr {ns' : List Nat} (h : ns.Perm ns') : IsAbsent ns n ↔ IsAbsent ns' n := by
  simp only [IsAbsent, h.mem_iff]

theorem isRepeated_congr {ns' : List Nat} (h : ns.Perm ns') :
    IsRepeated ns n ↔ IsRepeated ns' n := by
  rw [IsRepeated, IsRepeated, h.count_eq]

theorem Lists.congr {listed : List Nat} {P Q : Nat → Prop} (h : Lists listed P)
    (hPQ : ∀ n, P n ↔ Q n) : Lists listed Q :=
  ⟨fun n => (h.mem_iff n).trans (hPQ n), h.ascending⟩

/-! ## The details of a report -/

theorem sorted_mergeSort (ns : List Nat) : ns.mergeSort.Pairwise (· ≤ ·) :=
  List.pairwise_mergeSort' (· ≤ ·) ns

theorem gapDetails_eq (ns : List Nat) : gapDetails ns =
    (if absentNumbers ns = [] then []
      else ["missing " ++ versionNames (absentNumbers ns)])
    ++ (if repeatedNumbers ns = [] then []
      else ["duplicate " ++ versionNames (repeatedNumbers ns)])
    ++ (if 0 ∈ ns then ["V0 is not a valid version"] else []) := by
  simp only [gapDetails, List.isEmpty_iff, List.contains_eq_mem, decide_eq_true_eq]

/-- The texts that list numbers do not begin like the one about zero. -/
theorem mem_gapDetails_zero : "V0 is not a valid version" ∈ gapDetails ns ↔ 0 ∈ ns := by
  have hother : ∀ (first : String) (rest : String), first.toList.head? = some 'm' ∨
      first.toList.head? = some 'd' → "V0 is not a valid version" ≠ first ++ rest := by
    intro first rest hfirst heq
    have hhead := congrArg (fun s => s.toList.head?) heq
    cases hchars : first.toList with
    | nil => simp [hchars] at hfirst
    | cons a as =>
      rw [String.toList_append, hchars] at hhead
      rw [hchars] at hfirst
      obtain rfl : 'V' = a := by simpa using hhead
      simp at hfirst
  rw [gapDetails_eq, List.mem_append, List.mem_append]
  constructor
  · rintro ((h | h) | h)
    · split at h
      · cases h
      · exact absurd (List.mem_singleton.1 h) (hother _ _ (Or.inl rfl))
    · split at h
      · cases h
      · exact absurd (List.mem_singleton.1 h) (hother _ _ (Or.inr rfl))
    · split at h
      · assumption
      · cases h
  · intro h
    exact Or.inr (by simp [h])

/-- Where sorted numbers are not `1..n`, the details of the report say why. -/
theorem gapReport_gapDetails (h : ¬ ns.Perm (List.range' 1 ns.length)) :
    GapReport ns (gapDetails ns.mergeSort) := by
  have hperm : ns.mergeSort.Perm ns := List.mergeSort_perm ns _
  have habsent := lists_absentNumbers.congr fun n => isAbsent_congr (n := n) hperm
  have hrepeated := (lists_repeatedNumbers (sorted_mergeSort ns)).congr
    fun n => isRepeated_congr (n := n) hperm
  exact {
    nonempty := fun hnil => by
      rw [gapDetails_eq, List.append_eq_nil_iff, List.append_eq_nil_iff] at hnil
      obtain ⟨⟨hnone, honce⟩, hzero⟩ := hnil
      refine h (perm_range'_iff.2 ⟨fun n hn => ?_, fun n hn => ?_, fun h0 => ?_⟩)
      · have hlisted := (habsent.mem_iff n).2 hn
        split at hnone
        · next heq => simp [heq] at hlisted
        · cases hnone
      · have hlisted := (hrepeated.mem_iff n).2 hn
        split at honce
        · next heq => simp [heq] at hlisted
        · cases honce
      · simp [h0] at hzero
    listed := ⟨_, _, habsent, hrepeated, by simp only [gapDetails_eq, hperm.mem_iff]⟩
    zero := mem_gapDetails_zero.trans hperm.mem_iff }

end Numbers

/-! ## Reports of builds -/

namespace FamilyDeclaration

/-- The numbers of the version modules of a container, in the order of declaration. -/
def declaredNumbers (d : FamilyDeclaration) : List Nat :=
  d.container.modules.filterMap fun m => versionNumber? m.name

/-- The report that the versions of a container are not numbered `1..n`. -/
def numberingReport (d : FamilyDeclaration) (details : List String) : Diagnostic where
  rule := .nonContiguousVersions
  message := "versions must be exactly " ++ versionNames (List.range' 1 d.declaredNumbers.length)
    ++ "; found " ++ versionNames d.declaredNumbers.mergeSort ++ " "
    ++ "(" ++ "; ".intercalate details ++ ")"
  subject := d.name
  location := d.container.location
  suggestion := some "Number versions consecutively from V1 without gaps or duplicates"

variable {d : FamilyDeclaration} {c : Config}

theorem numbers_eq_mergeSort : d.numbers c = d.declaredNumbers.mergeSort :=
  (numbers_perm.trans (List.mergeSort_perm _ _).symm).eq_of_pairwise
    (fun _ _ _ _ hab hba => Nat.le_antisymm hab hba) pairwise_numbers (sorted_mergeSort _)

theorem rule_ne_of_mem_findings {x : Finding} (h : x ∈ d.findings c) :
    x.problem.rule ≠ .nonContiguousVersions := by
  rw [findings, List.mem_append, List.mem_append, List.mem_append, List.mem_flatMap] at h
  rcases h with ((hmember | hlatest) | ⟨⟨k, m⟩, -, hversion⟩) | htest
  · simp [rule_of_mem_memberFindings hmember]
  · simp [rule_of_mem_latestFindings hlatest]
  · exact fun hrule => absurd (hrule ▸ rule_of_mem_versionFindings hversion) (by decide)
  · simp [rule_of_mem_testFindings htest]

theorem message_nonContiguous (ns : List Nat) : (Problem.nonContiguous ns).message
    = "versions must be exactly " ++ versionNames (List.range' 1 ns.length) ++ "; found "
      ++ versionNames ns ++ " " ++ "(" ++ "; ".intercalate (gapDetails ns) ++ ")" := rfl

theorem diagnostic_nonContiguous :
    Finding.diagnostic ⟨.nonContiguous (d.numbers c), d.name, d.container.location⟩
      = d.numberingReport (gapDetails d.declaredNumbers.mergeSort) := by
  have hmessage : (Problem.nonContiguous (d.numbers c)).message
      = (d.numberingReport (gapDetails d.declaredNumbers.mergeSort)).message := by
    rw [message_nonContiguous, numbers_eq_mergeSort, List.length_mergeSort]
    rfl
  exact congrArg (fun message => (⟨.nonContiguousVersions, message, d.name, d.container.location,
    _⟩ : Diagnostic)) hmessage

/-- The only report about the numbers of a container, if they are not `1..n`. -/
theorem filter_buildDiagnostics (hne : d.declaredNumbers ≠ [])
    (h : ¬ d.declaredNumbers.Perm (List.range' 1 d.declaredNumbers.length)) :
    (d.buildDiagnostics c).filter (·.rule = .nonContiguousVersions)
      = [d.numberingReport (gapDetails d.declaredNumbers.mergeSort)] := by
  have hperm : (d.numbers c).Perm d.declaredNumbers := numbers_perm
  have hnil : d.numbers c ≠ [] := fun heq => hne (List.perm_nil.1 (heq ▸ hperm.symm))
  have hrange : d.numbers c ≠ List.range' 1 (d.numbers c).length := fun heq => by
    rw [hperm.length_eq] at heq
    exact h (heq ▸ hperm.symm)
  have hmembers : (((d.memberFindings c).map (·.diagnostic)).filter
      (·.rule = .nonContiguousVersions)) = [] := by
    rw [List.filter_eq_nil_iff]
    intro x hx
    obtain ⟨f, hf, rfl⟩ := List.mem_map.1 hx
    simp [Finding.diagnostic, rule_of_mem_memberFindings hf]
  rw [buildDiagnostics, build, dif_neg hnil, dif_neg hrange]
  dsimp only
  rw [List.map_append, List.filter_append, hmembers, List.map_singleton, diagnostic_nonContiguous]
  rfl

/-- The build does not report numbers that are `1..n`. -/
theorem rule_ne_of_mem_buildDiagnostics (hne : d.declaredNumbers ≠ [])
    (h : d.declaredNumbers.Perm (List.range' 1 d.declaredNumbers.length)) {x : Diagnostic}
    (hx : x ∈ d.buildDiagnostics c) : x.rule ≠ .nonContiguousVersions := by
  have hnumbered : d.Numbered d.declaredNumbers.length := ⟨List.length_pos_iff.2 hne, h⟩
  rw [buildDiagnostics_of_numbered hnumbered] at hx
  obtain ⟨f, hf, rfl⟩ := List.mem_map.1 hx
  exact rule_ne_of_mem_findings hf

end FamilyDeclaration

/-- Version numbers that are not `1..n` are reported once, with the reasons.  If nothing is absent,
repeated or zero they are `1..n` and not reported. -/
theorem numbering_reported_exactly (ns : List Nat) (hne : ns ≠ []) :
    (¬ ns.Perm (List.range' 1 ns.length) → ∃ details, GapReport ns details ∧
      ∀ (d : FamilyDeclaration) (c : Config), d.declaredNumbers = ns →
        (d.buildDiagnostics c).filter (·.rule = .nonContiguousVersions)
          = [d.numberingReport details]) ∧
    ((∀ n, ¬ IsAbsent ns n) → (∀ n, ¬ IsRepeated ns n) → 0 ∉ ns →
      ns.mergeSort = List.range' 1 ns.length ∧
        ∀ (d : FamilyDeclaration) (c : Config), d.declaredNumbers = ns →
          ∀ x ∈ d.buildDiagnostics c, x.rule ≠ .nonContiguousVersions) := by
  constructor
  · intro h
    refine ⟨_, gapReport_gapDetails h, ?_⟩
    rintro d c rfl
    exact FamilyDeclaration.filter_buildDiagnostics hne h
  · intro habsent hrepeated hzero
    have hperm := perm_range'_iff.2 ⟨habsent, hrepeated, hzero⟩
    constructor
    · exact ((List.mergeSort_perm ns _).trans hperm).eq_of_pairwise
        (fun _ _ _ _ hab hba => Nat.le_antisymm hab hba) (sorted_mergeSort ns)
        ((List.pairwise_lt_range' 1).imp Nat.le_of_lt)
    · rintro d c rfl x hx
      exact FamilyDeclaration.rule_ne_of_mem_buildDiagnostics hne hperm hx

/-- The details about numbers that break all three conditions. -/
example : gapDetails [0, 3, 3]
    = ["missing V1, V2", "duplicate V3", "V0 is not a valid version"] := by
  cbv

/-- A container with version modules of these numbers. -/
def numberedDeclaration (ns : List Nat) : FamilyDeclaration where
  container := { ModuleDecl.bare "Stable" [] (ns.map fun n => .bare (versionName n) [.bare "t"] [])
    with attributes := ["versioned"] }
  parentPath := ["Account"]
  kind := .type
  strategy := .plain
  functorArities := []
  inTest := false
  parentTypes := []

/-- Any numbers are those of some container. -/
theorem declaredNumbers_numberedDeclaration (ns : List Nat) :
    (numberedDeclaration ns).declaredNumbers = ns := by
  show (ns.map fun n => ModuleDecl.bare (versionName n) [.bare "t"] []).filterMap
    (fun m => versionNumber? m.name) = ns
  rw [List.filterMap_map]
  exact (List.filterMap_congr fun n _ => versionNumber?_versionName n).trans List.filterMap_some

theorem numbering_reported_exactly_numberedDeclaration :
    ([3, 0, 3] ≠ [] ∧ ∃ details, GapReport [3, 0, 3] details ∧
      ((numberedDeclaration [3, 0, 3]).buildDiagnostics .standard).filter
        (·.rule = .nonContiguousVersions)
          = [(numberedDeclaration [3, 0, 3]).numberingReport details]) ∧
      ∀ x ∈ (numberedDeclaration [2, 1]).buildDiagnostics .standard,
        x.rule ≠ .nonContiguousVersions := by
  obtain ⟨details, hdetails, hbuild⟩ :=
    (numbering_reported_exactly [3, 0, 3] (by decide)).1 (by decide)
  refine ⟨⟨by decide, details, hdetails,
    hbuild _ .standard (declaredNumbers_numberedDeclaration _)⟩, ?_⟩
  obtain ⟨habsent, hrepeated, hzero⟩ := perm_range'_iff.1
    (show [2, 1].Perm (List.range' 1 [2, 1].length) by decide)
  exact ((numbering_reported_exactly [2, 1] (by decide)).2 habsent hrepeated hzero).2 _ .standard
    (declaredNumbers_numberedDeclaration _)

end SchemaVersioning
