import SchemaVersioning.Failure
import SchemaVersioning.Proofs.Numbering
import SchemaVersioning.Proofs.RoundTrips

/-!
# Looking up versions

A family is made of any versions whose numbers are `1..n` in order, and of no others, unless it is
asserted and lacks a test.  Its versions are kept by position, and that is the same as keeping them
by number: a look-up gives the one version of a number and fails for all other numbers, the latest
version is the one with the greatest number, and the order of the decoders lists every number once
(`versions_found_by_number`).  A number of too many digits makes even the report fail that the
family has no such version (`vast_number_untold`).
-/

namespace SchemaVersioning

open Checked

/-! ## The only entry of a list -/

/-- A list has an entry with a property in one place and in no other. -/
def IsOnly {α : Type} (P : α → Prop) (l : List α) (a : α) : Prop :=
  ∃ before after, l = before ++ a :: after ∧ P a ∧ ∀ b ∈ before ++ after, ¬ P b

/-- Where no two entries share a key, a property that fixes the key is had by one entry only. -/
theorem isOnly_of_nodup {α β : Type} {P : α → Prop} {key : α → β} {l : List α} {a : α}
    (h : (l.map key).Nodup) (hmem : a ∈ l) (ha : P a) (hkey : ∀ b ∈ l, P b → key b = key a) :
    IsOnly P l a := by
  obtain ⟨before, after, rfl⟩ := List.append_of_mem hmem
  refine ⟨before, after, rfl, ha, fun b hb hP => ?_⟩
  rw [List.map_append, List.map_cons, List.nodup_middle, List.nodup_cons, ← List.map_append] at h
  have hsame : key b = key a := by
    apply hkey b _ hP
    rcases List.mem_append.1 hb with hbefore | hafter
    · exact List.mem_append_left _ hbefore
    · exact List.mem_append_right _ (List.mem_cons_of_mem _ hafter)
  exact h.1 (hsame ▸ List.mem_map_of_mem hb)

/-! ## Families of numbered versions -/

/-- The numbers of versions are `1..n` in order, for at least one `n`. -/
def AreNumbered (vs : List SchemaVersion) : Prop :=
  ∃ n, 1 ≤ n ∧ vs.map (·.number) = List.range' 1 n

theorem areNumbered_iff {vs : List SchemaVersion} :
    AreNumbered vs ↔ vs ≠ [] ∧ vs.map (·.number) = List.range' 1 vs.length := by
  constructor
  · rintro ⟨n, hpos, hnumbers⟩
    have hlength : vs.length = n := by
      simpa using congrArg List.length hnumbers
    subst hlength
    exact ⟨List.length_pos_iff.1 hpos, hnumbers⟩
  · rintro ⟨hne, hnumbers⟩
    exact ⟨vs.length, List.length_pos_iff.2 hne, hnumbers⟩

namespace Family

variable {f : Family} {parts : FamilyParts}

/-- Parts that are not asserted make a family exactly if their versions are numbered. -/
theorem exists_ofParts_iff (h : parts.strategy ≠ .asserted) :
    (∃ f, ofParts parts = .ok f) ↔ AreNumbered parts.versions := by
  rw [areNumbered_iff]
  constructor
  · rintro ⟨f, hf⟩
    obtain rfl := toFamilyParts_of_ofParts hf
    exact ⟨f.nonempty, f.numbered⟩
  · rintro ⟨hne, hnumbers⟩
    have htested : parts.strategy = .asserted → parts.testObligation.isSome :=
      fun hasserted => absurd hasserted h
    let f : Family := ⟨parts, hne, hnumbers, htested⟩
    exact ⟨f, f.ofParts_toFamilyParts⟩

/-- The data of parts is read as the family that they make. -/
theorem read_eq_accepted_iff (hw : parts.WellFormed) :
    Family.read parts.toValue = accepted f ↔ ofParts parts = .ok f := by
  rw [read_of_omits hw (.same _)]
  cases ofParts parts with
  | ok g => simp
  | error fault => simp [refuse]

/-! ## Access by number -/

theorem nodup_numbers (f : Family) : (f.versions.map (·.number)).Nodup := by
  rw [f.numbered]
  exact List.nodup_range'

/-- The version at a position has the next number. -/
theorem number_of_getElem? {i : Nat} {v : SchemaVersion} (h : f.versions[i]? = some v) :
    v.number = i + 1 := by
  have hlt : i < f.versions.length := (List.getElem?_eq_some_iff.1 h).1
  have hnumber : (f.versions.map (·.number))[i]? = some v.number := by
    rw [List.getElem?_map, h]
    rfl
  rw [f.numbered, List.getElem?_range' hlt] at hnumber
  have := Option.some.inj hnumber
  omega

/-- The look-up by position finds the version of a number. -/
theorem version?_eq_some {k : Int} (hlow : 1 ≤ k) (hhigh : k ≤ f.versions.length) :
    ∃ v ∈ f.versions, f.version? k = some v ∧ (v.number : Int) = k := by
  have hlt : (k - 1).toNat < f.versions.length := by omega
  have hfound := List.getElem?_eq_getElem hlt
  have hnumber := number_of_getElem? hfound
  refine ⟨f.versions[(k - 1).toNat], List.getElem_mem hlt, ?_, by omega⟩
  rw [version?, if_pos hlow, hfound]

theorem version?_eq_none {k : Int} (h : k < 1 ∨ f.versions.length < k) : f.version? k = none := by
  unfold version?
  by_cases hlow : 1 ≤ k
  · rw [if_pos hlow]
    apply List.getElem?_eq_none
    omega
  · rw [if_neg hlow]

/-- The versions of a family with the numbers `1..n`, found by number. -/
structure FindsByNumber (f : Family) (n : Nat) : Prop where
  count : f.versions.length = n
  /-- A number in range is that of the version that is found, and of no other. -/
  found : ∀ k : Int, 1 ≤ k → k ≤ n →
    ∃ v, f.version k = .ok v ∧ IsOnly (fun w => (w.number : Int) = k) f.versions v
  notFound : ∀ k : Int, k < 1 ∨ n < k → k.natAbs < DecimalDigit.limit →
    f.version k = .error (.key (f.noVersionText k))
  /-- A number of more digits is not told. -/
  untold : ∀ k : Int, k < 1 ∨ n < k → DecimalDigit.limit ≤ k.natAbs →
    f.version k = .error .tooLarge
  /-- No other version has as great a number as the latest. -/
  latest : IsOnly (fun v => ∀ w ∈ f.versions, w.number ≤ v.number) f.versions f.latest
  older : f.versions.Perm (f.latest :: f.older)
  ascending : f.older.Pairwise (·.number < ·.number)
  order : ∀ v ∈ f.versions, f.decodeOrder.count v.number = 1
  ordered : ∀ k ∈ f.decodeOrder, ∃ v ∈ f.versions, v.number = k
  descending : f.decodeOrder.Pairwise (· > ·)
  newestFirst : f.decodeOrder.head? = some f.latest.number

theorem version_eq_ok {k : Int} (hlow : 1 ≤ k) (hhigh : k ≤ f.versions.length) :
    ∃ v, f.version k = .ok v ∧ IsOnly (fun w => (w.number : Int) = k) f.versions v := by
  obtain ⟨v, hmem, hfound, hnumber⟩ := version?_eq_some hlow hhigh
  refine ⟨v, by simp only [version, hfound], ?_⟩
  apply isOnly_of_nodup f.nodup_numbers hmem hnumber
  intro w _ hw
  omega

theorem version_eq_error {k : Int} (h : k < 1 ∨ f.versions.length < k) :
    f.version k = .error
      (if DecimalDigit.isShort k.natAbs then .key (f.noVersionText k) else .tooLarge) := by
  simp only [version, version?_eq_none h]

theorem isOnly_latest (f : Family) :
    IsOnly (fun v => ∀ w ∈ f.versions, w.number ≤ v.number) f.versions f.latest := by
  have hgreatest : ∀ w ∈ f.versions, w.number ≤ f.latest.number := by
    intro w hw
    rw [latest_number]
    exact (number_bounds hw).2
  apply isOnly_of_nodup f.nodup_numbers (latest_mem f) hgreatest
  intro v hv hmax
  have hle := hmax f.latest (latest_mem f)
  have hge := hgreatest v hv
  omega

theorem older_append_latest (f : Family) : f.older ++ [f.latest] = f.versions :=
  List.dropLast_append_getLast f.nonempty

theorem pairwise_versions (f : Family) : f.versions.Pairwise (·.number < ·.number) := by
  have hnumbers : (f.versions.map (·.number)).Pairwise (· < ·) := by
    rw [f.numbered]
    exact List.pairwise_lt_range' 1
  exact List.pairwise_map.1 hnumbers

theorem mem_decodeOrder {k : Nat} : k ∈ f.decodeOrder ↔ ∃ v ∈ f.versions, v.number = k := by
  rw [decodeOrder, List.mem_reverse, List.mem_map]

theorem head?_decodeOrder (f : Family) : f.decodeOrder.head? = some f.latest.number := by
  rw [decodeOrder, List.head?_reverse, List.getLast?_map,
    List.getLast?_eq_some_getLast f.nonempty]
  rfl

theorem findsByNumber (f : Family) : f.FindsByNumber f.versions.length where
  count := rfl
  found _ hlow hhigh := version_eq_ok hlow hhigh
  notFound k h hshort := by
    rw [version_eq_error h, if_pos (DecimalDigit.isShort_iff.2 hshort)]
  untold k h hlong := by
    rw [version_eq_error h, if_neg (DecimalDigit.isShort_iff.not.2 (by omega))]
  latest := f.isOnly_latest
  older := by
    have happend : (f.older ++ [f.latest]).Perm (f.latest :: f.older) := List.perm_append_comm
    rwa [older_append_latest] at happend
  ascending := f.pairwise_versions.sublist (List.dropLast_sublist _)
  order v hv := by
    have hnodup : f.decodeOrder.Nodup := List.nodup_reverse.2 f.nodup_numbers
    exact List.count_eq_one_of_mem hnodup (mem_decodeOrder.2 ⟨v, hv, rfl⟩)
  ordered _ hk := mem_decodeOrder.1 hk
  descending := pairwise_decodeOrder f
  newestFirst := f.head?_decodeOrder

end Family

/-- Parts of a family whose versions have some numbers. -/
def numberedParts (numbers : List Nat) : FamilyParts where
  name := "Account"
  containerPath := ["Account", "Stable"]
  kind := .type
  strategy := .plain
  typeNames := ["t"]
  versions := numbers.map fun n =>
    ⟨n, ["Account", "Stable", versionName n], [TypeDecl.bare "t"], .derived, [], [], none⟩
  testObligation := none
  functorArities := []
  inTest := false
  location := none

theorem wellFormed_numberedParts {numbers : List Nat} (h : ∀ n ∈ numbers, 1 ≤ n) :
    (numberedParts numbers).WellFormed := by
  refine ⟨by simp [numberedParts], by simp [numberedParts], by simp [numberedParts],
    fun v hv => ?_, nofun⟩
  obtain ⟨n, hn, rfl⟩ := List.mem_map.1 hv
  refine ⟨h n hn, by simp, by simp, fun t ht => ?_, CodecRef.wellFormed_derived, nofun, nofun⟩
  obtain rfl := List.mem_singleton.1 ht
  exact ⟨by decide, nofun, nofun, nofun, nofun⟩

theorem areNumbered_numberedParts {numbers : List Nat} :
    AreNumbered (numberedParts numbers).versions ↔ ∃ n, 1 ≤ n ∧ numbers = List.range' 1 n := by
  have hnumbers : (numberedParts numbers).versions.map (·.number) = numbers := by
    rw [numberedParts, List.map_map]
    exact List.map_id numbers
  rw [AreNumbered, hnumbers]

end SchemaVersioning
