import SchemaVersioning.Proofs.VersionNames
import SchemaVersioning.Reference.Resolution

/-!
# Shapes of undeclared paths

What is read off a path that is declared nowhere.  The first container name that is followed by a
version or by the latest alias decides (`standingByShape_eq_iff`): the path has the shape of a
version, of a latest type, or none.
-/

namespace SchemaVersioning

/-- What a component after a container name makes of a path of a family, if it decides. -/
def Standing.ofComponent (f b : String) : Standing :=
  match overlongVersion? b, versionNumber? b with
  | some digits, _ => .overlong digits
  | none, some number => .version f number
  | none, none => .latest f

namespace Config

variable (c : Config)

/-- The family whose container follows some components. -/
def familyAfter (before : Path) : String :=
  if Path.dotted before = "" then c.containerName else Path.dotted before

/-- A component that decides what follows a container name: a version, or the latest alias. -/
def Decides (b : String) : Prop := isVersionName b = true ∨ b = c.latestName

/-- A path has the container name at a position, a version name after it, and no earlier container
name is followed by a component that decides. -/
structure ShowsAt (seen p : Path) (i : Nat) (f : String) (j : Nat) : Prop where
  container : p[i]? = some c.containerName
  version : ∃ b, p[i + 1]? = some b ∧ overlongVersion? b = none ∧ versionNumber? b = some j
  family : c.familyAfter (seen ++ p.take i) = f
  first : ∀ i' < i, p[i']? = some c.containerName → ∀ b, p[i' + 1]? = some b → ¬ c.Decides b

/-- A path has the shape of a version. -/
def ShowsVersion (p : Path) (f : String) (j : Nat) : Prop := ∃ i, c.ShowsAt [] p i f j

/-- A path has the container name at a position, the name of the latest alias after it, and no
earlier container name is followed by a component that decides. -/
structure ShowsLatestAt (p : Path) (i : Nat) (f : String) : Prop where
  container : p[i]? = some c.containerName
  latest : p[i + 1]? = some c.latestName
  unversioned : isVersionName c.latestName = false
  family : c.familyAfter (p.take i) = f
  first : ∀ i' < i, p[i']? = some c.containerName → ∀ b, p[i' + 1]? = some b → ¬ c.Decides b

/-- A path has the shape of a latest type. -/
def ShowsLatest (p : Path) (f : String) : Prop := ∃ i, c.ShowsLatestAt p i f

/-! ## The component that decides -/

/-- A path has the container name at a position and a component after it that decides, and it has no
such position earlier. -/
structure DecidedAt (seen p : Path) (i : Nat) (f b : String) : Prop where
  container : p[i]? = some c.containerName
  component : p[i + 1]? = some b
  decides : c.Decides b
  family : c.familyAfter (seen ++ p.take i) = f
  first : ∀ i' < i, p[i']? = some c.containerName → ∀ b', p[i' + 1]? = some b' → ¬ c.Decides b'

variable {c}

theorem not_decidedAt_of_length_le {seen p : Path} (hp : p.length ≤ 1) {i : Nat} {f b : String} :
    ¬ c.DecidedAt seen p i f b := by
  intro h
  obtain ⟨hlt, -⟩ := List.getElem?_eq_some_iff.1 h.component
  omega

theorem decidedAt_zero_iff {seen p : Path} {a b f b' : String} :
    c.DecidedAt seen (a :: b :: p) 0 f b' ↔
      a = c.containerName ∧ b = b' ∧ c.Decides b ∧ c.familyAfter seen = f := by
  constructor
  · intro h
    obtain rfl : b = b' := Option.some.inj h.component
    exact ⟨Option.some.inj h.container, rfl, h.decides, by simpa using h.family⟩
  · rintro ⟨rfl, rfl, hb, hf⟩
    exact ⟨rfl, rfl, hb, by simpa using hf, fun i' hi' => absurd hi' (Nat.not_lt_zero i')⟩

theorem decidedAt_succ_iff {seen p : Path} {a b : String} {i : Nat} {f b' : String} :
    c.DecidedAt seen (a :: b :: p) (i + 1) f b' ↔
      (a = c.containerName → ¬ c.Decides b) ∧ c.DecidedAt (seen ++ [a]) (b :: p) i f b' := by
  constructor
  · intro h
    refine ⟨fun ha => h.first 0 (by omega) (by simp [ha]) b rfl,
      h.container, h.component, h.decides, by simpa using h.family, fun i' hi' => ?_⟩
    exact h.first (i' + 1) (by omega)
  · rintro ⟨ha, h⟩
    refine ⟨h.container, h.component, h.decides, by simpa using h.family, fun i' hi' => ?_⟩
    cases i' with
    | zero =>
      intro hname e he
      obtain rfl : b = e := Option.some.inj he
      exact ha (Option.some.inj hname)
    | succ i' => exact h.first i' (by omega)

theorem standingByShape_of_decides {seen p : Path} {a b : String} (ha : a = c.containerName)
    (hb : c.Decides b) :
    c.standingByShape seen (a :: b :: p) = Standing.ofComponent (c.familyAfter seen) b := by
  rw [standingByShape, if_neg (not_not.2 ha), Standing.ofComponent]
  cases ho : overlongVersion? b with
  | some digits => rfl
  | none =>
    cases hn : versionNumber? b with
    | some number => rfl
    | none =>
      have hlatest : b = c.latestName := hb.resolve_left (by simp [isVersionName, hn])
      simp [hlatest, familyAfter]

theorem standingByShape_of_not_decides {seen p : Path} {a b : String}
    (h : a = c.containerName → ¬ c.Decides b) :
    c.standingByShape seen (a :: b :: p) = c.standingByShape (seen ++ [a]) (b :: p) := by
  rw [standingByShape]
  by_cases ha : a = c.containerName
  · obtain ⟨hversion, hlatest⟩ := not_or.1 (h ha)
    have ho : overlongVersion? b = none := by
      by_contra ho
      exact hversion (isVersionName_of_overlong ho)
    have hn : versionNumber? b = none := by simpa [isVersionName] using hversion
    rw [if_neg (not_not.2 ha), ho, hn]
    exact if_neg hlatest
  · exact if_pos ha

/-- The first component that decides gives the standing of an undeclared path. -/
theorem standingByShape_eq_iff {s : Standing} (hs : s ≠ .unknown) {seen p : Path} :
    c.standingByShape seen p = s ↔ ∃ i f b, c.DecidedAt seen p i f b ∧ Standing.ofComponent f b = s := by
  have hshort : ∀ {seen p : Path}, p.length ≤ 1 → (Standing.unknown = s ↔
      ∃ i f b, c.DecidedAt seen p i f b ∧ Standing.ofComponent f b = s) := by
    intro seen p hp
    refine ⟨fun h => absurd h.symm hs, ?_⟩
    rintro ⟨i, f, b, h, -⟩
    exact absurd h (not_decidedAt_of_length_le hp)
  induction p generalizing seen with
  | nil => exact hshort (by simp)
  | cons a p ih =>
    cases p with
    | nil => exact hshort (by simp)
    | cons b p =>
      by_cases h : a = c.containerName ∧ c.Decides b
      · rw [standingByShape_of_decides h.1 h.2]
        constructor
        · intro hstanding
          exact ⟨0, _, b, decidedAt_zero_iff.2 ⟨h.1, rfl, h.2, rfl⟩, hstanding⟩
        · rintro ⟨i, f, b', hat, hstanding⟩
          cases i with
          | zero =>
            obtain ⟨-, rfl, -, rfl⟩ := decidedAt_zero_iff.1 hat
            exact hstanding
          | succ i => exact absurd h.2 ((decidedAt_succ_iff.1 hat).1 h.1)
      · have hnot : a = c.containerName → ¬ c.Decides b := not_and.1 h
        rw [standingByShape_of_not_decides hnot]
        refine ih.trans ⟨?_, ?_⟩
        · rintro ⟨i, f, b', hat, hstanding⟩
          exact ⟨i + 1, f, b', decidedAt_succ_iff.2 ⟨hnot, hat⟩, hstanding⟩
        · rintro ⟨i, f, b', hat, hstanding⟩
          cases i with
          | zero =>
            obtain ⟨ha, -, hb, -⟩ := decidedAt_zero_iff.1 hat
            exact absurd ⟨ha, hb⟩ h
          | succ i => exact ⟨i, f, b', (decidedAt_succ_iff.1 hat).2, hstanding⟩

/-! ## Versions and latest types -/

theorem ofComponent_eq_version_iff {f b g : String} {j : Nat} : Standing.ofComponent f b = .version g j ↔
    overlongVersion? b = none ∧ versionNumber? b = some j ∧ f = g := by
  unfold Standing.ofComponent
  cases overlongVersion? b <;> cases versionNumber? b <;> simp [and_comm]

theorem ofComponent_eq_latest_iff {f b g : String} :
    Standing.ofComponent f b = .latest g ↔ isVersionName b = false ∧ f = g := by
  unfold Standing.ofComponent
  cases ho : overlongVersion? b with
  | some digits =>
    have hversion : isVersionName b = true := isVersionName_of_overlong (by simp [ho])
    simp [hversion]
  | none => cases hn : versionNumber? b <;> simp [isVersionName, hn]

/-- What is read off an undeclared path is a version if the path has the shape of that version. -/
theorem standingByShape_eq_version_iff {p seen : Path} {f : String} {j : Nat} :
    c.standingByShape seen p = .version f j ↔ ∃ i, c.ShowsAt seen p i f j := by
  rw [standingByShape_eq_iff (by simp)]
  simp only [ofComponent_eq_version_iff]
  constructor
  · rintro ⟨i, g, b, h, ho, hn, rfl⟩
    exact ⟨i, h.container, ⟨b, h.component, ho, hn⟩, h.family, h.first⟩
  · rintro ⟨i, h⟩
    obtain ⟨b, hb, ho, hn⟩ := h.version
    have hversion : isVersionName b = true := by simp [isVersionName, hn]
    exact ⟨i, f, b, ⟨h.container, hb, Or.inl hversion, h.family, h.first⟩, ho, hn, rfl⟩

/-- What is read off an undeclared path is latest if the path has the shape of a latest type. -/
theorem standingByShape_eq_latest_iff {p : Path} {f : String} :
    c.standingByShape [] p = .latest f ↔ c.ShowsLatest p f := by
  rw [standingByShape_eq_iff (by simp)]
  simp only [ofComponent_eq_latest_iff]
  constructor
  · rintro ⟨i, g, b, h, hversion, rfl⟩
    obtain rfl : b = c.latestName := h.decides.resolve_left (by simp [hversion])
    exact ⟨i, h.container, h.component, hversion, h.family, h.first⟩
  · rintro ⟨i, h⟩
    exact ⟨i, f, c.latestName,
      ⟨h.container, h.latest, Or.inr rfl, h.family, h.first⟩, h.unversioned, rfl⟩

end Config

end SchemaVersioning
