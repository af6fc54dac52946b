import Mathlib.Data.List.Forall2
import SchemaVersioning.Family.Synthesis
import SchemaVersioning.Proofs.Upgrades

/-!
# Names of versions, as they are written and as they are read

The name that is written for a number is the letter `V` and its decimal numeral.  What is read as a
number is more: every digit after the first may be one of any script, and a line break may follow
(`versionNumber?_eq_some_iff`).  Among the names without such digits and without a line break each
number has one (`eq_versionName_iff`).  A family keeps the names under which its versions are
declared, but goes by those that are written (`version_names_exactly`).
-/

namespace SchemaVersioning

namespace DecimalDigit

/-! ## Numerals of any script -/

/-- Digit by digit a numeral has the values of the decimal numeral of a number, and it begins with
the same character. -/
def Writes (numeral : List Char) (n : Nat) : Prop :=
  List.Forall₂ (fun a b => value? a = value? b) numeral (Nat.toDigits 10 n) ∧
    numeral.head? = (Nat.toDigits 10 n).head?

section Numerals

variable {cs : List Char} {n : Nat}

/-- Reading further digits writes them behind the numeral. -/
theorem toDigits_foldl {digits : List Nat} (h : ∀ d ∈ digits, d < 10) {start : Nat}
    (hstart : 0 < start) : Nat.toDigits 10 (digits.foldl (fun n d => 10 * n + d) start)
      = Nat.toDigits 10 start ++ digits.map Nat.digitChar := by
  induction digits generalizing start with
  | nil => simp
  | cons d digits ih =>
    have hd : d < 10 := h d List.mem_cons_self
    have hnext : Nat.toDigits 10 (10 * start + d) = Nat.toDigits 10 start ++ [d.digitChar] := by
      rw [← Nat.toDigits_append_toDigits (by decide) hstart hd, Nat.toDigits_of_lt_base hd]
    rw [List.foldl_cons, ih (fun e he => h e (List.mem_cons_of_mem _ he)) (by omega), hnext,
      List.append_assoc]
    rfl

theorem forall₂_of_mapM_value? {digits : List Nat} (h : cs.mapM value? = some digits) :
    List.Forall₂ (fun a b => value? a = value? b) cs (digits.map Nat.digitChar) := by
  induction cs generalizing digits with
  | nil =>
    obtain rfl : [] = digits := by simpa using h
    exact .nil
  | cons a cs ih =>
    rw [List.mapM_cons] at h
    obtain ⟨d, hd, h⟩ := Option.bind_eq_some_iff.1 h
    obtain ⟨rest, hrest, h⟩ := Option.bind_eq_some_iff.1 h
    obtain rfl : d :: rest = digits := Option.some.inj h
    exact .cons (hd.trans (value?_digitChar (value?_lt hd)).symm) (ih hrest)

theorem mapM_value?_congr {ds : List Char}
    (h : List.Forall₂ (fun a b => value? a = value? b) cs ds) :
    cs.mapM value? = ds.mapM value? := by
  induction h with
  | nil => rfl
  | cons hab _ ih => rw [List.mapM_cons, List.mapM_cons, hab, ih]

/-- The first digit of a numeral without leading zeros is one of ASCII. -/
theorem digitChar_of_isFirst {a : Char} (h : '1' ≤ a ∧ a ≤ '9') :
    0 < a.toNat - 48 ∧ a.toNat - 48 < 10 ∧ (a.toNat - 48).digitChar = a := by
  have hlow : (49 : Nat) ≤ a.toNat := h.1
  have hhigh : a.toNat ≤ (57 : Nat) := h.2
  refine ⟨by omega, by omega, ?_⟩
  apply Char.toNat_inj.1
  rw [Nat.toNat_digitChar_of_lt_ten (by omega)]
  omega

/-- What is read as a number is a numeral of that number. -/
theorem numeralNumber?_eq_some_iff : numeralNumber? cs = some n ↔ Writes cs n := by
  constructor
  · intro h
    unfold numeralNumber? at h
    split at h
    · obtain rfl : 0 = n := Option.some.inj h
      exact ⟨.cons rfl .nil, rfl⟩
    · next a rest _ =>
      split at h
      · next ha =>
        obtain ⟨digits, hdigits, rfl⟩ := Option.map_eq_some_iff.1 h
        obtain ⟨hpos, hlt, hchar⟩ := digitChar_of_isFirst ha
        have hnumber : number ((a.toNat - 48) :: digits)
            = digits.foldl (fun n d => 10 * n + d) (a.toNat - 48) := by simp [number]
        have hwritten : Nat.toDigits 10 (number ((a.toNat - 48) :: digits))
            = a :: digits.map Nat.digitChar := by
          rw [hnumber, toDigits_foldl (lt_of_mapM_value? hdigits).2 hpos,
            Nat.toDigits_of_lt_base hlt, hchar]
          rfl
        rw [Writes, hwritten]
        exact ⟨.cons rfl (forall₂_of_mapM_value? hdigits), rfl⟩
      · cases h
    · cases h
  · rintro ⟨hvalues, hfirst⟩
    rcases Nat.eq_zero_or_pos n with rfl | hpos
    · obtain ⟨a, rfl⟩ := List.length_eq_one_iff.1 hvalues.length_eq
      obtain rfl : a = '0' := Option.some.inj hfirst
      rfl
    · -- The numeral that is written begins with a digit from one to nine.
      obtain ⟨b, rest, digits, hwritten, hlow, hhigh, hread, hnumber⟩ := exists_read_toDigits n hpos
      rw [hwritten] at hvalues hfirst
      obtain ⟨a, as, rfl⟩ := List.exists_cons_of_length_eq_add_one hvalues.length_eq
      obtain rfl : a = b := Option.some.inj hfirst
      obtain ⟨-, hrest⟩ := List.forall₂_cons.1 hvalues
      rw [numeralNumber?]
      · rw [if_pos ⟨hlow, hhigh⟩, mapM_value?_congr hrest, hread, Option.map_some, hnumber]
      · rintro rfl
        exact absurd hlow (by decide)

/-- The value of an ASCII digit. -/
theorem toNat_of_value? {a : Char} (ha : a.toNat < 128) {v : Nat} (h : value? a = some v) :
    a.toNat = 48 + v := by
  obtain ⟨first, hfirst, rfl⟩ := Option.map_eq_some_iff.1 h
  have hzero : ∀ z ∈ zeros, z < 128 → z = 48 := by decide
  have hrange := List.find?_some hfirst
  simp only [decide_eq_true_eq] at hrange
  have := hzero first (List.mem_of_find?_eq_some hfirst) (by omega)
  omega

theorem value?_of_isDigit {b : Char} (h : b.isDigit = true) : value? b = some (b.toNat - 48) := by
  have hrange : (48 : Nat) ≤ b.toNat ∧ b.toNat ≤ 57 := by
    simpa [Char.isDigit, UInt32.le_iff_toNat_le] using h
  have hdigit : (b.toNat - 48).digitChar = b := by
    apply Char.toNat_inj.1
    rw [Nat.toNat_digitChar_of_lt_ten (by omega)]
    omega
  have hvalue := value?_digitChar (d := b.toNat - 48) (by omega)
  rwa [hdigit] at hvalue

theorem isDigit_of_mem_toDigits {b : Char} (h : b ∈ Nat.toDigits 10 n) : b.isDigit = true :=
  Nat.isDigit_of_mem_toDigits (by decide) (Nat.le_refl 10) h

section Values

variable {ds : List Char} (h : List.Forall₂ (fun a b => value? a = value? b) cs ds)
  (hds : ∀ b ∈ ds, b.isDigit = true)

include h hds

theorem isSome_value?_of_mem : ∀ a ∈ cs, (value? a).isSome = true := by
  induction h with
  | nil => simp
  | @cons a b cs ds hab _ ih =>
    have hb : b.isDigit = true := hds b List.mem_cons_self
    refine List.forall_mem_cons.2 ⟨?_, ih fun e he => hds e (List.mem_cons_of_mem _ he)⟩
    rw [hab, value?_of_isDigit hb]
    rfl

/-- Digits of ASCII with the values of digits of ASCII are these digits. -/
theorem eq_of_values (hcs : ∀ a ∈ cs, a.toNat < 128) : cs = ds := by
  induction h with
  | nil => rfl
  | @cons a b cs ds hab _ ih =>
    have hb := value?_of_isDigit (hds b List.mem_cons_self)
    have hbound : (48 : Nat) ≤ b.toNat := by
      have hdigit := hds b List.mem_cons_self
      simp only [Char.isDigit, UInt32.le_iff_toNat_le, Bool.and_eq_true, decide_eq_true_eq] at hdigit
      exact hdigit.1
    have ha := toNat_of_value? (hcs a List.mem_cons_self) (hab.trans hb)
    have heq : a = b := Char.toNat_inj.1 (by omega)
    rw [heq, ih (fun e he => hds e (List.mem_cons_of_mem _ he))
      fun e he => hcs e (List.mem_cons_of_mem _ he)]

end Values

end Numerals

end DecimalDigit

open DecimalDigit

/-! ## Names -/

/-- A name is the letter `V` with a numeral of a number, and perhaps a line break after it. -/
def Denotes (name : String) (n : Nat) : Prop :=
  ∃ numeral, Writes numeral n ∧
    (name.toList = 'V' :: numeral ∨ name.toList = 'V' :: numeral ++ ['\n'])

/-- A name is read as a number: it has one, and not with too many digits to be read. -/
def ReadsAs (name : String) (n : Nat) : Prop :=
  overlongVersion? name = none ∧ versionNumber? name = some n

/-- A name is written in ASCII on one line. -/
def IsPlainName (name : String) : Prop := ∀ a ∈ name.toList, a ≠ '\n' ∧ a.toNat < 128

section Names

variable {name : String} {n : Nat}

theorem dropFinalNewline_of_writes {numeral : List Char} (h : Writes numeral n) :
    dropFinalNewline numeral = numeral := by
  refine if_neg fun hlast => ?_
  have hdigit := isSome_value?_of_mem h.1 (fun _ => isDigit_of_mem_toDigits) _
    (List.mem_of_getLast? hlast)
  exact absurd hdigit (by decide)

theorem dropFinalNewline_concat (numeral : List Char) :
    dropFinalNewline (numeral ++ ['\n']) = numeral := by
  simp [dropFinalNewline]

/-- A text is what is left of it without a final line break, with or without one. -/
theorem eq_dropFinalNewline (cs : List Char) :
    cs = dropFinalNewline cs ∨ cs = dropFinalNewline cs ++ ['\n'] := by
  by_cases h : cs.getLast? = some '\n'
  · refine Or.inr ?_
    rw [dropFinalNewline, if_pos h, List.dropLast_append_getLast? _ h]
  · exact Or.inl (if_neg h).symm

/-- The numeral in a name that denotes a number. -/
theorem Denotes.numeral (h : Denotes name n) : ∃ cs, name.toList = 'V' :: cs ∧
    Writes (dropFinalNewline cs) n := by
  obtain ⟨numeral, hwrites, hname | hname⟩ := h
  · exact ⟨numeral, hname, by rwa [dropFinalNewline_of_writes hwrites]⟩
  · exact ⟨numeral ++ ['\n'], hname, by rwa [dropFinalNewline_concat]⟩

/-- A name has a number exactly when it denotes it. -/
theorem versionNumber?_eq_some_iff : versionNumber? name = some n ↔ Denotes name n := by
  constructor
  · intro h
    unfold versionNumber? at h
    split at h
    · next cs hcs =>
      refine ⟨dropFinalNewline cs, numeralNumber?_eq_some_iff.1 h, ?_⟩
      rw [hcs]
      rcases eq_dropFinalNewline cs with heq | heq
      · exact Or.inl (congrArg _ heq)
      · exact Or.inr (congrArg _ heq)
    · cases h
  · intro h
    obtain ⟨cs, hcs, hwrites⟩ := h.numeral
    rw [versionNumber?, hcs]
    exact numeralNumber?_eq_some_iff.2 hwrites

theorem overlongVersion?_eq_none_iff (h : Denotes name n) :
    overlongVersion? name = none ↔ isShort n = true := by
  obtain ⟨cs, hcs, hwrites⟩ := h.numeral
  have hread : (numeralNumber? (dropFinalNewline cs)).isSome = true := by
    rw [numeralNumber?_eq_some_iff.2 hwrites]
    rfl
  rw [overlongVersion?, hcs]
  simp only [hread, Bool.and_true, decide_eq_true_eq, ite_eq_right_iff, reduceCtorEq, imp_false,
    Nat.not_lt, isShort, hwrites.1.length_eq]

theorem readsAs_iff : ReadsAs name n ↔ Denotes name n ∧ isShort n = true := by
  rw [ReadsAs, versionNumber?_eq_some_iff, and_comm]
  exact and_congr_right overlongVersion?_eq_none_iff

theorem isPlainName_versionName (n : Nat) : IsPlainName (versionName n) := by
  intro a ha
  rw [toList_versionName, List.mem_cons] at ha
  rcases ha with rfl | ha
  · decide
  · have hdigit := isDigit_of_mem_toDigits ha
    simp only [Char.isDigit, UInt32.le_iff_toNat_le, Bool.and_eq_true, decide_eq_true_eq] at hdigit
    have hhigh : a.toNat ≤ (57 : Nat) := hdigit.2
    refine ⟨?_, by omega⟩
    rintro rfl
    exact absurd hdigit.1 (by decide)

/-- The name that is written for a number is the plain one among those that denote it. -/
theorem eq_versionName_iff : name = versionName n ↔ Denotes name n ∧ IsPlainName name := by
  constructor
  · rintro rfl
    exact ⟨versionNumber?_eq_some_iff.1 (versionNumber?_versionName n), isPlainName_versionName n⟩
  · rintro ⟨⟨numeral, hwrites, hname | hname⟩, hplain⟩
    · have hdigits := eq_of_values hwrites.1 (fun _ => isDigit_of_mem_toDigits) fun a ha =>
        (hplain a (hname ▸ List.mem_cons_of_mem _ ha)).2
      rw [← String.toList_inj, hname, toList_versionName, hdigits]
    · exact absurd rfl (hplain '\n' (by simp [hname])).1

end Names

/-! ## Names in families -/

/-- Which names are read as a number. -/
structure ReadExactly (name : String) (n : Nat) : Prop where
  /-- A name is read as each number that it denotes, unless that has too many digits. -/
  read : ReadsAs name n ↔ Denotes name n ∧ isShort n = true
  /-- The name that is written for a number is the plain one among those that denote it. -/
  written : name = versionName n ↔ Denotes name n ∧ IsPlainName name
  /-- Plain names are read as they are written. -/
  plain : IsPlainName name → (ReadsAs name n ↔ name = versionName n ∧ isShort n = true)
  /-- No two plain names are read as one number. -/
  unique : ∀ other, IsPlainName name → IsPlainName other → ReadsAs name n → ReadsAs other n →
    name = other

/-- How a family that is built from a container names its versions. -/
structure VersionsNamed (d : FamilyDeclaration) (c : Config) (f : Family) : Prop where
  /-- The path of a version ends with the name of a member that denotes its number, and this is the
  name of the version exactly if it is plain. -/
  declared : ∀ v ∈ f.versions, ∃ m ∈ d.container.modules, Denotes m.name v.number ∧
    v.modulePath = f.containerPath ++ [m.name] ∧ (m.name = v.name ↔ IsPlainName m.name)
  /-- The generated alias module and its types go by the name of the highest version. -/
  generated : (f.synthesize c).latestModule.aliasOf = some f.latest.name ∧
    ∀ t ∈ (f.synthesize c).latestModule.types, t.alias?.map (·.path) = some [f.latest.name, t.name]
  /-- That is the name of a member exactly if the path of the highest version ends with it. -/
  resolves : (∃ m ∈ d.container.modules, m.name = f.latest.name) ↔
    f.latest.modulePath.getLast? = some f.latest.name

theorem readExactly (name : String) (n : Nat) : ReadExactly name n where
  read := readsAs_iff
  written := eq_versionName_iff
  plain hplain := by
    rw [readsAs_iff, eq_versionName_iff]
    simp only [hplain, and_true]
  unique other hplain hother hname hread :=
    (eq_versionName_iff.2 ⟨(readsAs_iff.1 hname).1, hplain⟩).trans
      (eq_versionName_iff.2 ⟨(readsAs_iff.1 hread).1, hother⟩).symm

section Families

variable {d : FamilyDeclaration} {c : Config} {f : Family}

/-- The member that declares a version of a family. -/
theorem exists_member (h : d.build c = .ok f) {v : SchemaVersion} (hv : v ∈ f.versions) :
    ∃ m, d.HasVersion v.number m ∧ v.modulePath = f.containerPath ++ [m.name] := by
  obtain ⟨k, m, hm, rfl⟩ := exists_of_mem_versions h hv
  refine ⟨m, hm, ?_⟩
  rw [containerPath_of_build h]
  rfl

theorem versionsNamed (h : d.build c = .ok f) : VersionsNamed d c f where
  declared v hv := by
    obtain ⟨m, ⟨hm, hk⟩, hpath⟩ := exists_member h hv
    have hdenotes := versionNumber?_eq_some_iff.1 hk
    refine ⟨m, hm, hdenotes, hpath, ?_⟩
    rw [SchemaVersion.name, eq_versionName_iff]
    exact and_iff_right hdenotes
  generated := by
    refine ⟨rfl, fun t ht => ?_⟩
    obtain ⟨x, -, rfl⟩ := List.mem_map.1 ht
    rfl
  resolves := by
    obtain ⟨m, hm, hpath⟩ := exists_member h (latest_mem f)
    rw [hpath, List.getLast?_concat, Option.some.injEq]
    constructor
    · rintro ⟨n, hn, hname⟩
      -- Each number is declared once, so the member of that name is the highest version.
      have hversion : d.HasVersion f.latest.number n := by
        refine ⟨hn, ?_⟩
        rw [hname]
        exact versionNumber?_versionName _
      have hnumbered := (FamilyDeclaration.build_eq_ok_iff.1 h).1
      rw [FamilyDeclaration.eq_of_hasVersion hnumbered hm hversion, hname]
    · intro hname
      exact ⟨m, hm.1, hname⟩

end Families

/-- A name is read as a number exactly if it consists of the letter `V` and a numeral of that number
in digits of any script, the first of them in ASCII, with a line break after it or without one.
Only plain names are those that are written, so a built family names its versions, and generates the
alias of the highest one, by the names of its members exactly if these are plain. -/
theorem version_names_exactly (name : String) (n : Nat) (d : FamilyDeclaration) (c : Config) :
    ReadExactly name n ∧ ∀ f, d.build c = .ok f → VersionsNamed d c f :=
  ⟨readExactly name n, fun _ => versionsNamed⟩

/-! ## A name with a line break -/

/-- A version whose name ends with a line break. -/
def brokenVersion : ModuleDecl := .bare "V1\n" [.bare "t"] []

/-- The declaration of a family with that version. -/
def brokenDeclaration : FamilyDeclaration where
  container := { ModuleDecl.bare "Stable" [] [brokenVersion] with attributes := ["versioned"] }
  parentPath := ["Account"]
  kind := .type
  strategy := .plain
  functorArities := []
  inTest := false
  parentTypes := []

theorem exists_broken_family : ∃ f, brokenDeclaration.build .standard = .ok f ∧
    f.versions = [brokenDeclaration.version .standard 1 brokenVersion] := by
  obtain ⟨f, hbuild⟩ := exists_build (d := brokenDeclaration) (c := .standard) (by cbv)
  refine ⟨f, hbuild, ?_⟩
  rw [parts_of_build hbuild]
  cbv

theorem version_names_exactly_brokenDeclaration : ReadExactly "V1\n" 1 ∧
    ∃ f, brokenDeclaration.build .standard = .ok f ∧ VersionsNamed brokenDeclaration .standard f := by
  obtain ⟨f, hbuild, -⟩ := exists_broken_family
  have hnames := version_names_exactly "V1\n" 1 brokenDeclaration .standard
  exact ⟨hnames.1, f, hbuild, hnames.2 f hbuild⟩

/-- A line break and a digit of another script are read over.  The version of that name is built, but
its path does not end with its name, and the generated alias names a module that does not exist. -/
theorem line_break_read_over : ReadsAs "V1\n" 1 ∧ "V1\n" ≠ versionName 1 ∧
    ReadsAs "V1٢" 12 ∧ "V1٢" ≠ versionName 12 ∧ ∃ f, brokenDeclaration.build .standard = .ok f ∧
      f.latest.modulePath = ["Account", "Stable", "V1\n"] ∧ f.latest.name = "V1" ∧
      (f.synthesize .standard).latestModule.aliasOf = some "V1" ∧
      ∀ m ∈ brokenDeclaration.container.modules, m.name ≠ "V1" := by
  obtain ⟨f, hbuild, hversions⟩ := exists_broken_family
  have hlatest : f.latest = brokenDeclaration.version .standard 1 brokenVersion := by
    have hlast := latest_mem f
    rwa [hversions, List.mem_singleton] at hlast
  have hname : f.latest.name = "V1" := by
    rw [hlatest]
    rfl
  refine ⟨⟨by decide, by decide⟩, by decide, ⟨by decide, by decide⟩, by decide, f, hbuild, ?_, hname,
    ?_, by decide⟩
  · rw [hlatest]
    rfl
  · exact congrArg some hname

end SchemaVersioning
