import SchemaVersioning.Family.Discovery
import SchemaVersioning.Family.Problem

/-!
# Building families

`build` makes the family of a container or reports everything that keeps it from being one.  Each
version below the highest must convert its types directly to the latest ones; a conversion to an
intermediate version is refused, so a new highest version asks for new upgrades everywhere.
-/

namespace SchemaVersioning

/-- Whether a path spells the end of a full path, in at least so many components. -/
def Path.denotes (p full : Path) (fewest : Nat) : Bool :=
  decide (fewest ≤ p.length) && p.isSuffixOf full

namespace FamilyDeclaration

variable (d : FamilyDeclaration) (c : Config)

/-! ## Members of the container -/

/-- What a member of a container is. -/
inductive Member where
  | version (number : Nat)
  | latest
  | test
  | unexpected
deriving DecidableEq, Repr

/-- The part that a module plays in a container. -/
def member (m : ModuleDecl) : Member :=
  match versionNumber? m.name with
  | some number => .version number
  | none =>
    if m.name = c.latestName then .latest
    else if c.isTest m then .test
    else .unexpected

/-- The version modules with their numbers, in the order of declaration. -/
def versionModules : List (Nat × ModuleDecl) :=
  d.container.modules.filterMap fun m =>
    match member c m with
    | .version number => some (number, m)
    | _ => none

/-- The last module with the name of the latest alias. -/
def latestModule? : Option ModuleDecl :=
  (d.container.modules.filter fun m => member c m = .latest).getLast?

def testModules : List ModuleDecl := d.container.modules.filter fun m => member c m = .test

/-- The version modules in ascending order. -/
def orderedVersions : List (Nat × ModuleDecl) :=
  (d.versionModules c).mergeSort fun a b => a.1 ≤ b.1

/-- The numbers of the version modules in ascending order. -/
def numbers : List Nat := (d.orderedVersions c).map (·.1)

/-- The number of the highest version, if the numbers are `1..n`. -/
def highest : Nat := (d.orderedVersions c).length

def typeNames : List String := c.versionedTypeNames d.kind

def versionPath (m : ModuleDecl) : Path := d.containerPath ++ [m.name]

/-! ## Upgrades -/

/-- Whether a type expression names the own type of a version. -/
def isOwnType (number : Nat) (typeName : String) (e : TypeExpr) : Bool :=
  e.path.denotes (d.containerPath ++ [versionName number, typeName]) 1

/-- The full paths of the latest type inside the container. -/
def latestTargets (typeName : String) : List Path :=
  [d.containerPath ++ [c.latestName, typeName],
    d.containerPath ++ [versionName (d.highest c), typeName]]

/-- Whether the enclosing module declares the type as an alias of the latest one. -/
def parentAliasesLatest (typeName : String) : Bool :=
  match (d.parentTypes.find? (·.name = typeName)).bind TypeDecl.alias? with
  | none => false
  | some target => (d.latestTargets c typeName).any fun full => target.path.denotes full 3

/-- The full paths under which the latest type is known. -/
def latestPaths (typeName : String) : List Path :=
  d.latestTargets c typeName ++
    (if !d.parentPath.isEmpty && d.parentAliasesLatest c typeName then [d.parentPath ++ [typeName]]
    else [])

/-- Whether a type expression names the latest type. -/
def isLatestType (typeName : String) (e : TypeExpr) : Bool :=
  (d.latestPaths c typeName).any fun full => e.path.denotes full 2

/-- What is wrong with an upgrade function. -/
def upgradeFault? (number : Nat) (typeName : String) : Option ValueDecl → Option UpgradeFault
  | none => some .absent
  | some value =>
    match value.params with
    | [parameter] =>
      if !d.isOwnType number typeName parameter then some (.foreignParameter value.signature)
      else if d.isLatestType c typeName value.returns then none
      else
        match value.returns.path.findSome? versionNumber? with
        | some target =>
          if target = d.highest c then some (.notLatest value.signature)
          else some (.chained value.signature target)
        | none => some (.notLatest value.signature)
    | params => some (.parameterCount params.length)

/-- The upgrade function of a version for a type. -/
def upgradeValue? (m : ModuleDecl) (typeName : String) : Option ValueDecl :=
  m.findValue? (c.upgradeName typeName)

/-- The upgrade of a version for a type. -/
def upgrade? (m : ModuleDecl) (typeName : String) : Option UpgradeFunction := do
  let value ← upgradeValue? c m typeName
  let parameter ← value.params.head?
  some ⟨value.name, typeName, parameter, value.returns, value.location⟩

/-- The problem with the upgrade of a version for a type. -/
def upgradeFinding? (number : Nat) (m : ModuleDecl) (typeName : String) : Option Finding :=
  let value := upgradeValue? c m typeName
  (d.upgradeFault? c number typeName value).map fun fault =>
    { problem := .badUpgrade number (c.upgradeName typeName) typeName c.latestName fault
      subject := d.name ++ "." ++ versionName number
      location := match value with
        | some value => value.location
        | none => m.location }

/-! ## Other members of a version -/

def versionSubject (m : ModuleDecl) : String := d.name ++ "." ++ m.name

/-- The problems with the types of a version. -/
def typeFindings (m : ModuleDecl) : List Finding :=
  (d.typeNames c).filterMap fun typeName =>
    match m.findType? typeName with
    | some _ => none
    | none => some ⟨.missingType m.name typeName, d.versionSubject m, m.location⟩

/-- What is wrong with the codec of a binable version. -/
def adapterFault? (m : ModuleDecl) : Option AdapterFault :=
  match m.codec with
  | none => some (.undeclared m.name)
  | some codec =>
    if !recognizedAdapters.contains codec.adapter then some (.unknown codec.adapter)
    else if codec.adapter = "of_binable" ∧ codec.wraps.isNone then some .wrapsNothing
    else none

/-- The problem with the codec of a version of a binable family. -/
def adapterFinding? (m : ModuleDecl) : Option Finding :=
  if d.strategy = .binable then
    (adapterFault? m).map fun fault =>
      ⟨.badAdapter fault, d.versionSubject m, (m.codec.bind (·.location)).or m.location⟩
  else none

/-- The call-site adapters that a version of a remote call lacks. -/
def missingCallAdapters (m : ModuleDecl) : List String :=
  callAdapters.filter fun name => (m.findValue? name).isNone

/-- The problem with the call-site adapters of a version. -/
def callAdapterFinding? (m : ModuleDecl) : Option Finding :=
  if d.kind = .rpc ∧ missingCallAdapters m ≠ [] then
    some ⟨.missingCallAdapters m.name (missingCallAdapters m), d.versionSubject m, m.location⟩
  else none

/-! ## Versions -/

/-- The problems of a version. -/
def versionFindings (number : Nat) (m : ModuleDecl) : List Finding :=
  d.typeFindings c m
    ++ (if number = d.highest c then []
      else (d.typeNames c).filterMap (d.upgradeFinding? c number m))
    ++ (d.adapterFinding? m).toList
    ++ (d.callAdapterFinding? m).toList

/-- The version of a module that has no problem. -/
def version (number : Nat) (m : ModuleDecl) : SchemaVersion where
  number := number
  modulePath := d.versionPath m
  types := (d.typeNames c).filterMap m.findType?
  codec := m.codec.getD .derived
  upgrades :=
    if number = d.highest c then []
    else (d.typeNames c).eraseDups.filterMap fun typeName =>
      (upgrade? c m typeName).map fun upgrade => (typeName, upgrade)
  adapters :=
    if d.kind = .rpc then
      callAdapters.filterMap fun name => (m.findValue? name).map fun value => (name, value)
    else []
  location := m.location

/-! ## The whole container -/

/-- The problems with members that are no version, no alias and no test. -/
def memberFindings : List Finding :=
  d.container.modules.filterMap fun m =>
    if member c m = .unexpected then
      some ⟨.unexpectedMember m.name d.container.name, d.name, m.location⟩
    else none

/-- The names through which a latest alias refers to versions. -/
def aliasTargets (m : ModuleDecl) : List String :=
  (m.aliasOf.bind fun target => (Path.ofDotted target).getLast?).toList
    ++ m.types.flatMap fun t =>
      match t.alias? with
      | none => []
      | some target => target.path.filter isVersionName

/-- The problem with a hand-written alias of the latest version. -/
def latestFindings : List Finding :=
  match d.latestModule? c with
  | none => []
  | some m =>
    let wrong := (aliasTargets m).filter fun t => versionNumber? t ≠ some (d.highest c)
    if wrong.isEmpty then []
    else
      [⟨.latestNotHighest c.latestName (NameSet.ofList wrong).names (d.highest c), d.name,
        m.location⟩]

/-- The companion test: in the container, else in the lowest version that has one. -/
def testObligation? : Option TestObligation :=
  match d.testModules c with
  | test :: _ => some ⟨d.containerPath ++ [test.name], test.location⟩
  | [] =>
    (d.orderedVersions c).findSome? fun (_, m) =>
      (m.modules.find? c.isTest).map fun test =>
        ⟨d.versionPath m ++ [test.name], test.location⟩

/-- The problem with an asserted family that has no test. -/
def testFindings : List Finding :=
  if d.strategy = .asserted ∧ (d.testObligation? c).isNone then
    [⟨.noTest c.testModuleName d.container.name, d.name, d.container.location⟩]
  else []

/-- The problems of a container whose version numbers are `1..n`. -/
def findings : List Finding :=
  d.memberFindings c ++ d.latestFindings c
    ++ (d.orderedVersions c).flatMap (fun (number, m) => d.versionFindings c number m)
    ++ d.testFindings c

/-- The parts of the family of a container. -/
def parts : FamilyParts where
  name := d.name
  containerPath := d.containerPath
  kind := d.kind
  strategy := d.strategy
  typeNames := d.typeNames c
  versions := (d.orderedVersions c).map fun (number, m) => d.version c number m
  testObligation := d.testObligation? c
  functorArities := d.functorArities.map Int.ofNat
  inTest := d.inTest
  location := d.container.location

theorem map_number_parts : (d.parts c).versions.map (·.number) = d.numbers c := by
  simp only [parts, numbers, List.map_map]
  rfl

theorem length_parts : (d.parts c).versions.length = (d.numbers c).length := by
  simp only [parts, numbers, List.length_map]

theorem testObligation?_isSome (h : d.findings c = []) (ha : d.strategy = .asserted) :
    (d.testObligation? c).isSome := by
  have ht : d.testFindings c = [] := by
    unfold findings at h
    exact (List.append_eq_nil_iff.1 h).2
  unfold testFindings at ht
  cases hs : d.testObligation? c with
  | some _ => rfl
  | none => simp [ha, hs] at ht

/-- The family of a container, or everything that keeps it from being one. -/
def build : Except (List Finding) Family :=
  if hn : d.numbers c = [] then
    .error (d.memberFindings c
      ++ [⟨.noVersions d.containerPath, d.name, d.container.location⟩])
  else if h : d.numbers c = List.range' 1 (d.numbers c).length then
    if hf : d.findings c = [] then
      .ok
        { d.parts c with
          nonempty := fun he => hn (by rw [← d.map_number_parts c, he]; rfl)
          numbered := by rw [d.map_number_parts c, d.length_parts c]; exact h
          tested := fun ha => d.testObligation?_isSome c hf ha }
    else .error (d.findings c)
  else
    .error (d.memberFindings c
      ++ [⟨.nonContiguous (d.numbers c), d.name, d.container.location⟩])

end FamilyDeclaration

end SchemaVersioning
