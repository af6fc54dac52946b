import SchemaVersioning.Config
import SchemaVersioning.Reading.Checked

/-!
# Generated declarations

What is generated for a family: the alias of its latest version, a pair of operations for each
versioned type, and the order in which decoders are tried.
-/

namespace SchemaVersioning

/-- The declarations generated for a family. -/
structure GeneratedFamily where
  family : String
  containerPath : Path
  latestVersion : Nat
  latestModule : ModuleDecl
  operations : List ValueDecl
  decodeOrder : List Int

namespace Family

variable (f : Family) (c : Config)

/-- The type of serialized values. -/
def bufferType : TypeExpr := .ofPath "bytes" []

/-- The alias of a type of the latest version. -/
def latestAlias (typeName : String) : TypeDecl where
  name := typeName
  shape := .synonym (.ofPath f.latest.name [typeName])
  params := []
  fields := []
  constructors := []
  attributes := []
  location := f.location

/-- The module that names the latest version. -/
def latestModule : ModuleDecl where
  name := c.latestName
  types := f.typeNames.map f.latestAlias
  values := []
  modules := []
  attributes := []
  codec := none
  aliasOf := some f.latest.name
  functor := none
  functorArguments := []
  location := f.location

/-- An operation of the dispatcher. -/
def operation (name : String) (parameter result : TypeExpr) : ValueDecl :=
  ⟨name, [parameter], result, [], f.location⟩

/-- The encoder and the decoder of a versioned type. -/
def operationsOf (typeName : String) : List ValueDecl :=
  let latest := TypeExpr.ofPath c.latestName [typeName]
  let names := c.operationNames typeName
  [f.operation names.1 latest bufferType,
    f.operation names.2 bufferType ⟨.named "option" [], [latest], [], none⟩]

/-- The declarations generated for a family. -/
def synthesize : GeneratedFamily where
  family := f.name
  containerPath := f.containerPath
  latestVersion := f.latest.number
  latestModule := f.latestModule c
  operations := f.typeNames.flatMap (f.operationsOf c)
  decodeOrder := f.decodeOrder.map Int.ofNat

/-- The declarations generated for a family of any origin: no alias can be made for a type whose
name is empty, which no family that was built from a unit has. -/
def generate : Checked GeneratedFamily :=
  if f.typeNames.contains "" then Checked.under (.field "name") (Checked.refuse .emptyText)
  else .accepted (f.synthesize c)

variable {f c}

theorem generate_eq_accepted_iff {g : GeneratedFamily} :
    f.generate c = .accepted g ↔ "" ∉ f.typeNames ∧ f.synthesize c = g := by
  rw [generate]
  by_cases h : "" ∈ f.typeNames <;> simp [h, Checked.refuse, Checked.under]

end Family

end SchemaVersioning
