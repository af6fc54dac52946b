import SchemaVersioning.Declaration.Data
import SchemaVersioning.Declaration.Reading
import SchemaVersioning.Display
import SchemaVersioning.Family

/-!
# Families as data

Reading and writing versions and families.  A family is read only if its versions are numbered from
one without gaps.
-/

namespace SchemaVersioning

open Reading Checked

/-! ## Reading -/

/-- Reads the kind of a family. -/
def FamilyKind.read (v : Value) : Checked FamilyKind :=
  choice ([type, rpc].map fun k => (k.name, k)) v

/-- Reads the codec strategy of a family. -/
def CodecStrategy.read (v : Value) : Checked CodecStrategy :=
  choice ([plain, asserted, binable].map fun s => (s.name, s)) v

/-- The codec strategy of a name. -/
def CodecStrategy.named (v : Value) : Except Failure CodecStrategy := do
  match (CodecStrategy.read v) with
  | .accepted s => .ok s
  | .rejected _ =>
    let shown ← Display.inner v
    .error (.value (String.ofList shown ++ " is not a valid VersionVariant"))

/-- Reads an upgrade function. -/
def UpgradeFunction.read (v : Value) : Checked UpgradeFunction :=
  model "UpgradeFunction" v fun entries _ =>
    onlyFields ["name", "type_name", "parameter", "returns", "location"] entries <|
      (UpgradeFunction.mk · · · · ·)
        <$> required entries "name" (fun v _ => nonEmptyText v)
        <*> required entries "type_name" (fun v _ => nonEmptyText v)
        <*> required entries "parameter" (fun v _ => TypeExpr.readPart .outermost v)
        <*> required entries "returns" (fun v _ => TypeExpr.readPart .outermost v)
        <*> Location.readField .outermost entries

/-- Reads a companion test. -/
def TestObligation.read (v : Value) : Checked TestObligation :=
  model "TestObligation" v fun entries _ =>
    onlyFields ["module_path", "location"] entries <|
      (TestObligation.mk · ·)
        <$> required entries "module_path" (fun v _ => atLeast 1 (textTuple v))
        <*> Location.readField .outermost entries

/-- Reads a version. -/
def SchemaVersion.read (v : Value) : Checked SchemaVersion :=
  model "SchemaVersion" v fun entries _ =>
    onlyFields
      ["number", "module_path", "types", "codec", "upgrades", "adapters", "location"] entries <|
      (SchemaVersion.mk · · · · · · ·)
        <$> required entries "number" (fun v _ => natFrom 1 v)
        <*> required entries "module_path" (fun v _ => atLeast 1 (textTuple v))
        <*> required entries "types" (fun v _ => atLeast 1 (TypeDecl.readTuple .outermost v))
        <*> optional entries "codec" .derived (fun v _ => CodecRef.read .outermost v)
        <*> optional entries "upgrades" [] (fun v _ => dictionary UpgradeFunction.read v)
        <*> optional entries "adapters" [] (fun v _ => dictionary (ValueDecl.read .outermost) v)
        <*> Location.readField .outermost entries

/-- Reads the parts of a family. -/
def FamilyParts.read (entries : Entries) : Checked FamilyParts :=
  (FamilyParts.mk · · · · · · · · · ·)
    <$> required entries "name" (fun v _ => nonEmptyText v)
    <*> required entries "container_path" (fun v _ => atLeast 1 (textTuple v))
    <*> optional entries "kind" .type (fun v _ => FamilyKind.read v)
    <*> optional entries "variant" .plain (fun v _ => CodecStrategy.read v)
    <*> optional entries "type_names" ["t"] (fun v _ => atLeast 1 (textTuple v))
    <*> required entries "versions" (fun v _ => tupleOf v fun item _ => SchemaVersion.read item)
    <*> optional entries "test_obligation" none (fun v _ => nullable TestObligation.read v)
    <*> optional entries "functor_arities" [] (fun v _ => tupleOf v fun item _ => integer item)
    <*> optional entries "in_test" false (fun v _ => boolean v)
    <*> Location.readField .outermost entries

/-- Reads a family. -/
def Family.read (v : Value) : Checked Family :=
  model "SchemaFamily" v fun entries _ =>
    let parts := onlyFields
      ["name", "container_path", "kind", "variant", "type_names", "versions", "test_obligation",
        "functor_arities", "in_test", "location"]
      entries (FamilyParts.read entries)
    parts.andThen fun parts =>
      match Family.ofParts parts with
      | .ok f => accepted f
      | .error fault => refuse (.refused (fault.message parts.name))

/-! ## Writing -/

/-- An upgrade function as data. -/
def UpgradeFunction.toValue (u : UpgradeFunction) : Value :=
  .record [("name", .text u.name), ("type_name", .text u.typeName),
    ("parameter", u.parameter.toValue), ("returns", u.returns.toValue),
    ("location", Location.toField u.location)]

/-- A companion test as data. -/
def TestObligation.toValue (t : TestObligation) : Value :=
  .record [("module_path", .texts t.modulePath), ("location", Location.toField t.location)]

/-- A version as data. -/
def SchemaVersion.toValue (v : SchemaVersion) : Value :=
  .record [("number", .nat v.number), ("module_path", .texts v.modulePath),
    ("types", .list (v.types.map (·.toValue))), ("codec", v.codec.toValue),
    ("upgrades", .record (v.upgrades.map fun (name, u) => (name, u.toValue))),
    ("adapters", .record (v.adapters.map fun (name, a) => (name, a.toValue))),
    ("location", Location.toField v.location)]

/-- A family as data. -/
def FamilyParts.toValue (f : FamilyParts) : Value :=
  .record [("name", .text f.name), ("container_path", .texts f.containerPath),
    ("kind", .text f.kind.name), ("variant", .text f.strategy.name),
    ("type_names", .texts f.typeNames), ("versions", .list (f.versions.map (·.toValue))),
    ("test_obligation", .ofOption TestObligation.toValue f.testObligation),
    ("functor_arities", .list (f.functorArities.map .int)), ("in_test", .bool f.inTest),
    ("location", Location.toField f.location)]

end SchemaVersioning
