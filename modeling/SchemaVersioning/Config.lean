import SchemaVersioning.Family

/-!
# Conventions

The names that the compiler goes by and the types that it takes for granted.
-/

namespace SchemaVersioning

/-- Naming conventions and built-in types. -/
structure Config where
  containerName : String
  latestName : String
  versionedTypeName : String
  upgradeFunctionName : String
  testModuleName : String
  rpcQueryType : String
  rpcResponseType : String
  builtinTypes : NameSet
  builtinTypeConstructors : NameSet
  builtinModulePrefixes : List String

namespace Config

/-- The conventional names. -/
def standard : Config where
  containerName := "Stable"
  latestName := "Latest"
  versionedTypeName := "t"
  upgradeFunctionName := "to_latest"
  testModuleName := "Tests"
  rpcQueryType := "query"
  rpcResponseType := "response"
  builtinTypes := .ofList
    ["unit", "bool", "char", "int", "int32", "int64", "float", "string", "bytes", "bigint"]
  builtinTypeConstructors := .ofList ["option", "list", "array"]
  builtinModulePrefixes := []

/-- The types that every version of a family of a kind declares. -/
def versionedTypeNames (c : Config) : FamilyKind → List String
  | .type => [c.versionedTypeName]
  | .rpc => [c.rpcQueryType, c.rpcResponseType]

/-- The name of the upgrade function of a versioned type. -/
def upgradeName (c : Config) (typeName : String) : String :=
  if typeName = c.versionedTypeName then c.upgradeFunctionName
  else typeName ++ "_" ++ c.upgradeFunctionName

/-- The names of the operations generated for a versioned type: encoder and decoder. -/
def operationNames (c : Config) (typeName : String) : String × String :=
  if typeName = c.versionedTypeName then ("serialize", "deserialize_opt")
  else ("serialize_" ++ typeName, "deserialize_" ++ typeName ++ "_opt")

/-- Whether a path names a type that is taken for granted. -/
def isBuiltin (c : Config) : Path → Bool
  | [] => false
  | [name] => c.builtinTypes.contains name || c.builtinTypeConstructors.contains name
  | first :: _ => c.builtinModulePrefixes.contains first

/-- Whether a module is a test declaration. -/
def isTest (c : Config) (m : ModuleDecl) : Bool :=
  m.name = c.testModuleName || m.hasAttribute testAttribute

end Config

end SchemaVersioning
