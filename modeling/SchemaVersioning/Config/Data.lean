import SchemaVersioning.Config
import SchemaVersioning.Reading.Object

/-!
# Conventions as data

Reading and writing the conventions.  Sets are written in ascending order.
-/

namespace SchemaVersioning.Config

open Reading Checked

/-- Reads conventions; a field that is absent has its conventional value. -/
def read (v : Value) : Checked Config :=
  model "CompilerConfig" v fun entries _ =>
    onlyFields
      ["container_name", "latest_name", "versioned_type_name", "upgrade_function_name",
        "test_module_name", "rpc_query_type", "rpc_response_type", "builtin_types",
        "builtin_type_constructors", "builtin_module_prefixes"]
      entries <|
      (Config.mk · · · · · · · · · ·)
        <$> optional entries "container_name" standard.containerName (fun v _ => nonEmptyText v)
        <*> optional entries "latest_name" standard.latestName (fun v _ => nonEmptyText v)
        <*> optional entries "versioned_type_name" standard.versionedTypeName
          (fun v _ => nonEmptyText v)
        <*> optional entries "upgrade_function_name" standard.upgradeFunctionName
          (fun v _ => nonEmptyText v)
        <*> optional entries "test_module_name" standard.testModuleName (fun v _ => nonEmptyText v)
        <*> optional entries "rpc_query_type" standard.rpcQueryType (fun v _ => nonEmptyText v)
        <*> optional entries "rpc_response_type" standard.rpcResponseType
          (fun v _ => nonEmptyText v)
        <*> optional entries "builtin_types" standard.builtinTypes
          (fun v _ => (textSet v).map NameSet.ofList)
        <*> optional entries "builtin_type_constructors" standard.builtinTypeConstructors
          (fun v _ => (textSet v).map NameSet.ofList)
        <*> optional entries "builtin_module_prefixes" standard.builtinModulePrefixes
          (fun v _ => textTuple v)

/-- Conventions as data. -/
def toValue (c : Config) : Value :=
  .record [("container_name", .text c.containerName), ("latest_name", .text c.latestName),
    ("versioned_type_name", .text c.versionedTypeName),
    ("upgrade_function_name", .text c.upgradeFunctionName),
    ("test_module_name", .text c.testModuleName), ("rpc_query_type", .text c.rpcQueryType),
    ("rpc_response_type", .text c.rpcResponseType),
    ("builtin_types", .texts c.builtinTypes.names),
    ("builtin_type_constructors", .texts c.builtinTypeConstructors.names),
    ("builtin_module_prefixes", .texts c.builtinModulePrefixes)]

end SchemaVersioning.Config
