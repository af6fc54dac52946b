import SchemaVersioning.Family.Build

/-!
# Interrupted builds

Some declarations can neither be built nor reported: a version whose number has too many digits to
be read, and a problem of a family that has no name.  The first of these that a build meets ends
it.
-/

namespace SchemaVersioning

/-- What ends the work on declarations without a result: a version whose number has too many digits
to be read, another number with too many digits to be told, and a field that must not be empty. -/
inductive Interruption where
  | overlongVersion (digits : Nat)
  | overlongNumeral
  | emptyText (field : String)
deriving DecidableEq, Repr

namespace FamilyDeclaration

variable (d : FamilyDeclaration) (c : Config)

/-- The interruption by reporting something about the family. -/
def reportInterruption? : Option Interruption :=
  if d.name = "" then some (.emptyText "subject") else none

/-- The interruption by sorting a member of the container. -/
def memberInterruption? (m : ModuleDecl) : Option Interruption :=
  match overlongVersion? m.name with
  | some digits => some (.overlongVersion digits)
  | none => if member c m = .unexpected then d.reportInterruption? else none

/-- The interruption by checking a hand-written alias of the latest version. -/
def latestInterruption? : Option Interruption :=
  match d.latestModule? c with
  | none => none
  | some m =>
    let target := (m.aliasOf.bind fun target => (Path.ofDotted target).getLast?).toList
    let names := m.types.flatMap (fun t => (t.alias?.map (·.path)).getD []) ++ target
    match names.findSome? SchemaVersioning.overlongVersion? with
    | some digits => some (.overlongVersion digits)
    | none => if d.latestFindings c = [] then none else d.reportInterruption?

/-- The interruption by asking which version an upgrade function of a version leads to. -/
def upgradeInterruption? (number : Nat) (m : ModuleDecl) (typeName : String) :
    Option Interruption :=
  match upgradeValue? c m typeName with
  | none => none
  | some value =>
    match d.upgradeFault? c number typeName (some value) with
    | some (.chained _ _) => value.returns.path.overlongVersion?.map .overlongVersion
    | _ => none

/-- The interruption by checking a version. -/
def versionInterruption? (number : Nat) (m : ModuleDecl) : Option Interruption :=
  if number = d.highest c then none
  else (d.typeNames c).findSome? (d.upgradeInterruption? c number m)

/-- The interruption by asking for the companion test. -/
def testInterruption? : Option Interruption :=
  if d.testFindings c = [] then none else d.reportInterruption?

/-- The interruption by making the family of a container without problems. -/
def familyInterruption? : Option Interruption :=
  if d.findings c = [] ∧ d.name = "" then some (.emptyText "name") else none

/-- The first interruption of a build. -/
def interruption? : Option Interruption :=
  (d.container.modules.findSome? (d.memberInterruption? c)).or <|
    if d.numbers c = List.range' 1 (d.numbers c).length ∧ d.numbers c ≠ [] then
      (d.latestInterruption? c).or <|
      ((d.orderedVersions c).findSome? fun (number, m) => d.versionInterruption? c number m).or <|
      (d.testInterruption? c).or (d.familyInterruption? c)
    else d.reportInterruption?

end FamilyDeclaration

end SchemaVersioning
