/-!
# Declarations

The tree of declarations that a front end hands over: modules with types, values and nested
modules.  A type expression names a type by a path or is a type variable; a type definition is an
alias of an expression or has a shape of its own; a functor describes at most as many of its
parameters as it takes.
-/

namespace SchemaVersioning

/-- A position in a source text; line and column are zero when unknown. -/
structure Location where
  file : String
  line : Nat
  column : Nat
deriving DecidableEq, Repr, Inhabited

def Location.text (l : Location) : String := s!"{l.file}:{l.line}:{l.column}"

/-- A qualified name, outermost component first. -/
abbrev Path := List String

def Path.dotted (p : Path) : String := ".".intercalate p

/-! ## Attributes -/

/-- The attribute that frees a type from the stability rule. -/
def unversionedAttribute : String := "unversioned"

def testAttribute : String := "test"

/-! ## Type expressions -/

/-- What a type expression applies: a named type or a type variable. -/
inductive Head where
  | named (first : String) (rest : List String)
  | var (name : String)
deriving DecidableEq, Repr, Inhabited

/-- The path of a named head, nothing for a variable. -/
def Head.path : Head → Path
  | named first rest => first :: rest
  | var _ => []

/-- A dotted name, or a quote and the name of a variable. -/
def Head.dotted : Head → String
  | named first rest => Path.dotted (first :: rest)
  | var name => "'" ++ name

/-- The components of a dotted name; the empty name has one empty component. -/
def splitDots : List Char → List Char → String × List String
  | component, [] => (String.ofList component.reverse, [])
  | component, c :: rest =>
    if c = '.' then
      let (first, more) := splitDots [] rest
      (String.ofList component.reverse, first :: more)
    else splitDots (c :: component) rest

/-- The head that a dotted name denotes. -/
def Head.ofDotted (s : String) : Head :=
  let (first, rest) := splitDots [] s.toList
  .named first rest

def Path.ofDotted (s : String) : Path := (Head.ofDotted s).path

/-- A use of a type. -/
structure TypeExpr where
  head : Head
  args : List TypeExpr
  attributes : List String
  location : Option Location
deriving Inhabited

namespace TypeExpr

def path (e : TypeExpr) : Path := e.head.path

def dotted (e : TypeExpr) : String := e.head.dotted

/-- An expression without arguments, attributes and location. -/
def ofHead (head : Head) : TypeExpr := ⟨head, [], [], none⟩

def ofPath (first : String) (rest : List String) : TypeExpr := ofHead (.named first rest)

/-- A dotted name applied to arguments. -/
def of (dotted : String) (args : List TypeExpr) : TypeExpr := ⟨.ofDotted dotted, args, [], none⟩

mutual

/-- The expression and all its arguments, depth first. -/
def walk : TypeExpr → List TypeExpr
  | ⟨head, args, attributes, location⟩ => ⟨head, args, attributes, location⟩ :: walkAll args

/-- The expressions and all their arguments, depth first. -/
def walkAll : List TypeExpr → List TypeExpr
  | [] => []
  | e :: rest => walk e ++ walkAll rest

end

mutual

/-- The expression in postfix form: `int list`, `(string, int) map`. -/
def text : TypeExpr → String
  | ⟨head, [], _, _⟩ => head.dotted
  | ⟨head, [arg], _, _⟩ => text arg ++ " " ++ head.dotted
  | ⟨head, args, _, _⟩ => "(" ++ ", ".intercalate (textAll args) ++ ") " ++ head.dotted

/-- The expressions in postfix form. -/
def textAll : List TypeExpr → List String
  | [] => []
  | e :: rest => text e :: textAll rest

end

end TypeExpr

/-! ## Types and values -/

/-- The kinds of definitions. -/
inductive TypeKind where
  | synonym
  | record
  | variant
  | abstract
deriving DecidableEq, Repr

namespace TypeKind

/-- The name of a kind. -/
def name : TypeKind → String
  | synonym => "alias"
  | record => "record"
  | variant => "variant"
  | abstract => "abstract"

def all : List TypeKind := [synonym, record, variant, abstract]

end TypeKind

/-- How a type is defined: an alias of an expression, or a definition of its own. -/
inductive TypeShape where
  | synonym (target : TypeExpr)
  | record
  | variant
  | abstract
deriving Inhabited

/-- The aliased expression of an alias. -/
def TypeShape.alias? : TypeShape → Option TypeExpr
  | synonym target => some target
  | _ => none

/-- The kind of a definition. -/
def TypeShape.kind : TypeShape → TypeKind
  | synonym _ => .synonym
  | record => .record
  | variant => .variant
  | abstract => .abstract

/-- A field of a record. -/
structure RecordField where
  name : String
  type : TypeExpr
deriving Inhabited

/-- A constructor of a variant. -/
structure Constructor where
  name : String
  args : List TypeExpr
deriving Inhabited

/-- A type definition. -/
structure TypeDecl where
  name : String
  shape : TypeShape
  params : List String
  fields : List RecordField
  constructors : List Constructor
  attributes : List String
  location : Option Location
deriving Inhabited

def TypeDecl.alias? (t : TypeDecl) : Option TypeExpr := t.shape.alias?

/-- The outermost expressions of a definition. -/
def TypeDecl.typeExprs (t : TypeDecl) : List TypeExpr :=
  t.alias?.toList ++ t.fields.map (·.type) ++ t.constructors.flatMap (·.args)

def TypeDecl.isUnversioned (t : TypeDecl) : Bool := t.attributes.contains unversionedAttribute

/-- The signature of a value or a function. -/
structure ValueDecl where
  name : String
  params : List TypeExpr
  returns : TypeExpr
  attributes : List String
  location : Option Location
deriving Inhabited

def ValueDecl.typeExprs (v : ValueDecl) : List TypeExpr := v.params ++ [v.returns]

/-- The parameters and the result with arrows between them. -/
def ValueDecl.signature (v : ValueDecl) : String :=
  " -> ".intercalate (v.typeExprs.map TypeExpr.text)

/-! ## Codecs and functors -/

/-- How the codec of a version is obtained. -/
structure CodecRef where
  adapter : String
  wraps : Option TypeExpr
  location : Option Location
deriving Inhabited

def CodecRef.derived : CodecRef := ⟨"derived", none, none⟩

/-- A parameter of a functor with the items it must supply. -/
structure FunctorParameter where
  name : String
  types : List TypeDecl
  values : List ValueDecl
deriving Inhabited

/-- The header of a functor. -/
structure FunctorHeader where
  arity : Nat
  parameters : List FunctorParameter
  parameters_le : parameters.length ≤ arity

/-! ## Modules -/

/-- A module: a structure, an alias of another module, or the body of a functor. -/
structure ModuleDecl where
  name : String
  types : List TypeDecl
  values : List ValueDecl
  modules : List ModuleDecl
  attributes : List String
  codec : Option CodecRef
  aliasOf : Option String
  functor : Option FunctorHeader
  functorArguments : List String
  location : Option Location
deriving Inhabited

namespace ModuleDecl

def arity? (m : ModuleDecl) : Option Nat := m.functor.map (·.arity)

/-- The described parameters of a functor body. -/
def functorParameters (m : ModuleDecl) : List FunctorParameter :=
  match m.functor with
  | none => []
  | some f => f.parameters

def hasAttribute (m : ModuleDecl) (name : String) : Bool := m.attributes.contains name

def findType? (m : ModuleDecl) (name : String) : Option TypeDecl := m.types.find? (·.name = name)

def findValue? (m : ModuleDecl) (name : String) : Option ValueDecl := m.values.find? (·.name = name)

/-- The first nested module of a name. -/
def findModule? (m : ModuleDecl) (name : String) : Option ModuleDecl :=
  m.modules.find? (·.name = name)

end ModuleDecl

/-- The root of the tree. -/
structure CompilationUnit where
  name : String
  modules : List ModuleDecl
deriving Inhabited

end SchemaVersioning
