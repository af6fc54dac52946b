import SchemaVersioning.Reference.Index

/-!
# Resolution

A path is looked up in the scope where it is written, then in each scope around it.  Aliases of
types and of modules are followed from the scope where they are declared; an alias that is already
being followed is not followed again, so every resolution ends.
-/

namespace SchemaVersioning

/-- A scope and the scopes around it, innermost first. -/
def enclosingScopes (scope : Path) : List Path :=
  (List.range (scope.length + 1)).reverse.map scope.take

/-- The declaration that a path names in a scope. -/
def Table.lookup (table : Table) (p scope : Path) : Option Declared :=
  (enclosingScopes scope).findSome? fun s => table.find? (s ++ p)

theorem Table.mem_of_lookup {table : Table} {p scope : Path} {d : Declared}
    (h : table.lookup p scope = some d) : d ∈ table := by
  obtain ⟨s, _, hs⟩ := List.exists_of_findSome?_eq_some h
  exact List.mem_of_find?_eq_some hs

namespace Declared

/-- What a declaration itself stands for. -/
def resolution (d : Declared) : Resolution := ⟨d.standing, d.path⟩

/-- The path that a plain alias stands for. -/
def plainTarget? (d : Declared) : Option Path :=
  match d.standing, d.alias? with
  | .plain, some e => if e.path.isEmpty then none else some e.path
  | _, _ => none

end Declared

/-- What a path that is declared nowhere looks like: a container followed by a version or by the
alias of the latest one. -/
def Config.standingByShape (c : Config) : Path → Path → Standing
  | before, a :: b :: rest =>
    let family := if Path.dotted before = "" then c.containerName else Path.dotted before
    if a ≠ c.containerName then c.standingByShape (before ++ [a]) (b :: rest)
    else
      match overlongVersion? b, versionNumber? b with
      | some digits, _ => .overlong digits
      | none, some number => .version family number
      | none, none =>
        if b = c.latestName then .latest family
        else c.standingByShape (before ++ [a]) (b :: rest)
  | _, _ => .unknown

namespace Index

variable (index : Index)

/-- The declarations that can be followed and are not being followed yet. -/
def unvisited (visiting : List Path) : List Declared :=
  (index.types ++ index.moduleAliases).filter fun d => !visiting.contains d.path

theorem length_unvisited_cons_lt {visiting : List Path} {d : Declared}
    (hd : d ∈ index.types ∨ d ∈ index.moduleAliases) (hv : d.path ∉ visiting) :
    (index.unvisited (d.path :: visiting)).length < (index.unvisited visiting).length := by
  have h : index.unvisited (d.path :: visiting)
      = (index.unvisited visiting).filter fun e => e.path ≠ d.path := by
    simp only [unvisited, List.filter_filter]
    congr 1
    funext e
    by_cases he : e.path = d.path <;> simp [he]
  rw [h]
  refine List.length_filter_lt_length_iff_exists.2 ⟨d, ?_, by simp⟩
  simpa [unvisited, hv] using hd

/-- The longest part at the front of a path that is a module alias not being followed, with what
follows it in the path. -/
def aliasStep? (isModule : Bool) (p scope : Path) (visiting : List Path) :
    Option (Declared × Path × Path) :=
  let longest := if isModule then p.length else p.length - 1
  (List.range' 1 longest).reverse.findSome? fun i =>
    match index.moduleAliases.lookup (p.take i) scope with
    | none => none
    | some d =>
      match d.alias? with
      | none => none
      | some e => if visiting.contains d.path then none else some (d, e.path, p.drop i)

theorem mem_of_aliasStep? {isModule : Bool} {p scope target rest : Path} {visiting : List Path}
    {d : Declared} (h : index.aliasStep? isModule p scope visiting = some (d, target, rest)) :
    d ∈ index.moduleAliases ∧ d.path ∉ visiting := by
  obtain ⟨i, _, hi⟩ := List.exists_of_findSome?_eq_some h
  split at hi
  · simp at hi
  · next e he =>
    split at hi
    · simp at hi
    · split at hi
      · simp at hi
      · next hv =>
        obtain ⟨rfl, _⟩ : e = d ∧ _ := by simpa using hi
        exact ⟨Table.mem_of_lookup he, by simpa using hv⟩

set_option linter.unusedVariables false in
/-- What a path names in a scope, while some aliases are being followed. -/
def resolvePath (isModule : Bool) (p scope : Path) (visiting : List Path) : Resolution :=
  if !isModule && index.config.isBuiltin p then ⟨.builtin, p⟩
  else
    match h : (if isModule then index.modules else index.types).lookup p scope with
    | some d =>
      match d.plainTarget? with
      | none => d.resolution
      | some target =>
        if hv : isModule = true ∨ d.path ∈ visiting then d.resolution
        else
          let resolution := resolvePath false target d.scope (d.path :: visiting)
          if resolution.standing.isLatest || resolution.standing.overlong?.isSome then resolution
          else d.resolution
    | none =>
      match ha : index.aliasStep? isModule p scope visiting with
      | some (d, target, rest) => resolvePath isModule (target ++ rest) d.scope (d.path :: visiting)
      | none => ⟨index.config.standingByShape [] p, p⟩
termination_by (index.unvisited visiting).length
decreasing_by
  · refine index.length_unvisited_cons_lt (Or.inl ?_) (fun hm => hv (Or.inr hm))
    have hm : isModule = false := by simpa using fun hm => hv (Or.inl hm)
    subst hm
    exact Table.mem_of_lookup h
  · obtain ⟨hm, hv⟩ := index.mem_of_aliasStep? ha
    exact index.length_unvisited_cons_lt (Or.inr hm) hv

def resolve (r : Reference) : Resolution := index.resolvePath r.isModule r.path r.scope []

end Index

end SchemaVersioning
