import SceneBundler.Text.Basic

/-!
Contract: manifests of imports.

Owns: identifiers by module, both without repetition and in order, and no module without
identifiers.

Does not own: how an identifier is imported.
-/

namespace SceneBundler

/-- The identifiers that a program imports from each module: modules in order, each with at least one
identifier, and its identifiers in order. -/
structure Manifest where
  modules : List (Text × List Text)
deriving DecidableEq, Repr

namespace Manifest

/-- The identifiers given for a module. -/
def gathered (pairs : List (Text × List Text)) (module : Text) : List Text :=
  Text.sortedSet ((pairs.filter (·.1 == module)).flatMap (·.2))

/-- The manifest of the identifiers given for each module; what is given for one module several times
is put together. -/
def ofPairs (pairs : List (Text × List Text)) : Manifest :=
  let modules := Text.sortedSet (pairs.map (·.1))
  ⟨(modules.map fun module => (module, gathered pairs module)).filter fun entry =>
    !entry.2.isEmpty⟩

/-- The modules in order. -/
def moduleNames (manifest : Manifest) : List Text :=
  manifest.modules.map (·.1)

/-- Every identifier in order. -/
def identifiers (manifest : Manifest) : List Text :=
  Text.sortedSet (manifest.modules.flatMap (·.2))

/-- Whether nothing is imported. -/
def isEmpty (manifest : Manifest) : Bool :=
  manifest.modules.isEmpty

end Manifest

end SceneBundler
