import SceneBundler.Balance.Repair
import SceneBundler.Catalog.Packaged
import SceneBundler.Dialect.Erasure
import SceneBundler.Entry.Synthesis
import SceneBundler.Imports.Resolution
import SceneBundler.Outcome

/-!
Contract: a run over the transform stages.

Owns: what each stage does to the outcome of the stages before it, and the order of the stages.

Does not own: what follows from blocking findings.
-/

namespace SceneBundler

/-- The outcome after one more stage. -/
def Stage.run (catalog : Catalog) (outcome : Outcome) : Stage -> Outcome
  | normalize =>
      let (text, found) := Dialect.normalize outcome.text
      outcome.advance text found none
  | repair =>
      let (text, found) := Balance.repair outcome.text
      outcome.advance text found none
  | resolve =>
      let resolved := Imports.resolve catalog outcome.text
      outcome.advance resolved.text resolved.diagnostics (some resolved.manifest)
  | entry =>
      let (text, found) := Entry.synthesize catalog outcome.text
      outcome.advance text found none

/-- Every stage in order. -/
def Stage.all : List Stage :=
  [normalize, repair, resolve, entry]

namespace Outcome

/-- The outcome of a source after some stages. -/
def ofStages (catalog : Catalog) (stages : List Stage) (text : Text) : Outcome :=
  stages.foldl (Stage.run catalog) (initial text)

/-- The outcome of a source after all stages. -/
def ofSource (framework : Framework) (text : Text) : Outcome :=
  ofStages (Catalog.packaged framework) Stage.all text

end Outcome

end SceneBundler
