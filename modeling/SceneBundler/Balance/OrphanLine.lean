import SceneBundler.Balance.Imbalance
import SceneBundler.Diagnostic

/-!
Contract: lines of closing brackets that nothing opened.

Owns:
- the lines that hold closers only;
- the removal of such a line after a finished statement when it would close more than is open;
- the removal of such lines at the end while closers are in excess.

Does not own: tags.
-/

namespace SceneBundler.Balance

open Source (BracketKind)

/-- The openers less the closers of each kind. -/
structure Excess where
  round : Int
  square : Int
  curly : Int
deriving DecidableEq, Repr

namespace Excess

/-- No bracket of any kind. -/
def none : Excess :=
  ⟨0, 0, 0⟩

/-- The difference of openers and closers of one kind in a text. -/
def ofKind (kind : BracketKind) (line : Text) : Int :=
  (line.count kind.opener : Int) - (line.count kind.closer : Int)

/-- The differences in a text. -/
def ofText (line : Text) : Excess :=
  ⟨ofKind .round line, ofKind .square line, ofKind .curly line⟩

/-- The differences of two texts together. -/
def add (first second : Excess) : Excess :=
  ⟨first.round + second.round, first.square + second.square, first.curly + second.curly⟩

/-- The differences of a text without a part of it. -/
def sub (whole part : Excess) : Excess :=
  ⟨whole.round - part.round, whole.square - part.square, whole.curly - part.curly⟩

/-- Whether some kind has more closers than openers. -/
def isShort (excess : Excess) : Bool :=
  excess.round < 0 || excess.square < 0 || excess.curly < 0

/-- Whether some kind is smaller than in another. -/
def isBelow (first second : Excess) : Bool :=
  first.round < second.round || first.square < second.square || first.curly < second.curly

end Excess

/-- A line of a source, counted from zero, with its masked view. -/
structure Line where
  number : Nat
  masked : Text
  text : Text
deriving DecidableEq, Repr

namespace Line

/-- The lines of a source. -/
def ofSource (text : Text) : List Line :=
  let rows := (Text.split '\n' (Source.mask text)).zip (Text.split '\n' text)
  rows.zipIdx.map fun (row, number) => ⟨number, row.1, row.2⟩

/-- Whether a line shows only blanks. -/
def isBlank (line : Line) : Bool :=
  Text.isBlank line.masked

/-- Whether a line shows only blanks, at least one closer, and a final semicolon if any. -/
def isCloserOnly (line : Line) : Bool :=
  match Text.trimStart line.masked with
  | [] => false
  | c :: rest =>
      let after := rest.dropWhile fun d => Character.isBlank d || Source.isCloser d
      Source.isCloser c &&
        Text.isBlank (if after.head? = some ';' then after.tail else after)

/-- Whether the last visible character of a line ends a statement. -/
def endsStatement (line : Line) : Bool :=
  Text.endsWith (Text.trimEnd line.masked) [';']

/-- The bracket differences of a line. -/
def excess (line : Line) : Excess :=
  Excess.ofText line.masked

end Line

/-- Lines that stay and lines that go, both latest first, and the bracket differences of those that
stay. -/
structure Sweep where
  excess : Excess
  afterStatement : Bool
  kept : List Line
  removed : List Line

namespace Sweep

/-- Before the first line. -/
def initial : Sweep :=
  ⟨Excess.none, false, [], []⟩

/-- Whether a line is an orphan where a sweep has got to: closers only, after a finished statement,
and more of them than are open. -/
def finds (sweep : Sweep) (line : Line) : Bool :=
  line.isCloserOnly && (sweep.excess.add line.excess).isShort && sweep.afterStatement

/-- One line further. -/
def step (sweep : Sweep) (line : Line) : Sweep :=
  if sweep.finds line then { sweep with removed := line :: sweep.removed }
  else
    { excess := sweep.excess.add line.excess
      afterStatement := if line.isBlank then sweep.afterStatement else line.endsStatement
      kept := line :: sweep.kept
      removed := sweep.removed }

/-- The sweep over all lines. -/
def ofLines (lines : List Line) : Sweep :=
  lines.foldl step initial

end Sweep

/-- The lines that stay and those that go, latest first, when lines of closers are taken away from
the end while closers are in excess.  No line is taken that closes more than is in excess. -/
def trimTrailing (excess : Excess) : List Line -> List Line × List Line
  | [] => ([], [])
  | line :: earlier =>
      if !excess.isShort then (line :: earlier, [])
      else if line.isBlank then
        let (kept, removed) := trimTrailing excess earlier
        (line :: kept, removed)
      else if !line.isCloserOnly || line.excess.isBelow excess then (line :: earlier, [])
      else
        let (kept, removed) := trimTrailing (excess.sub line.excess) earlier
        (kept, line :: removed)

/-- The report on a line that was removed. -/
def orphanRemoved (lead : String) (line : Line) : Diagnostic :=
  .warning .repair "orphan_closer_removed"
    (lead.toList ++ Diagnostic.named (Text.trim line.masked) ++ ['.']) (some (line.number + 1))

/-- A source without its orphan lines, and a report on each. -/
def removeOrphanLines (text : Text) : Text × List Diagnostic :=
  let sweep := Sweep.ofLines (Line.ofSource text)
  let (kept, trailing) := trimTrailing sweep.excess sweep.kept
  (Text.join ['\n'] (kept.reverse.map (·.text)),
    sweep.removed.reverse.map (orphanRemoved "Removed orphaned ") ++
      trailing.reverse.map (orphanRemoved "Removed trailing orphaned "))

end SceneBundler.Balance
