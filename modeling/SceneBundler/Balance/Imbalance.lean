import SceneBundler.Source.Bracket
import SceneBundler.Source.Mask
import SceneBundler.Source.Position
import SceneBundler.Source.Tag

/-!
Contract: what is unbalanced in a source.

Owns:
- the excess of openers over closers of one kind, where a closer that comes too early counts even if
  the totals agree;
- the description of every unbalanced kind of bracket and every tag without a partner.

Does not own: repairs.
-/

namespace SceneBundler.Balance

open Source (BracketKind Tag)

/-- The openers less the closers of a kind in a text, and the least such difference of any beginning
of the text, from the differences before it. -/
def tally (kind : BracketKind) (net lowest : Int) : Text -> Int × Int
  | [] => (net, lowest)
  | c :: rest =>
      if c = kind.opener then tally kind (net + 1) lowest rest
      else if c = kind.closer then tally kind (net - 1) (min lowest (net - 1)) rest
      else tally kind net lowest rest

/-- By how much a kind of bracket is off: the difference of openers and closers, or else by how much
closers came too early. -/
def excess (kind : BracketKind) (masked : Text) : Int :=
  let (net, lowest) := tally kind 0 0 masked
  if net ≠ 0 then net else lowest

/-- An integer with its sign, a plus sign included. -/
def signedText (value : Int) : Text :=
  if value < 0 then Text.ofInt value else '+' :: Text.ofInt value

/-- The description of a kind of bracket that is off. -/
def bracketProblem? (masked : Text) (kind : BracketKind) : Option Text :=
  let off := excess kind masked
  if off = 0 then none
  else some ([kind.opener, kind.closer] ++ " off by ".toList ++ signedText off)

/-- The description of a tag without a partner. -/
def tagProblem (masked : Text) (tag : Tag) : Text :=
  let lead := if tag.kind = .closing then ['<', '/'] else ['<']
  "unpaired ".toList ++ lead ++ tag.name ++ "> on line ".toList ++
    Text.ofNat (Source.lineNumberAt masked tag.start)

/-- Everything that is unbalanced in a masked source. -/
def problems (masked : Text) : List Text :=
  BracketKind.all.filterMap (bracketProblem? masked) ++
    (Tag.unbalanced (Tag.scan masked)).map (tagProblem masked)

/-- The description of everything that is unbalanced in a source; empty when nothing is. -/
def describe (text : Text) : Text :=
  Text.join ", ".toList (problems (Source.mask text))

end SceneBundler.Balance
