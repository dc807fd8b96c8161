import SceneBundler.Text.Basic

/-!
Contract: the arguments of a command, sorted into options and others.

Owns:
- which arguments are options, by their full names or by the beginnings of them, with or without a
  value after an equals sign;
- which arguments that begin with a dash are no options all the same;
- the assignment of values to options.

Does not own: the commands and their options.
-/

namespace SceneBundler.CommandLine

/-- What an argument is for a command with some options. -/
inductive Argument where
  | other (text : Text)
  | option (name : Text) (value : Option Text)
  /-- An option of another command, or of none. -/
  | unknown
  /-- The beginning of several options. -/
  | ambiguous
  /-- The mark after which there are no options. -/
  | separator
deriving DecidableEq, Repr

/-- The short name of the option that asks for help. -/
def shortHelp : Text := "-h".toList

/-- The long name of the option that asks for help. -/
def longHelp : Text := "--help".toList

/-- An argument cut at its first equals sign: what is before it and, if there is one, what is after
it. -/
def cutAtEquals (argument : Text) : Text × Option Text :=
  let before := argument.takeWhile (· != '=')
  (before, (argument.drop before.length).tail?)

/-- A negative number: digits after a minus sign, or digits around a point of which those before it
may be missing; one line break may follow. -/
def isNegativeNumber (argument : Text) : Bool :=
  match argument with
  | '-' :: rest =>
      let number := if rest.getLast? == some '\n' then rest.dropLast else rest
      let fraction := (number.dropWhile Character.isDecimal)
      if fraction.isEmpty then !number.isEmpty
      else fraction.head? == some '.' && 1 < fraction.length &&
        (fraction.drop 1).all Character.isDecimal
  | _ => false

/-- The options that an argument can be the beginning of, with the value that it gives: a long name
may be cut short, and a short name may have its value attached. -/
def abbreviated (options : List Text) (argument : Text) : List (Text × Option Text) :=
  if "--".toList.isPrefixOf argument then
    let (name, value) := cutAtEquals argument
    (options.filter name.isPrefixOf).map fun option => (option, value)
  else
    (options.filter fun option => option == argument.take 2).map fun option =>
      (option, some (argument.drop 2))

/-- An argument that is no option: a dash makes it one that is not known, unless it is a negative
number or has a space. -/
def Argument.ofUnmatched (argument : Text) : Argument :=
  if isNegativeNumber argument || argument.contains ' ' then .other argument else .unknown

/-- What an argument is. -/
def Argument.ofText (options : List Text) (argument : Text) : Argument :=
  if argument = "--".toList then .separator
  else if argument.head? != some '-' || argument.length = 1 then .other argument
  else if options.contains argument then .option argument none
  else
    let (name, value) := cutAtEquals argument
    if value.isSome && options.contains name then .option name value
    else
      match abbreviated options argument with
      | [] => .ofUnmatched argument
      | [(name, value)] => .option name value
      | _ => .ambiguous

/-- The arguments of a command; behind the separator there are no options. -/
def Argument.sort (options : List Text) : List Text -> List Argument
  | [] => []
  | argument :: rest =>
      match Argument.ofText options argument with
      | .separator => .separator :: rest.map .other
      | sorted => sorted :: sort options rest

/-- Whether an option asks for help.  The short name may be repeated; no value can be given. -/
def asksForHelp (name : Text) (value : Option Text) : Bool :=
  match value with
  | none => true
  | some repeated => name == shortHelp && !repeated.isEmpty && repeated.all (· == 'h')

/-- The options of a command: those with a value, and those without. -/
structure Options where
  valued : List Text
  flags : List Text
deriving DecidableEq, Repr

/-- The names of all options of a command. -/
def Options.names (options : Options) : List Text :=
  [shortHelp, longHelp] ++ options.valued ++ options.flags

/-- What the arguments of a command come to. -/
inductive Assignment where
  | help
  | misused
  /-- Values by option, those given last in front, and whether there were arguments too many. -/
  | values (given : List (Text × Text)) (excess : Bool)
deriving DecidableEq, Repr

/-- The assignment of values to options, on top of those assigned already; `awaiting` is the option
whose value comes next. -/
def assign (options : Options) (awaiting : Option Text) (given : List (Text × Text))
    (excess : Bool) : List Argument -> Assignment
  | [] => if awaiting.isSome then .misused else .values given excess
  | argument :: rest =>
      match awaiting, argument with
      | some name, .other text => assign options none ((name, text) :: given) excess rest
      | some _, _ => .misused
      | none, .other _ => assign options none given true rest
      | none, .unknown => assign options none given true rest
      | none, .ambiguous => .misused
      | none, .separator => .values given true
      | none, .option name value =>
          if name = shortHelp || name = longHelp then
            if asksForHelp name value then .help else .misused
          else if options.valued.contains name then
            match value with
            | some text => assign options none ((name, text) :: given) excess rest
            | none => assign options (some name) given excess rest
          else if value.isSome then .misused
          else assign options none ((name, []) :: given) excess rest

/-- What the arguments of a command come to, all being sorted before any is used. -/
def Assignment.ofArguments (options : Options) (arguments : List Text) : Assignment :=
  let sorted := Argument.sort options.names arguments
  if sorted.contains .ambiguous then .misused else assign options none [] false sorted

end SceneBundler.CommandLine
