import SceneBundler.Dialect.Annotation
import SceneBundler.Source.Mask

/-!
Contract: typed programs as trees, and how they are written with and without their types.

Owns:
- names and types, type arguments and the members of object types;
- values that call functions with type arguments, and statements that declare interfaces, aliases,
  variables and functions;
- the source of a program, and the source that is left when its types are erased.

Does not own: how a source is normalized.
-/

namespace SceneBundler.Typed

/-! ## Names -/

/-- A character that a name begins with. -/
def isNameStart (c : Char) : Bool :=
  c.isLower || c == '_'

/-- A character that a name goes on with. -/
def isNamePart (c : Char) : Bool :=
  isNameStart c || c.isDigit

/-- Words of the language, or of the dialect, that a name must not be. -/
def reservedWords : List Text :=
  Source.wordsBeforeOperand ++ Dialect.nonMethodWords ++
    ["as", "satisfies", "class", "abstract", "const", "let", "var"].map String.toList

/-- A name of lowercase characters that is no word of the language. -/
structure Name where
  first : Char
  rest : Text
  starts : isNameStart first = true
  parts : ∀ c ∈ rest, isNamePart c = true
  free : first :: rest ∉ reservedWords

def Name.text (name : Name) : Text :=
  name.first :: name.rest

/-- A decimal numeral, with or without a fraction. -/
structure Numeral where
  first : Char
  rest : Text
  starts : first.isDigit = true
  parts : ∀ c ∈ rest, c.isDigit = true ∨ c = '.'

def Numeral.text (numeral : Numeral) : Text :=
  numeral.first :: numeral.rest

/-! ## Types -/

/-- What a phrase of the type language is: a type, or the items of a list, or the members of an object
type. -/
inductive Kind where
  | type
  | items
  | fields

/-- Types, and what they consist of.  A plain phrase, which can stand in angle brackets, has no function
types and no semicolons. -/
inductive Phrase : (plain : Bool) -> Kind -> Type where
  | named {plain : Bool} (name : Name) : Phrase plain .type
  | array {plain : Bool} (element : Phrase plain .type) : Phrase plain .type
  | union {plain : Bool} (first second : Phrase plain .type) : Phrase plain .type
  | emptyTuple {plain : Bool} : Phrase plain .type
  | tuple {plain : Bool} (items : Phrase plain .items) : Phrase plain .type
  | object {plain : Bool} (fields : Phrase plain .fields) : Phrase plain .type
  | function (parameter : Name) (type result : Phrase false .type) : Phrase false .type
  | generic {plain : Bool} (name : Name) (arguments : Phrase true .items) : Phrase plain .type
  | last {plain : Bool} (type : Phrase plain .type) : Phrase plain .items
  | more {plain : Bool} (type : Phrase plain .type) (others : Phrase plain .items) :
      Phrase plain .items
  | lastField {plain : Bool} (key : Name) (type : Phrase plain .type) : Phrase plain .fields
  | moreFields (key : Name) (type : Phrase false .type) (others : Phrase false .fields) :
      Phrase false .fields

/-- A type as an ascription, an alias or a member can have it. -/
abbrev TypePhrase := Phrase false .type

/-- Type arguments. -/
abbrev Arguments := Phrase true .items

/-- Text in angle brackets, or nothing where these are left out. -/
def angled (full : Bool) (inner : Text) : Text :=
  if full then '<' :: (inner ++ ['>']) else []

/-- A phrase as it is written, with its type arguments or without them. -/
def Phrase.text (full : Bool) : {plain : Bool} -> {kind : Kind} -> Phrase plain kind -> Text
  | _, _, .named name => name.text
  | _, _, .array element => element.text full ++ ['[', ']']
  | _, _, .union first second => first.text full ++ ([' ', '|', ' '] ++ second.text full)
  | _, _, .emptyTuple => ['[', ']']
  | _, _, .tuple items => '[' :: (items.text full ++ [']'])
  | _, _, .object fields => '\x7b' :: ' ' :: (fields.text full ++ [' ', '\x7d'])
  | _, _, .function parameter type result =>
      '(' :: (parameter.text ++ ([':', ' '] ++ (type.text full ++
        ([')', ' ', '=', '>', ' '] ++ result.text full))))
  | _, _, .generic name arguments => name.text ++ angled full (arguments.text full)
  | _, _, .last type => type.text full
  | _, _, .more type others => type.text full ++ ([',', ' '] ++ others.text full)
  | _, _, .lastField key type => key.text ++ ([':', ' '] ++ type.text full)
  | _, _, .moreFields key type others =>
      key.text ++ ([':', ' '] ++ (type.text full ++ ([';', ' '] ++ others.text full)))

/-- Whether an array of the type needs no parentheses around it. -/
def Phrase.isOperand : {plain : Bool} -> {kind : Kind} -> Phrase plain kind -> Bool
  | _, _, .named _ | _, _, .emptyTuple | _, _, .tuple _ | _, _, .object _ | _, _, .generic _ _ =>
      true
  | _, _, .array element => element.isOperand
  | _, _, _ => false

/-- Whether a type is a name, an array or a name with type arguments. -/
def Phrase.isResult : {plain : Bool} -> {kind : Kind} -> Phrase plain kind -> Bool
  | _, _, .named _ | _, _, .generic _ _ => true
  | _, _, .array element => element.isOperand
  | _, _, _ => false

/-! ## Statements -/

/-- A name, a numeral, or the call of a function with type arguments and one value. -/
inductive Value where
  | named (name : Name)
  | number (numeral : Numeral)
  | call (function : Name) (arguments : Arguments) (value : Value)

def Value.text (full : Bool) : Value -> Text
  | .named name => name.text
  | .number numeral => numeral.text
  | .call function arguments value =>
      function.text ++ (angled full (arguments.text full) ++ ('(' :: (value.text full ++ [')'])))

/-- A member of an interface. -/
structure Member where
  key : Name
  type : TypePhrase

/-- A parameter of a function. -/
structure Parameter where
  name : Name
  isOptional : Bool
  type : TypePhrase

/-- The result of a function: a type that stands within the reach of the search for its end. -/
structure Result where
  type : TypePhrase
  form : type.isResult = true
  short : (type.text true).length < 250

inductive Statement where
  | interface (name : Name) (members : List Member)
  | synonym (name : Name) (type : TypePhrase)
  | binding (name : Name) (type : TypePhrase) (value : Option Value)
  | function (name : Name) (parameters : List Parameter) (result : Result) (value : Value)

/-- A type behind its colon. -/
def ascription (full : Bool) (type : TypePhrase) : Text :=
  [':', ' '] ++ type.text full

def Member.text (full : Bool) (member : Member) : Text :=
  member.key.text ++ (ascription full member.type ++ [';', ' '])

/-- The question mark of an optional parameter. -/
def Parameter.mark (parameter : Parameter) : Text :=
  if parameter.isOptional then ['?'] else []

def Parameter.text (full : Bool) (parameter : Parameter) : Text :=
  parameter.name.text ++ (parameter.mark ++ ascription full parameter.type)

/-- What a variable is set to, if anything. -/
def initializer (full : Bool) : Option Value -> Text
  | none => []
  | some value => [' ', '=', ' '] ++ value.text full

/-- An interface with its members as text. -/
def interfaceText (name : Name) (members : Text) : Text :=
  "interface ".toList ++ (name.text ++ ([' ', '\x7b', ' '] ++ (members ++ ['\x7d'])))

/-- A type alias with its type as text. -/
def synonymText (name : Name) (type : Text) : Text :=
  "type ".toList ++ (name.text ++ ([' ', '=', ' '] ++ (type ++ [';'])))

/-- A variable with its ascription and what it is set to, as text. -/
def variableText (name : Name) (ascription : Text) (initializer : Text) : Text :=
  "let ".toList ++ (name.text ++ (ascription ++ (initializer ++ [';'])))

/-- A function with its parameters, and what follows them, as text. -/
def functionText (name : Name) (parameters : List Text) (result : Text) (value : Text) : Text :=
  "function ".toList ++ (name.text ++ (['('] ++ (Text.join [',', ' '] parameters ++
    ([')'] ++ (result ++ (" \x7b return ".toList ++ (value ++ [';', ' ', '\x7d'])))))))

/-- A statement as it is written, with its type arguments or without them. -/
def Statement.text (full : Bool) : Statement -> Text
  | .interface name members => interfaceText name (members.flatMap (Member.text full))
  | .synonym name type => synonymText name (type.text full)
  | .binding name type value =>
      variableText name (ascription full type) (initializer full value)
  | .function name parameters result value =>
      functionText name (parameters.map (Parameter.text full)) (ascription full result.type)
        (value.text full)

/-- What is left of a statement, unless it is an interface or an alias: all but its types. -/
def Statement.erased? : Statement -> Option Text
  | .interface _ _ => none
  | .synonym _ _ => none
  | .binding name _ value => some (variableText name [] (initializer false value))
  | .function name parameters _ value =>
      some (functionText name (parameters.map (·.name.text)) [] (value.text false))

/-- The texts of lines, each with its line break. -/
def lines (texts : List Text) : Text :=
  texts.flatMap (· ++ ['\n'])

/-- A program as it is written. -/
def written (program : List Statement) : Text :=
  lines (program.map (Statement.text true))

/-- A program without its types. -/
def erased (program : List Statement) : Text :=
  lines (program.filterMap Statement.erased?)

section Forms

variable (full : Bool) (name : Name)

theorem interfaceText_eq (members : Text) :
    interfaceText name members =
      "interface ".toList ++ (name.text ++ ([' ', '\x7b', ' '] ++ (members ++ ['\x7d']))) :=
  rfl

theorem synonymText_eq (type : Text) :
    synonymText name type = "type ".toList ++ (name.text ++ ([' ', '=', ' '] ++ (type ++ [';']))) :=
  rfl

theorem variableText_eq (ascription initializer : Text) :
    variableText name ascription initializer =
      "let ".toList ++ (name.text ++ (ascription ++ (initializer ++ [';']))) :=
  rfl

theorem functionText_eq (parameters : List Text) (result value : Text) :
    functionText name parameters result value = "function ".toList ++ (name.text ++ (['('] ++
      (Text.join [',', ' '] parameters ++ ([')'] ++ (result ++ (" \x7b return ".toList ++
        (value ++ [';', ' ', '\x7d']))))))) :=
  rfl

theorem Statement.text_interface (members : List Member) :
    (interface name members).text full = interfaceText name (members.flatMap (Member.text full)) :=
  rfl

theorem Statement.text_synonym (type : TypePhrase) :
    (synonym name type).text full = synonymText name (type.text full) :=
  rfl

theorem Statement.text_binding (type : TypePhrase) (value : Option Value) :
    (binding name type value).text full =
      variableText name (ascription full type) (initializer full value) :=
  rfl

theorem Statement.text_function (parameters : List Parameter) (result : Result) (value : Value) :
    (function name parameters result value).text full =
      functionText name (parameters.map (Parameter.text full)) (ascription full result.type)
        (value.text full) :=
  rfl

end Forms

end SceneBundler.Typed
