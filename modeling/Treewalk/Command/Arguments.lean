import Treewalk.Text.DecimalDigit
import Treewalk.Text.Quoted
import Treewalk.Text.Style

/-!
The arguments of the command: two switches, a request for help, and at most one file. A long option
may be shortened as long as it stays unambiguous. A double dash ends the options.
-/

namespace Treewalk

open Text

/-- The options of the command. -/
inductive CommandOption where
  | help
  | outline
  | noColor
deriving DecidableEq, Repr

namespace CommandOption

def all : List CommandOption := [.help, .outline, .noColor]

/-- The long spelling. -/
def long : CommandOption → String
  | .help => "--help"
  | .outline => "--ast"
  | .noColor => "--no-color"

/-- The spellings of an option as messages give them. -/
def title : CommandOption → String
  | .help => "-h/--help"
  | .outline => "--ast"
  | .noColor => "--no-color"

end CommandOption

/-- A problem with the arguments. -/
inductive ArgumentFault where
  | unrecognized (arguments : List String)
  /-- An option that takes no value was given one. -/
  | ignoredValue (o : CommandOption) (value : String)
  | ambiguous (argument : String) (options : List CommandOption)
deriving DecidableEq, Repr

def ArgumentFault.message : ArgumentFault → String
  | .unrecognized arguments => "unrecognized arguments: " ++ " ".intercalate arguments
  | .ignoredValue o value =>
    "argument " ++ o.title ++ ": ignored explicit argument " ++ quoted value
  | .ambiguous argument options =>
    "ambiguous option: " ++ argument ++ " could match " ++
      ", ".intercalate (options.map CommandOption.long)

/-- What one argument is. -/
inductive Argument where
  | positional
  | option (o : CommandOption)
  | faulty (f : ArgumentFault)
  | unknown
deriving DecidableEq, Repr

namespace Argument

/-- Splits at the first equals sign. -/
def cutAtEquals (chars : List Char) : List Char × Option (List Char) :=
  match chars.dropWhile (· != '=') with
  | [] => (chars, none)
  | _ :: value => (chars.takeWhile (· != '='), some value)

/-- An option with the value it was given, which no option takes. -/
def withValue (o : CommandOption) : Option (List Char) → Argument
  | none => .option o
  | some value => .faulty (.ignoredValue o (String.ofList value))

/-- Short options written together: every `h` asks for help once more, and what is left after them is
a value. -/
def helpRun (chars : List Char) : Argument :=
  match chars.dropWhile (· == 'h') with
  | [] => .option .help
  | value => withValue .help (some value)

/-- What follows `-h`. An equals sign may come first, but then not alone. -/
def afterShortHelp : List Char → Argument
  | ['='] => withValue .help (some [])
  | '=' :: rest => helpRun rest
  | rest => helpRun rest

/-- A dash and digits, with or without a point. A line feed at the end is overlooked. -/
def isNegativeNumber (afterDash : List Char) : Bool :=
  let body := if afterDash.getLast? = some '\n' then afterDash.dropLast else afterDash
  let whole := body.takeWhile isDecimalDigit
  match body.dropWhile isDecimalDigit with
  | [] => !whole.isEmpty
  | '.' :: fraction => !fraction.isEmpty && fraction.all isDecimalDigit
  | _ => false

/-- An argument that is no option: a negative number and a text with a space are positional. -/
def otherwise (chars : List Char) : Argument :=
  if isNegativeNumber (chars.drop 1) || chars.contains ' ' then .positional else .unknown

/-- A long option, in full or shortened. -/
def ofLong (chars : List Char) : Argument :=
  match cutAtEquals chars with
  | (name, value) =>
    match CommandOption.all.find? fun o => o.long.toList == name with
    | some o => withValue o value
    | none =>
      match CommandOption.all.filter fun o => name.isPrefixOf o.long.toList with
      | [] => otherwise chars
      | [o] => withValue o value
      | os => .faulty (.ambiguous (String.ofList chars) os)

/-- What an argument before the double dash is. -/
def ofChars (chars : List Char) : Argument :=
  match chars with
  | '-' :: '-' :: _ => ofLong chars
  | '-' :: 'h' :: rest => afterShortHelp rest
  | ['-'] => .positional
  | '-' :: _ => otherwise chars
  | _ => .positional

end Argument

/-- What the arguments ask for. -/
structure Arguments where
  file : Option String
  outline : Bool
  noColor : Bool
deriving DecidableEq, Repr

/-- What to do with the arguments. -/
inductive ArgumentResult where
  | help
  | refused (f : ArgumentFault)
  | accepted (a : Arguments)
deriving DecidableEq, Repr

namespace Arguments

/-- Messages have the terminal's style unless the arguments say otherwise. -/
def style (a : Arguments) (terminal : Style) : Style := if a.noColor then .plain else terminal

/-- The result when all arguments are taken; `extras` are those that nothing could be done with. -/
def conclude (a : Arguments) (extras : List String) : ArgumentResult :=
  if extras.isEmpty then .accepted a else .refused (.unrecognized extras)

/-- The arguments from the double dash on. None of them is an option. The double dash itself is
dropped when it stands next to the file, before it or (`fresh`) behind it. -/
def afterDashes (a : Arguments) (extras : List String) (fresh : Bool) (rest : List String) :
    ArgumentResult :=
  match a.file, rest with
  | none, [] => conclude a extras
  | none, file :: more => conclude { a with file := some file } (extras ++ more)
  | some _, _ => conclude a (extras ++ if fresh then rest else "--" :: rest)

/-- Takes the arguments in order. `fresh` says that the file was the argument just before. -/
def take (a : Arguments) (extras : List String) (fresh : Bool) : List String → ArgumentResult
  | [] => conclude a extras
  | argument :: rest =>
    if argument = "--" then afterDashes a extras fresh rest
    else
      match Argument.ofChars argument.toList with
      | .positional =>
        match a.file with
        | none => take { a with file := some argument } extras true rest
        | some _ => take a (extras ++ [argument]) false rest
      | .option .help => .help
      | .option .outline => take { a with outline := true } extras false rest
      | .option .noColor => take { a with noColor := true } extras false rest
      | .faulty f => .refused f
      | .unknown => take a (extras ++ [argument]) false rest

/-- The first ambiguous option. It is met before anything else is done with the arguments. -/
def ambiguous? (arguments : List String) : Option ArgumentFault :=
  (arguments.takeWhile (· != "--")).findSome? fun argument =>
    match Argument.ofChars argument.toList with
    | .faulty (.ambiguous text options) => some (.ambiguous text options)
    | _ => none

def parse (arguments : List String) : ArgumentResult :=
  match ambiguous? arguments with
  | some f => .refused f
  | none => take ⟨none, false, false⟩ [] false arguments

end Arguments

end Treewalk
