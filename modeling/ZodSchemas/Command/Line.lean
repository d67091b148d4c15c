import ZodSchemas.Text.Quoted
import ZodSchemas.Text.Similarity

/-!
# Command lines

The words of a command line are options and operands. An option has a long name
behind two hyphens and, except for help, a name of one letter behind one hyphen.
Its value is the next word, or follows a long name behind an equals sign and a
letter directly; letters of options without a value can share a word. Two
hyphens alone end the options, and one hyphen alone is an operand. Where an
option is given, and what with, is kept in order.
-/

namespace ZodSchemas

/-- The options of the command. -/
inductive Switch where
  /-- The settings file. -/
  | config
  /-- Whether an output file that exists is replaced. -/
  | force
  /-- Whether only help is asked for. -/
  | help
  /-- The output file. -/
  | output
  /-- What stands in front of every generated identifier. -/
  | namePrefix
deriving DecidableEq

namespace Switch

/-- All options, by their long names. -/
def all : List Switch := [.config, .force, .help, .output, .namePrefix]

/-- The long name of an option. -/
def longName : Switch → Text
  | .config => "--config"
  | .force => "--force"
  | .help => "--help"
  | .output => "--output"
  | .namePrefix => "--prefix"

/-- The name of one letter, if an option has one. -/
def shortName? : Switch → Option Text
  | .config => some "-c"
  | .force => some "-f"
  | .help => none
  | .output => some "-o"
  | .namePrefix => some "-p"

/-- Whether a value belongs to an option. -/
def takesValue : Switch → Bool
  | .force | .help => false
  | _ => true

/-- The option of a long name. -/
def ofLongName? (name : Text) : Option Switch := all.find? fun s => s.longName = name

/-- The option of a name of one letter. -/
def ofShortName? (name : Text) : Option Switch := all.find? fun s => s.shortName? = some name

/-- Both names of an option, as messages write them. -/
def names (s : Switch) : Text :=
  match s.shortName? with
  | some short => Quoted.text s.longName ++ " / " ++ Quoted.text short
  | none => Quoted.text s.longName

/-- The long names that a name is close to. -/
def namesCloseTo (name : Text) : List Text :=
  (all.map longName).filter fun other => Similarity.isClose other name

end Switch

/-- Why a command line is refused. -/
inductive UsageError where
  /-- No option has the name; others have a name close to it. -/
  | unknownOption (name : Text) (close : List Text)
  /-- The value of an option is missing. -/
  | missingValue (name : Text)
  /-- A value for an option that takes none. -/
  | unexpectedValue (name : Text)
  /-- The output file is a directory. -/
  | outputIsDirectory (value : Text)
  /-- There is no such settings file. -/
  | noSettingsFile (value : Text)
  /-- No source is given. -/
  | missingSource
  /-- More operands than the source. -/
  | extraOperands (operands : List Text)
deriving DecidableEq

namespace UsageError

/-- The hint at names that are close to an unknown one. -/
def hint : List Text → Text
  | [] => []
  | [name] => (" Did you mean " : Text) ++ Quoted.text name ++ "?"
  | names =>
    (" (Did you mean one of: " : Text) ++
      List.intercalate (", " : Text) (names.map Quoted.text) ++ "?)"

/-- The complaint about the value of an option. -/
def invalidValue (s : Switch) (complaint : Text) : Text :=
  ("Invalid value for " : Text) ++ s.names ++ ": " ++ complaint

/-- The wording of a refusal. -/
def message : UsageError → Text
  | .unknownOption name close =>
    ("No such option " : Text) ++ Quoted.text name ++ "." ++ hint close
  | .missingValue name => ("Option " : Text) ++ Quoted.text name ++ " requires an argument."
  | .unexpectedValue name => ("Option " : Text) ++ Quoted.text name ++ " does not take a value."
  | .outputIsDirectory value =>
    invalidValue .output (("File " : Text) ++ Quoted.text value ++ " is a directory.")
  | .noSettingsFile value =>
    invalidValue .config (("Path " : Text) ++ Quoted.text value ++ " does not exist.")
  | .missingSource => "Missing argument 'SOURCE'."
  | .extraOperands operands =>
    let plural := if operands.length = 1 then "" else "s"
    ("Got unexpected extra argument" : Text) ++ Text.ofString plural ++ " (" ++
      List.intercalate (" " : Text) operands ++ ")"

end UsageError

/-- An option and its value; without a value it is empty. -/
abbrev Given := Switch × Text

/-- What a command line gives, in order. -/
structure CommandLine where
  /-- The options. -/
  options : List Given := []
  /-- The words that are no options. -/
  operands : List Text := []
deriving DecidableEq

/-- What one word gives. -/
structure OptionWord where
  /-- The options that are complete. -/
  given : List Given := []
  /-- The option whose value is the next word, and the name it goes by. -/
  waiting : Option (Switch × Text) := none

namespace OptionWord

/-- The hyphen in front of names. -/
def hyphen : CodePoint := '-'

/-- The sign between a long name and a value. -/
def equals : CodePoint := '='

/-- A word with a long name. -/
def ofLong (word : Text) : Except UsageError OptionWord :=
  let name := word.takeWhile (· ≠ equals)
  match Switch.ofLongName? name with
  | none => .error (.unknownOption name (Switch.namesCloseTo name))
  | some s =>
    match s.takesValue, word.drop name.length with
    | true, [] => .ok ⟨[], some (s, name)⟩
    | true, _ :: value => .ok ⟨[(s, value)], none⟩
    | false, [] => .ok ⟨[(s, [])], none⟩
    | false, _ :: _ => .error (.unexpectedValue name)

/-- The letters of a word; what follows the letter of an option with a value is the value. -/
def ofLetters : Text → Except UsageError OptionWord
  | [] => .ok {}
  | c :: rest =>
    match Switch.ofShortName? [hyphen, c] with
    | none => .error (.unknownOption [hyphen, c] [])
    | some s =>
      match s.takesValue, rest with
      | true, [] => .ok ⟨[], some (s, [hyphen, c])⟩
      | true, value => .ok ⟨[(s, value)], none⟩
      | false, others => do
        let word ← ofLetters others
        .ok { word with given := (s, []) :: word.given }

/-- What a word gives, if it is one of options. -/
def ofWord? : Text → Option (Except UsageError OptionWord)
  | c :: d :: rest =>
    if c ≠ hyphen then none
    else if d = hyphen then some (ofLong (c :: d :: rest))
    else some (ofLetters (d :: rest))
  | _ => none

end OptionWord

namespace CommandLine

/-- The word that ends the options. -/
def endOfOptions : Text := "--"

/-- Put options in front. -/
def giving (given : List Given) (line : CommandLine) : CommandLine :=
  { line with options := given ++ line.options }

/-- Put an operand in front. -/
def operand (word : Text) (line : CommandLine) : CommandLine :=
  { line with operands := word :: line.operands }

/-- Read the words of a command line; the first fault counts. -/
def read : List Text → Except UsageError CommandLine
  | [] => .ok {}
  | word :: rest =>
    if word = endOfOptions then .ok { operands := rest }
    else
      match OptionWord.ofWord? word with
      | none => (read rest).map (operand word)
      | some (.error e) => .error e
      | some (.ok ⟨given, none⟩) => (read rest).map (giving given)
      | some (.ok ⟨given, some (s, name)⟩) =>
        match rest with
        | [] => .error (.missingValue name)
        | value :: others => (read others).map (giving (given ++ [(s, value)]))

/-- The last value of an option. -/
def value? (line : CommandLine) (s : Switch) : Option Text :=
  line.options.reverse.lookup s

/-- Whether an option is given. -/
def has (line : CommandLine) (s : Switch) : Bool := (line.value? s).isSome

/-- The options that are given, each where it comes first and with the value it has last. -/
def settled (line : CommandLine) : List Given :=
  (line.options.map (·.1)).eraseDups.filterMap fun s => (line.value? s).map (s, ·)

/-- The only operand. -/
def source (line : CommandLine) : Except UsageError Text :=
  match line.operands with
  | [] => .error .missingSource
  | [source] => .ok source
  | _ :: extra => .error (.extraOperands extra)

end CommandLine

end ZodSchemas
