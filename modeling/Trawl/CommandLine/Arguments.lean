/-!
# Arguments

How the words of a command line are understood. Options stand before or after the name of a command;
what they may be depends on where they stand. Words are taken one after the other, and the first
thing that settles the matter, a mistake or a request for help, does so.
-/

namespace Trawl.CommandLine

/-- The options there are. -/
inductive Flag where
  | verbose
  | quiet
  | help
  | version
  | json
  | interface
  | promiscuous
  | file
  | settings
  | noPackets
  | chunkType
  | skipUnknown
  | pretty
  deriving DecidableEq, Repr

/-- How an option is written. -/
structure Spelling where
  long : String
  short : Option Char := none
  /-- Whether a value belongs to the option. -/
  takesValue : Bool := false
  /-- Whether the option may be given more than once. -/
  repeatable : Bool := false

/-- The way each option is written. -/
def Flag.spelling : Flag → Spelling
  | .verbose => { long := "verbose", short := some 'v', repeatable := true }
  | .quiet => { long := "quiet" }
  | .help => { long := "help", short := some 'h' }
  | .version => { long := "version", short := some 'V' }
  | .json => { long := "json" }
  | .interface => { long := "interface", short := some 'i', takesValue := true }
  | .promiscuous => { long := "promiscuous" }
  | .file => { long := "file", short := some 'f', takesValue := true }
  | .settings => { long := "config", takesValue := true }
  | .noPackets => { long := "no-packets" }
  | .chunkType => { long := "chunk-type", takesValue := true, repeatable := true }
  | .skipUnknown => { long := "skip-unknown" }
  | .pretty => { long := "pretty" }

/-- Where options stand. -/
inductive Scope where
  /-- Before the name of a command. -/
  | top
  | interfaces
  | capture
  deriving DecidableEq, Repr

/-- The options that may stand somewhere. -/
def Scope.flags : Scope → List Flag
  | .top => [.verbose, .quiet, .help, .version]
  | .interfaces => [.json, .verbose, .quiet, .help]
  | .capture =>
    [.interface, .promiscuous, .file, .settings, .noPackets, .chunkType, .skipUnknown, .pretty,
      .verbose, .quiet, .help]

/-- The option of a long name. -/
def Scope.named? (scope : Scope) (name : String) : Option Flag :=
  scope.flags.find? (·.spelling.long = name)

/-- The option of a letter. -/
def Scope.lettered? (scope : Scope) (letter : Char) : Option Flag :=
  scope.flags.find? (·.spelling.short = some letter)

/-- A word, by the way it starts. -/
inductive Word where
  | plain
  /-- Two dashes, after which no options come. -/
  | endOfOptions
  /-- An option by its long name, with the value after an equals sign. -/
  | long (name : String) (value : Option String)
  /-- Options by their letters. -/
  | letters (letters : List Char)
  deriving DecidableEq, Repr

/-- Cuts characters at the first equals sign. -/
def cutAtEquals (text : List Char) : String × Option String :=
  let name := text.takeWhile (· ≠ '=')
  match text.dropWhile (· ≠ '=') with
  | [] => (String.ofList name, none)
  | _ :: value => (String.ofList name, some (String.ofList value))

/-- What a word is. -/
def Word.of (word : String) : Word :=
  match word.toList with
  | ['-', '-'] => .endOfOptions
  | '-' :: '-' :: text => .long (cutAtEquals text).1 (cutAtEquals text).2
  | ['-'] => .plain
  | '-' :: text => .letters text
  | _ => .plain

/-- Why the words of a command line are not followed. -/
inductive Stop where
  | mistake
  /-- Help or the version is asked for. -/
  | help
  deriving DecidableEq, Repr

/-- An option as it was given, with its value, empty for one without. -/
structure Given where
  flag : Flag
  value : String
  deriving DecidableEq, Repr

/-- What has been understood of the options so far. -/
structure Progress where
  given : List Given
  /-- An option whose value is the next word. -/
  awaiting : Option Flag
  deriving DecidableEq, Repr

/-- Whether a value is a path, which must not be empty. -/
def Flag.takesPath : Flag → Bool
  | .file | .settings => true
  | _ => false

/-- Adds an option to those that were given. -/
def add (given : List Given) (flag : Flag) (value : String) : Except Stop (List Given) :=
  if flag = .help ∨ flag = .version then .error .help
  else if !flag.spelling.repeatable && given.any (·.flag = flag) then .error .mistake
  else if flag.takesPath && value.isEmpty then .error .mistake
  else .ok (given ++ [⟨flag, value⟩])

/-- Understands letters. What follows the letter of an option with a value is that value, with or
without an equals sign in between. -/
def takeLetters (scope : Scope) (given : List Given) : List Char → Except Stop Progress
  | [] => .ok ⟨given, none⟩
  | letter :: rest =>
    match scope.lettered? letter with
    | none => .error .mistake
    | some flag =>
      if flag.spelling.takesValue then
        match rest with
        | [] => .ok ⟨given, some flag⟩
        | '=' :: value => (add given flag (String.ofList value)).map (⟨·, none⟩)
        | value => (add given flag (String.ofList value)).map (⟨·, none⟩)
      else
        match add given flag "" with
        | .error stop => .error stop
        | .ok given => takeLetters scope given rest

/-- Understands an option by its long name. -/
def takeLong (scope : Scope) (given : List Given) (name : String) (value : Option String) :
    Except Stop Progress :=
  match scope.named? name with
  | none => .error .mistake
  | some flag =>
    match flag.spelling.takesValue, value with
    | true, none => .ok ⟨given, some flag⟩
    | true, some value => (add given flag value).map (⟨·, none⟩)
    | false, none => (add given flag "").map (⟨·, none⟩)
    | false, some _ => .error .mistake

/-- Takes options off the front of words. The result is what was given, and the words from the first
one on that belongs to no option. -/
def takeOptions (scope : Scope) : Progress → List String → Except Stop (List Given × List String)
  | ⟨given, none⟩, [] => .ok (given, [])
  | ⟨_, some _⟩, [] => .error .mistake
  | ⟨given, some flag⟩, word :: more =>
    if Word.of word = .plain then
      match add given flag word with
      | .error stop => .error stop
      | .ok given => takeOptions scope ⟨given, none⟩ more
    else .error .mistake
  | ⟨given, none⟩, word :: more =>
    match Word.of word with
    | .plain => .ok (given, word :: more)
    | .endOfOptions => if more.isEmpty then .ok (given, []) else .error .mistake
    | .long name value =>
      match takeLong scope given name value with
      | .error stop => .error stop
      | .ok progress => takeOptions scope progress more
    | .letters letters =>
      match takeLetters scope given letters with
      | .error stop => .error stop
      | .ok progress => takeOptions scope progress more

/-- Takes all words as options. -/
def allOptions (scope : Scope) (words : List String) : Except Stop (List Given) := do
  let (given, rest) ← takeOptions scope ⟨[], none⟩ words
  if rest.isEmpty then return given else throw .mistake

/-- What is captured from. -/
inductive Input where
  | interface (name : String)
  /-- A path, or a pattern for one. -/
  | file (path : String)
  deriving DecidableEq, Repr

/-- Everything that can be said about a capture. -/
structure CaptureOptions where
  input : Input
  /-- The path of the settings. -/
  settings : Option String
  printPackets : Bool
  /-- The types of the pieces of content to print, all of them if there are none here. -/
  chunkTypes : List String
  skipUnknown : Bool
  /-- Whether records are laid out in lines. -/
  pretty : Bool
  /-- Whether the totals are left out at the end. -/
  quiet : Bool
  deriving DecidableEq, Repr

/-- What a command line asks for. -/
inductive Request where
  /-- Nothing at all. -/
  | nothing
  /-- The interfaces, as text or as JSON. -/
  | interfaces (json : Bool)
  | capture (options : CaptureOptions)
  deriving DecidableEq, Repr

/-- Whether an option was given. -/
def has (given : List Given) (flag : Flag) : Bool :=
  given.any (·.flag = flag)

/-- The values that were given for an option. -/
def values (given : List Given) (flag : Flag) : List String :=
  (given.filter (·.flag = flag)).map (·.value)

/-- The one input of a capture. -/
def input (given : List Given) : Except Stop Input :=
  match values given .interface, values given .file with
  | [name], [] => .ok (.interface name)
  | [], [path] => .ok (.file path)
  | _, _ => .error .mistake

/-- The options of a capture, from what was given before and after its name. -/
def captureOptions (above given : List Given) : Except Stop CaptureOptions := do
  return {
    input := ← input given
    settings := (values given .settings).head?
    printPackets := !has given .noPackets
    chunkTypes := values given .chunkType
    skipUnknown := has given .skipUnknown
    pretty := has given .pretty
    quiet := has (above ++ given) .quiet }

/-- The name of the command that explains the others. -/
def helpName : String := "help"

/-- The names of the commands. -/
def commandNames : List (String × Scope) :=
  [("interfaces", .interfaces), ("capture", .capture)]

/-- What is left to explain: everything, or one command. -/
def explain (topics : List String) : Stop :=
  match topics with
  | [] => .help
  | [topic] => if topic = helpName ∨ (commandNames.lookup topic).isSome then .help else .mistake
  | _ => .mistake

/-- Understands the words of a command line. -/
def Request.parse (words : List String) : Except Stop Request := do
  match ← takeOptions .top ⟨[], none⟩ words with
  | ([], []) => return .nothing
  | (_, []) => throw .mistake
  | (above, name :: words) =>
    if name = helpName then throw (explain words)
    match commandNames.lookup name with
    | some .interfaces => return .interfaces (has (← allOptions .interfaces words) .json)
    | some .capture => return .capture (← captureOptions above (← allOptions .capture words))
    | _ => throw .mistake

end Trawl.CommandLine
