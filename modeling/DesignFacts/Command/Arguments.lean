import DesignFacts.Config.Basic

/-!
# Arguments

The words of a command line: a command with its path and its options. An option has a long and a
short name; its value stands behind an equals sign, directly behind the short name, or in the next
word. Words after two dashes are never options.

The words are read from left to right. A value is checked when the next thing is met, so that the
first fault in the words decides what is wrong.
-/

namespace DesignFacts

open Text

/-- The options of all commands. -/
inductive Setting where
  | verbose
  | help
  | version
  | format
  | config
  | output
  deriving DecidableEq

namespace Setting

/-- The long name of an option. -/
def long : Setting → String
  | verbose => "verbose"
  | help => "help"
  | version => "version"
  | format => "format"
  | config => "config"
  | output => "output"

/-- The short name of an option. -/
def short : Setting → Char
  | verbose => 'v'
  | help => 'h'
  | version => 'V'
  | format => 'f'
  | config => 'c'
  | output => 'o'

def hasValue : Setting → Bool
  | verbose | help | version => false
  | format | config | output => true

/-- Whether the value of an option is a path. -/
def isPath : Setting → Bool
  | config | output => true
  | _ => false

end Setting

/-- Why words are no command line, or what is asked for instead of a command. -/
inductive UsageError where
  | help
  | version
  /-- There is nothing at all. -/
  | nothing
  | missingCommand
  | unknownCommand
  | missingPath
  | unknownArgument
  /-- An option without its value, or an empty path. -/
  | missingValue
  /-- A value for an option that has none. -/
  | surplusValue
  /-- An option that stands twice. -/
  | repeated
  deriving DecidableEq

inductive CommandName where
  | extract
  | init
  deriving DecidableEq

namespace CommandName

def word : CommandName → String
  | extract => "extract"
  | init => "init"

def ofWord? (t : Text) : Option CommandName :=
  if t == extract.word.toList then some extract
  else if t == init.word.toList then some init
  else none

def settings : CommandName → List Setting
  | extract => [.verbose, .help, .format, .config, .output]
  | init => [.verbose, .help, .output]

def takesPath : CommandName → Bool
  | extract => true
  | init => false

end CommandName

/-- The options before a command. -/
def generalSettings : List Setting := [.verbose, .help, .version]

/-! ## Reading words -/

/-- What a value is given for: an option, or the path of the command. -/
inductive Target where
  | setting (s : Setting)
  | path
  deriving DecidableEq

/-- Whether a value for a target is a path. -/
def Target.isPath : Target → Bool
  | setting s => s.isPath
  | path => true

/-- What the words so far have given. -/
structure Given where
  /-- The checked values. -/
  values : List (Target × Text) := []
  /-- The last target, with its value if that has been met. -/
  pending : Option (Target × Option Text) := none
  /-- Whether two dashes have been met. -/
  onlyPaths : Bool := false

namespace Given

def value? (g : Given) (t : Target) : Option Text := (g.values.find? fun v => v.1 == t).map (·.2)

/-- Give a value to a target. -/
def add (g : Given) (t : Target) (value : Text) : Except UsageError Given :=
  if (g.value? t).isSome then .error .repeated
  else if t.isPath && value.isEmpty then .error .missingValue
  else .ok { g with values := g.values ++ [(t, value)] }

/-- Check the last target. -/
def settle (g : Given) : Except UsageError Given :=
  match g.pending with
  | none => .ok g
  | some (_, none) => .error .missingValue
  | some (t, some value) => { g with pending := none }.add t value

/-- Take an option without a value. -/
def flag (g : Given) (s : Setting) : Except UsageError Given := do
  let g ← g.settle
  match s with
  | .help => throw .help
  | .version => throw .version
  | s => g.add (.setting s) []

/-- Take an option with its value, if that has been met. -/
def option (g : Given) (s : Setting) (value : Option Text) : Except UsageError Given := do
  let g ← g.settle
  match value with
  | some value => g.add (.setting s) value
  | none => return { g with pending := some (.setting s, none) }

/-- Take a long option: its name, and the value behind an equals sign. -/
def long (settings : List Setting) (g : Given) (word : Text) : Except UsageError Given :=
  let name := before '=' word
  let value := if word.contains '=' then some (word.drop (name.length + 1)) else none
  match settings.find? fun s => s.long.toList == name with
  | none => .error .unknownArgument
  | some s =>
    if s.hasValue then g.option s value
    else if value.isSome then .error .surplusValue
    else g.flag s

/-- Take short options that stand together. The rest of the word behind one with a value is its
value. -/
def short (settings : List Setting) (g : Given) : Text → Except UsageError Given
  | [] => .ok g
  | c :: rest =>
    match settings.find? fun s => s.short == c with
    | none => .error .unknownArgument
    | some s =>
      if !s.hasValue then (g.flag s).bind fun g => short settings g rest
      else
        match rest with
        | [] => g.option s none
        | '=' :: value => g.option s (some value)
        | value => g.option s (some value)

/-- Whether the path has been met. -/
def hasPath (g : Given) : Bool :=
  (g.value? .path).isSome || g.pending.any fun p => p.1 == .path

/-- Take a word that is no option. -/
def plain (takesPath : Bool) (g : Given) (word : Text) : Except UsageError Given :=
  if !takesPath || g.hasPath then .error .unknownArgument
  else g.settle.map fun g => { g with pending := some (.path, some word) }

/-- Whether the value of an option is expected. -/
def awaits (g : Given) : Option Target :=
  match g.pending with
  | some (t, none) => some t
  | _ => none

/-- Take a word, if `plain` takes words that are no options. -/
def word (settings : List Setting) (plain : Given → Text → Except UsageError Given) (g : Given)
    (w : Text) : Except UsageError Given :=
  if g.onlyPaths then plain g w
  else
    match w with
    | ['-', '-'] => .ok { g with onlyPaths := true }
    | '-' :: '-' :: rest => g.long settings rest
    | '-' :: c :: rest => g.short settings (c :: rest)
    | w =>
      match g.awaits with
      | some t => .ok { g with pending := some (t, some w) }
      | none => plain g w

end Given

/-! ## Commands -/

inductive Command where
  | extract (path format : Text) (config output : Option Text)
  | init (output : Text)

/-- A command line. -/
structure Invocation where
  verbose : Bool
  command : Command

/-- The command that the words after its name give. -/
def CommandName.read (name : CommandName) (words : List Text) : Except UsageError Invocation := do
  let g ← words.foldlM (Given.word name.settings (Given.plain name.takesPath)) {}
  let g ← g.settle
  let value? (s : Setting) := g.value? (.setting s)
  let verbose := (value? .verbose).isSome
  match name with
  | .extract =>
    match g.value? .path with
    | none => throw .missingPath
    | some path =>
      return ⟨verbose, .extract path ((value? .format).getD "json".toList) (value? .config)
        (value? .output)⟩
  | .init => return ⟨verbose, .init ((value? .output).getD configFileName)⟩

/-- What a request for help about some commands gives. -/
def helpError : List Text → UsageError
  | [] => .help
  | [t] => if (CommandName.ofWord? t).isSome || t == "help".toList then .help else .unknownCommand
  | _ => .unknownCommand

/-- Words before a command have to be options. -/
def generalPlain (g : Given) (w : Text) : Except UsageError Given :=
  let isCommand := (CommandName.ofWord? w).isSome || w == "help".toList
  .error (if g.onlyPaths && isCommand then .unknownArgument else .unknownCommand)

/-- The command line that words give, after those that have given `g`. -/
def readWordsFrom (g : Given) : List Text → Except UsageError Invocation
  | [] => .error (if g.values.isEmpty then .nothing else .missingCommand)
  | w :: words =>
    if !g.onlyPaths && w == "help".toList then .error (helpError words)
    else
      match if g.onlyPaths then none else CommandName.ofWord? w with
      | some name => (name.read words).map fun i =>
        { i with verbose := i.verbose || (g.value? (.setting .verbose)).isSome }
      | none => (g.word generalSettings generalPlain w).bind fun g => readWordsFrom g words

/-- The command line that words give. -/
def Invocation.ofWords (words : List Text) : Except UsageError Invocation := readWordsFrom {} words

end DesignFacts
