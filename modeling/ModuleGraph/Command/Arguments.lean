/-!
# Arguments of the command line

A command line names one of three commands. Two options may stand before the command's name or
after it; what stands after it goes first. An option's value is the argument after the option, or
stands in the same argument after an equals sign. After `--` no argument is an option any more.

Arguments are taken one by one, so that asking for help or for the version wins over every mistake
that comes later.
-/

namespace ModuleGraph

/-- A command by its name alone. -/
inductive CommandName where
  | graph
  | restore
  | cacheDir
  deriving DecidableEq, Repr

/-- The name of the command. -/
def CommandName.text : CommandName → String
  | graph => "graph"
  | restore => "restore"
  | cacheDir => "cache-dir"

/-- The command of a name. -/
def CommandName.ofText? (name : String) : Option CommandName :=
  [graph, restore, cacheDir].find? (·.text == name)

/-- The command reads an entry file. -/
def CommandName.takesEntry : CommandName → Bool
  | cacheDir => false
  | _ => true

/-- The options of every command. -/
inductive OptionName where
  /-- The configuration file. -/
  | config
  /-- What is logged. -/
  | log
  deriving DecidableEq, Repr

/-- The option may have no empty value. -/
def OptionName.isPath : OptionName → Bool
  | config => true
  | log => false

/-- The values of options. -/
structure Options where
  config : Option String
  log : Option String
  deriving DecidableEq, Repr

namespace Options

/-- No option is given. -/
def none : Options := ⟨Option.none, Option.none⟩

/-- The value of an option. -/
def get? (o : Options) : OptionName → Option String
  | .config => o.config
  | .log => o.log

/-- The options with one more value. -/
def set (o : Options) (name : OptionName) (value : String) : Options :=
  match name with
  | .config => { o with config := some value }
  | .log => { o with log := some value }

/-- These options, and others where these have no value. -/
def orElse (o other : Options) : Options :=
  ⟨o.config <|> other.config, o.log <|> other.log⟩

end Options

/-- What is to be done. -/
inductive Command where
  /-- Shows the graph of an entry file, and restores its modules first unless told not to. -/
  | graph (entry : String) (restores : Bool)
  /-- Restores the modules of an entry file. -/
  | restore (entry : String)
  /-- Shows where the module cache is. -/
  | cacheDir
  deriving DecidableEq, Repr

/-- A command with the options that were given. -/
structure Invocation where
  command : Command
  options : Options
  deriving DecidableEq, Repr

/-- Why arguments are no command line. -/
inductive UsageError where
  | missingCommand
  | unknownCommand (name : String)
  | unknownOption (argument : String)
  | missingValue (name : OptionName)
  | emptyValue
  | unexpectedValue (argument : String)
  | repeated (argument : String)
  | unexpectedArgument (argument : String)
  | missingEntry
  deriving DecidableEq, Repr

/-- The text of the error. -/
def UsageError.message : UsageError → String
  | missingCommand => "a command is required"
  | unknownCommand name => "there is no command '" ++ name ++ "'"
  | unknownOption argument => "there is no option '" ++ argument ++ "'"
  | missingValue .config => "the option '--config' needs a value"
  | missingValue .log => "the option '--log' needs a value"
  | emptyValue => "a path may not be empty"
  | unexpectedValue argument => "no value is expected in '" ++ argument ++ "'"
  | repeated argument => "'" ++ argument ++ "' stands twice"
  | unexpectedArgument argument => "the argument '" ++ argument ++ "' is not expected"
  | missingEntry => "an entry file is required"

/-- Why a command line asks for no command. -/
inductive NoCommand where
  | help
  | version
  | mistaken (e : UsageError)
  deriving DecidableEq, Repr

namespace Invocation

/-- An argument by its form. -/
inductive Argument where
  /-- Two dashes alone. -/
  | escape
  /-- A name after two dashes, and what follows an equals sign. -/
  | long (name : String) (value : Option String)
  /-- Letters after one dash. -/
  | short (letters : List Char)
  | word (text : String)
  deriving DecidableEq, Repr

/-- The form of an argument. -/
def Argument.ofText (text : String) : Argument :=
  match text.toList with
  | '-' :: '-' :: [] => .escape
  | '-' :: '-' :: rest =>
    let name := rest.takeWhile (· != '=')
    .long (String.ofList name)
      (if name.length < rest.length then some (String.ofList (rest.drop (name.length + 1)))
        else none)
  | '-' :: c :: rest => .short (c :: rest)
  | _ => .word text

/-- How far arguments have been taken. -/
structure Reading where
  command : Option CommandName
  /-- The option that the next argument is the value of. -/
  awaited : Option OptionName
  isEscaped : Bool
  /-- The options before the command's name. -/
  outer : Options
  /-- The options after the command's name. -/
  inner : Options
  entry : Option String
  keepsOffline : Bool
  deriving DecidableEq, Repr

namespace Reading

/-- Nothing has been taken. -/
def start : Reading := ⟨none, none, false, .none, .none, none, false⟩

/-- The options where the reading is. -/
def here (r : Reading) : Options :=
  if r.command.isSome then r.inner else r.outer

/-- The reading with an option's value. -/
def give (r : Reading) (name : OptionName) (value : String) : Except NoCommand Reading :=
  if name.isPath && value.isEmpty then .error (.mistaken .emptyValue)
  else if ((r.here).get? name).isSome then .error (.mistaken (.repeated value))
  else
    let r := { r with awaited := none }
    if r.command.isSome then .ok { r with inner := r.inner.set name value }
    else .ok { r with outer := r.outer.set name value }

/-- Takes an option with its value, or to be followed by its value. -/
def option (r : Reading) (name : OptionName) : Option String → Except NoCommand Reading
  | some value => r.give name value
  | none => .ok { r with awaited := some name }

/-- Takes a name after two dashes. -/
def long (r : Reading) (name : String) (value : Option String) : Except NoCommand Reading :=
  if name = "config" then r.option .config value
  else if name = "log" then r.option .log value
  else
    let isKnown := name = "help" ∨ name = "version" ∧ r.command = none ∨
      name = "no-restore" ∧ r.command = some .graph
    if ¬isKnown then .error (.mistaken (.unknownOption name))
    else if value.isSome then .error (.mistaken (.unexpectedValue name))
    else if name = "help" then .error .help
    else if name = "version" then .error .version
    else if r.keepsOffline then .error (.mistaken (.repeated name))
    else .ok { r with keepsOffline := true }

/-- Takes letters after one dash. The first one decides. -/
def short (r : Reading) : List Char → Except NoCommand Reading
  | 'h' :: _ => .error .help
  | 'V' :: rest =>
    if r.command.isNone then .error .version
    else .error (.mistaken (.unknownOption (String.ofList ('V' :: rest))))
  | letters => .error (.mistaken (.unknownOption (String.ofList letters)))

/-- Takes a word. -/
def word (r : Reading) (text : String) : Except NoCommand Reading :=
  match r.command with
  | none =>
    match CommandName.ofText? text with
    | some c =>
      if r.isEscaped then .error (.mistaken (.unexpectedArgument text))
      else .ok { r with command := some c }
    | none => .error (.mistaken (.unknownCommand text))
  | some c =>
    if !c.takesEntry || r.entry.isSome then .error (.mistaken (.unexpectedArgument text))
    else if text.isEmpty then .error (.mistaken .emptyValue)
    else .ok { r with entry := some text }

/-- Takes one argument. -/
def take (r : Reading) (text : String) : Except NoCommand Reading :=
  match r.awaited, Argument.ofText text with
  | some name, .word value => r.give name value
  | some name, _ => .error (.mistaken (.missingValue name))
  | none, argument =>
    if r.isEscaped then r.word text
    else
      match argument with
      | .escape => .ok { r with isEscaped := true }
      | .long name value => r.long name value
      | .short letters => r.short letters
      | .word text => r.word text

/-- What follows the command `help`: at most the name of one command. -/
def helpOn : List String → NoCommand
  | [] => .help
  | [name] =>
    if name = "help" ∨ (CommandName.ofText? name).isSome then .help
    else .mistaken (.unknownCommand name)
  | _ :: name :: _ => .mistaken (.unknownCommand name)

/-- The word asks for help in place of a command. -/
def asksForHelp (r : Reading) (text : String) : Bool :=
  text == "help" && r.command.isNone && r.awaited.isNone && !r.isEscaped

/-- Takes all arguments. -/
def takeAll (r : Reading) : List String → Except NoCommand Reading
  | [] => .ok r
  | text :: rest =>
    if r.asksForHelp text then .error (helpOn rest)
    else (r.take text).bind fun r => takeAll r rest

/-- The command that a reading comes to. -/
def finish (r : Reading) : Except UsageError Command :=
  match r.awaited, r.command, r.entry with
  | some name, _, _ => .error (.missingValue name)
  | none, none, _ => .error .missingCommand
  | none, some .cacheDir, _ => .ok .cacheDir
  | none, some _, none => .error .missingEntry
  | none, some .graph, some entry => .ok (.graph entry !r.keepsOffline)
  | none, some .restore, some entry => .ok (.restore entry)

end Reading

/-- The command that arguments ask for. -/
def ofArguments (arguments : List String) : Except NoCommand Invocation :=
  match Reading.start.takeAll arguments with
  | .error e => .error e
  | .ok r =>
    match r.finish with
    | .error e => .error (.mistaken e)
    | .ok command => .ok ⟨command, r.inner.orElse r.outer⟩

end Invocation

end ModuleGraph
