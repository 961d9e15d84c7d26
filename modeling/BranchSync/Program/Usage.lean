import BranchSync.Net.SocketAddress

/-!
# The command line

The program has two commands: `serve` starts the server, `config` prints the effective
configuration. A command line is read from left to right up to the first fault. The value of
an option may be attached to it or follow as the next word; a value that follows is only looked
at when the next option of the command, or the end of the line, settles it.
-/

namespace BranchSync

/-- What the program is told to do. -/
inductive Command where
  | serve (config : Option String) (bind : Option Net.SocketAddress) (accounts : List String)
  | config (path : Option String)
  deriving DecidableEq

/-- The options that take a value. -/
inductive ValueOption where
  | config
  | bind
  | account
  deriving DecidableEq, Repr

/-- What help is about. -/
inductive HelpTopic where
  | program
  | serve
  | config
  | help
  deriving DecidableEq, Repr

/-- Why a command line does not tell the program what to do. -/
inductive UsageError where
  /-- Help was asked for. -/
  | help (topic : HelpTopic)
  /-- The version was asked for. -/
  | version
  /-- There is no command. -/
  | missingCommand
  /-- The word is not the name of a command. -/
  | unknownCommand (word : String)
  /-- The word stands where nothing, or another option, is expected. -/
  | unknownArgument (word : String)
  /-- A value is attached to an option that takes none. -/
  | unneededValue (option : String)
  /-- An option lacks its value. -/
  | missingValue (option : ValueOption)
  /-- The value of an option is not understood. -/
  | badValue (option : ValueOption) (value : String)
  /-- An option is given twice. -/
  | repeatedOption (option : ValueOption)
  deriving DecidableEq, Repr

/-- The exit code of the program: asking for help or the version is no fault. -/
def UsageError.exitCode : UsageError → Nat
  | .help _ => 0
  | .version => 0
  | _ => 2

/-- A word of the command line by its form. -/
inductive Word where
  /-- Two dashes: only plain words follow. -/
  | escape
  /-- Two dashes and a name, with a value after an equals sign. -/
  | long (name : String) (value : Option String)
  /-- A dash and letters. -/
  | short (letters : List Char)
  | plain (text : String)
  deriving DecidableEq, Repr

/-- The form of a word. A single dash is a plain word. -/
def Word.ofText (s : String) : Word :=
  match s.toList with
  | ['-', '-'] => .escape
  | '-' :: '-' :: rest =>
    let name := String.ofList (rest.takeWhile (· != '='))
    match rest.dropWhile (· != '=') with
    | [] => .long name none
    | _ :: value => .long name (some (String.ofList value))
  | '-' :: c :: rest => .short (c :: rest)
  | _ => .plain s

/-- The commands that take options. -/
inductive Leaf where
  | serve
  | config
  deriving DecidableEq, Repr

namespace Leaf

/-- The help topic of a command. -/
def topic : Leaf → HelpTopic
  | .serve => .serve
  | .config => .config

/-- The option of a command with a long name. -/
def long? : Leaf → String → Option ValueOption
  | leaf, name =>
    if name = "config" then some .config
    else if leaf = .serve ∧ name = "bind" then some .bind
    else if leaf = .serve ∧ name = "account" then some .account
    else none

end Leaf

/-- The values of options read so far, and an option that awaits its value or the settling of
it. -/
structure Reading where
  config : Option String
  bind : Option Net.SocketAddress
  accounts : List String
  pending : Option (ValueOption × Option String)
  deriving DecidableEq

namespace Reading

/-- Nothing read yet. -/
def start : Reading := ⟨none, none, [], none⟩

/-- Take the value of an option. Only accounts may be given more than once; a path is not
empty, and an address has to be one. -/
def store (r : Reading) (option : ValueOption) (value : String) : Except UsageError Reading :=
  match option with
  | .config =>
    if r.config.isSome then .error (.repeatedOption .config)
    else if value = "" then .error (.missingValue .config)
    else .ok { r with config := some value }
  | .bind =>
    if r.bind.isSome then .error (.repeatedOption .bind)
    else match Net.SocketAddress.ofText? value with
      | none => .error (.badValue .bind value)
      | some address => .ok { r with bind := some address }
  | .account => .ok { r with accounts := r.accounts ++ [value] }

/-- Settle the pending option. -/
def settle (r : Reading) : Except UsageError Reading :=
  match r.pending with
  | none => .ok r
  | some (option, none) => .error (.missingValue option)
  | some (option, some value) => store { r with pending := none } option value

/-- Meet an option with its attached value, or await one. -/
def meet (r : Reading) (option : ValueOption) (attached : Option String) :
    Except UsageError Reading := do
  let r ← r.settle
  match attached with
  | some value => r.store option value
  | none => pure { r with pending := some (option, none) }

/-- Read a word of a command. -/
def step (leaf : Leaf) (r : Reading) (word : String) : Except UsageError Reading :=
  match Word.ofText word with
  | .plain text =>
    match r.pending with
    | some (option, none) => .ok { r with pending := some (option, some text) }
    | _ => .error (.unknownArgument word)
  | .long name value =>
    if name = "help" then
      if value.isSome then .error (.unneededValue name)
      else do
        let _ ← r.settle
        .error (.help leaf.topic)
    else match leaf.long? name with
      | some option => r.meet option value
      | none => .error (.unknownArgument word)
  | .short ('h' :: _) => do
    let _ ← r.settle
    .error (.help leaf.topic)
  | .short ('c' :: []) => r.meet .config none
  | .short ('c' :: '=' :: value) => r.meet .config (some (String.ofList value))
  | .short ('c' :: value) => r.meet .config (some (String.ofList value))
  | .short _ => .error (.unknownArgument word)
  | .escape => .error (.unknownArgument word)

/-- Read the words of a command. After two dashes no further word is expected. -/
def read (leaf : Leaf) (r : Reading) : List String → Except UsageError Reading
  | [] => r.settle
  | word :: rest =>
    if Word.ofText word = .escape then
      match rest with
      | [] => r.settle
      | next :: _ => .error (.unknownArgument next)
    else do
      let r ← r.step leaf word
      r.read leaf rest

end Reading

/-- The command that the words after its name make up. -/
def Leaf.command (leaf : Leaf) (words : List String) : Except UsageError Command := do
  let r ← Reading.start.read leaf words
  match leaf with
  | .serve => pure (.serve r.config r.bind r.accounts)
  | .config => pure (.config r.config)

/-- Whether a word is the name of a command. -/
def isCommandName (word : String) : Bool :=
  word == "serve" || word == "config" || word == "help"

/-- What the words after `help` ask about: nothing, or the name of a command. -/
def helpTopic : List String → UsageError
  | [] => .help .program
  | word :: rest =>
    if isCommandName word then
      match rest with
      | next :: _ => .unknownCommand next
      | [] =>
        if word = "serve" then .help .serve
        else if word = "config" then .help .config
        else .help .help
    else .unknownCommand word

/-- The command that a command line stands for; the words do not include the program's name. -/
def Command.ofWords (words : List String) : Except UsageError Command :=
  match words with
  | [] => .error .missingCommand
  | word :: rest =>
    match Word.ofText word with
    | .escape =>
      match rest with
      | [] => .error .missingCommand
      | next :: _ =>
        if isCommandName next then .error (.unknownArgument next)
        else .error (.unknownCommand next)
    | .long name value =>
      if name = "help" ∨ name = "version" then
        if value.isSome then .error (.unneededValue name)
        else if name = "help" then .error (.help .program)
        else .error .version
      else .error (.unknownArgument word)
    | .short ('h' :: _) => .error (.help .program)
    | .short ('V' :: _) => .error .version
    | .short _ => .error (.unknownArgument word)
    | .plain text =>
      if text = "serve" then Leaf.serve.command rest
      else if text = "config" then Leaf.config.command rest
      else if text = "help" then .error (helpTopic rest)
      else .error (.unknownCommand text)

end BranchSync
