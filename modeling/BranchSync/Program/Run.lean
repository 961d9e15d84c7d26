import BranchSync.Accounts
import BranchSync.Config.File
import BranchSync.Program.Help
import BranchSync.Program.LogFilter
import BranchSync.Text.Quoted

/-!
# Running the program

What the program does with its command line, given what files hold: it ends with an exit code
and texts for its two output channels, or it is ready to serve. Everything that can fail before
the server listens is decided here.
-/

namespace BranchSync

/-- What comes of starting the program. -/
inductive Outcome where
  /-- The program ends. -/
  | ended (exitCode : Nat) (output diagnostics : String)
  /-- The program is to listen with the given settings and accounts. -/
  | ready (settings : Settings) (accounts : Accounts)

namespace Outcome

/-- The end of a program that could not do its job: a headline and, if known, the cause. -/
def failed (headline : String) (cause : Option ServerError) : Outcome :=
  let detail := match cause with
    | none => ""
    | some e => "\nCaused by:\n    " ++ e.message ++ "\n"
  .ended 1 "" ("Error: " ++ headline ++ "\n" ++ detail)

end Outcome

/-- The contents of files by path. -/
abbrev FileReader := String → Option (List UInt8)

/-- The effective settings: those of the file, or the defaults if none is named. -/
def loadSettings (files : FileReader) : Option String → Except ServerError Settings
  | none => .ok .default
  | some path => Settings.ofFile (files path)

/-- The headline for settings that could not be loaded. -/
def loadingFailed (path : Option String) : String :=
  "loading config from " ++ path.getD ""

/-- Print the effective settings. -/
def runConfig (files : FileReader) (path : Option String) : Outcome :=
  match loadSettings files path with
  | .error e => .failed (loadingFailed path) (some e)
  | .ok settings =>
    match settings.toToml with
    | .error e => .failed e.message none
    | .ok text => .ended 0 text ""

/-- Prepare to serve: the address of the command line wins over that of the file, the log filter
is checked, and the accounts are registered. -/
def runServe (files : FileReader) (path : Option String) (bind : Option Net.SocketAddress)
    (users : List String) : Outcome :=
  match loadSettings files path with
  | .error e => .failed (loadingFailed path) (some e)
  | .ok loaded =>
    let settings := { loaded with bindAddress := bind.getD loaded.bindAddress }
    if LogFilter.isValid settings.logFilter then
      .ready settings (users.foldl Accounts.addAccount .empty)
    else .failed ("invalid log_filter " ++ Text.Quoted.text settings.logFilter) none

/-- End the program on a command line that is not a command. -/
def refuseUsage (e : UsageError) : Outcome :=
  match e with
  | .help topic => .ended e.exitCode topic.text ""
  | .version => .ended e.exitCode versionLine ""
  | .missingCommand => .ended e.exitCode "" HelpTopic.program.text
  | _ => .ended e.exitCode ""
      ("error: " ++ e.reason ++ "\n\nFor more information, try '--help'.\n")

/-- Run the program on the words of its command line. -/
def runProgram (files : FileReader) (words : List String) : Outcome :=
  match Command.ofWords words with
  | .error e => refuseUsage e
  | .ok (.serve path bind users) => runServe files path bind users
  | .ok (.config path) => runConfig files path

end BranchSync
