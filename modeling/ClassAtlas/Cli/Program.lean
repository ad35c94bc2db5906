import ClassAtlas.Cli.Arguments
import ClassAtlas.Cli.Commands
import ClassAtlas.Config.Open

/-!
The program: from a command line to what is printed and the exit code.
-/

namespace ClassAtlas.Cli

/-- What a run of the program leaves behind, apart from files. -/
structure Outcome where
  code : Nat
  out : String
  err : String
  deriving DecidableEq, Repr, Inhabited

/-- The line about a failure that no command has reported. -/
def Outcome.ofFailure (message : String) : Outcome :=
  ⟨1, "", Report.line s!"Error: {message}"⟩

/-- The outcome of a command. For human readers a failure has a picture in front. A wait that cannot
be measured breaks the run off. -/
def Outcome.ofCommand (json : Bool) : Except Failure Reply → Outcome
  | .ok r => ⟨0, r.out, r.err⟩
  | .error (.wait seconds) => ⟨101, "", Report.line (Failure.wait seconds).message⟩
  | .error f => if json then .ofFailure f.message else ⟨1, "", Report.failure f.message⟩

/-- The answer to a question for the version. -/
def versionText : String := Report.line "jarscope 0.1.0"

/-- How the program is used. -/
def usageText : String :=
  "Usage: jarscope [OPTIONS] <COMMAND>\n\nCommands:\n" ++
    "  init, layers, resolve, parents, children, calls, callers, dangling, stats, snapshot\n\n" ++
    "Options:\n  -v, --verbose\n      --json\n  -c, --config <CONFIG>\n" ++
    "  -p, --primary <PRIMARY>\n  -l, --lib <LIBS>\n      --runtime <RUNTIME>\n" ++
    "  -h, --help\n  -V, --version\n"

variable {m : Type → Type} [Monad m] [FileAccess m]

/-- Writes a configuration with the layers that the settings name. -/
def init (s : Settings) (force : Bool) : m Outcome := do
  let path := s.config.getD Config.standardPath
  let c := Config.standard.merge s.primary s.libraries s.runtime
  match ← Config.save path c force with
  | .error e => return .ofFailure e.message
  | .ok _ =>
    return .ofCommand s.json (.ok (reply s.json "init" (Report.success s!"Wrote {path}")
      (.object [("path", .string path), ("config", c.toJson)])))

def runIn (w : Workspace) (json : Bool) : Command → m (Except Failure Reply)
  | .init _ => return .ok (.text "")
  | .layers => return .ok ((layers json).run w).1
  | .resolve name => return .ok ((resolve json name).run w).1
  | .parents name all => return ((parents json name all).run w).1
  | .children name all => return ((children json name all).run w).1
  | .calls method blocks => return ((calls json method blocks).run w).1
  | .callers method => return ((callers json method).run w).1
  | .dangling => return .ok ((dangling json).run w).1
  | .stats => return .ok ((stats json).run w).1
  | .snapshot out timeout => snapshot json w out timeout

/-- Opens the workspace that the settings describe and runs a command in it. -/
def openAndRun (surroundings : Config.Surroundings) (s : Settings) (c : Command) : m Outcome := do
  match ← Config.load s.config with
  | .error e => return .ofFailure e.message
  | .ok found =>
    let config := (found.getD .standard).merge s.primary s.libraries s.runtime
    match ← config.openWorkspace surroundings with
    | .error e => return .ofFailure e.message
    | .ok w => return .ofCommand s.json (← runIn w s.json c)

/-- Runs the program. -/
def run (surroundings : Config.Surroundings) (args : List String) : m Outcome := do
  match parse args with
  | .help => return ⟨0, usageText, ""⟩
  | .version => return ⟨0, versionText, ""⟩
  | .refused => return ⟨2, "", usageText⟩
  | .run s (.init force) => init s force
  | .run s c => openAndRun surroundings s c

end ClassAtlas.Cli
