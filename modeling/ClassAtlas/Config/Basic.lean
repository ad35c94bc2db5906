import ClassAtlas.ClassFile.Codec
import ClassAtlas.Files.Access
import ClassAtlas.Files.Path
import ClassAtlas.Text.Utf8
import ClassAtlas.Toml.Document

/-!
Configurations: where the layers of a workspace come from and how it writes. They are kept in TOML
documents in which nothing is required and unknown keys do not matter.
-/

namespace ClassAtlas

/-- Where the layers of a workspace come from, where its snapshots go and how it writes units. -/
structure Config where
  primary : Option String
  libraries : List String
  runtime : List String
  snapshot : Option String
  flags : WriterFlags
  deriving DecidableEq, Repr, Inhabited

/-- Why a configuration cannot be read, written or opened. -/
inductive ConfigError where
  | malformed (path : String)
  | present (path : String)
  | file (error : FileError)
  | primaryLayer (path : String) (error : Error)
  | library (path : String) (error : Error)
  deriving DecidableEq, Repr

namespace ConfigError

def message : ConfigError → String
  | malformed path => s!"invalid config at {path}"
  | present path => s!"config already exists at {path} (use --force to overwrite)"
  | file e => e.message
  | primaryLayer path _ => s!"failed to load primary layer {path}"
  | library path _ => s!"failed to load library {path}"

end ConfigError

namespace Config

/-- The configuration without layers. -/
def standard : Config :=
  ⟨none, [], [], none, .standard⟩

/-- The file that holds the configuration unless another is named. -/
def standardPath : String := "jarscope.toml"

def path? : Toml.Value → Option String
  | .string s => some s
  | _ => none

def paths? : Toml.Value → Option (List String)
  | .array items => items.mapM path?
  | _ => none

/-- Whether a value holds nothing. -/
def isVacant : Toml.Value → Bool
  | .array items => items.isEmpty
  | .table _ entries => entries.isEmpty
  | _ => false

/-- Flags in a document: their word, or a table with that word for its only key. -/
def flags? : Toml.Value → Option WriterFlags
  | .string s => WriterFlags.ofName? s
  | .table _ [(word, v)] => if isVacant v then WriterFlags.ofName? word else none
  | _ => none

/-- The value of a key as `read` understands it, or the given one where the key is missing. -/
def entry? {α : Type} (t : Toml.Table) (key : String) (missing : α)
    (read : Toml.Value → Option α) : Option α :=
  match t.get? key with
  | none => some missing
  | some v => read v

def ofTable? (t : Toml.Table) : Option Config := do
  let primary ← entry? t "primary" none fun v => (path? v).map some
  let libraries ← entry? t "libraries" [] paths?
  let runtime ← entry? t "runtime" [] paths?
  let snapshot ← entry? t "snapshot" none fun v => (path? v).map some
  let flags ← entry? t "writer_flags" .standard flags?
  return ⟨primary, libraries, runtime, snapshot, flags⟩

def parse? (text : String) : Option Config :=
  (Toml.parse? text).bind ofTable?

def textLine (key : String) (s : String) : String :=
  s!"{key} = {Toml.writtenString s}\n"

/-- A line of a document with a list, or several lines for a list of more than one item. -/
def listLine (key : String) (items : List String) : String :=
  match items.map Toml.writtenString with
  | [] => s!"{key} = []\n"
  | [item] => s!"{key} = [{item}]\n"
  | items => s!"{key} = [\n" ++ String.join (items.map fun item => s!"    {item},\n") ++ "]\n"

def render (c : Config) : String :=
  ((c.primary.map (textLine "primary")).getD "") ++ listLine "libraries" c.libraries ++
    listLine "runtime" c.runtime ++ ((c.snapshot.map (textLine "snapshot")).getD "") ++
    textLine "writer_flags" c.flags.name

/-- The configuration with other values: a primary layer in place of its own, libraries behind its
own, and runtime archives, if there are any, in place of its own. -/
def merge (c : Config) (primary : Option String) (libraries runtime : List String) : Config :=
  { c with
    primary := primary <|> c.primary
    libraries := c.libraries ++ libraries
    runtime := if runtime.isEmpty then c.runtime else runtime }

variable {m : Type → Type} [Monad m] [FileAccess m]

/-- Reads the configuration in a file; a missing file holds none. -/
def load (path : Option String) : m (Except ConfigError (Option Config)) := do
  let path := path.getD standardPath
  if ← FileAccess.present path then
    match ← FileAccess.read path with
    | .error e => return .error (.file e)
    | .ok bytes =>
      match Utf8.decode? bytes with
      | none => return .error (.file .invalidText)
      | some text =>
        match parse? text with
        | some c => return .ok (some c)
        | none => return .error (.malformed path)
  else return .ok none

/-- Makes the directory in which a file shall lie, if it is missing. -/
def makeParent (path : String) : m (Except FileError Unit) := do
  let parent := Path.parent path
  if parent.isEmpty then return .ok ()
  else if ← FileAccess.present parent then return .ok ()
  else FileAccess.makeDirectory parent

/-- Writes a configuration to a file, which is overwritten only by force. -/
def save (path : String) (c : Config) (force : Bool) : m (Except ConfigError Unit) := do
  let taken ← FileAccess.present path
  if taken && !force then return .error (.present path)
  else
    match ← makeParent path with
    | .error e => return .error (.file e)
    | .ok _ =>
      match ← FileAccess.write path (Utf8.encode c.render) with
      | .error e => return .error (.file e)
      | .ok _ => return .ok ()

end Config

end ClassAtlas
