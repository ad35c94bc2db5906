import ClassAtlas.Text.Pieces

/-!
The command line: options that may stand anywhere, a command, and what belongs to the command.
-/

namespace ClassAtlas.Cli

/-- What the program is asked to do. -/
inductive Command where
  | init (force : Bool)
  | layers
  | resolve (name : String)
  | parents (name : String) (all : Bool)
  | children (name : String) (all : Bool)
  | calls (method : String) (blocks : Bool)
  | callers (method : String)
  | dangling
  | stats
  | snapshot (out : Option String) (timeout : Nat)
  deriving DecidableEq, Repr

/-- What may be asked of every command. -/
structure Settings where
  json : Bool
  config : Option String
  primary : Option String
  libraries : List String
  runtime : List String
  deriving DecidableEq, Repr

/-- A command line that was understood, or the reason why there is nothing to run. -/
inductive Request where
  | run (settings : Settings) (command : Command)
  | help
  | version
  | refused
  deriving DecidableEq, Repr

inductive OptionKey where
  | verbose
  | json
  | config
  | primary
  | library
  | runtime
  | force
  | all
  | blocks
  | out
  | timeout
  | help
  | version
  deriving DecidableEq, Repr

/-- How an option is written, whether a value follows, and whether it may be given again. -/
structure OptionSpec where
  key : OptionKey
  long : String
  short : Option Char
  takesValue : Bool
  repeatable : Bool
  deriving Repr

def helpOption : OptionSpec := ⟨.help, "help", some 'h', false, false⟩

/-- Options that may stand in front of the command and behind it. -/
def commonOptions : List OptionSpec := [
  ⟨.verbose, "verbose", some 'v', false, false⟩,
  ⟨.json, "json", none, false, false⟩,
  ⟨.config, "config", some 'c', true, false⟩,
  ⟨.primary, "primary", some 'p', true, false⟩,
  ⟨.library, "lib", some 'l', true, true⟩,
  ⟨.runtime, "runtime", none, true, true⟩,
  helpOption]

/-- Options that stand in front of the command. -/
def leadingOptions : List OptionSpec :=
  commonOptions ++ [⟨.version, "version", some 'V', false, false⟩]

/-- How many names a command needs, and the options of its own; nothing for an unknown command. -/
def commandShape? : String → Option (Nat × List OptionSpec)
  | "init" => some (0, [⟨.force, "force", some 'f', false, false⟩])
  | "layers" => some (0, [])
  | "resolve" => some (1, [])
  | "parents" => some (1, [⟨.all, "all", some 'a', false, false⟩])
  | "children" => some (1, [⟨.all, "all", some 'a', false, false⟩])
  | "calls" => some (1, [⟨.blocks, "blocks", some 'b', false, false⟩])
  | "callers" => some (1, [])
  | "dangling" => some (0, [])
  | "stats" => some (0, [])
  | "snapshot" =>
    some (0, [⟨.out, "out", some 'o', true, false⟩, ⟨.timeout, "timeout", none, true, false⟩])
  | _ => none

/-- An option as it was given, with its value. -/
structure Given where
  spec : OptionSpec
  value : String
  deriving Repr

/-- Whether an argument is meant as an option. -/
def isOption (arg : String) : Bool :=
  arg.startsWith "-" && arg != "-"

/-- The value that the next argument gives to an option. -/
def nextValue? : List String → Option String
  | [] => none
  | value :: _ => if isOption value then none else some value

/-- What an argument gives: options, and how many further arguments they take. The number is missing
if something stands behind these options that cannot be understood. -/
structure Group where
  given : List Given
  taken : Option Nat
  deriving Repr

/-- Nothing that can be understood. -/
def Group.unclear : Group := ⟨[], none⟩

/-- An option whose value is the next argument. -/
def Group.withNext (spec : OptionSpec) (rest : List String) : Group :=
  match nextValue? rest with
  | some value => ⟨[⟨spec, value⟩], some 1⟩
  | none => .unclear

/-- What an argument with two dashes gives. -/
def longGroup (specs : List OptionSpec) (rest : List String) (cs : List Char) : Group :=
  let (name, assigned) := cs.span (· != '=')
  match specs.find? (·.long == String.ofList name) with
  | none => .unclear
  | some spec =>
    match spec.takesValue, assigned with
    | true, _ :: value => ⟨[⟨spec, String.ofList value⟩], some 0⟩
    | true, [] => .withNext spec rest
    | false, [] => ⟨[⟨spec, ""⟩], some 0⟩
    | false, _ :: _ => .unclear

/-- What an argument with one dash gives: an option for every character, up to one with a value. -/
def shortGroup (specs : List OptionSpec) (rest : List String) : List Char → Group
  | [] => ⟨[], some 0⟩
  | c :: cs =>
    match specs.find? (·.short == some c) with
    | none => .unclear
    | some spec =>
      if spec.takesValue then
        match cs with
        | [] => .withNext spec rest
        | '=' :: value => ⟨[⟨spec, String.ofList value⟩], some 0⟩
        | value => ⟨[⟨spec, String.ofList value⟩], some 0⟩
      else
        let others := shortGroup specs rest cs
        { others with given := ⟨spec, ""⟩ :: others.given }

/-- What an argument gives that is meant as an option. -/
def group (specs : List OptionSpec) (arg : String) (rest : List String) : Group :=
  match arg.toList with
  | '-' :: '-' :: cs => longGroup specs rest cs
  | _ :: cs => shortGroup specs rest cs
  | [] => .unclear

def seconds? (text : String) : Option Nat :=
  let digits := match text.toList with
    | '+' :: cs => cs
    | cs => cs
  if !digits.isEmpty && digits.all Char.isDigit then
    let n := digits.foldl (fun n c => 10 * n + (c.toNat - 48)) 0
    if n < 18446744073709551616 then some n else none
  else none

/-- Whether an option has a value that it can take. -/
def isSound (g : Given) : Bool :=
  if g.spec.key == .timeout then (seconds? g.value).isSome
  else !g.spec.takesValue || !g.value.isEmpty

/-- What has been read of one part of the command line. -/
structure Part where
  given : List Given
  names : List String
  deriving Repr

/-- How the reading of a part ends: at the end of the arguments, at a command with the arguments
behind it, or early. -/
inductive Reading where
  | part (p : Part)
  | command (p : Part) (name : String) (rest : List String)
  | early (r : Request)
  deriving Repr

/-- Adds options to those of a part, one after the other, unless one of them ends the reading. -/
def take (p : Part) : List Given → Except Request Part
  | [] => .ok p
  | g :: rest =>
    if g.spec.key == .help then .error .help
    else if g.spec.key == .version then .error .version
    else if !isSound g then .error .refused
    else if !g.spec.repeatable && p.given.any (·.spec.key == g.spec.key) then .error .refused
    else take { p with given := p.given ++ [g] } rest

/-- Reads arguments. Without a number of names the first one is a command; behind two dashes all
arguments are names. -/
def read (specs : List OptionSpec) (names : Option Nat) (p : Part) (args : List String) : Reading :=
  match args with
  | [] => .part p
  | arg :: rest =>
    if arg == "--" then
      match names with
      | none => .early .refused
      | some n =>
        let p := { p with names := p.names ++ rest }
        if p.names.length ≤ n then .part p else .early .refused
    else if isOption arg then
      let g := group specs arg rest
      match take p g.given, g.taken with
      | .error r, _ => .early r
      | .ok _, none => .early .refused
      | .ok p, some taken => read specs names p (rest.drop taken)
    else
      match names with
      | none => .command p arg rest
      | some n =>
        if p.names.length < n then read specs names { p with names := p.names ++ [arg] } rest
        else .early .refused
termination_by args.length
decreasing_by
  all_goals
    simp only [List.length_drop, List.length_cons]
    omega

def Part.has (p : Part) (key : OptionKey) : Bool :=
  p.given.any (·.spec.key == key)

def Part.values (p : Part) (key : OptionKey) : List String :=
  (p.given.filter (·.spec.key == key)).map (·.value)

/-- What the parts in front of a command and behind it say about an option; the later part counts if
it says anything. -/
def latest (before behind : Part) (key : OptionKey) : List String :=
  if behind.has key then behind.values key else before.values key

/-- The settings of a command line. -/
def settings (before behind : Part) : Settings where
  json := before.has .json || behind.has .json
  config := (latest before behind .config).head?
  primary := (latest before behind .primary).head?
  libraries := latest before behind .library
  runtime := latest before behind .runtime

/-- Seconds to wait for a snapshot unless the command line says otherwise. -/
def standardTimeout : Nat := 30

/-- The command of a name, with what was read behind it. -/
def command? (name : String) (p : Part) : Option Command :=
  match name, p.names with
  | "init", [] => some (.init (p.has .force))
  | "layers", [] => some .layers
  | "resolve", [n] => some (.resolve n)
  | "parents", [n] => some (.parents n (p.has .all))
  | "children", [n] => some (.children n (p.has .all))
  | "calls", [m] => some (.calls m (p.has .blocks))
  | "callers", [m] => some (.callers m)
  | "dangling", [] => some .dangling
  | "stats", [] => some .stats
  | "snapshot", [] =>
    some (.snapshot (p.values .out).head?
      (((p.values .timeout).head?.bind seconds?).getD standardTimeout))
  | _, _ => none

/-- What the help command is asked to explain: the program, or one of the commands. -/
def explains (topics : List String) : Bool :=
  match topics with
  | [] => true
  | [topic] => topic == "help" || (commandShape? topic).isSome
  | _ => false

/-- The request that a command line makes. -/
def parse (args : List String) : Request :=
  match read leadingOptions none ⟨[], []⟩ args with
  | .early r => r
  | .part _ => .refused
  | .command before name rest =>
    if name == "help" then (if explains rest then .help else .refused)
    else
      match commandShape? name with
      | none => .refused
      | some (names, own) =>
        match read (commonOptions ++ own) (some names) ⟨[], []⟩ rest with
        | .early r => r
        | .command .. => .refused
        | .part behind =>
          match command? name behind with
          | some c => .run (settings before behind) c
          | none => .refused

end ClassAtlas.Cli
