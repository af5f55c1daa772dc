import RouteTree.Project.Inspection
import RouteTree.Json.Project
import RouteTree.Toml.Reader

/-!
# The command line

There are two commands: `build` compiles the groups of a project, and `inspect` resolves
one request path.  Both take the project file and the name of a group as options.  A
project file that is not given is searched from the working directory upward.
-/

namespace RouteTree

/-! ## Arguments -/

/-- What the arguments of a command say. -/
structure Arguments where
  config : Option String := none
  group : Option String := none
  /-- the arguments that are no options -/
  operands : List String := []
  deriving DecidableEq, Repr, Inhabited

/-- The options of a command. -/
inductive CommandOption where
  | config
  | group
  deriving DecidableEq, Repr, Inhabited

/-- How an argument is to be read. -/
inductive ArgumentShape where
  /-- as an option whose value is the next argument -/
  | optionAlone (option : CommandOption)
  /-- as an option with its value -/
  | optionWith (option : CommandOption) (value : String)
  /-- as what the command works on -/
  | operand (text : String)
  /-- as an option that there is none of -/
  | unknown
  deriving DecidableEq, Repr, Inhabited

namespace CommandOption

/-- The option of a long name. -/
def ofName? (name : String) : Option CommandOption :=
  if name = "config" then some .config else if name = "group" then some .group else none

/-- The option of a letter. -/
def ofLetter? (letter : Char) : Option CommandOption :=
  if letter = 'c' then some .config else if letter = 'g' then some .group else none

/-- The shape of an option with what is attached to it. -/
def withAttached (option : CommandOption) : Option (List Char) → ArgumentShape
  | none => .optionAlone option
  | some value => .optionWith option (String.ofList value)

end CommandOption

namespace ArgumentShape

/-- The value that is attached to the letter of an option, with or without an equals
sign. -/
def attached? : List Char → Option (List Char)
  | [] => none
  | '=' :: value => some value
  | value => some value

/-- The shape of an argument. -/
def ofText (text : String) : ArgumentShape :=
  match text.toList with
  | '-' :: '-' :: long =>
    let name := String.ofList (long.takeWhile (· ≠ '='))
    match CommandOption.ofName? name with
    | some option => option.withAttached (long.dropWhile (· ≠ '=')).tail?
    | none => .unknown
  | '-' :: letter :: rest =>
    match CommandOption.ofLetter? letter with
    | some option => option.withAttached (attached? rest)
    | none => .unknown
  | _ => .operand text

end ArgumentShape

namespace Arguments

/-- Sets an option.  It may be given once, and a project file has a name. -/
def set? (arguments : Arguments) (option : CommandOption) (value : String) : Option Arguments :=
  match option with
  | .config =>
    if arguments.config.isSome || value = "" then none
    else some { arguments with config := some value }
  | .group =>
    if arguments.group.isSome then none else some { arguments with group := some value }

/-- Whether an argument can be the value of the option before it: it starts with no dash,
or is a dash alone. -/
def isValue (text : String) : Bool :=
  text = "-" || text.toList.head? ≠ some '-'

/-- Reads arguments.  Behind two dashes nothing is an option. -/
def read? (arguments : Arguments) : List String → Option Arguments
  | [] => some arguments
  | text :: rest =>
    if text = "--" then
      some { arguments with operands := arguments.operands ++ rest }
    else
      match ArgumentShape.ofText text, rest with
      | .operand text, rest =>
        { arguments with operands := arguments.operands ++ [text] }.read? rest
      | .optionWith option value, rest => (arguments.set? option value).bind (·.read? rest)
      | .optionAlone option, value :: rest =>
        if isValue value then (arguments.set? option value).bind (·.read? rest) else none
      | .optionAlone _, [] => none
      | .unknown, _ => none

end Arguments

/-- What the program is asked to do. -/
inductive Command where
  | build (config group : Option String)
  | inspect (path : String) (config group : Option String)
  /-- tell its version -/
  | version
  deriving DecidableEq, Repr, Inhabited

/-- Reads a command line; `none` if it is not used as it should be. -/
def Command.read? : List String → Option Command
  | [] => none
  | word :: rest =>
    if word = "--version" ∨ word.toList.take 2 = ['-', 'V'] then some .version
    else
      match word, Arguments.read? {} rest with
      | "build", some ⟨config, group, []⟩ => some (.build config group)
      | "inspect", some ⟨config, group, [path]⟩ => some (.inspect path config group)
      | _, _ => none

/-- How the program is used. -/
def usage : String :=
  "Usage: " ++ Terminal.name ++ " build [-c FILE] [-g GROUP]\n" ++
  "       " ++ Terminal.name ++ " inspect PATH [-c FILE] [-g GROUP]\n" ++
  "       " ++ Terminal.name ++ " --version\n"

/-! ## Running a command -/

variable {m : Type → Type} [Monad m]

/-- The first of some directories that holds a project file: the path of the file. -/
def findFrom (host : Host m) : List String → m (Option String)
  | [] => return none
  | directory :: above => do
    let path := FilePath.join directory Failure.projectFile
    if ← host.isFile path then return some path
    else findFrom host above

/-- The project file of a directory: its own, or that of the nearest directory above. -/
def findProject (host : Host m) (start : String) : ExceptT Failure m String := do
  match ← host.canonical start with
  | .error fault => throw (.cannotStart start fault)
  | .ok directory =>
    match ← ExceptT.lift (findFrom host (FilePath.ancestors directory)) with
    | some path => return path
    | none => throw (.projectNotFound start)

/-- The project of a text, which must declare its groups properly. -/
def Project.parse (path text : String) : Except Failure Project :=
  match (Toml.parse? text).bind (Project.ofJson? .toml) with
  | none => .error (.badProject path)
  | some project =>
    match project.fault? with
    | none => .ok project
    | some failure => .error failure

/-- Reads a project file. -/
def loadProject (host : Host m) (path : String) : ExceptT Failure m Project := do
  match ← host.readText path with
  | .error fault => throw (.cannotRead path fault)
  | .ok text =>
    match Project.parse path text with
    | .error failure => throw failure
    | .ok project => return project

/-- The project that is meant, and the directory of its file. -/
def openProject (host : Host m) (config : Option String) :
    ExceptT Failure m (Project × String) := do
  let path ← match config with
    | some path => pure path
    | none =>
      match ← host.canonical "." with
      | .error fault => throw (.cannotStart "." fault)
      | .ok directory => findProject host directory
  let project ← loadProject host path
  return (project, (FilePath.parent? path).getD ".")

/-- Does what the program is asked to do. -/
def Command.run (host : Host m) : Command → ExceptT Failure m Unit
  | .version => host.print (Terminal.name ++ " " ++ Terminal.version ++ "\n")
  | .build config group => do
    host.print (Terminal.banner "build")
    let (project, base) ← openProject host config
    let _ ← project.build host base group
  | .inspect path config group => do
    let (project, base) ← openProject host config
    project.inspect host base path group

/-- How a run of the program ends. -/
inductive Ending where
  /-- it has done what it was asked to do -/
  | done
  /-- it was not used as it should be -/
  | misused
  | failed (failure : Failure)
  deriving DecidableEq, Repr, Inhabited

/-- The exit code. -/
def Ending.code : Ending → Nat
  | .done => 0
  | .failed _ => 1
  | .misused => 2

/-- Runs the program.  Misuse and failure are reported at the end. -/
def runProgram (host : Host m) (arguments : List String) : m Ending := do
  match Command.read? arguments with
  | none =>
    host.printError usage
    return .misused
  | some command =>
    match ← (command.run host).run with
    | .ok () => return .done
    | .error failure =>
      host.printError failure.report
      return .failed failure

end RouteTree
