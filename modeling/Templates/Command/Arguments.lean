/-!
# Arguments of the command line

What the program is asked to do, read off its arguments. There are two commands, each with options
of its own, and two options that show how one file is read. An option takes its value behind an
equals sign or as the next argument, which must not look like an option itself; behind `--` nothing
is an option. An option may be given once, apart from the names of parameters, and so may the path
of a command.

A request for the version or for help is answered as soon as it is met. All else that does not fit
is refused as a whole. A value that is an argument of its own is looked at when the next option or
the end is met, so if a command follows, the command is asked for help first.
-/

namespace Templates

/-- A command with its options. -/
inductive Command
  /-- Check templates; the names of parameters, and a file of them. -/
  | lint (path : String) (params : List String) (paramsFile : Option String)
  /-- Write templates in canonical form, or only tell which are not. -/
  | fmt (path : String) (check diff : Bool)
  deriving DecidableEq, Repr

/-- A request to the program. -/
inductive Request
  /-- Show the version. -/
  | version
  /-- Show how to use the program. -/
  | help
  /-- Show the tokens of a file. -/
  | tokens (path : String)
  /-- Show the tree of a file. -/
  | tree (path : String)
  /-- Carry out a command. -/
  | command (c : Command)
  /-- Nothing. -/
  | nothing
  deriving DecidableEq, Repr

namespace Arguments

/-- The form of an argument. -/
inductive Shape
  /-- The mark behind which nothing is an option. -/
  | endOfOptions
  /-- An option, and the value behind its equals sign. -/
  | option (name : String) (value : Option String)
  /-- Neither. -/
  | plain (text : String)
  deriving DecidableEq, Repr

/-- Tells what an argument looks like. A single minus sign is no option; a short option is one
letter and has no value. -/
def shape (argument : String) : Shape :=
  match argument.toList with
  | ['-', '-'] => .endOfOptions
  | '-' :: '-' :: cs =>
    let name := cs.takeWhile (· ≠ '=')
    let value := (cs.dropWhile (· ≠ '=')).tail?
    .option (String.ofList ('-' :: '-' :: name)) (value.map String.ofList)
  | '-' :: c :: _ => .option (String.ofList ['-', c]) none
  | _ => .plain argument

/-- The value of an option and the arguments behind it. -/
def value? (attached : Option String) (rest : List String) : Option (String × List String) :=
  match attached, rest with
  | some v, rest => some (v, rest)
  | none, [] => none
  | none, a :: rest =>
    match shape a with
    | .plain v => some (v, rest)
    | _ => none

/-- Sets what may be given once, and not as an empty path. -/
def once? (present : Option String) (path : String) : Option (Option String) :=
  if present.isSome || path.isEmpty then none else some (some path)

/-- The settings of the arguments of `lint` so far. -/
structure LintOptions where
  /-- The path. -/
  path : Option String := none
  /-- The names of parameters. -/
  params : List String := []
  /-- The file of parameters. -/
  paramsFile : Option String := none

/-- The settings of the arguments of `fmt` so far. -/
structure FmtOptions where
  /-- The path. -/
  path : Option String := none
  /-- Only tell which files are not canonical. -/
  check : Bool := false
  /-- Show how they differ. -/
  diff : Bool := false

/-- The path, where nothing is an option any more. -/
def onlyPath? (path : Option String) : List String → Option (Option String)
  | [] => some path
  | a :: rest => (once? path a).bind fun path => onlyPath? path rest

/-- Reads the arguments of `lint`. An argument is read in at most one step, so as many steps as
there are arguments are enough. -/
def lint? (o : LintOptions) (steps : Nat) (arguments : List String) : Option Request :=
  let result (o : LintOptions) : Request :=
    .command (.lint (o.path.getD ".") o.params o.paramsFile)
  match arguments, steps with
  | [], _ => some (result o)
  | _, 0 => none
  | a :: rest, steps + 1 =>
    match shape a with
    | .endOfOptions => (onlyPath? o.path rest).map fun path => result { o with path := path }
    | .plain path => (once? o.path path).bind fun path => lint? { o with path := path } steps rest
    | .option "-h" _ | .option "--help" none => some .help
    | .option "--param" value =>
      (value? value rest).bind fun (v, rest) =>
        lint? { o with params := o.params ++ [v] } steps rest
    | .option "--params-file" value =>
      (value? value rest).bind fun (v, rest) =>
        (once? o.paramsFile v).bind fun file => lint? { o with paramsFile := file } steps rest
    | .option _ _ => none

/-- Reads the arguments of `fmt`. -/
def fmt? (o : FmtOptions) : List String → Option Request
  | [] => some (result o)
  | a :: rest =>
    match shape a with
    | .endOfOptions => (onlyPath? o.path rest).map fun path => result { o with path := path }
    | .plain path => (once? o.path path).bind fun path => fmt? { o with path := path } rest
    | .option "-h" _ | .option "--help" none => some .help
    | .option "--check" none => if o.check then none else fmt? { o with check := true } rest
    | .option "--diff" none => if o.diff then none else fmt? { o with diff := true } rest
    | .option _ _ => none
where
  /-- The request of the arguments. -/
  result (o : FmtOptions) : Request := .command (.fmt (o.path.getD ".") o.check o.diff)

/-- The settings of the arguments in front of a command so far. -/
structure GlobalOptions where
  /-- The file whose tokens are asked for. -/
  tokensOf : Option String := none
  /-- The file whose tree is asked for. -/
  treeOf : Option String := none

/-- A file to show comes before a command, and only one can be asked for. -/
def withGlobal? (o : GlobalOptions) (r : Request) : Option Request :=
  match r, o.tokensOf, o.treeOf with
  | .help, _, _ => some .help
  | _, some _, some _ => none
  | _, some path, none => some (.tokens path)
  | _, none, some path => some (.tree path)
  | r, none, none => some r

/-- Reads the arguments of `help`, which can name one command. -/
def help? (arguments : List String) : Option Request :=
  if arguments ∈ [[], ["lint"], ["fmt"], ["help"]] then some .help else none

/-- The request of a command. -/
def command? : List String → Option Request
  | "lint" :: rest => lint? {} rest.length rest
  | "fmt" :: rest => fmt? {} rest
  | "help" :: rest => help? rest
  | _ => none

/-- The request behind an option whose value was refused: only a command's request for help goes
before the refusal, and only if the value was an argument of its own. -/
def behindRefused? (attached : Option String) (rest : List String) : Option Request :=
  if attached.isSome then none else (command? rest).filter (· = .help)

/-- Reads the arguments up to a command, and the command. An argument is read in at most one step.
-/
def global? (o : GlobalOptions) (steps : Nat) (arguments : List String) : Option Request :=
  match arguments, steps with
  | [], _ => withGlobal? o .nothing
  | _, 0 => none
  | a :: rest, steps + 1 =>
    match shape a with
    | .endOfOptions => if rest.isEmpty then withGlobal? o .nothing else none
    | .plain _ => (command? arguments).bind (withGlobal? o)
    | .option "-V" _ | .option "--version" none => some .version
    | .option "-h" _ | .option "--help" none => some .help
    | .option "--lex" value =>
      (value? value rest).bind fun (v, rest) =>
        match once? o.tokensOf v with
        | some file => global? { o with tokensOf := file } steps rest
        | none => behindRefused? value rest
    | .option "--parse" value =>
      (value? value rest).bind fun (v, rest) =>
        match once? o.treeOf v with
        | some file => global? { o with treeOf := file } steps rest
        | none => behindRefused? value rest
    | .option _ _ => none

end Arguments

/-- The request of the arguments; `none` if they do not fit. -/
def Request.ofArguments? (arguments : List String) : Option Request :=
  Arguments.global? {} arguments.length arguments

end Templates
