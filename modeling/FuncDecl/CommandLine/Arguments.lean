/-!
# Arguments

The command line names an action and a path, with options before or behind them. An option may be
given once before the action and once behind it; the later one counts.

* `Action`, `Invocation`: what the command can be asked to do, and all that one run goes by.
* `Request`: an invocation, a question for help, or arguments that do not fit.
* `Reading.take`: takes the arguments one after the other and ends at the first that does not fit.
* `parseArguments`: what a list of arguments asks for.
-/

namespace FuncDecl.CommandLine

/-- What to do with the source files.
Source: `Command`. -/
inductive Action where
  /-- Report what is wrong with them. -/
  | check
  /-- Print their declarations. -/
  | emit
deriving DecidableEq, Repr

/-- What the command is asked to do.
Source: `Cli`. -/
structure Invocation where
  action : Action
  path : String
  /-- The file of settings, if one is named. -/
  config : Option String
  verbose : Bool
deriving DecidableEq, Repr

/-- What a list of arguments asks for. -/
inductive Request where
  | run (invocation : Invocation)
  /-- An explanation of the command, or of one of its actions. -/
  | help (topic : Option Action)
  /-- The arguments do not fit. -/
  | misuse
deriving DecidableEq, Repr

/-- The options given so far. -/
structure Options where
  config : Option String := none
  verbose : Bool := false
deriving DecidableEq, Repr

/-! ## The form of an argument -/

/-- An argument by its form. -/
inductive Argument where
  /-- Two dashes: what follows are no options. -/
  | separator
  /-- A long option, perhaps with a value behind an equals sign. -/
  | long (name : String) (value : Option String)
  /-- Letters behind one dash, each an option. -/
  | letters (letters : List Char)
  /-- Anything else. -/
  | plain (text : String)
deriving DecidableEq, Repr

/-- The form of an argument. A single dash is no option. -/
def Argument.ofText (text : String) : Argument :=
  match text.toList with
  | '-' :: '-' :: [] => separator
  | '-' :: '-' :: rest =>
    let name := String.ofList (rest.takeWhile (· != '='))
    match rest.dropWhile (· != '=') with
    | _ :: value => long name (some (String.ofList value))
    | [] => long name none
  | '-' :: c :: rest => letters (c :: rest)
  | _ => plain text

/-- Whether an argument can be the value of an option before it. -/
def isValue (text : String) : Bool :=
  match Argument.ofText text with
  | .plain value => value != ""
  | _ => false

/-! ## Reading the arguments -/

/-- What has been read: the options before the action, the action with its path, and the options at
the place that is being read. -/
structure Reading where
  outer : Options := {}
  action : Option Action := none
  path : Option String := none
  options : Options := {}
deriving DecidableEq, Repr

namespace Reading

/-- Name the file of settings, unless it is named already. -/
def setConfig (r : Reading) (value : String) : Option Reading :=
  if r.options.config.isSome || value == "" then none
  else some { r with options := { r.options with config := some value } }

/-- Ask for a detailed log, unless that was done already. -/
def setVerbose (r : Reading) : Option Reading :=
  if r.options.verbose then none
  else some { r with options := { r.options with verbose := true } }

/-- Take an argument that is no option: the action comes first, then the path. -/
def takePlain (r : Reading) (text : String) : Option Reading :=
  match r.action with
  | none =>
    if text = "check" then some { outer := r.options, action := some .check }
    else if text = "emit" then some { outer := r.options, action := some .emit }
    else none
  | some _ => if r.path.isSome || text == "" then none else some { r with path := some text }

/-- Take the letters behind a dash. -/
def takeLetters (r : Reading) : List Char → Except Request Reading
  | [] => .ok r
  | c :: cs =>
    if c = 'v' then
      match r.setVerbose with
      | some r => takeLetters r cs
      | none => .error .misuse
    else if c = 'h' then .error (.help r.action)
    else .error .misuse

/-- What is asked for when all arguments are read. -/
def finish (r : Reading) : Request :=
  match r.action, r.path with
  | some action, some path =>
    .run ⟨action, path, r.options.config <|> r.outer.config,
      r.options.verbose || r.outer.verbose⟩
  | _, _ => .misuse

/-- Take the arguments behind two dashes. -/
def takeRest (r : Reading) : List String → Request
  | [] => r.finish
  | text :: rest =>
    match r.action, r.takePlain text with
    | some _, some r => takeRest r rest
    | _, _ => .misuse

/-- Take the words behind `help`. -/
def takeTopic : List String → Request
  | [] => .help none
  | [text] =>
    if text = "check" then .help (some .check)
    else if text = "emit" then .help (some .emit)
    else if text = "help" then .help none
    else .misuse
  | _ => .misuse

/-- Take the arguments one after the other. -/
def take (r : Reading) : List String → Request
  | [] => r.finish
  | text :: rest =>
    match Argument.ofText text with
    | .separator => takeRest r rest
    | .letters cs =>
      match r.takeLetters cs with
      | .ok r => take r rest
      | .error request => request
    | .long name value =>
      if name = "config" then
        match value, rest with
        | some value, rest =>
          match r.setConfig value with
          | some r => take r rest
          | none => .misuse
        | none, value :: rest =>
          match isValue value, r.setConfig value with
          | true, some r => take r rest
          | _, _ => .misuse
        | none, [] => .misuse
      else if name = "verbose" ∧ value = none then
        match r.setVerbose with
        | some r => take r rest
        | none => .misuse
      else if name = "help" ∧ value = none then .help r.action
      else .misuse
    | .plain text =>
      if r.action.isNone && text == "help" then takeTopic rest
      else
        match r.takePlain text with
        | some r => take r rest
        | none => .misuse

end Reading

/-- What a list of arguments asks for.
Source: the parser derived for `Cli`. -/
def parseArguments (arguments : List String) : Request :=
  Reading.take {} arguments

end FuncDecl.CommandLine
