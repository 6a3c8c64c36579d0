/-!
What the arguments of a run ask for. Options may come in any order and once each; an option's value
is the argument after it or follows an equals sign, and looks like no option.
-/

namespace TerraDoc.CommandLine

structure Request where
  repository : String
  modulesDir : Option String
  /-- Whether writing is off. -/
  outputOff : Bool
  format : String
  noHistory : Bool
  verbose : Bool
deriving DecidableEq, Repr, Inhabited

inductive Command where
  | document (request : Request)
  | version
  | help
  /-- The arguments make no sense. -/
  | misused
deriving DecidableEq, Repr

/-- The options read so far. -/
structure Options where
  repository : Option String
  modulesDir : Option String
  format : Option String
  outputOff : Bool
  noHistory : Bool
  verbose : Bool
deriving DecidableEq, Repr

namespace Options

def none : Options := ⟨.none, .none, .none, false, false, false⟩

def request (options : Options) : Request where
  repository := options.repository.getD "."
  modulesDir := options.modulesDir
  outputOff := options.outputOff
  format := options.format.getD "markdown"
  noHistory := options.noHistory
  verbose := options.verbose

/-- Set an option that has a value. The path of the repository is not empty. -/
def setValue? (options : Options) (name value : String) : Option Options :=
  match name with
  | "repo" =>
      if options.repository.isSome || value.isEmpty then .none
      else some { options with repository := value }
  | "mods" =>
      if options.modulesDir.isSome then .none else some { options with modulesDir := value }
  | "format" => if options.format.isSome then .none else some { options with format := value }
  | _ => .none

def setFlag? (options : Options) (name : String) : Option Options :=
  match name with
  | "output-off" => if options.outputOff then .none else some { options with outputOff := true }
  | "no-history" => if options.noHistory then .none else some { options with noHistory := true }
  | "verbose" => if options.verbose then .none else some { options with verbose := true }
  | _ => .none

end Options

/-- An argument by its shape. -/
inductive Argument where
  | plain (text : String)
  /-- A name after two hyphens, and the value after an equals sign. -/
  | long (name : String) (value : Option String)
  /-- The letters after one hyphen. -/
  | short (letters : List Char)
  /-- Two hyphens alone. -/
  | separator
deriving DecidableEq, Repr

def Argument.of (argument : String) : Argument :=
  match argument.toList with
  | ['-', '-'] => .separator
  | '-' :: '-' :: rest =>
      let name := String.ofList (rest.takeWhile (· ≠ '='))
      match rest.dropWhile (· ≠ '=') with
      | '=' :: value => .long name (some (String.ofList value))
      | _ => .long name none
  | '-' :: letter :: letters => .short (letter :: letters)
  | _ => .plain argument

/-- What letters after one hyphen come to: options, or a command that ends the reading. -/
def readLetters (options : Options) : List Char → Except Command Options
  | [] => .ok options
  | 'v' :: rest =>
      match options.setFlag? "verbose" with
      | some options => readLetters options rest
      | none => .error .misused
  | 'V' :: _ => .error .version
  | 'h' :: _ => .error .help
  | _ => .error .misused

def takesValue (name : String) : Bool :=
  name = "repo" || name = "mods" || name = "format"

def read (options : Options) : List String → Command
  | [] => .document options.request
  | argument :: rest =>
      match Argument.of argument with
      | .plain _ => .misused
      | .separator => if rest.isEmpty then .document options.request else .misused
      | .short letters =>
          match readLetters options letters with
          | .ok options => read options rest
          | .error command => command
      | .long name (some value) =>
          match options.setValue? name value with
          | some options => read options rest
          | none => .misused
      | .long name none =>
          if name = "version" then .version
          else if name = "help" then .help
          else if takesValue name then
            match rest with
            | [] => .misused
            | value :: rest =>
                match Argument.of value with
                | .plain value =>
                    match options.setValue? name value with
                    | some options => read options rest
                    | none => .misused
                | _ => .misused
          else
            match options.setFlag? name with
            | some options => read options rest
            | none => .misused

def command (arguments : List String) : Command :=
  read .none arguments

end TerraDoc.CommandLine
