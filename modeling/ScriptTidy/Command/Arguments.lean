import ScriptTidy.Text.Basic

/-!
Splitting a command line into operands, flags and values of options.

An argument that begins with two dashes names a flag or an option; the value of an option follows behind `=` or
is the next argument, which then may not look like a flag. One dash begins short names, where the value of an
option is the rest of the argument. Behind `--` everything is an operand, and so is a dash alone.
-/

set_option autoImplicit false

namespace ScriptTidy

/-- The flags and options that a command knows, by their long names; short names stand beside them. -/
structure Grammar where
  flags : List String
  options : List String
  shorts : List (Char × String)
deriving Repr

/-- What a command line gives, in order. -/
structure Arguments where
  operands : List Text
  flags : List String
  values : List (String × Text)
  /-- Help is asked for; what follows was not looked at. -/
  help : Bool
deriving DecidableEq, Repr

namespace Arguments

def none : Arguments := ⟨[], [], [], false⟩

def askHelp : Arguments := { none with help := true }

def addOperand (operand : Text) (given : Arguments) : Arguments :=
  { given with operands := operand :: given.operands }

def addFlag (flag : String) (given : Arguments) : Arguments := { given with flags := flag :: given.flags }

def addValue (option : String) (value : Text) (given : Arguments) : Arguments :=
  { given with values := (option, value) :: given.values }

/-- The values of an option, in order. -/
def valuesOf (given : Arguments) (option : String) : List Text :=
  given.values.filterMap fun item => if item.1 = option then some item.2 else Option.none

/-- How often a flag is given. -/
def countOf (given : Arguments) (flag : String) : Nat := given.flags.count flag

end Arguments

/-- What one argument is. -/
inductive Argument where
  | operand (text : Text)
  /-- All that follows is operands. -/
  | operandsFollow
  | long (name : String) (value : Option Text)
  | short (letters : Text)
deriving DecidableEq, Repr

namespace Argument

def ofText : Text → Argument
  | ['-', '-'] => .operandsFollow
  | '-' :: '-' :: rest =>
      .long (String.ofList (rest.takeWhile (· != '='))) (match rest.dropWhile (· != '=') with
        | [] => none
        | _ :: value => some value)
  | ['-'] => .operand ['-']
  | '-' :: letters => .short letters
  | other => .operand other

def isOperand : Argument → Bool
  | .operand _ => true
  | _ => false

end Argument

namespace Grammar

/-- Splits a command line; none if it names something that the grammar does not know. -/
def split (grammar : Grammar) : List Text → Option Arguments
  | [] => some .none
  | argument :: rest =>
      /- The option `name`, with the value attached to it or else the next argument. -/
      let withValue (name : String) (attached : Option Text) : Option Arguments :=
        match attached with
        | some value => (split grammar rest).map (.addValue name value)
        | none =>
            match rest with
            | [] => none
            | next :: others =>
                if (Argument.ofText next).isOperand then (split grammar others).map (.addValue name next) else none
      match Argument.ofText argument with
      | .operand text => (split grammar rest).map (.addOperand text)
      | .operandsFollow => some { Arguments.none with operands := rest }
      | .long name value =>
          if name = "help" then if value.isNone then some .askHelp else none
          else if name ∈ grammar.flags then
            if value.isNone then (split grammar rest).map (.addFlag name) else none
          else if name ∈ grammar.options then withValue name value
          else none
      | .short letters =>
          match letters with
          | [] => none
          | letter :: attached =>
              if letter = 'h' then some .askHelp
              else
                match grammar.shorts.lookup letter with
                | none => none
                | some name => withValue name (match attached with
                    | [] => none
                    | '=' :: value => some value
                    | value => some value)

end Grammar

end ScriptTidy
