import Semblance.Text.Digits
import Semblance.Text.Quoted

/-!
# Command-line arguments

A grammar lists the options and the operands of a command.  Arguments that start with a dash are options: a long
option may be shortened as long as it stays unambiguous, and its value may follow an equals sign; short options
may be written together behind one dash.  Negative numbers and arguments with a space in them are operands, and so is
everything after two dashes.  Operands and options may come in any order; each run of operands is given to as many of
the expected operands as it has members.  What no one expects is kept as extra.
-/

namespace Semblance

/-- How many values an option takes. -/
inductive Arity where
  | flag
  | one
  | many
  deriving DecidableEq, Repr

/-- What a value has to be. -/
inductive ValueKind where
  | text
  | integer
  | choice (options : List String)
  deriving DecidableEq, Repr

/-- An option with all its names. -/
structure OptionSpec where
  names : List String
  arity : Arity
  kind : ValueKind := .text
  deriving DecidableEq, Repr

/-- An expected operand.  One that takes the rest takes all arguments from its own on, options too. -/
structure OperandSpec where
  name : String
  kind : ValueKind := .text
  takesRest : Bool := false
  deriving DecidableEq, Repr

/-- The options and operands of a command. -/
structure Grammar where
  options : List OptionSpec
  operands : List OperandSpec
  deriving DecidableEq, Repr

/-- What is wrong with the arguments. -/
inductive UsageError where
  | missing (names : List String)
  | unrecognized (arguments : List String)
  | ambiguous (argument : String) (names : List String)
  | invalidChoice (name value : String) (options : List String)
  | invalidInteger (name value : String)
  | expectedOne (name : String)
  | expectedSome (name : String)
  | unusedValue (name value : String)
  | helpWanted
  deriving DecidableEq, Repr

/-- What is said about wrong arguments. -/
def UsageError.message : UsageError → String
  | missing names => "the following arguments are required: " ++ ", ".intercalate names
  | unrecognized arguments => "unrecognized arguments: " ++ " ".intercalate arguments
  | ambiguous argument names => s!"ambiguous option: {argument} could match " ++ ", ".intercalate names
  | invalidChoice name value options =>
    s!"argument {name}: invalid choice: {Text.quoted value} (choose from " ++
      ", ".intercalate (options.map Text.quoted) ++ ")"
  | invalidInteger name value => s!"argument {name}: invalid int value: {Text.quoted value}"
  | expectedOne name => s!"argument {name}: expected one argument"
  | expectedSome name => s!"argument {name}: expected at least one argument"
  | unusedValue name value => s!"argument {name}: ignored explicit argument {Text.quoted value}"
  | helpWanted => "help wanted"

/-- The names of an option as one text. -/
def OptionSpec.shown (o : OptionSpec) : String :=
  "/".intercalate o.names

/-- The name under which the values of an option are kept. -/
def OptionSpec.key (o : OptionSpec) : String :=
  o.names.getLastD ""

/-- An argument in its role.  A value may be attached to an option, which is then written in the same argument. -/
inductive Piece where
  | operand (text : String)
  | separator
  | option (text : String) (spec : OptionSpec) (name : String) (attached : Option (List Char))
  | unknown (text : String)
  deriving DecidableEq, Repr

namespace Piece

/-- The argument itself. -/
def text : Piece → String
  | operand text => text
  | separator => "--"
  | option text _ _ _ => text
  | unknown text => text

/-- Whether the argument is an option, known or not. -/
def isOption : Piece → Bool
  | option .. | unknown _ => true
  | _ => false

def isSeparator : Piece → Bool
  | separator => true
  | _ => false

def isOperand : Piece → Bool
  | operand _ => true
  | _ => false

end Piece

namespace Grammar

/-- The options by each of their names. -/
def named (g : Grammar) : List (String × OptionSpec) :=
  g.options.flatMap fun o => o.names.map fun name => (name, o)

/-- A text before its first equals sign, and what follows the sign. -/
def splitSign (s : List Char) : List Char × Option (List Char) :=
  let before := s.takeWhile (· ≠ '=')
  match s.drop before.length with
  | _ :: value => (before, some value)
  | [] => (before, none)

/-- The options that an argument, which is no option's full name, may stand for. -/
def candidates (g : Grammar) (text : String) : List Piece :=
  let s := text.toList
  if s.take 2 = ['-', '-'] then
    let (start, value) := splitSign s
    g.named.filterMap fun (name, spec) =>
      if start.isPrefixOf name.toList then some (.option text spec name value) else none
  else
    g.named.filterMap fun (name, spec) =>
      if name.toList = s.take 2 then some (.option text spec name (some (s.drop 2)))
      else if s.isPrefixOf name.toList then some (.option text spec name none)
      else none

/-- The role of an argument. -/
def interpret (g : Grammar) (text : String) : Except UsageError Piece :=
  let s := text.toList
  if s.head? ≠ some '-' then .ok (.operand text)
  else
    match g.named.lookup text with
    | some spec => .ok (.option text spec text none)
    | none =>
      if s.length = 1 then .ok (.operand text)
      else
        let (start, value) := splitSign s
        let name := String.ofList start
        match g.named.lookup name, value with
        | some spec, some v => .ok (.option text spec name (some v))
        | _, _ =>
          match g.candidates text with
          | [] =>
            if Text.isNegativeNumber text || s.contains ' ' then .ok (.operand text) else .ok (.unknown text)
          | [piece] => .ok piece
          | pieces => .error (.ambiguous text (pieces.filterMap fun
              | .option _ _ name _ => some name
              | _ => none))

/-- The roles of arguments; after two dashes all are operands. -/
def pieces (g : Grammar) : List String → Except UsageError (List Piece)
  | [] => .ok []
  | text :: rest =>
    if text = "--" then .ok (.separator :: rest.map Piece.operand)
    else do
      let piece ← g.interpret text
      return piece :: (← g.pieces rest)

end Grammar

/-- What has been read: the values given to names, the last one first, and the arguments that no one expects. -/
structure Reading where
  values : List (String × List String) := []
  extras : List String := []
  deriving DecidableEq, Repr

/-- Refuses a value of the wrong kind. -/
def ValueKind.check (kind : ValueKind) (name value : String) : Except UsageError Unit :=
  match kind with
  | .text => .ok ()
  | .integer => if (Text.integer? value).isSome then .ok () else .error (.invalidInteger name value)
  | .choice options => if options.contains value then .ok () else .error (.invalidChoice name value options)

namespace Reading

/-- Gives values to an option. -/
def give (r : Reading) (o : OptionSpec) (values : List String) : Except UsageError Reading := do
  for value in values do
    o.kind.check o.shown value
  if o.key = "--help" then .error .helpWanted
  return { r with values := (o.key, values) :: r.values }

/-- Takes a run of options that are written behind one dash apart: the options before the last one (reversed, after
`flags`), the last one, and the value that is attached to it.  An option without values passes its attached value on
as further short options, if it is short itself. -/
def unfoldShort (g : Grammar) (flags : List OptionSpec) (o : OptionSpec) (isShort : Bool) :
    List Char → Except UsageError (List OptionSpec × OptionSpec × Option (List Char))
  | [] => if o.arity = .flag then .error (.unusedValue o.shown "") else .ok (flags, o, some [])
  | c :: rest =>
    if o.arity = .flag then
      match if isShort then g.named.lookup (String.ofList ['-', c]) else none with
      | none => .error (.unusedValue o.shown (String.ofList (c :: rest)))
      | some next => if rest.isEmpty then .ok (o :: flags, next, none) else unfoldShort g (o :: flags) next true rest
    else .ok (flags, o, some (c :: rest))

/-- The values of an option, given the operands after it: an attached value is its only one, and two dashes there
are none. -/
def ownValues (o : OptionSpec) (attached : Option (List Char)) (available : List String) :
    Except UsageError (List String) :=
  match attached, o.arity with
  | some value, _ => .ok ([String.ofList value].erase "--")
  | none, .flag => .ok []
  | none, .one => if available.isEmpty then .error (.expectedOne o.shown) else .ok (available.take 1)
  | none, .many => if available.isEmpty then .error (.expectedSome o.shown) else .ok available

/-- Reads an option, of which `following` are the arguments after it, and says how many of those it took. -/
def takeOption (g : Grammar) (r : Reading) (o : OptionSpec) (name : String) (attached : Option (List Char))
    (following : List Piece) : Except UsageError (Reading × Nat) := do
  let isShort := name.toList.take 2 ≠ ['-', '-']
  let (flags, last, attached) ←
    match attached with
    | none => pure ([], o, none)
    | some value => unfoldShort g [] o isShort value
  let values ← ownValues last attached ((following.takeWhile Piece.isOperand).map Piece.text)
  let r ← flags.reverse.foldlM (fun r o => r.give o []) r
  let r ← r.give last values
  return (r, if attached.isSome then 0 else values.length)

/-- Takes the arguments of one operand from the front, if there is one: separators around it go with it. -/
def splitOperand (o : OperandSpec) (pieces : List Piece) : Option (List Piece × List Piece) :=
  let before := pieces.takeWhile Piece.isSeparator
  match pieces.drop before.length with
  | .operand text :: rest =>
    if o.takesRest then some (pieces, [])
    else
      let after := rest.takeWhile Piece.isSeparator
      some (before ++ .operand text :: after, rest.drop after.length)
  | _ => none

/-- Gives the arguments at the front to as many operands as there are arguments for. -/
def takeOperands (r : Reading) : List OperandSpec → List Piece →
    Except UsageError (Reading × List OperandSpec × List Piece)
  | [], pieces => .ok (r, [], pieces)
  | o :: others, pieces =>
    match splitOperand o pieces with
    | none => .ok (r, o :: others, pieces)
    | some (own, rest) => do
      let texts := own.map Piece.text
      let values := if o.takesRest then texts else texts.erase "--"
      if let some first := values.head? then
        o.kind.check o.name first
      takeOperands { r with values := (o.name, values) :: r.values } others rest

/-- Reads arguments, given the operands that are still expected. -/
def readPieces (g : Grammar) (r : Reading) (operands : List OperandSpec) (pieces : List Piece) :
    Except UsageError (Reading × List OperandSpec) := do
  match _h : pieces with
  | [] => return (r, operands)
  | .option _ spec name attached :: following =>
    let (r, taken) ← takeOption g r spec name attached following
    readPieces g r operands (following.drop taken)
  | .unknown text :: following => readPieces g { r with extras := r.extras ++ [text] } operands following
  | first :: following =>
    let (r, operands, rest) ← takeOperands r operands pieces
    if rest.length < pieces.length then readPieces g r operands rest
    else
      let skipped := first :: following.takeWhile (!·.isOption)
      readPieces g { r with extras := r.extras ++ skipped.map Piece.text } operands
        (following.dropWhile (!·.isOption))
  termination_by pieces.length
  decreasing_by
    · simp only [List.length_cons, List.length_drop]; omega
    · simp only [List.length_cons]; omega
    · rwa [← _h]
    · simpa only [List.length_cons] using Nat.lt_succ_of_le (List.dropWhile_suffix _).length_le

/-- The last values given to a name. -/
def values? (r : Reading) (name : String) : Option (List String) :=
  r.values.lookup name

/-- Whether an option was given. -/
def has (r : Reading) (name : String) : Bool :=
  (r.values? name).isSome

end Reading

/-- Reads arguments by a grammar.  All operands have to be there. -/
def Grammar.read (g : Grammar) (arguments : List String) : Except UsageError Reading := do
  let pieces ← g.pieces arguments
  let (r, operands) ← Reading.readPieces g {} g.operands pieces
  if operands.isEmpty then return r else .error (.missing (operands.map OperandSpec.name))

end Semblance
