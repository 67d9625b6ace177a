import RequestRouter.Text.Coding
/-!
Arguments of a command: options by name, whose values stand behind them or are attached, and at most one
operand. Options are settled in order, and the first fault counts.
-/
namespace RequestRouter.CommandLine

open RequestRouter.Text

/-- Why arguments are not taken. A request for help is among the reasons. -/
inductive UsageError where
  | helpWanted
  /-- There are no arguments at all. -/
  | nothingGiven
  | unknownArgument
  | unknownCommand
  /-- A value is missing or empty. -/
  | missingValue
  /-- A value has not the form that it should have. -/
  | malformedValue
  /-- An option is given a second time. -/
  | repeated
  /-- A value is attached to an option that takes none. -/
  | excessValue
  /-- An argument that has to be there is not. -/
  | missingArgument
  deriving DecidableEq, Repr

inductive Usage where
  | help
  | flag
  /-- One value, given once. -/
  | single
  /-- One value each time. -/
  | many
  deriving DecidableEq, Repr

structure Opt where
  long : String
  short : Option Char
  usage : Usage
  check : String → Option UsageError

def Opt.help : Opt := ⟨"help", some 'h', .help, fun _ => none⟩

structure Arguments where
  /-- The options with their values in order; a flag has the empty value. -/
  given : List (String × String)
  operand : Option String
  /-- An option that is not settled yet, with its value if it has been read. -/
  pending : Option (Opt × Option String)
  /-- Only operands follow. -/
  operandsOnly : Bool

namespace Arguments

def start : Arguments := ⟨[], none, none, false⟩

def has (a : Arguments) (name : String) : Bool := (a.given.lookup name).isSome

def accept (a : Arguments) (o : Opt) (value : String) : Except UsageError Arguments :=
  if o.usage = .help then .error .helpWanted
  else if o.usage ≠ .many ∧ a.has o.long then .error .repeated
  else
    match o.check value with
    | some e => .error e
    | none => .ok { a with given := a.given ++ [(o.long, value)] }

def settle (a : Arguments) : Except UsageError Arguments :=
  match a.pending with
  | none => .ok a
  | some (_, none) => .error .missingValue
  | some (o, some value) => { a with pending := none }.accept o value

def settleAndAccept (a : Arguments) (o : Opt) (value : String) : Except UsageError Arguments := do
  (← a.settle).accept o value

def expect (a : Arguments) (o : Opt) : Except UsageError Arguments := do
  return { ← a.settle with pending := some (o, none) }

def takesValue (o : Opt) : Bool := o.usage == .single || o.usage == .many

def readLong (opts : List Opt) (a : Arguments) (s : List Char) : Except UsageError Arguments :=
  let (name, value) := Form.cut '=' s
  match opts.find? (·.long == String.ofList name) with
  | none => .error .unknownArgument
  | some o =>
    match takesValue o, value with
    | true, some value => a.settleAndAccept o (String.ofList value)
    | true, none => a.expect o
    | false, some _ => .error .excessValue
    | false, none => a.settleAndAccept o ""

/-- An argument that begins with one dash, which is already read: flags, then perhaps an option with its
value. -/
def readShort (opts : List Opt) (a : Arguments) : List Char → Except UsageError Arguments
  | [] => .ok a
  | c :: rest =>
    match opts.find? (·.short == some c) with
    | none => .error .unknownArgument
    | some o =>
      if takesValue o then
        match rest with
        | [] => a.expect o
        | '=' :: value => a.settleAndAccept o (String.ofList value)
        | value => a.settleAndAccept o (String.ofList value)
      else (a.settleAndAccept o "").bind fun a => readShort opts a rest

/-- An argument that is no option: the value that an option waits for, else the operand. -/
def readValue (takesOperand : Bool) (a : Arguments) (s : String) : Except UsageError Arguments :=
  match a.operandsOnly, a.pending with
  | false, some (o, none) => .ok { a with pending := some (o, some s) }
  | _, _ =>
    if takesOperand ∧ a.operand.isNone then do return { ← a.settle with operand := some s }
    else .error .unknownArgument

def read (opts : List Opt) (takesOperand : Bool) (a : Arguments) (s : String) : Except UsageError Arguments :=
  if a.operandsOnly then a.readValue takesOperand s
  else
    match s.toList with
    | ['-', '-'] => .ok { a with operandsOnly := true }
    | '-' :: '-' :: rest => readLong opts a rest
    | '-' :: c :: rest => readShort opts a (c :: rest)
    | _ => a.readValue takesOperand s

def readAll (opts : List Opt) (takesOperand : Bool) (args : List String) : Except UsageError Arguments := do
  (← args.foldlM (read opts takesOperand) start).settle

end Arguments

end RequestRouter.CommandLine
