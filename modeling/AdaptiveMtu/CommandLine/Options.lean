/-
The options of the command line.

Each option may be given once, by its long name or by its letter. A value is the next argument,
unless that begins with a minus and more, or follows its option directly or behind an equals sign. Letters may
be joined as long as only the last takes a value. Anything else is refused as a whole.
-/
import AdaptiveMtu.Binary64.Whole
import AdaptiveMtu.Model.Kind

namespace AdaptiveMtu

/-- What the command line asks for. -/
structure Options where
  config : Option String
  model : Option ModelKind
  features : Option String
  intervalMs : Option Nat
  overrideMtu : Option Nat
  exportPath : Option String
  debug : Bool

namespace Options

/-- Nothing asked for. -/
def unset : Options := ⟨none, none, none, none, none, none, false⟩

/-- An option that takes a value. -/
inductive Key where
  | config
  | model
  | features
  | interval
  | override
  | exportPath
deriving DecidableEq

/-- The long names of the options that take a value. -/
def longNames : List (String × Key) :=
  [("config", .config), ("model", .model), ("features", .features), ("interval-ms", .interval),
    ("override-mtu", .override), ("export", .exportPath)]

/-- The letters of the options that take a value. -/
def letters : List (Char × Key) :=
  [('c', .config), ('m', .model), ('f', .features), ('i', .interval), ('e', .exportPath)]

/-! ### Values -/

/-- A number written in digits alone. -/
def digits? (cs : List Char) : Option Nat :=
  if !cs.isEmpty && cs.all Char.isDigit then
    some (cs.foldl (fun n c => 10 * n + (c.toNat - '0'.toNat)) 0)
  else none

/-- A count, which a plus may precede. -/
def count? (text : String) : Option Nat :=
  let digits := match text.toList with
    | '+' :: rest => digits? rest
    | cs => digits? cs
  digits.filter (· ≤ largestCount)

/-- An MTU of thirty-two bits, which a sign may precede; of the negative ones there is only zero. -/
def mtu? (text : String) : Option Nat :=
  let digits := match text.toList with
    | '+' :: rest => digits? rest
    | '-' :: rest => (digits? rest).filter (· = 0)
    | cs => digits? cs
  digits.filter (· < wordLimit)

/-- A path, which has to have a name. -/
def path? (text : String) : Option String := if text.isEmpty then none else some text

/-- A value for a place that is still free. -/
def fill {α : Type} (place value : Option α) : Option (Option α) :=
  match place, value with
  | none, some a => some (some a)
  | _, _ => none

/-- The options with a value for one of them, if it is a good value and the first. -/
def set? (o : Options) (key : Key) (text : String) : Option Options :=
  match key with
  | .config => (fill o.config (path? text)).map fun x => { o with config := x }
  | .model => (fill o.model (ModelKind.ofSpelling text).toOption).map fun x => { o with model := x }
  | .features => (fill o.features (path? text)).map fun x => { o with features := x }
  | .interval => (fill o.intervalMs (count? text)).map fun x => { o with intervalMs := x }
  | .override => (fill o.overrideMtu (mtu? text)).map fun x => { o with overrideMtu := x }
  | .exportPath => (fill o.exportPath (path? text)).map fun x => { o with exportPath := x }

/-- The options with the flag set, if it is not yet. -/
def setDebug? (o : Options) : Option Options := if o.debug then none else some { o with debug := true }

/-! ### Arguments -/

/-- The characters before the first equals sign, and those behind it if there is one. -/
def splitAtEquals (cs : List Char) : List Char × Option (List Char) :=
  match cs.dropWhile (· != '=') with
  | [] => (cs, none)
  | _ :: value => (cs.takeWhile (· != '='), some value)

/-- A long option, without its two minuses; an option whose value is still to come is given back. -/
def long? (o : Options) (cs : List Char) : Option (Options × Option Key) :=
  let (name, value) := splitAtEquals cs
  match longNames.lookup (String.ofList name), value with
  | some key, some value => (o.set? key (String.ofList value)).map (·, none)
  | some key, none => some (o, some key)
  | none, none => if String.ofList name = "debug" then o.setDebug?.map (·, none) else none
  | none, some _ => none

/-- Joined letters, without their minus; an option whose value is still to come is given back. -/
def letters? (o : Options) : List Char → Option (Options × Option Key)
  | [] => some (o, none)
  | 'd' :: rest => o.setDebug?.bind fun o => letters? o rest
  | letter :: rest =>
    match letters.lookup letter, rest with
    | none, _ => none
    | some key, [] => some (o, some key)
    | some key, '=' :: value => (o.set? key (String.ofList value)).map (·, none)
    | some key, value => (o.set? key (String.ofList value)).map (·, none)

/-- One argument that is not a value. -/
def argument? (o : Options) (argument : String) : Option (Options × Option Key) :=
  match argument.toList with
  | '-' :: '-' :: name => o.long? name
  | '-' :: letter :: rest => o.letters? (letter :: rest)
  | _ => none

/-- Whether an argument can be the value of the option before it. -/
def isValue (argument : String) : Bool := argument = "-" || argument.toList.head? != some '-'

/-- The options after all arguments; `pending` is the option whose value comes next. -/
def parseFrom (o : Options) (pending : Option Key) : List String → Option Options
  | [] => if pending.isSome then none else some o
  | argument :: rest =>
    match pending with
    | some key =>
      if isValue argument then (o.set? key argument).bind fun o => parseFrom o none rest else none
    | none =>
      if argument = "--" then (if rest.isEmpty then some o else none)
      else (o.argument? argument).bind fun (o, pending) => parseFrom o pending rest

/-- The options that the arguments of the command line give. -/
def parse? (arguments : List String) : Option Options := parseFrom unset none arguments

end Options

end AdaptiveMtu
