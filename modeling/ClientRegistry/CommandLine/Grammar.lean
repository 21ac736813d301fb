import ClientRegistry.Text.Digits

/-!
# The grammar of arguments

Options are given by a long name or by a letter, several letters in one argument. A value follows
its option, or stands in the same argument: after `=`, or right after a letter. After `--` nothing
is an option any more. Each option is given at most once.
-/

set_option autoImplicit false

namespace ClientRegistry.CommandLine

inductive Key where
  | verbose
  | help
  | version
  | config
  | protoPath
  | outDir
  | flags
  | noClean
  | debounceMs
  deriving DecidableEq, Repr

inductive Stop where
  | usage
  | help
  | version
  deriving DecidableEq, Repr

/-- A number that a 64-bit counter can hold; a plus sign may come before it. -/
def counter? (text : String) : Option UInt64 :=
  let digits := match text.toList with
    | '+' :: rest => rest
    | all => all
  if digits ≠ [] && digits.all Char.isDigit && Text.digitsValue digits < UInt64.size then
    some (Text.digitsValue digits).toUInt64
  else none

namespace Key

def long : Key → String
  | verbose => "verbose"
  | help => "help"
  | version => "version"
  | config => "config"
  | protoPath => "proto-path"
  | outDir => "out-dir"
  | flags => "flags"
  | noClean => "no-clean"
  | debounceMs => "debounce-ms"

def letter? : Key → Option Char
  | verbose => some 'v'
  | help => some 'h'
  | version => some 'V'
  | config => some 'c'
  | _ => none

def takesValue : Key → Bool
  | config | protoPath | outDir | flags | debounceMs => true
  | verbose | help | version | noClean => false

/-- Whether a value makes sense; no path is empty. -/
def accepts : Key → String → Bool
  | config, value | protoPath, value | outDir, value => value ≠ ""
  | debounceMs, value => (counter? value).isSome
  | verbose, _ | help, _ | version, _ | flags, _ | noClean, _ => true

end Key

inductive Form where
  | escape
  | long (name : String) (value : Option String)
  | letters (cs : List Char)
  | operand
  deriving DecidableEq, Repr

namespace Form

def ofArgument (arg : String) : Form :=
  match arg.toList with
  | ['-', '-'] => escape
  | '-' :: '-' :: rest =>
    long (String.ofList (rest.takeWhile (· ≠ '=')))
      (match rest.dropWhile (· ≠ '=') with
      | _ :: value => some (String.ofList value)
      | [] => none)
  | '-' :: c :: rest => letters (c :: rest)
  | _ => operand

end Form

structure Given where
  settings : List (Key × String)
  operands : List String
  deriving DecidableEq, Repr

namespace Given

def empty : Given := ⟨[], []⟩

def value? (g : Given) (k : Key) : Option String := g.settings.lookup k

def has (g : Given) (k : Key) : Bool := (g.value? k).isSome

/-- Takes in an option. Asking for help or for the version ends everything. -/
def set (g : Given) (k : Key) (value : String) : Except Stop Given :=
  if k = .help then .error .help
  else if k = .version then .error .version
  else if g.has k || !k.accepts value then .error .usage
  else .ok { g with settings := g.settings ++ [(k, value)] }

end Given

structure Level where
  keys : List Key
  operand : Option (String → Bool)

namespace Level

def long? (l : Level) (name : String) : Option Key := l.keys.find? fun k => k.long = name

def letter? (l : Level) (c : Char) : Option Key := l.keys.find? fun k => k.letter? = some c

def addOperand (l : Level) (g : Given) (arg : String) : Except Stop Given :=
  match l.operand with
  | some accepts =>
    if g.operands = [] && accepts arg then .ok { g with operands := [arg] } else .error .usage
  | none => .error .usage

/-- Takes in letters; the option whose value has still to come may be the last one. -/
def takeLetters (l : Level) : Given → List Char → Except Stop (Given × Option Key)
  | g, [] => .ok (g, none)
  | g, c :: rest =>
    match l.letter? c with
    | none => .error .usage
    | some k =>
      if k.takesValue then
        match rest with
        | [] => .ok (g, some k)
        | '=' :: value | value => (g.set k (String.ofList value)).map fun g => (g, none)
      else
        match g.set k "" with
        | .ok g => takeLetters l g rest
        | .error stop => .error stop

def take (l : Level) (g : Given) (arg : String) : Except Stop (Given × Option Key) :=
  match Form.ofArgument arg with
  | .long name value =>
    match l.long? name, value with
    | none, _ => .error .usage
    | some k, none => if k.takesValue then .ok (g, some k) else (g.set k "").map fun g => (g, none)
    | some k, some v => if k.takesValue then (g.set k v).map fun g => (g, none) else .error .usage
  | .letters cs => l.takeLetters g cs
  | .escape | .operand => (l.addOperand g arg).map fun g => (g, none)

/-- Whether an argument can be the value of an option. Only flags may look like options. -/
def canFollow (k : Key) (arg : String) : Bool := k = .flags || Form.ofArgument arg = .operand

def read (l : Level) : Given → List String → Except Stop Given
  | g, [] => .ok g
  | g, arg :: rest =>
    if Form.ofArgument arg = .escape then rest.foldlM l.addOperand g
    else
      match l.take g arg, rest with
      | .error stop, _ => .error stop
      | .ok (g, none), rest => read l g rest
      | .ok (_, some _), [] => .error .usage
      | .ok (g, some k), value :: rest =>
        if canFollow k value then
          match g.set k value with
          | .ok g => read l g rest
          | .error stop => .error stop
        else .error .usage

end Level

end ClientRegistry.CommandLine
