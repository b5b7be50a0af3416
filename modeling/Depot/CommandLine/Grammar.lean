import Depot.Text.Digit

/-!
This module contains the grammars of commands: the options and positional arguments that a command
knows, and the reading of words by them. Options may be abbreviated as long as they stay unique,
and after two dashes all words are arguments.
-/

namespace Depot.CommandLine

inductive OptionKind where
  | help
  | flag
  | value (accepts : String → Bool)

/-- An option. Its name starts with two dashes. -/
structure OptionSpec where
  name : String
  kind : OptionKind

inductive Arity where
  | one
  | optional
  /-- One word and all that follow it, options among them; or none. -/
  | rest
deriving DecidableEq, Repr

structure Positional where
  name : String
  arity : Arity

structure Grammar where
  program : String
  options : List OptionSpec
  positionals : List Positional
  usage : List String
  details : List String

inductive Refusal where
  | help (text : String)
  | misuse (text : String)

namespace Grammar

def textOf (lines : List String) : String :=
  String.join (lines.map (· ++ "\n"))

def help (g : Grammar) : String :=
  textOf (g.usage ++ g.details)

def misuse (g : Grammar) (message : String) : Refusal :=
  .misuse (textOf (g.usage ++ [g.program ++ ": error: " ++ message]))

def option? (g : Grammar) (name : String) : Option OptionSpec :=
  g.options.find? (·.name = name)

end Grammar

inductive Mention where
  | long (option : OptionSpec) (attached : Option String)
  | short (cluster : List Char)
  | unknown

inductive Word where
  | argument (text : String)
  | separator
  | option (text : String) (mention : Mention)

namespace Word

def text : Word → String
  | argument s => s
  | separator => "--"
  | option s _ => s

end Word

/-- Digits, at least one, perhaps with a line break after them. -/
def isDigits (cs : List Char) : Bool :=
  let digits := if cs.getLast? = some '\n' then cs.dropLast else cs
  !digits.isEmpty && digits.all fun c => (Text.digitValue? c).isSome

/-- A negative number, with the part after its dash given. -/
def isNegated (cs : List Char) : Bool :=
  match Text.cut '.' cs with
  | (whole, none) => isDigits whole
  | (whole, some places) => (whole.isEmpty || whole.all fun c => (Text.digitValue? c).isSome)
      && isDigits places

/-- The options whose names start with `lead`. -/
def Grammar.completions (g : Grammar) (lead : String) : List OptionSpec :=
  g.options.filter fun option => Text.startsWith lead option.name

/-- What a word after two dashes means. Its part before an equals sign may be abbreviated. -/
def Grammar.mentionLong (g : Grammar) (word : String) : Except Refusal Mention :=
  match g.option? word with
  | some option => .ok (.long option none)
  | none =>
    let (lead, attached) := Text.cut '=' word.toList
    let lead := String.ofList lead
    let attached := attached.map String.ofList
    match g.option? lead with
    | some option => .ok (.long option attached)
    | none =>
      match g.completions lead with
      | [] => .ok .unknown
      | [option] => .ok (.long option attached)
      | options =>
        .error (g.misuse ("ambiguous option: " ++ word ++ " could match "
          ++ ", ".intercalate (options.map OptionSpec.name)))

def Grammar.classify (g : Grammar) (word : String) : Except Refusal Word :=
  match word.toList with
  | '-' :: '-' :: cs =>
    match g.mentionLong word with
    | .ok .unknown => .ok (if cs.contains ' ' then .argument word else .option word .unknown)
    | .ok mention => .ok (.option word mention)
    | .error refusal => .error refusal
  | '-' :: 'h' :: cluster => .ok (.option word (.short cluster))
  | '-' :: c :: cs =>
    .ok (if isNegated (c :: cs) || (c :: cs).contains ' ' then .argument word
      else .option word .unknown)
  | _ => .ok (.argument word)

def Grammar.classifyAll (g : Grammar) : List String → Except Refusal (List Word)
  | [] => .ok []
  | word :: words => do
    if word = "--" then return .separator :: words.map .argument
    else return (← g.classify word) :: (← g.classifyAll words)

def isHelp : (cluster : List Char) → Bool
  | 'h' :: cluster => isHelp cluster
  | '=' :: _ | '-' :: _ => false
  | _ => true

structure Reading where
  /-- The options in order, with their values; those of flags are empty. -/
  options : List (String × String) := []
  positionals : List (String × List String) := []
  extras : List String := []

namespace Reading

/-- The value of an option; of several the last. -/
def value? (r : Reading) (name : String) : Option String :=
  r.options.reverse.lookup name

def hasFlag (r : Reading) (name : String) : Bool :=
  (r.value? name).isSome

def words (r : Reading) (name : String) : List String :=
  (r.positionals.lookup name).getD []

end Reading

def splitSeparators : List Word → List Word × List Word
  | .separator :: words =>
    let (separators, rest) := splitSeparators words
    (.separator :: separators, rest)
  | words => ([], words)

/-- The words that a positional argument takes, if there are enough, and the words after them. -/
def Positional.take? (p : Positional) (words : List Word) : Option (List Word × List Word) :=
  let (lead, rest) := splitSeparators words
  match p.arity, rest with
  | .rest, .argument s :: rest => some (lead ++ .argument s :: rest, [])
  | _, .argument s :: rest =>
    let (trail, rest) := splitSeparators rest
    some (lead ++ .argument s :: trail, rest)
  | .optional, rest => some (lead, rest)
  | _, _ => none

/-- The texts that count for a positional argument: all but the first separator. -/
def Positional.texts (p : Positional) (words : List Word) : List String :=
  let texts := words.map Word.text
  if p.arity = .rest then texts else texts.erase "--"

structure Taken where
  positionals : List (String × List String)
  left : List Positional
  words : List Word

def takePositionals : List Positional → List Word → Taken
  | [], words => ⟨[], [], words⟩
  | p :: ps, words =>
    match p.take? words with
    | none => ⟨[], p :: ps, words⟩
    | some (own, words) =>
      let taken := takePositionals ps words
      { taken with positionals := (p.name, p.texts own) :: taken.positionals }

/-- The value of an option, if it is acceptable. -/
def Grammar.checkValue (g : Grammar) (option : OptionSpec) (accepts : String → Bool)
    (value : String) : Except Refusal (String × String) :=
  if accepts value then .ok (option.name, value)
  else .error (g.misuse ("argument " ++ option.name ++ ": invalid value: " ++ value))

/-- Reads words; `left` are the positional arguments that have not been read before. -/
def Grammar.readWords (g : Grammar) (left : List Positional) (words : List Word) :
    Except Refusal Reading :=
  match words with
  | [] =>
    let taken := takePositionals left []
    match taken.left.filter (·.arity = .one) with
    | [] => .ok { positionals := taken.positionals }
    | missing =>
      .error (g.misuse ("the following arguments are required: "
        ++ ", ".intercalate (missing.map Positional.name)))
  | .option text mention :: rest =>
    match mention with
    | .unknown => do
      let r ← g.readWords left rest
      return { r with extras := text :: r.extras }
    | .short cluster =>
      if isHelp cluster then .error (.help g.help)
      else .error (g.misuse ("argument -h/--help: ignored explicit argument in " ++ text))
    | .long option attached =>
      match option.kind, attached with
      | .help, none => .error (.help g.help)
      | .flag, none => do
        let r ← g.readWords left rest
        return { r with options := (option.name, "") :: r.options }
      | .help, some _ | .flag, some _ =>
        .error (g.misuse ("argument " ++ option.name ++ ": ignored explicit argument in " ++ text))
      | .value accepts, some value => do
        let own ← g.checkValue option accepts value
        let r ← g.readWords left rest
        return { r with options := own :: r.options }
      | .value accepts, none =>
        match rest with
        | .argument value :: rest => do
          let own ← g.checkValue option accepts value
          let r ← g.readWords left rest
          return { r with options := own :: r.options }
        | _ => .error (g.misuse ("argument " ++ option.name ++ ": expected one argument"))
  | word :: rest =>
    let ⟨positionals, unfilled, unread⟩ := takePositionals left (word :: rest)
    if unread.length ≤ rest.length then do
      let r ← g.readWords unfilled unread
      return { r with positionals := positionals ++ r.positionals }
    else do
      let r ← g.readWords left rest
      return { r with extras := word.text :: r.extras }
termination_by words.length

/-- Reads the words after a command. -/
def Grammar.read (g : Grammar) (words : List String) : Except Refusal Reading := do
  g.readWords g.positionals (← g.classifyAll words)

end Depot.CommandLine
