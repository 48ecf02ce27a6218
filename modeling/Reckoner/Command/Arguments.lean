/-!
# Command.Arguments — the words of a command line

A command line is options, then perhaps a verb, then options again and what the verb is about.  An option stands
before the verb or behind it; given on both sides, the one behind the verb counts (`Options.overriding`).  On one side
an option is given at most once.  Words are taken one after another (`Progress.take`), and a word that does not fit
makes the whole line unusable.
-/
namespace Reckoner
namespace Command

/-- Options given on one side of the verb. -/
structure Options where
  rootSymbol : Option Char := none
  places : Option Nat := none
  ieee : Bool := false
  json : Bool := false
  tokens : Bool := false
  /-- Keep a log.  Nothing that a command comes to depends on it: an outcome has no log in it. -/
  verbose : Bool := false
deriving DecidableEq, Repr

inductive Switch where
  | ieee
  | json
  | tokens
  | verbose
deriving DecidableEq, Repr

inductive Choice where
  | rootSymbol
  | places
deriving DecidableEq, Repr

inductive Verb where
  | evaluate
  | lines
  | overview
  | topic
deriving DecidableEq, Repr

/-- A word of a command line by its looks. -/
inductive Word where
  /-- Two hyphens: every word behind them is taken as it is. -/
  | escape
  /-- Two hyphens and a name, perhaps with a value attached. -/
  | long (name : List Char) (value : Option (List Char))
  /-- A hyphen and letters. -/
  | short (letters : List Char)
  /-- Anything else, a lone hyphen included. -/
  | plain (text : List Char)
deriving DecidableEq, Repr

/-- A name cut at its first equals sign. -/
def cutValue (text : List Char) : List Char × Option (List Char) :=
  match text.dropWhile (· != '=') with
  | [] => (text, none)
  | _ :: value => (text.takeWhile (· != '='), some value)

/-- **The looks of a word.** -/
def Word.of : List Char → Word
  | ['-', '-'] => .escape
  | '-' :: '-' :: rest => .long (cutValue rest).1 (cutValue rest).2
  | '-' :: first :: rest => .short (first :: rest)
  | text => .plain text

/-- A natural number of at most thirty-two bits, in digits alone. -/
def natural? (digits : List Char) : Option Nat :=
  if digits.isEmpty || !digits.all Char.isDigit then none
  else
    let n := Nat.ofDigitChars 10 digits 0
    if n < Nat.pow 2 32 then some n else none

/-- **A number of places**: digits, perhaps with a plus; with a minus only zero. -/
def places? : List Char → Option Nat
  | '+' :: digits => natural? digits
  | '-' :: digits => (natural? digits).filter (· == 0)
  | digits => natural? digits

def symbol? : List Char → Option Char
  | [c] => some c
  | _ => none

namespace Options

/-- A switch turned on; it must not be on already. -/
def turnOn (o : Options) : Switch → Option Options
  | .ieee => if o.ieee then none else some { o with ieee := true }
  | .json => if o.json then none else some { o with json := true }
  | .tokens => if o.tokens then none else some { o with tokens := true }
  | .verbose => if o.verbose then none else some { o with verbose := true }

/-- A choice made; it must not be made already. -/
def choose (o : Options) (choice : Choice) (value : List Char) : Option Options :=
  match choice with
  | .rootSymbol =>
    if o.rootSymbol.isSome then none else (symbol? value).map (fun c => { o with rootSymbol := some c })
  | .places => if o.places.isSome then none else (places? value).map (fun n => { o with places := some n })

/-- **Options behind the verb over those before it.** -/
def overriding (inner outer : Options) : Options where
  rootSymbol := inner.rootSymbol.or outer.rootSymbol
  places := inner.places.or outer.places
  ieee := inner.ieee || outer.ieee
  json := inner.json || outer.json
  tokens := inner.tokens || outer.tokens
  verbose := inner.verbose || outer.verbose

end Options

def switch? (name : List Char) : Option Switch :=
  match String.ofList name with
  | "ieee" => some .ieee
  | "json" => some .json
  | "tokens" => some .tokens
  | "verbose" => some .verbose
  | _ => none

def choice? (name : List Char) : Option Choice :=
  match String.ofList name with
  | "sqrt-symbol" => some .rootSymbol
  | "precision" => some .places
  | _ => none

def verb? (name : List Char) : Option Verb :=
  match String.ofList name with
  | "eval" => some .evaluate
  | "repl" => some .lines
  | "docs" => some .overview
  | "doc" => some .topic
  | _ => none

def Verb.wantsOperand : Verb → Bool
  | .evaluate | .topic => true
  | .lines | .overview => false

/-- How far a command line has been read. -/
structure Progress where
  outer : Options := {}
  /-- The verb, once it has been named. -/
  verb : Option Verb := none
  inner : Options := {}
  /-- What the verb is about, once it has been named. -/
  operand : Option (List Char) := none
  /-- A choice that waits for its value. -/
  pending : Option Choice := none
  /-- Words are taken as they are from here on. -/
  escaped : Bool := false

inductive Advance where
  | further (p : Progress)
  | version

namespace Progress

/-- Options on the side of the verb that is being read. -/
def options (p : Progress) : Options := if p.verb.isSome then p.inner else p.outer

def withOptions (p : Progress) (o : Options) : Progress :=
  if p.verb.isSome then { p with inner := o } else { p with outer := o }

def turnOn (p : Progress) (s : Switch) : Option Progress := (p.options.turnOn s).map p.withOptions

def choose (p : Progress) (c : Choice) (value : List Char) : Option Progress :=
  (p.options.choose c value).map p.withOptions

/-- What the verb is about; there is at most one such word, and only some verbs have one. -/
def withOperand (p : Progress) (text : List Char) : Option Progress :=
  if p.verb.any Verb.wantsOperand && p.operand.isNone then some { p with operand := some text } else none

/-- The version is known before any verb only. -/
def version (p : Progress) : Option Advance := if p.verb.isNone then some .version else none

def long (p : Progress) (name : List Char) (value : Option (List Char)) : Option Advance :=
  match choice? name, value with
  | some c, some value => (p.choose c value).map .further
  | some c, none => some (.further { p with pending := some c })
  | none, some _ => none
  | none, none =>
    match switch? name with
    | some s => (p.turnOn s).map .further
    | none => if String.ofList name == "version" then p.version else none

/-- **Letters behind one hyphen**, each an option; a choice takes the letters behind it as its value. -/
def letters (p : Progress) : List Char → Option Advance
  | [] => some (.further p)
  | 'v' :: rest =>
    match p.turnOn .verbose with
    | some next => next.letters rest
    | none => none
  | ['p'] => some (.further { p with pending := some .places })
  | 'p' :: '=' :: value => (p.choose .places value).map .further
  | 'p' :: value => (p.choose .places value).map .further
  | 'V' :: _ => p.version
  | _ => none

/-- A word that begins with no hyphen: the value waited for, the verb, or what the verb is about. -/
def plain (p : Progress) (text : List Char) : Option Progress :=
  match p.pending with
  | some c => { p with pending := none }.choose c text
  | none =>
    if p.verb.isSome then p.withOperand text else (verb? text).map (fun v => { p with verb := some v })

/-- **One word taken.**  A choice that waits for its value refuses every word that looks like an option. -/
def take (p : Progress) (word : List Char) : Option Advance :=
  if p.escaped then (p.withOperand word).map .further
  else
    match Word.of word with
    | .plain text => (p.plain text).map .further
    | .escape => if p.pending.isSome then none else some (.further { p with escaped := true })
    | .long name value => if p.pending.isSome then none else p.long name value
    | .short ls => if p.pending.isSome then none else p.letters ls

end Progress

/-- What is to be done, with what it is about. -/
inductive Action where
  | firstLine
  | evaluate (expression : String)
  | lines
  | overview
  | topic (name : String)
deriving DecidableEq, Repr

/-- What a command line asks for. -/
inductive Request where
  | version
  | perform (action : Action) (options : Options)
deriving DecidableEq, Repr

/-- The action a line has asked for when its words are used up. -/
def Progress.action? (p : Progress) : Option Action :=
  match p.verb, p.operand with
  | none, _ => some .firstLine
  | some .evaluate, some text => some (.evaluate (.ofList text))
  | some .topic, some text => some (.topic (.ofList text))
  | some .lines, _ => some .lines
  | some .overview, _ => some .overview
  | _, none => none

def Progress.request? (p : Progress) : Option Request :=
  if p.pending.isSome then none else p.action?.map (.perform · (p.inner.overriding p.outer))

def readFrom (p : Progress) : List String → Option Request
  | [] => p.request?
  | word :: rest =>
    match p.take word.toList with
    | none => none
    | some .version => some .version
    | some (.further next) => readFrom next rest

/-- **What a command line asks for**; `none` for a line that cannot be used.  The words that ask for help (`-h`,
`--help` and `help`) are no options or verbs here, so a line with one of them in such a place cannot be used. -/
def read (words : List String) : Option Request := readFrom {} words

end Command
end Reckoner
