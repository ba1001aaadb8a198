import QueryAssist.CommandLine.Spec
import QueryAssist.Entries
import QueryAssist.Text.Integer
import QueryAssist.Text.Quoted

/-! # Reading a command line

A command line is a list of words: options with what they take, arguments, and the words for a
command below. Main definitions:

* **`Stop`** — why reading ends early.
* **`CommandSpec.read`** — the values that the words of a command give.
* **`Arguments.ofWords`** — what a command line of the program says. -/

namespace QueryAssist

/-- Why reading a command line **ends early**. -/
inductive Stop where
  /-- The help of a command is asked for. -/
  | help (c : CommandSpec)
  /-- The words do not suit a command. -/
  | misuse (c : CommandSpec) (message : String)
  deriving Inhabited

/-- A **value** on a command line. -/
inductive ArgumentValue where
  /-- An option that takes nothing is given. -/
  | given
  | text (s : String)
  | integer (n : Int)
  /-- An argument is given, but by a mark for the end of the options, which is no text. -/
  | unwritten
  deriving DecidableEq, Repr, Inhabited

/-- The values of a command line by their names. -/
abbrev ArgumentValues := Entries String ArgumentValue

/-- What follows the name of an option **in the same word**. -/
inductive Attached where
  | nothing
  /-- A value after an equals sign. -/
  | value (s : String)
  /-- Letters right after a short name. -/
  | letters (s : String)
  deriving DecidableEq, Repr, Inhabited

/-- An option in a word: the option, the name it is called by and what follows the name. -/
structure OptionCall where
  /-- The option. -/
  spec : OptionSpec
  /-- The name. -/
  name : String
  /-- What follows. -/
  attached : Attached := .nothing
  deriving DecidableEq, Repr, Inhabited

/-- What a **word** is taken for. -/
inductive WordKind where
  /-- The end of the options. -/
  | endOfOptions
  /-- An argument. -/
  | plain
  /-- An option that is known. -/
  | option (o : OptionCall)
  /-- An option that is not known. -/
  | unknown
  deriving DecidableEq, Repr, Inhabited

namespace CommandSpec

/-! ## Options -/

/-- The options with each of their names. -/
def named (c : CommandSpec) : List OptionCall :=
  c.options.flatMap fun o => o.names.map fun n => ⟨o, n, .nothing⟩

/-- The option of a given name. -/
def option? (c : CommandSpec) (name : String) : Option OptionCall :=
  c.named.find? (·.name == name)

/-- The parts of a word before and after its first equals sign. -/
def splitEquals (word : String) : String × Attached :=
  let cs := word.toList
  let before := cs.takeWhile (· ≠ '=')
  if cs.length = before.length then (word, .nothing)
  else (String.ofList before, .value (String.ofList (cs.drop (before.length + 1))))

/-- Whether one text begins another. -/
def begins (start text : String) : Bool := start.toList.isPrefixOf text.toList

/-- The options that a word may **abbreviate**. After two dashes the start of a name will do; after
one dash a name of one letter may be followed by its value. -/
def abbreviated (c : CommandSpec) (word : String) : List OptionCall :=
  match word.toList with
  | '-' :: '-' :: _ =>
    let (start, attached) := splitEquals word
    (c.named.filter fun o => begins start o.name).map fun o => { o with attached }
  | '-' :: letter :: rest =>
    c.named.filterMap fun o =>
      if o.name = String.ofList ['-', letter] then
        some { o with attached := .letters (String.ofList rest) }
      else if begins word o.name then some o
      else none
  | _ => []

/-- Whether a word is a negative number: digits after the dash, perhaps with a point before the
last of them. A line break may end it. -/
def isNegativeNumber (word : String) : Bool :=
  let isDigit := fun c => (digitValue? c).isSome
  let body := match word.toList.reverse with
    | '\n' :: cs => cs.reverse
    | cs => cs.reverse
  match body with
  | '-' :: cs =>
    match cs.dropWhile isDigit with
    | [] => !cs.isEmpty
    | '.' :: ds => !ds.isEmpty && ds.all isDigit
    | _ => false
  | _ => false

/-- What a word before the end of the options is taken for. One that could mean several options is
refused. -/
def classify (c : CommandSpec) (word : String) : Except Stop WordKind :=
  match word.toList with
  | '-' :: _ :: _ =>
    let (name, attached) := splitEquals word
    match c.option? word, c.option? name with
    | some o, _ => .ok (.option o)
    | none, some o => .ok (.option { o with attached })
    | none, none =>
      match c.abbreviated word with
      | [o] => .ok (.option o)
      | [] =>
        if isNegativeNumber word || word.toList.contains ' ' then .ok .plain else .ok .unknown
      | several =>
        .error (.misuse c ("ambiguous option: " ++ word ++ " could match " ++
          String.intercalate ", " (several.map (·.name))))
  | _ => .ok .plain

/-- The words with what they are taken for. After the end of the options each is an argument. -/
def classifyAll (c : CommandSpec) : List String → Except Stop (List (String × WordKind))
  | [] => .ok []
  | w :: ws =>
    if w = "--" then .ok ((w, .endOfOptions) :: ws.map (·, .plain))
    else do
      let k ← c.classify w
      pure ((w, k) :: (← c.classifyAll ws))

/-! ## Values -/

/-- A choice of words in a message. -/
def choiceText (words : List String) : String := String.intercalate ", " (words.map quoted)

/-- The complaint that a word is none of those to choose from. -/
def notChosen (title word : String) (words : List String) : String :=
  "argument " ++ title ++ ": invalid choice: " ++ quoted word ++ " (choose from " ++
    choiceText words ++ ")"

/-- The value that a word gives for an option. -/
def valueOf (c : CommandSpec) (o : OptionSpec) (word : String) : Except Stop ArgumentValue :=
  match o.takes with
  | .integer =>
    match readInteger word.toList with
    | some n => .ok (.integer n)
    | none =>
      .error (.misuse c ("argument " ++ o.title ++ ": invalid int value: " ++ quoted word))
  | .choice words =>
    if words.contains word then .ok (.text word)
    else .error (.misuse c (notChosen o.title word words))
  | _ => .ok (.text word)

/-- The complaint that an option lacks its value. -/
def lacksValue (c : CommandSpec) (o : OptionSpec) : Stop :=
  .misuse c ("argument " ++ o.title ++ ": expected one argument")

/-- The complaint that an option has a value that it does not take. -/
def spareValue (c : CommandSpec) (o : OptionSpec) (value : String) : Stop :=
  .misuse c ("argument " ++ o.title ++ ": ignored explicit argument " ++ quoted value)

/-- Whether the next word is an argument. -/
def isPlainAhead (rest : List (String × WordKind)) : Bool :=
  match rest with
  | (_, .plain) :: _ => true
  | _ => false

/-- Why the letters after a short option that takes nothing do not suit. Each is a short option
itself, up to one that takes the rest for its value and up to a letter that is none. -/
def clusterFault? (c : CommandSpec) (o : OptionSpec) (rest : List (String × WordKind)) :
    List Char → Option Stop
  | [] => none
  | letter :: letters =>
    if letter = '-' then some (c.spareValue o (String.ofList (letter :: letters)))
    else
      match c.option? (String.ofList ['-', letter]), letters with
      | none, _ => none
      | some p, [] =>
        if p.spec.takesWord && !isPlainAhead rest then some (c.lacksValue p.spec) else none
      | some p, '=' :: value =>
        if p.spec.takesWord then none else some (c.spareValue p.spec (String.ofList value))
      | some p, letters => if p.spec.takesWord then none else c.clusterFault? p.spec rest letters

/-- Why what follows the name of an option that takes nothing does not suit. -/
def attachedFault? (c : CommandSpec) (o : OptionCall) (rest : List (String × WordKind)) :
    Option Stop :=
  match o.attached with
  | .nothing => none
  | .value v => some (c.spareValue o.spec v)
  | .letters cs => c.clusterFault? o.spec rest cs.toList

/-! ## Reading -/

/-- How far reading has come. -/
structure Progress where
  /-- The values so far. -/
  values : ArgumentValues := []
  /-- The arguments that are still to come. -/
  due : List String
  /-- The words that no use was found for. -/
  spare : List String := []
  deriving Inhabited

/-- Read an option with what it takes; also give the words after it. -/
def readOption (c : CommandSpec) (p : Progress) (o : OptionCall)
    (rest : List (String × WordKind)) : Except Stop (Progress × List (String × WordKind)) :=
  if o.spec.takesWord then
    match o.attached, rest with
    | .value w, _ | .letters w, _ => do
      let v ← c.valueOf o.spec w
      pure ({ p with values := p.values.put o.spec.key v }, rest)
    | .nothing, (w, .plain) :: rest => do
      let v ← c.valueOf o.spec w
      pure ({ p with values := p.values.put o.spec.key v }, rest)
    | .nothing, _ => .error (c.lacksValue o.spec)
  else
    match c.attachedFault? o rest, o.spec.takes with
    | some e, _ => .error e
    | none, .help => .error (.help c)
    | none, _ => .ok ({ p with values := p.values.put o.spec.key .given }, rest)

/-- The words of one argument, with the words after them: marks for the end of the options may stand
before and after it. -/
def oneArgument (ws : List (String × WordKind)) :
    Option (List String × List (String × WordKind)) :=
  let isEnd := fun (w : String × WordKind) => w.2 == .endOfOptions
  match ws.dropWhile isEnd with
  | (w, .plain) :: rest =>
    some ((ws.takeWhile isEnd).map (·.1) ++ w :: (rest.takeWhile isEnd).map (·.1),
      rest.dropWhile isEnd)
  | _ => none

/-- Read words up to those for a command below, which are given back. -/
def readOwn (c : CommandSpec) (p : Progress) (ws : List (String × WordKind)) :
    Except Stop (Progress × List String) :=
  match ws with
  | [] => .ok (p, [])
  | (w, k) :: rest =>
    match k with
    | .unknown => readOwn c { p with spare := p.spare ++ [w] } rest
    | .option o => do
      let (p, after) ← c.readOption p o rest
      if _h : after.length ≤ rest.length then readOwn c p after else .ok (p, [])
    | _ =>
      match oneArgument ((w, k) :: rest), p.due, c.commands with
      | some (texts, after), key :: due, _ =>
        let v := (((texts.erase "--").head?).map ArgumentValue.text).getD .unwritten
        if _h : after.length ≤ rest.length then
          readOwn c { p with values := p.values.put key v, due } after
        else .ok (p, [])
      | some _, [], _ :: _ => .ok (p, ((w, k) :: rest).map (·.1))
      | _, _, _ => readOwn c { p with spare := p.spare ++ [w] } rest
termination_by ws.length

/-- The **values** that the words of a command give, and the words that no use was found for. -/
def read (c : CommandSpec) (words : List String) : Except Stop (ArgumentValues × List String) := do
  let (p, below) ← c.readOwn { due := c.arguments } (← c.classifyAll words)
  match below with
  | [] =>
    if p.due.isEmpty then pure (p.values, p.spare)
    else .error (.misuse c ("the following arguments are required: " ++
      String.intercalate ", " p.due))
  | w :: ws =>
    match c.commands.lookup w with
    | none => .error (.misuse c (notChosen c.choice w (c.commands.map Prod.fst)))
    | some d =>
      if _h : ws.length < words.length then
        let (values, spare) ← d.read ws
        pure ((p.values ++ [(c.choice, .text w)]) ++ values, p.spare ++ spare)
      else .ok (p.values, p.spare)
termination_by words.length

end CommandSpec

/-! ## What the program is asked to do -/

/-- What is asked of the command that **completes**. -/
structure CompleteOptions where
  /-- The file of the schema. -/
  schema : Option String := none
  /-- The document. -/
  query : Option String := none
  /-- The file of the document. -/
  file : Option String := none
  /-- The row of the cursor. -/
  row : Option Int := none
  /-- The column of the cursor. -/
  column : Option Int := none
  /-- How suggestions are printed. -/
  format : Option String := none
  deriving DecidableEq, Repr, Inhabited

/-- What is asked of the command for **settings**. -/
inductive SettingsCommand where
  | list
  /-- Change a setting. The value can be unwritten. -/
  | set (key : String) (value : Option String)
  | unset (key : String)
  deriving DecidableEq, Repr, Inhabited

/-- The **command** that is given. -/
inductive Command where
  | none
  | complete (o : CompleteOptions)
  | settings (c : Option SettingsCommand)
  deriving DecidableEq, Repr, Inhabited

/-- What a **command line** says. -/
structure Arguments where
  /-- The file of the settings. -/
  settings : Option String := none
  /-- Whether to report what is done. -/
  debug : Bool := false
  /-- The command. -/
  command : Command := .none
  deriving DecidableEq, Repr, Inhabited

namespace Arguments

/-- The text of a name. -/
def text? (vs : ArgumentValues) (key : String) : Option String :=
  match vs.get? key with
  | some (.text s) => some s
  | _ => none

/-- The integer of a name. -/
def integer? (vs : ArgumentValues) (key : String) : Option Int :=
  match vs.get? key with
  | some (.integer n) => some n
  | _ => none

/-- What some values say. -/
def ofValues (vs : ArgumentValues) : Arguments :=
  let text := text? vs
  let key := (text "key").getD ""
  let command := match text "command" with
    | some "complete" =>
      .complete ⟨text "schema", text "query", text "file", integer? vs "row",
        integer? vs "column", text "format"⟩
    | some "settings" =>
      .settings (match text "settings_command" with
        | some "list" => some .list
        | some "set" => some (.set key (text "value"))
        | some "unset" => some (.unset key)
        | _ => none)
    | _ => .none
  ⟨text "settings", (vs.get? "debug").isSome, command⟩

/-- What the words of a command line **say**. A word without a use is refused. -/
def ofWords (words : List String) : Except Stop Arguments := do
  let (values, spare) ← topCommand.read words
  if spare.isEmpty then pure (ofValues values)
  else .error (.misuse topCommand ("unrecognized arguments: " ++ String.intercalate " " spare))

end Arguments

end QueryAssist
