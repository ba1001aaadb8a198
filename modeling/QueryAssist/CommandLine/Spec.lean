/-! # Commands and their options

What a command line can say. Main definitions:

* **`OptionSpec`** — an option with its names and what it takes.
* **`CommandSpec`** — a command with its options, its arguments and the commands below it.
* **`topCommand`** — the command line of the program. -/

namespace QueryAssist

/-- What an option **takes**. -/
inductive Takes where
  /-- Nothing; the help text is printed. -/
  | help
  /-- Nothing. -/
  | nothing
  /-- A text. -/
  | text
  /-- An integer. -/
  | integer
  /-- One of some words. -/
  | choice (words : List String)
  deriving DecidableEq, Repr, Inhabited

/-- An **option**: its names, with their dashes, and what it takes. -/
structure OptionSpec where
  /-- The name of its value. -/
  key : String
  /-- Its names. -/
  names : List String
  /-- What it takes. -/
  takes : Takes
  deriving DecidableEq, Repr, Inhabited

/-- Whether an option takes a word of the command line. -/
def OptionSpec.takesWord (o : OptionSpec) : Bool :=
  match o.takes with
  | .help | .nothing => false
  | _ => true

/-- The name of an option in messages. -/
def OptionSpec.title (o : OptionSpec) : String := String.intercalate "/" o.names

/-- A **command**. -/
structure CommandSpec where
  /-- The words that call it. -/
  program : String
  /-- The lines that say how to call it. -/
  usage : List String
  /-- The lines of the rest of its help. -/
  details : List String
  /-- Its options. -/
  options : List OptionSpec
  /-- The names of its arguments, each of which must be given. -/
  arguments : List String := []
  /-- The name under which the command below it is known. -/
  choice : String := ""
  /-- The commands below it, one of which may be given. -/
  commands : List (String × CommandSpec) := []
  deriving Inhabited

namespace CommandSpec

/-- The text that says how to call a command. -/
def usageText (c : CommandSpec) : String := String.join (c.usage.map (· ++ "\n"))

/-- The **help** of a command. -/
def help (c : CommandSpec) : String :=
  c.usageText ++ "\n" ++ String.join (c.details.map (· ++ "\n"))

end CommandSpec

/-- The option for help. -/
def helpOption : OptionSpec := ⟨"help", ["-h", "--help"], .help⟩

/-- The command that completes. -/
def completeCommand : CommandSpec where
  program := "gqlcomplete complete"
  usage := [
    "usage: gqlcomplete complete [-h] [--schema SCHEMA] [--query QUERY]",
    "                            [--file FILE] [--row ROW] [--column COLUMN]",
    "                            [--format \x7btable,json\x7d]"]
  details := [
    "options:",
    "  -h, --help            show this help message and exit",
    "  --schema SCHEMA, -s SCHEMA",
    "                        Schema file (SDL or introspection JSON)",
    "  --query QUERY, -q QUERY",
    "                        GraphQL document text",
    "  --file FILE, -f FILE  GraphQL document file ('-' reads stdin)",
    "  --row ROW, -r ROW     Zero-indexed cursor row (default: last line)",
    "  --column COLUMN, -c COLUMN",
    "                        Zero-indexed cursor column (default: end of the row)",
    "  --format \x7btable,json\x7d, -o \x7btable,json\x7d",
    "                        Output format (default: the 'output_format' setting,",
    "                        else table)"]
  options := [
    helpOption,
    ⟨"schema", ["--schema", "-s"], .text⟩,
    ⟨"query", ["--query", "-q"], .text⟩,
    ⟨"file", ["--file", "-f"], .text⟩,
    ⟨"row", ["--row", "-r"], .integer⟩,
    ⟨"column", ["--column", "-c"], .integer⟩,
    ⟨"format", ["--format", "-o"], .choice ["table", "json"]⟩]

/-- The command that lists the settings. -/
def listCommand : CommandSpec where
  program := "gqlcomplete settings list"
  usage := ["usage: gqlcomplete settings list [-h]"]
  details := [
    "options:",
    "  -h, --help  show this help message and exit"]
  options := [helpOption]

/-- The command that changes a setting. -/
def setCommand : CommandSpec where
  program := "gqlcomplete settings set"
  usage := ["usage: gqlcomplete settings set [-h] key value"]
  details := [
    "positional arguments:",
    "  key         Setting name",
    "  value       Setting value",
    "",
    "options:",
    "  -h, --help  show this help message and exit"]
  options := [helpOption]
  arguments := ["key", "value"]

/-- The command that resets a setting. -/
def unsetCommand : CommandSpec where
  program := "gqlcomplete settings unset"
  usage := ["usage: gqlcomplete settings unset [-h] key"]
  details := [
    "positional arguments:",
    "  key         Setting name",
    "",
    "options:",
    "  -h, --help  show this help message and exit"]
  options := [helpOption]
  arguments := ["key"]

/-- The command for settings. -/
def settingsCommand : CommandSpec where
  program := "gqlcomplete settings"
  usage := ["usage: gqlcomplete settings [-h] \x7blist,set,unset\x7d ..."]
  details := [
    "positional arguments:",
    "  \x7blist,set,unset\x7d  Settings commands",
    "    list            Show all settings",
    "    set             Change a setting",
    "    unset           Reset a setting to its default",
    "",
    "options:",
    "  -h, --help        show this help message and exit"]
  options := [helpOption]
  choice := "settings_command"
  commands := [("list", listCommand), ("set", setCommand), ("unset", unsetCommand)]

/-- The **command line** of the program. -/
def topCommand : CommandSpec where
  program := "gqlcomplete"
  usage := ["usage: gqlcomplete [-h] [--settings PATH] [--debug] \x7bcomplete,settings\x7d ..."]
  details := [
    "Schema-aware autocompletion for GraphQL documents",
    "",
    "positional arguments:",
    "  \x7bcomplete,settings\x7d  Available commands",
    "    complete           Suggest completions at a cursor position",
    "    settings           Manage saved settings",
    "",
    "options:",
    "  -h, --help           show this help message and exit",
    "  --settings PATH      Path to settings JSON file (overrides",
    "                       ~/.gqlcomplete/settings.json)",
    "  --debug              Log debug output to stderr.",
    "",
    "Example: gqlcomplete complete --schema schema.graphql --query '\x7b us' --row 0 --column 4"]
  options := [helpOption, ⟨"settings", ["--settings"], .text⟩, ⟨"debug", ["--debug"], .nothing⟩]
  choice := "command"
  commands := [("complete", completeCommand), ("settings", settingsCommand)]

end QueryAssist
