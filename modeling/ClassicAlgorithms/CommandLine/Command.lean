/-!
# Commands and their help pages
-/
namespace ClassicAlgorithms

inductive Command where
  | dfs
  | editDistance
  | connect
deriving DecidableEq

namespace Command

/-- All commands in the order of the help page. -/
def all : List Command := [dfs, editDistance, connect]

/-- The name on the command line. -/
def label : Command → String
  | dfs => "dfs"
  | editDistance => "edit-distance"
  | connect => "connect"

def description : Command → String
  | dfs => "Number the nodes of a directed graph in depth-first preorder and classify " ++
    "every edge as tree, forward, back, or cross"
  | editDistance => "Compute the edit distance between two lines and an optimal alignment"
  | connect => "Count the edges needed to connect every component of an undirected graph"

/-- The command of that exact name. -/
def named? (name : String) : Option Command := all.find? fun command => command.label == name

end Command

namespace HelpPage

def helpDescription : String := "Print this message or the help of the given subcommand(s)"

/-- Joins lines, each with its line feed. -/
def page (lines : List String) : String := String.join (lines.map fun line => line ++ "\n")

/-- A name and its description in columns; the longest name has thirteen
characters. -/
def entry (name description : String) : String :=
  "  " ++ name ++ String.ofList (List.replicate (15 - name.length) ' ') ++ description

def overview : String :=
  page (["Run classic graph and string algorithms over plain-text input.", "",
      "Usage: algokit <COMMAND>", "", "Commands:"] ++
    Command.all.map (fun command => entry command.label command.description) ++
    [entry "help" helpDescription, "", "Options:", "  -h, --help  Print help"])

def ofCommand (command : Command) : String :=
  page [command.description, "", s!"Usage: algokit {command.label} [PATH]", "", "Arguments:",
    "  [PATH]  Input file. Reads standard input when omitted or `-`", "", "Options:",
    "  -h, --help  Print help"]

def ofHelp : String :=
  page [helpDescription, "", "Usage: algokit help [COMMAND]...", "", "Arguments:",
    "  [COMMAND]...  Print help for the subcommand(s)"]

end HelpPage

end ClassicAlgorithms
