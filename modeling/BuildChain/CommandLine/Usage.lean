import BuildChain.CommandLine.Parse

/-! # Usage

What the program prints of itself: the summary of the options that every complaint starts with,
and the help.
-/

namespace BuildChain.CommandLine

def usageLines : List Text := [
  "usage: gradle-conventions [-h] [--output OUTPUT] [--dry-run]",
  "                          [--mode \x7bplugin,static,report\x7d]",
  "                          [--project ONLY_PROJECT] [--exclude EXCLUDE]",
  "                          [--group GROUP]",
  "                          project"]

def helpLines : List Text := [
  "",
  "Apply shared Gradle conventions and sequential test ordering to a multi-",
  "project build",
  "",
  "positional arguments:",
  "  project               Path to the Gradle build root",
  "",
  "options:",
  "  -h, --help            show this help message and exit",
  "  --output OUTPUT, -o OUTPUT",
  "                        Output directory (default: project dir)",
  "  --dry-run, -n         Print output without writing files",
  "  --mode \x7bplugin,static,report\x7d, -m \x7bplugin,static,report\x7d",
  "                        'plugin' (default) for the convention plugin, 'static'",
  "                        for per-project test order scripts, 'report' to print",
  "                        the test order",
  "  --project ONLY_PROJECT, -p ONLY_PROJECT",
  "                        Only generate for this subproject (static mode)",
  "  --exclude EXCLUDE, -x EXCLUDE",
  "                        Project name to leave out of test ordering",
  "                        (repeatable, replaces configured exclusions)",
  "  --group GROUP, -g GROUP",
  "                        Group applied by the convention plugin"]

/-- What is printed of a command line that cannot be used. -/
def Error.lines (e : Error) : List Text :=
  usageLines ++ ["gradle-conventions: error: " ++ e.message]

/-- What stopping leads to without a run. -/
def Stop.outcome (tree : FileTree) : Stop → Outcome
  | .help => { Outcome.ofTree tree with out := usageLines ++ helpLines, ending := .exited 0 }
  | .error e => { Outcome.ofTree tree with err := e.lines, ending := .exited 2 }

/-- What the program does for a command line. -/
def run (words : List Text) (tree : FileTree) : Outcome :=
  match parse words with
  | .ok invocation => invocation.run tree
  | .error stop => stop.outcome tree

/-- The files that the program may read or write for a command line, as far as the tree tells. -/
def files (words : List Text) (tree : FileTree) : List FilePath :=
  match parse words with
  | .ok invocation => invocation.request.sources ++ invocation.request.targets tree
  | .error _ => []

end BuildChain.CommandLine
