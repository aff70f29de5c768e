/-!
The help pages of the command line: one for the program and one for each command.
-/

set_option autoImplicit false
set_option relaxedAutoImplicit false

namespace ColumnFormula

inductive HelpPage where
  | program
  | check
  | eval
  | docs
  | doc
  | help
  deriving DecidableEq, Repr

namespace HelpPage

/-- The page on the command with the given name. -/
def ofCommandName? (name : String) : Option HelpPage :=
  match name with
  | "check" => some .check
  | "eval" => some .eval
  | "docs" => some .docs
  | "doc" => some .doc
  | "help" => some .help
  | _ => none

def text : HelpPage → String
  | .program =>
    r#"CCL - derive dataset columns from formulas

Usage: ccl <COMMAND>

Commands:
  check  Validate formula syntax without running it
  eval   Run a formula against a JSON dataset
  docs   List documentation categories
  doc    Show documentation for a specific category
  help   Print this message or the help of the given subcommand(s)

Options:
  -h, --help     Print help
  -V, --version  Print version
"#
  | .check =>
    r#"Validate formula syntax without running it

Usage: ccl check [OPTIONS] <FORMULA>

Arguments:
  <FORMULA>  The formula (or script with --script)

Options:
      --script  Treat the formula as a multi-statement script
  -h, --help    Print help
"#
  | .eval =>
    r#"Run a formula against a JSON dataset

Usage: ccl eval [OPTIONS] <FORMULA>

Arguments:
  <FORMULA>  The formula (or script with --script)

Options:
  -i, --input <INPUT>        JSON dataset (reads from stdin if not provided)
  -n, --name <NAME>          Name of the derived column [default: result]
      --script               Treat the formula as a multi-statement script
  -p, --pretty               Pretty-print the output
      --on-error <ON_ERROR>  What to do with rows that fail: abort or nil [default: abort]
      --sequential           Evaluate rows on the current thread only
  -h, --help                 Print help
"#
  | .docs =>
    r#"List documentation categories

Usage: ccl docs

Options:
  -h, --help  Print help
"#
  | .doc =>
    r#"Show documentation for a specific category

Usage: ccl doc <CATEGORY>

Arguments:
  <CATEGORY>  Category name (use 'ccl docs' to list categories)

Options:
  -h, --help  Print help
"#
  | .help =>
    r#"Print this message or the help of the given subcommand(s)

Usage: ccl help [COMMAND]...

Arguments:
  [COMMAND]...  Print help for the subcommand(s)
"#

end HelpPage

end ColumnFormula
