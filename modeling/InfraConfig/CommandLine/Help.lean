/-!
# Help

What the command says of itself. The short text has a line for each option, the long one has paragraphs.
-/

namespace InfraConfig

namespace Help

def about : String :=
  "Evaluate Terraform configuration into fully resolved blocks

Usage: tfeval [OPTIONS] [PATH]
"

def short : String :=
  about ++ "
Arguments:
  [PATH]  Root configuration directory [default: .]

Options:
      --var <VAR>              Set a variable: --var key=value (repeatable)
      --var-file <VAR_FILE>    Load variables from a .tfvars or .tfvars.json file. Can repeat
      --workspace <WORKSPACE>  Workspace name exposed as terraform.workspace
      --stop-on-error          Abort on the first unreadable or malformed file
      --config <CONFIG>        Settings file (default: tfeval.toml if present)
      --format <FORMAT>        [default: summary] [possible values: summary, json]
  -h, --help                   Print help (see more with '--help')
"

/-- A line of blanks between the paragraphs of one option. -/
def gap : String :=
  "\n          \n"

def long : String :=
  about ++ "
Arguments:
  [PATH]
          Root configuration directory" ++ gap ++ "          [default: .]

Options:
      --var <VAR>
          Set a variable: --var key=value (repeatable)

      --var-file <VAR_FILE>
          Load variables from a .tfvars or .tfvars.json file. Can repeat

      --workspace <WORKSPACE>
          Workspace name exposed as terraform.workspace

      --stop-on-error
          Abort on the first unreadable or malformed file

      --config <CONFIG>
          Settings file (default: tfeval.toml if present)

      --format <FORMAT>
          [default: summary]

          Possible values:
          - summary: One line per block with its source range
          - json:    Every module with its blocks and resolved values

  -h, --help
          Print help (see a summary with '-h')
"

end Help

end InfraConfig
