import Runbook.Command.Entry

/-!
# The command table

The closed set of commands, in the order in which the help lists them, and the aliases under which
one of them can be called too. Names are matched exactly, letter case included.
-/

namespace Runbook.Command

def schemaDirectory : String := "src/schema"

def schemaFile : String := "src/schema/table.rs"

def table : List Entry := [
  { name := "help", description := "Show this help (aliases: -h, --help)", category := .help,
    action := .help },
  { name := "start", description := "Load .env.production, run cargo run --release",
    category := .app, program := "cargo", fixedArgs := ["run", "--release", "--"],
    forwardsArgs := true, envFile := ".env.production" },
  { name := "dev", description := "Load .env.local, run cargo run",
    category := .app, program := "cargo", fixedArgs := ["run", "--"],
    separator := true, forwardsArgs := true, envFile := ".env.local" },
  { name := "dev:staging", description := "Load .env.staging, run cargo run",
    category := .app, program := "cargo", fixedArgs := ["run", "--"],
    separator := true, forwardsArgs := true, envFile := ".env.staging" },
  { name := "dev:production", description := "Load .env.production, run cargo run --release",
    category := .app, program := "cargo", fixedArgs := ["run", "--release", "--"],
    forwardsArgs := true, envFile := ".env.production" },
  { name := "build", description := "cargo build --release",
    category := .app, program := "cargo", fixedArgs := ["build", "--release"],
    forwardsArgs := true },
  { name := "build:staging", description := "Load .env.staging, build --release",
    category := .app, program := "cargo", fixedArgs := ["build", "--release"],
    forwardsArgs := true, envFile := ".env.staging" },
  { name := "build:production", description := "Load .env.production, build --release",
    category := .app, program := "cargo", fixedArgs := ["build", "--release"],
    forwardsArgs := true, envFile := ".env.production" },
  { name := "db:migration:create", description := "diesel migration create NAME",
    category := .database, program := "diesel", fixedArgs := ["migration", "create"],
    forwardsArgs := true, requiresTool := "diesel", usageHint := "NAME" },
  { name := "db:migration:run", description := "diesel migration run",
    category := .database, program := "diesel", fixedArgs := ["migration", "run"],
    forwardsArgs := true, requiresTool := "diesel" },
  { name := "db:migration:revert", description := "diesel migration revert",
    category := .database, program := "diesel", fixedArgs := ["migration", "revert"],
    forwardsArgs := true, requiresTool := "diesel" },
  { name := "db:migration:reset", description := "diesel migration redo",
    category := .database, program := "diesel", fixedArgs := ["migration", "redo"],
    forwardsArgs := true, requiresTool := "diesel" },
  { name := "db:migration:status", description := "diesel migration list",
    category := .database, program := "diesel", fixedArgs := ["migration", "list"],
    forwardsArgs := true, requiresTool := "diesel" },
  { name := "db:migration:schema",
    description := "mkdir -p " ++ schemaDirectory ++ " && diesel print-schema > " ++ schemaFile,
    category := .database, action := .schema, program := "diesel",
    fixedArgs := ["print-schema"], requiresTool := "diesel" },
  { name := "docker:up", description := "docker compose up -d --build",
    category := .docker, program := "docker", fixedArgs := ["compose", "up", "-d", "--build"],
    requiresTool := "docker" },
  { name := "docker:down", description := "docker compose down",
    category := .docker, program := "docker", fixedArgs := ["compose", "down"],
    requiresTool := "docker" },
  { name := "check", description := "cargo check",
    category := .quality, program := "cargo", fixedArgs := ["check"] },
  { name := "lint", description := "cargo clippy -- -D warnings",
    category := .quality, program := "cargo", fixedArgs := ["clippy", "--", "-D", "warnings"] },
  { name := "lint:fix", description := "cargo clippy --fix --allow-dirty --allow-staged",
    category := .quality, program := "cargo",
    fixedArgs := ["clippy", "--fix", "--allow-dirty", "--allow-staged"] },
  { name := "format", description := "cargo fmt",
    category := .quality, program := "cargo", fixedArgs := ["fmt"] },
  { name := "format:check", description := "cargo fmt -- --check",
    category := .quality, program := "cargo", fixedArgs := ["fmt", "--", "--check"] }]

/-- The aliases, each with the command it stands for. -/
def aliases : List (String × String) := [("-h", "help"), ("--help", "help")]

/-- The command that a word stands for: itself, unless it is an alias. -/
def canonicalName (name : String) : String := (aliases.lookup name).getD name

/-- The command that a word selects, by name or alias. -/
def find? (name : String) : Option Entry := table.find? fun e ↦ e.name == canonicalName name

/-- Every word that selects a command, ascending. -/
def selectors : List String :=
  (table.map Entry.name ++ aliases.map Prod.fst).mergeSort fun a b ↦ decide (a ≤ b)

end Runbook.Command
