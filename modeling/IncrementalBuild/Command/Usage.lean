/-!
# Usage

The texts that explain the commands and their options.
-/

set_option autoImplicit false

namespace IncrementalBuild

namespace Usage

/-- Lines of text. -/
def lines (ls : List String) : String := String.join (ls.map (· ++ "\n"))

/-- The line that tells the version. -/
def version : String := lines ["zinc 0.1.0-alpha.1"]

/-- The options of a build. -/
def options : String := lines
  ["Options:",
    "  --release             Optimize (same as --opt=fast)",
    "  --opt=<mode>          debug, safe, fast, small",
    "  --target=<triple>     arch-os[-abi], or native",
    "  --emit=<kind>         bin, asm, ir",
    "  --lib                 Build a shared library",
    "  --obj                 Build a relocatable object",
    "  --static              Link statically",
    "  --out-dir=<dir>       Write the artifact here (default: current directory)",
    "  -l<name>              Link a library",
    "  -L<dir>               Add a library search path",
    "  --rpath=<dir>         Add a runtime search path",
    "  --linker=<kind>       system (default) or dry",
    "  --jobs=<n>            Worker threads (default: one per core)",
    "  --verbose-<stage>     tokenize, ast, ir, link"]

/-- The commands. -/
def commands : String := lines
  ["Zinc incremental compiler",
    "",
    "Usage: zinc <command> [options]",
    "",
    "Commands:",
    "  build <file>    Build once and exit",
    "  watch <file>    Build, then rebuild whenever the file changes",
    "  help            Show this message",
    "  version         Show version information",
    ""]

/-- The environment variables. -/
def environment : String := lines
  ["",
    "Environment:",
    "  ZINC_LOG        Log filter, e.g. `zincc=debug` (falls back to RUST_LOG)",
    "  ZINC_LOG_TREE   Set to 1 for hierarchical span output",
    "  ZINC_CC         C compiler driver used to link (default: cc)",
    "  ZINC_LIBC_DIR   Directory holding the host C runtime"]

/-- The whole explanation. -/
def full : String := commands ++ options ++ environment

/-- The complaint about a command that misses its file. -/
def missingFile (command : String) : String :=
  lines [s!"Usage: zinc {command} <file.zn> [options]", ""]

/-- The complaint about a command that does not exist. -/
def unknownCommand (command : String) : String := lines [s!"Unknown command: {command}", ""]

end Usage

end IncrementalBuild
