/-
The usage texts. Each is a list of lines, the last of them empty.
-/
namespace TapeMachine.CommandLine.Usage

def text (lines : List String) : String := String.join (lines.map (· ++ "\n"))

def top (program : String) : String :=
  text
    ["Usage:",
     "  " ++ program ++ " run  [-g] \"<code>\"          # Run code (args are concatenated)",
     "  " ++ program ++ " run  [-g] --file <PATH.bf>  # Run code loaded from a .bf file",
     "  " ++ program ++ " repl [--bare|--editor]      # Start a REPL with a persistent tape",
     "  " ++ program ++ "                             # Same as `repl`",
     "",
     "Run \"" ++ program ++ " <subcommand> --help\" for more info.",
     ""]

def run (program : String) : String :=
  text
    ["Usage:",
     "  " ++ program ++ " run [OPTIONS] \"<code>\"",
     "  " ++ program ++ " run [OPTIONS] --file <PATH.bf>",
     "",
     "Options:",
     "  --file,  -f <PATH>    Run the .bf file at PATH instead of positional \"<code>\"",
     "  --guard-rails, -g     Clamp/wrap instead of failing on bounds, overflow and " ++
       "sub-zero faults",
     "  --capacity <N>        Number of tape cells (default 32768)",
     "  --limit <N>           Exclusive ceiling for cell values (default 256)",
     "  --timeout <MS>        Abort after MS milliseconds (fallback BF_TIMEOUT_MS)",
     "  --max-steps <N>       Abort after N instructions (fallback BF_MAX_STEPS)",
     "  --dump[=WIDTH]        Print the first WIDTH tape cells after the run (default 10)",
     "  --help,  -h           Show this help",
     "",
     "Notes:",
     "- `//` starts a line comment; `/* ... */` encloses a block comment. Whitespace is ignored.",
     "- Input (`,`) reads one line from stdin that must hold exactly one character.",
     "- Output (`.`) only prints cells in the range 32 to 255.",
     "- Any other character outside ><+-.,[] is a syntax error.",
     "",
     "Examples:",
     "- Run a program from a file:",
     "    " ++ program ++ " run --file ./program.bf",
     "- Keep going past tape edges and wrap cell values:",
     "    " ++ program ++ " run -g \"-<+++.\"",
     ""]

def repl (program : String) : String :=
  text
    ["Usage:",
     "  " ++ program ++ " repl   # Start a Brainfuck REPL (read-eval-print loop)",
     "",
     "Options:",
     "  --help,   -h          Show this help",
     "  --bare                Force non-interactive bare mode",
     "  --editor              Force interactive editor mode (errors if stdin is not a TTY)",
     "  --guard-rails, -g     Start with guard rails on",
     "",
     "Description:",
     "  Starts a REPL where you can enter Brainfuck code and execute it live.",
     "  One tape is shared by every submission until :reset.",
     "",
     "Meta commands (line starts with \":\")",
     "  :exit                   Exit immediately (code 0)",
     "  :help                   Show meta command help",
     "  :reset                  Zero the tape and move the pointer to cell 1",
     "  :dump [WIDTH] [OFFSET]  Print WIDTH cells starting at OFFSET to stdout",
     "  :rails                  Toggle guard rails",
     "",
     "Notes:",
     "    - Comments (// and /* */) and whitespace are ignored.",
     "    - Ctrl+D executes the current buffer on *nix/macOS.",
     "    - Ctrl+Z and Enter will execute the current buffer on Windows.",
     "    - Ctrl+C exits the REPL immediately.",
     "    - The REPL will exit after a single execution if the environment variable " ++
       "`BF_REPL_ONCE` is set to `1`.",
     "    - Mode selection:",
     "        * Flags: --bare|--editor override environment and auto-detection.",
     "        * Env: BF_REPL_MODE=bare|editor overrides auto-detection.",
     "        * Auto-detect: if stdin is a TTY, starts in interactive editor mode; " ++
       "otherwise, bare mode.",
     "        * In bare mode stdin is read to EOF and run as a script; lines starting " ++
       "with \":\" are meta commands.",
     ""]

end TapeMachine.CommandLine.Usage
