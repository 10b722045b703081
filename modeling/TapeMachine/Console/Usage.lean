import TapeMachine.MetaCommand

/-! # Usage — the help of the commands

    Each text shows how a command is called, with the name of the
    program filled in, and ends with an empty line. -/

namespace TapeMachine.Console.Usage

/-- The help of the program itself. -/
def top (program : String) : String :=
  String.join [
    "Usage:\n",
    "  ", program, " run   [--debug|-d] \"<code>\"         # Run Screwtape code (args are concatenated)\n",
    "  ", program, " run   [--debug|-d] --file <PATH>    # Run Screwtape code loaded from file\n",
    "  ", program, " write [TEXT...]                     # Generate Screwtape to print TEXT/STDIN/file\n",
    "  ", program, " write --file <PATH>                 # Generate Screwtape to print file contents\n",
    "  ", program, " repl                                # Start a Screwtape REPL (read-eval-print loop)\n",
    "\n",
    "With no subcommand, starts the REPL.\n",
    "Set SCREWTAPE_LOG (e.g. SCREWTAPE_LOG=debug) to enable diagnostic logging on stderr.\n",
    "\n",
    "Run \"", program, " <subcommand> --help\" for more info.\n",
    "\n"]

/-- The help of `run`. -/
def run (program : String) : String :=
  String.join [
    "Usage:\n",
    "  ", program, " run [--debug|-d] [--tape N,N,...] [--show-tape] \"<code>\"\n",
    "  ", program, " run [--debug|-d] [--tape N,N,...] [--show-tape] --file <PATH>\n",
    "\n",
    "Options:\n",
    "  --file,  -f <PATH>      Read Screwtape code from PATH instead of positional \"<code>\"\n",
    "  --debug, -d             Print a step-by-step table of operations while executing\n",
    "  --tape,  -t <N,N,...>   Seed the tape with these values (cursor on the first)\n",
    "  --show-tape             Print the final tape and cursor to stderr\n",
    "  --timeout <MS>          Wall-clock timeout (SCREWTAPE_TIMEOUT_MS; default 2000)\n",
    "  --max-steps <N>         Abort after N instructions (SCREWTAPE_MAX_STEPS)\n",
    "  --help,  -h             Show this help\n",
    "\n",
    "Notes:\n",
    "- Commands are > < + - . [ ]; every other character is ignored, so comments are free.\n",
    "- `[` does nothing; `]` jumps back to its `[` while the current cell is non-zero.\n",
    "- `.` prints the character whose code point is the current cell value.\n",
    "\n",
    "Examples:\n",
    "- Load Screwtape code from a file:\n",
    "    ", program, " run --file ./program.st\n",
    "- Multiply 3 by 2 and inspect the tape:\n",
    "    ", program, " run --show-tape \"+++[>++<-]>\"\n",
    "\n"]

/-- The help of `write`. -/
def write (program : String) : String :=
  String.join [
    "Usage:\n",
    "  ", program, " write [TEXT...]           # Read UTF-8 TEXT args (preferred) or from STDIN if no TEXT is given\n",
    "  ", program, " write --file <PATH>       # Read from file instead of STDIN\n",
    "\n",
    "Options:\n",
    "  --file,  -f <PATH>  Read input from file at PATH (otherwise reads from TEXT or STDIN)\n",
    "  --help,   -h        Show this help\n",
    "\n",
    "Description:\n",
    "  Generates Screwtape code that, when executed, will output the provided text.\n",
    "\n",
    "Notes:\n",
    "  - Output is Screwtape code printed to stdout followed by a newline.\n",
    "  - The generated program uses the cell left of the start as a loop counter.\n",
    "\n"]

/-- The help of `repl`. -/
def repl (program : String) : String :=
  String.join [
    "Usage:\n",
    "  ", program, " repl   # Start a Screwtape REPL (read-eval-print loop)\n",
    "\n",
    "Options:\n",
    "  --help,   -h        Show this help\n",
    "  --bare              Force non-interactive bare mode\n",
    "  --editor            Force interactive editor mode (errors if stdin is not a TTY)\n",
    "  --timeout <MS>      Wall-clock timeout per submission\n",
    "  --max-steps <N>     Abort a submission after N instructions\n",
    "\n",
    "Description:\n",
    "  Starts a REPL where you can enter Screwtape code and execute it live.\n",
    "\n",
    MetaCommand.helpText, "\n",
    "\n",
    "Notes:\n",
    "    - Ctrl+D executes the current buffer on *nix/macOS.\n",
    "    - Ctrl+Z and Enter will execute the current buffer on Windows.\n",
    "    - Ctrl+C exits the REPL immediately.\n",
    "    - The REPL will print a newline after each execution for readability.\n",
    "    - In editor mode the tape carries over between submissions; use :reset to start over.\n",
    "    - The REPL will exit after a single execution if the environment variable `SCREWTAPE_REPL_ONCE` is set to `1`.\n",
    "    - Mode selection:\n",
    "        * Flags: --bare|--editor override environment and auto-detection.\n",
    "        * Env: SCREWTAPE_REPL_MODE=bare|editor overrides auto-detection.\n",
    "        * Auto-detect: if stdin is a TTY, starts in interactive editor mode; otherwise, bare mode.\n",
    "        * Prompts/banners suppressed if stderr is not a TTY.\n",
    "\n"]

end TapeMachine.Console.Usage
