import Jarwright.Bytes
import Jarwright.Text.Blank
import Jarwright.Text.Utf8

/-!
# Commands

A command is a program with arguments and the directory it is run in. What it writes is kept up to
a limit, and what a failed one wrote is part of the report.

* `Command.text` shows a command to a reader;
* `captureFrom` reads a stream to its end and keeps its first bytes, and `capture` does so for what
  a program writes in pieces;
* `Execution.finish` says how a command ends when it is given a limited time.
-/

namespace Jarwright.Machine

/-- An argument of a command: a text, or bytes that need not spell one. -/
inductive Argument where
  | text (s : String)
  | raw (bs : Bytes)
  deriving DecidableEq, Repr, Inhabited

namespace Argument

/-- The bytes that a program is given. -/
def bytes : Argument → Bytes
  | .text s => Text.Utf8.ofString s
  | .raw bs => bs

/-- The text that a reader is shown. -/
def shown : Argument → String
  | .text s => s
  | .raw bs => String.ofList (Text.Utf8.decodeLossy bs)

end Argument

/-- A program to run. -/
structure Command where
  program : Argument
  arguments : List Argument
  directory : Argument := .text "."
  deriving DecidableEq, Repr, Inhabited

namespace Command

/-- A command all of whose parts are texts. -/
def ofTexts (program : String) (arguments : List String) (directory : String) : Command :=
  ⟨.text program, arguments.map .text, .text directory⟩

/-- An argument as it is shown: one with blanks in it stands in quotes. -/
def shownArgument (a : Argument) : String :=
  let s := a.shown
  if s.toList.any fun c => c == ' ' || c == '\t' then
    String.ofList ('"' :: s.toList.flatMap (fun c => if c = '"' then ['\\', '"'] else [c]) ++ ['"'])
  else s

/-- The command as it is shown. -/
def text (c : Command) : String :=
  " ".intercalate (c.program.shown :: c.arguments.map shownArgument)

end Command

/-! ## Ends -/

/-- How a program ended. -/
inductive Status where
  | exited (code : Nat)
  /-- It was ended by a signal, and left an image of its memory or not. -/
  | killed (signal : Nat) (dumped : Bool)
  deriving DecidableEq, Repr, Inhabited

namespace Status

/-- The names of signals from the first one on. -/
def signalNames : List String :=
  ["SIGHUP", "SIGINT", "SIGQUIT", "SIGILL", "SIGTRAP", "SIGABRT", "SIGBUS", "SIGFPE", "SIGKILL",
    "SIGUSR1", "SIGSEGV", "SIGUSR2", "SIGPIPE", "SIGALRM", "SIGTERM", "SIGSTKFLT", "SIGCHLD",
    "SIGCONT", "SIGSTOP", "SIGTSTP", "SIGTTIN", "SIGTTOU", "SIGURG", "SIGXCPU", "SIGXFSZ",
    "SIGVTALRM", "SIGPROF", "SIGWINCH", "SIGIO", "SIGPWR", "SIGSYS"]

/-- Whether a program did what it was asked to. -/
def isSuccess : Status → Bool
  | .exited 0 => true
  | _ => false

/-- The wording of a status. -/
def text : Status → String
  | .exited code => s!"exit status: {code}"
  | .killed signal dumped =>
    let name := match signal with
      | 0 => ""
      | n + 1 => (signalNames[n]?.map fun name => s!" ({name})").getD ""
    s!"signal: {signal}" ++ name ++ (if dumped then " (core dumped)" else "")

end Status

/-! ## Output -/

/-- How many bytes of a stream are read at once. -/
def bufferSize : Nat := 8 * 1024

/-- The readings of a content that is there at once: as much of it as fits, until nothing is left. -/
def readings (content : Bytes) : List Bytes :=
  (List.range ((content.length + bufferSize - 1) / bufferSize)).map fun i =>
    (content.drop (i * bufferSize)).take bufferSize

/-- Takes one more reading of a stream: as much of it as there is room for, and whether something
had to be left out. -/
def captureStep (limit : Nat) (kept : Bytes × Bool) (piece : Bytes) : Bytes × Bool :=
  let room := limit - kept.1.length
  (kept.1 ++ piece.take room, kept.2 || decide (room < piece.length))

/-- Reads a stream until a reading gives nothing or fails, and keeps its first bytes and whether
there were more. What further readings would give is left; behind the last of them the stream is at
its end. -/
def captureFrom {ε : Type} (limit : Nat) (kept : Bytes × Bool) :
    List (Except ε Bytes) → Except ε (Bytes × Bool) × List (Except ε Bytes)
  | [] => (.ok kept, [])
  | .error e :: rest => (.error e, rest)
  | .ok piece :: rest =>
    if piece.isEmpty then (.ok kept, rest)
    else captureFrom limit (captureStep limit kept piece) rest

/-- Keeps the first bytes of what is written in pieces, and whether there were more. Reading it does
not fail. -/
def capture (limit : Nat) (pieces : List Bytes) : Bytes × Bool :=
  match (@captureFrom Empty limit ([], false) ((pieces.flatMap readings).map .ok)).1 with
  | .ok kept => kept

/-- What a program wrote, as far as it was kept. -/
structure Output where
  stdout : String
  stderr : String
  /-- Whether one of them is not complete. -/
  truncated : Bool
  deriving DecidableEq, Repr, Inhabited

/-- How a command ended and what it wrote. -/
structure Outcome where
  status : Status
  output : Output
  timedOut : Bool
  deriving DecidableEq, Repr, Inhabited

namespace Outcome

/-- Whether a command did what it was asked to, in time. -/
def isSuccess (o : Outcome) : Bool := !o.timedOut && o.status.isSuccess

/-- A stream under its name, unless there is nothing in it but blanks. -/
def streamReport (name content : String) : String :=
  let trimmed := Text.trimEnd content.toList
  if trimmed.isEmpty then "" else s!"\n{name}:\n" ++ String.ofList trimmed

/-- The report on a command that failed. -/
def report (o : Outcome) (c : Command) : String :=
  (if o.timedOut then s!"`{c.text}` timed out ({o.status.text})"
    else s!"`{c.text}` exited with {o.status.text}")
    ++ (if o.output.truncated then " (output truncated)" else "")
    ++ streamReport "stderr" o.output.stderr ++ streamReport "stdout" o.output.stdout

end Outcome

/-! ## Executions -/

/-- An end of a program, and the pieces in which its output arrives until then. -/
structure Ending where
  status : Status
  stdout : List Bytes
  stderr : List Bytes
  deriving DecidableEq, Repr, Inhabited

/-- What a program does: when and how it ends of itself, how it ends when it is asked to and how
long that takes, if it listens, and how it ends when it is stopped. -/
structure Execution where
  duration : Nat
  alone : Ending
  asked : Option (Nat × Ending)
  stopped : Ending
  deriving DecidableEq, Repr, Inhabited

/-- How much a command is allowed; times are in milliseconds. -/
structure Limits where
  timeout : Option Nat := none
  /-- How many bytes of each stream are kept. -/
  bytes : Nat := 16 * 1024 * 1024
  /-- How long to wait between asking a program to end and stopping it. -/
  grace : Nat := 250
  deriving DecidableEq, Repr, Inhabited

namespace Execution

/-- An execution that ends at once, if it is given any time. -/
def immediate (e : Ending) : Execution :=
  ⟨0, e, some (0, ⟨.killed 15 false, [], []⟩), ⟨.killed 9 false, [], []⟩⟩

/-- Whether an execution takes too long, and how it ends. -/
def finish (x : Execution) (limits : Limits) : Bool × Ending :=
  match limits.timeout with
  | none => (false, x.alone)
  | some t =>
    if x.duration < t then (false, x.alone)
    else match x.asked with
      | some (delay, e) => (true, if delay ≤ limits.grace then e else x.stopped)
      | none => (true, x.stopped)

/-- What is seen of an execution. -/
def outcome (x : Execution) (limits : Limits) : Outcome :=
  let (timedOut, e) := x.finish limits
  let stdout := capture limits.bytes e.stdout
  let stderr := capture limits.bytes e.stderr
  let text (bs : Bytes) : String := String.ofList (Text.Utf8.decodeLossy bs)
  ⟨e.status, ⟨text stdout.1, text stderr.1, stdout.2 || stderr.2⟩, timedOut⟩

end Execution

end Jarwright.Machine
