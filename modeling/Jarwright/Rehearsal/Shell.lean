import Jarwright.Machine.Command
import Jarwright.Rehearsal.Shell.Format
import Jarwright.Rehearsal.Shell.Script

/-!
# A small shell

Enough of the shell to rehearse commands: words with parameters, redirections of the two streams,
sequences, choices, loops, and the built-in commands that end a shell, write, compare, wait or set
a trap. Time passes only while a command waits, so a limit on it is met there: the shell and the
commands that it waits for are asked to end, by a signal that a trap can catch or let pass, and
are stopped if they go on for too long.

* `signalled` is what a signal does, `wait` what comes of letting time pass;
* `runAll` runs the commands of a script, and a bound on their number makes an end of endless ones;
* `execution` says how a shell with a script behaves when it has a limited time.
-/

namespace Jarwright.Rehearsal.Shell

open Machine

/-- A shell at work. -/
structure State where
  /-- Its name and its parameters. -/
  name : List Char
  parameters : List (List Char)
  values : List (List Char × List Char)
  directory : List Char
  /-- Where the two streams of a command go. -/
  streams : Sink × Sink
  /-- The pieces that were written, latest first. -/
  stdout : List Bytes
  stderr : List Bytes
  status : Nat
  /-- What is run at a signal, by its number, or before the shell ends by itself, at number 0. An
  empty script lets a signal pass. -/
  traps : List (Nat × List Char)
  /-- The commands that were left to themselves, latest first. -/
  background : List Node
  /-- How long it has waited, in milliseconds. -/
  time : Nat
  /-- When the shell and its commands are asked to end, and when they are stopped. -/
  deadline : Option (Nat × Nat)
  /-- Whether they were asked to. -/
  asked : Bool
  deriving Repr, Inhabited

/-- What comes after a command. -/
inductive Flow where
  | next (s : State)
  | ended (s : State) (status : Status)
  | forever (s : State)
  /-- A loop is left, or goes on with its next turn. -/
  | jump (s : State) (again : Bool)
  deriving Inhabited

namespace State

/-- Writes to a stream. -/
def put (s : State) (sink : Sink) (bytes : Bytes) : State :=
  match sink with
  | .stdout => { s with stdout := bytes :: s.stdout }
  | .stderr => { s with stderr := bytes :: s.stderr }
  | .nowhere => s

/-- The traps of a command apart from the shell: signals are let pass as before. -/
def inheritedTraps (s : State) : List (Nat × List Char) :=
  s.traps.filter fun t => t.1 != 0 && t.2.isEmpty

/-- Gives a value to a name. -/
def assign (s : State) (name value : List Char) : State :=
  { s with values := (name, value) :: s.values.filter (·.1 != name) }

/-- The value of a parameter. -/
def parameter (s : State) (name : List Char) : List Char :=
  match name with
  | ['0'] => s.name
  | ['#'] => Text.decimal s.parameters.length
  | ['?'] => Text.decimal s.status
  | ['$'] => ['$']
  | ['@'] | ['*'] => [' '].intercalate s.parameters
  | [c] =>
    if c.isDigit then s.parameters.getD (c.toNat - 49) [] else (s.values.lookup name).getD []
  | _ => (s.values.lookup name).getD []

/-- The text of an arithmetic expression's value. -/
def arithmetic (s : State) (expression : List Char) : List Char :=
  decimalText ((evaluate? s.parameter expression).getD 0)

/-- The text of a word that is not to fall apart. -/
def text (s : State) (pieces : List Piece) : List Char :=
  pieces.flatMap fun
    | .plain cs => cs
    | .parameter name _ => s.parameter name
    | .arithmetic e => s.arithmetic e

/-- Adds the parts of a value behind a word that is not finished, if there is one: those in front
are words of their own, and the last one is not finished. -/
def scatter (word : Option (List Char)) (value : List Char) :
    List (List Char) × Option (List Char) :=
  match value with
  | [] => ([], word)
  | first :: _ =>
    let parts := Text.words value
    let parts := if Text.isBlank first then word.toList ++ parts else match parts with
      | p :: ps => (word.getD [] ++ p) :: ps
      | [] => word.toList
    if value.getLast?.any Text.isBlank then (parts, none)
    else (parts.dropLast, parts.getLast?)

/-- The words that a word becomes; `word` is the one that is not finished. -/
def expandFrom (s : State) (word : Option (List Char)) : List Piece → List (List Char)
  | [] => word.toList
  | .plain cs :: rest => s.expandFrom (some (word.getD [] ++ cs)) rest
  | .arithmetic e :: rest => s.expandFrom (some (word.getD [] ++ s.arithmetic e)) rest
  | .parameter name true :: rest => s.expandFrom (some (word.getD [] ++ s.parameter name)) rest
  | .parameter name false :: rest =>
    let (done, word) := scatter word (s.parameter name)
    done ++ s.expandFrom word rest

/-- The words of a command. -/
def expand (s : State) (words : List (List Piece)) : List (List Char) :=
  words.flatMap (s.expandFrom none)

end State

/-! ## Built-in commands -/

/-- The number of a signal by its name or number. -/
def signal? (cs : List Char) : Option Nat :=
  match Text.unsigned 65 cs with
  | .ok n => some n
  | .error _ =>
    let name := String.ofList cs
    let full := if Text.startsWith "SIG".toList cs then name else "SIG" ++ name
    (Status.signalNames.zipIdx.find? (·.1 == full)).map (·.2 + 1)

/-- The milliseconds of a time in seconds. -/
def milliseconds? (cs : List Char) : Option Nat :=
  let whole := cs.takeWhile Char.isDigit
  let part (ds : List Char) : Nat := ds.foldl (fun n d => n * 10 + (d.toNat - 48)) 0
  match cs.drop whole.length with
  | [] | ['s'] => if whole.isEmpty then none else some (part whole * 1000)
  | '.' :: rest =>
    let digits := (rest ++ ['0', '0', '0']).take 3
    if rest.all Char.isDigit then some (part whole * 1000 + part digits) else none
  | _ => none

/-- The streams of a command after its redirections. -/
def sinks (streams : Sink × Sink) (redirects : List (Bool × Sink)) : Sink × Sink :=
  redirects.foldl (fun (first, second) (isSecond, target) =>
    let sink := match target with
      | .stdout => first
      | .stderr => second
      | .nowhere => .nowhere
    if isSecond then (first, sink) else (sink, second)) streams

/-- The status of a command that was not found. -/
def notFoundStatus : Nat := 127

/-- The number of the signal that asks a program to end. -/
def termination : Nat := 15

/-- What a signal does to a shell. A trap script is run by `react`. -/
def signalled (react : List Char → State → Flow) (s : State) (signal : Nat) : Flow :=
  let trap := if signal = 9 then none else s.traps.lookup signal
  match trap with
  | some [] => .next s
  | some script =>
    match react script s with
    | .ended s status => .ended s status
    | .next inner | .forever inner | .jump inner _ => .next { inner with status := s.status }
  | none => .ended { s with traps := [] } (.killed signal false)

/-- What comes of waiting for a command that takes a while and ends at signals unless they are let
pass. -/
def wait (react : List Char → State → Flow) (s : State) (time : Nat) : Flow :=
  let till := s.time + time
  let rest (s : State) (stop : Nat) : Flow :=
    if till < stop then .next { s with time := till, status := 0 }
    else .ended { s with time := stop, traps := [] } (.killed 9 false)
  match s.deadline with
  | none => .next { s with time := till, status := 0 }
  | some (ask, stop) =>
    if s.asked then rest s stop
    else if till < ask then .next { s with time := till, status := 0 }
    else
      let s := { s with time := if s.time < ask then ask else s.time, asked := true }
      match s.traps.lookup termination with
      | some [] => rest s stop
      | some (_ :: _) =>
        if s.time < stop then
          signalled react { s with status := 128 + termination } termination
        else rest s stop
      | none => signalled react s termination

/-- How long something takes that never ends. -/
def endless : Nat := 1000 * 60 * 60 * 24 * 365

/-- What comes of never ending by itself. -/
def goOn (react : List Char → State → Flow) (s : State) : Flow :=
  match wait react s endless with
  | .next s =>
    match s.deadline with
    | none => .forever s
    | some (_, stop) => .ended { s with time := stop, traps := [] } (.killed 9 false)
  | other => other

/-- Sets what is done at signals and at the end. -/
def setTrap (s : State) (action : List Char) (signals : List (List Char)) : State :=
  let numbers := signals.filterMap fun name =>
    if name = "EXIT".toList then some 0 else signal? name
  let traps := s.traps.filter fun t => !numbers.contains t.1
  let removed := action = ['-'] ∨ (action.isEmpty ∧ numbers = [0])
  { s with traps := if removed then traps else numbers.map (·, action) ++ traps }

/-- Runs a simple command. -/
def runSimple (react : List Char → State → Flow) (s : State) (words : List (List Char))
    (redirects : List (Bool × Sink)) : Flow :=
  let (first, second) := sinks s.streams redirects
  let done (s : State) (status : Nat) : Flow := .next { s with status := status }
  let write (cs : List Char) : State := s.put first (Text.Utf8.encode cs)
  let complain (cs : List Char) : State :=
    s.put second (Text.Utf8.encode (s.name ++ ": 1: ".toList ++ cs ++ ['\n']))
  let test (words : List (List Char)) : Flow :=
    match holds? words with
    | some b => done s (if b then 0 else 1)
    | none => done s 2
  let send (name : List Char) : Flow :=
    match signal? name with
    | some 0 => done s 0
    | some n => signalled react { s with status := 0 } n
    | none => done s 1
  match words with
  | [] => done s 0
  | command :: args =>
    match String.ofList command with
    | ":" | "true" | "/bin/true" => done s 0
    | "false" | "/bin/false" | "read" => done s 1
    | "exit" =>
      match args with
      | [] => .ended s (.exited s.status)
      | a :: _ =>
        match Text.unsigned 0x80000000 a with
        | .ok n => .ended s (.exited (n % 256))
        | .error _ => .ended (complain ("exit: Illegal number: ".toList ++ a)) (.exited 2)
    | "break" => .jump { s with status := 0 } false
    | "continue" => .jump { s with status := 0 } true
    | "echo" =>
      let (breaks, args) := match args with
        | ['-', 'n'] :: rest => (false, rest)
        | args => (true, args)
      done (s.put first
        (unescaped true ([' '].intercalate args) ++ (if breaks then [10] else []))) 0
    | "/bin/echo" =>
      let (breaks, args) := match args with
        | ['-', 'n'] :: rest => (false, rest)
        | args => (true, args)
      done (write ([' '].intercalate args ++ (if breaks then ['\n'] else []))) 0
    | "printf" =>
      match args with
      | [] => done (complain "printf: usage: printf format [arg ...]".toList) 2
      | f :: args => done (s.put first (printed f args)) 0
    | "test" => test args
    | "[" => if args.getLast? = some [']'] then test args.dropLast else done s 2
    | "pwd" | "/bin/pwd" => done (write (s.directory ++ ['\n'])) 0
    | "kill" =>
      match args with
      | [option, ['$']] => send (option.drop 1)
      | [['$']] => send "TERM".toList
      | [['-', 's'], name, ['$']] => send name
      | _ => done s 1
    | "trap" =>
      match args with
      | [] => done s 0
      | action :: signals => done (setTrap s action signals) 0
    | "export" | "readonly" =>
      done (args.foldl (fun s a =>
        let name := a.takeWhile (· != '=')
        if name.length < a.length then s.assign name (a.drop (name.length + 1)) else s) s) 0
    | "unset" =>
      done { s with values := s.values.filter fun v => !args.contains v.1 } 0
    | "shift" => done { s with parameters := s.parameters.drop 1 } 0
    | "/bin/sleep" =>
      match args with
      | [time] =>
        match milliseconds? time with
        | some t => wait react s t
        | none => done s 1
      | _ => done s 1
    | "/bin/cat" => done s 0
    | _ => done (complain (command ++ ": not found".toList)) notFoundStatus

/-! ## Running -/

/-- Carries out the assignments in front of a command, and gives the words behind them. -/
def assignments (s : State) : List (List Piece) → State × List (List Piece)
  | [] => (s, [])
  | w :: ws =>
    match assignment? w with
    | some (name, value) => assignments (s.assign name (s.text value)) ws
    | none => (s, w :: ws)

/-- What the shell goes on with after commands that ran apart from it: what they wrote and how
long they waited, and nothing else of their state. -/
def rejoin (s : State) (inner : State) (status : Nat) : State :=
  { s with stdout := inner.stdout, stderr := inner.stderr, time := inner.time,
           asked := inner.asked, status }

/-- Runs what is to be run before a shell ends with a status. -/
def farewell (react : List Char → State → Flow) (s : State) (status : Status) : State × Status :=
  match s.traps.lookup 0 with
  | none | some [] => (s, status)
  | some script =>
    match react script { s with traps := s.traps.filter (·.1 != 0) } with
    | .ended s other => (s, other)
    | .next s | .forever s | .jump s _ => (s, status)

mutual

/-- Runs commands one after the other; the number bounds how many. -/
def runAll (react : List Char → State → Flow) : Nat → State → List (Link × Node) → Flow
  | 0, s, _ => goOn react s
  | _, s, [] => .next s
  | n + 1, s, (link, node) :: rest =>
    let skipped := match link with
      | .always => false
      | .onSuccess => s.status != 0
      | .onFailure => s.status == 0
    if skipped then runAll react n s rest
    else match runNode react n s node with
      | .next s => runAll react n s rest
      | other => other

/-- Runs a command. -/
def runNode (react : List Char → State → Flow) : Nat → State → Node → Flow
  | 0, s, _ => goOn react s
  | n + 1, s, node =>
    match node with
    | .simple words redirects =>
      let (s, words) := assignments s words
      match s.expand words with
      | [['e', 'x', 'e', 'c']] => .next { s with streams := sinks s.streams redirects, status := 0 }
      | ['e', 'x', 'e', 'c'] :: command :: args =>
        match runSimple react { s with traps := s.inheritedTraps } (command :: args) redirects with
        | .next s => .ended s (.exited s.status)
        | other => other
      | ['w', 'a', 'i', 't'] :: _ =>
        match runApart react n { s with background := [] } s.background.reverse with
        | .next s => .next { s with status := 0 }
        | other => other
      | words => runSimple react s words redirects
    | .loop untilTrue condition body =>
      match runAll react n s condition with
      | .next s =>
        if (s.status == 0) != untilTrue then
          match runAll react n s body with
          | .next s | .jump s true => runNode react n s (.loop untilTrue condition body)
          | .jump s false => .next s
          | other => other
        else .next { s with status := 0 }
      | other => other
    | .each name words body => runEach react n { s with status := 0 } name (s.expand words) body
    | .branch condition yes no =>
      match runAll react n s condition with
      | .next s =>
        if s.status == 0 then runAll react n s yes
        else runAll react n { s with status := 0 } no
      | other => other
    | .group false body => runAll react n s body
    | .group true body => runApart react n s [.group false body]
    | .negation command =>
      match runNode react n s command with
      | .next s => .next { s with status := if s.status == 0 then 1 else 0 }
      | other => other
    | .redirected command redirects =>
      match runNode react n { s with streams := sinks s.streams redirects } command with
      | .next inner => .next { inner with streams := s.streams }
      | other => other
    | .background command => .next { s with background := command :: s.background, status := 0 }

/-- Runs a body for each of some words. -/
def runEach (react : List Char → State → Flow) :
    Nat → State → List Char → List (List Char) → List (Link × Node) → Flow
  | 0, s, _, _, _ => goOn react s
  | _, s, _, [], _ => .next s
  | n + 1, s, name, w :: ws, body =>
    match runAll react n (s.assign name w) body with
    | .next s | .jump s true => runEach react n s name ws body
    | .jump s false => .next s
    | other => other

/-- Runs commands apart from the shell, one after the other. When they are ended because all were
asked to end, so is the shell. -/
def runApart (react : List Char → State → Flow) : Nat → State → List Node → Flow
  | 0, s, _ => goOn react s
  | _, s, [] => .next s
  | n + 1, s, node :: rest =>
    let outcome := match runNode react n { s with traps := s.inheritedTraps } node with
      | .next inner | .jump inner _ => farewell react inner (.exited inner.status)
      | .ended inner status => farewell react inner status
      | .forever inner => (inner, .exited inner.status)
    match outcome with
    | (inner, .exited code) => runApart react n (rejoin s inner code) rest
    | (inner, .killed signal _) =>
      if signal = termination ∧ inner.asked ∧ !s.asked then
        signalled react (rejoin s inner (128 + signal)) signal
      else .ended (rejoin s inner (128 + signal)) (.killed signal false)

end

/-- How many commands are run before a script counts as one that never ends. -/
def patience : Nat := 200000

/-- Runs a script, inside which no trap is run. -/
def react (script : List Char) (s : State) : Flow :=
  match scriptOf? script with
  | some commands => runAll (fun _ s => .next s) patience s commands
  | none => .next s

/-- Lets the commands in the background write, which they do also after their shell has ended. -/
def leave (s : State) : State :=
  let deadline := if s.asked then s.deadline else none
  let alone := { s with background := [], time := 0, asked := false, deadline }
  match runApart react patience alone s.background.reverse with
  | .next inner | .ended inner _ | .forever inner | .jump inner _ =>
    { s with stdout := inner.stdout, stderr := inner.stderr }

/-- How a shell with a script behaves when it has a limited time. -/
def execution (name : String) (parameters : List String) (values : List (String × String))
    (directory script : String) (limits : Limits) : Execution :=
  let start : State := {
    name := name.toList
    parameters := parameters.map String.toList
    values := values.map fun (name, value) => (name.toList, value.toList)
    directory := directory.toList
    streams := (.stdout, .stderr)
    stdout := []
    stderr := []
    status := 0
    traps := []
    background := []
    time := 0
    deadline := limits.timeout.map fun t => (t, t + limits.grace)
    asked := false }
  match scriptOf? script.toList with
  | none =>
    .immediate ⟨.exited 2, [],
      [Text.Utf8.ofString (name ++ ": 1: Syntax error: Unterminated quoted string\n")]⟩
  | some commands =>
    let (s, status) := match runAll react patience start commands with
      | .next s | .jump s _ => farewell react s (.exited s.status)
      | .ended s status => farewell react s status
      | .forever s => (s, .exited 0)
    let left := leave s
    let e : Ending := ⟨status, left.stdout.reverse, left.stderr.reverse⟩
    let asked : Option (Nat × Ending) := match limits.timeout, status with
      | some t, .exited _ | some t, .killed 15 _ => some (s.time - t, e)
      | _, _ => none
    match s.time with
    | 0 => .immediate e
    | time => ⟨time, e, asked, e⟩

end Jarwright.Rehearsal.Shell
