import Mathlib.Logic.Function.Basic
import Vesta.Lib.Machine

/-!
# The daemon's pid record

A start claims the pid record by creating the file, spawns the daemon and writes the
daemon's pid over its own.  A stop reads the record, signals the process and unlinks the
record.  Each read or write of the file and each look at a process is a step of its own,
and the steps of any number of commands interleave.

A record is a pid and, where `/proc` can be read, the start time of its process.  The
start that created a file is kept with it; a file left by a previous container has none.
-/

namespace Vesta
namespace Reminders
namespace Daemon

open Lib

/-- The text of a pid record: the pid, and the start time where it is known. -/
structure Record where
  pid : Nat
  started : Option Nat
deriving DecidableEq

/-- The pid file: the command that created it and its text, which a created or truncated
file does not have yet. -/
structure File where
  owner : Option Nat
  content : Option Record
deriving DecidableEq

inductive Role
  | command (c : Nat)
  /-- The daemon that command `c` spawned. -/
  | daemon (c : Nat)
  | other
deriving DecidableEq

/-- A process; a zombie is one that its parent has not reaped. -/
structure Process where
  started : Nat
  role : Role
  zombie : Bool
deriving DecidableEq

/-- How far a look at the record has come. -/
inductive Stage
  | read
  | signal (record : Record)
  | stat (pid : Nat) (started : Nat)
deriving DecidableEq

/-- What asked for the look: the first check of a start, a start that lost the claim, the
first check of a stop, or a stop that awaits the end of the process it signalled; there
`last` is the look after the deadline. -/
inductive Asker
  | start
  | rival
  | stop
  | termed (pid : Nat) (last : Bool)
  | killed (pid : Nat) (last : Bool)
deriving DecidableEq

/-- Where a command is. -/
inductive Pc
  | live (stage : Stage) (asker : Asker)
  | claim (retry : Bool)
  | claimWrite
  | rival
  | rivalExists
  | unlinkStale
  | register
  | unlinkUnregistered
  | spawn
  | recordStat (child : Nat)
  | recordOpen (child : Nat) (record : Record)
  | recordWrite (child : Nat) (record : Record) (handle : Option Nat)
  | awaitReady (child : Nat)
  | abandon (child : Nat)
  | abandonWait (child : Nat)
  | unlinkAbandoned
  | term (pid : Nat)
  | awaitTerm (pid : Nat)
  | kill (pid : Nat)
  | awaitKill (pid : Nat)
  | unlinkStopped
deriving DecidableEq

inductive Verb
  | start
  | stop
  | restart
deriving DecidableEq

/-- A command in progress; `restarts` when a start follows the stop it is in. -/
structure Command where
  pid : Nat
  restarts : Bool
  pc : Pc
deriving DecidableEq

structure State where
  /-- The clock that start times are read from, in ticks. -/
  clock : Nat
  file : Option File
  procs : Nat → Option Process
  commands : Nat → Option Command
  /-- How many commands have begun. -/
  begun : Nat

/-- What the environment answers to one step of a command. -/
structure Answer where
  /-- The deadline of the wait has passed. -/
  expired : Bool := false
  /-- The call succeeds, or the port answers. -/
  answers : Bool := false
  /-- The pid of a spawned child. -/
  child : Nat := 0

inductive Act
  | tick
  | begin (verb : Verb) (pid : Nat)
  | go (c : Nat) (answer : Answer)
  /-- A daemon, or a process that is none of these, exits. -/
  | exits (pid : Nat)
  /-- A process that is none of these starts. -/
  | other (pid : Nat)

/-! ## Processes -/

namespace State

/-- The command takes its next step from `pc`. -/
def goto (s : State) (c : Nat) (cmd : Command) (pc : Pc) : State :=
  { s with commands := Function.update s.commands c (some { cmd with pc }) }

/-- A command's process is gone, and its zombie children are reaped. -/
def finish (s : State) (c : Nat) : State :=
  { s with
    commands := Function.update s.commands c none
    procs := fun p => (s.procs p).filter fun q =>
      !(q.role = .command c || (q.role = .daemon c && q.zombie)) }

def setProcess (s : State) (pid : Nat) (process : Option Process) : State :=
  { s with procs := Function.update s.procs pid process }

/-- A command begins as process `pid`. -/
def beginCommand (s : State) (pid : Nat) (restarts : Bool) (pc : Pc) : State where
  clock := s.clock
  file := s.file
  procs := Function.update s.procs pid
    (some { started := s.clock, role := .command s.begun, zombie := false })
  commands := Function.update s.commands s.begun (some { pid, restarts, pc })
  begun := s.begun + 1

/-- A process ends.  A daemon whose start is in progress stays a zombie until that start
reaps it. -/
def die (s : State) (pid : Nat) : State :=
  match s.procs pid with
  | none => s
  | some process =>
      match process.role with
      | .command c => s.finish c
      | .daemon c =>
          if (s.commands c).isSome then
            s.setProcess pid (some { process with zombie := true })
          else
            s.setProcess pid none
      | .other => s.setProcess pid none

/-- A SIGTERM.  A command has no handler for it; any other process may exit after it. -/
def terminate (s : State) (pid : Nat) : State :=
  match s.procs pid with
  | some { role := .command c, .. } => s.finish c
  | _ => s

/-- The command goes on after a signal, unless it signalled itself. -/
def resume (s : State) (c : Nat) (cmd : Command) (pc : Pc) : State :=
  if (s.commands c).isSome then s.goto c cmd pc else s

/-- Write through a handle on the file that `handle` created. -/
def writeHandle (s : State) (handle : Option Nat) (record : Record) : State :=
  match s.file with
  | some file =>
      if file.owner = handle then
        { s with file := some { file with content := some record } }
      else
        s
  | none => s

end State

/-! ## Looking at the record -/

section Look

variable (procReadable : Bool)

/-- `_record`: the record of a process; without a readable `/proc` it is a bare pid. -/
def recordOf (pid : Nat) (process : Option Process) : Record where
  pid := pid
  started := if procReadable then process.map Process.started else none

/-- Whether a process that holds the pid is taken for the recorded one. -/
def isRecorded (record : Record) (process : Process) : Bool :=
  match record.started with
  | none => true
  | some started => !procReadable || process.started = started

/-- `live_pid`, all at once. -/
def livePid (s : State) : Option Nat := do
  let file ← s.file
  let record ← file.content
  let process ← s.procs record.pid
  if isRecorded procReadable record process then
    some record.pid
  else
    none

/-- One step of `live_pid`: the stage it comes to, or its answer. -/
def look (s : State) : Stage → Stage ⊕ Option Nat
  | .read =>
      match s.file.bind File.content with
      | none => .inr none
      | some record => .inl (.signal record)
  | .signal record =>
      match s.procs record.pid with
      | none => .inr none
      | some _ =>
          match record.started with
          | none => .inr (some record.pid)
          | some started => .inl (.stat record.pid started)
  | .stat pid started =>
      match s.procs pid with
      | none => .inr (some pid)
      | some process =>
          if procReadable && process.started ≠ started then .inr none else .inr (some pid)

end Look

/-- Where a command goes with the answer of a look: on, to its end, or to the end of its
stop. -/
inductive Next
  | on (pc : Pc)
  | ends
  | stopped

/-- What each asker does with the answer. -/
def Asker.next : Asker → Option Nat → Next
  | .start, none => .on (.claim false)
  | .start, some _ => .ends
  | .rival, none => .on .rivalExists
  | .rival, some _ => .ends
  | .stop, none => .stopped
  | .stop, some pid => .on (.term pid)
  | .termed _ _, none => .on .unlinkStopped
  | .termed pid last, some _ => .on (if last then .kill pid else .awaitTerm pid)
  | .killed _ _, none => .on .unlinkStopped
  | .killed pid last, some _ => if last then .ends else .on (.awaitKill pid)

namespace State

/-- The end of a stop: a restart goes on to its start. -/
def stopped (s : State) (c : Nat) (cmd : Command) : State :=
  if cmd.restarts then
    s.goto c { cmd with restarts := false } (.live .read .start)
  else
    s.finish c

def follow (s : State) (c : Nat) (cmd : Command) : Next → State
  | .on pc => s.goto c cmd pc
  | .ends => s.finish c
  | .stopped => s.stopped c cmd

end State

/-! ## The commands -/

section Step

variable (procReadable : Bool)

/-- The next step of command `c`. -/
def run (s : State) (c : Nat) (cmd : Command) (answer : Answer) : Option State :=
  match cmd.pc with
  | .live stage asker =>
      match look procReadable s stage with
      | .inl stage => some (s.goto c cmd (.live stage asker))
      | .inr result => some (s.follow c cmd (asker.next result))
  | .claim retry =>
      match s.file with
      | none =>
          some ({ s with file := some { owner := some c, content := none } }.goto c cmd .claimWrite)
      | some _ => some (if retry then s.finish c else s.goto c cmd .rival)
  | .claimWrite =>
      let record := recordOf procReadable cmd.pid (s.procs cmd.pid)
      some ((s.writeHandle (some c) record).goto c cmd .register)
  | .rival =>
      some (s.goto c cmd (if answer.expired then .unlinkStale else .live .read .rival))
  | .rivalExists =>
      some (s.goto c cmd (if s.file.isSome then .rival else .unlinkStale))
  | .unlinkStale => some ({ s with file := none }.goto c cmd (.claim true))
  | .register =>
      some (s.goto c cmd (if answer.answers then .spawn else .unlinkUnregistered))
  | .unlinkUnregistered => some ({ s with file := none }.finish c)
  | .spawn =>
      if !answer.answers then
        some (s.finish c)
      else
        match s.procs answer.child with
        | some _ => none
        | none =>
            let child := { started := s.clock, role := .daemon c, zombie := false }
            some ((s.setProcess answer.child (some child)).goto c cmd (.recordStat answer.child))
  | .recordStat child =>
      let record := recordOf procReadable child (s.procs child)
      some (s.goto c cmd (.recordOpen child record))
  | .recordOpen child record =>
      match s.file with
      | none =>
          some ({ s with file := some { owner := some c, content := none } }.goto c cmd
            (.recordWrite child record (some c)))
      | some file =>
          some ({ s with file := some { file with content := none } }.goto c cmd
            (.recordWrite child record file.owner))
  | .recordWrite child record handle =>
      some ((s.writeHandle handle record).goto c cmd (.awaitReady child))
  | .awaitReady child =>
      if answer.expired then
        some (s.goto c cmd (.abandon child))
      else if (s.procs child).all Process.zombie then
        some ((s.setProcess child none).goto c cmd .unlinkAbandoned)
      else if answer.answers then
        some (s.finish c)
      else
        some s
  | .abandon child =>
      some (s.goto c cmd (.abandonWait child))
  | .abandonWait child =>
      if answer.expired || (s.procs child).all Process.zombie then
        some ((s.setProcess child none).goto c cmd .unlinkAbandoned)
      else
        some s
  | .unlinkAbandoned => some ({ s with file := none }.finish c)
  | .term pid => some ((s.terminate pid).resume c cmd (.awaitTerm pid))
  | .awaitTerm pid => some (s.goto c cmd (.live .read (.termed pid answer.expired)))
  | .kill pid => some ((s.die pid).resume c cmd (.awaitKill pid))
  | .awaitKill pid => some (s.goto c cmd (.live .read (.killed pid answer.expired)))
  | .unlinkStopped => some ({ s with file := none }.stopped c cmd)

/-- Where a command begins. -/
def Verb.pc : Verb → Pc
  | .start => .live .read .start
  | .stop => .live .read .stop
  | .restart => .live .read .stop

def step (s : State) : Act → Option State
  | .tick => some { s with clock := s.clock + 1 }
  | .begin verb pid =>
      match s.procs pid with
      | some _ => none
      | none =>
          some (s.beginCommand pid (verb = .restart) verb.pc)
  | .go c answer =>
      match s.commands c with
      | none => none
      | some cmd => run procReadable s c cmd answer
  | .exits pid =>
      match s.procs pid with
      | some { role := .command _, .. } => none
      | some _ => some (s.die pid)
      | none => none
  | .other pid =>
      match s.procs pid with
      | some _ => none
      | none =>
          some (s.setProcess pid (some { started := s.clock, role := .other, zombie := false }))

/-- A fresh container, with whatever record the previous one left. -/
def machine : Machine State Act where
  start s := s.procs = (fun _ => none) ∧ s.commands = (fun _ => none) ∧ s.begun = 0 ∧
    s.file.bind File.owner = none
  step := step procReadable

end Step

end Daemon
end Reminders
end Vesta
