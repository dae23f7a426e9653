import Vesta.Lib.Machine
import Vesta.Lib.Map
import Vesta.Agent.Turn

/-!
# Notification intake

Producers drop notification files into a directory.  The monitor loop reads all of them at
each tick, decides what becomes of those whose path it has not queued yet, and remembers
their paths for as long as their files exist.  Interrupts go to the queue at once, snoozed
ones in a batch when the agent is idle, and the trash is moved away.  The processor runs
the queued turns one by one, delivers what arrives meanwhile into the running turn, and
clears the files of what was delivered.

A scan prunes the remembered paths, reads the directory, unlinks what does not parse, waits
for the rules and decides; writes, deliveries and clears may fall in between.

Each complete content that is written is a version of its own, and the world keeps what
became of it.  A path is held while it is remembered, read by the scan that has not decided
yet, or carried by a turn; a version written under a held path supersedes what is there.
-/

namespace Vesta
namespace Agent
namespace Intake

open Lib

/-- A file: the version of its content, and the notification if the content parses. -/
structure File where
  version : Nat
  content : Option Notification
deriving DecidableEq

/-- A notification as it was read. -/
structure Loaded where
  path : Text
  version : Nat
  notif : Notification
deriving DecidableEq

/-- A rule of the user; whether it matches is up to its predicates. -/
structure Rule where
  isMatch : Notification → Bool
  action : Disposition

/-- First match wins, else the producer's own default; core types are not subject to rules. -/
def notifDisposition (notif : Notification) (rules : List Rule) : Disposition :=
  if notif.source = coreSource then
    if coreSnoozeTypes.contains notif.type then .snooze else .interrupt
  else
    match rules.find? fun rule => rule.isMatch notif with
    | some rule => rule.action
    | none => if notif.interrupt then .interrupt else .snooze

/-- A queued turn and the notifications it was rendered from. -/
structure Item where
  turn : QueuedTurn
  entries : List Loaded
  filePaths_eq : turn.filePaths = entries.map Loaded.path

def batchTriageHint (count : Nat) : Text :=
  "[".toList ++ Json.printNat count ++
    (" snoozed notifications delivered as one batch; " ++
      "the notifications skill covers working through them.]").toList

def queueSection (group : List Loaded) (disposition : Option DeliveredDisposition) : Item where
  turn :=
    let text := formatNotificationBatch (group.map Loaded.notif) disposition
    let text :=
      if disposition = some .snooze ∧ 1 < group.length then
        batchTriageHint group.length ++ '\n' :: text
      else text
    ⟨text, false, group.map Loaded.path, true⟩
  entries := group
  filePaths_eq := rfl

/-- Render a batch as turns, the core's notifications first. -/
def processBatch (notifications : List Loaded) (disposition : DeliveredDisposition) : List Item :=
  let system := notifications.filter fun e => e.notif.source = coreSource
  let external := notifications.filter fun e => e.notif.source ≠ coreSource
  (if system = [] then [] else [queueSection system none]) ++
    (if external = [] then [] else [queueSection external (some disposition)])

/-- The item once its files were cleared before the end of its turn. -/
def Item.released (item : Item) : Item := ⟨{ item.turn with filePaths := [] }, [], rfl⟩

/-- The turn that runs, and whether its prompt has reached the CLI. -/
structure Running where
  item : Item
  sent : Bool

/-- How far the scan of the monitor is. -/
inductive Phase
  | idle
  | pruned
  | listed (contents : List (Text × File))
  | parsed (loaded : List Loaded)

/-- The path of a notification and the file it was read from. -/
def Loaded.entry (e : Loaded) : Text × File := (e.path, ⟨e.version, some e.notif⟩)

/-- What the scan has read and not decided yet. -/
def Phase.entries : Phase → List (Text × File)
  | .idle => []
  | .pruned => []
  | .listed contents => contents
  | .parsed loaded => loaded.map Loaded.entry

structure World where
  files : Map Text File := ∅
  nextVersion : Nat := 0
  notify : Bool := false
  queuedPaths : List Text := []
  phase : Phase := .idle
  pendingSnoozed : List Loaded := []
  queue : List Item := []
  /-- Items that arrived during a turn and could not be delivered into it. -/
  pending : List Item := []
  running : Option Running := none
  /-- What was ever written; the versions that others replaced on disk, and those written
  under a held path. -/
  written : List (Text × File) := []
  overwritten : List Nat := []
  superseded : List Nat := []
  /-- The versions that were read, announced, queued, put to trash, moved there, delivered and
  deleted, and the files that were unlinked for not parsing. -/
  read : List Nat := []
  emitted : List Nat := []
  queued : List Nat := []
  trashed : List Nat := []
  moved : List Nat := []
  delivered : List Nat := []
  deleted : List Nat := []
  unlinked : List File := []

/-- The notifications that are snoozed, queued or in the turn that runs. -/
def World.live (w : World) : List Loaded :=
  w.pendingSnoozed ++ (w.pending ++ w.queue).flatMap Item.entries ++
    w.running.elim [] fun running => running.item.entries

/-- The paths whose files have been read and not been seen gone. -/
def World.held (w : World) : List Text :=
  w.queuedPaths ++ w.phase.entries.map Prod.fst ++ w.live.map Loaded.path

inductive Label
  | write (path : Text) (content : Option Notification)
  | wake
  | tick
  | load
  | parse
  | dispatch (rules : List Rule)
  | flush
  | user (text : Text)
  | take
  | defer
  | send
  | preempt (sent : Bool)
  | release
  | finish (script : Script) (status : Option ProviderAuthState)

/-- A producer writes a file, or writes one again. -/
def World.write (w : World) (path : Text) (content : Option Notification) : World :=
  let file := ⟨w.nextVersion, content⟩
  { w with
    files := w.files.insert path file
    nextVersion := w.nextVersion + 1
    written := w.written ++ [(path, file)]
    overwritten := w.overwritten ++ (w.files[path]?.map File.version).toList
    superseded := if path ∈ w.held then w.superseded ++ [w.nextVersion] else w.superseded }

/-! ## The monitor -/

/-- Wake up and forget the paths whose files are gone. -/
def World.tick (w : World) : World :=
  { w with
    notify := false
    queuedPaths := w.queuedPaths.filter fun path => w.files[path]?.isSome
    phase := .pruned }

/-- What parses of the contents that were read. -/
def parsed (contents : List (Text × File)) : List Loaded :=
  contents.filterMap fun entry =>
    entry.2.content.map fun notif => ⟨entry.1, entry.2.version, notif⟩

/-- Keep what parses, and unlink the paths of the rest. -/
def World.parse (w : World) (contents : List (Text × File)) : World :=
  let malformed := (contents.filter fun entry => entry.2.content.isNone).map Prod.fst
  { w with
    files := malformed.foldl (fun files path => files.erase path) w.files
    unlinked := w.unlinked ++ malformed.filterMap fun path => w.files[path]?
    phase := .parsed (parsed contents) }

/-- What a scan has to decide. -/
def World.fresh (w : World) (loaded : List Loaded) : List Loaded :=
  loaded.filter fun e => !w.queuedPaths.contains e.path

def decided (rules : List Rule) (disposition : Disposition) (fresh : List Loaded) : List Loaded :=
  fresh.filter fun e => notifDisposition e.notif rules = disposition

def versions (items : List Item) : List Nat :=
  (items.flatMap Item.entries).map Loaded.version

/-- Decide the fresh notifications of a scan: announce them, and trash, queue or snooze each. -/
def World.dispatch (w : World) (loaded : List Loaded) (rules : List Rule) : World :=
  let fresh := w.fresh loaded
  let trash := decided rules .trash fresh
  let kept := fresh.filter fun e => notifDisposition e.notif rules ≠ .trash
  let items := processBatch (decided rules .interrupt fresh) .interrupt
  { w with
    phase := .idle
    read := w.read ++ loaded.map Loaded.version
    emitted := w.emitted ++ fresh.map Loaded.version
    files := (trash.map Loaded.path).foldl (fun files path => files.erase path) w.files
    trashed := w.trashed ++ trash.map Loaded.version
    moved := w.moved ++
      (trash.map Loaded.path).filterMap fun path => w.files[path]?.map File.version
    queuedPaths := w.queuedPaths ++ kept.map Loaded.path
    queue := w.queue ++ items
    queued := w.queued ++ versions items
    pendingSnoozed := w.pendingSnoozed ++ decided rules .snooze fresh }

/-- The agent has been idle for long enough: queue the snoozed notifications as a batch. -/
def World.flush (w : World) : World :=
  let items := processBatch w.pendingSnoozed .snooze
  { w with
    queue := w.queue ++ items
    queued := w.queued ++ versions items
    pendingSnoozed := [] }

/-! ## The processor -/

/-- The next item: one that arrived during the last turn, else one of the queue. -/
def World.next (w : World) : Option (Item × World) :=
  match w.pending, w.queue with
  | item :: pending, _ => some (item, { w with pending := pending })
  | [], item :: queue => some (item, { w with queue := queue })
  | [], [] => none

/-- The versions of an item reach the agent. -/
def World.deliver (w : World) (item : Item) : World :=
  { w with delivered := w.delivered ++ item.entries.map Loaded.version }

/-- Unlink the files of an item, whatever they hold. -/
def World.clear (w : World) (item : Item) : World :=
  { w with
    files := item.turn.filePaths.foldl (fun files path => files.erase path) w.files
    deleted := w.deleted ++
      item.turn.filePaths.filterMap fun path => w.files[path]?.map File.version }

section Machine

variable (blockDashes : Bool)

def step (w : World) : Label → Option World
  | .write path content => some (w.write path content)
  | .wake => some { w with notify := true }
  | .tick => match w.phase with
      | .idle => some w.tick
      | _ => none
  | .load => match w.phase with
      | .pruned => some { w with phase := .listed w.files.toList }
      | _ => none
  | .parse => match w.phase with
      | .listed contents => some (w.parse contents)
      | _ => none
  | .dispatch rules => match w.phase with
      | .parsed loaded => some (w.dispatch loaded rules)
      | _ => none
  | .flush => match w.phase with
      | .idle => some w.flush
      | _ => none
  | .user text => some { w with queue := w.queue ++ [⟨⟨text, true, [], true⟩, [], rfl⟩] }
  | .take => match w.running with
      | some _ => none
      | none => w.next.map fun next => { next.2 with running := some ⟨next.1, false⟩ }
  -- Without credentials the item is dropped; its files stay for the next start.
  | .defer => match w.running with
      | some _ => none
      | none => w.next.map Prod.snd
  | .send => match w.running with
      | some ⟨item, false⟩ => some { w.deliver item with running := some ⟨item, true⟩ }
      | _ => none
  | .preempt sent => match w.running, w.queue with
      | some _, item :: queue =>
          some <|
            if sent then ({ w with queue := queue }.deliver item).clear item
            else { w with queue := queue, pending := w.pending ++ [item] }
      | _, _ => none
  -- The turn asks for a restart of the container: its notifications are handled.
  | .release => match w.running with
      | some ⟨item, true⟩ => some ({ w with running := some ⟨item.released, true⟩ }.clear item)
      | _ => none
  | .finish script status => match w.running with
      | some ⟨item, sent⟩ =>
          if sent = script.message.outcome.sent then
            let w := { w with running := none }
            some (if clearsFiles blockDashes script status then w.clear item else w)
          else none
      | none => none

attribute [grind =] step

/-- The process starts with whatever files are there. -/
def machine : Machine World Label where
  start w :=
    (∀ entry ∈ w.files.toList, entry.2.version < w.nextVersion) ∧
    (∀ entry ∈ w.files.toList, ∀ other ∈ w.files.toList,
      entry.2.version = other.2.version → entry = other) ∧
    w = { files := w.files, nextVersion := w.nextVersion, written := w.files.toList }
  step := step blockDashes

end Machine

/-- Every version that a scan has read and decided is announced once and queued, snoozed or
put to trash once; what is deleted was delivered, put to trash or does not parse.  Only the
versions that were written under a held path are left out. -/
structure ExactlyOnce (w : World) : Prop where
  emitted : w.emitted.Nodup
  routed : (w.queued ++ w.pendingSnoozed.map Loaded.version ++ w.trashed).Perm w.emitted
  read : ∀ version ∈ w.read, version ∈ w.emitted ∨ version ∈ w.superseded
  accounted : ∀ entry ∈ w.written,
    entry.2.version ∈ w.emitted ∨ w.files[entry.1]? = some entry.2 ∨
      entry.2.version ∈ w.overwritten ∨ entry.2 ∈ w.unlinked ∨ entry.2.version ∈ w.superseded
  deleted : ∀ version ∈ w.deleted, version ∈ w.delivered ∨ version ∈ w.superseded
  moved : ∀ version ∈ w.moved, version ∈ w.trashed ∨ version ∈ w.superseded
  unlinked : ∀ file ∈ w.unlinked, file.content = none ∨ file.version ∈ w.superseded

end Intake
end Agent
end Vesta
