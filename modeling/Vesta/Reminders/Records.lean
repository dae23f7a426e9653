import Vesta.Reminders.Daemon

/-!
# Whose record the pid file is

A start is *live* from its claim on for as long as it is still to spawn its daemon or its
daemon runs.  The file of a live start must be its own: then no second start can claim it,
and the daemon that runs is the one the file comes to name.  Three things break this: a
command unlinks or overwrites the record of another live start, a signal ends a start
between the spawn and the record of its child, and another process takes a pid that a
stale record names.

The invariant has three parts: the commands with their processes and children, the file
with the handles on it, and what the file says.  Each operation on the state keeps it.
-/

namespace Vesta
namespace Reminders
namespace Daemon

open Lib

/-! ## What a command has done so far -/

/-- A start that has claimed the record and is still to spawn its daemon. -/
def Pc.pending : Pc → Bool
  | .claimWrite | .register | .spawn => true
  | _ => false

/-- A start whose child the record does not name yet. -/
def Pc.recording : Pc → Bool
  | .recordStat _ | .recordOpen _ _ | .recordWrite _ _ _ => true
  | _ => false

/-- The child a start has spawned and not reaped. -/
def Pc.child : Pc → Option Nat
  | .recordStat child => some child
  | .recordOpen child _ => some child
  | .recordWrite child _ _ => some child
  | .awaitReady child => some child
  | .abandon child => some child
  | .abandonWait child => some child
  | _ => none

/-- A start that has claimed the record. -/
def Pc.claimed (pc : Pc) : Bool :=
  pc.pending || pc.child.isSome ||
    match pc with
    | .unlinkUnregistered | .unlinkAbandoned => true
    | _ => false

/-- The daemon that command `c` spawned runs as process `p`. -/
def Runs (s : State) (c p : Nat) : Prop :=
  ∃ process, s.procs p = some process ∧ process.role = .daemon c ∧ process.zombie = false

/-- The start is still to spawn its daemon, or its daemon runs. -/
def Live (s : State) (c : Nat) : Prop :=
  (∃ cmd, s.commands c = some cmd ∧ cmd.pc.pending = true) ∨ ∃ p, Runs s c p

/-- The record is not that of another live start. -/
def Unclaimed (s : State) (c : Nat) : Prop :=
  ∀ file ∈ s.file, ∀ o, file.owner = some o → o ≠ c → ¬Live s o

/-- The process is not a start whose running daemon the record does not name yet. -/
def Recorded (s : State) (pid : Nat) : Prop :=
  ∀ process ∈ s.procs pid, ∀ d, process.role = .command d →
    ∀ cmd, s.commands d = some cmd → cmd.pc.recording = true → ∀ p, ¬Runs s d p

/-- What the command must find before its next step. -/
def Pc.guard (s : State) (c : Nat) : Pc → Prop
  | .unlinkStale => Unclaimed s c
  | .unlinkUnregistered => Unclaimed s c
  | .unlinkAbandoned => Unclaimed s c
  | .unlinkStopped => Unclaimed s c
  | .recordOpen _ _ => Unclaimed s c
  | .term pid => Recorded s pid
  | .kill pid => Recorded s pid
  | _ => True

section Guard

variable (procReadable : Bool)

/-- The steps that keep the records truthful: no command unlinks or overwrites the record of
another live start, no signal ends a start whose running daemon is not recorded yet, and no
other process is taken for the one a record names. -/
def admitted (s : State) : Act → Prop
  | .go c _ => ∀ cmd, s.commands c = some cmd → cmd.pc.guard s c
  | .other pid =>
      ∀ file ∈ s.file, ∀ record, file.content = some record → record.pid = pid →
        isRecorded procReadable record { started := s.clock, role := .other, zombie := false } =
          false
  | _ => True

/-! ## The invariant -/

/-- The command has claimed the record, in this step or an earlier one. -/
def Claimed (s : State) (c : Nat) : Prop :=
  c < s.begun ∧ ∀ cmd, s.commands c = some cmd → cmd.pc.claimed = true

/-- The commands, their processes and their children. -/
structure Tracked (s : State) : Prop where
  fresh : ∀ c, s.begun ≤ c → s.commands c = none
  commandProc : ∀ c cmd, s.commands c = some cmd →
    ∃ started, s.procs cmd.pid = some { started, role := .command c, zombie := false }
  procCommand : ∀ p process c, s.procs p = some process → process.role = .command c →
    ∃ cmd, s.commands c = some cmd ∧ cmd.pid = p
  childProc : ∀ c cmd p, s.commands c = some cmd → cmd.pc.child = some p →
    ∃ process, s.procs p = some process ∧ process.role = .daemon c
  procChild : ∀ p process c cmd, s.procs p = some process → process.role = .daemon c →
    s.commands c = some cmd → cmd.pc.child = some p
  zombie : ∀ p process, s.procs p = some process → process.zombie = true →
    ∃ c, process.role = .daemon c ∧ (s.commands c).isSome = true
  spawned : ∀ p process c, s.procs p = some process → process.role = .daemon c → Claimed s c

/-- The file and the handles on it. -/
structure Filed (s : State) : Prop where
  owned : ∀ file ∈ s.file, ∀ o, file.owner = some o → Claimed s o
  handled : ∀ c cmd child record o, s.commands c = some cmd →
    cmd.pc = .recordWrite child record (some o) → Claimed s o ∧ (o = c ∨ ¬Live s o)
  writer : ∀ c cmd child record handle, s.commands c = some cmd →
    cmd.pc = .recordWrite child record handle → Live s c → handle = some c
  held : ∀ o, Live s o → ∃ file, s.file = some file ∧ file.owner = some o

/-- What the file says. -/
structure Written (s : State) : Prop where
  recorded : ∀ p process c, s.procs p = some process → process.role = .daemon c →
    process.zombie = false →
      (∃ cmd, s.commands c = some cmd ∧ cmd.pc.recording = true) ∨
        s.file.bind File.content = some (recordOf procReadable p (some process))
  opening : ∀ c cmd child record, s.commands c = some cmd →
    cmd.pc = .recordOpen child record →
      record = recordOf procReadable child (s.procs child)
  writing : ∀ c cmd child record handle, s.commands c = some cmd →
    cmd.pc = .recordWrite child record handle →
      record = recordOf procReadable child (s.procs child)
  others : ∀ p process record, s.procs p = some process → process.role = .other →
    s.file.bind File.content = some record → record.pid = p →
      isRecorded procReadable record process = false

structure Sound (s : State) : Prop where
  tracked : Tracked s
  filed : Filed s
  written : Written procReadable s

end Guard

/-! ## A command that goes on -/

section Goto

variable {procReadable : Bool} {s : State} {c : Nat} {cmd next : Command} {pc : Pc}

theorem commands_goto (d : Nat) :
    (s.goto c next pc).commands d = if d = c then some { next with pc } else s.commands d :=
  Function.update_apply _ _ _ _

/-- A command that goes on forgets no claim. -/
theorem claimed_goto
    (hcmd : s.commands c = some cmd)
    (hclaimed : cmd.pc.claimed = true → pc.claimed = true)
    {o : Nat}
    (h : Claimed s o) :
    Claimed (s.goto c next pc) o := by
  refine ⟨h.1, fun cmd' hcmd' => ?_⟩
  rw [commands_goto] at hcmd'
  split at hcmd'
  · rename_i ho
    subst ho
    cases hcmd'
    exact hclaimed (h.2 cmd hcmd)
  · exact h.2 cmd' hcmd'

/-- Going on makes no start live. -/
theorem live_of_goto
    (hcmd : s.commands c = some cmd)
    (hpending : pc.pending = true → cmd.pc.pending = true)
    {o : Nat}
    (h : Live (s.goto c next pc) o) :
    Live s o := by
  rcases h with ⟨cmd', hcmd', hpend⟩ | hruns
  · rw [commands_goto] at hcmd'
    split at hcmd'
    · rename_i ho
      subst ho
      cases hcmd'
      exact Or.inl ⟨cmd, hcmd, hpending hpend⟩
    · exact Or.inl ⟨cmd', hcmd', hpend⟩
  · exact Or.inr hruns

theorem Tracked.goto
    (h : Tracked s)
    (hcmd : s.commands c = some cmd)
    (hpid : next.pid = cmd.pid)
    (hchild : pc.child = cmd.pc.child)
    (hclaimed : cmd.pc.claimed = true → pc.claimed = true) :
    Tracked (s.goto c next pc) where
  fresh d hd := by
    rw [commands_goto]
    split
    · rename_i hdc
      rw [hdc] at hd
      rw [h.fresh c hd] at hcmd
      cases hcmd
    · exact h.fresh d hd
  commandProc d cmd' hcmd' := by
    rw [commands_goto] at hcmd'
    split at hcmd'
    · rename_i hdc
      subst hdc
      cases hcmd'
      rw [hpid]
      exact h.commandProc d cmd hcmd
    · exact h.commandProc d cmd' hcmd'
  procCommand p process d hprocess hrole := by
    obtain ⟨cmd', hcmd', hp⟩ := h.procCommand p process d hprocess hrole
    by_cases hdc : d = c
    · subst hdc
      rw [hcmd, Option.some.injEq] at hcmd'
      subst hcmd'
      exact ⟨{ next with pc }, by rw [commands_goto, if_pos rfl], hpid.trans hp⟩
    · exact ⟨cmd', by rw [commands_goto, if_neg hdc, hcmd'], hp⟩
  childProc d cmd' p hcmd' hp := by
    rw [commands_goto] at hcmd'
    split at hcmd'
    · rename_i hdc
      subst hdc
      cases hcmd'
      exact h.childProc d cmd p hcmd (hchild ▸ hp)
    · exact h.childProc d cmd' p hcmd' hp
  procChild p process d cmd' hprocess hrole hcmd' := by
    rw [commands_goto] at hcmd'
    split at hcmd'
    · rename_i hdc
      subst hdc
      cases hcmd'
      exact hchild.trans (h.procChild p process d cmd hprocess hrole hcmd)
    · exact h.procChild p process d cmd' hprocess hrole hcmd'
  zombie p process hprocess hzombie := by
    obtain ⟨d, hrole, hsome⟩ := h.zombie p process hprocess hzombie
    refine ⟨d, hrole, ?_⟩
    rw [commands_goto]
    split
    · rfl
    · exact hsome
  spawned p process d hprocess hrole :=
    claimed_goto hcmd hclaimed (h.spawned p process d hprocess hrole)

theorem Filed.goto
    (h : Filed s)
    (hcmd : s.commands c = some cmd)
    (hclaimed : cmd.pc.claimed = true → pc.claimed = true)
    (hpending : pc.pending = true → cmd.pc.pending = true)
    (hhandle : ∀ child record o, pc = .recordWrite child record (some o) →
      Claimed s o ∧ (o = c ∨ ¬Live s o))
    (hwriter : ∀ child record handle, pc = .recordWrite child record handle → Live s c →
      handle = some c) :
    Filed (s.goto c next pc) where
  owned file hfile o ho := claimed_goto hcmd hclaimed (h.owned file hfile o ho)
  handled d cmd' child record o hcmd' hpc := by
    have hall : Claimed s o ∧ (o = d ∨ ¬Live s o) := by
      rw [commands_goto] at hcmd'
      split at hcmd'
      · rename_i hdc
        subst hdc
        cases hcmd'
        exact hhandle child record o hpc
      · exact h.handled d cmd' child record o hcmd' hpc
    refine ⟨claimed_goto hcmd hclaimed hall.1, hall.2.imp_right fun hnot hlive => ?_⟩
    exact hnot (live_of_goto hcmd hpending hlive)
  writer d cmd' child record handle hcmd' hpc hlive := by
    have hbefore := live_of_goto hcmd hpending hlive
    rw [commands_goto] at hcmd'
    split at hcmd'
    · rename_i hdc
      subst hdc
      cases hcmd'
      exact hwriter child record handle hpc hbefore
    · exact h.writer d cmd' child record handle hcmd' hpc hbefore
  held o ho := h.held o (live_of_goto hcmd hpending ho)

theorem Written.goto
    (h : Written procReadable s)
    (hcmd : s.commands c = some cmd)
    (hrecording : cmd.pc.recording = true → pc.recording = true ∨
      ∀ p process, s.procs p = some process → process.role = .daemon c →
        process.zombie = false →
          s.file.bind File.content = some (recordOf procReadable p (some process)))
    (hopening : ∀ child record, pc = .recordOpen child record →
      record = recordOf procReadable child (s.procs child))
    (hwriting : ∀ child record handle, pc = .recordWrite child record handle →
      record = recordOf procReadable child (s.procs child)) :
    Written procReadable (s.goto c next pc) where
  recorded p process d hprocess hrole hzombie := by
    rcases h.recorded p process d hprocess hrole hzombie with ⟨cmd', hcmd', hrec⟩ | hcontent
    · by_cases hdc : d = c
      · subst hdc
        rw [hcmd, Option.some.injEq] at hcmd'
        subst hcmd'
        rcases hrecording hrec with hpc | hcontent
        · exact Or.inl ⟨{ next with pc }, by rw [commands_goto, if_pos rfl], hpc⟩
        · exact Or.inr (hcontent p process hprocess hrole hzombie)
      · exact Or.inl ⟨cmd', by rw [commands_goto, if_neg hdc, hcmd'], hrec⟩
    · exact Or.inr hcontent
  opening d cmd' child record hcmd' hpc := by
    rw [commands_goto] at hcmd'
    split at hcmd'
    · cases hcmd'
      exact hopening child record hpc
    · exact h.opening d cmd' child record hcmd' hpc
  writing d cmd' child record handle hcmd' hpc := by
    rw [commands_goto] at hcmd'
    split at hcmd'
    · cases hcmd'
      exact hwriting child record handle hpc
    · exact h.writing d cmd' child record handle hcmd' hpc
  others := h.others

/-- A command that goes on to a point that differs in nothing the invariant reads. -/
theorem Sound.goto
    (h : Sound procReadable s)
    (hcmd : s.commands c = some cmd)
    (hpid : next.pid = cmd.pid)
    (hchild : pc.child = cmd.pc.child)
    (hclaimed : cmd.pc.claimed = true → pc.claimed = true)
    (hpending : pc.pending = true → cmd.pc.pending = true)
    (hrecording : cmd.pc.recording = false)
    (hpc : pc.recording = false) :
    Sound procReadable (s.goto c next pc) where
  tracked := h.tracked.goto hcmd hpid hchild hclaimed
  filed := by
    refine h.filed.goto hcmd hclaimed hpending ?_ ?_
    · rintro child record o rfl
      cases hpc
    · rintro child record handle rfl
      cases hpc
  written := by
    refine h.written.goto hcmd ?_ ?_ ?_
    · intro hrec
      rw [hrecording] at hrec
      cases hrec
    · rintro child record rfl
      cases hpc
    · rintro child record handle rfl
      cases hpc

end Goto

/-! ## The file changes -/

section Files

variable {procReadable : Bool} {s : State} {c : Nat} {cmd : Command}

theorem Tracked.file (h : Tracked s) (file : Option File) : Tracked { s with file } where
  fresh := h.fresh
  commandProc := h.commandProc
  procCommand := h.procCommand
  childProc := h.childProc
  procChild := h.procChild
  zombie := h.zombie
  spawned := h.spawned

/-- The start whose daemon runs is the one that created the file. -/
theorem Sound.owner_of_runs
    (h : Sound procReadable s)
    {p : Nat}
    (hruns : Runs s c p) :
    ∃ file, s.file = some file ∧ file.owner = some c :=
  h.filed.held c (Or.inr ⟨p, hruns⟩)

/-- Unlinking a record of no live start. -/
theorem Sound.unlink
    (h : Sound procReadable s)
    (hguard : ∀ file ∈ s.file, ∀ o, file.owner = some o → ¬Live s o) :
    Sound procReadable { s with file := none } where
  tracked := h.tracked.file none
  filed :=
    { owned := fun _ hfile => by cases hfile
      handled := h.filed.handled
      writer := h.filed.writer
      held := fun o ho => by
        obtain ⟨file, hfile, howner⟩ := h.filed.held o ho
        exact absurd ho (hguard file hfile o howner) }
  written :=
    { recorded := fun p process d hprocess hrole hzombie => by
        obtain ⟨file, hfile, howner⟩ := h.owner_of_runs ⟨process, hprocess, hrole, hzombie⟩
        exact absurd (Or.inr ⟨p, process, hprocess, hrole, hzombie⟩) (hguard file hfile d howner)
      opening := h.written.opening
      writing := h.written.writing
      others := fun _ _ _ _ _ hcontent => by cases hcontent }

/-- Creating the record anew, for a start that claimed it before. -/
theorem Sound.create
    (h : Sound procReadable s)
    (hfile : s.file = none)
    (hclaimed : Claimed s c) :
    Sound procReadable { s with file := some { owner := some c, content := none } } where
  tracked := h.tracked.file _
  filed :=
    { owned := fun file hnew o ho => by
        cases hnew
        cases ho
        exact hclaimed
      handled := h.filed.handled
      writer := h.filed.writer
      held := fun o ho => by
        obtain ⟨file, hsome, -⟩ := h.filed.held o ho
        rw [hfile] at hsome
        cases hsome }
  written :=
    { recorded := fun p process d hprocess hrole hzombie => by
        obtain ⟨file, hsome, -⟩ := h.owner_of_runs ⟨process, hprocess, hrole, hzombie⟩
        rw [hfile] at hsome
        cases hsome
      opening := h.written.opening
      writing := h.written.writing
      others := fun _ _ _ _ _ hcontent => by cases hcontent }

/-- A start that is to record its child empties the record, unless it is that of another
live start. -/
theorem Sound.truncate
    (h : Sound procReadable s)
    (hcmd : s.commands c = some cmd)
    (hrecording : cmd.pc.recording = true)
    (hguard : Unclaimed s c)
    {file : File}
    (hfile : s.file = some file) :
    Sound procReadable { s with file := some { file with content := none } } where
  tracked := h.tracked.file _
  filed :=
    { owned := fun file' hnew o ho => by
        cases hnew
        exact h.filed.owned file hfile o ho
      handled := h.filed.handled
      writer := h.filed.writer
      held := fun o ho => by
        obtain ⟨file', hsome, howner⟩ := h.filed.held o ho
        rw [hfile, Option.some.injEq] at hsome
        subst hsome
        exact ⟨_, rfl, howner⟩ }
  written :=
    { recorded := fun p process d hprocess hrole hzombie => by
        have hruns : Runs s d p := ⟨process, hprocess, hrole, hzombie⟩
        obtain ⟨file', hsome, howner⟩ := h.owner_of_runs hruns
        by_cases hdc : d = c
        · subst hdc
          exact Or.inl ⟨cmd, hcmd, hrecording⟩
        · exact absurd (Or.inr ⟨p, hruns⟩) (hguard file' hsome d howner hdc)
      opening := h.written.opening
      writing := h.written.writing
      others := fun _ _ _ _ _ hcontent => by cases hcontent }

/-- Writing a record through a handle: of a daemon of the start that created the file, or
before that start has one. -/
theorem Sound.writeHandle
    (h : Sound procReadable s)
    {handle : Option Nat} {record : Record}
    (hrecorded : ∀ p process d, s.procs p = some process → process.role = .daemon d →
      process.zombie = false → handle = some d →
        record = recordOf procReadable p (some process))
    (hothers : ∀ process, s.procs record.pid = some process → process.role ≠ .other) :
    Sound procReadable (s.writeHandle handle record) := by
  rw [State.writeHandle]
  split
  · rename_i file hfile
    split
    · rename_i howner
      exact
        { tracked := h.tracked.file _
          filed :=
            { owned := fun file' hnew o ho => by
                cases hnew
                exact h.filed.owned file hfile o ho
              handled := h.filed.handled
              writer := h.filed.writer
              held := fun o ho => by
                obtain ⟨file', hsome, ho'⟩ := h.filed.held o ho
                rw [hfile, Option.some.injEq] at hsome
                subst hsome
                exact ⟨_, rfl, ho'⟩ }
          written :=
            { recorded := fun p process d hprocess hrole hzombie => by
                obtain ⟨file', hsome, ho⟩ := h.owner_of_runs ⟨process, hprocess, hrole, hzombie⟩
                rw [hfile, Option.some.injEq] at hsome
                subst hsome
                have hrecord := hrecorded p process d hprocess hrole hzombie
                  (howner.symm.trans ho)
                exact Or.inr (congrArg some hrecord)
              opening := h.written.opening
              writing := h.written.writing
              others := fun p process record' hprocess hrole hcontent hpid => by
                cases hcontent
                exact absurd hrole (hothers process (hpid ▸ hprocess)) } }
    · exact h
  · exact h

/-- A start claims the record that is not there. -/
theorem Sound.claim
    (h : Sound procReadable s)
    (hcmd : s.commands c = some cmd)
    (hfile : s.file = none)
    (hclaimed : cmd.pc.claimed = false) :
    Sound procReadable
      ({ s with file := some { owner := some c, content := none } }.goto c cmd .claimWrite) := by
  have hnone : ∀ o, ¬Live s o := by
    intro o ho
    obtain ⟨file, hsome, -⟩ := h.filed.held o ho
    rw [hfile] at hsome
    cases hsome
  have hpending : ∀ o, Live
      ({ s with file := some { owner := some c, content := none } }.goto c cmd .claimWrite) o →
        o = c := by
    rintro o (⟨cmd', hcmd', hpend⟩ | hruns)
    · rw [commands_goto] at hcmd'
      split at hcmd'
      · assumption
      · exact absurd (Or.inl ⟨cmd', hcmd', hpend⟩) (hnone o)
    · exact absurd (Or.inr hruns) (hnone o)
  have hkept : ∀ {o}, Claimed s o → Claimed
      ({ s with file := some { owner := some c, content := none } }.goto c cmd .claimWrite) o :=
    fun ho => claimed_goto (s := { s with file := _ }) hcmd (fun _ => rfl) ho
  have hown : Claimed
      ({ s with file := some { owner := some c, content := none } }.goto c cmd .claimWrite) c := by
    refine ⟨?_, fun cmd' hcmd' => ?_⟩
    · by_contra hbegun
      rw [h.tracked.fresh c (Nat.le_of_not_lt hbegun)] at hcmd
      cases hcmd
    · rw [commands_goto, if_pos rfl] at hcmd'
      cases hcmd'
      rfl
  have hfresh : ∀ o, Claimed s o → o ≠ c := by
    rintro o ho rfl
    rw [ho.2 cmd hcmd] at hclaimed
    cases hclaimed
  have hrecording : cmd.pc.recording = false := by
    cases hpc : cmd.pc with
    | recordStat _ | recordOpen _ _ | recordWrite _ _ _ =>
        rw [hpc] at hclaimed
        cases hclaimed
    | _ => rfl
  have hchild : cmd.pc.child = none := by
    cases hpc : cmd.pc.child with
    | none => rfl
    | some child => simp [Pc.claimed, hpc] at hclaimed
  have hwritten : Written procReadable
      { s with file := some { owner := some c, content := none } } :=
    { recorded := fun p process d hprocess hrole hzombie =>
        absurd (Or.inr ⟨p, process, hprocess, hrole, hzombie⟩) (hnone d)
      opening := h.written.opening
      writing := h.written.writing
      others := fun _ _ _ _ _ hcontent => by cases hcontent }
  exact
    { tracked := (h.tracked.file _).goto hcmd rfl hchild.symm fun _ => rfl
      filed :=
        { owned := fun file hnew o ho => by
            cases hnew
            cases ho
            exact hown
          handled := fun d cmd' child record o hcmd' hpc => by
            rw [commands_goto] at hcmd'
            split at hcmd'
            · cases hcmd'
              cases hpc
            · have hbefore := h.filed.handled d cmd' child record o hcmd' hpc
              refine ⟨hkept hbefore.1, hbefore.2.imp_right fun _ hlive => ?_⟩
              exact hfresh o hbefore.1 (hpending o hlive)
          writer := fun d cmd' child record handle hcmd' hpc hlive => by
            rw [hpending d hlive, commands_goto, if_pos rfl] at hcmd'
            cases hcmd'
            cases hpc
          held := fun o ho => ⟨_, rfl, congrArg some (hpending o ho).symm⟩ }
      written := by
        refine hwritten.goto hcmd ?_ ?_ ?_
        · intro hrec
          rw [hrecording] at hrec
          cases hrec
        · rintro child record hpc
          cases hpc
        · rintro child record handle hpc
          cases hpc }

end Files

/-! ## Processes start and end -/

section Processes

variable {procReadable : Bool} {s : State} {c : Nat} {cmd : Command}

theorem procs_setProcess (pid : Nat) (process : Option Process) (p : Nat) :
    (s.setProcess pid process).procs p = if p = pid then process else s.procs p :=
  Function.update_apply _ _ _ _

/-- A process is left alone when a command ends unless it is the command or its zombie. -/
theorem procs_finish {p : Nat} {process : Process} :
    (s.finish c).procs p = some process ↔
      s.procs p = some process ∧ process.role ≠ .command c ∧
        ¬(process.role = .daemon c ∧ process.zombie = true) := by
  simp only [State.finish, Option.filter_eq_some_iff, Bool.not_eq_true', Bool.or_eq_false_iff,
    decide_eq_false_iff_not, Bool.and_eq_false_iff, not_and_or, Bool.not_eq_true, ne_eq]

theorem commands_finish (d : Nat) :
    (s.finish c).commands d = if d = c then none else s.commands d :=
  Function.update_apply _ _ _ _

theorem of_commands_finish
    {d : Nat} {cmd' : Command}
    (h : (s.finish c).commands d = some cmd') :
    d ≠ c ∧ s.commands d = some cmd' := by
  rw [commands_finish] at h
  split at h
  · cases h
  · exact ⟨‹_›, h⟩

theorem runs_of_finish
    {o p : Nat}
    (h : Runs (s.finish c) o p) :
    Runs s o p := by
  obtain ⟨process, hprocess, hrole⟩ := h
  exact ⟨process, (procs_finish.1 hprocess).1, hrole⟩

theorem live_of_finish
    {o : Nat}
    (h : Live (s.finish c) o) :
    Live s o := by
  rcases h with ⟨cmd', hcmd', hpending⟩ | ⟨p, hruns⟩
  · exact Or.inl ⟨cmd', (of_commands_finish hcmd').2, hpending⟩
  · exact Or.inr ⟨p, runs_of_finish hruns⟩

theorem claimed_finish
    {o : Nat}
    (h : Claimed s o) :
    Claimed (s.finish c) o :=
  ⟨h.1, fun cmd' hcmd' => h.2 cmd' (of_commands_finish hcmd').2⟩

/-- The child of another command outlives the command that ends. -/
theorem Tracked.child_finish
    (h : Tracked s)
    {d child : Nat} {cmd' : Command}
    (hdc : d ≠ c)
    (hcmd' : s.commands d = some cmd')
    (hchild : cmd'.pc.child = some child) :
    (s.finish c).procs child = s.procs child := by
  obtain ⟨process, hprocess, hrole⟩ := h.childProc d cmd' child hcmd' hchild
  rw [hprocess, procs_finish, hrole]
  exact ⟨hprocess, by simp, fun hboth => hdc (Role.daemon.inj hboth.1)⟩

theorem Tracked.finish (h : Tracked s) : Tracked (s.finish c) where
  fresh d hd := by
    rw [commands_finish]
    split
    · rfl
    · exact h.fresh d hd
  commandProc d cmd' hcmd' := by
    obtain ⟨hdc, hcmd'⟩ := of_commands_finish hcmd'
    obtain ⟨started, hprocess⟩ := h.commandProc d cmd' hcmd'
    exact ⟨started, procs_finish.2 ⟨hprocess, by simp [hdc], by simp⟩⟩
  procCommand p process d hprocess hrole := by
    obtain ⟨hprocess, hnot, -⟩ := procs_finish.1 hprocess
    obtain ⟨cmd', hcmd', hpid⟩ := h.procCommand p process d hprocess hrole
    refine ⟨cmd', ?_, hpid⟩
    rw [commands_finish, if_neg, hcmd']
    rintro rfl
    exact hnot hrole
  childProc d cmd' p hcmd' hchild := by
    obtain ⟨hdc, hcmd'⟩ := of_commands_finish hcmd'
    rw [h.child_finish hdc hcmd' hchild]
    exact h.childProc d cmd' p hcmd' hchild
  procChild p process d cmd' hprocess hrole hcmd' :=
    h.procChild p process d cmd' (procs_finish.1 hprocess).1 hrole (of_commands_finish hcmd').2
  zombie p process hprocess hzombie := by
    obtain ⟨hprocess, -, hnot⟩ := procs_finish.1 hprocess
    obtain ⟨d, hrole, hsome⟩ := h.zombie p process hprocess hzombie
    refine ⟨d, hrole, ?_⟩
    rw [commands_finish, if_neg, hsome]
    rintro rfl
    exact hnot ⟨hrole, hzombie⟩
  spawned p process d hprocess hrole :=
    claimed_finish (h.spawned p process d (procs_finish.1 hprocess).1 hrole)

/-- A command ends, unless its running daemon is not recorded yet. -/
theorem Sound.finish
    (h : Sound procReadable s)
    (hrecorded : ∀ cmd, s.commands c = some cmd → cmd.pc.recording = true → ∀ p, ¬Runs s c p) :
    Sound procReadable (s.finish c) where
  tracked := h.tracked.finish
  filed :=
    { owned := fun file hfile o ho => claimed_finish (h.filed.owned file hfile o ho)
      handled := fun d cmd' child record o hcmd' hpc => by
        have hall := h.filed.handled d cmd' child record o (of_commands_finish hcmd').2 hpc
        exact ⟨claimed_finish hall.1, hall.2.imp_right fun hnot hlive =>
          hnot (live_of_finish hlive)⟩
      writer := fun d cmd' child record handle hcmd' hpc hlive =>
        h.filed.writer d cmd' child record handle (of_commands_finish hcmd').2 hpc
          (live_of_finish hlive)
      held := fun o ho => h.filed.held o (live_of_finish ho) }
  written :=
    { recorded := fun p process d hprocess hrole hzombie => by
        have hbefore := (procs_finish.1 hprocess).1
        rcases h.written.recorded p process d hbefore hrole hzombie with
          ⟨cmd', hcmd', hrec⟩ | hcontent
        · by_cases hdc : d = c
          · subst hdc
            exact absurd ⟨process, hbefore, hrole, hzombie⟩ (hrecorded cmd' hcmd' hrec p)
          · exact Or.inl ⟨cmd', by rw [commands_finish, if_neg hdc, hcmd'], hrec⟩
        · exact Or.inr hcontent
      opening := fun d cmd' child record hcmd' hpc => by
        obtain ⟨hdc, hcmd'⟩ := of_commands_finish hcmd'
        rw [h.tracked.child_finish hdc hcmd' (by rw [hpc, Pc.child])]
        exact h.written.opening d cmd' child record hcmd' hpc
      writing := fun d cmd' child record handle hcmd' hpc => by
        obtain ⟨hdc, hcmd'⟩ := of_commands_finish hcmd'
        rw [h.tracked.child_finish hdc hcmd' (by rw [hpc, Pc.child])]
        exact h.written.writing d cmd' child record handle hcmd' hpc
      others := fun p process record hprocess =>
        h.written.others p process record (procs_finish.1 hprocess).1 }

/-- A process that is there is not the one that a free pid goes to. -/
theorem ne_of_free
    {p pid : Nat} {process : Process}
    (hfree : s.procs pid = none)
    (hprocess : s.procs p = some process) :
    p ≠ pid := by
  rintro rfl
  rw [hfree] at hprocess
  cases hprocess

/-- The processes after one has started. -/
theorem of_procs_started
    {pid p : Nat} {new process : Process}
    (h : (s.setProcess pid (some new)).procs p = some process) :
    (p = pid ∧ process = new) ∨ (p ≠ pid ∧ s.procs p = some process) := by
  rw [procs_setProcess] at h
  split at h
  · exact Or.inl ⟨‹_›, (Option.some.inj h).symm⟩
  · exact Or.inr ⟨‹_›, h⟩

theorem procs_of_free
    {pid p : Nat} {new process : Process}
    (hfree : s.procs pid = none)
    (hprocess : s.procs p = some process) :
    (s.setProcess pid (some new)).procs p = some process := by
  rw [procs_setProcess, if_neg (ne_of_free hfree hprocess), hprocess]

/-- The child of a command is the process it was when another process starts. -/
theorem Tracked.child_started
    (h : Tracked s)
    {pid p d : Nat} {new : Process} {cmd' : Command}
    (hfree : s.procs pid = none)
    (hcmd' : s.commands d = some cmd')
    (hp : cmd'.pc.child = some p) :
    (s.setProcess pid (some new)).procs p = s.procs p := by
  obtain ⟨process, hprocess, -⟩ := h.childProc d cmd' p hcmd' hp
  rw [procs_of_free hfree hprocess, hprocess]

/-- A start spawns its daemon. -/
theorem Sound.spawn
    (h : Sound procReadable s)
    (hcmd : s.commands c = some cmd)
    (hpc : cmd.pc = .spawn)
    {child started : Nat}
    (hfree : s.procs child = none) :
    Sound procReadable
      ((s.setProcess child (some { started, role := .daemon c, zombie := false })).goto c cmd
        (.recordStat child)) := by
  let t := s.setProcess child (some { started, role := .daemon c, zombie := false })
  have hprocs : ∀ {p process}, t.procs p = some process →
      (p = child ∧ process = { started, role := .daemon c, zombie := false }) ∨
        (p ≠ child ∧ s.procs p = some process) := of_procs_started
  have hkept : ∀ {p process}, s.procs p = some process → t.procs p = some process :=
    procs_of_free hfree
  have hcommands : ∀ {d cmd'}, (t.goto c cmd (.recordStat child)).commands d = some cmd' →
      (d = c ∧ cmd' = { cmd with pc := .recordStat child }) ∨
        (d ≠ c ∧ s.commands d = some cmd') := by
    intro d cmd' hcmd'
    rw [commands_goto] at hcmd'
    split at hcmd'
    · exact Or.inl ⟨‹_›, (Option.some.inj hcmd').symm⟩
    · exact Or.inr ⟨‹_›, hcmd'⟩
  have hlivec : Live s c := Or.inl ⟨cmd, hcmd, by rw [hpc]; rfl⟩
  have hlive : ∀ {o}, Live (t.goto c cmd (.recordStat child)) o → Live s o := by
    rintro o (⟨cmd', hcmd', hpending⟩ | ⟨p, process, hprocess, hrole, hzombie⟩)
    · rcases hcommands hcmd' with ⟨-, rfl⟩ | ⟨-, hcmd'⟩
      · cases hpending
      · exact Or.inl ⟨cmd', hcmd', hpending⟩
    · rcases hprocs hprocess with ⟨-, rfl⟩ | ⟨-, hbefore⟩
      · cases hrole
        exact hlivec
      · exact Or.inr ⟨p, process, hbefore, hrole, hzombie⟩
  have hclaimed : ∀ {o}, Claimed s o → Claimed (t.goto c cmd (.recordStat child)) o :=
    fun ho => claimed_goto (s := t) hcmd (fun _ => rfl) ho
  have hclaimedc : Claimed s c := by
    obtain ⟨file, hfile, howner⟩ := h.filed.held c hlivec
    exact h.filed.owned file hfile c howner
  -- the start that spawns had no child before
  have hnone : ∀ {p process}, s.procs p = some process → process.role ≠ .daemon c := by
    intro p process hprocess hrole
    have hchild := h.tracked.procChild p process c cmd hprocess hrole hcmd
    rw [hpc] at hchild
    cases hchild
  have hchildren : ∀ {d cmd' p}, s.commands d = some cmd' → cmd'.pc.child = some p →
      t.procs p = s.procs p := h.tracked.child_started hfree
  exact
    { tracked :=
        { fresh := fun d hd => by
            rw [commands_goto, if_neg]
            · exact h.tracked.fresh d hd
            · rintro rfl
              rw [h.tracked.fresh d hd] at hcmd
              cases hcmd
          commandProc := fun d cmd' hcmd' => by
            rcases hcommands hcmd' with ⟨rfl, rfl⟩ | ⟨-, hcmd'⟩
            · obtain ⟨started', hprocess⟩ := h.tracked.commandProc d cmd hcmd
              exact ⟨started', hkept hprocess⟩
            · obtain ⟨started', hprocess⟩ := h.tracked.commandProc d cmd' hcmd'
              exact ⟨started', hkept hprocess⟩
          procCommand := fun p process d hprocess hrole => by
            rcases hprocs hprocess with ⟨-, rfl⟩ | ⟨-, hbefore⟩
            · cases hrole
            · obtain ⟨cmd', hcmd', hpid⟩ := h.tracked.procCommand p process d hbefore hrole
              by_cases hdc : d = c
              · subst hdc
                rw [hcmd, Option.some.injEq] at hcmd'
                subst hcmd'
                exact ⟨{ cmd with pc := .recordStat child },
                  by rw [commands_goto, if_pos rfl], hpid⟩
              · exact ⟨cmd', by rw [commands_goto, if_neg hdc]; exact hcmd', hpid⟩
          childProc := fun d cmd' p hcmd' hp => by
            rcases hcommands hcmd' with ⟨rfl, rfl⟩ | ⟨-, hcmd'⟩
            · cases hp
              exact ⟨_, (procs_setProcess _ _ _).trans (if_pos rfl), rfl⟩
            · obtain ⟨process, hprocess, hrole⟩ := h.tracked.childProc d cmd' p hcmd' hp
              exact ⟨process, hkept hprocess, hrole⟩
          procChild := fun p process d cmd' hprocess hrole hcmd' => by
            rcases hprocs hprocess with ⟨rfl, rfl⟩ | ⟨-, hbefore⟩
            · cases hrole
              rcases hcommands hcmd' with ⟨-, rfl⟩ | ⟨hne, -⟩
              · rfl
              · exact absurd rfl hne
            · rcases hcommands hcmd' with ⟨rfl, rfl⟩ | ⟨-, hcmd'⟩
              · exact absurd hrole (hnone hbefore)
              · exact h.tracked.procChild p process d cmd' hbefore hrole hcmd'
          zombie := fun p process hprocess hzombie => by
            rcases hprocs hprocess with ⟨-, rfl⟩ | ⟨-, hbefore⟩
            · cases hzombie
            · obtain ⟨d, hrole, hsome⟩ := h.tracked.zombie p process hbefore hzombie
              refine ⟨d, hrole, ?_⟩
              rw [commands_goto]
              split
              · rfl
              · exact hsome
          spawned := fun p process d hprocess hrole => by
            rcases hprocs hprocess with ⟨-, rfl⟩ | ⟨-, hbefore⟩
            · cases hrole
              exact hclaimed hclaimedc
            · exact hclaimed (h.tracked.spawned p process d hbefore hrole) }
      filed :=
        { owned := fun file hfile o ho => hclaimed (h.filed.owned file hfile o ho)
          handled := fun d cmd' child' record o hcmd' hpc' => by
            rcases hcommands hcmd' with ⟨-, rfl⟩ | ⟨-, hcmd'⟩
            · cases hpc'
            · have hall := h.filed.handled d cmd' child' record o hcmd' hpc'
              exact ⟨hclaimed hall.1, hall.2.imp_right fun hnot ho => hnot (hlive ho)⟩
          writer := fun d cmd' child' record handle hcmd' hpc' ho => by
            rcases hcommands hcmd' with ⟨-, rfl⟩ | ⟨-, hcmd'⟩
            · cases hpc'
            · exact h.filed.writer d cmd' child' record handle hcmd' hpc' (hlive ho)
          held := fun o ho => h.filed.held o (hlive ho) }
      written :=
        { recorded := fun p process d hprocess hrole hzombie => by
            rcases hprocs hprocess with ⟨-, rfl⟩ | ⟨-, hbefore⟩
            · cases hrole
              exact Or.inl ⟨_, by rw [commands_goto, if_pos rfl], rfl⟩
            · rcases h.written.recorded p process d hbefore hrole hzombie with
                ⟨cmd', hcmd', hrec⟩ | hcontent
              · have hdc : d ≠ c := by
                  rintro rfl
                  exact hnone hbefore hrole
                exact Or.inl ⟨cmd', by rw [commands_goto, if_neg hdc]; exact hcmd', hrec⟩
              · exact Or.inr hcontent
          opening := fun d cmd' child' record hcmd' hpc' => by
            rcases hcommands hcmd' with ⟨-, rfl⟩ | ⟨-, hcmd'⟩
            · cases hpc'
            · refine (h.written.opening d cmd' child' record hcmd' hpc').trans ?_
              exact congrArg _ (hchildren hcmd' (by rw [hpc', Pc.child])).symm
          writing := fun d cmd' child' record handle hcmd' hpc' => by
            rcases hcommands hcmd' with ⟨-, rfl⟩ | ⟨-, hcmd'⟩
            · cases hpc'
            · refine (h.written.writing d cmd' child' record handle hcmd' hpc').trans ?_
              exact congrArg _ (hchildren hcmd' (by rw [hpc', Pc.child])).symm
          others := fun p process record hprocess hrole hcontent hpid => by
            rcases hprocs hprocess with ⟨-, rfl⟩ | ⟨-, hbefore⟩
            · cases hrole
            · exact h.written.others p process record hbefore hrole hcontent hpid } }

theorem of_procs_removed
    {pid p : Nat} {process : Process}
    (h : (s.setProcess pid none).procs p = some process) :
    p ≠ pid ∧ s.procs p = some process := by
  rw [procs_setProcess] at h
  split at h
  · cases h
  · exact ⟨‹_›, h⟩

theorem live_of_removed
    {pid o : Nat}
    (h : Live (s.setProcess pid none) o) :
    Live s o := by
  rcases h with hpending | ⟨p, process, hprocess, hrole⟩
  · exact Or.inl hpending
  · exact Or.inr ⟨p, process, (of_procs_removed hprocess).2, hrole⟩

/-- A start reaps its child. -/
theorem Sound.reap
    (h : Sound procReadable s)
    (hcmd : s.commands c = some cmd)
    {child : Nat}
    (hchild : cmd.pc.child = some child) :
    Sound procReadable ((s.setProcess child none).goto c cmd .unlinkAbandoned) := by
  obtain ⟨mine, hmine, hrolemine⟩ := h.tracked.childProc c cmd child hcmd hchild
  have hcommands : ∀ {d cmd'},
      ((s.setProcess child none).goto c cmd .unlinkAbandoned).commands d = some cmd' →
        (d = c ∧ cmd' = { cmd with pc := .unlinkAbandoned }) ∨
          (d ≠ c ∧ s.commands d = some cmd') := by
    intro d cmd' hcmd'
    rw [commands_goto] at hcmd'
    split at hcmd'
    · exact Or.inl ⟨‹_›, (Option.some.inj hcmd').symm⟩
    · exact Or.inr ⟨‹_›, hcmd'⟩
  have hlive : ∀ {o}, Live ((s.setProcess child none).goto c cmd .unlinkAbandoned) o →
      Live s o := fun ho =>
    live_of_removed (live_of_goto (s := s.setProcess child none) hcmd (fun hpending => by
      cases hpending) ho)
  have hclaimed : ∀ {o}, Claimed s o →
      Claimed ((s.setProcess child none).goto c cmd .unlinkAbandoned) o :=
    fun ho => claimed_goto (s := s.setProcess child none) hcmd (fun _ => rfl) ho
  have hkept : ∀ {d cmd' p}, d ≠ c → s.commands d = some cmd' → cmd'.pc.child = some p →
      (s.setProcess child none).procs p = s.procs p := by
    intro d cmd' p hdc hcmd' hp
    obtain ⟨process, hprocess, hrole⟩ := h.tracked.childProc d cmd' p hcmd' hp
    rw [procs_setProcess, if_neg]
    rintro rfl
    rw [hmine, Option.some.injEq] at hprocess
    subst hprocess
    rw [hrolemine, Role.daemon.injEq] at hrole
    exact hdc hrole.symm
  have hothers : ∀ {p process}, (s.setProcess child none).procs p = some process →
      process.role ≠ .daemon c := by
    intro p process hprocess hrole
    obtain ⟨hne, hbefore⟩ := of_procs_removed hprocess
    have hp := h.tracked.procChild p process c cmd hbefore hrole hcmd
    rw [hchild, Option.some.injEq] at hp
    exact hne hp.symm
  exact
    { tracked :=
        { fresh := fun d hd => by
            rw [commands_goto, if_neg]
            · exact h.tracked.fresh d hd
            · rintro rfl
              rw [h.tracked.fresh d hd] at hcmd
              cases hcmd
          commandProc := fun d cmd' hcmd' => by
            have hpid : ∃ old, s.commands d = some old ∧ old.pid = cmd'.pid := by
              rcases hcommands hcmd' with ⟨rfl, rfl⟩ | ⟨-, hold⟩
              · exact ⟨cmd, hcmd, rfl⟩
              · exact ⟨cmd', hold, rfl⟩
            obtain ⟨old, hold, hpid⟩ := hpid
            obtain ⟨started, hprocess⟩ := h.tracked.commandProc d old hold
            rw [hpid] at hprocess
            refine ⟨started, (procs_setProcess _ _ _).trans ((if_neg ?_).trans hprocess)⟩
            intro heq
            rw [heq, hmine, Option.some.injEq] at hprocess
            rw [hprocess] at hrolemine
            cases hrolemine
          procCommand := fun p process d hprocess hrole => by
            obtain ⟨-, hbefore⟩ := of_procs_removed hprocess
            obtain ⟨cmd', hcmd', hpid⟩ := h.tracked.procCommand p process d hbefore hrole
            by_cases hdc : d = c
            · subst hdc
              rw [hcmd, Option.some.injEq] at hcmd'
              subst hcmd'
              exact ⟨{ cmd with pc := .unlinkAbandoned }, by rw [commands_goto, if_pos rfl], hpid⟩
            · exact ⟨cmd', by rw [commands_goto, if_neg hdc]; exact hcmd', hpid⟩
          childProc := fun d cmd' p hcmd' hp => by
            rcases hcommands hcmd' with ⟨-, rfl⟩ | ⟨hdc, hcmd'⟩
            · cases hp
            · obtain ⟨process, hprocess, hrole⟩ := h.tracked.childProc d cmd' p hcmd' hp
              exact ⟨process, (hkept hdc hcmd' hp).trans hprocess, hrole⟩
          procChild := fun p process d cmd' hprocess hrole hcmd' => by
            rcases hcommands hcmd' with ⟨rfl, rfl⟩ | ⟨-, hold⟩
            · exact absurd hrole (hothers hprocess)
            · exact h.tracked.procChild p process d cmd' (of_procs_removed hprocess).2 hrole hold
          zombie := fun p process hprocess hzombie => by
            obtain ⟨d, hrole, hsome⟩ :=
              h.tracked.zombie p process (of_procs_removed hprocess).2 hzombie
            refine ⟨d, hrole, ?_⟩
            rw [commands_goto]
            split
            · rfl
            · exact hsome
          spawned := fun p process d hprocess hrole =>
            hclaimed (h.tracked.spawned p process d (of_procs_removed hprocess).2 hrole) }
      filed :=
        { owned := fun file hfile o ho => hclaimed (h.filed.owned file hfile o ho)
          handled := fun d cmd' child' record o hcmd' hpc' => by
            rcases hcommands hcmd' with ⟨-, rfl⟩ | ⟨-, hold⟩
            · cases hpc'
            · have hall := h.filed.handled d cmd' child' record o hold hpc'
              exact ⟨hclaimed hall.1, hall.2.imp_right fun hnot ho => hnot (hlive ho)⟩
          writer := fun d cmd' child' record handle hcmd' hpc' ho => by
            rcases hcommands hcmd' with ⟨-, rfl⟩ | ⟨-, hold⟩
            · cases hpc'
            · exact h.filed.writer d cmd' child' record handle hold hpc' (hlive ho)
          held := fun o ho => h.filed.held o (hlive ho) }
      written :=
        { recorded := fun p process d hprocess hrole hzombie => by
            have hdc : d ≠ c := by
              rintro rfl
              exact hothers hprocess hrole
            rcases h.written.recorded p process d (of_procs_removed hprocess).2 hrole hzombie with
              ⟨cmd', hcmd', hrec⟩ | hcontent
            · exact Or.inl ⟨cmd', by rw [commands_goto, if_neg hdc]; exact hcmd', hrec⟩
            · exact Or.inr hcontent
          opening := fun d cmd' child' record hcmd' hpc' => by
            rcases hcommands hcmd' with ⟨-, rfl⟩ | ⟨hdc, hold⟩
            · cases hpc'
            · refine (h.written.opening d cmd' child' record hold hpc').trans ?_
              exact congrArg _ (hkept hdc hold (by rw [hpc', Pc.child])).symm
          writing := fun d cmd' child' record handle hcmd' hpc' => by
            rcases hcommands hcmd' with ⟨-, rfl⟩ | ⟨hdc, hold⟩
            · cases hpc'
            · refine (h.written.writing d cmd' child' record handle hold hpc').trans ?_
              exact congrArg _ (hkept hdc hold (by rw [hpc', Pc.child])).symm
          others := fun p process record hprocess hrole hcontent hpid =>
            h.written.others p process record (of_procs_removed hprocess).2 hrole hcontent
              hpid } }

/-- A process that belongs to no command in progress ends. -/
theorem Sound.remove
    (h : Sound procReadable s)
    {pid : Nat} {gone : Process}
    (hgone : s.procs pid = some gone)
    (hfree : gone.role = .other ∨ ∃ d, gone.role = .daemon d ∧ s.commands d = none) :
    Sound procReadable (s.setProcess pid none) := by
  have hkept : ∀ {d cmd' p}, s.commands d = some cmd' → cmd'.pc.child = some p →
      (s.setProcess pid none).procs p = s.procs p := by
    intro d cmd' p hcmd' hp
    obtain ⟨process, hprocess, hrole⟩ := h.tracked.childProc d cmd' p hcmd' hp
    rw [procs_setProcess, if_neg]
    rintro rfl
    rw [hgone, Option.some.injEq] at hprocess
    subst hprocess
    rcases hfree with hother | ⟨d', hd', hnone⟩
    · rw [hother] at hrole
      cases hrole
    · rw [hd', Role.daemon.injEq] at hrole
      rw [← hrole, hnone] at hcmd'
      cases hcmd'
  exact
    { tracked :=
        { fresh := h.tracked.fresh
          commandProc := fun d cmd' hcmd' => by
            obtain ⟨started, hprocess⟩ := h.tracked.commandProc d cmd' hcmd'
            refine ⟨started, (procs_setProcess _ _ _).trans ((if_neg ?_).trans hprocess)⟩
            intro heq
            rw [heq, hgone, Option.some.injEq] at hprocess
            subst hprocess
            rcases hfree with hother | ⟨d', hd', -⟩
            · cases hother
            · cases hd'
          procCommand := fun p process d hprocess hrole =>
            h.tracked.procCommand p process d (of_procs_removed hprocess).2 hrole
          childProc := fun d cmd' p hcmd' hp => by
            rw [hkept hcmd' hp]
            exact h.tracked.childProc d cmd' p hcmd' hp
          procChild := fun p process d cmd' hprocess hrole hcmd' =>
            h.tracked.procChild p process d cmd' (of_procs_removed hprocess).2 hrole hcmd'
          zombie := fun p process hprocess hzombie =>
            h.tracked.zombie p process (of_procs_removed hprocess).2 hzombie
          spawned := fun p process d hprocess hrole =>
            h.tracked.spawned p process d (of_procs_removed hprocess).2 hrole }
      filed :=
        { owned := h.filed.owned
          handled := fun d cmd' child record o hcmd' hpc => by
            have hall := h.filed.handled d cmd' child record o hcmd' hpc
            exact ⟨hall.1, hall.2.imp_right fun hnot ho => hnot (live_of_removed ho)⟩
          writer := fun d cmd' child record handle hcmd' hpc ho =>
            h.filed.writer d cmd' child record handle hcmd' hpc (live_of_removed ho)
          held := fun o ho => h.filed.held o (live_of_removed ho) }
      written :=
        { recorded := fun p process d hprocess hrole hzombie =>
            h.written.recorded p process d (of_procs_removed hprocess).2 hrole hzombie
          opening := fun d cmd' child record hcmd' hpc => by
            rw [hkept hcmd' (by rw [hpc, Pc.child])]
            exact h.written.opening d cmd' child record hcmd' hpc
          writing := fun d cmd' child record handle hcmd' hpc => by
            rw [hkept hcmd' (by rw [hpc, Pc.child])]
            exact h.written.writing d cmd' child record handle hcmd' hpc
          others := fun p process record hprocess =>
            h.written.others p process record (of_procs_removed hprocess).2 } }

/-- The daemon of a start in progress ends and stays a zombie. -/
theorem Sound.zombify
    (h : Sound procReadable s)
    {pid : Nat} {gone : Process}
    (hgone : s.procs pid = some gone)
    (hrole : gone.role = .daemon c)
    (hsome : (s.commands c).isSome = true) :
    Sound procReadable (s.setProcess pid (some { gone with zombie := true })) := by
  have hprocs : ∀ {p process},
      (s.setProcess pid (some { gone with zombie := true })).procs p = some process →
        ∃ before, s.procs p = some before ∧ before.role = process.role ∧
          before.started = process.started ∧
            (process.zombie = false → before = process) ∧
              (process.zombie = true → before.zombie = true ∨ p = pid) := by
    intro p process hprocess
    rw [procs_setProcess] at hprocess
    split at hprocess
    · rename_i hp
      cases hprocess
      exact ⟨gone, hp ▸ hgone, rfl, rfl, by simp, fun _ => Or.inr hp⟩
    · exact ⟨process, hprocess, rfl, rfl, fun _ => rfl, Or.inl⟩
  have hkept : ∀ {p process}, s.procs p = some process →
      ∃ after, (s.setProcess pid (some { gone with zombie := true })).procs p = some after ∧
        after.role = process.role ∧ after.started = process.started ∧
          (process.role ≠ .daemon c → after = process) := by
    intro p process hprocess
    rw [procs_setProcess]
    split
    · rename_i hp
      rw [hp, hgone, Option.some.injEq] at hprocess
      subst hprocess
      exact ⟨_, rfl, rfl, rfl, fun hne => absurd hrole hne⟩
    · exact ⟨process, hprocess, rfl, rfl, fun _ => rfl⟩
  have hlive : ∀ {o}, Live (s.setProcess pid (some { gone with zombie := true })) o →
      Live s o := by
    rintro o (hpending | ⟨p, process, hprocess, hrole', hzombie⟩)
    · exact Or.inl hpending
    · obtain ⟨before, hbefore, -, -, hsame, -⟩ := hprocs hprocess
      rw [hsame hzombie] at hbefore
      exact Or.inr ⟨p, process, hbefore, hrole', hzombie⟩
  have hrecord : ∀ {d cmd' p}, s.commands d = some cmd' → cmd'.pc.child = some p →
      recordOf procReadable p ((s.setProcess pid (some { gone with zombie := true })).procs p) =
        recordOf procReadable p (s.procs p) := by
    intro d cmd' p hcmd' hp
    obtain ⟨process, hprocess, -⟩ := h.tracked.childProc d cmd' p hcmd' hp
    obtain ⟨after, hafter, -, hstarted, -⟩ := hkept hprocess
    rw [hafter, hprocess, recordOf, recordOf, Option.map_some, Option.map_some, hstarted]
  exact
    { tracked :=
        { fresh := h.tracked.fresh
          commandProc := fun d cmd' hcmd' => by
            obtain ⟨started, hprocess⟩ := h.tracked.commandProc d cmd' hcmd'
            obtain ⟨after, hafter, -, -, hsame⟩ := hkept hprocess
            exact ⟨started, hafter.trans (congrArg some (hsame (by simp)))⟩
          procCommand := fun p process d hprocess hrole' => by
            obtain ⟨before, hbefore, hrolebefore, -⟩ := hprocs hprocess
            exact h.tracked.procCommand p before d hbefore (hrolebefore.trans hrole')
          childProc := fun d cmd' p hcmd' hp => by
            obtain ⟨process, hprocess, hrole'⟩ := h.tracked.childProc d cmd' p hcmd' hp
            obtain ⟨after, hafter, hroleafter, -⟩ := hkept hprocess
            exact ⟨after, hafter, hroleafter.trans hrole'⟩
          procChild := fun p process d cmd' hprocess hrole' hcmd' => by
            obtain ⟨before, hbefore, hrolebefore, -⟩ := hprocs hprocess
            exact h.tracked.procChild p before d cmd' hbefore (hrolebefore.trans hrole') hcmd'
          zombie := fun p process hprocess hzombie => by
            obtain ⟨before, hbefore, hrolebefore, -, -, hwhich⟩ := hprocs hprocess
            rcases hwhich hzombie with hold | hp
            · obtain ⟨d, hd, hsome'⟩ := h.tracked.zombie p before hbefore hold
              exact ⟨d, hrolebefore.symm.trans hd, hsome'⟩
            · rw [hp, hgone, Option.some.injEq] at hbefore
              subst hbefore
              exact ⟨c, hrolebefore.symm.trans hrole, hsome⟩
          spawned := fun p process d hprocess hrole' => by
            obtain ⟨before, hbefore, hrolebefore, -⟩ := hprocs hprocess
            exact h.tracked.spawned p before d hbefore (hrolebefore.trans hrole') }
      filed :=
        { owned := h.filed.owned
          handled := fun d cmd' child record o hcmd' hpc => by
            have hall := h.filed.handled d cmd' child record o hcmd' hpc
            exact ⟨hall.1, hall.2.imp_right fun hnot ho => hnot (hlive ho)⟩
          writer := fun d cmd' child record handle hcmd' hpc ho =>
            h.filed.writer d cmd' child record handle hcmd' hpc (hlive ho)
          held := fun o ho => h.filed.held o (hlive ho) }
      written :=
        { recorded := fun p process d hprocess hrole' hzombie => by
            obtain ⟨before, hbefore, -, -, hsame, -⟩ := hprocs hprocess
            rw [hsame hzombie] at hbefore
            exact h.written.recorded p process d hbefore hrole' hzombie
          opening := fun d cmd' child record hcmd' hpc => by
            rw [hrecord hcmd' (by rw [hpc, Pc.child])]
            exact h.written.opening d cmd' child record hcmd' hpc
          writing := fun d cmd' child record handle hcmd' hpc => by
            rw [hrecord hcmd' (by rw [hpc, Pc.child])]
            exact h.written.writing d cmd' child record handle hcmd' hpc
          others := fun p process record hprocess hrole' hcontent hpid => by
            have hbefore : s.procs p = some process := by
              rw [procs_setProcess] at hprocess
              split at hprocess
              · cases hprocess
                rw [hrole] at hrole'
                cases hrole'
              · exact hprocess
            exact h.written.others p process record hbefore hrole' hcontent hpid } }

/-- A process ends, unless it is a start whose running daemon is not recorded yet. -/
theorem Sound.die
    (h : Sound procReadable s)
    {pid : Nat}
    (hguard : Recorded s pid) :
    Sound procReadable (s.die pid) := by
  rw [State.die]
  split
  · exact h
  · rename_i process hprocess
    split
    · rename_i d hrole
      exact h.finish fun cmd hcmd hrec => hguard process hprocess d hrole cmd hcmd hrec
    · rename_i d hrole
      split
      · exact h.zombify hprocess hrole ‹_›
      · rename_i hnone
        refine h.remove hprocess (Or.inr ⟨d, hrole, ?_⟩)
        rwa [Bool.not_eq_true, Option.isSome_eq_false_iff, Option.isNone_iff_eq_none] at hnone
    · rename_i hrole
      exact h.remove hprocess (Or.inl hrole)

theorem Sound.terminate
    (h : Sound procReadable s)
    {pid : Nat}
    (hguard : Recorded s pid) :
    Sound procReadable (s.terminate pid) := by
  rw [State.terminate]
  split
  · rename_i hprocess
    exact h.finish fun cmd hcmd hrec => hguard _ hprocess _ rfl cmd hcmd hrec
  · exact h

/-- A signal leaves a command as it is, or ends it. -/
theorem commands_die (pid d : Nat) :
    (s.die pid).commands d = s.commands d ∨ (s.die pid).commands d = none := by
  rw [State.die]
  split
  · exact Or.inl rfl
  · split
    · rw [commands_finish]
      split
      · exact Or.inr rfl
      · exact Or.inl rfl
    · split
      · exact Or.inl rfl
      · exact Or.inl rfl
    · exact Or.inl rfl

theorem commands_terminate (pid d : Nat) :
    (s.terminate pid).commands d = s.commands d ∨ (s.terminate pid).commands d = none := by
  rw [State.terminate]
  split
  · rw [commands_finish]
    split
    · exact Or.inr rfl
    · exact Or.inl rfl
  · exact Or.inl rfl

/-- A stop goes on after its signal. -/
theorem Sound.resume
    {t : State}
    (h : Sound procReadable t)
    (hcmd : t.commands c = some cmd ∨ t.commands c = none)
    {pc : Pc}
    (hchild : pc.child = cmd.pc.child)
    (hclaimed : cmd.pc.claimed = true → pc.claimed = true)
    (hpending : pc.pending = true → cmd.pc.pending = true)
    (hrecording : cmd.pc.recording = false)
    (hpc : pc.recording = false) :
    Sound procReadable (t.resume c cmd pc) := by
  rw [State.resume]
  rcases hcmd with hcmd | hnone
  · rw [if_pos (by rw [hcmd]; rfl)]
    exact h.goto hcmd rfl hchild hclaimed hpending hrecording hpc
  · rw [if_neg (by rw [hnone]; simp)]
    exact h

/-- A process that is neither a command nor a daemon starts where no record names it. -/
theorem Sound.other
    (h : Sound procReadable s)
    {pid : Nat}
    (hfree : s.procs pid = none)
    (hguard : admitted procReadable s (.other pid)) :
    Sound procReadable
      (s.setProcess pid (some { started := s.clock, role := .other, zombie := false })) := by
  have hlive : ∀ {o}, Live
      (s.setProcess pid (some { started := s.clock, role := .other, zombie := false })) o →
        Live s o := by
    rintro o (hpending | ⟨p, process, hprocess, hrole, hzombie⟩)
    · exact Or.inl hpending
    · rcases of_procs_started hprocess with ⟨-, rfl⟩ | ⟨-, hbefore⟩
      · cases hrole
      · exact Or.inr ⟨p, process, hbefore, hrole, hzombie⟩
  exact
    { tracked :=
        { fresh := h.tracked.fresh
          commandProc := fun d cmd' hcmd' => by
            obtain ⟨started, hprocess⟩ := h.tracked.commandProc d cmd' hcmd'
            exact ⟨started, procs_of_free hfree hprocess⟩
          procCommand := fun p process d hprocess hrole => by
            rcases of_procs_started hprocess with ⟨-, rfl⟩ | ⟨-, hbefore⟩
            · cases hrole
            · exact h.tracked.procCommand p process d hbefore hrole
          childProc := fun d cmd' p hcmd' hp => by
            rw [h.tracked.child_started hfree hcmd' hp]
            exact h.tracked.childProc d cmd' p hcmd' hp
          procChild := fun p process d cmd' hprocess hrole hcmd' => by
            rcases of_procs_started hprocess with ⟨-, rfl⟩ | ⟨-, hbefore⟩
            · cases hrole
            · exact h.tracked.procChild p process d cmd' hbefore hrole hcmd'
          zombie := fun p process hprocess hzombie => by
            rcases of_procs_started hprocess with ⟨-, rfl⟩ | ⟨-, hbefore⟩
            · cases hzombie
            · exact h.tracked.zombie p process hbefore hzombie
          spawned := fun p process d hprocess hrole => by
            rcases of_procs_started hprocess with ⟨-, rfl⟩ | ⟨-, hbefore⟩
            · cases hrole
            · exact h.tracked.spawned p process d hbefore hrole }
      filed :=
        { owned := h.filed.owned
          handled := fun d cmd' child record o hcmd' hpc => by
            have hall := h.filed.handled d cmd' child record o hcmd' hpc
            exact ⟨hall.1, hall.2.imp_right fun hnot ho => hnot (hlive ho)⟩
          writer := fun d cmd' child record handle hcmd' hpc ho =>
            h.filed.writer d cmd' child record handle hcmd' hpc (hlive ho)
          held := fun o ho => h.filed.held o (hlive ho) }
      written :=
        { recorded := fun p process d hprocess hrole hzombie => by
            rcases of_procs_started hprocess with ⟨-, rfl⟩ | ⟨-, hbefore⟩
            · cases hrole
            · exact h.written.recorded p process d hbefore hrole hzombie
          opening := fun d cmd' child record hcmd' hpc => by
            rw [h.tracked.child_started hfree hcmd' (by rw [hpc, Pc.child])]
            exact h.written.opening d cmd' child record hcmd' hpc
          writing := fun d cmd' child record handle hcmd' hpc => by
            rw [h.tracked.child_started hfree hcmd' (by rw [hpc, Pc.child])]
            exact h.written.writing d cmd' child record handle hcmd' hpc
          others := fun p process record hprocess hrole hcontent hpid => by
            rcases of_procs_started hprocess with ⟨hp, rfl⟩ | ⟨-, hbefore⟩
            · obtain ⟨file, hfile, hrecord⟩ := Option.bind_eq_some_iff.1 hcontent
              exact hguard file hfile record hrecord (hpid.trans hp)
            · exact h.written.others p process record hbefore hrole hcontent hpid } }

theorem commands_beginCommand (pid : Nat) (restarts : Bool) (pc : Pc) (d : Nat) :
    (s.beginCommand pid restarts pc).commands d =
      if d = s.begun then some { pid, restarts, pc } else s.commands d :=
  Function.update_apply _ _ _ _

/-- A command begins. -/
theorem Sound.begin
    (h : Sound procReadable s)
    {pid : Nat}
    (hfree : s.procs pid = none)
    {restarts : Bool} {pc : Pc}
    (hpending : pc.pending = false)
    (hrecording : pc.recording = false)
    (hchild : pc.child = none) :
    Sound procReadable (s.beginCommand pid restarts pc) := by
  have hnew : s.commands s.begun = none := h.tracked.fresh s.begun (Nat.le_refl _)
  have hcommands : ∀ {d cmd'}, (s.beginCommand pid restarts pc).commands d = some cmd' →
        (d = s.begun ∧ cmd' = { pid, restarts, pc }) ∨
          (d ≠ s.begun ∧ s.commands d = some cmd') := by
    intro d cmd' hcmd'
    rw [commands_beginCommand] at hcmd'
    split at hcmd'
    · exact Or.inl ⟨‹_›, (Option.some.inj hcmd').symm⟩
    · exact Or.inr ⟨‹_›, hcmd'⟩
  have hold : ∀ {d cmd'}, s.commands d = some cmd' →
      (s.beginCommand pid restarts pc).commands d = some cmd' := by
    intro d cmd' hcmd'
    rw [commands_beginCommand, if_neg]
    · exact hcmd'
    · rintro rfl
      rw [hnew] at hcmd'
      cases hcmd'
  have hclaimed : ∀ {o}, Claimed s o → Claimed (s.beginCommand pid restarts pc) o := by
    rintro o ⟨hlt, hall⟩
    refine ⟨Nat.lt_succ_of_lt hlt, fun cmd' hcmd' => ?_⟩
    rcases hcommands hcmd' with ⟨rfl, -⟩ | ⟨-, hbefore⟩
    · exact absurd hlt (Nat.lt_irrefl _)
    · exact hall cmd' hbefore
  have hlive : ∀ {o}, Live (s.beginCommand pid restarts pc) o → Live s o := by
    rintro o (⟨cmd', hcmd', hpend⟩ | ⟨p, process, hprocess, hrole, hzombie⟩)
    · rcases hcommands hcmd' with ⟨-, rfl⟩ | ⟨-, hbefore⟩
      · rw [hpending] at hpend
        cases hpend
      · exact Or.inl ⟨cmd', hbefore, hpend⟩
    · rcases of_procs_started hprocess with ⟨-, rfl⟩ | ⟨-, hbefore⟩
      · cases hrole
      · exact Or.inr ⟨p, process, hbefore, hrole, hzombie⟩
  exact
    { tracked :=
        { fresh := fun d hd => by
            have hd : s.begun < d := hd
            rw [commands_beginCommand, if_neg (by omega)]
            exact h.tracked.fresh d (by omega)
          commandProc := fun d cmd' hcmd' => by
            rcases hcommands hcmd' with ⟨rfl, rfl⟩ | ⟨-, hbefore⟩
            · exact ⟨s.clock, Function.update_self _ _ _⟩
            · obtain ⟨started, hprocess⟩ := h.tracked.commandProc d cmd' hbefore
              exact ⟨started, procs_of_free hfree hprocess⟩
          procCommand := fun p process d hprocess hrole => by
            rcases of_procs_started hprocess with ⟨rfl, rfl⟩ | ⟨-, hbefore⟩
            · cases hrole
              exact ⟨_, (commands_beginCommand _ _ _ _).trans (if_pos rfl), rfl⟩
            · obtain ⟨cmd', hcmd', hpid⟩ := h.tracked.procCommand p process d hbefore hrole
              exact ⟨cmd', hold hcmd', hpid⟩
          childProc := fun d cmd' p hcmd' hp => by
            rcases hcommands hcmd' with ⟨-, rfl⟩ | ⟨-, hbefore⟩
            · rw [hchild] at hp
              cases hp
            · obtain ⟨process, hprocess, hrole⟩ := h.tracked.childProc d cmd' p hbefore hp
              exact ⟨process, procs_of_free hfree hprocess, hrole⟩
          procChild := fun p process d cmd' hprocess hrole hcmd' => by
            rcases of_procs_started hprocess with ⟨-, rfl⟩ | ⟨-, hbefore⟩
            · cases hrole
            · have hlt := (h.tracked.spawned p process d hbefore hrole).1
              rcases hcommands hcmd' with ⟨rfl, -⟩ | ⟨-, hcmd'⟩
              · exact absurd hlt (Nat.lt_irrefl _)
              · exact h.tracked.procChild p process d cmd' hbefore hrole hcmd'
          zombie := fun p process hprocess hzombie => by
            rcases of_procs_started hprocess with ⟨-, rfl⟩ | ⟨-, hbefore⟩
            · cases hzombie
            · obtain ⟨d, hrole, hsome⟩ := h.tracked.zombie p process hbefore hzombie
              obtain ⟨cmd', hcmd'⟩ := Option.isSome_iff_exists.1 hsome
              exact ⟨d, hrole, by rw [hold hcmd']; rfl⟩
          spawned := fun p process d hprocess hrole => by
            rcases of_procs_started hprocess with ⟨-, rfl⟩ | ⟨-, hbefore⟩
            · cases hrole
            · exact hclaimed (h.tracked.spawned p process d hbefore hrole) }
      filed :=
        { owned := fun file hfile o ho => hclaimed (h.filed.owned file hfile o ho)
          handled := fun d cmd' child record o hcmd' hpc => by
            rcases hcommands hcmd' with ⟨-, rfl⟩ | ⟨-, hbefore⟩
            · rw [show pc = .recordWrite child record (some o) from hpc] at hrecording
              cases hrecording
            · have hall := h.filed.handled d cmd' child record o hbefore hpc
              exact ⟨hclaimed hall.1, hall.2.imp_right fun hnot ho => hnot (hlive ho)⟩
          writer := fun d cmd' child record handle hcmd' hpc ho => by
            rcases hcommands hcmd' with ⟨-, rfl⟩ | ⟨-, hbefore⟩
            · rw [show pc = .recordWrite child record handle from hpc] at hrecording
              cases hrecording
            · exact h.filed.writer d cmd' child record handle hbefore hpc (hlive ho)
          held := fun o ho => h.filed.held o (hlive ho) }
      written :=
        { recorded := fun p process d hprocess hrole hzombie => by
            rcases of_procs_started hprocess with ⟨-, rfl⟩ | ⟨-, hbefore⟩
            · cases hrole
            · rcases h.written.recorded p process d hbefore hrole hzombie with
                ⟨cmd', hcmd', hrec⟩ | hcontent
              · exact Or.inl ⟨cmd', hold hcmd', hrec⟩
              · exact Or.inr hcontent
          opening := fun d cmd' child record hcmd' hpc => by
            rcases hcommands hcmd' with ⟨-, rfl⟩ | ⟨-, hbefore⟩
            · rw [show pc = .recordOpen child record from hpc] at hrecording
              cases hrecording
            · refine (h.written.opening d cmd' child record hbefore hpc).trans ?_
              exact congrArg _
                (h.tracked.child_started hfree hbefore (by rw [hpc, Pc.child])).symm
          writing := fun d cmd' child record handle hcmd' hpc => by
            rcases hcommands hcmd' with ⟨-, rfl⟩ | ⟨-, hbefore⟩
            · rw [show pc = .recordWrite child record handle from hpc] at hrecording
              cases hrecording
            · refine (h.written.writing d cmd' child record handle hbefore hpc).trans ?_
              exact congrArg _
                (h.tracked.child_started hfree hbefore (by rw [hpc, Pc.child])).symm
          others := fun p process record hprocess hrole hcontent hpid => by
            rcases of_procs_started hprocess with ⟨-, rfl⟩ | ⟨-, hbefore⟩
            · cases hrole
            · exact h.written.others p process record hbefore hrole hcontent hpid } }

end Processes

end Daemon
end Reminders
end Vesta
