import Vesta.Reminders.Records

/-!
# When the records tell the truth

Every step of a run without the three faults keeps the invariant, and between commands a
state with the invariant tells the truth: at most one daemon runs, and `live_pid` answers
its pid exactly when one does.
-/

namespace Vesta
namespace Reminders
namespace Daemon

open Lib

/-! ## Every step -/

section Steps

variable {procReadable : Bool} {s t : State} {c : Nat} {cmd : Command}

/-- Where an asker goes on to claims nothing and has no child. -/
theorem Asker.next_cases
    {asker : Asker} {result : Option Nat} {pc : Pc}
    (h : asker.next result = .on pc) :
    pc.child = none ∧ pc.pending = false ∧ pc.recording = false := by
  cases asker with
  | start =>
      cases result with
      | none => cases h; exact ⟨rfl, rfl, rfl⟩
      | some pid => cases h
  | rival =>
      cases result with
      | none => cases h; exact ⟨rfl, rfl, rfl⟩
      | some pid => cases h
  | stop =>
      cases result with
      | none => cases h
      | some pid => cases h; exact ⟨rfl, rfl, rfl⟩
  | termed pid last =>
      cases result with
      | none => cases h; exact ⟨rfl, rfl, rfl⟩
      | some _ =>
          cases h
          cases last with
          | true => exact ⟨rfl, rfl, rfl⟩
          | false => exact ⟨rfl, rfl, rfl⟩
  | killed pid last =>
      cases result with
      | none => cases h; exact ⟨rfl, rfl, rfl⟩
      | some _ =>
          cases last with
          | true => cases h
          | false => cases h; exact ⟨rfl, rfl, rfl⟩

/-- A command that has no child to record ends. -/
theorem Sound.ends
    (h : Sound procReadable s)
    (hcmd : s.commands c = some cmd)
    (hrecording : cmd.pc.recording = false) :
    Sound procReadable (s.finish c) := by
  refine h.finish fun cmd' hcmd' hrec => ?_
  rw [hcmd, Option.some.injEq] at hcmd'
  rw [← hcmd', hrecording] at hrec
  cases hrec

/-- A command without a claim goes on to another point without one. -/
theorem Sound.roam
    (h : Sound procReadable s)
    (hcmd : s.commands c = some cmd)
    {next : Command} {pc : Pc}
    (hpid : next.pid = cmd.pid)
    (hclaimed : cmd.pc.claimed = false)
    (hpc : pc.child = none ∧ pc.pending = false ∧ pc.recording = false) :
    Sound procReadable (s.goto c next pc) := by
  have hparts : cmd.pc.child = none ∧ cmd.pc.recording = false := by
    cases hat : cmd.pc with
    | recordStat _ | recordOpen _ _ | recordWrite _ _ _ =>
        rw [hat] at hclaimed
        cases hclaimed
    | awaitReady _ | abandon _ | abandonWait _ =>
        rw [hat] at hclaimed
        cases hclaimed
    | _ => exact ⟨rfl, rfl⟩
  refine h.goto hcmd hpid (hpc.1.trans hparts.1.symm) ?_ ?_ hparts.2 hpc.2.2
  · intro htrue
    rw [hclaimed] at htrue
    cases htrue
  · intro htrue
    rw [hpc.2.1] at htrue
    cases htrue

/-- A stop ends, or goes on to its start. -/
theorem Sound.stopped
    (h : Sound procReadable s)
    (hcmd : s.commands c = some cmd)
    (hclaimed : cmd.pc.claimed = false)
    (hrecording : cmd.pc.recording = false) :
    Sound procReadable (s.stopped c cmd) := by
  rw [State.stopped]
  split
  · exact h.roam hcmd rfl hclaimed ⟨rfl, rfl, rfl⟩
  · exact h.ends hcmd hrecording

/-- A command that neither waits to spawn nor has a child is not live. -/
theorem Tracked.not_live
    (h : Tracked s)
    (hcmd : s.commands c = some cmd)
    (hpending : cmd.pc.pending = false)
    (hchild : cmd.pc.child = none) :
    ¬Live s c := by
  rintro (⟨cmd', hcmd', hpend⟩ | ⟨p, process, hprocess, hrole, -⟩)
  · rw [hcmd, Option.some.injEq] at hcmd'
    rw [← hcmd', hpending] at hpend
    cases hpend
  · rw [h.procChild p process c cmd hprocess hrole hcmd] at hchild
    cases hchild

/-- A command unlinks a record that is not that of another live start. -/
theorem Sound.unlinks
    (h : Sound procReadable s)
    (hcmd : s.commands c = some cmd)
    (hpending : cmd.pc.pending = false)
    (hchild : cmd.pc.child = none)
    (hguard : Unclaimed s c) :
    Sound procReadable { s with file := none } := by
  refine h.unlink fun file hfile o howner => ?_
  by_cases ho : o = c
  · rw [ho]
    exact h.tracked.not_live hcmd hpending hchild
  · exact hguard file hfile o howner ho

theorem commands_writeHandle (handle : Option Nat) (record : Record) :
    (s.writeHandle handle record).commands = s.commands := by
  rw [State.writeHandle]
  split
  · split
    · rfl
    · rfl
  · rfl

theorem procs_writeHandle (handle : Option Nat) (record : Record) :
    (s.writeHandle handle record).procs = s.procs := by
  rw [State.writeHandle]
  split
  · split
    · rfl
    · rfl
  · rfl

/-- A start writes its own pid into the record it has claimed. -/
theorem Sound.claimWrite
    (h : Sound procReadable s)
    (hcmd : s.commands c = some cmd)
    (hpc : cmd.pc = .claimWrite) :
    Sound procReadable
      ((s.writeHandle (some c) (recordOf procReadable cmd.pid (s.procs cmd.pid))).goto c cmd
        .register) := by
  have hwritten : Sound procReadable
      (s.writeHandle (some c) (recordOf procReadable cmd.pid (s.procs cmd.pid))) := by
    refine h.writeHandle ?_ ?_
    · intro p process d hprocess hrole _ hd
      cases hd
      have hchild := h.tracked.procChild p process c cmd hprocess hrole hcmd
      rw [hpc] at hchild
      cases hchild
    · intro process hprocess
      obtain ⟨started, hown⟩ := h.tracked.commandProc c cmd hcmd
      rw [recordOf, hown, Option.some.injEq] at hprocess
      rw [← hprocess]
      simp
  refine hwritten.goto (by rw [commands_writeHandle, hcmd]) rfl ?_ ?_ ?_ ?_ rfl
  · rw [hpc]
    rfl
  · exact fun _ => rfl
  · exact fun _ => by rw [hpc]; rfl
  · rw [hpc]
    rfl

/-- A start that looks its child up goes on to record it. -/
theorem Sound.recordStat
    (h : Sound procReadable s)
    (hcmd : s.commands c = some cmd)
    {child : Nat}
    (hpc : cmd.pc = .recordStat child) :
    Sound procReadable
      (s.goto c cmd (.recordOpen child (recordOf procReadable child (s.procs child)))) where
  tracked := h.tracked.goto hcmd rfl (by rw [hpc]; rfl) fun _ => rfl
  filed := by
    refine h.filed.goto hcmd (fun _ => rfl) ?_ ?_ ?_
    · intro hpending
      cases hpending
    · intro child' record o hgoto
      cases hgoto
    · intro child' record handle hgoto
      cases hgoto
  written := by
    refine h.written.goto hcmd (fun _ => Or.inl rfl) ?_ ?_
    · intro child' record hgoto
      cases hgoto
      rfl
    · intro child' record handle hgoto
      cases hgoto

/-- A start that has opened the record goes on to write its child into it. -/
theorem Sound.opened
    {child : Nat} {record : Record} {handle : Option Nat}
    (h : Sound procReadable t)
    (hcmd : t.commands c = some cmd)
    (hpc : cmd.pc = .recordOpen child record)
    (hhandle : ∀ o, handle = some o → Claimed t o ∧ (o = c ∨ ¬Live t o))
    (hwriter : Live t c → handle = some c) :
    Sound procReadable (t.goto c cmd (.recordWrite child record handle)) where
  tracked := h.tracked.goto hcmd rfl (by rw [hpc]; rfl) fun _ => rfl
  filed := by
    refine h.filed.goto hcmd (fun _ => rfl) ?_ ?_ ?_
    · intro hpending
      cases hpending
    · intro child' record' o hgoto
      cases hgoto
      exact hhandle o rfl
    · intro child' record' handle' hgoto hlive
      cases hgoto
      exact hwriter hlive
  written := by
    refine h.written.goto hcmd (fun _ => Or.inl rfl) ?_ ?_
    · intro child' record' hgoto
      cases hgoto
    · intro child' record' handle' hgoto
      cases hgoto
      exact h.written.opening c cmd child record hcmd hpc

/-- A start writes its child into the record. -/
theorem Sound.recordWrite
    (h : Sound procReadable s)
    (hcmd : s.commands c = some cmd)
    {child : Nat} {record : Record} {handle : Option Nat}
    (hpc : cmd.pc = .recordWrite child record handle) :
    Sound procReadable ((s.writeHandle handle record).goto c cmd (.awaitReady child)) := by
  have hrecord := h.written.writing c cmd child record handle hcmd hpc
  have hmine : ∀ p process, s.procs p = some process → process.role = .daemon c →
      record = recordOf procReadable p (some process) := by
    intro p process hprocess hrole
    have hp := h.tracked.procChild p process c cmd hprocess hrole hcmd
    rw [hpc, Pc.child, Option.some.injEq] at hp
    rw [hrecord, hp, hprocess]
  have hwritten : Sound procReadable (s.writeHandle handle record) := by
    refine h.writeHandle ?_ ?_
    · intro p process d hprocess hrole hzombie hd
      rw [hd] at hpc
      rcases (h.filed.handled c cmd child record d hcmd hpc).2 with hdc | hnot
      · exact hmine p process hprocess (hdc ▸ hrole)
      · exact absurd (Or.inr ⟨p, process, hprocess, hrole, hzombie⟩) hnot
    · intro process hprocess hother
      obtain ⟨mine, hchild, hrole⟩ := h.tracked.childProc c cmd child hcmd (by rw [hpc, Pc.child])
      rw [hrecord, recordOf, hchild, Option.some.injEq] at hprocess
      rw [← hprocess, hrole] at hother
      cases hother
  have hsame : (s.writeHandle handle record).commands c = some cmd := by
    rw [commands_writeHandle, hcmd]
  exact
    { tracked := hwritten.tracked.goto hsame rfl (by rw [hpc]; rfl) fun _ => rfl
      filed := by
        refine hwritten.filed.goto hsame (fun _ => rfl) ?_ ?_ ?_
        · intro hpending
          cases hpending
        · intro child' record' o hgoto
          cases hgoto
        · intro child' record' handle' hgoto
          cases hgoto
      written := by
        refine hwritten.written.goto hsame ?_ ?_ ?_
        · refine fun _ => Or.inr fun p process hprocess hrole hzombie => ?_
          rw [procs_writeHandle] at hprocess
          have hlive : Live s c := Or.inr ⟨p, process, hprocess, hrole, hzombie⟩
          obtain ⟨file, hfile, howner⟩ := h.filed.held c hlive
          rw [State.writeHandle, hfile, h.filed.writer c cmd child record handle hcmd hpc hlive]
          dsimp only
          rw [if_pos howner, ← hmine p process hprocess hrole]
          rfl
        · intro child' record' hgoto
          cases hgoto
        · intro child' record' handle' hgoto
          cases hgoto }

/-- A step of a command that finds what it must keeps the invariant. -/
theorem Sound.run
    (h : Sound procReadable s)
    (hcmd : s.commands c = some cmd)
    (hguard : cmd.pc.guard s c)
    {answer : Answer}
    (hrun : run procReadable s c cmd answer = some t) :
    Sound procReadable t := by
  cases hpc : cmd.pc with
  | live stage asker =>
      have hclaimed : cmd.pc.claimed = false := by
        rw [hpc]
        rfl
      simp only [Daemon.run, hpc] at hrun
      split at hrun
      · cases hrun
        exact h.roam hcmd rfl hclaimed ⟨rfl, rfl, rfl⟩
      · rename_i result hresult
        cases hrun
        cases hnext : asker.next result with
        | on pc => exact h.roam hcmd rfl hclaimed (Asker.next_cases hnext)
        | ends => exact h.ends hcmd (by rw [hpc]; rfl)
        | stopped => exact h.stopped hcmd hclaimed (by rw [hpc]; rfl)
  | claim retry =>
      have hclaimed : cmd.pc.claimed = false := by
        rw [hpc]
        rfl
      simp only [Daemon.run, hpc] at hrun
      split at hrun
      · cases hrun
        exact h.claim hcmd ‹_› hclaimed
      · cases hrun
        split
        · exact h.ends hcmd (by rw [hpc]; rfl)
        · exact h.roam hcmd rfl hclaimed ⟨rfl, rfl, rfl⟩
  | claimWrite =>
      simp only [Daemon.run, hpc] at hrun
      cases hrun
      exact h.claimWrite hcmd hpc
  | rival =>
      simp only [Daemon.run, hpc] at hrun
      cases hrun
      refine h.roam hcmd rfl (by rw [hpc]; rfl) ?_
      split
      · exact ⟨rfl, rfl, rfl⟩
      · exact ⟨rfl, rfl, rfl⟩
  | rivalExists =>
      simp only [Daemon.run, hpc] at hrun
      cases hrun
      refine h.roam hcmd rfl (by rw [hpc]; rfl) ?_
      split
      · exact ⟨rfl, rfl, rfl⟩
      · exact ⟨rfl, rfl, rfl⟩
  | unlinkStale =>
      simp only [Daemon.run, hpc] at hrun
      rw [hpc] at hguard
      cases hrun
      have hunlinked := h.unlinks hcmd (by rw [hpc]; rfl) (by rw [hpc]; rfl) hguard
      exact hunlinked.roam hcmd rfl (by rw [hpc]; rfl) ⟨rfl, rfl, rfl⟩
  | register =>
      simp only [Daemon.run, hpc] at hrun
      cases hrun
      split
      · exact h.goto hcmd rfl (by rw [hpc]; rfl) (fun _ => rfl) (fun _ => by rw [hpc]; rfl)
          (by rw [hpc]; rfl) rfl
      · refine h.goto hcmd rfl (by rw [hpc]; rfl) (fun _ => rfl) ?_ (by rw [hpc]; rfl) rfl
        intro hpending
        cases hpending
  | unlinkUnregistered =>
      simp only [Daemon.run, hpc] at hrun
      rw [hpc] at hguard
      cases hrun
      have hunlinked := h.unlinks hcmd (by rw [hpc]; rfl) (by rw [hpc]; rfl) hguard
      exact hunlinked.ends hcmd (by rw [hpc]; rfl)
  | spawn =>
      simp only [Daemon.run, hpc] at hrun
      split at hrun
      · cases hrun
        exact h.ends hcmd (by rw [hpc]; rfl)
      · split at hrun
        · cases hrun
        · cases hrun
          exact h.spawn hcmd hpc ‹_›
  | recordStat child =>
      simp only [Daemon.run, hpc] at hrun
      cases hrun
      exact h.recordStat hcmd hpc
  | recordOpen child record =>
      simp only [Daemon.run, hpc] at hrun
      rw [hpc] at hguard
      split at hrun
      · rename_i hfile
        cases hrun
        have hclaimed : Claimed s c := by
          obtain ⟨mine, hmine, hrole⟩ :=
            h.tracked.childProc c cmd child hcmd (by rw [hpc, Pc.child])
          exact h.tracked.spawned child mine c hmine hrole
        refine (h.create hfile hclaimed).opened hcmd hpc ?_ fun _ => rfl
        intro o ho
        cases ho
        exact ⟨hclaimed, Or.inl rfl⟩
      · rename_i file hfile
        cases hrun
        refine (h.truncate hcmd (by rw [hpc]; rfl) hguard hfile).opened hcmd hpc ?_ ?_
        · intro o ho
          refine ⟨h.filed.owned file hfile o ho, ?_⟩
          by_cases hoc : o = c
          · exact Or.inl hoc
          · exact Or.inr (hguard file hfile o ho hoc)
        · intro hlive
          obtain ⟨file', hfile', howner⟩ := h.filed.held c hlive
          rw [hfile, Option.some.injEq] at hfile'
          rw [hfile', howner]
  | recordWrite child record handle =>
      simp only [Daemon.run, hpc] at hrun
      cases hrun
      exact h.recordWrite hcmd hpc
  | awaitReady child =>
      simp only [Daemon.run, hpc] at hrun
      split at hrun
      · cases hrun
        refine h.goto hcmd rfl (by rw [hpc]; rfl) (fun _ => rfl) ?_ (by rw [hpc]; rfl) rfl
        intro hpending
        cases hpending
      · split at hrun
        · cases hrun
          exact h.reap hcmd (by rw [hpc]; rfl)
        · split at hrun
          · cases hrun
            exact h.ends hcmd (by rw [hpc]; rfl)
          · cases hrun
            exact h
  | abandon child =>
      simp only [Daemon.run, hpc] at hrun
      cases hrun
      refine h.goto hcmd rfl (by rw [hpc]; rfl) (fun _ => rfl) ?_ (by rw [hpc]; rfl) rfl
      intro hpending
      cases hpending
  | abandonWait child =>
      simp only [Daemon.run, hpc] at hrun
      split at hrun
      · cases hrun
        exact h.reap hcmd (by rw [hpc]; rfl)
      · cases hrun
        exact h
  | unlinkAbandoned =>
      simp only [Daemon.run, hpc] at hrun
      rw [hpc] at hguard
      cases hrun
      have hunlinked := h.unlinks hcmd (by rw [hpc]; rfl) (by rw [hpc]; rfl) hguard
      exact hunlinked.ends hcmd (by rw [hpc]; rfl)
  | term pid =>
      simp only [Daemon.run, hpc] at hrun
      rw [hpc] at hguard
      cases hrun
      refine (h.terminate hguard).resume ?_ (by rw [hpc]; rfl) ?_ ?_ (by rw [hpc]; rfl) rfl
      · rw [← hcmd]
        exact commands_terminate pid c
      · rw [hpc]
        exact id
      · intro hpending
        cases hpending
  | awaitTerm pid =>
      simp only [Daemon.run, hpc] at hrun
      cases hrun
      exact h.roam hcmd rfl (by rw [hpc]; rfl) ⟨rfl, rfl, rfl⟩
  | kill pid =>
      simp only [Daemon.run, hpc] at hrun
      rw [hpc] at hguard
      cases hrun
      refine (h.die hguard).resume ?_ (by rw [hpc]; rfl) ?_ ?_ (by rw [hpc]; rfl) rfl
      · rw [← hcmd]
        exact commands_die pid c
      · rw [hpc]
        exact id
      · intro hpending
        cases hpending
  | awaitKill pid =>
      simp only [Daemon.run, hpc] at hrun
      cases hrun
      exact h.roam hcmd rfl (by rw [hpc]; rfl) ⟨rfl, rfl, rfl⟩
  | unlinkStopped =>
      simp only [Daemon.run, hpc] at hrun
      rw [hpc] at hguard
      cases hrun
      have hunlinked := h.unlinks hcmd (by rw [hpc]; rfl) (by rw [hpc]; rfl) hguard
      exact hunlinked.stopped hcmd (by rw [hpc]; rfl) (by rw [hpc]; rfl)

theorem Sound.tick (h : Sound procReadable s) :
    Sound procReadable { s with clock := s.clock + 1 } where
  tracked := { h.tracked with }
  filed := { h.filed with }
  written := { h.written with }

/-- Every step the guard admits keeps the invariant. -/
theorem Sound.step
    {act : Act}
    (h : Sound procReadable s)
    (hguard : admitted procReadable s act)
    (hstep : step procReadable s act = some t) :
    Sound procReadable t := by
  cases act with
  | tick =>
      cases hstep
      exact h.tick
  | begin verb pid =>
      simp only [Daemon.step] at hstep
      split at hstep
      · cases hstep
      · cases hstep
        cases verb with
        | start => exact h.begin ‹_› rfl rfl rfl
        | stop => exact h.begin ‹_› rfl rfl rfl
        | restart => exact h.begin ‹_› rfl rfl rfl
  | go c answer =>
      simp only [Daemon.step] at hstep
      split at hstep
      · cases hstep
      · rename_i cmd hcmd
        exact h.run hcmd (hguard cmd hcmd) hstep
  | exits pid =>
      simp only [Daemon.step] at hstep
      split at hstep
      · cases hstep
      · rename_i process hnot hprocess
        cases hstep
        refine h.die fun process' hprocess' d hrole => ?_
        rw [Option.mem_def, hprocess, Option.some.injEq] at hprocess'
        subst hprocess'
        exact absurd hprocess (by
          obtain ⟨started, role, zombie⟩ := process
          cases hrole
          exact fun _ => hnot started d zombie rfl)
      · cases hstep
  | other pid =>
      simp only [Daemon.step] at hstep
      split at hstep
      · cases hstep
      · cases hstep
        exact h.other ‹_› hguard

/-- A fresh container is sound, whatever record it finds. -/
theorem Sound.initial
    (h : (machine procReadable).start s) :
    Sound procReadable s := by
  obtain ⟨hprocs, hcommands, hbegun, howner⟩ := h
  have hproc : ∀ p process, s.procs p ≠ some process := by
    intro p process hprocess
    rw [hprocs] at hprocess
    cases hprocess
  have hcommand : ∀ d cmd', s.commands d ≠ some cmd' := by
    intro d cmd' hcmd'
    rw [hcommands] at hcmd'
    cases hcmd'
  have hlive : ∀ o, ¬Live s o := by
    rintro o (⟨cmd', hcmd', -⟩ | ⟨p, process, hprocess, -⟩)
    · exact hcommand o cmd' hcmd'
    · exact hproc p process hprocess
  exact
    { tracked :=
        { fresh := fun d _ => by rw [hcommands]
          commandProc := fun d cmd' hcmd' => absurd hcmd' (hcommand d cmd')
          procCommand := fun p process d hprocess => absurd hprocess (hproc p process)
          childProc := fun d cmd' p hcmd' => absurd hcmd' (hcommand d cmd')
          procChild := fun p process d cmd' hprocess => absurd hprocess (hproc p process)
          zombie := fun p process hprocess => absurd hprocess (hproc p process)
          spawned := fun p process d hprocess => absurd hprocess (hproc p process) }
      filed :=
        { owned := fun file hfile o ho => by
            rw [hfile, Option.bind_some, ho] at howner
            cases howner
          handled := fun d cmd' child record o hcmd' => absurd hcmd' (hcommand d cmd')
          writer := fun d cmd' child record handle hcmd' => absurd hcmd' (hcommand d cmd')
          held := fun o ho => absurd ho (hlive o) }
      written :=
        { recorded := fun p process d hprocess => absurd hprocess (hproc p process)
          opening := fun d cmd' child record hcmd' => absurd hcmd' (hcommand d cmd')
          writing := fun d cmd' child record handle hcmd' => absurd hcmd' (hcommand d cmd')
          others := fun p process record hprocess => absurd hprocess (hproc p process) } }

end Steps

/-! ## What the records say between commands -/

section Truth

variable {procReadable : Bool} {s : State}

/-- Process `p` is a daemon of the skill that runs. -/
def Running (s : State) (p : Nat) : Prop := ∃ c, Runs s c p

/-- At most one daemon runs, and `live_pid` answers its pid exactly when one does. -/
structure Truthful (procReadable : Bool) (s : State) : Prop where
  one : ∀ p q, Running s p → Running s q → p = q
  live : ∀ p, livePid procReadable s = some p ↔ Running s p

/-- The record of a process is taken for that process. -/
theorem isRecorded_recordOf (p : Nat) (process : Process) :
    isRecorded procReadable (recordOf procReadable p (some process)) process = true := by
  rw [isRecorded, recordOf]
  cases procReadable with
  | true => simp
  | false => rfl

/-- Between commands the record is that of the daemon that runs. -/
theorem Sound.record_of_runs
    (h : Sound procReadable s)
    (hidle : ∀ c, s.commands c = none)
    {c p : Nat} {process : Process}
    (hprocess : s.procs p = some process)
    (hrole : process.role = .daemon c)
    (hzombie : process.zombie = false) :
    s.file.bind File.content = some (recordOf procReadable p (some process)) := by
  rcases h.written.recorded p process c hprocess hrole hzombie with ⟨cmd, hcmd, -⟩ | hcontent
  · rw [hidle c] at hcmd
    cases hcmd
  · exact hcontent

theorem livePid_eq_some_iff (p : Nat) :
    livePid procReadable s = some p ↔
      ∃ record process, s.file.bind File.content = some record ∧ record.pid = p ∧
        s.procs p = some process ∧ isRecorded procReadable record process = true := by
  rw [livePid]
  simp only [Option.bind_eq_bind, Option.bind_eq_some_iff, Option.ite_none_right_eq_some,
    Option.some.injEq]
  constructor
  · rintro ⟨file, hfile, record, hcontent, process, hprocess, hrecorded, rfl⟩
    exact ⟨record, process, ⟨file, hfile, hcontent⟩, rfl, hprocess, hrecorded⟩
  · rintro ⟨record, process, ⟨file, hfile, hcontent⟩, rfl, hprocess, hrecorded⟩
    exact ⟨file, hfile, record, hcontent, process, hprocess, hrecorded, rfl⟩

/-- Between commands a sound state is truthful. -/
theorem Sound.truthful
    (h : Sound procReadable s)
    (hidle : ∀ c, s.commands c = none) :
    Truthful procReadable s where
  one := by
    rintro p q ⟨c, process, hprocess, hrole, hzombie⟩ ⟨d, other, hother, hrole', hzombie'⟩
    have hp := h.record_of_runs hidle hprocess hrole hzombie
    have hq := h.record_of_runs hidle hother hrole' hzombie'
    rw [hp, Option.some.injEq] at hq
    exact congrArg Record.pid hq
  live p := by
    rw [livePid_eq_some_iff]
    constructor
    · rintro ⟨record, process, hcontent, hpid, hprocess, hrecorded⟩
      have hzombie : process.zombie = false := by
        rw [← Bool.not_eq_true]
        intro hzombie
        obtain ⟨c, -, hsome⟩ := h.tracked.zombie p process hprocess hzombie
        rw [hidle c] at hsome
        cases hsome
      cases hrole : process.role with
      | command c =>
          obtain ⟨cmd, hcmd, -⟩ := h.tracked.procCommand p process c hprocess hrole
          rw [hidle c] at hcmd
          cases hcmd
      | daemon c => exact ⟨c, process, hprocess, hrole, hzombie⟩
      | other =>
          rw [h.written.others p process record hprocess hrole hcontent hpid] at hrecorded
          cases hrecorded
    · rintro ⟨c, process, hprocess, hrole, hzombie⟩
      exact ⟨_, process, h.record_of_runs hidle hprocess hrole hzombie, rfl, hprocess,
        isRecorded_recordOf p process⟩

end Truth

/-! ## A start on its own, and a stop in the middle of a start -/

section Concrete

/-- A fresh container without a record. -/
def fresh : State where
  clock := 0
  file := none
  procs := fun _ => none
  commands := fun _ => none
  begun := 0

/-- Command `c` takes a step that is answered. -/
def answered (c : Nat) : Act := .go c { answers := true, child := 20 }

/-- A start that brings its daemon up as process 20. -/
def startRun : List Act := .begin .start 10 :: List.replicate 9 (answered 0)

theorem admitted_go
    {procReadable : Bool} {s : State} {c : Nat} {cmd : Command} {answer : Answer}
    (hcmd : s.commands c = some cmd)
    (hguard : cmd.pc.guard s c) :
    admitted procReadable s (.go c answer) := by
  intro cmd' hcmd'
  rw [hcmd, Option.some.injEq] at hcmd'
  exact hcmd' ▸ hguard

/-- A stop reads the record while a start that is to spawn its daemon holds it, and signals
that start once the daemon is spawned. -/
def stopRun : List Act :=
  .begin .start 10 :: List.replicate 3 (answered 0) ++
    .begin .stop 11 :: List.replicate 3 (answered 1) ++
      List.replicate 2 (answered 0) ++ List.replicate 5 (answered 1)

end Concrete

end Daemon
end Reminders
end Vesta
