import Vesta.Lib.Pool

/-!
# The repository passphrase

Every agent has a restic repository of its own, and all of them are encrypted
with one passphrase that the first backup creates.  Before each restic command
the gateway checks that the passphrase file exists and creates it if not: it
reads random bytes, opens the file for writing, which truncates it, and writes.
Then restic starts and reads the file.  Operations on different agents are not
serialized, so these steps interleave.

Restic is modelled by its documented behaviour: a repository opens with the
passphrase it was initialized with and no other, an initialized repository is
not initialized again, and an empty passphrase is refused.
-/

namespace Vesta
namespace Vestad
namespace Passphrase

open Lib
open Prog

/-- The restic commands of a first backup. -/
inductive Subcommand
  | catConfig
  | init
  | snapshots
  | backup
deriving DecidableEq

/-- The requests of a backup operation, each one a step of its own. -/
inductive Call
  | ensureRestic
  | passwordExists
  | createConfigDir
  | readUrandom
  | openPassword
  | writePassword (hex : String)
  | setPermissions
  | spawnRestic
  | restic (command : Subcommand) (name password : String)
  | readyRepoRoot
  | createRepoDir (name : String)

/-- Random bytes and a started restic come with what was read; the rest say whether they worked. -/
abbrev Answer : Call → Type
  | .readUrandom => Option String
  | .spawnRestic => Option String
  | _ => Bool

abbrev Op : Type → Type := Prog Answer String

/-- One call. -/
abbrev ask (c : Call) : Op (Answer c) := request c

/-- Go on after a call that worked. -/
def orFail (message : String) (worked : Bool) : Op Unit :=
  if worked then pure () else fail message

/-- Generate the passphrase once. -/
def ensurePassword : Op Unit := do
  let found ← ask .passwordExists
  if found then
    pure ()
  else
    ask .createConfigDir >>= orFail "failed to create config dir"
    match (← ask .readUrandom : Option String) with
    | none => fail "failed to read /dev/urandom"
    | some hex =>
        ask .openPassword >>= orFail "failed to write restic password"
        ask (.writePassword hex) >>= orFail "failed to write restic password"
        ask .setPermissions >>= orFail "failed to chmod restic password"

/-- What precedes every restic process. -/
def resticCommand : Op Unit := do
  ask .ensureRestic >>= orFail "restic not found"
  ensurePassword

/-- Start restic, which reads the passphrase file, and run a command on a repository. -/
def runRestic (command : Subcommand) (name : String) : Op Bool := do
  match (← ask .spawnRestic : Option String) with
  | none => pure false
  | some password => ask (.restic command name password)

def runResticCapture (command : Subcommand) (name label : String) : Op Unit := do
  resticCommand
  runRestic command name >>= orFail ("restic " ++ label ++ " failed")

/-- Initialize the agent's repository if it does not already exist. -/
def ensureRepo (name : String) : Op Unit := do
  resticCommand
  let found ← runRestic .catConfig name
  if found then
    pure ()
  else
    ask .readyRepoRoot >>= orFail "failed to create repo root"
    ask (.createRepoDir name) >>= orFail "failed to create repo dir"
    runResticCapture .init name "init"

def list (name : String) : Op Unit := do
  ensureRepo name
  runResticCapture .snapshots name "snapshots"

def snapshot (name : String) : Op Unit := do
  ensureRepo name
  runResticCapture .backup name "backup"

/-- The operations in progress, one task each. -/
inductive Operation
  | list (name : String)
  | snapshot (name : String)

def Operation.prog : Operation → Op Unit
  | .list name => Passphrase.list name
  | .snapshot name => Passphrase.snapshot name

/-- The passphrase file, and for each initialized repository the passphrase that opens it. -/
structure World where
  password : Option String
  repos : Map String String

structure Tick where
  outcome : Outcome
  /-- The bytes the generator gives, in hex. -/
  drawn : String
  /-- What of the passphrase reached the file when its write fails. -/
  written : String

def exec : Answers Answer World Tick
  | w, .passwordExists, _ => (w.password.isSome, w)
  | w, .readUrandom, t => (if t.outcome = .failed then none else some t.drawn, w)
  | w, .openPassword, t =>
      if t.outcome = .failed then (false, w) else (t.outcome = .ok, { w with password := some "" })
  | w, .writePassword hex, t =>
      if t.outcome = .failed then (false, { w with password := some t.written })
      else (t.outcome = .ok, { w with password := some hex })
  | w, .spawnRestic, t => (if t.outcome = .failed then none else w.password, w)
  | w, .restic .init name password, t =>
      if t.outcome = .failed ∨ password = "" ∨ name ∈ w.repos then (false, w)
      else (t.outcome = .ok, { w with repos := w.repos.insert name password })
  | w, .restic .catConfig name password, t =>
      (t.outcome = .ok ∧ password ≠ "" ∧ w.repos[name]? = some password, w)
  | w, .restic .snapshots name password, t =>
      (t.outcome = .ok ∧ password ≠ "" ∧ w.repos[name]? = some password, w)
  | w, .restic .backup name password, t =>
      (t.outcome = .ok ∧ password ≠ "" ∧ w.repos[name]? = some password, w)
  | w, .ensureRestic, t => (t.outcome = .ok, w)
  | w, .createConfigDir, t => (t.outcome = .ok, w)
  | w, .setPermissions, t => (t.outcome = .ok, w)
  | w, .readyRepoRoot, t => (t.outcome = .ok, w)
  | w, .createRepoDir _, t => (t.outcome = .ok, w)

attribute [grind =] exec

abbrev State : Type := Pool Answer String Unit World

/-- All interleavings of operations from a gateway that has made no backup yet. -/
def machine : Machine State (PoolLabel Operation Tick) :=
  Pool.machine (fun w => w.password = none ∧ w.repos = ∅) (fun _ _ => true) (fun _ _ => true)
    exec Operation.prog

/-- Every initialized repository opens with the passphrase file as it stands. -/
def OnePassphrase (s : State) : Prop :=
  ∀ (name password : String),
    s.world.repos[name]? = some password → s.world.password = some password

/-- A task that is about to truncate or to write the passphrase file. -/
def createsPassword : Op Unit → Bool
  | .call .openPassword _ => true
  | .call (.writePassword _) _ => true
  | _ => false

/-- A restic that is about to initialize a repository with the passphrase it has read. -/
def initializes : Op Unit → Bool
  | .call (.restic .init _ password) _ => password != ""
  | _ => false

/-- No repository is initialized and none is being initialized with a passphrase read before. -/
def Unused (s : State) : Prop :=
  s.world.repos.toList = [] ∧ ∀ e ∈ s.tasks.toList, initializes e.2 = false

/-- The passphrase file is truncated or written only while its passphrase is unused. -/
def CreatedOnce (s : State) : PoolLabel Operation Tick → Prop
  | .step id _ => ∀ p ∈ s.tasks[id]?, createsPassword p = true → Unused s
  | .spawn .. => True
  | .kill _ => True

instance (s : State) : Decidable (Unused s) :=
  inferInstanceAs (Decidable (_ ∧ _))

instance decidableCreatedOnce (s : State) : ∀ label, Decidable (CreatedOnce s label)
  | .step id _ =>
      inferInstanceAs
        (Decidable (∀ p ∈ s.tasks[id]?, createsPassword p = true → Unused s))
  | .spawn .. | .kill _ => isTrue trivial

/-! ## What is read before a repository is initialized -/

def isInit : Call → Bool
  | .restic .init _ _ => true
  | _ => false

/-- Right before a repository is initialized, restic has read the passphrase it uses. -/
def readThenInit : (c : Call) → Answer c → Call → Prop
  | .spawnRestic, read, .restic .init _ password => read = some password
  | _, _, c' => isInit c' = false

theorem readThenInit_of_not_isInit
    {c c' : Call} {r : Answer c}
    (h : isInit c' = false) :
    readThenInit c r c' := by
  unfold readThenInit
  split
  · cases h
  · exact h

/-- A program that reads the passphrase before it initializes a repository. -/
def Reads {α : Type} (p : Op α) : Prop := Consecutive readThenInit p

/-- The rest of a sequence reads the passphrase and does not start by initializing. -/
def ReadsFirst {α : Type} (p : Op α) : Prop :=
  Reads p ∧ ∀ c ∈ p.next, isInit c = false

section Reads

variable {α β : Type}

theorem reads_bind
    {p : Op α} {f : α → Op β}
    (hp : Reads p)
    (hf : ∀ a, ReadsFirst (f a)) :
    Reads (p >>= f) :=
  consecutive_bind hp (fun a => (hf a).1)
    fun a c' hc' _ _ => readThenInit_of_not_isInit ((hf a).2 c' hc')

theorem readsFirst_pure (a : α) : ReadsFirst (pure a : Op α) :=
  ⟨trivial, by simp [Prog.next, pure]⟩

theorem readsFirst_fail (message : String) : ReadsFirst (fail message : Op α) :=
  ⟨trivial, by simp [Prog.next, fail]⟩

theorem readsFirst_orFail (message : String) (worked : Bool) :
    ReadsFirst (orFail message worked) := by
  cases worked with
  | true => exact readsFirst_pure ()
  | false => exact readsFirst_fail message

theorem readsFirst_bind
    {p : Op α} {f : α → Op β}
    (hp : ReadsFirst p)
    (hf : ∀ a, ReadsFirst (f a)) :
    ReadsFirst (p >>= f) := by
  refine ⟨reads_bind hp.1 hf, ?_⟩
  intro c hc
  cases p with
  | ret r =>
      cases r with
      | ok a => exact (hf a).2 c hc
      | error e => cases hc
  | call d k => exact hp.2 c hc

theorem readsFirst_ask
    {c : Call}
    (hc : isInit c = false) :
    ReadsFirst (ask c) := by
  refine ⟨fun _ => ⟨by simp [Prog.next], trivial⟩, ?_⟩
  intro c' hc'
  cases hc'
  exact hc

theorem readsFirst_ensurePassword : ReadsFirst ensurePassword := by
  refine readsFirst_bind (readsFirst_ask rfl) fun found => ?_
  cases found with
  | true => exact readsFirst_pure ()
  | false =>
      refine readsFirst_bind
        (readsFirst_bind (readsFirst_ask rfl) (readsFirst_orFail _)) fun _ => ?_
      refine readsFirst_bind (readsFirst_ask rfl) fun drawn => ?_
      cases drawn with
      | none => exact readsFirst_fail _
      | some hex =>
          refine readsFirst_bind
            (readsFirst_bind (readsFirst_ask rfl) (readsFirst_orFail _)) fun _ => ?_
          refine readsFirst_bind
            (readsFirst_bind (readsFirst_ask rfl) (readsFirst_orFail _)) fun _ => ?_
          exact readsFirst_bind (readsFirst_ask rfl) (readsFirst_orFail _)

theorem readsFirst_resticCommand : ReadsFirst resticCommand :=
  readsFirst_bind (readsFirst_bind (readsFirst_ask rfl) (readsFirst_orFail _))
    fun _ => readsFirst_ensurePassword

/-- The one place where a repository is initialized: restic has just read the passphrase. -/
theorem readsFirst_runRestic (command : Subcommand) (name : String) :
    ReadsFirst (runRestic command name) := by
  constructor
  · intro read
    cases read with
    | none => exact ⟨fun _ hc' => (by cases hc'), trivial⟩
    | some password =>
        refine ⟨?_, fun _ => ⟨by simp [Prog.next], trivial⟩⟩
        intro c' hc'
        cases hc'
        cases command with
        | init => exact rfl
        | catConfig | snapshots | backup => exact readThenInit_of_not_isInit rfl
  · intro c hc
    cases hc
    rfl

theorem readsFirst_runResticCapture (command : Subcommand) (name label : String) :
    ReadsFirst (runResticCapture command name label) :=
  readsFirst_bind readsFirst_resticCommand fun _ =>
    readsFirst_bind (readsFirst_runRestic command name) (readsFirst_orFail _)

theorem readsFirst_ensureRepo (name : String) : ReadsFirst (ensureRepo name) := by
  refine readsFirst_bind readsFirst_resticCommand fun _ => ?_
  refine readsFirst_bind (readsFirst_runRestic .catConfig name) fun found => ?_
  cases found with
  | true => exact readsFirst_pure ()
  | false =>
      refine readsFirst_bind
        (readsFirst_bind (readsFirst_ask rfl) (readsFirst_orFail _)) fun _ => ?_
      refine readsFirst_bind
        (readsFirst_bind (readsFirst_ask rfl) (readsFirst_orFail _)) fun _ => ?_
      exact readsFirst_runResticCapture .init name "init"

theorem readsFirst_prog (op : Operation) : ReadsFirst op.prog := by
  cases op with
  | list name =>
      exact readsFirst_bind (readsFirst_ensureRepo name) fun _ =>
        readsFirst_runResticCapture .snapshots name "snapshots"
  | snapshot name =>
      exact readsFirst_bind (readsFirst_ensureRepo name) fun _ =>
        readsFirst_runResticCapture .backup name "backup"

end Reads

/-! ## The invariant -/

/-- What holds of the world: the passphrase file opens every repository. -/
def WorldInv (w : World) : Prop :=
  ∀ (name password : String),
    w.repos[name]? = some password → w.password = some password

/-- What holds of a task: it reads before it initializes, and a passphrase it is about to
initialize with is the one in the file. -/
def TaskInv (p : Op Unit) (w : World) : Prop :=
  Reads p ∧
    ∀ name password,
      p.next = some (.restic .init name password) → password ≠ "" →
      w.password = some password

/-- Nothing is asked of two tasks together. -/
def NoPair (_ _ : Op Unit) : Prop := True

theorem initializes_of_next
    {p : Op Unit} {name password : String}
    (h : p.next = some (.restic .init name password))
    (hne : password ≠ "") :
    initializes p = true := by
  cases p with
  | ret r => cases h
  | call c k =>
      cases h
      simp [initializes, hne]

/-- Only the two steps that create the passphrase change the file. -/
theorem exec_password
    {w : World} {c : Call} {t : Tick} {k : Answer c → Op Unit}
    (h : createsPassword (.call c k) = false) :
    (exec w c t).2.password = w.password := by
  cases c with
  | openPassword | writePassword => cases h
  | restic command name password =>
      cases command with
      | init =>
          simp only [exec]
          split <;> rfl
      | catConfig | snapshots | backup => rfl
  | ensureRestic | passwordExists | createConfigDir | readUrandom | setPermissions
  | spawnRestic | readyRepoRoot | createRepoDir => rfl

/-- Only an initialization changes the repositories. -/
theorem exec_repos
    {w : World} {c : Call} {t : Tick}
    (h : isInit c = false) :
    (exec w c t).2.repos = w.repos := by
  cases c with
  | openPassword | writePassword =>
      simp only [exec]
      split <;> rfl
  | restic command name password =>
      cases command with
      | init => cases h
      | catConfig | snapshots | backup => rfl
  | ensureRestic | passwordExists | createConfigDir | readUrandom | setPermissions
  | spawnRestic | readyRepoRoot | createRepoDir => rfl

/-- An initialization adds one repository with the passphrase restic has read. -/
theorem exec_init
    (w : World) (name password : String) (t : Tick) :
    (exec w (.restic .init name password) t).2 = w ∨
      password ≠ "" ∧ name ∉ w.repos ∧
        (exec w (.restic .init name password) t).2 =
          { w with repos := w.repos.insert name password } := by
  simp only [exec]
  split
  · exact .inl rfl
  · rename_i h
    simp only [not_or] at h
    exact .inr ⟨h.2.1, h.2.2, rfl⟩

theorem worldInv_of_unused
    {s : State}
    (h : Unused s)
    {c : Call} (hc : isInit c = false) (t : Tick) :
    WorldInv (exec s.world c t).2 := by
  intro name password hrepo
  rw [exec_repos hc] at hrepo
  have hmem : (name, password) ∈ s.world.repos.toList :=
    Std.ExtTreeMap.mem_toList_iff_getElem?_eq_some.2 hrepo
  rw [h.1] at hmem
  cases hmem

theorem isInit_of_createsPassword
    {c : Call} {k : Answer c → Op Unit}
    (h : createsPassword (.call c k) = true) :
    isInit c = false := by
  cases c with
  | restic => cases h
  | _ => rfl

theorem worldInv_step
    {s : State} {id : Nat} {t : Tick} {c : Call} {k : Answer c → Op Unit}
    (hs : Pool.Holds WorldInv TaskInv NoPair s)
    (hok : CreatedOnce s (.step id t))
    (hp : s.tasks[id]? = some (.call c k)) :
    WorldInv (exec s.world c t).2 := by
  by_cases hcreate : createsPassword (.call c k) = true
  · exact worldInv_of_unused (hok _ hp hcreate) (isInit_of_createsPassword hcreate) t
  · have hpassword := exec_password (w := s.world) (t := t) (Bool.eq_false_iff.2 hcreate)
    intro name password hrepo
    rw [hpassword]
    by_cases hinit : isInit c = true
    · cases c with
      | restic command repo password' =>
          cases command with
          | init =>
              rcases exec_init s.world repo password' t with heq | ⟨hne, -, heq⟩
              · rw [heq] at hrepo
                exact hs.world name password hrepo
              · rw [heq, Std.ExtTreeMap.getElem?_insert] at hrepo
                split at hrepo
                · cases hrepo
                  exact (hs.task id _ hp).2 repo password rfl hne
                · exact hs.world name password hrepo
          | catConfig | snapshots | backup => cases hinit
      | _ => cases hinit
    · rw [exec_repos (Bool.eq_false_iff.2 hinit)] at hrepo
      exact hs.world name password hrepo

theorem taskInv_step
    {s : State} {id : Nat} {t : Tick} {c : Call} {k : Answer c → Op Unit}
    (hs : Pool.Holds WorldInv TaskInv NoPair s)
    (hp : s.tasks[id]? = some (.call c k)) :
    TaskInv (k (exec s.world c t).1) (exec s.world c t).2 := by
  have hreads := (hs.task id _ hp).1 (exec s.world c t).1
  refine ⟨hreads.2, ?_⟩
  intro name password hnext _
  have hread := hreads.1 _ hnext
  cases c with
  | spawnRestic =>
      simp only [exec, readThenInit] at hread ⊢
      split at hread
      · cases hread
      · exact hread
  | _ => cases hread

theorem taskInv_other
    {s : State} {id : Nat} {t : Tick} {c : Call} {k : Answer c → Op Unit}
    {j : Nat} {p : Op Unit}
    (hs : Pool.Holds WorldInv TaskInv NoPair s)
    (hok : CreatedOnce s (.step id t))
    (hp : s.tasks[id]? = some (.call c k))
    (hj : s.tasks[j]? = some p) :
    TaskInv p (exec s.world c t).2 := by
  obtain ⟨hreads, hfile⟩ := hs.task j p hj
  refine ⟨hreads, ?_⟩
  intro name password hnext hne
  by_cases hcreate : createsPassword (.call c k) = true
  · have hunused := (hok _ hp hcreate).2 (j, p)
      (Std.ExtTreeMap.mem_toList_iff_getElem?_eq_some.2 hj)
    rw [initializes_of_next hnext hne] at hunused
    cases hunused
  · rw [exec_password (Bool.eq_false_iff.2 hcreate)]
    exact hfile name password hnext hne

theorem holds_of_reaches
    {s : State}
    (h : machine.Reaches CreatedOnce s) :
    Pool.Holds WorldInv TaskInv NoPair s := by
  refine Pool.Reaches.invariant ?_ (fun _ _ h => h) ?_ ?_ ?_ h
  · rintro w ⟨-, hrepos⟩ name password hrepo
    simp [hrepos] at hrepo
  · intro s id op _ _ _
    refine ⟨⟨(readsFirst_prog op).1, ?_⟩, fun _ _ _ => trivial⟩
    intro name password hnext
    cases (readsFirst_prog op).2 _ hnext
  · intro s id t c k hs hok hp _
    exact ⟨worldInv_step hs hok hp, taskInv_step hs hp, fun _ _ _ _ => trivial⟩
  · intro s id t c k j p hs hok hp _ _ hj
    exact taskInv_other hs hok hp hj

/-- An initialized repository keeps its passphrase. -/
theorem repos_step
    {s t : State} {label : PoolLabel Operation Tick} {name password : String}
    (h : s.world.repos[name]? = some password)
    (hstep : machine.step s label = some t) :
    t.world.repos[name]? = some password := by
  cases label with
  | spawn id op =>
      obtain ⟨-, rfl⟩ := Pool.step_spawn (fun _ _ => true) (fun _ _ => true) exec Operation.prog hstep
      exact h
  | step id tick =>
      obtain ⟨c, k, -, -, rfl⟩ :=
        Pool.step_step (fun _ _ => true) (fun _ _ => true) exec Operation.prog hstep
      by_cases hinit : isInit c = true
      · cases c with
        | restic command repo password' =>
            cases command with
            | init =>
                rcases exec_init s.world repo password' tick with heq | ⟨-, hnew, heq⟩
                · rw [heq]
                  exact h
                · rw [heq, Std.ExtTreeMap.getElem?_insert]
                  split
                  · rename_i hsame
                    have hsame' : repo = name := by simpa using hsame
                    rw [hsame', Std.ExtTreeMap.mem_iff_isSome_getElem?, h] at hnew
                    exact absurd rfl hnew
                  · exact h
            | catConfig | snapshots | backup => cases hinit
        | _ => cases hinit
      · rw [exec_repos (Bool.eq_false_iff.2 hinit)]
        exact h
  | kill id =>
      cases hstep
      exact h

def fresh : State where
  world := { password := none, repos := ∅ }
  tasks := ∅

/-- A call of a task that works; what it draws is named after the task. -/
def work (id : Nat) (drawn : String) (calls : Nat) : List (PoolLabel Operation Tick) :=
  List.replicate calls (.step id { outcome := .ok, drawn := drawn, written := "" })

/-- One backup, and after it the backups of another agent are listed. -/
def inTurnRun : List (PoolLabel Operation Tick) :=
  [.spawn 0 (.snapshot "a")] ++ work 0 "p0" 19 ++ [.spawn 1 (.list "b")] ++ work 1 "p1" 14

/-- Two first backups that both find no passphrase file: the second to write it locks the
first one's repository. -/
def racingRun : List (PoolLabel Operation Tick) :=
  [.spawn 0 (.snapshot "a"), .spawn 1 (.snapshot "b")] ++
    work 0 "p0" 2 ++ work 1 "p1" 15 ++ work 0 "p0" 4

end Passphrase
end Vestad
end Vesta
