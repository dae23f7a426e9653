import Vesta.Lib.Machine
import Mathlib.Data.List.Basic

/-!
# Pairing a box with a Vesta Cloud account

The pairing in flight and the account link are two files, shared by the
handlers of the daemon and by `vestad login` and `vestad logout`, which are
processes of their own.  The pair and poll handlers exclude each other by a lock
of the daemon; the unpair handler and the commands take no lock.

A flow is a sequence of phases, each of which ends with one call: a read, a
write, a rename or a removal of a file, an exchange with the control plane, or
a look at the clock.  The machine interleaves the flows call by call with the
control plane, the owner and the clock.  A flow may end at any phase, as it
does when its process crashes or its request is cancelled.

The box is not managed by Vesta Cloud.  Reads do not fail, and the device codes
the control plane hands out are new.
-/

namespace Vesta
namespace Vestad
namespace VestaCloud

open Lib

/-- What is found under a path. -/
inductive File (α : Type)
  | missing
  | corrupt
  | holds (value : α)
deriving DecidableEq

/-- Missing = none, corrupt = warn + none. -/
def File.load {α : Type} : File α → Option α
  | .holds value => some value
  | _ => none

@[simp] theorem File.load_holds {α : Type} (a : α) : (File.holds a).load = some a := rfl

@[simp] theorem File.load_missing {α : Type} : (File.missing : File α).load = none := rfl

@[simp] theorem File.load_corrupt {α : Type} : (File.corrupt : File α).load = none := rfl

/-- `VestaCloudAccount`. -/
structure Account where
  serverId : String
  controlUrl : String
deriving DecidableEq

/-- `PairStartResponse`. -/
structure PairStart where
  userCode : String
  verificationUrl : String
  deviceCode : String
  interval : Nat
  expiresIn : Nat

/-- `VestaCloudPairing`. -/
structure Pairing where
  deviceCode : String
  userCode : String
  verificationUrl : String
  interval : Nat
  expiresAtEpochSecs : Nat
deriving DecidableEq

def Pairing.isExpired (p : Pairing) (now : Nat) : Bool :=
  decide (p.expiresAtEpochSecs ≤ now)

/-- The pairing a fresh start opens, as the box reads the clock. -/
def PairStart.pairing (start : PairStart) (now : Nat) : Pairing where
  deviceCode := start.deviceCode
  userCode := start.userCode
  verificationUrl := start.verificationUrl
  interval := start.interval
  expiresAtEpochSecs := now + start.expiresIn

/-- What the control plane knows of a device code it has handed out. -/
inductive CodeState
  | opened (expiresAt : Nat)
  | approved (account : Account)
  /-- Approved, and the registration has been retired since. -/
  | retired (account : Account)
  | declined
deriving DecidableEq

/-- What all flows share: the clock, the files of the config directory with the temporary files
of their writes, the codes of the control plane, and the codes their owner has been shown. -/
structure Shared where
  now : Nat
  pairing : File Pairing
  account : File Account
  pairingTmp : File Pairing
  accountTmp : File Account
  codes : String → Option CodeState
  shown : String → Bool

namespace Shared

/-- The owner may still approve the code. -/
def Approvable (s : Shared) (code : String) : Prop :=
  match s.codes code with
  | some (.opened expiresAt) => s.now < expiresAt
  | _ => False

instance (s : Shared) (code : String) : Decidable (s.Approvable code) :=
  match h : s.codes code with
  | some (.opened expiresAt) =>
      decidable_of_iff (s.now < expiresAt) (by simp only [Approvable, h])
  | some (.approved _) => isFalse (by simp only [Approvable, h, not_false_eq_true])
  | some (.retired _) => isFalse (by simp only [Approvable, h, not_false_eq_true])
  | some .declined => isFalse (by simp only [Approvable, h, not_false_eq_true])
  | none => isFalse (by simp only [Approvable, h, not_false_eq_true])

def setCode (s : Shared) (code : String) (state : CodeState) : Shared :=
  { s with codes := Function.update s.codes code (some state) }

/-- The registration of an account is retired. -/
def retire (s : Shared) (a : Account) : Shared :=
  { s with
    codes := fun code =>
      if s.codes code = some (.approved a) then some (.retired a) else s.codes code }

def handOut (s : Shared) (code : String) : Shared :=
  { s with shown := Function.update s.shown code true }

/-- `clear_vesta_cloud_pairing`. -/
def clearPairing (s : Shared) : Shared := { s with pairing := .missing }

/-- `clear_vesta_cloud_account`. -/
def clearAccount (s : Shared) : Shared := { s with account := .missing }

def writePairing (s : Shared) (content : File Pairing) : Shared :=
  { s with pairingTmp := content }

def writeAccount (s : Shared) (content : File Account) : Shared :=
  { s with accountTmp := content }

/-- The rename that ends `save_vesta_cloud_pairing`; it fails without a temporary file. -/
def installPairing (s : Shared) : Shared :=
  match s.pairingTmp with
  | .missing => s
  | content => { s with pairing := content, pairingTmp := .missing }

/-- The rename that ends `save_vesta_cloud_account`. -/
def installAccount (s : Shared) : Shared :=
  match s.accountTmp with
  | .missing => s
  | content => { s with account := content, accountTmp := .missing }

end Shared

inductive Flow
  | pair
  | poll
  | unpair
  | login
  | logout
deriving DecidableEq

/-- What a flow does next. -/
inductive Phase
  /-- Look whether the box is paired already. -/
  | checking
  /-- Read the clock for a poll. -/
  | timing
  /-- Wait for the lock, with the time a poll has read. -/
  | locking (now : Option Nat)
  /-- Read the clock of `start_or_resume_pairing`. -/
  | resuming
  /-- Load the pairing and compare it with the time. -/
  | reading (now : Nat)
  /-- Remove the file of a pairing found expired. -/
  | dropping (p : Pairing)
  /-- Post `/pair/start`. -/
  | opening
  | opened (start : PairStart)
  /-- Write the temporary file of the pairing, then rename it. -/
  | saving (p : Pairing)
  | installing (p : Pairing)
  /-- Hand the user code out. -/
  | showing (p : Pairing)
  /-- The head of the loop of `login_flow`. -/
  | waiting (p : Pairing)
  /-- The removal at the deadline of `login_flow`. -/
  | expiring (p : Pairing)
  /-- Post `/pair/poll`. -/
  | polling (p : Pairing)
  /-- Write the temporary file of the account, then rename it. -/
  | linking (p : Pairing) (a : Account)
  | linked (p : Pairing) (a : Account)
  /-- Remove the pairing after an answer: linked to the account, or refused. -/
  | clearing (p : Pairing) (outcome : Option Account)
  /-- Load the account to unpair from. -/
  | loading
  /-- Post `/pair/unpair`. -/
  | retiring (a : Account)
  | unlinking (a : Account)
  | finished

structure Task where
  flow : Flow
  phase : Phase

def Flow.entry : Flow → Phase
  | .pair | .login => .checking
  | .poll => .timing
  | .unpair | .logout => .loading

/-- What follows the check: the handler waits for its lock, the command does not. -/
def Flow.unpaired : Flow → Phase
  | .pair => .locking none
  | _ => .resuming

def Flow.withoutPairing : Flow → Phase
  | .poll => .finished
  | _ => .opening

def Flow.withPairing (p : Pairing) : Flow → Phase
  | .poll => .polling p
  | _ => .showing p

/-- Only the login goes on until its code is settled. -/
def Flow.goesOn (p : Pairing) : Flow → Phase
  | .login => .waiting p
  | _ => .finished

/-- What a flow hears from the control plane. -/
inductive Reply
  /-- A transport failure, a server error, or a body of another shape. -/
  | unreachable
  /-- Any other answer that is not a success. -/
  | refused
  | started (start : PairStart)
  | pending
  | linked (a : Account)
  /-- The registration is retired, or was gone already. -/
  | unpaired

/-- How the call of a phase ends.  A write may also be torn, and go on. -/
inductive Event
  | works
  | fails
  | tears
  | hears (reply : Reply)

/-- One step of a flow: its call, and the phase after it. -/
def act (s : Shared) (flow : Flow) : Phase → Event → Option (Shared × Phase)
  | .checking, .works => some (s, if s.account.load.isSome then .finished else flow.unpaired)
  | .timing, .works => some (s, .locking (some s.now))
  | .locking none, .works => some (s, .resuming)
  | .locking (some now), .works => some (s, .reading now)
  | .resuming, .works => some (s, .reading s.now)
  -- `current_vesta_cloud_pairing`
  | .reading now, .works =>
      match s.pairing.load with
      | none => some (s, flow.withoutPairing)
      | some p => some (s, if p.isExpired now then .dropping p else flow.withPairing p)
  | .dropping _, .works => some (s.clearPairing, flow.withoutPairing)
  | .dropping _, .fails => some (s, flow.withoutPairing)
  -- `start_or_resume_pairing`
  | .opening, .hears (.started start) =>
      if s.codes start.deviceCode = none then
        some (s.setCode start.deviceCode (.opened (s.now + start.expiresIn)), .opened start)
      else none
  | .opening, .hears _ => some (s, .finished)
  | .opened start, .works => some (s, .saving (start.pairing s.now))
  | .saving p, .works => some (s.writePairing (.holds p), .installing p)
  | .saving p, .tears => some (s.writePairing .corrupt, .saving p)
  | .saving p, .fails => some (s, .showing p)
  | .installing p, .works => some (s.installPairing, .showing p)
  | .installing p, .fails => some (s, .showing p)
  | .showing p, .works => some (s.handOut p.deviceCode, flow.goesOn p)
  -- `login_flow`
  | .waiting p, .works => some (s, if p.isExpired s.now then .expiring p else .polling p)
  | .expiring _, .works => some (s.clearPairing, .finished)
  | .expiring _, .fails => some (s, .finished)
  -- `poll_pairing`
  | .polling p, .hears .unreachable => some (s, flow.goesOn p)
  | .polling p, .hears .pending => some (s, flow.goesOn p)
  | .polling p, .hears (.linked a) =>
      -- a consumed pairing's result is replayed to the same device code
      if s.codes p.deviceCode = some (.approved a) ∨ s.codes p.deviceCode = some (.retired a) then
        some (s, .linking p a)
      else none
  | .polling p, .hears .refused =>
      match s.codes p.deviceCode with
      | some (.approved _) => none
      | _ => some (s, .clearing p none)
  | .linking p a, .works => some (s.writeAccount (.holds a), .linked p a)
  | .linking p a, .tears => some (s.writeAccount .corrupt, .linking p a)
  | .linking p a, .fails => some (s, .clearing p (some a))
  | .linked p a, .works => some (s.installAccount, .clearing p (some a))
  | .linked p a, .fails => some (s, .clearing p (some a))
  | .clearing _ _, .works => some (s.clearPairing, .finished)
  | .clearing _ _, .fails => some (s, .finished)
  -- `request_unpair`
  | .loading, .works =>
      match s.account.load with
      | none => some (s, .finished)
      | some a => some (s, .retiring a)
  | .retiring a, .hears .unpaired => some (s.retire a, .unlinking a)
  | .retiring _, .hears _ => some (s, .finished)
  | .unlinking _, .works => some (s.clearAccount, .finished)
  | .unlinking _, .fails => some (s, .finished)
  | _, _ => none

attribute [grind =] act

theorem act_finished (s : Shared) (flow : Flow) (event : Event) : act s flow .finished event = none := by
  cases event <;> simp [act]

/-! ## The machine -/

structure World where
  shared : Shared
  /-- Every flow that was ever started. -/
  tasks : List Task
  /-- Who holds the lock of the daemon. -/
  holder : Option Nat

inductive Label
  | spawn (flow : Flow)
  | move (i : Nat) (event : Event)
  | die (i : Nat)
  /-- The owner approves a code for an account. -/
  | approve (code : String) (a : Account)
  | decline (code : String)
  /-- The owner removes the box in the dashboard. -/
  | retire (a : Account)
  | tick

/-- The lock after a step of a flow. -/
def holderAfter (holder : Option Nat) (i : Nat) : Phase → Phase → Option Nat
  | .locking _, _ => some i
  | _, .finished => if holder = some i then none else holder
  | _, _ => holder

/-- A flow waits for the lock while it is held. -/
def blocked (holder : Option Nat) : Phase → Bool
  | .locking _ => holder.isSome
  | _ => false

def step (w : World) : Label → Option World
  | .spawn flow => some { w with tasks := w.tasks ++ [⟨flow, flow.entry⟩] }
  | .move i event =>
      match w.tasks[i]? with
      | none => none
      | some task =>
          if blocked w.holder task.phase then none
          else
            match act w.shared task.flow task.phase event with
            | none => none
            | some (shared, phase) =>
                some
                  { shared
                    tasks := w.tasks.set i { task with phase }
                    holder := holderAfter w.holder i task.phase phase }
  | .die i =>
      match w.tasks[i]? with
      | none => none
      | some task =>
          some
            { w with
              tasks := w.tasks.set i { task with phase := .finished }
              holder := if w.holder = some i then none else w.holder }
  | .approve code a =>
      if w.shared.Approvable code ∧ w.shared.shown code = true then
        some { w with shared := w.shared.setCode code (.approved a) }
      else none
  | .decline code =>
      match w.shared.codes code with
      | some (.opened _) => some { w with shared := w.shared.setCode code .declined }
      | _ => none
  | .retire a => some { w with shared := w.shared.retire a }
  | .tick => some { w with shared := { w.shared with now := w.shared.now + 1 } }

attribute [grind =] step

/-- A box that was never paired, at some time. -/
def Fresh (w : World) : Prop :=
  w =
    { shared :=
        { now := w.shared.now
          pairing := .missing
          account := .missing
          pairingTmp := .missing
          accountTmp := .missing
          codes := fun _ => none
          shown := fun _ => false }
      tasks := []
      holder := none }

def machine : Machine World Label where
  start := Fresh
  step := step

end VestaCloud
end Vestad
end Vesta
