import Vesta.Agent.Notification

/-!
# One queued turn and the fate of its notification files

A queued turn sends its prompt to the CLI and waits for the result.  When the last message
of the reply contains dashes, a second query asks for it again.  The files that fed the
turn stay on disk until it is over: then they are cleared, or kept to be delivered again.

What becomes of a query, the provider's answer to the credentials and the failures around
a turn are the environment's choice, one `Script` for each turn.  A query that was sent
has reached the CLI; the send fails when it times out or raises.
-/

namespace Vesta
namespace Agent

open Lib

inductive ProviderAuthState
  | authenticated
  | notAuthenticated
deriving DecidableEq

def isUnauthenticated (status : Option ProviderAuthState) : Bool :=
  status == some .notAuthenticated

/-- The status after a terminal provider error. -/
def observedProviderFailure : Option ProviderAuthState → Option ProviderAuthState
  | none => none
  | some _ => some .notAuthenticated

structure QueuedTurn where
  text : Text
  isUser : Bool
  filePaths : List Text
  interruptible : Bool := true
deriving DecidableEq

/-! ## What a turn may meet -/

structure TurnSignals where
  texts : List Text
  preempted : Bool
deriving DecidableEq

/-- The exceptions that end a stream: SDK errors and `ValueError` are handled, others not. -/
inductive StreamError
  | sdkError
  | valueError
  | other
deriving DecidableEq

inductive Outcome
  | sendTimedOut
  | sendRaised
  | sendCancelled
  | result (turn : TurnSignals)
  | silent
  | streamDied (error : StreamError)
  | cancelled
deriving DecidableEq

/-- A query, and whether the credentials were found dead or dropped while it ran. -/
structure Query where
  outcome : Outcome
  authLost : Bool := false
deriving DecidableEq

structure Script where
  message : Query
  correction : Query := ⟨.sendRaised, false⟩
  cancelledAfter : Bool := false
  saveFails : Bool := false
deriving DecidableEq

inductive Raised
  | queryNotDelivered
  | timeout
  | stream (error : StreamError)
  | cancelled
deriving DecidableEq

structure State where
  providerStatus : Option ProviderAuthState := some .authenticated
  shutdownEvent : Bool := false
  gracefulShutdown : Bool := false
  noninterruptibleTurnActive : Bool := false
  bootTurnsPending : Nat := 0
  inFlightNotificationPaths : List Text := []
  queryNotDelivered : Bool := false
  /-- The notification files on disk, and those whose clearing was announced. -/
  files : List Text := []
  cleared : List Text := []
deriving DecidableEq

/-! ## The turn -/

/-- Drive one query, and the status of the provider after it. -/
def converse (query : Query) (status : Option ProviderAuthState) :
    Except Raised TurnSignals × Option ProviderAuthState :=
  let status := if query.authLost then observedProviderFailure status else status
  match query.outcome with
  | .sendTimedOut => (.error .queryNotDelivered, status)
  | .sendRaised => (.error .queryNotDelivered, status)
  | .sendCancelled => (.error .cancelled, status)
  | .result turn => (.ok turn, status)
  | .silent => (.error .timeout, status)
  | .streamDied error => (.error (.stream error), status)
  | .cancelled => (.error .cancelled, status)

def emDash : Char := Char.ofNat 0x2014

def enDash : Char := Char.ofNat 0x2013

def containsDashes (text : Text) : Bool :=
  text.contains emDash || text.contains enDash ||
    text.tails.any fun rest => [' ', '-', ' '].isPrefixOf rest

/-- The stripped lines that are shown. -/
def filterToolLines (text : Text) : Text :=
  ['\n'].intercalate (((text.splitOn '\n').map strip).filter fun line =>
    !line.isEmpty && !"[TOOL]".toList.isPrefixOf line && !"[TASK]".toList.isPrefixOf line)

/-- A reply that was not cut short, with dashes in its last message, is corrected. -/
def needsCorrection (blockDashes : Bool) (turn : TurnSignals) : Bool :=
  match turn.texts.getLast? with
  | none => false
  | some text => blockDashes && containsDashes (filterToolLines text) && !turn.preempted

/-- The query of the turn, its correction, and the usage log after them. -/
def processMessage (blockDashes : Bool) (script : Script) (status : Option ProviderAuthState) :
    Except Raised Unit × Option ProviderAuthState :=
  match converse script.message status with
  | (.error e, status) => (.error e, status)
  | (.ok turn, status) =>
      let logged : Except Raised Unit := if script.cancelledAfter then .error .cancelled else .ok ()
      if needsCorrection blockDashes turn then
        match converse script.correction status with
        | (.error e, status) => (.error e, status)
        | (.ok _, status) => (logged, status)
      else
        (logged, status)

/-- Map the failures of a turn to a graceful restart; what is raised nevertheless. -/
def runOneTurn (blockDashes : Bool) (script : Script) (s : State) : Bool × State :=
  match processMessage blockDashes script s.providerStatus with
  | (.ok (), status) => (false, { s with providerStatus := status })
  | (.error .cancelled, status) =>
      (true, { s with
        providerStatus := status
        gracefulShutdown := if s.shutdownEvent then s.gracefulShutdown else true })
  | (.error (.stream .other), status) => (true, { s with providerStatus := status })
  | (.error e, status) =>
      let s := { s with
        providerStatus := status
        queryNotDelivered := s.queryNotDelivered || e == .queryNotDelivered }
      if script.saveFails then (true, s) else (false, { s with gracefulShutdown := true })

def clearNotifications (s : State) (filePaths : List Text) : State :=
  { s with
    files := s.files.filter fun path => !filePaths.contains path
    cleared := s.cleared ++ filePaths }

def consumeBootTurn (s : State) (turn : QueuedTurn) : State :=
  if turn.interruptible then s else { s with bootTurnsPending := s.bootTurnsPending - 1 }

def startTurn (s : State) (current : QueuedTurn) : State :=
  { s with
    noninterruptibleTurnActive := !current.interruptible
    inFlightNotificationPaths := current.filePaths
    queryNotDelivered := false }

/-- Clear the files of a turn that returned, or keep them. -/
def finishTurn (s : State) (current : QueuedTurn) : State :=
  let s := consumeBootTurn { s with noninterruptibleTurnActive := false } current
  let authenticated := s.providerStatus.all (· = .authenticated)
  let s :=
    if authenticated && !s.queryNotDelivered then
      clearNotifications s s.inFlightNotificationPaths
    else s
  { s with inFlightNotificationPaths := [], queryNotDelivered := false }

/-- The processor takes a turn: put it back, defer it, or run it. -/
def runMessage (blockDashes : Bool) (current : QueuedTurn) (script : Script) (s : State) : State :=
  if s.gracefulShutdown then
    s
  else if isUnauthenticated s.providerStatus then
    consumeBootTurn s current
  else
    match runOneTurn blockDashes script (startTurn s current) with
    | (true, s) => { s with noninterruptibleTurnActive := false }
    | (false, s) => finishTurn s current

/-! ## Delivered once -/

/-- The prompt of the query has reached the CLI. -/
def Outcome.sent : Outcome → Bool
  | .sendTimedOut => false
  | .sendRaised => false
  | .sendCancelled => false
  | _ => true

/-- The turn is taken up, and its prompt sent. -/
def Reached (script : Script) (s : State) : Prop :=
  s.gracefulShutdown = false ∧ isUnauthenticated s.providerStatus = false ∧
    script.message.outcome.sent = true

/-- The files of the turn are all kept if the prompt did not reach the CLI or the
credentials are gone, and all cleared otherwise. -/
structure Settled (current : QueuedTurn) (reached : Prop) (after : State) : Prop where
  kept : (¬reached ∨ isUnauthenticated after.providerStatus = true) →
    ∀ path ∈ current.filePaths, path ∈ after.files
  cleared : ¬(¬reached ∨ isUnauthenticated after.providerStatus = true) →
    ∀ path ∈ current.filePaths, path ∉ after.files

/-- The turn asks for a correction. -/
def corrects (blockDashes : Bool) (script : Script) : Bool :=
  match script.message.outcome with
  | .result turn => needsCorrection blockDashes turn
  | _ => false

/-- The turn that ends with this query is cancelled, or raises what it does not handle. -/
def Outcome.escapes (script : Script) : Outcome → Bool
  | .result _ => script.cancelledAfter
  | .silent => script.saveFails
  | .streamDied .other => true
  | .streamDied _ => script.saveFails
  | .cancelled => true
  | _ => false

/-- The correction could not be sent, or the turn was cancelled or raised. -/
def disturbed (blockDashes : Bool) (script : Script) : Bool :=
  if corrects blockDashes script then
    !script.correction.outcome.sent || script.correction.outcome.escapes script
  else
    script.message.outcome.escapes script

/-- The credentials were lost while a query of the turn ran. -/
def authLost (blockDashes : Bool) (script : Script) : Bool :=
  script.message.authLost || (corrects blockDashes script && script.correction.authLost)

/-- The prompt was delivered with good credentials, and yet the turn does not end as such. -/
def Spoiled (blockDashes : Bool) (script : Script) (s : State) : Prop :=
  Reached script s ∧ disturbed blockDashes script = true ∧
    ¬(s.providerStatus.isSome = true ∧ authLost blockDashes script = true)

section Turn

variable {blockDashes : Bool}
variable {script : Script}
variable {current : QueuedTurn}
variable {s : State}

/-- The status after the queries of a turn. -/
def statusAfter (blockDashes : Bool) (script : Script) (status : Option ProviderAuthState) :
    Option ProviderAuthState :=
  if authLost blockDashes script then observedProviderFailure status else status

theorem observedProviderFailure_idem (status : Option ProviderAuthState) :
    observedProviderFailure (observedProviderFailure status) = observedProviderFailure status := by
  cases status <;> rfl

theorem processMessage_status (status : Option ProviderAuthState) :
    (processMessage blockDashes script status).2 = statusAfter blockDashes script status := by
  obtain ⟨⟨message, messageLost⟩, ⟨correction, correctionLost⟩, cancelledAfter, saveFails⟩ := script
  cases message with
  | result turn =>
      by_cases hcorrects : needsCorrection blockDashes turn = true
      · cases correction <;> cases messageLost <;> cases correctionLost <;>
          simp [processMessage, converse, statusAfter, authLost, corrects, hcorrects,
            observedProviderFailure_idem]
      · cases messageLost <;>
          simp [processMessage, converse, statusAfter, authLost, corrects, hcorrects]
  | _ => cases messageLost <;> simp [processMessage, converse, statusAfter, authLost, corrects]

/-- What the processor sees of a turn as success: it returns, and its query was delivered. -/
def succeeds (saveFails : Bool) : Except Raised Unit → Bool
  | .ok () => true
  | .error .timeout => !saveFails
  | .error (.stream .sdkError) => !saveFails
  | .error (.stream .valueError) => !saveFails
  | .error _ => false

theorem succeeds_processMessage (status : Option ProviderAuthState) :
    succeeds script.saveFails (processMessage blockDashes script status).1 =
      (script.message.outcome.sent && !disturbed blockDashes script) := by
  obtain ⟨⟨message, messageLost⟩, ⟨correction, correctionLost⟩, cancelledAfter, saveFails⟩ := script
  cases message with
  | result turn =>
      by_cases hcorrects : needsCorrection blockDashes turn = true
      · cases correction with
        | streamDied error =>
            cases error <;>
              simp [processMessage, converse, succeeds, disturbed, corrects, hcorrects,
                Outcome.sent, Outcome.escapes]
        | result turn =>
            cases cancelledAfter <;>
              simp [processMessage, converse, succeeds, disturbed, corrects, hcorrects,
                Outcome.sent, Outcome.escapes]
        | _ =>
            simp [processMessage, converse, succeeds, disturbed, corrects, hcorrects,
              Outcome.sent, Outcome.escapes]
      · cases cancelledAfter <;>
          simp [processMessage, converse, succeeds, disturbed, corrects, hcorrects,
            Outcome.sent, Outcome.escapes]
  | streamDied error =>
      cases error <;>
        simp [processMessage, converse, succeeds, disturbed, corrects, Outcome.sent,
          Outcome.escapes]
  | _ =>
      simp [processMessage, converse, succeeds, disturbed, corrects, Outcome.sent,
        Outcome.escapes]

/-- A failure that is handled ends like a success, unless it cannot be saved. -/
theorem succeeds_handled
    (saveFails : Bool)
    {raised : Raised}
    (hcancelled : raised ≠ .cancelled)
    (hother : raised ≠ .stream .other) :
    succeeds saveFails (.error raised) = (!saveFails && !(raised == .queryNotDelivered)) := by
  cases raised with
  | queryNotDelivered => simp [succeeds]
  | timeout => simp [succeeds]
  | cancelled => exact absurd rfl hcancelled
  | stream error =>
      cases error with
      | sdkError => simp [succeeds]
      | valueError => simp [succeeds]
      | other => exact absurd rfl hother

theorem runOneTurn_handled
    {raised : Raised} {status : Option ProviderAuthState}
    (hprocess : processMessage blockDashes script s.providerStatus = (.error raised, status))
    (hcancelled : raised ≠ .cancelled)
    (hother : raised ≠ .stream .other) :
    runOneTurn blockDashes script s =
      (script.saveFails, { s with
        providerStatus := status
        queryNotDelivered := s.queryNotDelivered || raised == .queryNotDelivered
        gracefulShutdown := !script.saveFails || s.gracefulShutdown }) := by
  cases raised with
  | cancelled => exact absurd rfl hcancelled
  | queryNotDelivered => cases hsave : script.saveFails <;> simp [runOneTurn, hprocess, hsave]
  | timeout => cases hsave : script.saveFails <;> simp [runOneTurn, hprocess, hsave]
  | stream error =>
      cases error with
      | other => exact absurd rfl hother
      | _ => cases hsave : script.saveFails <;> simp [runOneTurn, hprocess, hsave]

variable (blockDashes script) in
/-- A turn touches neither the files nor the list of its own, and tells its success. -/
theorem runOneTurn_spec (hflag : s.queryNotDelivered = false) :
    ∃ raised after, runOneTurn blockDashes script s = (raised, after) ∧
      after.files = s.files ∧
      after.inFlightNotificationPaths = s.inFlightNotificationPaths ∧
      after.providerStatus = statusAfter blockDashes script s.providerStatus ∧
      (raised = false ∧ after.queryNotDelivered = false ↔
        (script.message.outcome.sent && !disturbed blockDashes script) = true) := by
  rw [← succeeds_processMessage s.providerStatus, ← processMessage_status]
  cases hprocess : processMessage blockDashes script s.providerStatus with
  | mk ended status =>
      cases ended with
      | ok _ =>
          rw [runOneTurn, hprocess]
          exact ⟨false, _, rfl, rfl, rfl, rfl, by simp [succeeds, hflag]⟩
      | error raised =>
          by_cases hcancelled : raised = .cancelled
          · rw [runOneTurn, hprocess, hcancelled]
            exact ⟨true, _, rfl, rfl, rfl, rfl, by simp [succeeds]⟩
          · by_cases hother : raised = .stream .other
            · rw [runOneTurn, hprocess, hother]
              exact ⟨true, _, rfl, rfl, rfl, rfl, by simp [succeeds]⟩
            · rw [succeeds_handled script.saveFails hcancelled hother]
              refine ⟨_, _, runOneTurn_handled hprocess hcancelled hother, rfl, rfl, rfl, ?_⟩
              simp [hflag]

theorem consumeBootTurn_spec (s : State) (current : QueuedTurn) :
    (consumeBootTurn s current).files = s.files ∧
      (consumeBootTurn s current).inFlightNotificationPaths = s.inFlightNotificationPaths ∧
      (consumeBootTurn s current).queryNotDelivered = s.queryNotDelivered ∧
      (consumeBootTurn s current).providerStatus = s.providerStatus := by
  rw [consumeBootTurn]
  split <;> exact ⟨rfl, rfl, rfl, rfl⟩

theorem finishTurn_spec (s : State) (current : QueuedTurn) :
    (finishTurn s current).providerStatus = s.providerStatus ∧
      (finishTurn s current).files =
        if s.queryNotDelivered = false ∧ isUnauthenticated s.providerStatus = false then
          s.files.filter fun path => !s.inFlightNotificationPaths.contains path
        else s.files := by
  obtain ⟨t, ht, hf, hp, hq, hs⟩ : ∃ t,
      consumeBootTurn { s with noninterruptibleTurnActive := false } current = t ∧
      t.files = s.files ∧ t.inFlightNotificationPaths = s.inFlightNotificationPaths ∧
      t.queryNotDelivered = s.queryNotDelivered ∧ t.providerStatus = s.providerStatus :=
    ⟨_, rfl, consumeBootTurn_spec { s with noninterruptibleTurnActive := false } current⟩
  have hgood : s.providerStatus.all (· = .authenticated) =
      !isUnauthenticated s.providerStatus := by
    rcases s.providerStatus with _ | status
    · rfl
    · cases status <;> rfl
  simp only [finishTurn, ht, hp, hq, hs, hgood]
  cases s.queryNotDelivered <;> cases isUnauthenticated s.providerStatus <;>
    simp [clearNotifications, hf, hs]

variable (blockDashes current script) in
/-- What a turn that was taken up leaves: its files are cleared after a success with good
credentials. -/
theorem runMessage_spec
    (hgraceful : s.gracefulShutdown = false)
    (hauth : isUnauthenticated s.providerStatus = false) :
    (runMessage blockDashes current script s).providerStatus =
        statusAfter blockDashes script s.providerStatus ∧
      (runMessage blockDashes current script s).files =
        if (script.message.outcome.sent && !disturbed blockDashes script) = true ∧
            isUnauthenticated (statusAfter blockDashes script s.providerStatus) = false then
          s.files.filter fun path => !current.filePaths.contains path
        else s.files := by
  obtain ⟨raised, after, hrun, hfiles, hpaths, hstatus, hsuccess⟩ :=
    runOneTurn_spec blockDashes script (s := startTurn s current) rfl
  have hfiles : after.files = s.files := hfiles
  have hpaths : after.inFlightNotificationPaths = current.filePaths := hpaths
  have hstatus : after.providerStatus = statusAfter blockDashes script s.providerStatus := hstatus
  rw [runMessage, if_neg (by simp [hgraceful]), if_neg (by simp [hauth]), hrun]
  simp only [← hsuccess, ← hstatus]
  cases raised with
  | true => exact ⟨rfl, by simp [hfiles]⟩
  | false =>
      obtain ⟨hs, hf⟩ := finishTurn_spec after current
      exact ⟨hs, by simp only [hf, hfiles, hpaths, true_and]⟩

/-- Whether a turn that was taken up with this status ends with its files cleared. -/
def clearsFiles (blockDashes : Bool) (script : Script) (status : Option ProviderAuthState) :
    Bool :=
  script.message.outcome.sent && !disturbed blockDashes script &&
    !isUnauthenticated (statusAfter blockDashes script status)

variable (blockDashes script) in
theorem isUnauthenticated_statusAfter (hauth : isUnauthenticated s.providerStatus = false) :
    isUnauthenticated (statusAfter blockDashes script s.providerStatus) = true ↔
      s.providerStatus.isSome = true ∧ authLost blockDashes script = true := by
  rw [statusAfter]
  cases authLost blockDashes script with
  | false => simp [hauth]
  | true =>
      cases s.providerStatus with
      | none => simp [observedProviderFailure, isUnauthenticated]
      | some status => simp [observedProviderFailure, isUnauthenticated]

/-- A turn that is put back or deferred keeps its files. -/
theorem settled_of_not_taken
    (hnot : ¬(s.gracefulShutdown = false ∧ isUnauthenticated s.providerStatus = false))
    (hfiles : ∀ path ∈ current.filePaths, path ∈ s.files) :
    Settled current (Reached script s) (runMessage blockDashes current script s) := by
  have hreached : ¬Reached script s := fun h => hnot ⟨h.1, h.2.1⟩
  have hsame : (runMessage blockDashes current script s).files = s.files := by
    rw [runMessage]
    cases hgraceful : s.gracefulShutdown with
    | true => simp
    | false =>
        cases hauth : isUnauthenticated s.providerStatus with
        | true =>
            simp only [Bool.false_eq_true, if_false, if_true]
            exact (consumeBootTurn_spec s current).1
        | false => exact absurd ⟨hgraceful, hauth⟩ hnot
  exact ⟨fun _ path hpath => hsame ▸ hfiles path hpath, fun h => absurd (.inl hreached) h⟩

end Turn

/--
For every outcome of the queries of a batch's turn: its files are kept exactly if the prompt
did not reach the CLI or the credentials are gone, and cleared otherwise, if and only if the
turn is not spoiled.
-/
theorem batch_settled_iff
    (blockDashes : Bool)
    (current : QueuedTurn)
    (script : Script)
    (s : State)
    (hbatch : current.filePaths ≠ [])
    (hfiles : ∀ path ∈ current.filePaths, path ∈ s.files) :
    Settled current (Reached script s) (runMessage blockDashes current script s) ↔
      ¬Spoiled blockDashes script s := by
  by_cases htaken : s.gracefulShutdown = false ∧ isUnauthenticated s.providerStatus = false
  · obtain ⟨hgraceful, hauth⟩ := htaken
    obtain ⟨hstatus, hafter⟩ :=
      runMessage_spec blockDashes script current hgraceful hauth
    have hlost := isUnauthenticated_statusAfter blockDashes script hauth
    have hreached : Reached script s ↔ script.message.outcome.sent = true :=
      ⟨fun h => h.2.2, fun h => ⟨hgraceful, hauth, h⟩⟩
    rw [← hstatus] at hafter hlost
    by_cases hkeep : ¬Reached script s ∨
        isUnauthenticated (runMessage blockDashes current script s).providerStatus = true
    · have hsame : (runMessage blockDashes current script s).files = s.files := by
        rw [hafter, if_neg]
        rintro ⟨hsent, hgood⟩
        rcases hkeep with hunreached | hbad
        · exact hunreached (hreached.2 (by simp_all))
        · exact nomatch hgood.symm.trans hbad
      refine iff_of_true ⟨fun _ path hpath => hsame ▸ hfiles path hpath, fun h => absurd hkeep h⟩ ?_
      rintro ⟨hr, -, hgood⟩
      rcases hkeep with hunreached | hbad
      · exact hunreached hr
      · exact hgood (hlost.1 hbad)
    · obtain ⟨hr, hgood⟩ := not_or.1 hkeep
      have hsent := hreached.1 (not_not.1 hr)
      have hspoiled : Spoiled blockDashes script s ↔ disturbed blockDashes script = true :=
        ⟨fun h => h.2.1, fun h => ⟨not_not.1 hr, h, fun hl => hgood (hlost.2 hl)⟩⟩
      rw [hspoiled]
      obtain ⟨path, hpath⟩ := List.exists_mem_of_ne_nil _ hbatch
      constructor
      · intro hsettled hdisturbed
        have hgone := hsettled.cleared hkeep path hpath
        rw [hafter, if_neg (by simp [hdisturbed])] at hgone
        exact hgone (hfiles path hpath)
      · intro hquiet
        refine ⟨fun h => absurd h hkeep, fun _ other hother => ?_⟩
        rw [hafter, if_pos ⟨by simp [hsent, hquiet], by simpa using hgood⟩]
        simp [hother]
  · exact iff_of_true (settled_of_not_taken htaken hfiles)
      fun h => htaken ⟨h.1.1, h.1.2.1⟩

/-! ## Two turns of one notification -/

def samplePath : Text := "notifications/whatsapp-1.json".toList

def sampleTurn : QueuedTurn := ⟨"<channel>".toList, false, [samplePath], true⟩

def sampleState : State := { files := [samplePath] }

/-- The reply has no dashes. -/
def plainScript : Script := { message := ⟨.result ⟨["done".toList], false⟩, false⟩ }

/-- The reply has a dash, and the send of the correction times out. -/
def dashedScript : Script where
  message := ⟨.result ⟨["done - now".toList], false⟩, false⟩
  correction := ⟨.sendTimedOut, false⟩

theorem batch_settled_plain :
    Settled sampleTurn (Reached plainScript sampleState)
      (runMessage true sampleTurn plainScript sampleState) := by
  refine (batch_settled_iff true sampleTurn plainScript sampleState (by decide)
    (fun _ hpath => hpath)).2 fun hspoiled => ?_
  exact absurd hspoiled.2.1 (by decide)

/-- The prompt was delivered with good credentials, and its file is kept to be delivered again. -/
theorem batch_not_settled :
    Reached dashedScript sampleState ∧
      isUnauthenticated (runMessage true sampleTurn dashedScript sampleState).providerStatus =
        false ∧
      samplePath ∈ (runMessage true sampleTurn dashedScript sampleState).files ∧
      ¬Settled sampleTurn (Reached dashedScript sampleState)
        (runMessage true sampleTurn dashedScript sampleState) := by
  have hreached : Reached dashedScript sampleState := ⟨rfl, rfl, rfl⟩
  have hauth : isUnauthenticated
      (runMessage true sampleTurn dashedScript sampleState).providerStatus = false := by
    decide +kernel
  have hkept : samplePath ∈ (runMessage true sampleTurn dashedScript sampleState).files := by
    decide +kernel
  refine ⟨hreached, hauth, hkept, fun hsettled => ?_⟩
  refine hsettled.cleared (fun h => ?_) samplePath (List.mem_singleton_self _) hkept
  rcases h with hunreached | hbad
  · exact hunreached hreached
  · exact nomatch hauth.symm.trans hbad

end Agent
end Vesta
