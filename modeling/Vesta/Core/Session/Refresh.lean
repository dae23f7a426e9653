import Mathlib.Data.List.Basic
import Vesta.Lib.Machine

/-!
# The gateway session and its shared refresh

A session refreshes the access token of the stored connection.  Callers that need a
refresh while one is in flight share it.  The user may connect, switch gateway or
disconnect at any time, so also between a refresh request and its answer, and between
the answer and the moment the app's asynchronous write of the rotation lands.

The refreshes in flight are kept as a list, so that there is at most one of them is a
fact about runs.  Beside the stored connection the machine keeps the connection of a
session whose refresh results touch only the connection they were issued for.
-/

namespace Vesta
namespace Core
namespace GatewaySession

open Lib

structure ConnectionConfig where
  url : String
  accessToken : String
  refreshToken : String
  expiresAt : Nat
  hosted : Option Bool := none
deriving DecidableEq

def tokenRefreshBufferMs : Nat := 5 * 60 * 1000

def isTokenExpiringSoon (connection : Option ConnectionConfig) (now : Nat) : Bool :=
  match connection with
  | none => false
  | some connection => decide (connection.expiresAt ≤ now + tokenRefreshBufferMs)

structure TokenGrant where
  accessToken : String
  refreshToken : String
  expiresIn : Option Nat
deriving DecidableEq

/-- What a fetch gives: no answer, or a status with the grant its body parses to. -/
inductive Response
  | failed
  | answered (status : Nat) (grant : Option TokenGrant)
deriving DecidableEq

inductive RefreshOutcome
  | ok (connection : ConnectionConfig)
  | transient
  | expired
deriving DecidableEq

def granted (url : String) (grant : TokenGrant) (now : Nat) (hosted : Option Bool) :
    ConnectionConfig where
  url := url
  accessToken := grant.accessToken
  refreshToken := grant.refreshToken
  expiresAt := now + grant.expiresIn.getD 3600 * 1000
  hosted := hosted

/-- The outcome of a refresh of `connection` started at `now`. -/
def refreshConnection (connection : ConnectionConfig) (now : Nat) : Response → RefreshOutcome
  | .failed => .transient
  | .answered status grant =>
      if status = 401 then
        .expired
      else if 200 ≤ status ∧ status < 300 then
        match grant with
        | none => .transient
        | some grant => .ok (granted connection.url grant now connection.hosted)
      else
        .transient

/-- A refresh in flight: its request is out, or the app's write of its rotation is. -/
structure Refresh where
  issuedFor : ConnectionConfig
  startedAt : Nat
  rotated : Option ConnectionConfig := none
deriving DecidableEq

structure World where
  stored : Option ConnectionConfig := none
  inFlight : Bool := false
  refreshes : List Refresh := []
  own : Option ConnectionConfig := none

/-- The refresh token of `connection` is the one a refresh was issued for. -/
def Holds (connection : Option ConnectionConfig) (issuedFor : ConnectionConfig) : Prop :=
  ∃ c ∈ connection, c.refreshToken = issuedFor.refreshToken

instance (connection : Option ConnectionConfig) (issuedFor : ConnectionConfig) :
    Decidable (Holds connection issuedFor) :=
  match connection with
  | none => isFalse nofun
  | some c =>
      decidable_of_iff (c.refreshToken = issuedFor.refreshToken)
        ⟨fun h => ⟨c, rfl, h⟩, fun ⟨_, hc, h⟩ => Option.some.inj hc ▸ h⟩

inductive Label
  | ensureFresh (force : Bool) (now : Nat)
  | respond (i : Nat) (response : Response)
  | written (i : Nat)
  | writeFailed (i : Nat)
  | connect (connection : ConnectionConfig)
  | disconnect
deriving DecidableEq

section Session

variable (signsOut : Bool)

/-- What `onExpired` leaves of a connection: an app may sign the user out. -/
def onExpired (connection : Option ConnectionConfig) : Option ConnectionConfig :=
  if signsOut then none else connection

/-- A refresh that has settled is no longer in flight. -/
def World.settle (w : World) (i : Nat) : World :=
  { w with inFlight := false, refreshes := w.refreshes.eraseIdx i }

/-- Start a refresh of the stored connection, unless there is nothing to present. -/
def World.refresh (w : World) (now : Nat) : World :=
  match w.stored with
  | none => w
  | some connection =>
      if connection.refreshToken = "" then
        { w with
          stored := onExpired signsOut w.stored
          own := if Holds w.own connection then onExpired signsOut w.own else w.own }
      else
        { w with inFlight := true, refreshes := w.refreshes ++ [⟨connection, now, none⟩] }

/-- Refresh an expiring token, or any when forced; concurrent calls share one refresh. -/
def World.ensureFresh (w : World) (force : Bool) (now : Nat) : World :=
  if force = false ∧ isTokenExpiringSoon w.stored now = false then
    w
  else if w.inFlight then
    w
  else
    w.refresh signsOut now

/-- The answer to the request of a refresh: a rotation goes to the app's write. -/
def World.respond (w : World) (i : Nat) (refresh : Refresh) (response : Response) : World :=
  match refreshConnection refresh.issuedFor refresh.startedAt response with
  | .ok connection =>
      { w with refreshes := w.refreshes.set i { refresh with rotated := some connection } }
  | .transient => w.settle i
  | .expired =>
      { w.settle i with
        stored := onExpired signsOut w.stored
        own := if Holds w.own refresh.issuedFor then onExpired signsOut w.own else w.own }

/-- The app's write of a rotation lands. -/
def World.written (w : World) (i : Nat) (refresh : Refresh) (next : ConnectionConfig) : World :=
  { w.settle i with
    stored := some next
    own := if Holds w.own refresh.issuedFor then some next else w.own }

def step (w : World) : Label → Option World
  | .ensureFresh force now => some (w.ensureFresh signsOut force now)
  | .respond i response =>
      (w.refreshes[i]?.filter fun refresh => refresh.rotated.isNone).map fun refresh =>
        w.respond signsOut i refresh response
  | .written i =>
      w.refreshes[i]?.bind fun refresh => refresh.rotated.map fun next => w.written i refresh next
  | .writeFailed i =>
      (w.refreshes[i]?.filter fun refresh => refresh.rotated.isSome).map fun _ => w.settle i
  | .connect connection => some { w with stored := some connection, own := some connection }
  | .disconnect => some { w with stored := none, own := none }

def machine : Machine World Label where
  start w := w = {}
  step := step signsOut

end Session

/-- At most one refresh is in flight, and the stored connection is what the user's changes
and the results of its own refreshes made of it. -/
structure Isolated (w : World) : Prop where
  single : w.refreshes.length ≤ 1
  stored : w.stored = w.own

/-- A rotation lands while the connection stored is the one its refresh was issued for, and
so does a rejection in an app that signs out on it, unless no connection is stored. -/
def Lands (signsOut : Bool) (w : World) : Label → Prop
  | .respond i response =>
      ∀ refresh ∈ w.refreshes[i]?, refresh.rotated = none → signsOut = true →
        (∃ grant, response = .answered 401 grant) →
          w.stored = none ∨ Holds w.stored refresh.issuedFor
  | .written i =>
      ∀ refresh ∈ w.refreshes[i]?, ∀ next ∈ refresh.rotated,
        w.stored = some next ∨ Holds w.stored refresh.issuedFor
  | _ => True

/-- While a refresh is in flight, callers share it. -/
structure SingleFlight (w : World) : Prop where
  single : w.refreshes.length ≤ 1
  shared : w.refreshes ≠ [] → w.inFlight = true

section Runs

variable {signsOut : Bool}
variable {w next : World}

theorem SingleFlight.settle
    (h : SingleFlight w)
    {i : Nat} {refresh : Refresh}
    (hrefresh : w.refreshes[i]? = some refresh) :
    SingleFlight (w.settle i) := by
  obtain ⟨hi, -⟩ := List.getElem?_eq_some_iff.1 hrefresh
  have hlength : (w.refreshes.eraseIdx i).length = w.refreshes.length - 1 :=
    List.length_eraseIdx_of_lt hi
  have hsingle := h.single
  have hnil : w.refreshes.eraseIdx i = [] := List.eq_nil_of_length_eq_zero (by omega)
  exact ⟨by rw [World.settle, hnil]; exact Nat.zero_le 1, fun hne => absurd hnil hne⟩

variable (signsOut) in
/-- What starting a refresh can do: nothing, expire a connection without a refresh token, or
send a request while no refresh is in flight. -/
theorem ensureFresh_cases (w : World) (force : Bool) (now : Nat) :
    w.ensureFresh signsOut force now = w ∨
    (∃ connection, w.stored = some connection ∧
      w.ensureFresh signsOut force now = { w with
        stored := onExpired signsOut w.stored
        own := if Holds w.own connection then onExpired signsOut w.own else w.own }) ∨
    (∃ connection, w.inFlight = false ∧
      w.ensureFresh signsOut force now = { w with
        inFlight := true
        refreshes := w.refreshes ++ [⟨connection, now, none⟩] }) := by
  rw [World.ensureFresh]
  split
  · exact .inl rfl
  · split
    · exact .inl rfl
    · rename_i hidle
      rw [World.refresh]
      split
      · exact .inl rfl
      · rename_i connection hstored
        split
        · exact .inr (.inl ⟨connection, hstored, rfl⟩)
        · exact .inr (.inr ⟨connection, Bool.eq_false_iff.2 hidle, rfl⟩)

theorem single_ensureFresh
    (h : SingleFlight w)
    (force : Bool) (now : Nat) :
    SingleFlight (w.ensureFresh signsOut force now) := by
  rcases ensureFresh_cases signsOut w force now with
    heq | ⟨connection, -, heq⟩ | ⟨connection, hidle, heq⟩
  · rw [heq]
    exact h
  · rw [heq]
    exact ⟨h.single, h.shared⟩
  · rw [heq]
    have hnil : w.refreshes = [] := by
      by_contra hne
      exact nomatch hidle.symm.trans (h.shared hne)
    exact ⟨by simp [hnil], fun _ => rfl⟩

variable (signsOut) in
/-- What an answer can do, by its outcome. -/
theorem respond_cases
    (w : World) (i : Nat) (refresh : Refresh) (response : Response) :
    (∃ connection, (∀ grant, response ≠ .answered 401 grant) ∧
      w.respond signsOut i refresh response = { w with
        refreshes := w.refreshes.set i { refresh with rotated := some connection } }) ∨
    ((∀ grant, response ≠ .answered 401 grant) ∧
      w.respond signsOut i refresh response = w.settle i) ∨
    (∃ grant, response = .answered 401 grant ∧
      w.respond signsOut i refresh response = { w.settle i with
        stored := onExpired signsOut w.stored
        own := if Holds w.own refresh.issuedFor then onExpired signsOut w.own else w.own }) := by
  cases response with
  | failed => exact .inr (.inl ⟨nofun, rfl⟩)
  | answered status grant =>
      by_cases hrejected : status = 401
      · subst hrejected
        exact .inr (.inr ⟨grant, rfl, rfl⟩)
      · have hne : ∀ other, Response.answered status grant ≠ .answered 401 other :=
          fun other h => hrejected (Response.answered.inj h).1
        by_cases hok : 200 ≤ status ∧ status < 300
        · cases grant with
          | none =>
              refine .inr (.inl ⟨hne, ?_⟩)
              simp [World.respond, refreshConnection, hrejected]
          | some grant =>
              refine .inl ⟨granted refresh.issuedFor.url grant refresh.startedAt
                refresh.issuedFor.hosted, hne, ?_⟩
              simp [World.respond, refreshConnection, hrejected, hok]
        · refine .inr (.inl ⟨hne, ?_⟩)
          simp [World.respond, refreshConnection, hrejected, hok]

theorem single_respond
    (h : SingleFlight w)
    {i : Nat} {refresh : Refresh}
    (hrefresh : w.refreshes[i]? = some refresh)
    (response : Response) :
    SingleFlight (w.respond signsOut i refresh response) := by
  have hsettled := h.settle hrefresh
  rcases respond_cases signsOut w i refresh response with
    ⟨connection, -, heq⟩ | ⟨-, heq⟩ | ⟨grant, -, heq⟩
  · rw [heq]
    refine ⟨by simpa using h.single, fun _ => h.shared fun hnil => ?_⟩
    simp [hnil] at hrefresh
  · rw [heq]
    exact hsettled
  · rw [heq]
    exact ⟨hsettled.single, hsettled.shared⟩

/-- The refresh that a result of a run is about. -/
theorem getElem?_of_filter
    {refreshes : List Refresh} {i : Nat} {p : Refresh → Bool} {refresh : Refresh}
    (h : refreshes[i]?.filter p = some refresh) :
    refreshes[i]? = some refresh :=
  (Option.filter_eq_some_iff.1 h).1

theorem single_step
    {label : Label}
    (h : SingleFlight w)
    (hstep : step signsOut w label = some next) :
    SingleFlight next := by
  cases label with
  | ensureFresh force now =>
      cases hstep
      exact single_ensureFresh h force now
  | respond i response =>
      obtain ⟨refresh, hrefresh, rfl⟩ := Option.map_eq_some_iff.1 hstep
      exact single_respond h (getElem?_of_filter hrefresh) response
  | written i =>
      obtain ⟨refresh, hrefresh, hwritten⟩ := Option.bind_eq_some_iff.1 hstep
      obtain ⟨rotated, -, rfl⟩ := Option.map_eq_some_iff.1 hwritten
      have hsettled := h.settle hrefresh
      exact ⟨hsettled.single, hsettled.shared⟩
  | writeFailed i =>
      obtain ⟨refresh, hrefresh, rfl⟩ := Option.map_eq_some_iff.1 hstep
      exact h.settle (getElem?_of_filter hrefresh)
  | connect connection =>
      cases hstep
      exact ⟨h.single, h.shared⟩
  | disconnect =>
      cases hstep
      exact ⟨h.single, h.shared⟩

/-! ## When a result stays with its connection -/

/-- A rejection leaves the stored connection isolated exactly when it lands on its own
connection, on none, or in an app that does not sign out. -/
theorem stored_expired_iff
    {stored own : Option ConnectionConfig} {issuedFor : ConnectionConfig}
    (h : stored = own) :
    onExpired signsOut stored =
        (if Holds own issuedFor then onExpired signsOut own else own) ↔
      (signsOut = true → stored = none ∨ Holds stored issuedFor) := by
  subst h
  by_cases hholds : Holds stored issuedFor
  · simp [hholds]
  · cases signsOut with
    | true => simp [hholds, onExpired, eq_comm]
    | false => simp [hholds, onExpired]

theorem stored_written_iff
    {stored own : Option ConnectionConfig} {issuedFor rotated : ConnectionConfig}
    (h : stored = own) :
    some rotated = (if Holds own issuedFor then some rotated else own) ↔
      stored = some rotated ∨ Holds stored issuedFor := by
  subst h
  by_cases hholds : Holds stored issuedFor
  · simp [hholds]
  · simp [hholds, eq_comm]

theorem isolated_step_iff
    {label : Label}
    (hsingle : SingleFlight w)
    (h : Isolated w)
    (hstep : step signsOut w label = some next) :
    Isolated next ↔ Lands signsOut w label := by
  have hnext := (single_step hsingle hstep).single
  have hiff : Isolated next ↔ next.stored = next.own :=
    ⟨fun h => h.stored, fun h => ⟨hnext, h⟩⟩
  rw [hiff]
  cases label with
  | ensureFresh force now =>
      cases hstep
      refine iff_of_true ?_ trivial
      rcases ensureFresh_cases signsOut w force now with
        heq | ⟨connection, hstored, heq⟩ | ⟨connection, -, heq⟩
      · rw [heq]
        exact h.stored
      · rw [heq]
        exact (stored_expired_iff h.stored).2 fun _ => .inr ⟨connection, hstored, rfl⟩
      · rw [heq]
        exact h.stored
  | respond i response =>
      obtain ⟨refresh, hfilter, rfl⟩ := Option.map_eq_some_iff.1 hstep
      obtain ⟨hrefresh, hpending⟩ := Option.filter_eq_some_iff.1 hfilter
      have hlands : Lands signsOut w (.respond i response) ↔
          (signsOut = true → (∃ grant, response = .answered 401 grant) →
            w.stored = none ∨ Holds w.stored refresh.issuedFor) := by
        simp [Lands, hrefresh, Option.isNone_iff_eq_none.1 hpending]
      rw [hlands]
      rcases respond_cases signsOut w i refresh response with
        ⟨connection, hother, heq⟩ | ⟨hother, heq⟩ | ⟨grant, hrejected, heq⟩
      · rw [heq]
        exact iff_of_true h.stored fun _ ⟨grant, hgrant⟩ => absurd hgrant (hother grant)
      · rw [heq]
        exact iff_of_true h.stored fun _ ⟨grant, hgrant⟩ => absurd hgrant (hother grant)
      · rw [heq]
        have hanswer : ∃ grant, response = .answered 401 grant := ⟨grant, hrejected⟩
        simp only [hanswer, forall_const]
        exact stored_expired_iff h.stored
  | written i =>
      obtain ⟨refresh, hrefresh, hwritten⟩ := Option.bind_eq_some_iff.1 hstep
      obtain ⟨rotated, hrotated, rfl⟩ := Option.map_eq_some_iff.1 hwritten
      have hlands : Lands signsOut w (.written i) ↔
          w.stored = some rotated ∨ Holds w.stored refresh.issuedFor := by
        simp [Lands, hrefresh, hrotated]
      rw [hlands]
      exact stored_written_iff h.stored
  | writeFailed i =>
      obtain ⟨refresh, -, rfl⟩ := Option.map_eq_some_iff.1 hstep
      exact iff_of_true h.stored trivial
  | connect connection =>
      cases hstep
      exact iff_of_true rfl trivial
  | disconnect =>
      cases hstep
      exact iff_of_true rfl trivial

theorem lands_of_stuck
    {label : Label}
    (hstuck : step signsOut w label = none) :
    Lands signsOut w label := by
  cases label with
  | respond i response =>
      intro refresh hrefresh hpending
      simp [step, Option.mem_def.1 hrefresh, hpending] at hstuck
  | written i =>
      intro refresh hrefresh rotated hrotated
      simp [step, Option.mem_def.1 hrefresh, Option.mem_def.1 hrotated] at hstuck
  | ensureFresh | writeFailed | connect | disconnect => trivial

/-- On a run at most one refresh is in flight and each result touches only the connection
it was issued for, if and only if each result of the run lands on its connection. -/
theorem session_isolated_iff (signsOut : Bool) (run : List Label) :
    (machine signsOut).Admits (fun w a => ∀ t ∈ (machine signsOut).step w a, Isolated t) {} run ↔
      (machine signsOut).Admits (Lands signsOut) {} run :=
  (machine signsOut).admits_iff_within (fun _ _ _ hsingle hstep => single_step hsingle hstep)
    (fun _ _ _ hsingle h hstep => isolated_step_iff hsingle h hstep)
    (fun _ _ _ _ hstuck => lands_of_stuck hstuck) run ⟨Nat.zero_le 1, absurd rfl⟩
    ⟨Nat.zero_le 1, rfl⟩

end Runs

/-- A connection whose access token is about to expire. -/
def homeConnection : ConnectionConfig where
  url := "https://home.example"
  accessToken := "home-access"
  refreshToken := "home-refresh"
  expiresAt := 1000

def officeConnection : ConnectionConfig where
  url := "https://office.example"
  accessToken := "office-access"
  refreshToken := "office-refresh"
  expiresAt := 9000000

/-- The user switches gateway while the refresh of the old one is in flight. -/
def switchedRun : List Label :=
  [.connect homeConnection, .ensureFresh false 900, .connect officeConnection,
    .respond 0 (.answered 200 (some ⟨"home-access-2", "home-refresh-2", some 3600⟩)), .written 0]

/-- The rotation replaces the connection the user switched to. -/
theorem session_not_isolated :
    ∃ w, (machine true).Reaches Machine.always w ∧
      w.own = some officeConnection ∧ (∃ c ∈ w.stored, c.url = homeConnection.url) ∧
      ¬Isolated w := by
  refine ⟨(machine true).runTo {} switchedRun,
    (Machine.Reaches.start rfl).runTo switchedRun (Machine.admits_always _ _ _) (by decide),
    by decide, ⟨_, rfl, by decide⟩, fun h => ?_⟩
  exact absurd h.stored (by decide)

end GatewaySession
end Core
end Vesta
