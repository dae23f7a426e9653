import Vesta.Agent.Notification
import Vesta.Lib.Machine
import Vesta.Vestad.MaintenanceWindow

/-!
# The nightly dream

The monitor loop looks about once an hour whether a dream is due, and drops a notification
for it until the agent has recorded that the dream is complete.  A night is the instant its
window opens; the window may go on past midnight.

Instants are microseconds of the local clock since 1970-01-01, whose readings never go
back.  The hash of the delay, the prompt and the times of files are inputs.
-/

namespace Vesta
namespace Agent
namespace Dream

open Lib
open Vestad.MaintenanceWindow (dateText)

def second : Int := 1000000

def minute : Int := 60 * second

def hour : Int := 60 * minute

def day : Int := 24 * hour

def dreamerCatchupHours : Int := 6

def dreamerJitterMinutes : Nat := 60

structure Config where
  ephemeral : Bool
  nightlyMemoryHour : Option (Fin 24)
  agentName : Text
  /-- The first bytes of a SHA-256 digest, as a number. -/
  digest : Text → Nat

/-- The instant that the window of the night opened, for an instant in one. -/
def nightStart (memoryHour now : Int) : Option Int :=
  let hoursSinceStart := (now / hour % 24 - memoryHour) % 24
  if dreamerCatchupHours ≤ hoursSinceStart then none
  else some (now - now % hour - hoursSinceStart * hour)

/-- `night.isoformat()` -/
def nightDate (night : Int) : Text := dateText (night / day)

def dreamDelay (config : Config) (night : Int) : Int :=
  (config.digest (config.agentName ++ ':' :: nightDate night) % dreamerJitterMinutes : Nat) * minute

def changedSince (mtime since : Option Int) : Bool :=
  match mtime, since with
  | none, _ => false
  | some _, none => true
  | some mtime, some since => since < mtime

def readNudge (skill name : Text) : Text :=
  "Read `~/agent/skills/".toList ++ skill ++ '/' :: name ++
    "`, it has changed since last time.".toList

/-- A core notification: the stem of its file, its type and its body. -/
structure Drop where
  name : Text
  type : Text
  body : Text
deriving DecidableEq

/-- The state that is kept across restarts, so far as the dream reads it. -/
structure Persisted where
  firstStartDone : Bool
  lastDreamerRun : Option Int
deriving DecidableEq

/-- What a check finds: the prompt and the time of the dream skill's file. -/
structure Found where
  prompt : Option Text
  skillMtime : Option Int
deriving DecidableEq

def dreamBody (found : Found) (last : Option Int) : Text :=
  let prompt := (found.prompt.getD []).rdropWhile isSpace
  if changedSince found.skillMtime last then
    prompt ++ ' ' :: readNudge "dream".toList "SKILL.md".toList
  else prompt

/-- Whether a dream is complete for a night. -/
def dreamt (last : Option Int) (night : Int) : Bool :=
  match last with
  | none => false
  | some last => night ≤ last

def processNightlyMemory
    (config : Config)
    (persisted : Persisted)
    (now : Int)
    (found : Found) :
    Option Drop :=
  if config.ephemeral || !persisted.firstStartDone then none
  else do
    let memoryHour ← config.nightlyMemoryHour
    let night ← nightStart (memoryHour.val : Nat) now
    if dreamt persisted.lastDreamerRun night then none
    else if now < night + dreamDelay config night then none
    else
      some ⟨typeNightlyDream ++ '-' :: nightDate night, typeNightlyDream,
        dreamBody found persisted.lastDreamerRun⟩

/-! ## The loop -/

/-- The loop's clock and last check, what is persisted, and the completions so far. -/
structure State where
  clock : Int
  lastDreamerCheck : Int
  persisted : Persisted
  completed : List Int

inductive Act
  /-- The loop begins again, with what is persisted. -/
  | restart (now : Int)
  /-- The first start is done. -/
  | onboarded
  /-- The agent records a complete dream. -/
  | complete (now : Int)
  /-- A tick of the loop; a check reads the clock again. -/
  | wake (now reading : Int) (found : Found)

/-- The readings of a step are in order and after those before it. -/
def Enabled (s : State) : Act → Prop
  | .restart now => s.clock ≤ now
  | .onboarded => True
  | .complete now => s.clock ≤ now
  | .wake now reading _ => s.clock ≤ now ∧ now ≤ reading

instance (s : State) : (a : Act) → Decidable (Enabled s a)
  | .restart now => inferInstanceAs (Decidable (s.clock ≤ now))
  | .onboarded => inferInstanceAs (Decidable True)
  | .complete now => inferInstanceAs (Decidable (s.clock ≤ now))
  | .wake now reading _ => inferInstanceAs (Decidable (s.clock ≤ now ∧ now ≤ reading))

/-- Whether a tick checks the dream: at most once an hour. -/
def checks (s : State) (now : Int) : Bool := 3600 * second ≤ now - s.lastDreamerCheck

/-- The notification that a step drops. -/
def dropped (config : Config) (s : State) : Act → Option Drop
  | .wake now reading found =>
      if checks s now then processNightlyMemory config s.persisted reading found else none
  | _ => none

def step (s : State) (a : Act) : Option State :=
  if Enabled s a then
    match a with
    | .restart now => some { s with clock := now, lastDreamerCheck := now - hour }
    | .onboarded => some { s with persisted := { s.persisted with firstStartDone := true } }
    | .complete now =>
        some { s with
          clock := now
          persisted := { s.persisted with lastDreamerRun := some now }
          completed := s.completed ++ [now] }
    | .wake now reading _ =>
        some { s with
          clock := reading
          lastDreamerCheck := if checks s now then now else s.lastDreamerCheck }
  else none

/-- A loop begins an hour after its last check, with a completion that was persisted before. -/
structure Begins (s : State) : Prop where
  due : s.lastDreamerCheck = s.clock - hour
  past : ∀ last ∈ s.persisted.lastDreamerRun, last ≤ s.clock
  completed : s.completed = s.persisted.lastDreamerRun.toList

def machine : Machine State Act where
  start := Begins
  step := step

/-! ## Nights -/

/-- The opening of a night's window: the configured hour of some day. -/
def Opens (memoryHour night : Int) : Prop := ∃ date, night = date * day + memoryHour * hour

/-- The instants of a window have its night, and those of no window have none. -/
theorem nightStart_eq_some_iff
    {memoryHour now night : Int}
    (hlow : 0 ≤ memoryHour)
    (hhigh : memoryHour < 24) :
    nightStart memoryHour now = some night ↔
      Opens memoryHour night ∧ night ≤ now ∧ now < night + dreamerCatchupHours * hour := by
  have hhour : hour = 3600000000 := by decide
  have hday : day = 86400000000 := by decide
  have hcatchup : dreamerCatchupHours = 6 := rfl
  simp only [nightStart, Opens, hhour, hday, hcatchup]
  constructor
  · intro h
    split at h
    · cases h
    · rename_i hwindow
      cases h
      refine ⟨⟨(now - (now / 3600000000 % 24 - memoryHour) % 24 * 3600000000) / 86400000000, ?_⟩,
        ?_, ?_⟩
      · omega
      · omega
      · omega
  · rintro ⟨⟨date, rfl⟩, hopen, hclose⟩
    have hsince : (now / 3600000000 % 24 - memoryHour) % 24 =
        (now - (date * 86400000000 + memoryHour * 3600000000)) / 3600000000 := by omega
    rw [if_neg (by omega), Option.some.injEq]
    omega

/-- The night of an instant is that of the completion if the completion is no earlier than its
opening, as it is no later than the instant. -/
theorem nightStart_of_le
    {memoryHour completed now night : Int}
    (hlow : 0 ≤ memoryHour)
    (hhigh : memoryHour < 24)
    (hnow : nightStart memoryHour now = some night)
    (hopen : night ≤ completed)
    (hpast : completed ≤ now) :
    nightStart memoryHour completed = some night := by
  obtain ⟨hopens, -, hclose⟩ := (nightStart_eq_some_iff hlow hhigh).1 hnow
  exact (nightStart_eq_some_iff hlow hhigh).2 ⟨hopens, hopen, by omega⟩

/-! ## Runs -/

/-- What is persisted is the last completion, and the last completion is the latest. -/
structure Sound (s : State) : Prop where
  last : s.persisted.lastDreamerRun = s.completed.getLast?
  ordered : s.completed.Pairwise (· ≤ ·)
  past : ∀ completed ∈ s.completed, completed ≤ s.clock

theorem Begins.sound
    {s : State}
    (h : Begins s) :
    Sound s := by
  cases hrun : s.persisted.lastDreamerRun with
  | none => constructor <;> simp [h.completed, hrun]
  | some last =>
      have hpast : last ≤ s.clock := h.past last (by simp [hrun])
      constructor <;> simp [h.completed, hrun, hpast]

/-- A step that completes nothing lets the clock go on. -/
theorem Sound.later
    {s t : State}
    (h : Sound s)
    (hlast : t.persisted.lastDreamerRun = s.persisted.lastDreamerRun)
    (hcompleted : t.completed = s.completed)
    (hclock : s.clock ≤ t.clock) :
    Sound t where
  last := by rw [hlast, hcompleted, h.last]
  ordered := by rw [hcompleted]; exact h.ordered
  past completed hmem := by
    have hbefore := h.past completed (by rwa [hcompleted] at hmem)
    omega

theorem Sound.step
    {s t : State} {a : Act}
    (h : Sound s)
    (hstep : step s a = some t) :
    Sound t := by
  unfold Dream.step at hstep
  split at hstep
  · rename_i henabled
    cases a with
    | restart now =>
        cases hstep
        exact h.later rfl rfl henabled
    | onboarded =>
        cases hstep
        exact h.later rfl rfl le_rfl
    | complete now =>
        cases hstep
        have hbefore : ∀ completed ∈ s.completed, completed ≤ now := fun completed hmem =>
          (h.past completed hmem).trans henabled
        constructor
        · simp
        · simpa [List.pairwise_append, h.ordered] using hbefore
        · simpa [or_imp, forall_and] using hbefore
    | wake now reading found =>
        cases hstep
        exact h.later rfl rfl (henabled.1.trans henabled.2)
  · cases hstep

theorem sound_of_reaches
    {s : State}
    (h : machine.Reaches Machine.always s) :
    Sound s :=
  h.invariant (fun _ => Begins.sound) fun _ _ _ hs _ => hs.step

/-- Each completion is no later than the one that is persisted. -/
theorem Sound.latest
    {s : State}
    (h : Sound s)
    {completed : Int}
    (hmem : completed ∈ s.completed) :
    ∃ last, s.persisted.lastDreamerRun = some last ∧ last ∈ s.completed ∧ completed ≤ last := by
  have hne : s.completed ≠ [] := List.ne_nil_of_mem hmem
  refine ⟨s.completed.getLast hne, ?_, List.getLast_mem hne, ?_⟩
  · rw [h.last, List.getLast?_eq_some_getLast hne]
  · have hsplit := List.dropLast_append_getLast hne
    have hordered := h.ordered
    rw [← hsplit, List.pairwise_append] at hordered
    rw [← hsplit, List.mem_append, List.mem_singleton] at hmem
    rcases hmem with hmem | hlast
    · exact hordered.2.2 completed hmem _ (List.mem_singleton_self _)
    · exact hlast.le

/-- A dream counts for a night exactly if one of the completions is of it or of a later one. -/
theorem Sound.dreamt_iff
    {s : State}
    (h : Sound s)
    (night : Int) :
    dreamt s.persisted.lastDreamerRun night = true ↔
      ∃ completed ∈ s.completed, night ≤ completed := by
  constructor
  · intro hdreamt
    cases hrun : s.persisted.lastDreamerRun with
    | none => simp [dreamt, hrun] at hdreamt
    | some last =>
        have hmem : last ∈ s.completed := List.mem_of_getLast? (by rw [← h.last, hrun])
        exact ⟨last, hmem, by simpa [dreamt, hrun] using hdreamt⟩
  · rintro ⟨completed, hmem, hopen⟩
    obtain ⟨last, hrun, -, hle⟩ := h.latest hmem
    simpa [dreamt, hrun] using hopen.trans hle

theorem processNightlyMemory_of_dreamt
    {config : Config} {persisted : Persisted} {now night : Int} {found : Found}
    {memoryHour : Fin 24}
    (hhour : config.nightlyMemoryHour = some memoryHour)
    (hnight : nightStart (memoryHour.val : Nat) now = some night)
    (hdreamt : dreamt persisted.lastDreamerRun night = true) :
    processNightlyMemory config persisted now found = none := by
  simp [processNightlyMemory, hhour, hnight, hdreamt]

/-- Where no dream counts for the night, the drop has the name it has if none ever ran. -/
theorem processNightlyMemory_of_not_dreamt
    {config : Config} {persisted : Persisted} {now night : Int} {found : Found}
    {memoryHour : Fin 24}
    (hhour : config.nightlyMemoryHour = some memoryHour)
    (hnight : nightStart (memoryHour.val : Nat) now = some night)
    (hdreamt : dreamt persisted.lastDreamerRun night = false) :
    (processNightlyMemory config persisted now found).map Drop.name =
      (processNightlyMemory config { persisted with lastDreamerRun := none } now found).map
        Drop.name := by
  have hnone : dreamt none night = false := rfl
  simp only [processNightlyMemory, hhour, hnight, hdreamt, hnone, Option.bind_eq_bind,
    Option.bind_some]
  split_ifs <;> rfl

/-- The state of a loop that no dream was ever completed in. -/
def State.undreamt (s : State) : State :=
  { s with persisted := { s.persisted with lastDreamerRun := none }, completed := [] }

/-- How the completions of a state bear on the checks that can come next. -/
structure OncePerNight (config : Config) (memoryHour : Int) (s : State) : Prop where
  /-- The instants of a window have one night, on either side of midnight. -/
  night : ∀ {night now}, Opens memoryHour night → night ≤ now →
    now < night + dreamerCatchupHours * hour → nightStart memoryHour now = some night
  /-- A completion of the night suppresses its drops. -/
  suppressed : ∀ {now reading found night completed}, Enabled s (.wake now reading found) →
    nightStart memoryHour reading = some night →
    completed ∈ s.completed → nightStart memoryHour completed = some night →
    dropped config s (.wake now reading found) = none
  /-- The completions of other nights, or of none, suppress nothing. -/
  unaffected : ∀ {now reading found night}, Enabled s (.wake now reading found) →
    nightStart memoryHour reading = some night →
    (∀ completed ∈ s.completed, nightStart memoryHour completed ≠ some night) →
    (dropped config s (.wake now reading found)).map Drop.name =
      (dropped config s.undreamt (.wake now reading found)).map Drop.name

/-- In every run, however the clock reads and whenever dreams complete, a night that a dream is
complete for gets no further drop, and every other night gets the drops it gets without. -/
theorem dream_once_per_night
    {config : Config} {memoryHour : Fin 24} {s : State}
    (hhour : config.nightlyMemoryHour = some memoryHour)
    (hs : machine.Reaches Machine.always s) :
    OncePerNight config (memoryHour.val : Nat) s := by
  have hlow : (0 : Int) ≤ (memoryHour.val : Nat) := Int.natCast_nonneg _
  have hhigh : ((memoryHour.val : Nat) : Int) < 24 := by exact_mod_cast memoryHour.isLt
  have hsound := sound_of_reaches hs
  constructor
  · intro night now hopens hopen hclose
    exact (nightStart_eq_some_iff hlow hhigh).2 ⟨hopens, hopen, hclose⟩
  · intro now reading found night completed henabled hnight hmem hsame
    have hopen := ((nightStart_eq_some_iff hlow hhigh).1 hsame).2.1
    have hdreamt := (hsound.dreamt_iff night).2 ⟨completed, hmem, hopen⟩
    simp only [dropped, processNightlyMemory_of_dreamt hhour hnight hdreamt, ite_self]
  · intro now reading found night henabled hnight hothers
    -- A completion at or after the opening would be in the window, as it is before the reading.
    have hdreamt : dreamt s.persisted.lastDreamerRun night = false := by
      rw [Bool.eq_false_iff]
      intro hdreamt
      obtain ⟨completed, hmem, hopen⟩ := (hsound.dreamt_iff night).1 hdreamt
      have hpast := (hsound.past completed hmem).trans (henabled.1.trans henabled.2)
      exact hothers completed hmem (nightStart_of_le hlow hhigh hnight hopen hpast)
    have hcheck : checks s.undreamt now = checks s now := rfl
    simp only [dropped, hcheck]
    split_ifs
    · exact processNightlyMemory_of_not_dreamt hhour hnight hdreamt
    · rfl

/-- Eleven at night, with no delay. -/
def late : Config where
  ephemeral := false
  nightlyMemoryHour := some 23
  agentName := "iris".toList
  digest _ := 0

def begun : State := ⟨0, -hour, ⟨true, none⟩, []⟩

/-- A dream completes at half past eleven on the first day. -/
def slept : State := machine.runTo begun [.complete (23 * hour + 30 * minute)]

/-- Half an hour past midnight the night is still that of the day before; the next night's dream
drops. -/
theorem slept_once_per_night :
    OncePerNight late 23 slept ∧
      dropped late slept (.wake (24 * hour) (24 * hour + 30 * minute) ⟨none, none⟩) = none ∧
      (dropped late slept (.wake (47 * hour) (48 * hour) ⟨none, none⟩)).isSome = true := by
  have hbegins : Begins begun := ⟨rfl, by simp [begun], rfl⟩
  have hreaches : machine.Reaches Machine.always slept :=
    Machine.Reaches.runTo (.start hbegins) _ (Machine.admits_always _ _ _) (by decide)
  have hhour : late.nightlyMemoryHour = some 23 := rfl
  exact ⟨dream_once_per_night hhour hreaches, by decide, by decide⟩

end Dream
end Agent
end Vesta
