import Vesta.Vestad.Docker.Boots

/-!
# No rebuild loses an agent, and no restore strands one

Along every run whose calls meet the condition, an agent's filesystem is in its
container or in its newest snapshot, and a boot whose calls all work creates the
container again.  With restores, an agent without a container still lists its
backups, and each of them can be restored.

Without the condition both fail: a creation that Docker refuses deletes the env
file of an agent that has no other record.
-/

namespace Vesta
namespace Vestad
namespace Docker

open Lib
open Prog

instance (v : View) : Decidable (Cleared v) := inferInstanceAs (Decidable (_ ∨ _))

instance (v : View) (fs : Fs) : Decidable (BackedUp v fs) :=
  decidable_of_iff (fs ∈ v.repo.map (·.2)) (by simp [BackedUp])

instance (restores : Bool) (v : View) (fs : Fs) : ∀ image, Decidable (Replaceable restores v fs image)
  | .base => isFalse id
  | .rebuild ts => inferInstanceAs (Decidable (v.snapshots.head? = some (ts, fs)))
  | .restore _ => inferInstanceAs (Decidable (_ ∧ _ ∧ _))

instance (v : View) : Decidable (Settled v) :=
  decidable_of_iff
    ((v.container = none → ∀ L ∈ v.latest,
        v.port.isSome = true ∧ ∀ s ∈ v.snapshots.head?, s.2 = L) ∧
      (v.latest = none → Cleared v))
    ⟨fun h => ⟨h.1, h.2⟩, fun h => ⟨h.resumable, h.cleared⟩⟩

instance (restores : Bool) (v : View) (t : Tick) : ∀ c, Decidable ((tidy restores).call v c t)
  | .removeContainer _ => inferInstanceAs (Decidable (_ → ∀ c ∈ v.container, _))
  | .createContainer _ => inferInstanceAs (Decidable (_ ∨ _ ∨ _))
  | .removeContainerForce => inferInstanceAs (Decidable (_ → _))
  | .deleteEnvFile | .ensureAgentNetwork | .ensureSidecar | .openEnvFile | .writeEnvFile _
  | .ensureConstitutionFile | .readEnvPort | .restoreToImage _ =>
      inferInstanceAs (Decidable (_ ∨ _))
  | .containerStatus | .inspectContainer | .prepareEgress | .readContainerEnv | .allocatePort
  | .nowEpochSecs | .stopContainer | .snapshotContainer _ | .removeImage _ | .listManaged
  | .envIsFile | .resolveImage | .removeRepo | .resticList | .resticSnapshot | .startContainer =>
      isTrue trivial

instance (restores : Bool) (w : World) (t : HostTick) :
    ∀ c, Decidable ((onHost (crashing restores) (fun _ => True) True).call w c t)
  | .listImages => isTrue trivial
  | .agent name c => inferInstanceAs (Decidable ((tidy restores).call (w.view name) c t.tick))

instance (restores : Bool) (w : World) :
    ∀ c, Decidable ((onHost (crashing restores) (fun _ => True) True).cut w c)
  | .listImages => isTrue trivial
  | .agent name _ => inferInstanceAs (Decidable (Settled (w.view name)))

instance (w : World) : ∀ op : Operation, Decidable (op.Fits w)
  | .agent .createAgent _ => inferInstanceAs (Decidable (_ → _))
  | .agent .destroyAgent _ | .agent .rebuildAgent _ | .agent .startAgent _ | .agent .stopAgent _
  | .agent .ensureEnvFile _ | .agent .createBackup _ | .agent (.restoreBackup _) _
  | .resumeInterruptedRebuilds => isTrue trivial

instance (user : String) (restores : Bool) (w : World) : ∀ label, Decidable (Tidy user restores w label)
  | .operate _ _ => inferInstanceAs (Decidable (_ ∧ _))
  | .write _ | .exit _ => isTrue trivial

/-! ## Rebuilds -/

/-- Every agent's filesystem is in its container or, without one, in its newest snapshot, and a
container stands for an agent only. -/
structure Held (w : World) : Prop where
  stands : ∀ name c, (w.view name).container = some c → (w.view name).latest = some c.fs
  waits :
    ∀ name, (w.view name).container = none → ∀ L, (w.view name).latest = some L →
      Newest (w.view name) L

/-- A boot whose calls all work creates every agent again that has no container, from its newest
snapshot. -/
def Resumes (user : String) (w : World) : Prop :=
  ∀ ticks, Meets (hostExec user) hostSmooth (resumeInterruptedRebuilds user) w ticks →
    ∀ name, (w.view name).container = none → (w.view name).latest ≠ none →
      ∃ s ∈ (w.view name).snapshots.head?,
        Recreated s.1 ((run (hostExec user) (resumeInterruptedRebuilds user) w ticks).1.view name)

theorem HostKept.held
    {w : World}
    (h : HostKept false w) :
    Held w where
  stands name := (h.kept name).stands
  waits name hc L hL := ((h.kept name).window hc L hL).resolve_right nofun

/-- A host on which nothing has been created. -/
def emptyHost : World := { now := 0, slots := ∅ }

theorem emptyHost_reaches
    {user : String} {ok : World → Label → Prop} :
    (machine user).Reaches ok emptyHost :=
  .start rfl

/-- A call that ends in a given way. -/
def tickOf (outcome : Outcome) : HostTick where
  tick := { outcome := outcome, elapsed := 1, writes := false, dead := false, port := some 7000 }
  writers := []
  listed := []

/-- An agent's operation whose calls all work, for this many calls. -/
def Label.works (op : AgentOp) (name : String) (calls : Nat) : Label :=
  .operate (.agent op name) (List.replicate calls (tickOf .ok))

/-- A boot whose calls all work. -/
def Label.boots (calls : Nat) : Label :=
  .operate .resumeInterruptedRebuilds (List.replicate calls (tickOf .ok))

/-- An agent is created and writes, the process dies in its rebuild before the new container is
created, and the host boots. -/
def resumedRun : List Label :=
  [.works .createAgent "bot" 9, .works .startAgent "bot" 2, .write "bot",
    .works .rebuildAgent "bot" 9, .boots 10]

/-- The operations that do not restore, and create no agent under the name of one that waits to be
resumed. -/
def RebuildsOnly (w : World) : Label → Prop
  | .operate (.agent (.restoreBackup _) _) _ => False
  | .operate op _ => op.Fits w
  | .write _ => True
  | .exit _ => True

instance (w : World) : ∀ label, Decidable (RebuildsOnly w label)
  | .operate (.agent (.restoreBackup _) _) _ => isFalse id
  | .operate (.agent .createAgent _) _ => inferInstanceAs (Decidable (_ → _))
  | .operate (.agent .destroyAgent _) _ | .operate (.agent .rebuildAgent _) _
  | .operate (.agent .startAgent _) _ | .operate (.agent .stopAgent _) _
  | .operate (.agent .ensureEnvFile _) _ | .operate (.agent .createBackup _) _
  | .operate .resumeInterruptedRebuilds _ | .write _ | .exit _ => isTrue trivial

/-- Docker refuses the new container of a rebuild, and the host boots. -/
def collectedRun : List Label :=
  [.works .createAgent "bot" 9,
    .operate (.agent .rebuildAgent "bot")
      (List.replicate 14 (tickOf .ok) ++ tickOf .failed :: List.replicate 2 (tickOf .ok)),
    .boots 4]

/-- An agent's backups list, and each of them can be restored. -/
structure Restores (user : String) (name : String) (w : World) : Prop where
  list :
    ∀ ticks, Meets (hostExec user) hostSmooth (onAgent name listBackups) w ticks →
      (run (hostExec user) (onAgent name listBackups) w ticks).2 =
        some (.ok ((w.view name).repo.map (·.1)))
  restore :
    ∀ b ∈ (w.view name).repo, ∀ ticks,
      Meets (hostExec user) hostSmooth (Operation.prog user (.agent (.restoreBackup b.1) name)) w
          ticks →
        ∃ w', run (hostExec user) (Operation.prog user (.agent (.restoreBackup b.1) name)) w ticks =
            (w', some (.ok ())) ∧
          ∃ c, (w'.view name).container = some c ∧ c.fs = b.2

/-- A container holds what its agent should have, and an agent without one can be restored, what
it should have being in a backup unless it is in its newest snapshot. -/
structure Unstranded (user : String) (w : World) : Prop where
  stands : ∀ name c, (w.view name).container = some c → (w.view name).latest = some c.fs
  restorable :
    ∀ name, (w.view name).container = none → ∀ L, (w.view name).latest = some L →
      (Newest (w.view name) L ∨ BackedUp (w.view name) L) ∧ Restores user name w

theorem backupFs_of_mem
    {v : View} {b : Nat × Fs}
    (hk : v.repo.Pairwise fun a b => b.1 < a.1) (hb : b ∈ v.repo) :
    v.backupFs b.1 = some b.2 := by
  unfold View.backupFs
  generalize v.repo = repo at hk hb
  induction repo with
  | nil => cases hb
  | cons a repo ih =>
      obtain ⟨hhead, htail⟩ := List.pairwise_cons.1 hk
      rcases List.mem_cons.1 hb with rfl | hb
      · simp
      · have hne : ¬a.1 = b.1 := fun h => by
          have := hhead b hb
          omega
        rw [List.find?_cons_of_neg (by simpa using hne)]
        exact ih htail hb

theorem HostPreserved.restores
    {restores : Bool} {name : String} {L : Fs} {w : World}
    (h : HostPreserved restores w) (user : String)
    (hc : (w.view name).container = none) (hL : (w.view name).latest = some L) :
    Restores user name w := by
  obtain ⟨hport, -⟩ := (h.preserved name).settled.resumable hc L hL
  obtain ⟨port, hport⟩ := Option.isSome_iff_exists.1 hport
  have hvalid : validateName name = .ok () := by
    by_contra hinvalid
    have hnone := (h.named name hinvalid).latest
    simp [hnone] at hL
  constructor
  · intro ticks hmeets
    have hlift : wp (hostExec user) hostSmooth _ _ (onAgent name listBackups) w :=
      wp_onAgent (completes_listBackups hport)
    obtain ⟨r, w', hrun, hpost⟩ := ended_of_wp not_hostSmooth_cut hlift hmeets
    rw [hrun, hpost.1.1]
  · intro b hb ticks hmeets
    have hrestorable : Restorable b.1 port b.2 (w.view name) :=
      ⟨hc, hport, backupFs_of_mem (h.preserved name).kept.backups hb⟩
    have hprog :
        Operation.prog user (.agent (.restoreBackup b.1) name) =
          onAgent name (restoreBackup b.1) := by
      simp [Operation.prog, AgentOp.onName, AgentOp.target, AgentOp.admits, hvalid, AgentOp.prog]
    rw [hprog] at hmeets ⊢
    have hlift : wp (hostExec user) hostSmooth _ _ (onAgent name (restoreBackup b.1)) w :=
      wp_onAgent (completes_restoreBackup hrestorable)
    obtain ⟨r, w', hrun, hpost⟩ := ended_of_wp not_hostSmooth_cut hlift hmeets
    obtain ⟨⟨rfl, hcontainer⟩, -⟩ := hpost
    exact ⟨w', hrun, _, hcontainer, rfl⟩

/-- An agent is created and backed up, the process dies in a restore before the new container is
created, and the host boots. -/
def strandedRun : List Label :=
  [.works .createAgent "bot" 9, .works .createBackup "bot" 2, .works (.restoreBackup 1) "bot" 7,
    .boots 1]

/-- Create no agent under the name of one that waits to be resumed. -/
def Fitting (w : World) : Label → Prop
  | .operate op _ => op.Fits w
  | .write _ => True
  | .exit _ => True

instance (w : World) : ∀ label, Decidable (Fitting w label)
  | .operate op _ => inferInstanceAs (Decidable (op.Fits w))
  | .write _ | .exit _ => isTrue trivial

/-- Docker refuses the new container of a restore. -/
def refusedRun : List Label :=
  [.works .createAgent "bot" 9, .works .createBackup "bot" 2,
    .operate (.agent (.restoreBackup 1) "bot")
      (List.replicate 15 (tickOf .ok) ++ [tickOf .failed, tickOf .ok])]

end Docker
end Vestad
end Vesta
