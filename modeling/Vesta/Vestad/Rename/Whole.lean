import Vesta.Vestad.Rename.Handler

/-!
# What a rename leaves behind

An agent is whole under a name when a container of that name holds its
filesystem as it was last written, and its constitution, its proxy, its backups
and its entries in the settings, in memory and in the file, are kept under that
name.

A rename leaves the agent whole under one of its two names along every run whose
calls meet a condition on what fails once the old container is to be removed,
and on where the run is cut.
-/

namespace Vesta
namespace Vestad
namespace Rename

open Lib
open Prog
open Docker (Fs ContainerStatus Tick)

/-- What an agent owns besides its container. -/
structure Belongings where
  constitution : String
  proxy : Option String
  repo : Option (List Nat)
  entries : Entries
deriving DecidableEq

namespace Host

/-- What is kept under a name, with the entries that the given settings have. -/
def belongings (w : Host) (settings : String → Entries) (name : String) : Belongings where
  constitution := (w.slots name).constitution.getD ""
  proxy := (w.slots name).proxy
  repo := (w.slots name).repo
  entries := settings name

/-- The agent is whole under a name. -/
structure Stands (w : Host) (name : String) (owned : Belongings) : Prop where
  container : ∃ c, (w.slots name).container = some c ∧ c.fs = w.latest
  memory : w.belongings w.memory name = owned
  stored : w.belongings w.stored name = owned

/-- The agent is whole under its old name, or under its new name only. -/
def Complete (w : Host) (old new : String) (owned : Belongings) : Prop :=
  w.Stands old owned ∨ ((w.slots old).container = none ∧ w.Stands new owned)

/-- The agent is whole under one of its names, or is so after the next boot. -/
def Outcome (w : Host) (old new : String) (owned : Belongings) : Prop :=
  w.Complete old new owned ∨ (w.boot old new).Complete old new owned

/-- A thing kept under the old name is kept under the new name too, or there is none. -/
def Carried {α : Type} (kept moved : Option α) : Prop := kept = none ∨ moved = kept

/-- Nothing of these settings is left to move. -/
structure EntriesCarried (kept moved : Entries) : Prop where
  agent : Carried kept.agent moved.agent
  services : Carried kept.services moved.services
  backup : Carried kept.backup moved.backup

/-- The old container stands, or the new one does and nothing is left to move. -/
def Ungapped (w : Host) (old new : String) : Prop :=
  (w.slots old).container ≠ none ∨
    ((w.slots new).container ≠ none ∧ Carried (w.slots old).repo (w.slots new).repo ∧
      EntriesCarried (w.memory old) (w.memory new) ∧
        EntriesCarried (w.stored old) (w.stored new))

end Host

/-- Where the old name has none, neither has the new one. -/
def Clear {α : Type} (kept stale : Option α) : Prop := kept = none → stale = none

structure EntriesClear (kept stale : Entries) : Prop where
  agent : Clear kept.agent stale.agent
  services : Clear kept.services stale.services
  backup : Clear kept.backup stale.backup

/-- The calls of a rename that may end in a given way. -/
def sound (old new : String) : Guard Call Host Tick where
  call w c t :=
    match c with
    | .containerStatus name =>
        name = new → (w.slots old).container ≠ none → (w.slots new).container ≠ none →
          t.outcome.reports = true
    | .removalStatus name => (w.slots name).container ≠ none → t.outcome.reports = true
    | .removeContainer name =>
        t.outcome.acts = true → ∀ c ∈ (w.slots name).container,
          w.images.head?.map (·.2) = some c.fs
    | .renameProxy _ _ =>
        ((w.slots old).proxy ≠ none → t.outcome.reports = true) ∧
          Clear (w.slots old).proxy (w.slots new).proxy
    | .readConstitution _ =>
        if (w.slots old).constitution.getD "" = "" then
          (w.slots new).constitution.getD "" = ""
        else t.outcome.reports = true
    | .writeConstitution _ _ => t.outcome.acts = true
    | .ensureAgentNetwork _ | .ensureSidecar _ | .loadProxy _ | .openEnvFile _
    | .writeEnvFile _ _ | .ensureConstitutionFile _ => t.outcome.reports = true
    | .createContainer _ _ _ =>
        t.outcome.reports = true ∧ Clear (w.slots old).repo (w.slots new).repo ∧
          EntriesClear (w.memory old) (w.memory new) ∧
            EntriesClear (w.stored old) (w.stored new)
    | .renameRepo _ _ =>
        (w.slots old).repo ≠ none → (w.slots new).repo = none ∧ t.outcome.reports = true
    | .saveSettings => w.stored old ≠ .none → t.outcome.acts = true
    | _ => True
  cut _ _ := True

variable {old new : String} {owned : Belongings}

/-! ## Before the old container is removed -/

/-- The calls before the removal. -/
def Gentle (old : String) : Call → Prop
  | .readMounts _ | .prepareEgress _ | .containerStatus _ | .inspectContainer _ | .readEnvPort _
  | .readContainerEnv _ | .allocatePort | .handoffShutdownReason _ | .nowEpochSecs
  | .removalStatus _ => True
  | .stopContainer name => name = old
  | .snapshotContainer name _ => name = old
  | _ => False

/-- The agent is whole under its old name, and the new name has no container. -/
structure Ready (w : Host) (old new : String) (owned : Belongings) : Prop where
  stands : w.Stands old owned
  unborn : (w.slots new).container = none

theorem Host.Stands.write
    {w : Host}
    (h : w.Stands old owned) :
    (w.write old).Stands old owned := by
  obtain ⟨c, hc, hfs⟩ := h.container
  unfold Host.write
  rw [hc]
  dsimp only
  split
  · refine ⟨⟨_, by simp [Host.put]; rfl, rfl⟩, ?_, ?_⟩
    · rw [← h.memory]
      simp [Host.belongings, Host.put]
    · rw [← h.stored]
      simp [Host.belongings, Host.put]
  · exact h

theorem Host.Stands.pass
    {w : Host}
    (h : w.Stands old owned) (t : Tick) :
    (w.pass old t).Stands old owned := by
  have hwrite : (if t.writes then w.write old else w).Stands old owned := by
    split
    · exact h.write
    · exact h
  exact ⟨hwrite.container, hwrite.memory, hwrite.stored⟩

theorem Host.Stands.setRunning
    {w : Host}
    (h : w.Stands old owned) (running : Bool) :
    (w.setRunning old running).Stands old owned := by
  obtain ⟨c, hc, hfs⟩ := h.container
  refine ⟨⟨{ c with running := running }, by simp [Host.setRunning, Host.put, hc], hfs⟩, ?_, ?_⟩
  · rw [← h.memory]
    simp [Host.belongings, Host.setRunning, Host.put]
  · rw [← h.stored]
    simp [Host.belongings, Host.setRunning, Host.put]

theorem Host.Stands.act
    {w : Host} {c : Call}
    (h : w.Stands old owned)
    (hgentle : Gentle old c) (t : Tick) :
    (w.act c t).2.Stands old owned := by
  cases c with
  | stopContainer name =>
      obtain rfl : name = old := hgentle
      simp only [Host.act]
      split
      · exact h.setRunning false
      · exact h
  | snapshotContainer name image =>
      simp only [Host.act]
      split
      · exact h
      · exact ⟨h.container, h.memory, h.stored⟩
  | _ => first | exact h | exact hgentle.elim

theorem Host.slots_write
    {w : Host} {name other : String}
    (hne : other ≠ name) :
    (w.write name).slots other = w.slots other := by
  unfold Host.write
  split
  · rfl
  · split
    · exact Function.update_of_ne hne _ _
    · rfl

theorem Host.slots_pass
    {w : Host} {name other : String}
    (hne : other ≠ name) (t : Tick) :
    (w.pass name t).slots other = w.slots other := by
  unfold Host.pass
  split
  · exact Host.slots_write hne
  · rfl

theorem slots_act_of_gentle
    {w : Host} {c : Call}
    (hgentle : Gentle old c)
    (hne : new ≠ old) (t : Tick) :
    (w.act c t).2.slots new = w.slots new := by
  cases c with
  | stopContainer name =>
      obtain rfl : name = old := hgentle
      simp only [Host.act]
      split
      · exact Function.update_of_ne hne _ _
      · rfl
  | snapshotContainer name image =>
      simp only [Host.act]
      split <;> rfl
  | _ => first | rfl | exact hgentle.elim

theorem Host.Stands.exec
    {w : Host} {c : Call}
    (h : w.Stands old owned)
    (hgentle : Gentle old c) (t : Tick) :
    (Rename.exec old w c t).2.Stands old owned :=
  (h.act hgentle t).pass t

theorem Ready.exec
    {w : Host} {c : Call}
    (h : Ready w old new owned)
    (hne : new ≠ old)
    (hgentle : Gentle old c) (t : Tick) :
    Ready (Rename.exec old w c t).2 old new owned where
  stands := h.stands.exec hgentle t
  unborn := by
    rw [Rename.exec, Host.slots_pass hne, slots_act_of_gentle hgentle hne]
    exact h.unborn

/-! ## Between the removal and the creation -/

/-- The snapshot that was last taken is that of the rename. -/
def Snapshotted (w : Host) (image : Image) : Prop :=
  ∃ fs, w.images.head? = some (image, fs)

/-- No container of either name, and the filesystem in the snapshot. -/
structure Gap (w : Host) (old new : String) (image : Image) (owned : Belongings) : Prop where
  gone : (w.slots old).container = none
  unborn : (w.slots new).container = none
  image : w.imageFs image = some w.latest
  repo : (w.slots old).repo = owned.repo
  memory : w.memory old = owned.entries
  stored : w.stored old = owned.entries

/-- The old container is gone, and all files are where they were. -/
structure Removed (w : Host) (old new : String) (image : Image) (owned : Belongings) : Prop
    extends Gap w old new image owned where
  proxy : (w.slots old).proxy = owned.proxy
  constitution : (w.slots old).constitution.getD "" = owned.constitution

theorem Host.write_of_gone
    {w : Host} {name : String}
    (h : (w.slots name).container = none) :
    w.write name = w := by
  simp [Host.write, h]

theorem exec_of_gone
    {w : Host} {c : Call} {t : Tick}
    (h : ((w.act c t).2.slots old).container = none) :
    (exec old w c t).2 = { (w.act c t).2 with now := (w.act c t).2.now + t.elapsed } := by
  simp [exec, Host.pass, Host.write_of_gone h]

theorem Ready.remove
    {w : Host} {image : Image}
    (h : Ready w old new owned)
    (hne : new ≠ old)
    (hsnap : Snapshotted w image)
    (hcurrent : ∀ c ∈ (w.slots old).container, w.images.head?.map (·.2) = some c.fs) :
    Removed (w.put old { w.slots old with container := none }) old new image owned := by
  obtain ⟨⟨c, hc, hfs⟩, hmemory, hstored⟩ := h.stands
  obtain ⟨fs, himage⟩ := hsnap
  have hlatest : fs = w.latest := by simpa [himage, ← hfs] using hcurrent c hc
  subst hmemory
  have hentries : w.stored old = w.memory old := congrArg Belongings.entries hstored
  refine ⟨⟨by simp [Host.put], by simpa [Host.put, hne] using h.unborn, ?_, by
    simp [Host.put, Host.belongings], rfl, hentries⟩, by simp [Host.put, Host.belongings], by
    simp [Host.put, Host.belongings]⟩
  obtain ⟨rest, hrest⟩ := List.head?_eq_some_iff.1 himage
  simp [Host.imageFs, Host.put, hrest, hlatest]

theorem Host.Stands.complete
    {w : Host}
    (h : w.Stands old owned) :
    w.Complete old new owned :=
  .inl h

theorem Host.Stands.cut_iff
    {w : Host}
    (h : w.Stands old owned) :
    w.Complete old new owned ↔ w.Ungapped old new := by
  obtain ⟨c, hc, -⟩ := h.container
  exact iff_of_true h.complete (.inl (by simp [hc]))

theorem Ready.complete
    {w : Host}
    (h : Ready w old new owned) :
    w.Complete old new owned :=
  h.stands.complete

theorem Ready.cut_iff
    {w : Host}
    (h : Ready w old new owned) :
    w.Complete old new owned ↔ w.Ungapped old new :=
  h.stands.cut_iff

theorem Gap.cut_iff
    {w : Host} {image : Image}
    (h : Gap w old new image owned) :
    w.Complete old new owned ↔ w.Ungapped old new := by
  refine iff_of_false ?_ ?_
  · rintro (⟨⟨c, hc, -⟩, -, -⟩ | ⟨-, ⟨c, hc, -⟩, -, -⟩)
    · simp [h.gone] at hc
    · simp [h.unborn] at hc
  · rintro (hold | ⟨hnew, -⟩)
    · exact hold h.gone
    · exact hnew h.unborn

section Runs

variable (old new owned) in
/-- What a step leaves: an assertion where it goes on, and a whole agent where it gives up. -/
def Settles {α : Type} (P : Host → Prop) : Except String α → Host → Prop
  | .ok _, w => P w
  | .error _, w => w.Complete old new owned

variable (old new owned) in
/-- A step of a rename leaves the agent whole where it gives up, and `P` where it goes on.  Where
it is cut, the agent is whole outside the gap only. -/
abbrev Whole {α : Type} (P : Host → Prop) (p : Op α) (w : Host) : Prop :=
  wp (exec old) (sound old new) (fun w => w.Complete old new owned ↔ w.Ungapped old new)
    (Settles old new owned P) p w

theorem whole_seq
    {α β : Type} {P P' : Host → Prop} {p : Op α} {f : α → Op β} {w : Host}
    (hp : Whole old new owned P p w)
    (hf : ∀ a w', P w' → Whole old new owned P' (f a) w') :
    Whole old new owned P' (p >>= f) w :=
  wp_seq hp (fun a w' h => hf a w' h) fun _ _ h => h

/-- One call, and what follows it. -/
theorem whole_ask
    {α : Type} {P : Host → Prop} {c : Call} {f : Answer c → Op α} {w : Host}
    (hcut : w.Complete old new owned ↔ w.Ungapped old new)
    (hcall :
      ∀ t, (sound old new).call w c t →
        Whole old new owned P (f (exec old w c t).1) (exec old w c t).2) :
    Whole old new owned P (ask c >>= f) w :=
  ⟨fun _ => hcut, hcall⟩

/-- The check of a call that must work. -/
theorem whole_orFail
    {P : Host → Prop} {w : Host} {message : String} {worked : Bool}
    (hok : worked = true → P w)
    (herror : worked = false → w.Complete old new owned) :
    Whole old new owned P (orFail message worked) w := by
  cases worked with
  | true => exact hok rfl
  | false => exact herror rfl

theorem whole_bestEffort
    {P : Host → Prop} {c : Call} {w : Host}
    (hcut : w.Complete old new owned ↔ w.Ungapped old new)
    (hcall : ∀ t, (sound old new).call w c t → P (exec old w c t).2) :
    Whole old new owned P (bestEffort c) w :=
  ⟨fun _ => hcut, hcall⟩

/-- The steps before the removal leave the agent whole under its old name. -/
theorem whole_of_gentle
    {α : Type} {p : Op α} {w : Host}
    (hne : new ≠ old)
    (hp : Only (Gentle old) p)
    (h : Ready w old new owned) :
    Whole old new owned (fun w => Ready w old new owned) p w := by
  have hwp :
      wp (exec old) (sound old new) (fun w => w.Complete old new owned ↔ w.Ungapped old new)
        (fun _ w => Ready w old new owned) p w :=
    wp_of_only hp
      (fun w c h _ => Ready.cut_iff h)
      (fun w c t hc h _ => Ready.exec h hne hc t) h
  refine wp_mono (fun r w h => ?_) hwp
  cases r with
  | ok a => exact h
  | error e => exact h.complete

/-- The removal is still ahead, or behind. -/
def Removing (w : Host) (old new : String) (image : Image) (owned : Belongings) : Prop :=
  Ready w old new owned ∧ Snapshotted w image ∨ Removed w old new image owned

theorem Removing.cut_iff
    {w : Host} {image : Image}
    (h : Removing w old new image owned) :
    w.Complete old new owned ↔ w.Ungapped old new := by
  rcases h with ⟨hready, -⟩ | hremoved
  · exact hready.cut_iff
  · exact hremoved.cut_iff

theorem Removed.exec
    {w : Host} {c : Call} {t : Tick} {image : Image}
    (h : Removed (w.act c t).2 old new image owned) :
    Removed (Rename.exec old w c t).2 old new image owned := by
  rw [exec_of_gone h.gone]
  exact { h with }

theorem Snapshotted.pass
    {w : Host} {image : Image}
    (h : Snapshotted w image) (t : Tick) :
    Snapshotted (w.pass old t) image := by
  obtain ⟨fs, hfs⟩ := h
  refine ⟨fs, ?_⟩
  rw [← hfs]
  unfold Host.pass Host.write
  repeat' split
  all_goals rfl

/-- A status that is read of a container that stands is not that of an absent one. -/
theorem removed_of_notFound
    {w : Host} {t : Tick} {image : Image}
    (h : Removing w old new image owned)
    (hreports : (w.slots old).container ≠ none → t.outcome.reports = true)
    (hstatus : (w.act (.removalStatus old) t).1 = ContainerStatus.notFound) :
    Removed w old new image owned := by
  rcases h with ⟨⟨⟨⟨c, hc, -⟩, -, -⟩, -⟩, -⟩ | hremoved
  · have hread : t.outcome.reports = true := hreports (by simp [hc])
    simp only [Host.act, hread, if_true, Host.status, hc] at hstatus
    split at hstatus
    · cases hstatus
    · split at hstatus <;> cases hstatus
  · exact hremoved

/-- An absent container has no other status. -/
theorem ready_of_status
    {w : Host} {t : Tick} {image : Image}
    (h : Removing w old new image owned)
    (hstatus : (w.act (.removalStatus old) t).1 ≠ ContainerStatus.notFound) :
    Ready w old new owned ∧ Snapshotted w image := by
  rcases h with hready | hremoved
  · exact hready
  · refine absurd ?_ hstatus
    simp only [Host.act, Host.status, hremoved.gone]
    split <;> rfl

theorem Removing.read
    {w : Host} {image : Image}
    (h : Removing w old new image owned)
    (hne : new ≠ old) (t : Tick) :
    Removing (exec old w (.removalStatus old) t).2 old new image owned := by
  rcases h with ⟨hready, hsnap⟩ | hremoved
  · exact .inl ⟨hready.exec (c := .removalStatus old) hne trivial t, hsnap.pass t⟩
  · exact .inr (Removed.exec (w := w) (c := .removalStatus old) hremoved)

theorem Removing.remove
    {w : Host} {t : Tick} {image : Image}
    (h : Removing w old new image owned)
    (hne : new ≠ old)
    (hcall : (sound old new).call w (.removeContainer old) t) :
    Removing (exec old w (.removeContainer old) t).2 old new image owned := by
  by_cases hacts : t.outcome.acts = true
  · refine .inr (Removed.exec ?_)
    simp only [Host.act, hacts, if_true]
    rcases h with ⟨hready, hsnap⟩ | hremoved
    · exact hready.remove hne hsnap (hcall hacts)
    · have hsame : w.put old { w.slots old with container := none } = w := by
        rw [Host.put, ← hremoved.gone, Function.update_eq_self]
      rw [hsame]
      exact hremoved
  · have hact : (w.act (.removeContainer old) t).2 = w := by simp [Host.act, hacts]
    rcases h with ⟨hready, hsnap⟩ | hremoved
    · refine .inl ⟨⟨?_, ?_⟩, ?_⟩
      · rw [exec, hact]
        exact hready.stands.pass t
      · rw [exec, hact, Host.slots_pass hne]
        exact hready.unborn
      · rw [exec, hact]
        exact hsnap.pass t
    · refine .inr (Removed.exec ?_)
      rwa [hact]

theorem whole_ensureContainerRemoved
    {w : Host} {image : Image}
    (hne : new ≠ old)
    (left : Nat)
    (h : Removing w old new image owned) :
    Whole old new owned (fun w => Removed w old new image owned)
      (ensureContainerRemoved old left) w := by
  induction left generalizing w with
  | zero =>
      refine ⟨fun _ => h.cut_iff, fun t ht => ?_⟩
      change wp _ _ _ _ (if (w.act (.removalStatus old) t).1 = ContainerStatus.notFound then _
        else _) _
      split
      · next hstatus => exact Removed.exec (removed_of_notFound h ht hstatus)
      · next hstatus =>
          have hready := (ready_of_status h hstatus).1
          exact (hready.exec (c := .removalStatus old) hne trivial t).complete
  | succ left ih =>
      refine ⟨fun _ => h.cut_iff, fun t ht => ?_⟩
      change wp _ _ _ _ (if (w.act (.removalStatus old) t).1 = ContainerStatus.notFound then _
        else _) _
      split
      · next hstatus => exact Removed.exec (removed_of_notFound h ht hstatus)
      · have hread := h.read hne t
        exact ⟨fun _ => hread.cut_iff, fun t' ht' => ih (hread.remove hne ht')⟩

/-! ### The files -/

/-- The proxy is carried over. -/
structure Proxied (w : Host) (old new : String) (image : Image) (owned : Belongings) : Prop
    extends Gap w old new image owned where
  proxy : (w.slots new).proxy = owned.proxy
  constitution : (w.slots old).constitution.getD "" = owned.constitution

/-- The proxy and the constitution are carried over. -/
structure Filed (w : Host) (old new : String) (image : Image) (owned : Belongings) : Prop
    extends Gap w old new image owned where
  proxy : (w.slots new).proxy = owned.proxy
  constitution : (w.slots new).constitution.getD "" = owned.constitution

theorem Proxied.exec
    {w : Host} {c : Call} {t : Tick} {image : Image}
    (h : Proxied (w.act c t).2 old new image owned) :
    Proxied (Rename.exec old w c t).2 old new image owned := by
  rw [exec_of_gone h.gone]
  exact { h with }

theorem Filed.exec
    {w : Host} {c : Call} {t : Tick} {image : Image}
    (h : Filed (w.act c t).2 old new image owned) :
    Filed (Rename.exec old w c t).2 old new image owned := by
  rw [exec_of_gone h.gone]
  exact { h with }

theorem slots_carryProxy
    {w : Host} {proxy : String}
    (hne : new ≠ old) :
    (w.carryProxy old new proxy).slots old = { w.slots old with proxy := none } ∧
      (w.carryProxy old new proxy).slots new = { w.slots new with proxy := some proxy } := by
  simp [Host.carryProxy, Host.put, hne, hne.symm]

theorem Removed.renameProxy
    {w : Host} {t : Tick} {image : Image}
    (h : Removed w old new image owned)
    (hne : new ≠ old)
    (hcall : (sound old new).call w (.renameProxy old new) t) :
    (w.act (.renameProxy old new) t).1 = true ∧
      Proxied (w.act (.renameProxy old new) t).2 old new image owned := by
  obtain ⟨hreports, hclear⟩ := hcall
  cases hproxy : (w.slots old).proxy with
  | none =>
      have hact : w.act (.renameProxy old new) t = (true, w) := by simp only [Host.act, hproxy]
      rw [hact]
      refine ⟨rfl, { h with proxy := ?_ }⟩
      rw [hclear hproxy, ← h.proxy, hproxy]
  | some proxy =>
      have hread : t.outcome.reports = true := hreports (by simp [hproxy])
      have hact : w.act (.renameProxy old new) t = (true, w.carryProxy old new proxy) := by
        simp only [Host.act, hproxy, hread, Outcome.acts_of_reports hread, if_true]
      obtain ⟨hold, hnew⟩ := @slots_carryProxy old new w proxy hne
      rw [hact]
      refine ⟨rfl, ⟨⟨?_, ?_, h.image, ?_, h.memory, h.stored⟩, ?_, ?_⟩⟩
      · rw [hold]
        exact h.gone
      · rw [hnew]
        exact h.unborn
      · rw [hold]
        exact h.repo
      · rw [hnew, ← h.proxy, hproxy]
      · rw [hold]
        exact h.constitution

/-- A change of the files of the old name that are left behind. -/
theorem Filed.putOld
    {w : Host} {image : Image} {slot : Slot}
    (h : Filed w old new image owned)
    (hne : new ≠ old)
    (hcontainer : slot.container = (w.slots old).container)
    (hrepo : slot.repo = (w.slots old).repo) :
    Filed (w.put old slot) old new image owned := by
  have hold : (w.put old slot).slots old = slot := Function.update_self ..
  have hnew : (w.put old slot).slots new = w.slots new := Function.update_of_ne hne ..
  refine ⟨⟨?_, ?_, h.image, ?_, h.memory, h.stored⟩, ?_, ?_⟩
  · rw [hold, hcontainer]
    exact h.gone
  · rw [hnew]
    exact h.unborn
  · rw [hold, hrepo]
    exact h.repo
  · rw [hnew]
    exact h.proxy
  · rw [hnew]
    exact h.constitution

/-- A change of the files of the new name that keeps the proxy and the constitution. -/
theorem Filed.putNew
    {w : Host} {image : Image} {slot : Slot}
    (h : Filed w old new image owned)
    (hne : new ≠ old)
    (hcontainer : slot.container = none)
    (hproxy : slot.proxy = (w.slots new).proxy)
    (hconstitution : slot.constitution.getD "" = (w.slots new).constitution.getD "") :
    Filed (w.put new slot) old new image owned := by
  have hnew : (w.put new slot).slots new = slot := Function.update_self ..
  have hold : (w.put new slot).slots old = w.slots old := Function.update_of_ne hne.symm ..
  refine ⟨⟨?_, ?_, h.image, ?_, h.memory, h.stored⟩, ?_, ?_⟩
  · rw [hold]
    exact h.gone
  · rw [hnew]
    exact hcontainer
  · rw [hold]
    exact h.repo
  · rw [hnew, hproxy]
    exact h.proxy
  · rw [hnew, hconstitution]
    exact h.constitution

/-- The constitution is written for the new name. -/
theorem Proxied.writeConstitution
    {w : Host} {t : Tick} {image : Image}
    (h : Proxied w old new image owned)
    (hne : new ≠ old)
    (hacts : t.outcome.acts = true) :
    Filed (w.act (.writeConstitution new owned.constitution) t).2 old new image owned := by
  simp only [Host.act, hacts, if_true]
  have hold :
      (w.put new { w.slots new with constitution := some owned.constitution }).slots old =
        w.slots old := Function.update_of_ne hne.symm ..
  have hnew :
      (w.put new { w.slots new with constitution := some owned.constitution }).slots new =
        { w.slots new with constitution := some owned.constitution } := Function.update_self ..
  refine ⟨⟨?_, ?_, h.image, ?_, h.memory, h.stored⟩, ?_, ?_⟩
  · rw [hold]
    exact h.gone
  · rw [hnew]
    exact h.unborn
  · rw [hold]
    exact h.repo
  · rw [hnew]
    exact h.proxy
  · rw [hnew]
    rfl

/-- The files of the old name that are left behind. -/
theorem Filed.deleteEnvFile
    {w : Host} {image : Image}
    (h : Filed w old new image owned)
    (hne : new ≠ old) (t : Tick) :
    Filed (w.act (.deleteEnvFile old) t).2 old new image owned := by
  simp only [Host.act]
  split
  · exact h.putOld hne rfl rfl
  · exact h

theorem Filed.deleteConstitutionFile
    {w : Host} {image : Image}
    (h : Filed w old new image owned)
    (hne : new ≠ old) (t : Tick) :
    Filed (w.act (.deleteConstitutionFile old) t).2 old new image owned := by
  simp only [Host.act]
  split
  · exact h.putOld hne rfl rfl
  · exact h

theorem whole_carryConstitution
    {w : Host} {image : Image}
    (h : Proxied w old new image owned)
    (hne : new ≠ old) :
    Whole old new owned (fun w => Filed w old new image owned) (carryConstitution old new) w := by
  refine ⟨fun _ => h.cut_iff, fun t ht => ?_⟩
  have hnext : Proxied (exec old w (.readConstitution old) t).2 old new image owned :=
    Proxied.exec (c := .readConstitution old) h
  have hsame : (exec old w (.readConstitution old) t).2.slots = w.slots := by
    rw [exec_of_gone (c := .readConstitution old) h.gone]
    rfl
  have htext :
      ((w.act (.readConstitution old) t).1 : Option String).getD "" = owned.constitution ∧
        (owned.constitution = "" → (w.slots new).constitution.getD "" = "") := by
    simp only [sound, h.constitution] at ht
    simp only [Host.act, h.constitution]
    split at ht
    · next hempty =>
        refine ⟨?_, fun _ => ht⟩
        split
        · rfl
        · exact hempty.symm
    · next hsome =>
        rw [if_pos ht]
        exact ⟨rfl, fun hempty => (hsome hempty).elim⟩
  obtain ⟨htext, hclear⟩ := htext
  change wp _ _ _ _
    (if ((w.act (.readConstitution old) t).1 : Option String).getD "" = "" then pure ()
      else bestEffort (.writeConstitution new
        (((w.act (.readConstitution old) t).1 : Option String).getD ""))) _
  rw [htext]
  split
  · next hempty => exact { hnext with constitution := by rw [hsame, hclear hempty, hempty] }
  · exact whole_bestEffort hnext.cut_iff fun t ht => (hnext.writeConstitution hne ht).exec

theorem whole_carryFiles
    {w : Host} {image : Image}
    (h : Removed w old new image owned)
    (hne : new ≠ old) :
    Whole old new owned (fun w => Filed w old new image owned) (carryFiles old new) w := by
  refine whole_seq (P := fun w => Removed w old new image owned)
    (whole_bestEffort h.cut_iff fun t _ => Removed.exec (c := .removeSidecar old) h)
    fun _ w h => ?_
  refine whole_seq (P := fun w => Proxied w old new image owned)
    (whole_ask h.cut_iff fun t ht => ?_) fun _ w h => ?_
  · obtain ⟨hworked, hproxied⟩ := h.renameProxy hne ht
    change Whole _ _ _ _ (orFail _ (w.act (.renameProxy old new) t).1) _
    rw [hworked]
    exact hproxied.exec
  refine whole_seq (whole_carryConstitution h hne) fun _ w h => ?_
  refine whole_seq (P := fun w => Filed w old new image owned)
    (whole_bestEffort h.cut_iff fun t _ => (h.deleteEnvFile hne t).exec) fun _ w h => ?_
  refine whole_seq (P := fun w => Filed w old new image owned)
    (whole_bestEffort h.cut_iff fun t _ => (h.deleteConstitutionFile hne t).exec) fun _ w h => ?_
  exact whole_bestEffort h.cut_iff fun t _ => Filed.exec (c := .removeAgentNetwork old) h

/-! ### The creation -/

/-- A call that changes nothing of the host. -/
theorem Filed.same
    {w : Host} {c : Call} {t : Tick} {image : Image}
    (h : Filed w old new image owned)
    (hsame : (w.act c t).2 = w) :
    Filed (Rename.exec old w c t).2 old new image owned :=
  Filed.exec (hsame.symm ▸ h)

/-- A call that must work and changes nothing that a rename has carried over. -/
theorem Filed.orFail
    {w : Host} {c : Call} {t : Tick} {image : Image} {message : String} {worked : Bool}
    (h : Filed (w.act c t).2 old new image owned)
    (hworked : worked = true) :
    Whole old new owned (fun w => Filed w old new image owned) (orFail message worked)
      (Rename.exec old w c t).2 :=
  whole_orFail (fun _ => h.exec) fun hfailed => by simp [hworked] at hfailed

theorem whole_joinNetwork
    {w : Host} {image : Image}
    (h : Filed w old new image owned) :
    Whole old new owned (fun w => Filed w old new image owned) (joinNetwork new) w := by
  refine whole_seq (P := fun w => Filed w old new image owned)
    (whole_ask h.cut_iff fun t ht => Filed.orFail (c := .ensureAgentNetwork new) h ht)
    fun _ w h => ?_
  refine whole_ask h.cut_iff fun t ht => ?_
  have hnext := h.same (c := .loadProxy new) (t := t) rfl
  have hread : t.outcome.reports = true := ht
  have hanswer : (exec old w (.loadProxy new) t).1 = some (w.slots new).proxy := by
    simp [exec, Host.act, hread]
  rw [hanswer]
  cases (w.slots new).proxy with
  | none => exact whole_bestEffort hnext.cut_iff fun t _ => hnext.same (c := .removeSidecar new) rfl
  | some proxy =>
      exact whole_ask hnext.cut_iff fun t ht => Filed.orFail (c := .ensureSidecar new) hnext ht

theorem Filed.openEnvFile
    {w : Host} {image : Image}
    (h : Filed w old new image owned)
    (hne : new ≠ old) (t : Tick) :
    Filed (w.act (.openEnvFile new) t).2 old new image owned := by
  simp only [Host.act]
  split
  · exact h.putNew hne h.unborn rfl rfl
  · exact h

theorem Filed.writeEnvFile
    {w : Host} {image : Image}
    (h : Filed w old new image owned)
    (hne : new ≠ old) (port : Nat) (t : Tick) :
    Filed (w.act (.writeEnvFile new port) t).2 old new image owned := by
  simp only [Host.act]
  split
  · exact h.putNew hne h.unborn rfl rfl
  · exact h

theorem Filed.ensureConstitutionFile
    {w : Host} {image : Image}
    (h : Filed w old new image owned)
    (hne : new ≠ old) (t : Tick) :
    Filed (w.act (.ensureConstitutionFile new) t).2 old new image owned := by
  simp only [Host.act]
  split
  · exact h.putNew hne h.unborn rfl rfl
  · exact h

theorem whole_writeAgentEnvFile
    {w : Host} {image : Image}
    (h : Filed w old new image owned)
    (hne : new ≠ old)
    (port : Nat) :
    Whole old new owned (fun w => Filed w old new image owned) (writeAgentEnvFile new port) w := by
  refine whole_seq (P := fun w => Filed w old new image owned)
    (whole_ask h.cut_iff fun t ht => (h.openEnvFile hne t).orFail ht) fun _ w h => ?_
  exact whole_ask h.cut_iff fun t ht => (h.writeEnvFile hne port t).orFail ht

/-- A thing is still kept under the old name, while the new one has none where there is none, or
it is moved. -/
def Moving {α : Type} (thing kept moved : Option α) : Prop :=
  (kept = thing ∧ Clear kept moved) ∨ (kept = none ∧ moved = thing)

structure EntriesMoving (entries kept moved : Entries) : Prop where
  agent : Moving entries.agent kept.agent moved.agent
  services : Moving entries.services kept.services moved.services
  backup : Moving entries.backup kept.backup moved.backup

theorem Moving.moved_iff
    {α : Type} {thing kept moved : Option α}
    (h : Moving thing kept moved) :
    moved = thing ↔ Host.Carried kept moved := by
  rcases h with ⟨rfl, hclear⟩ | ⟨hnone, hmoved⟩
  · constructor
    · exact fun hmoved => .inr hmoved
    · rintro (hnone | hmoved)
      · rw [hclear hnone, hnone]
      · exact hmoved
  · exact iff_of_true hmoved (.inl hnone)

theorem EntriesMoving.moved_iff
    {entries kept moved : Entries}
    (h : EntriesMoving entries kept moved) :
    moved = entries ↔ Host.EntriesCarried kept moved := by
  constructor
  · rintro rfl
    exact
      ⟨h.agent.moved_iff.1 rfl, h.services.moved_iff.1 rfl, h.backup.moved_iff.1 rfl⟩
  · intro hcarried
    cases moved
    cases entries
    simp only [Entries.mk.injEq]
    exact
      ⟨h.agent.moved_iff.2 hcarried.agent, h.services.moved_iff.2 hcarried.services,
        h.backup.moved_iff.2 hcarried.backup⟩

/-- The new container stands with its files; the repository and the entries are on their way. -/
structure Born (w : Host) (old new : String) (owned : Belongings) : Prop where
  gone : (w.slots old).container = none
  container : ∃ c, (w.slots new).container = some c ∧ c.fs = w.latest
  proxy : (w.slots new).proxy = owned.proxy
  constitution : (w.slots new).constitution.getD "" = owned.constitution
  repo : Moving owned.repo (w.slots old).repo (w.slots new).repo
  memory : EntriesMoving owned.entries (w.memory old) (w.memory new)
  stored : EntriesMoving owned.entries (w.stored old) (w.stored new)

/-- What is kept under the new name is what the agent owns, once the rest is moved. -/
theorem Born.belongings_iff
    {w : Host} {settings : String → Entries}
    (h : Born w old new owned) :
    w.belongings settings new = owned ↔
      (w.slots new).repo = owned.repo ∧ settings new = owned.entries := by
  obtain ⟨constitution, proxy, repo, entries⟩ := owned
  have hproxy := h.proxy
  have hconstitution := h.constitution
  simp_all [Host.belongings]

theorem Born.cut_iff
    {w : Host}
    (h : Born w old new owned) :
    w.Complete old new owned ↔ w.Ungapped old new := by
  obtain ⟨c, hc, hfs⟩ := h.container
  constructor
  · rintro (⟨⟨d, hd, -⟩, -, -⟩ | ⟨-, -, hmemory, hstored⟩)
    · simp [h.gone] at hd
    · obtain ⟨hrepo, hmemory⟩ := h.belongings_iff.1 hmemory
      obtain ⟨-, hstored⟩ := h.belongings_iff.1 hstored
      exact
        .inr
          ⟨by simp [hc], h.repo.moved_iff.1 hrepo, h.memory.moved_iff.1 hmemory,
            h.stored.moved_iff.1 hstored⟩
  · rintro (hold | ⟨-, hrepo, hmemory, hstored⟩)
    · exact (hold h.gone).elim
    · have hrepo := h.repo.moved_iff.2 hrepo
      exact
        .inr
          ⟨h.gone, ⟨c, hc, hfs⟩, h.belongings_iff.2 ⟨hrepo, h.memory.moved_iff.2 hmemory⟩,
            h.belongings_iff.2 ⟨hrepo, h.stored.moved_iff.2 hstored⟩⟩

theorem Born.exec
    {w : Host} {c : Call} {t : Tick}
    (h : Born (w.act c t).2 old new owned) :
    Born (Rename.exec old w c t).2 old new owned := by
  rw [exec_of_gone h.gone]
  exact { h with }

theorem EntriesClear.moving
    {entries stale : Entries}
    (h : EntriesClear entries stale) :
    EntriesMoving entries entries stale :=
  ⟨.inl ⟨rfl, h.agent⟩, .inl ⟨rfl, h.services⟩, .inl ⟨rfl, h.backup⟩⟩

theorem Filed.create
    {w : Host} {t : Tick} {image : Image} {mounts : List SettingsStore.HostMount}
    (h : Filed w old new image owned)
    (hne : new ≠ old)
    (hcall : (sound old new).call w (.createContainer new image mounts) t) :
    (w.act (.createContainer new image mounts) t).1 = true ∧
      Born (w.act (.createContainer new image mounts) t).2 old new owned := by
  obtain ⟨hreports, hrepo, hmemory, hstored⟩ := hcall
  have hact :
      w.act (.createContainer new image mounts) t =
        (true,
          w.put new
            { w.slots new with
              container :=
                some { fs := w.latest, running := false, image := image, mounts := mounts } }) := by
    simp [Host.act, h.image, h.unborn, hreports, Outcome.acts_of_reports hreports, Option.filter]
  rw [hact]
  rw [h.memory] at hmemory
  rw [h.stored] at hstored
  refine ⟨rfl, ?_, ⟨_, by simp [Host.put]; rfl, rfl⟩, ?_, ?_, ?_, ?_, ?_⟩
  · simpa [Host.put, hne.symm] using h.gone
  · simpa [Host.put] using h.proxy
  · simpa [Host.put] using h.constitution
  · refine .inl ⟨?_, ?_⟩
    · simpa [Host.put, hne.symm] using h.repo
    · simpa [Host.put, hne.symm] using hrepo
  · change EntriesMoving owned.entries (w.memory old) (w.memory new)
    rw [h.memory]
    exact hmemory.moving
  · change EntriesMoving owned.entries (w.stored old) (w.stored new)
    rw [h.stored]
    exact hstored.moving

theorem whole_createContainer
    {w : Host} {image : Image}
    (h : Filed w old new image owned)
    (hne : new ≠ old)
    (port : Nat) (mounts : List SettingsStore.HostMount) :
    Whole old new owned (fun w => Born w old new owned) (createContainer new image port mounts)
      w := by
  refine whole_seq (whole_joinNetwork h) fun _ w h => ?_
  refine whole_seq (whole_writeAgentEnvFile h hne port) fun _ w h => ?_
  refine whole_seq (P := fun w => Filed w old new image owned)
    (whole_ask h.cut_iff fun t ht => (h.ensureConstitutionFile hne t).orFail ht) fun _ w h => ?_
  refine whole_ask h.cut_iff fun t ht => ?_
  obtain ⟨hworked, hborn⟩ := h.create hne ht
  change Whole _ _ _ _ (if (w.act (.createContainer new image mounts) t).1 = true then _ else _) _
  rw [if_pos hworked]
  exact hborn.exec

/-! ### The repository and the entries -/

theorem slots_carryRepo
    {w : Host} {repo : List Nat}
    (hne : new ≠ old) :
    (w.carryRepo old new repo).slots old = { w.slots old with repo := none } ∧
      (w.carryRepo old new repo).slots new = { w.slots new with repo := some repo } := by
  simp [Host.carryRepo, Host.put, hne, hne.symm]

theorem Born.renameRepo
    {w : Host} {t : Tick}
    (h : Born w old new owned)
    (hne : new ≠ old)
    (hcall : (sound old new).call w (.renameRepo old new) t) :
    (w.act (.renameRepo old new) t).1 = true ∧
      Born (w.act (.renameRepo old new) t).2 old new owned ∧
        ((w.act (.renameRepo old new) t).2.slots old).repo = none := by
  cases hrepo : (w.slots old).repo with
  | none =>
      have hact : w.act (.renameRepo old new) t = (true, w) := by simp only [Host.act, hrepo]
      rw [hact]
      exact ⟨rfl, h, hrepo⟩
  | some repo =>
      obtain ⟨hnone, hreports⟩ := hcall (by simp [hrepo])
      have hact : w.act (.renameRepo old new) t = (true, w.carryRepo old new repo) := by
        simp only [Host.act, hrepo, hnone, hreports, Outcome.acts_of_reports hreports, if_true]
      obtain ⟨hold, hnew⟩ := @slots_carryRepo old new w repo hne
      have hkept : owned.repo = some repo := by
        rcases h.repo with ⟨hkept, -⟩ | ⟨hmoved, -⟩
        · rw [← hkept, hrepo]
        · simp [hrepo] at hmoved
      rw [hact]
      refine ⟨rfl, ⟨?_, ?_, ?_, ?_, ?_, h.memory, h.stored⟩, by rw [hold]⟩
      · rw [hold]
        exact h.gone
      · rw [hnew]
        exact h.container
      · rw [hnew]
        exact h.proxy
      · rw [hnew]
        exact h.constitution
      · exact .inr ⟨by rw [hold], by rw [hnew, hkept]⟩

/-- What a move leaves under the new name. -/
theorem Moving.or
    {α : Type} {thing kept moved : Option α}
    (h : Moving thing kept moved) :
    Moving thing none (kept.or moved) := by
  refine .inr ⟨rfl, ?_⟩
  rcases h with ⟨rfl, hclear⟩ | ⟨rfl, rfl⟩
  · cases kept with
    | none => exact hclear rfl
    | some a => rfl
  · rfl

theorem Born.moveSettings
    {w : Host} {t : Tick}
    (h : Born w old new owned)
    (hne : new ≠ old) :
    Born (w.act (.moveSettings old new) t).2 old new owned ∧
      (w.act (.moveSettings old new) t).2.memory old = .none := by
  have hold : moveEntries w.memory old new old = .none := Function.update_self ..
  have hnew :
      moveEntries w.memory old new new =
        { agent := (w.memory old).agent.or (w.memory new).agent
          services := (w.memory old).services.or (w.memory new).services
          backup := (w.memory old).backup.or (w.memory new).backup } := by
    simp [moveEntries, hne]
  refine ⟨{ h with memory := ?_ }, hold⟩
  change EntriesMoving _ (moveEntries w.memory old new old) (moveEntries w.memory old new new)
  rw [hold, hnew]
  exact ⟨h.memory.agent.or, h.memory.services.or, h.memory.backup.or⟩

theorem entriesCarried_none {moved : Entries} : Host.EntriesCarried .none moved :=
  ⟨.inl rfl, .inl rfl, .inl rfl⟩

/-- The repository and the entries are moved, in memory. -/
structure Remembered (w : Host) (old new : String) (owned : Belongings) : Prop
    extends Born w old new owned where
  repoless : (w.slots old).repo = none
  entryless : w.memory old = .none

/-- Nothing is left under the old name. -/
structure Settled (w : Host) (old new : String) (owned : Belongings) : Prop
    extends Remembered w old new owned where
  unsaved : w.stored old = .none

theorem Settled.complete
    {w : Host}
    (h : Settled w old new owned) :
    w.Complete old new owned := by
  obtain ⟨c, hc, -⟩ := h.container
  refine h.toBorn.cut_iff.2 (.inr ⟨by simp [hc], .inl h.repoless, ?_, ?_⟩)
  · rw [h.entryless]
    exact entriesCarried_none
  · rw [h.unsaved]
    exact entriesCarried_none

theorem Remembered.save
    {w : Host} {t : Tick}
    (h : Remembered w old new owned)
    (hcall : w.stored old ≠ .none → t.outcome.acts = true) :
    Settled (w.act .saveSettings t).2 old new owned := by
  simp only [Host.act]
  split
  · exact { h with stored := h.memory, unsaved := h.entryless }
  · next hacts =>
      have hnone : w.stored old = .none := Decidable.not_not.1 fun hsome => hacts (hcall hsome)
      exact { h with unsaved := hnone }

theorem Settled.exec
    {w : Host} {c : Call} {t : Tick}
    (h : Settled (w.act c t).2 old new owned) :
    Settled (Rename.exec old w c t).2 old new owned := by
  rw [exec_of_gone h.gone]
  exact { h with }

theorem Settled.setRunning
    {w : Host}
    (h : Settled w old new owned)
    (hne : new ≠ old) (running : Bool) :
    Settled (w.setRunning new running) old new owned := by
  obtain ⟨c, hc, hfs⟩ := h.container
  have hold : (w.setRunning new running).slots old = w.slots old :=
    Function.update_of_ne hne.symm ..
  have hnew :
      (w.setRunning new running).slots new =
        { w.slots new with container := some { c with running := running } } := by
    simp [Host.setRunning, Host.put, hc]
  refine ⟨⟨⟨?_, ?_, ?_, ?_, ?_, h.memory, h.stored⟩, ?_, h.entryless⟩, h.unsaved⟩
  · rw [hold]
    exact h.gone
  · rw [hnew]
    exact ⟨_, rfl, hfs⟩
  · rw [hnew]
    exact h.proxy
  · rw [hnew]
    exact h.constitution
  · rw [hold, hnew]
    exact h.repo
  · rw [hold]
    exact h.repoless

/-- The calls of a start. -/
def Starting (new : String) : Call → Prop
  | .containerStatus _ | .dropNotification _ => True
  | .startContainer name => name = new
  | _ => False

theorem Settled.start
    {w : Host} {c : Call}
    (h : Settled w old new owned)
    (hne : new ≠ old)
    (hc : Starting new c) (t : Tick) :
    Settled (Rename.exec old w c t).2 old new owned := by
  refine Settled.exec ?_
  cases c with
  | startContainer name =>
      obtain rfl : name = new := hc
      simp only [Host.act]
      split
      · exact h.setRunning hne true
      · exact h
  | containerStatus _ => exact h
  | dropNotification _ => exact h
  | _ => exact hc.elim

theorem only_startAgent (new : String) : Only (Starting new) (startAgent new) := by
  refine ⟨trivial, fun status => ?_⟩
  cases status with
  | running => trivial
  | stopped =>
      refine ⟨rfl, fun worked => ?_⟩
      cases worked <;> trivial
  | dead => trivial
  | notFound => trivial

/-- What follows the move of the settings. -/
theorem whole_announce
    {w : Host}
    (h : Settled w old new owned)
    (hne : new ≠ old) :
    Whole old new owned (fun w => Settled w old new owned)
      (bestEffort (.dropNotification new) >>= fun _ => startAgent new) w := by
  have honly :
      Only (Starting new) (bestEffort (.dropNotification new) >>= fun _ => startAgent new) :=
    ⟨trivial, fun _ => only_startAgent new⟩
  have hwp :
      wp (exec old) (sound old new) (fun w => w.Complete old new owned ↔ w.Ungapped old new)
        (fun _ w => Settled w old new owned)
        (bestEffort (.dropNotification new) >>= fun _ => startAgent new) w :=
    wp_of_only honly
      (fun w c h _ => h.toBorn.cut_iff)
      (fun w c t hc h _ => Settled.start h hne hc t) h
  refine wp_mono (fun r w h => ?_) hwp
  cases r with
  | ok a => exact h
  | error e => exact h.complete

/-! ### The handler -/

theorem only_resolveExistingPort
    (old : String) (port : Option Nat) :
    Only (Gentle old) (resolveExistingPort old port) := by
  refine ⟨trivial, fun baked => ?_⟩
  simp only [Prog.bind]
  cases port.or baked with
  | some p => trivial
  | none =>
      refine ⟨trivial, fun allocated => ?_⟩
      cases allocated <;> trivial

theorem only_quiesce
    (old : String) (status : ContainerStatus) :
    Only (Gentle old) (quiesce old status) := by
  unfold quiesce
  split
  · exact ⟨trivial, fun _ => ⟨rfl, fun _ => trivial⟩⟩
  · trivial

/-- The snapshot is taken, or the rename gives up. -/
theorem Ready.snapshot
    {w : Host} {t : Tick} {image : Image}
    (hworked : (w.act (.snapshotContainer old image) t).1 = true) :
    Snapshotted (w.act (.snapshotContainer old image) t).2 image := by
  simp only [Host.act] at hworked ⊢
  split at hworked
  · cases hworked
  · next c hc => exact ⟨c.fs, rfl⟩

theorem whole_snapshotContainer
    {w : Host} {message : String}
    (h : Ready w old new owned)
    (hne : new ≠ old)
    (image : Image) :
    Whole old new owned (fun w => Ready w old new owned ∧ Snapshotted w image)
      (ask (.snapshotContainer old image) >>= orFail message) w := by
  refine whole_ask h.cut_iff fun t _ => ?_
  have hnext := h.exec (c := .snapshotContainer old image) hne rfl t
  refine whole_orFail (fun hworked => ⟨hnext, ?_⟩) fun _ => hnext.complete
  exact (Ready.snapshot hworked).pass t

theorem whole_replaceContainer
    {w : Host} {image : Image}
    (hready : Ready w old new owned)
    (hsnap : Snapshotted w image)
    (hne : new ≠ old)
    (prev : Image) (port : Nat) (mounts : List SettingsStore.HostMount) :
    Whole old new owned (fun w => Born w old new owned)
      (replaceContainer old new prev image port mounts) w := by
  refine whole_seq (whole_ensureContainerRemoved hne _ (.inl ⟨hready, hsnap⟩)) fun _ w h => ?_
  refine whole_seq (whole_carryFiles h hne) fun _ w h => ?_
  refine whole_seq (whole_createContainer h hne port mounts) fun _ w h => ?_
  refine whole_seq (P := fun w => Born w old new owned)
    (whole_bestEffort h.cut_iff fun t _ => Born.exec (c := .handoffBootReason new) h)
    fun _ w h => ?_
  unfold removeReplacedSnapshot
  split
  · refine whole_bestEffort h.cut_iff fun t _ => Born.exec ?_
    simp only [Host.act]
    split
    · exact { h with }
    · exact h
  · exact h

theorem whole_moveContainer
    {w : Host}
    (h : Ready w old new owned)
    (hne : new ≠ old)
    (mounts : List SettingsStore.HostMount) (info : Inspected) :
    Whole old new owned (fun w => Born w old new owned) (moveContainer old new mounts info) w := by
  refine whole_ask h.cut_iff fun t _ => ?_
  have h := h.exec (c := .readEnvPort old) hne trivial t
  split
  · exact h.complete
  · refine whole_seq (whole_of_gentle hne (only_resolveExistingPort old _) h) fun port w h => ?_
    refine whole_seq (whole_of_gentle hne (only_quiesce old info.status) h) fun _ w h => ?_
    refine whole_ask h.cut_iff fun t _ => ?_
    have h := h.exec (c := .nowEpochSecs) hne trivial t
    refine whole_seq (whole_snapshotContainer h hne _) fun _ w h => ?_
    exact whole_replaceContainer h.1 h.2 hne _ port mounts

/-- A name whose container is not found has none, when the status was read. -/
theorem unborn_of_notFound
    {w : Host} {t : Tick} {name : String}
    (hreports : (w.slots name).container ≠ none → t.outcome.reports = true)
    (hstatus : (w.act (.containerStatus name) t).1 = ContainerStatus.notFound) :
    (w.slots name).container = none := by
  by_contra hborn
  obtain ⟨c, hc⟩ := Option.ne_none_iff_exists'.1 hborn
  simp only [Host.act, hreports hborn, if_true, Host.status, hc] at hstatus
  split at hstatus
  · cases hstatus
  · split at hstatus <;> cases hstatus

theorem whole_checkContainers
    {w : Host}
    (h : w.Stands old owned)
    (hne : new ≠ old)
    (mounts : List SettingsStore.HostMount) :
    Whole old new owned (fun w => Born w old new owned) (checkContainers old new mounts) w := by
  refine whole_ask h.cut_iff fun t _ => ?_
  have h := h.exec (c := .containerStatus old) trivial t
  generalize (exec old w (.containerStatus old) t).2 = w at h ⊢
  split
  · exact h.complete
  · refine whole_ask h.cut_iff fun t ht => ?_
    have hnext := h.exec (c := .containerStatus new) trivial t
    split
    · exact hnext.complete
    · next hstatus =>
        obtain ⟨c, hc, -⟩ := h.container
        have hunborn :=
          unborn_of_notFound (t := t) (ht rfl (by simp [hc])) (Decidable.not_not.1 hstatus)
        have hready : Ready (exec old w (.containerStatus new) t).2 old new owned :=
          ⟨hnext, by rw [exec, Host.slots_pass hne]; exact hunborn⟩
        refine whole_ask hready.cut_iff fun t' _ => ?_
        have hinspected := hready.exec (c := .inspectContainer old) hne trivial t'
        generalize (exec old w (.containerStatus new) t).2 = w at hinspected ⊢
        cases (exec old w (.inspectContainer old) t').1 with
        | none => exact hinspected.complete
        | some info => exact whole_moveContainer hinspected hne mounts info

theorem whole_renameAgent
    {w : Host}
    (h : w.Stands old owned)
    (hne : new ≠ old)
    (mounts : List SettingsStore.HostMount) :
    Whole old new owned (fun w => Born w old new owned) (renameAgent old new mounts) w := by
  have hchecks :
      ∀ {checked : Except String Unit} {f : Unit → Op Unit},
        Whole old new owned (fun w => Born w old new owned) (f ()) w →
          Whole old new owned (fun w => Born w old new owned) (liftExcept checked >>= f) w := by
    intro checked f hf
    cases checked with
    | ok u => exact hf
    | error e => exact h.complete
  refine hchecks (hchecks ?_)
  split
  · exact h.complete
  · split
    · exact h.complete
    · refine whole_ask h.cut_iff fun t _ => ?_
      have h := h.exec (c := .prepareEgress old) trivial t
      refine whole_seq (whole_orFail (P := fun w => w.Stands old owned) (fun _ => h) fun _ =>
        h.complete) fun _ w h => ?_
      exact whole_checkContainers h hne mounts

theorem whole_renameLocked
    {w : Host}
    (h : w.Stands old owned)
    (hne : new ≠ old) :
    Whole old new owned (fun w => Settled w old new owned) (renameLocked old new) w := by
  refine whole_ask h.cut_iff fun t _ => ?_
  have h := h.exec (c := .readMounts old) trivial t
  refine whole_seq (whole_renameAgent h hne _) fun _ w h => ?_
  refine whole_seq (P := fun w => Born w old new owned ∧ (w.slots old).repo = none)
    (whole_ask h.cut_iff fun t ht => ?_) fun _ w h => ?_
  · obtain ⟨hworked, hborn, hrepo⟩ := h.renameRepo hne ht
    have hexec := exec_of_gone hborn.gone
    change Whole _ _ _ _ (orFail _ (w.act (.renameRepo old new) t).1) _
    rw [hworked]
    exact ⟨hborn.exec, by rw [hexec]; exact hrepo⟩
  obtain ⟨h, hrepo⟩ := h
  refine whole_seq (P := fun w => Remembered w old new owned)
    (whole_bestEffort h.cut_iff fun t _ => ?_) fun _ w h => ?_
  · obtain ⟨hborn, hentries⟩ := h.moveSettings (t := t) hne
    have hexec := exec_of_gone hborn.gone
    exact ⟨hborn.exec, by rw [hexec]; exact hrepo, by rw [hexec]; exact hentries⟩
  refine whole_seq (P := fun w => Settled w old new owned)
    (whole_bestEffort h.cut_iff fun t ht => (h.save ht).exec) fun _ w h => ?_
  exact whole_announce h hne

theorem whole_renameTo
    {w : Host}
    (h : w.Stands old owned) :
    Whole old new owned (fun w => Settled w old new owned) (renameTo old new) w := by
  unfold renameTo
  split
  · exact h.complete
  · split
    · exact h.complete
    · next hne => exact whole_renameLocked h hne

/-- A run that meets the condition leaves the agent whole, unless it is cut in the gap. -/
theorem complete_iff_of_whole
    {P : Host → Prop} {p : Op Unit} {w : Host} {ticks : List Tick}
    (h : Whole old new owned P p w)
    (hP : ∀ w, P w → w.Complete old new owned)
    (hmeets : Meets (exec old) (sound old new) p w ticks) :
    (run (exec old) p w ticks).1.Complete old new owned ↔
      ((run (exec old) p w ticks).2 = none → (run (exec old) p w ticks).1.Ungapped old new) := by
  have hrun := run_of_wp h hmeets
  cases hresult : run (exec old) p w ticks with
  | mk w' r =>
      rw [hresult] at hrun
      match r with
      | none => simpa using hrun
      | some (.ok ()) => exact iff_of_true (hP w' hrun) (by simp)
      | some (.error e) => exact iff_of_true hrun (by simp)

end Runs

/-- The calls of a run of the handler meet the condition. -/
structure SoundRun (old new : String) (w : Host) (ticks : List Tick) : Prop where
  meets : Meets (exec old) (sound old new) (renameTo old new) w ticks

theorem SoundRun.complete_iff
    {w : Host} {ticks : List Tick}
    (hsound : SoundRun old new w ticks)
    (h : w.Stands old owned) :
    (run (exec old) (renameTo old new) w ticks).1.Complete old new owned ↔
      ((run (exec old) (renameTo old new) w ticks).2 = none →
        (run (exec old) (renameTo old new) w ticks).1.Ungapped old new) :=
  complete_iff_of_whole (whole_renameTo h) (fun _ => Settled.complete) hsound.meets

/-- A run that was cut was cut outside the gap. -/
def CutOutsideGap (old new : String) (ended : Host × Option (Except String Unit)) : Prop :=
  ended.2 = none → ended.1.Ungapped old new

instance {α : Type} (kept stale : Option α) : Decidable (Clear kept stale) :=
  inferInstanceAs (Decidable (_ → _))

instance (kept stale : Entries) : Decidable (EntriesClear kept stale) :=
  decidable_of_iff
    (Clear kept.agent stale.agent ∧ Clear kept.services stale.services ∧
      Clear kept.backup stale.backup)
    ⟨fun h => ⟨h.1, h.2.1, h.2.2⟩, fun h => ⟨h.agent, h.services, h.backup⟩⟩

instance (old new : String) (w : Host) (t : Tick) : ∀ c, Decidable ((sound old new).call w c t)
  | .containerStatus _ => inferInstanceAs (Decidable (_ → _ → _ → _))
  | .removalStatus _ | .renameRepo _ _ | .saveSettings => inferInstanceAs (Decidable (_ → _))
  | .removeContainer _ => inferInstanceAs (Decidable (_ → ∀ c ∈ (w.slots _).container, _))
  | .renameProxy _ _ => inferInstanceAs (Decidable ((_ → _) ∧ Clear _ _))
  | .readConstitution _ =>
      inferInstanceAs
        (Decidable
          (if (w.slots old).constitution.getD "" = "" then
            (w.slots new).constitution.getD "" = ""
          else t.outcome.reports = true))
  | .writeConstitution _ _ | .ensureAgentNetwork _ | .ensureSidecar _ | .loadProxy _
  | .openEnvFile _ | .writeEnvFile _ _ | .ensureConstitutionFile _ =>
      inferInstanceAs (Decidable (_ = true))
  | .createContainer _ _ _ => inferInstanceAs (Decidable (_ ∧ Clear _ _ ∧ EntriesClear _ _ ∧ _))
  | .readMounts _ | .prepareEgress _ | .inspectContainer _ | .readEnvPort _ | .readContainerEnv _
  | .allocatePort | .handoffShutdownReason _ | .stopContainer _ | .nowEpochSecs
  | .snapshotContainer _ _ | .removeSidecar _ | .deleteEnvFile _ | .deleteConstitutionFile _
  | .removeAgentNetwork _ | .handoffBootReason _ | .removeImage _ | .moveSettings _ _
  | .dropNotification _ | .startContainer _ => isTrue trivial

instance (old new : String) (w : Host) : ∀ c, Decidable ((sound old new).cut w c) :=
  fun _ => isTrue trivial

/-- A call that works. -/
def working : Tick where
  outcome := .ok
  elapsed := 1
  writes := false
  dead := false
  port := some 7000

/-- A stopped agent with a constitution and a proxy, and an entry in the settings. -/
def adaSlot : Slot where
  container := some { fs := 0, running := false, image := .base, mounts := [] }
  env := some (some 7000)
  constitution := some "Be kind."
  proxy := some "socks5://proxy:1080"
  repo := some [1]

def adaEntries : Entries where
  agent := some { userDesired := .running, mounts := [] }
  services := none
  backup := none

def emptySlot : Slot where
  container := none
  env := none
  constitution := none
  proxy := none
  repo := none

/-- A host with this agent only. -/
def adaHost : Host where
  slots name := if name = "ada" then adaSlot else emptySlot
  images := []
  memory name := if name = "ada" then adaEntries else .none
  stored name := if name = "ada" then adaEntries else .none
  latest := 0
  fresh := 1
  now := 0

def adaOwned : Belongings where
  constitution := "Be kind."
  proxy := some "socks5://proxy:1080"
  repo := some [1]
  entries := adaEntries

theorem adaHost_stands : adaHost.Stands "ada" adaOwned :=
  ⟨⟨_, rfl, rfl⟩, rfl, rfl⟩

end Rename
end Vestad
end Vesta
