import Vesta.Vestad.Backup.Artifacts

/-!
# Backups hold their own agent's filesystem

As long as operations that share artifact names are kept apart, no run mixes up
the artifacts of two agents.

A task that is about to use an artifact knows what the artifact holds.  Steps of
other tasks leave it alone: only tasks that conflict with this one, and boot
sweeps, write under its name.
-/

namespace Vesta
namespace Vestad
namespace Artifacts

open Lib
open Prog

/-! ## The order of the requests -/

/-- A request that uses what an earlier one has made. -/
def Call.uses : Call → Bool
  | .createPlain .. => true
  | .snapshot .. => true
  | .createContainer .. => true
  | _ => false

/-- What may follow a request and its answer. -/
def follows : (c : Call) → Answer c → Call → Prop
  | .commitContainer a, answer, .createPlain b captured => b = a ∧ answer = some captured
  | .createPlain a captured, answer, .snapshot b captured' =>
      b = a ∧ captured' = captured ∧ answer = true
  | .dumpImport importer _ _, answer, .createContainer b requested =>
      importer = .restore b ∧ answer = .done requested
  | c, _, c' => c'.actor = c.actor ∧ c'.uses = false

abbrev Ordered {α : Type} (p : Op α) : Prop := Consecutive follows p

theorem follows_of_not_uses
    {c c' : Call} {answer : Answer c}
    (hactor : c'.actor = c.actor) (huses : c'.uses = false) :
    follows c answer c' := by
  unfold follows
  split
  · cases huses
  · cases huses
  · cases huses
  · exact ⟨hactor, huses⟩

theorem actor_of_follows
    {c c' : Call} {answer : Answer c}
    (h : follows c answer c') :
    c'.actor = c.actor := by
  unfold follows at h
  split at h
  · exact congrArg Actor.backup h.1
  · exact congrArg Actor.backup h.1
  · rw [h.1]
    rfl
  · exact h.1

/-- A program of one actor that makes what it uses. -/
structure By (actor : Actor) {α : Type} (p : Op α) : Prop where
  ordered : Ordered p
  actor : ∀ c ∈ p.next, c.actor = actor
  first : ∀ c ∈ p.next, c.uses = false

section By

variable {actor : Actor} {α β : Type}

theorem by_pure (a : α) : By actor (pure a : Op α) :=
  ⟨trivial, by rintro c ⟨⟩, by rintro c ⟨⟩⟩

theorem by_fail (message : String) : By actor (fail message : Op α) :=
  ⟨trivial, by rintro c ⟨⟩, by rintro c ⟨⟩⟩

theorem by_orFail (message : String) (worked : Bool) : By actor (orFail message worked) := by
  cases worked with
  | true => exact by_pure ()
  | false => exact by_fail message

/-- A request that uses nothing, followed by a program of the same actor. -/
theorem by_ask
    {c : Call} {f : Answer c → Op α}
    (hactor : c.actor = actor) (huses : c.uses = false)
    (hf : ∀ answer, By actor (f answer)) :
    By actor (ask c >>= f) := by
  refine ⟨?_, ?_, ?_⟩
  · intro answer
    refine ⟨?_, (hf answer).ordered⟩
    intro c' hc'
    exact follows_of_not_uses (((hf answer).actor c' hc').trans hactor.symm)
      ((hf answer).first c' hc')
  · rintro c' ⟨⟩
    exact hactor
  · rintro c' ⟨⟩
    exact huses

/-- A request that must work. -/
theorem by_check
    {c : Call} {check : Answer c → Op Unit} {f : Unit → Op α}
    (hactor : c.actor = actor) (huses : c.uses = false)
    (hcheck : ∀ answer, check answer = pure () ∨ ∃ message, check answer = fail message)
    (hf : By actor (f ())) :
    By actor (ask c >>= check >>= f) := by
  refine by_ask (f := fun answer => check answer >>= f) hactor huses fun answer => ?_
  rcases hcheck answer with h | ⟨message, h⟩
  · rw [h]
    exact hf
  · rw [h]
    exact by_fail message

theorem by_removeTempArtifacts
    {cleaner : Cleaner} {f : Unit → Op α}
    (hactor : cleaner.actor = actor)
    (hf : By actor (f ())) :
    By actor (removeTempArtifacts cleaner >>= f) :=
  by_ask (c := .removeTempContainer cleaner) hactor rfl fun _ =>
    by_ask (c := .removeTempImage cleaner) hactor rfl fun _ => hf

theorem orFail_cases
    (message : String) (worked : Bool) :
    orFail message worked = pure () ∨ ∃ m, orFail message worked = fail m := by
  cases worked with
  | true => exact .inl rfl
  | false => exact .inr ⟨message, rfl⟩

theorem ordered_snapshotCommitted
    {a : Agent} {captured : Fs} {f : Bool → Op α}
    (hf : ∀ result, By (.backup a) (f result)) :
    Ordered (snapshotCommitted a captured >>= f) := by
  intro created
  cases created with
  | false =>
      refine ⟨?_, (hf false).ordered⟩
      intro c hc
      exact follows_of_not_uses ((hf false).actor c hc) ((hf false).first c hc)
  | true =>
      constructor
      · rintro c ⟨⟩
        exact ⟨rfl, rfl, rfl⟩
      · intro result
        refine ⟨?_, (hf result).ordered⟩
        intro c hc
        exact follows_of_not_uses ((hf result).actor c hc) ((hf result).first c hc)

theorem by_createBackup (a : Agent) : By (.backup a) (createBackup a) := by
  refine by_check rfl rfl (orFail_cases _) ?_
  refine by_check rfl rfl (orFail_cases _) ?_
  refine by_removeTempArtifacts rfl ?_
  refine ⟨?_, by rintro c ⟨⟩; rfl, by rintro c ⟨⟩; rfl⟩
  intro answer
  cases answer with
  | none => exact ⟨by rintro c ⟨⟩, trivial⟩
  | some captured =>
      constructor
      · rintro c ⟨⟩
        exact ⟨rfl, rfl⟩
      · refine ordered_snapshotCommitted fun result => ?_
        exact by_removeTempArtifacts rfl (by_orFail _ _)

/-- What an import has made may be used right after it. -/
theorem by_importPipeline
    (importer : Importer) {id : Nat} {f : Option Fs → Op α} (left : Nat)
    (hnone : By importer.actor (f none))
    (hsome :
      ∀ fs, Ordered (f (some fs)) ∧
        ∀ c ∈ (f (some fs)).next, ∀ id left, follows (.dumpImport importer id left) (.done fs) c) :
    By importer.actor (importPipeline importer id left >>= f) := by
  induction left with
  | zero => exact hnone
  | succ left ih =>
      refine by_ask (c := .removeRestoreImage importer) rfl rfl fun _ => ?_
      refine ⟨?_, by rintro c ⟨⟩; rfl, by rintro c ⟨⟩; rfl⟩
      intro answer
      cases answer with
      | done fs => exact ⟨fun c hc => (hsome fs).2 c hc id left, (hsome fs).1⟩
      | failed =>
          refine ⟨?_, ih.ordered⟩
          intro c hc
          exact follows_of_not_uses (ih.actor c hc) (ih.first c hc)
      | timedOut =>
          refine ⟨?_, hnone.ordered⟩
          intro c hc
          exact follows_of_not_uses (hnone.actor c hc) (hnone.first c hc)

theorem by_restoreBackup (a : Agent) (id : Nat) : By (.restore a) (restoreBackup a id) := by
  refine by_check rfl rfl (orFail_cases _) ?_
  refine by_check rfl rfl (orFail_cases _) ?_
  refine by_importPipeline (.restore a) _ (by_fail _) fun fs => ⟨?_, ?_⟩
  · intro created
    have hend : By (.restore a) (orFail "docker create failed" created) := by_orFail _ created
    exact ⟨fun c hc => follows_of_not_uses (hend.actor c hc) (hend.first c hc), hend.ordered⟩
  · rintro c ⟨⟩ id left
    exact ⟨rfl, rfl⟩

theorem by_retryImport (a : Agent) (id left : Nat) : By (.retry a) (retryImport a id left) := by
  refine by_ask rfl rfl fun _ => ?_
  exact by_importPipeline (.retry a) _ (by_pure ()) fun _ =>
    ⟨trivial, by rintro c ⟨⟩⟩

theorem by_destroyAgent (a : Agent) : By (.destroy a) (destroyAgent a) := by
  refine by_check rfl rfl (orFail_cases _) ?_
  exact by_removeTempArtifacts rfl (by_ask rfl rfl fun _ => by_pure ())

theorem by_sweepBackupTempArtifacts (user : String) :
    By (.sweep user) (sweepBackupTempArtifacts user) := by
  refine by_ask rfl rfl fun names => ?_
  show By _ (forEach _ (names : List String))
  induction (names : List String) with
  | nil => exact by_pure ()
  | cons name names ih => exact by_removeTempArtifacts rfl ih

theorem by_prog (op : Operation) : By op.actor op.prog := by
  cases op with
  | createBackup a => exact by_createBackup a
  | restoreBackup a id => exact by_restoreBackup a id
  | retryImport a id left => exact by_retryImport a id left
  | destroyAgent a => exact by_destroyAgent a
  | sweepBackupTempArtifacts user => exact by_sweepBackupTempArtifacts user
  | write a version => exact by_ask rfl rfl fun _ => by_pure ()

end By

/-! ## Names -/

theorem tempName_injective
    {m n : String}
    (h : tempName m = tempName n) :
    m = n :=
  (String.append_right_inj _).1 h

theorem tempImage_injective
    {m n : String}
    (h : tempImage m = tempImage n) :
    m = n :=
  tempName_injective ((String.append_left_inj _).1 h)

theorem restoreImage_injective
    {m n : String}
    (h : restoreImage m = restoreImage n) :
    m = n :=
  (String.append_right_inj _).1 h

theorem tempImage_ne_restoreImage (m n : String) : tempImage m ≠ restoreImage n := by
  intro h
  have htemp : (tempImage m).toList = "vesta-backup-tmp-".toList ++ m.toList ++ ":latest".toList :=
    String.toList_append.trans (congrArg (· ++ _) String.toList_append)
  have hrestore : (restoreImage n).toList = "vesta-restore:".toList ++ n.toList :=
    String.toList_append
  rw [h, hrestore] at htemp
  simpa using congrArg (List.take 7) htemp

/-! ## What a request changes -/

/-- The image that a request changes. -/
def Call.imageRef : Call → Option String
  | .removeTempImage cleaner => some (tempImage cleaner.name)
  | .commitContainer a => some (tempImage a.name)
  | .removeRestoreImage importer => some (restoreImage importer.agent.name)
  | .dumpImport importer _ _ => some (restoreImage importer.agent.name)
  | _ => none

/-- The container that a request changes. -/
def Call.containerRef : Call → Option String
  | .removeTempContainer cleaner => some (tempName cleaner.name)
  | .createPlain a _ => some (tempName a.name)
  | .removeContainer a => some (containerName a)
  | .createContainer a _ => some (containerName a)
  | .destroyContainer a => some (containerName a)
  | .write a _ => some (containerName a)
  | _ => none

theorem exec_images
    {w : World} {c : Call} {t : Tick} {image : String}
    (h : c.imageRef ≠ some image) :
    (exec w c t).2.images[image]? = w.images[image]? := by
  cases c with
  | removeTempImage | removeRestoreImage =>
      simp only [Call.imageRef, ne_eq, Option.some.injEq] at h
      simp only [exec]
      split
      · simp [World.removeImage, Std.ExtTreeMap.getElem?_erase, h]
      · rfl
  | commitContainer a =>
      simp only [Call.imageRef, ne_eq, Option.some.injEq] at h
      simp only [exec]
      split
      · rfl
      · simp [Std.ExtTreeMap.getElem?_insert, h]
  | dumpImport importer id left =>
      simp only [Call.imageRef, ne_eq, Option.some.injEq] at h
      simp only [exec]
      split
      · rfl
      · dsimp only
        split
        · simp [Std.ExtTreeMap.getElem?_insert, h]
        · rfl
  | createPlain | snapshot | createContainer | write =>
      simp only [exec]
      split <;> rfl
  | removeTempContainer | removeContainer | destroyContainer | removeRepo =>
      simp only [exec]
      split <;> rfl
  | containerStatus | checkDiskSpace | findBackup | resume | listAgentNames => rfl

theorem exec_containers
    {w : World} {c : Call} {t : Tick} {name : String}
    (h : c.containerRef ≠ some name) :
    (exec w c t).2.containers[name]? = w.containers[name]? := by
  cases c with
  | removeTempContainer | removeContainer | destroyContainer =>
      simp only [Call.containerRef, ne_eq, Option.some.injEq] at h
      simp only [exec]
      split
      · simp [World.removeContainer, Std.ExtTreeMap.getElem?_erase, h]
      · rfl
  | createPlain | createContainer | write =>
      simp only [Call.containerRef, ne_eq, Option.some.injEq] at h
      simp only [exec]
      split
      · rfl
      · simp [Std.ExtTreeMap.getElem?_insert, h]
  | commitContainer | snapshot | dumpImport =>
      simp only [exec]
      split <;> rfl
  | removeTempImage | removeRestoreImage | removeRepo =>
      simp only [exec]
      split <;> rfl
  | containerStatus | checkDiskSpace | findBackup | resume | listAgentNames => rfl

/-! ## The assertions -/

structure WorldInv (agents : List Agent) (w : World) : Prop where
  own :
    ∀ a ∈ agents, ∀ c : Container,
      w.containers[containerName a]? = some c → c.fs.owner = a
  repo : ∀ s ∈ w.repo, s.fs.owner = s.agent
  reported : ∀ r ∈ w.reports, r.stored = r.captured ∧ r.stored.owner = r.agent
  restored : ∀ r ∈ w.restores, r.built = r.requested

/-- What a task knows of the artifacts it is about to use. -/
def Knows : Call → World → Prop
  | .createPlain a captured, w =>
      captured.owner = a ∧ w.images[tempImage a.name]? = some captured
  | .snapshot a captured, w =>
      captured.owner = a ∧ w.images[tempImage a.name]? = some captured ∧
        w.containers[tempName a.name]? = some { fs := captured, label := none }
  | .createContainer a requested, w =>
      requested.owner = a ∧ w.images[restoreImage a.name]? = some requested
  | _, _ => True

theorem knows_of_not_uses
    {c : Call}
    (h : c.uses = false) (w : World) :
    Knows c w := by
  cases c with
  | createPlain | snapshot | createContainer => cases h
  | _ => trivial

structure TaskInv (agents : List Agent) (p : Op Unit) (w : World) : Prop where
  ordered : Ordered p
  agent : ∀ c ∈ p.next, ∀ a ∈ c.actor.agent, a ∈ agents
  knows : ∀ c ∈ p.next, Knows c w

/-- The artifacts of two tasks have different names. -/
def Unrelated (p q : Op Unit) : Prop :=
  ∀ c ∈ p.next, ∀ d ∈ q.next, c.actor.conflicts d.actor = false

theorem Actor.conflicts_comm (x y : Actor) : x.conflicts y = y.conflicts x := by
  cases x <;> cases y <;> simp [Actor.conflicts, eq_comm]

theorem Unrelated.symm
    {p q : Op Unit}
    (h : Unrelated p q) :
    Unrelated q p := by
  intro c hc d hd
  rw [Actor.conflicts_comm]
  exact h d hd c hc

/-! ## What other tasks leave alone -/

/-- Only a task that conflicts with a backup, or a sweep, changes the backup's image. -/
theorem imageRef_ne_tempImage
    {c : Call} {a : Agent}
    (hconflict : c.actor.conflicts (.backup a) = false)
    (hsweep : a.name ∉ c.sweeps) :
    c.imageRef ≠ some (tempImage a.name) := by
  cases c with
  | removeTempImage cleaner =>
      intro h
      have hname := tempImage_injective (Option.some.inj h)
      cases cleaner with
      | backup b | destroy b =>
          exact absurd hname (of_decide_eq_false hconflict)
      | sweep user name => exact hsweep (congrArg some hname)
  | commitContainer b =>
      intro h
      exact absurd (tempImage_injective (Option.some.inj h)) (of_decide_eq_false hconflict)
  | removeRestoreImage | dumpImport =>
      intro h
      exact tempImage_ne_restoreImage _ _ (Option.some.inj h).symm
  | _ => rintro ⟨⟩

/-- The same of its container, when no agent's container has that name. -/
theorem containerRef_ne_tempName
    {agents : List Agent} {c : Call} {a : Agent}
    (hnames : Distinct agents)
    (hagent : ∀ b ∈ c.actor.agent, b ∈ agents)
    (hconflict : c.actor.conflicts (.backup a) = false)
    (hsweep : a.name ∉ c.sweeps) :
    c.containerRef ≠ some (tempName a.name) := by
  cases c with
  | removeTempContainer cleaner =>
      intro h
      have hname := tempName_injective (Option.some.inj h)
      cases cleaner with
      | backup b | destroy b =>
          exact absurd hname (of_decide_eq_false hconflict)
      | sweep user name => exact hsweep (congrArg some hname)
  | createPlain b =>
      intro h
      exact absurd (tempName_injective (Option.some.inj h)) (of_decide_eq_false hconflict)
  | removeContainer b | createContainer b | destroyContainer b | write b =>
      intro h
      exact hnames.temp b (hagent b rfl) a.name (Option.some.inj h)
  | _ => rintro ⟨⟩

/-- Only a task that conflicts with a restore changes the restore's image. -/
theorem imageRef_ne_restoreImage
    {c : Call} {a : Agent}
    (hconflict : c.actor.conflicts (.restore a) = false) :
    c.imageRef ≠ some (restoreImage a.name) := by
  cases c with
  | removeTempImage | commitContainer =>
      intro h
      exact tempImage_ne_restoreImage _ _ (Option.some.inj h)
  | removeRestoreImage importer | dumpImport importer =>
      intro h
      have hname := restoreImage_injective (Option.some.inj h)
      cases importer with
      | restore b | retry b => exact absurd hname (of_decide_eq_false hconflict)
  | _ => rintro ⟨⟩

/-- A step of a task that does not conflict leaves what another task knows. -/
theorem knows_other
    {agents : List Agent} {w : World} {c d : Call} {t : Tick}
    (hnames : Distinct agents)
    (hagent : ∀ b ∈ c.actor.agent, b ∈ agents)
    (hconflict : c.actor.conflicts d.actor = false)
    (hsweep : ∀ name ∈ c.sweeps, d.actor.backsUp name = false)
    (hd : Knows d w) :
    Knows d (exec w c t).2 := by
  have hbackup : ∀ a, d.actor = .backup a → a.name ∉ c.sweeps := by
    intro a ha hmem
    have hoff := hsweep a.name hmem
    rw [ha] at hoff
    exact absurd rfl (of_decide_eq_false hoff)
  cases d with
  | createPlain a captured =>
      refine ⟨hd.1, ?_⟩
      rw [exec_images (imageRef_ne_tempImage hconflict (hbackup a rfl))]
      exact hd.2
  | snapshot a captured =>
      refine ⟨hd.1, ?_, ?_⟩
      · rw [exec_images (imageRef_ne_tempImage hconflict (hbackup a rfl))]
        exact hd.2.1
      · rw [exec_containers
          (containerRef_ne_tempName hnames hagent hconflict (hbackup a rfl))]
        exact hd.2.2
  | createContainer a requested =>
      refine ⟨hd.1, ?_⟩
      rw [exec_images (imageRef_ne_restoreImage hconflict)]
      exact hd.2
  | _ => trivial

/-! ## What a step keeps -/

theorem owner_of_find
    {agents : List Agent} {w : World} {a : Agent} {id : Nat} {fs : Fs}
    (h : WorldInv agents w) (hfind : w.find a id = some fs) :
    fs.owner = a := by
  obtain ⟨s, hs, rfl⟩ := Option.map_eq_some_iff.1 hfind
  have hagent := List.find?_some hs
  simp only [decide_eq_true_eq] at hagent
  rw [h.repo s (List.mem_of_find?_eq_some hs), hagent.1]

/-- The task that is answered knows what its next request uses. -/
theorem knows_next
    {agents : List Agent} {w : World} {c d : Call} {t : Tick}
    (hw : WorldInv agents w)
    (hagent : ∀ a ∈ c.actor.agent, a ∈ agents)
    (hc : Knows c w)
    (h : follows c (exec w c t).1 d) :
    Knows d (exec w c t).2 := by
  unfold follows at h
  split at h
  case h_1 a _ b captured =>
    obtain ⟨rfl, hanswer⟩ := h
    simp only [exec] at hanswer ⊢
    split at hanswer
    · cases hanswer
    · rename_i c' hcontainer
      have hlookup := (Option.filter_eq_some_iff.1 hcontainer).1
      have hcaptured : c'.fs = captured := by
        dsimp only at hanswer
        split at hanswer
        · exact Option.some.inj hanswer
        · cases hanswer
      refine ⟨hcaptured ▸ hw.own b (hagent b rfl) c' hlookup, ?_⟩
      simp [hcaptured]
  case h_2 a captured _ b captured' =>
    obtain ⟨rfl, rfl, hanswer⟩ := h
    simp only [exec] at hanswer ⊢
    split at hanswer
    · cases hanswer
    · rename_i fs himage
      have hfs : fs = captured' :=
        Option.some.inj ((Option.filter_eq_some_iff.1 himage).1.symm.trans hc.2)
      refine ⟨hc.1, hc.2, ?_⟩
      simp [hfs]
  case h_3 importer id left _ b requested =>
    obtain ⟨rfl, hanswer⟩ := h
    simp only [exec] at hanswer ⊢
    split at hanswer
    · cases hanswer
    · rename_i fs hfind
      dsimp only at hanswer
      split at hanswer
      · cases hanswer
      · split at hanswer
        · rename_i hreports
          obtain rfl := Import.done.inj hanswer
          have hacts : t.acts = true := Outcome.acts_of_reports hreports
          refine ⟨owner_of_find hw hfind, ?_⟩
          simp [hacts, Importer.agent]
        · cases hanswer
  case h_4 => exact knows_of_not_uses h.2 _

/-- The requests that record a snapshot or a restore, or remove a repository. -/
def Call.records : Call → Bool
  | .snapshot .. => true
  | .createContainer .. => true
  | .removeRepo _ => true
  | _ => false

theorem exec_records
    {w : World} {c : Call} {t : Tick}
    (h : c.records = false) :
    (exec w c t).2.repo = w.repo ∧ (exec w c t).2.reports = w.reports ∧
      (exec w c t).2.restores = w.restores := by
  cases c with
  | snapshot | createContainer | removeRepo => cases h
  | commitContainer | createPlain | dumpImport | write =>
      simp only [exec]
      split <;> exact ⟨rfl, rfl, rfl⟩
  | removeTempContainer | removeTempImage | removeContainer | removeRestoreImage
  | destroyContainer =>
      simp only [exec]
      split <;> exact ⟨rfl, rfl, rfl⟩
  | containerStatus | checkDiskSpace | findBackup | resume | listAgentNames =>
      exact ⟨rfl, rfl, rfl⟩

/-- A request that records nothing keeps the invariant when the agents keep their own
filesystems. -/
theorem WorldInv.of_own
    {agents : List Agent} {w : World} {c : Call} {t : Tick}
    (hw : WorldInv agents w)
    (hrecords : c.records = false)
    (hown :
      ∀ a ∈ agents, ∀ c' : Container,
        (exec w c t).2.containers[containerName a]? = some c' → c'.fs.owner = a) :
    WorldInv agents (exec w c t).2 := by
  obtain ⟨hrepo, hreports, hrestores⟩ := exec_records (w := w) (t := t) hrecords
  exact ⟨hown, hrepo ▸ hw.repo, hreports ▸ hw.reported, hrestores ▸ hw.restored⟩

/-- They do when their containers are left alone. -/
theorem WorldInv.of_containerRef
    {agents : List Agent} {w : World} {c : Call} {t : Tick}
    (hw : WorldInv agents w)
    (hrecords : c.records = false)
    (href : ∀ a ∈ agents, c.containerRef ≠ some (containerName a)) :
    WorldInv agents (exec w c t).2 := by
  refine hw.of_own hrecords fun a ha c' hc' => ?_
  rw [exec_containers (href a ha)] at hc'
  exact hw.own a ha c' hc'

/-- They do when a container is removed. -/
theorem own_removeContainer
    {agents : List Agent} {w : World}
    (hw : WorldInv agents w) (t : Tick) (name : String) :
    ∀ a ∈ agents, ∀ c : Container,
      (if t.acts then w.removeContainer name else w).containers[containerName a]? = some c →
      c.fs.owner = a := by
  intro a ha c hc
  split at hc
  · rw [World.removeContainer, Std.ExtTreeMap.getElem?_erase] at hc
    split at hc
    · cases hc
    · exact hw.own a ha c hc
  · exact hw.own a ha c hc

/-- They do when an agent's container is replaced by one that holds its filesystem. -/
theorem own_insert
    {agents : List Agent} {containers : Map String Container} {b : Agent} {new : Container}
    (hnames : Distinct agents)
    (hb : b ∈ agents) (hnew : new.fs.owner = b)
    (hown :
      ∀ a ∈ agents, ∀ c : Container, containers[containerName a]? = some c → c.fs.owner = a) :
    ∀ a ∈ agents, ∀ c : Container,
      (containers.insert (containerName b) new)[containerName a]? = some c → c.fs.owner = a := by
  intro a ha c hc
  rw [Std.ExtTreeMap.getElem?_insert] at hc
  split at hc
  · rename_i hname
    have hsame : b = a := hnames.injective b hb a ha (by simpa using hname)
    cases hc
    rw [hnew, hsame]
  · exact hown a ha c hc

theorem worldInv_step
    {agents : List Agent} {w : World} {c : Call} {t : Tick}
    (hnames : Distinct agents)
    (hw : WorldInv agents w)
    (hagent : ∀ a ∈ c.actor.agent, a ∈ agents)
    (hc : Knows c w) :
    WorldInv agents (exec w c t).2 := by
  cases c with
  | containerStatus | checkDiskSpace | findBackup | listAgentNames | resume
  | removeTempImage | removeRestoreImage | commitContainer | dumpImport =>
      exact hw.of_containerRef rfl (by rintro a _ ⟨⟩)
  | removeTempContainer | createPlain =>
      exact hw.of_containerRef rfl fun a ha h => hnames.temp a ha _ (Option.some.inj h).symm
  | removeContainer | destroyContainer => exact hw.of_own rfl (own_removeContainer hw t _)
  | write a version =>
      refine hw.of_own rfl ?_
      simp only [exec]
      split
      · exact hw.own
      · rename_i c' hlookup
        have ha := hagent a rfl
        exact own_insert hnames ha (hw.own a ha c' hlookup) hw.own
  | snapshot a captured =>
      simp only [exec]
      split
      · exact hw
      · rename_i c' hcontainer
        have hlookup := (Option.filter_eq_some_iff.1 hcontainer).1
        have hsame : c' = { fs := captured, label := none } :=
          Option.some.inj (hlookup.symm.trans hc.2.2)
        refine ⟨hw.own, ?_, ?_, hw.restored⟩
        · intro s hs
          rcases List.mem_cons.1 hs with rfl | hs
          · rw [hsame]
            exact hc.1
          · exact hw.repo s hs
        · intro r hr
          dsimp only at hr
          split at hr
          · rcases List.mem_cons.1 hr with rfl | hr
            · rw [hsame]
              exact ⟨rfl, hc.1⟩
            · exact hw.reported r hr
          · exact hw.reported r hr
  | createContainer a requested =>
      simp only [exec]
      split
      · exact hw
      · rename_i fs himage
        have hfs : fs = requested :=
          Option.some.inj ((Option.filter_eq_some_iff.1 himage).1.symm.trans hc.2)
        refine ⟨own_insert hnames (hagent a rfl) (hfs ▸ hc.1) hw.own, hw.repo, hw.reported, ?_⟩
        intro r hr
        rcases List.mem_cons.1 hr with rfl | hr
        · exact hfs
        · exact hw.restored r hr
  | removeRepo a =>
      simp only [exec]
      split
      · exact ⟨hw.own, fun s hs => hw.repo s (List.mem_of_mem_filter hs), hw.reported, hw.restored⟩
      · exact hw

/-! ## Every run -/

theorem worldInv_of_host
    {agents : List Agent} {w : World}
    (hnames : Distinct agents) (h : Host agents w) :
    WorldInv agents w := by
  refine ⟨?_, by simp [h.repo], by simp [h.reports], by simp [h.restores]⟩
  intro a ha c hc
  obtain ⟨b, hb, -, hname, howner⟩ := h.containers _ c hc
  rw [howner, hnames.injective a ha b hb hname]

theorem mem_toList_of_getElem?
    {s : State} {id : Nat} {p : Op Unit}
    (h : s.tasks[id]? = some p) :
    (id, p) ∈ s.tasks.toList :=
  Std.ExtTreeMap.mem_toList_iff_getElem?_eq_some.2 h

theorem holds_of_reaches
    {agents : List Agent} {s : State}
    (hnames : Distinct agents)
    (h : (machine agents).Reaches Apart s) :
    Pool.Holds (WorldInv agents) (TaskInv agents) Unrelated s := by
  refine Pool.Reaches.invariant (fun _ => worldInv_of_host hnames)
    (fun _ _ => Unrelated.symm) ?_ ?_ ?_ h
  · intro s id op _ hok hmay
    have hby := by_prog op
    constructor
    · refine ⟨hby.ordered, ?_, fun c hc => knows_of_not_uses (hby.first c hc) _⟩
      intro c hc
      rw [hby.actor c hc]
      simp only [may, decide_eq_true_eq] at hmay
      exact hmay.1
    · intro j q hq c hc d hd
      rw [hby.actor c hc]
      exact hok (j, q) (mem_toList_of_getElem? hq) d hd
  · intro s id t c k hs hok hp _
    have hself := hs.task id _ hp
    have hagent := hself.agent c rfl
    have hknows := hself.knows c rfl
    obtain ⟨hfollows, hordered⟩ := hself.ordered (exec s.world c t).1
    refine ⟨worldInv_step hnames hs.world hagent hknows, ⟨hordered, ?_, ?_⟩, ?_⟩
    · intro d hd
      rw [actor_of_follows (hfollows d hd)]
      exact hagent
    · intro d hd
      exact knows_next hs.world hagent hknows (hfollows d hd)
    · intro j q hj hq d hd e he
      rw [actor_of_follows (hfollows d hd)]
      exact hs.pair id j _ q (Ne.symm hj) hp hq c rfl e he
  · intro s id t c k j p hs hok hp _ hj hpj
    have hother := hs.task j p hpj
    refine ⟨hother.ordered, hother.agent, ?_⟩
    intro d hd
    refine knows_other hnames ((hs.task id _ hp).agent c rfl)
      (hs.pair id j _ p (Ne.symm hj) hp hpj c rfl d hd) ?_ (hother.knows d hd)
    intro name hname
    exact hok c (by simp [hp, Prog.next]) name hname (j, p) (mem_toList_of_getElem? hpj) d hd

theorem inPlace_of_knows
    {c : Call} {w : World}
    (h : Knows c w) :
    InPlace w c := by
  cases c with
  | createPlain | snapshot => exact h.2
  | _ => trivial

def ann : Agent := ⟨"ann", "scout"⟩

def bob : Agent := ⟨"bob", "scout"⟩

def standing (a : Agent) : Container where
  fs := { owner := a, version := 0 }
  label := some a

def host : State where
  world :=
    { containers :=
        ((∅ : Map String Container).insert (containerName ann) (standing ann)).insert
          (containerName bob) (standing bob)
      images := ∅
      repo := []
      next := 0
      detached := []
      reports := []
      restores := [] }
  tasks := ∅

/-- Requests of a task that work. -/
def work (id calls : Nat) : List (PoolLabel Operation Tick) :=
  List.replicate calls (.step id { outcome := .ok, timedOut := false })

/-- The backups one after the other, a boot sweep, and a restore of the first. -/
def inTurnRun : List (PoolLabel Operation Tick) :=
  [.spawn 0 (.createBackup ann)] ++ work 0 9 ++ [.spawn 1 (.createBackup bob)] ++ work 1 9 ++
    [.spawn 2 (.sweepBackupTempArtifacts "ann")] ++ work 2 3 ++
    [.spawn 3 (.restoreBackup ann 0)] ++ work 3 5

theorem distinct_host : Distinct [ann, bob] := by
  constructor
  · decide
  · intro a ha name h
    have htemp : (tempName name).toList = "vesta-backup-tmp-".toList ++ name.toList :=
      String.toList_append
    have hprefix : (containerName a).toList.take 8 = "vesta-ba".toList := by
      rw [h, htemp]
      simp
    revert hprefix
    rcases List.mem_cons.1 ha with rfl | ha
    · decide
    · rw [List.mem_singleton.1 ha]
      decide

theorem host_start : (machine [ann, bob]).start host := by
  refine ⟨⟨?_, rfl, rfl, rfl⟩, rfl⟩
  intro name c hc
  change (((∅ : Map String Container).insert (containerName ann) (standing ann)).insert
    (containerName bob) (standing bob))[name]? = some c at hc
  rw [Std.ExtTreeMap.getElem?_insert, Std.ExtTreeMap.getElem?_insert] at hc
  split at hc
  · rename_i hname
    have hsame : containerName bob = name := by simpa using hname
    cases hc
    exact ⟨bob, by decide, rfl, hsame.symm, rfl⟩
  · split at hc
    · rename_i hname
      have hsame : containerName ann = name := by simpa using hname
      cases hc
      exact ⟨ann, by decide, rfl, hsame.symm, rfl⟩
    · simp at hc

/-- Both back up their agent; the second commits before the first creates its container. -/
def mixedRun : List (PoolLabel Operation Tick) :=
  [.spawn 0 (.createBackup ann), .spawn 1 (.createBackup bob)] ++ work 0 5 ++ work 1 5 ++ work 0 2

end Artifacts
end Vestad
end Vesta
