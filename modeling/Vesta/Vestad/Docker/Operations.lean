import Vesta.Vestad.Docker.Preserved

/-!
# Every operation on an agent preserves it

One lemma for each program, from the shared steps up to the operations.  A step
that fails leaves a settled name, either because a container stands or because
the condition on the calls says so.
-/

namespace Vesta
namespace Vestad
namespace Docker

open Lib
open Prog

variable {restores : Bool} {α : Type}

/-! ## Removing the container -/

/-- The container is gone and what it held was saved for the replacement. -/
def Removed (restores : Bool) (replacement : Image) (v : View) : Prop :=
  v.container = none → ∃ L, v.latest = some L ∧ Replaceable restores v L replacement

theorem Removed.drift
    {replacement : Image} {v w : View}
    (h : Removed restores replacement v) (hd : Drift v w) :
    Removed restores replacement w := by
  intro hc
  have hv := hd.container_none.1 hc
  obtain ⟨L, hL, hrep⟩ := h hv
  refine ⟨L, (hd.gone hv).2.trans hL, ?_⟩
  cases replacement with
  | base => exact hrep
  | rebuild ts => simpa [Replaceable, hd.snapshots] using hrep
  | restore id => simpa [Replaceable, BackedUp, View.port, hd.repo, hd.env] using hrep

/-- What the confirmed removal leaves: nothing, or the container with an error.  The backups stay
as they are. -/
def removedPost (restores : Bool) (replacement : Image) (repo : List (Nat × Fs)) :
    Except String Unit → View → Prop
  | .ok _, v => Kept restores v ∧ Removed restores replacement v ∧ v.repo = repo
  | .error _, v => Preserved restores v

theorem ensures_ensureContainerRemoved
    {replacement : Image} {repo : List (Nat × Fs)} {v : View}
    (hk : Kept restores v) (hr : Removed restores replacement v) (hrepo : v.repo = repo)
    (left : Nat) :
    Ensures restores (ensureContainerRemoved replacement left)
      (removedPost restores replacement repo) v := by
  induction left generalizing v with
  | zero =>
      refine ensures_ask hk fun t _ w hd => ?_
      by_cases hs : (v.act .containerStatus t).1 = .notFound
      · rw [if_pos hs]
        exact ⟨hk.drift hd, hr.drift hd, hd.repo.trans hrepo⟩
      · rw [if_neg hs]
        exact (hk.preserved (container_ne_none_of_status hs)).drift hd
  | succ left ih =>
      refine ensures_ask hk fun t _ w hd => ?_
      by_cases hs : (v.act .containerStatus t).1 = .notFound
      · rw [if_pos hs]
        exact ⟨hk.drift hd, hr.drift hd, hd.repo.trans hrepo⟩
      · rw [if_neg hs]
        have hkw := hk.drift hd
        have hrw := hr.drift hd
        have hrepow := hd.repo.trans hrepo
        refine ensures_ask hkw fun t' ht' w' hd' => ?_
        by_cases hacts : t'.outcome.acts = true
        · have hact : (w.act (.removeContainer replacement) t').2 = { w with container := none } :=
            if_pos hacts
          rw [hact] at hd'
          have hrep := ht' hacts
          refine ih ((hkw.remove hrep).drift hd') (Removed.drift ?_ hd') (hd'.repo.trans hrepow)
          intro _
          cases hw : w.container with
          | none =>
              obtain ⟨L, hL, h⟩ := hrw hw
              exact ⟨L, hL, by cases replacement <;> exact h⟩
          | some c =>
              exact ⟨c.fs, hkw.stands c hw, by cases replacement <;> exact hrep c hw⟩
        · have hact : (w.act (.removeContainer replacement) t').2 = w := if_neg hacts
          rw [hact] at hd'
          exact ih (hkw.drift hd') (hrw.drift hd') (hd'.repo.trans hrepow)

/-! ## Creating the container -/

/-- An image that the agent may be created from while it has no container. -/
def Source (v : View) : Image → Prop
  | .base => v.latest = none
  | .rebuild ts => ∃ L, v.latest = some L ∧ v.snapshots.head? = some (ts, L)
  | .restore id => ∃ fs, v.restoreImage = some fs ∧ v.backupFs id = some fs

/-- A container may be created: none stands but from such an image. -/
structure Creatable (restores : Bool) (image : Image) (v : View) : Prop where
  kept : Kept restores v
  source : v.container = none → Source v image

theorem Creatable.drift
    {image : Image} {v w : View}
    (h : Creatable restores image v) (hd : Drift v w) :
    Creatable restores image w where
  kept := h.kept.drift hd
  source hc := by
    have hv := hd.container_none.1 hc
    have hs := h.source hv
    cases image with
    | base => exact (hd.gone hv).2.trans hs
    | rebuild ts => simpa [Source, (hd.gone hv).2, hd.snapshots] using hs
    | restore id => simpa [Source, View.backupFs, hd.restoreImage, hd.repo] using hs

theorem Creatable.setEnv
    {image : Image} {v : View}
    (h : Creatable restores image v) (env : Option (Option Nat)) :
    Creatable restores image { v with env := env } :=
  ⟨h.kept.setEnv env, fun hc => by cases image <;> exact h.source hc⟩

/-- The image is there. -/
theorem Creatable.imageFs
    {image : Image} {v : View}
    (h : Creatable restores image v) (hc : v.container = none) :
    ∃ fs, v.imageFs image = some fs ∧ v.latestFrom fs image = some fs := by
  have hs := h.source hc
  cases image with
  | base => exact ⟨v.fresh, rfl, by simp [View.latestFrom, show v.latest = none from hs]⟩
  | rebuild ts =>
      obtain ⟨L, hL, hhead⟩ := hs
      obtain ⟨rest, hsnap⟩ := List.head?_eq_some_iff.1 hhead
      exact ⟨L, by simp [View.imageFs, View.snapshotAt, hsnap], hL⟩
  | restore id => exact hs

/-- What may hold while a name is prepared: it is about what is kept, and not about the env
file. -/
structure Stage (restores : Bool) (P : View → Prop) : Prop where
  kept : ∀ v, P v → Kept restores v
  drift : ∀ v w, P v → Drift v w → P w
  setEnv : ∀ (v : View) (env : Option (Option Nat)), P v → P { v with env := env }

theorem stage_creatable (restores : Bool) (image : Image) : Stage restores (Creatable restores image) :=
  ⟨fun _ h => h.kept, fun _ _ h hd => h.drift hd, fun _ env h => h.setEnv env⟩

/-- What a step of the preparation leaves: a settled name where it fails. -/
def preparedPost (restores : Bool) (P : View → Prop) : Except String Unit → View → Prop
  | .ok _, v => P v
  | .error _, v => Preserved restores v

/-- A step of the preparation, which changes nothing where it fails. -/
theorem ensures_prepare
    {P : View → Prop} {c : Call} {message : String} {v : View}
    (hstage : Stage restores P) (hP : P v)
    (hc : Answer c = Bool)
    (hguard : ∀ t, (tidy restores).call v c t → t.outcome.reports = true ∨ Settled v)
    (hanswer : ∀ t : Tick, cast hc (v.act c t).1 = t.outcome.reports)
    (hfailed : ∀ t : Tick, t.outcome.reports = false → (v.act c t).2 = v)
    (hworked : ∀ t : Tick, t.outcome.reports = true → P (v.act c t).2) :
    Ensures restores (ask c >>= fun r => orFail message (cast hc r))
      (preparedPost restores P) v := by
  refine ensures_ask (hstage.kept v hP) fun t ht w hd => ?_
  rw [hanswer t]
  cases hr : t.outcome.reports with
  | true => exact hstage.drift _ w (hworked t hr) hd
  | false =>
      rw [hfailed t hr] at hd
      have hsettled := (hguard t ht).resolve_left (by simp [hr])
      exact Preserved.drift ⟨hstage.kept v hP, hsettled⟩ hd

theorem ensures_writeAgentEnvFile
    {P : View → Prop} {v : View}
    (hstage : Stage restores P) (hP : P v) (port : Nat) :
    Ensures restores (writeAgentEnvFile port) (preparedPost restores P) v := by
  refine wp_seq (P := preparedPost restores P) ?_ (fun _ w hw => ?_) (fun _ _ h => h)
  · exact ensures_prepare hstage hP rfl (fun _ ht => ht) (fun _ => rfl)
      (fun t hr => if_neg (by simp [hr])) (fun t hr => by
        rw [View.act, if_pos hr]
        exact hstage.setEnv v _ hP)
  · exact ensures_prepare hstage hw rfl (fun _ ht => ht) (fun _ => rfl)
      (fun t hr => if_neg (by simp [hr])) (fun t hr => by
        rw [View.act, if_pos hr]
        exact hstage.setEnv w _ hw)

/-- What a creation leaves: a settled name, with its container unless it reports an error. -/
def createdPost (restores : Bool) (r : Except String Unit) (v : View) : Prop :=
  Preserved restores v ∧ (r = .ok () → v.container ≠ none)

theorem createdPost_error
    {e : String} {v : View}
    (h : Preserved restores v) :
    createdPost restores (.error e) v :=
  ⟨h, nofun⟩

/-- The env file of a creation that has failed is deleted. -/
theorem ensures_deleteEnvFile
    {v : View}
    (hk : Kept restores v) (hu : Unneeded v) :
    Ensures restores (do let _ ← ask .deleteEnvFile; fail "docker create failed")
      (createdPost restores) v := by
  refine ensures_ask hk fun t ht w hd => createdPost_error (Preserved.drift ?_ hd)
  by_cases hc : v.container = none
  · by_cases hacts : t.outcome.acts = true
    · have hnone := hu.resolve_left (not_not_intro hc)
      rw [View.act, if_pos hacts]
      refine ⟨hk.setEnv none, fun _ L hL => ?_, fun _ => .inl rfl⟩
      exact absurd (hnone.symm.trans hL) (by simp)
    · rw [View.act, if_neg hacts]
      exact ⟨hk, ht.resolve_left hacts⟩
  · have hkept : Kept restores (v.act .deleteEnvFile t).2 := by
      rw [View.act]
      split
      · exact hk.setEnv none
      · exact hk
    refine hkept.preserved ?_
    rw [View.act]
    split <;> exact hc

theorem Kept.create
    {v : View} {fs : Fs} {image : Image}
    (h : Kept restores v) (hlatest : v.latestFrom fs image = some fs) :
    Kept restores (v.create fs image) where
  ordered := h.ordered
  past := h.past
  backups := h.backups
  older b hb := Nat.lt_succ_of_lt (h.older b hb)
  stands c hc := by
    obtain rfl := Option.some.inj hc
    exact hlatest
  window hc := nomatch hc

theorem ensures_dockerCreate
    {image : Image} {v : View}
    (hcr : Creatable restores image v) :
    Ensures restores
      (do
        if ← ask (.createContainer image) then pure ()
        else
          let _ ← ask .deleteEnvFile
          fail "docker create failed")
      (createdPost restores) v := by
  refine ensures_ask hcr.kept fun t ht w hd => ?_
  by_cases hmade : t.outcome.acts = true ∧ v.container = none
  · obtain ⟨fs, hfs, hlatest⟩ := hcr.imageFs hmade.2
    have hact :
        v.act (.createContainer image) t = (t.outcome.reports, v.create fs image) := by
      simp [View.act, hfs, hmade, Option.filter]
    rw [hact] at hd ⊢
    have hkept := (hcr.kept.create hlatest).drift hd
    have hstands : w.container ≠ none := hd.container_ne_none (by simp [View.create])
    cases hr : t.outcome.reports with
    | true => exact ⟨hkept.preserved hstands, fun _ => hstands⟩
    | false => exact ensures_deleteEnvFile hkept (.inl hstands)
  · have hact : v.act (.createContainer image) t = (false, v) := by
      have hfilter :
          ((v.imageFs image).filter fun _ => t.outcome.acts ∧ v.container = none) = none := by
        cases v.imageFs image with
        | none => rfl
        | some fs => simp [Option.filter, hmade]
      simp only [View.act, hfilter]
    rw [hact] at hd ⊢
    refine ensures_deleteEnvFile (hcr.kept.drift hd) (Unneeded.drift ?_ hd)
    by_cases hc : v.container = none
    · exact .inr ((ht.resolve_left fun h => hmade ⟨h, hc⟩).resolve_left (not_not_intro hc))
    · exact .inl hc

theorem ensures_createContainer
    {image : Image} {v : View}
    (hcr : Creatable restores image v) (port : Nat) :
    Ensures restores (createContainer image port) (createdPost restores) v := by
  have hstage := stage_creatable restores image
  have herror :
      ∀ (e : String) (w : View), preparedPost restores (Creatable restores image) (.error e) w →
        createdPost restores (.error e) w := fun _ _ h => createdPost_error h
  refine wp_seq ?_ (fun _ v hcr => ?_) herror
  · exact ensures_prepare hstage hcr rfl (fun _ ht => ht) (fun _ => rfl) (fun _ _ => rfl)
      (fun _ _ => hcr)
  refine wp_seq ?_ (fun _ v hcr => ?_) herror
  · exact ensures_prepare hstage hcr rfl (fun _ ht => ht) (fun _ => rfl) (fun _ _ => rfl)
      (fun _ _ => hcr)
  refine wp_seq (ensures_writeAgentEnvFile hstage hcr port) (fun _ v hcr => ?_) herror
  refine wp_seq ?_ (fun _ v hcr => ensures_dockerCreate hcr) herror
  exact ensures_prepare hstage hcr rfl (fun _ ht => ht) (fun _ => rfl) (fun _ _ => rfl)
    (fun _ _ => hcr)

/-! ## Rebuilding -/

/-- An operation leaves a settled name. -/
abbrev Settles {α : Type} (restores : Bool) (p : Op α) (v : View) : Prop :=
  Ensures restores p (fun _ => Preserved restores) v

theorem settles_removeImage
    {v : View}
    (h : Preserved restores v) (hu : Unneeded v) (image : Image) :
    Ensures restores (do let _ ← ask (.removeImage image); pure ())
      (fun _ v => Preserved restores v ∧ Unneeded v) v := by
  refine ensures_ask h.kept fun t _ w hd => ?_
  rw [View.act] at hd
  dsimp only at hd
  split at hd
  · have hu' : Unneeded (v.removeImage image) := hu
    exact ⟨(h.removeImage hu image).drift hd, hu'.drift hd⟩
  · exact ⟨h.drift hd, hu.drift hd⟩

theorem settles_removeSnapshots
    {v : View}
    (h : Preserved restores v) (hu : Unneeded v) (tss : List Nat) :
    Settles restores (removeSnapshots tss) v := by
  induction tss generalizing v with
  | nil => exact h
  | cons ts tss ih =>
      refine wp_seq (settles_removeImage h hu (.rebuild ts)) (fun _ w hw => ih hw.1 hw.2) ?_
      exact fun _ _ hw => hw.1

theorem settles_discardUnusedSnapshot
    {v : View}
    (h : Preserved restores v) (ts : Nat) :
    Settles restores (discardUnusedSnapshot ts) v := by
  refine ensures_ask h.kept fun t _ w hd => ?_
  have hw : Preserved restores w := h.drift hd
  by_cases hs : (v.act .containerStatus t).1 = .notFound
  · rw [if_neg (by simp [snapshotIsRedundant, hs])]
    exact hw
  · rw [if_pos (by simp [snapshotIsRedundant, hs])]
    have hstands : w.container ≠ none := hd.container_ne_none (container_ne_none_of_status hs)
    exact wp_mono (fun _ _ hx => hx.1) (settles_removeImage hw (.inl hstands) (.rebuild ts))

theorem settles_removeReplacedSnapshot
    {v : View}
    (h : Preserved restores v) (hc : v.container ≠ none) (prev keep : Image) :
    Settles restores (removeReplacedSnapshot prev keep) v := by
  unfold removeReplacedSnapshot
  split
  · exact wp_mono (fun _ _ hx => hx.1) (settles_removeImage h (.inl hc) prev)
  · exact h

theorem ensures_replaceContainer
    {ts : Nat} {v : View}
    (hk : Kept restores v) (hc : v.container ≠ none) (port : Nat) :
    Ensures restores (replaceContainer ts port) (createdPost restores) v := by
  refine wp_seq
    (ensures_ensureContainerRemoved hk (fun h => absurd h hc) rfl containerRemoveMaxAttempts)
    (fun _ w hw => ?_) (fun _ _ hw => createdPost_error hw)
  have hcr : Creatable restores (.rebuild ts) w := ⟨hw.1, hw.2.1⟩
  exact ensures_createContainer hcr port

theorem settles_settleRebuild
    {ts : Nat} {v : View}
    (hk : Kept restores v) (hc : v.container ≠ none) (prev : Image) (port : Nat) :
    Settles restores (settleRebuild prev ts port) v := by
  refine wp_attempt_bind (ensures_replaceContainer hk hc port) fun r w hw => ?_
  cases r with
  | ok _ => exact settles_removeReplacedSnapshot hw.1 (hw.2 rfl) prev _
  | error e =>
      exact wp_seq (settles_discardUnusedSnapshot hw.1 ts) (fun _ _ h => h) (fun _ _ h => h)

/-- A call that only asks, within a program that goes on from a settled name. -/
theorem ensures_query
    {c : Call} {f : Answer c → Op α} {Q : Except String α → View → Prop} {v : View}
    (h : Preserved restores v)
    (hsame : ∀ t : Tick, Drift v (v.act c t).2)
    (hf : ∀ r w, Preserved restores w → Drift v w → Ensures restores (f r) Q w) :
    Ensures restores (ask c >>= f) Q v :=
  ensures_ask h.kept fun t _ _ hd => hf _ _ (h.drift ((hsame t).trans hd)) ((hsame t).trans hd)

theorem drift_stopContainer
    (v : View) (t : Tick) :
    Drift v (v.act .stopContainer t).2 := by
  rw [View.act]
  dsimp only
  split
  · exact drift_setRunning v false
  · exact .refl v

theorem drift_startContainer
    (v : View) (t : Tick) :
    Drift v (v.act .startContainer t).2 := by
  rw [View.act]
  dsimp only
  split
  · exact drift_setRunning v true
  · exact .refl v

theorem ensures_stopIfRunning
    {v : View}
    (h : Preserved restores v) (status : ContainerStatus) :
    Ensures restores (stopIfRunning status) (fun r w => (r = .ok ()) ∧ Preserved restores w ∧ Drift v w)
      v := by
  unfold stopIfRunning
  split
  · exact ensures_query h (drift_stopContainer v) fun _ _ hw hd => ⟨rfl, hw, hd⟩
  · exact ⟨rfl, h, .refl v⟩

theorem ensures_resolveExistingPort
    {v : View}
    (h : Preserved restores v) (port : Option Nat) :
    Ensures restores (resolveExistingPort port) (fun _ w => Preserved restores w ∧ Drift v w) v := by
  refine ensures_query h (fun _ => .refl v) fun baked w hw hd => ?_
  cases port.or baked with
  | some p => exact ⟨hw, hd⟩
  | none =>
      refine ensures_query hw (fun _ => .refl w) fun p x hx hd' => ?_
      cases p <;> exact ⟨hx, hd.trans hd'⟩

/-- The container is snapshotted, and from there on the rebuild leaves a settled name. -/
theorem settles_snapshotContainer
    {ts : Nat} {v : View}
    (h : Preserved restores v) (hts : Current ts v) (prev : Image) (port : Nat) :
    Settles restores
      (do
        ask (.snapshotContainer ts) >>= orFail "docker snapshot failed"
        settleRebuild prev ts port) v := by
  refine ensures_ask h.kept fun t _ w hd => ?_
  cases hc : v.container.filter fun _ => t.outcome.acts with
  | none =>
      have hact : v.act (.snapshotContainer ts) t = (false, v) := by simp only [View.act, hc]
      rw [hact] at hd ⊢
      exact h.drift hd
  | some c =>
      have hstands : v.container ≠ none := by
        intro hnone
        simp [hnone] at hc
      have hact :
          v.act (.snapshotContainer ts) t =
            (t.outcome.reports,
              { v with snapshots := (ts, c.fs) :: (v.removeImage (.rebuild ts)).snapshots }) := by
        simp only [View.act, hc]
      rw [hact] at hd ⊢
      have hw := (h.kept.snapshot hstands hts).drift hd
      have hstands' : w.container ≠ none := hd.container_ne_none hstands
      exact ensures_orFail (fun _ => settles_settleRebuild hw hstands' prev port)
        (fun _ => hw.preserved hstands')

theorem settles_rebuildAgent
    {v : View}
    (h : Preserved restores v) :
    Settles restores rebuildAgent v := by
  refine ensures_query h (fun _ => .refl v) fun ready v h _ => ?_
  refine ensures_orFail (fun _ => ?_) (fun _ => h)
  refine ensures_query h (fun _ => .refl v) fun info v h _ => ?_
  cases info with
  | none => exact h
  | some info =>
      refine ensures_query h (fun _ => .refl v) fun envPort v h _ => ?_
      have hguard :
          Ensures restores (guardAlive info.status) (fun _ => Preserved restores) v := by
        cases info.status <;> exact h
      refine wp_seq hguard (fun _ v h => ?_) (fun _ _ hw => hw)
      refine wp_seq (ensures_resolveExistingPort h envPort) (fun port v h => ?_)
        (fun _ _ hw => hw.1)
      replace h := h.1
      refine ensures_ask h.kept fun t _ w hd => ?_
      have hts : Current v.now w := Current.drift ⟨h.kept.past, Nat.le_refl _⟩ hd
      refine wp_seq (ensures_stopIfRunning (h.drift hd) info.status) (fun _ x hx => ?_)
        (fun _ _ hw => hw.2.1)
      exact settles_snapshotContainer hx.2.1 (hts.drift hx.2.2) info.image port

/-! ## The boot pass -/

/-- What the boot pass has found of an agent: its snapshots, oldest first. -/
def Found (tss : List Nat) (v : View) : Prop := v.snapshots.map (·.1) = tss.reverse

theorem Found.drift
    {tss : List Nat} {v w : View}
    (h : Found tss v) (hd : Drift v w) :
    Found tss w := by
  unfold Found
  rw [hd.snapshots]
  exact h

/-- The newest snapshot that was found is the newest one. -/
theorem Found.head?_eq
    {tss : List Nat} {v : View} {newest : Nat}
    (h : Found tss v) (hnewest : tss.getLast? = some newest) :
    ∃ fs, v.snapshots.head? = some (newest, fs) := by
  have hhead : (v.snapshots.map (·.1)).head? = some newest := by
    rw [h, List.head?_reverse, hnewest]
  rw [List.head?_map] at hhead
  obtain ⟨⟨ts, fs⟩, hs, rfl⟩ := Option.map_eq_some_iff.1 hhead
  exact ⟨fs, hs⟩

theorem settles_resumeFromSnapshot
    {newest : Nat} {v : View}
    (hcr : Creatable restores (.rebuild newest) v) (superseded : List Nat) (port : Nat) :
    Settles restores (resumeFromSnapshot superseded newest port) v := by
  refine wp_attempt_bind (ensures_createContainer hcr port) fun r w hw => ?_
  cases r with
  | ok _ => exact settles_removeSnapshots hw.1 (.inl (hw.2 rfl)) superseded
  | error e => exact hw.1

/-- With a port in the env file, the newest snapshot is the agent's filesystem. -/
theorem Preserved.creatable
    {tss : List Nat} {newest : Nat} {v : View}
    (h : Preserved restores v) (hfound : Found tss v) (hnewest : tss.getLast? = some newest)
    (hport : v.port ≠ none) :
    Creatable restores (.rebuild newest) v where
  kept := h.kept
  source hc := by
    obtain ⟨fs, hhead⟩ := hfound.head?_eq hnewest
    cases hl : v.latest with
    | none =>
        have hempty := (h.settled.cleared hl).resolve_left hport
        simp [hempty] at hhead
    | some L =>
        obtain rfl := (h.settled.resumable hc L hl).2 (newest, fs) hhead
        exact ⟨fs, hl, hhead⟩

theorem settles_resumeInterruptedRebuild
    {tss : List Nat} {v : View}
    (h : Preserved restores v) (hfound : Found tss v) :
    Settles restores (resumeInterruptedRebuild tss) v := by
  refine ensures_query h (fun _ => .refl v) fun status w hw hd => ?_
  replace hfound := hfound.drift hd
  by_cases hs : status = .notFound
  · rw [if_neg (not_not_intro hs)]
    cases hnewest : tss.getLast? with
    | none => exact hw
    | some newest =>
        refine ensures_ask hw.kept fun t _ x hd => ?_
        have hx := hw.drift hd
        replace hfound := hfound.drift hd
        change Settles restores (if w.env.isSome then _ else _) x
        by_cases henv : w.env.isSome = true
        · rw [if_pos henv]
          refine ensures_ask hx.kept fun t _ y hd => ?_
          have hy := hx.drift hd
          replace hfound := hfound.drift hd
          obtain ⟨read, hread⟩ : ∃ read : Option Nat, (x.act .readEnvPort t).1 = read := ⟨_, rfl⟩
          rw [hread]
          cases read with
          | none => exact hy
          | some port =>
              have hsome : y.port ≠ none := by
                intro hnone
                have hxy : y.port = x.port := congrArg Option.join hd.env
                rw [hxy] at hnone
                simp [View.act, hnone] at hread
              exact settles_resumeFromSnapshot (hy.creatable hfound hnewest hsome) _ port
        · rw [if_neg henv]
          refine settles_removeSnapshots hx ?_ tss
          by_cases hc : x.container = none
          · cases hl : x.latest with
            | none => exact .inr hl
            | some L =>
                have hport := (hx.settled.resumable hc L hl).1
                rw [View.port, hd.env] at hport
                change w.env.join.isSome = true at hport
                cases he : w.env with
                | none => simp [he] at hport
                | some e => simp [he] at henv
          · exact .inl hc
  · rw [if_pos hs]
    exact hw

/-! ## The other operations -/

theorem settles_createAgent
    {v : View}
    (h : Preserved restores v) (hfree : v.container = none → v.latest = none) :
    Settles restores createAgent v := by
  have hbase : Creatable restores .base v := ⟨h.kept, hfree⟩
  refine ensures_query h (fun _ => .refl v) fun status w hw hd => ?_
  replace hbase := hbase.drift hd
  split
  · exact hw
  · refine ensures_query hw (fun _ => .refl w) fun resolved x hx hd => ?_
    replace hbase := hbase.drift hd
    refine ensures_orFail (fun _ => ?_) (fun _ => hx)
    refine ensures_query hx (fun _ => .refl x) fun port y hy hd => ?_
    replace hbase := hbase.drift hd
    cases port with
    | none => exact hy
    | some port => exact wp_mono (fun _ _ hz => hz.1) (ensures_createContainer hbase port)

theorem ensures_guardAlive
    {v : View} (status : ContainerStatus) {f : Unit → Op α}
    (h : Preserved restores v)
    (hf : status ≠ .notFound → Settles restores (f ()) v) :
    Settles restores (guardAlive status >>= f) v := by
  cases status with
  | notFound => exact h
  | dead => exact h
  | running => exact hf nofun
  | stopped => exact hf nofun

/-- No agent is left under the name, and no container. -/
structure Destroyed (v : View) : Prop where
  container : v.container = none
  latest : v.latest = none

theorem Destroyed.drift
    {v w : View}
    (h : Destroyed v) (hd : Drift v w) :
    Destroyed w :=
  ⟨(hd.gone h.container).1, (hd.gone h.container).2.trans h.latest⟩

theorem Kept.destroy
    {v : View}
    (h : Kept restores v) :
    Kept restores { v with container := none, latest := none } :=
  ⟨h.ordered, h.past, h.backups, h.older, nofun, nofun⟩

theorem Destroyed.settled
    {v : View}
    (h : Destroyed v) (hc : Cleared v) :
    Settled v :=
  ⟨fun _ L hL => absurd (h.latest.symm.trans hL) (by simp), fun _ => hc⟩

/-- The backups of an agent that is gone may go. -/
theorem Preserved.forget
    {v : View}
    (h : Preserved restores v) (hgone : Destroyed v) :
    Preserved restores { v with repo := [] } where
  kept :=
    { h.kept with
      backups := .nil
      older := nofun
      window := fun _ L hL => absurd (hgone.latest.symm.trans hL) (by simp) }
  settled := ⟨h.settled.resumable, h.settled.cleared⟩

theorem settles_clearAgent
    {v : View}
    (hk : Kept restores v) (hdestroyed : Destroyed v) :
    Settles restores (do
      let _ ← ask .deleteEnvFile
      let _ ← ask .removeRepo
      pure ()) v := by
  refine ensures_ask hk fun t ht w hd => ?_
  have hw : Preserved restores w ∧ Destroyed w := by
    rw [View.act] at hd
    dsimp only at hd
    split at hd
    · have hgone : Destroyed { v with env := none } := ⟨hdestroyed.container, hdestroyed.latest⟩
      exact ⟨Preserved.drift ⟨hk.setEnv none, hgone.settled (.inl rfl)⟩ hd, hgone.drift hd⟩
    · rename_i hacts
      exact ⟨Preserved.drift ⟨hk, ht.resolve_left hacts⟩ hd, hdestroyed.drift hd⟩
  obtain ⟨hpreserved, hgone⟩ := hw
  refine ensures_ask hpreserved.kept fun t _ x hd => ?_
  rw [View.act] at hd
  dsimp only at hd
  split at hd
  · exact (hpreserved.forget hgone).drift hd
  · exact hpreserved.drift hd

theorem settles_destroyAgent
    {v : View}
    (h : Preserved restores v) :
    Settles restores destroyAgent v := by
  refine ensures_query h (fun _ => .refl v) fun status v h _ => ?_
  refine ensures_guardAlive status h fun _ => ?_
  refine wp_seq (ensures_stopIfRunning h status) (fun _ v hv => ?_) (fun _ _ hw => hw.2.1)
  replace h := hv.2.1
  refine ensures_ask h.kept fun t ht w hd => ?_
  have hgone : Destroyed { v with container := none, latest := none } := ⟨rfl, rfl⟩
  change Drift (if t.outcome.acts then { v with container := none, latest := none } else v) w at hd
  change Settles restores (orFail _ t.outcome.reports >>= _) w
  cases ho : t.outcome with
  | ok =>
      rw [ho] at hd
      exact settles_clearAgent (h.kept.destroy.drift hd) (hgone.drift hd)
  | lost =>
      rw [ho] at hd
      exact Preserved.drift ⟨h.kept.destroy, hgone.settled (ht ho)⟩ hd
  | failed =>
      rw [ho] at hd
      exact h.drift hd

theorem settles_startAgent
    {v : View}
    (h : Preserved restores v) :
    Settles restores startAgent v := by
  refine ensures_query h (fun _ => .refl v) fun status v h _ => ?_
  refine ensures_guardAlive status h fun _ => ?_
  split
  · exact h
  · refine ensures_query h (drift_startContainer v) fun started w hw _ => ?_
    cases started <;> exact hw

theorem settles_stopAgent
    {v : View}
    (h : Preserved restores v) :
    Settles restores stopAgent v := by
  refine ensures_query h (fun _ => .refl v) fun status v h _ => ?_
  refine ensures_guardAlive status h fun _ => ?_
  split
  · exact h
  · refine ensures_query h (drift_stopContainer v) fun stopped w hw _ => ?_
    cases stopped <;> exact hw

/-- A container stands. -/
structure Standing (restores : Bool) (v : View) : Prop where
  kept : Kept restores v
  stands : v.container ≠ none

theorem stage_standing : Stage restores (Standing restores) :=
  ⟨fun _ h => h.kept, fun _ _ h hd => ⟨h.kept.drift hd, hd.container_ne_none h.stands⟩,
    fun _ env h => ⟨h.kept.setEnv env, h.stands⟩⟩

theorem settles_writeAgentEnvFile
    {v : View}
    (h : Standing restores v) (port : Nat) :
    Settles restores (writeAgentEnvFile port) v := by
  refine wp_mono (fun r w hw => ?_) (ensures_writeAgentEnvFile stage_standing h port)
  cases r with
  | ok _ => exact Kept.preserved (Standing.kept hw) (Standing.stands hw)
  | error e => exact hw

theorem settles_ensureEnvFile
    {v : View}
    (h : Preserved restores v) :
    Settles restores ensureEnvFile v := by
  refine ensures_ask h.kept fun t _ w hd => ?_
  have hw : Preserved restores w := h.drift hd
  by_cases hlisted : (v.act .listManaged t).1 = true
  · rw [if_pos hlisted]
    have hv : v.container ≠ none := by
      intro hnone
      change (t.outcome.reports && v.container.isSome) = true at hlisted
      simp [hnone] at hlisted
    have hstands : w.container ≠ none := hd.container_ne_none hv
    refine ensures_query hw (fun _ => .refl w) fun isFile w hw hd => ?_
    replace hstands := hd.container_ne_none hstands
    cases isFile with
    | true => exact hw
    | false =>
        refine ensures_query hw (fun _ => .refl w) fun baked w hw hd => ?_
        replace hstands := hd.container_ne_none hstands
        cases (baked : Option Nat) with
        | some port => exact settles_writeAgentEnvFile ⟨hw.kept, hstands⟩ port
        | none =>
            refine ensures_query hw (fun _ => .refl w) fun allocated w hw hd => ?_
            replace hstands := hd.container_ne_none hstands
            cases (allocated : Option Nat) with
            | some port => exact settles_writeAgentEnvFile ⟨hw.kept, hstands⟩ port
            | none => exact hw
  · rw [if_neg hlisted]
    exact hw

/-! ## Backups and restores -/

/-- A backup is in the repository. -/
def Listed (id : Nat) (v : View) : Prop := id ∈ v.repo.map (·.1)

theorem Listed.drift
    {id : Nat} {v w : View}
    (h : Listed id v) (hd : Drift v w) :
    Listed id w := by
  unfold Listed
  rw [hd.repo]
  exact h

theorem Listed.backupFs
    {id : Nat} {v : View}
    (h : Listed id v) :
    ∃ fs, v.backupFs id = some fs := by
  obtain ⟨b, hb, hid⟩ := List.mem_map.1 h
  have hfound : (v.repo.find? (·.1 = id)).isSome = true :=
    List.find?_isSome.2 ⟨b, hb, by simpa using hid⟩
  obtain ⟨found, hfound⟩ := Option.isSome_iff_exists.1 hfound
  exact ⟨found.2, by rw [View.backupFs, hfound]; rfl⟩

/-- Another backup is taken. -/
theorem Preserved.backup
    {v : View}
    (h : Preserved restores v) (fs : Fs) :
    Preserved restores { v with repo := (v.fresh, fs) :: v.repo, fresh := v.fresh + 1 } where
  kept :=
    { h.kept with
      backups := List.pairwise_cons.2 ⟨h.kept.older, h.kept.backups⟩
      older := fun b hb => by
        rcases List.mem_cons.1 hb with rfl | hb
        · exact Nat.lt_succ_self _
        · exact Nat.lt_succ_of_lt (h.kept.older b hb)
      window := fun hc L hL => by
        refine (h.kept.window hc L hL).imp (fun h => h) fun ⟨hr, n, hn⟩ => ?_
        exact ⟨hr, n, List.mem_cons_of_mem _ hn⟩ }
  settled := ⟨h.settled.resumable, h.settled.cleared⟩

/-- A snapshot of the container into restic, which says whether it worked. -/
theorem ensures_resticSnapshot
    {f : Bool → Op α} {Q : Except String α → View → Prop} {v : View}
    (h : Preserved restores v)
    (hf :
      ∀ r w, Preserved restores w → (∀ id, Listed id v → Listed id w) →
        (v.container = none ↔ w.container = none) → Ensures restores (f r) Q w) :
    Ensures restores (ask .resticSnapshot >>= f) Q v := by
  refine ensures_ask h.kept fun t _ w hd => ?_
  cases hc : v.container.filter fun _ => t.outcome.acts with
  | none =>
      have hact : v.act .resticSnapshot t = (false, v) := by simp only [View.act, hc]
      rw [hact] at hd ⊢
      exact hf _ w (h.drift hd) (fun _ hid => hid.drift hd) hd.container_none.symm
  | some c =>
      have hact :
          v.act .resticSnapshot t =
            (t.outcome.reports,
              { v with repo := (v.fresh, c.fs) :: v.repo, fresh := v.fresh + 1 }) := by
        simp only [View.act, hc]
      rw [hact] at hd ⊢
      refine hf _ w ((h.backup c.fs).drift hd) (fun id hid => ?_) hd.container_none.symm
      refine Listed.drift ?_ hd
      exact List.mem_cons_of_mem _ hid

theorem settles_createBackup
    {v : View}
    (h : Preserved restores v) :
    Settles restores createBackup v := by
  refine ensures_query h (fun _ => .refl v) fun status v h _ => ?_
  refine ensures_guardAlive status h fun _ => ?_
  refine ensures_resticSnapshot h fun r w hw _ _ => ?_
  cases r <;> exact hw

theorem settles_abortRestore
    {v : View}
    (h : Preserved restores v) (status : ContainerStatus) (message : String) :
    Settles restores (abortRestore status message) v := by
  unfold abortRestore
  split
  · exact ensures_query h (drift_startContainer v) fun _ _ hw _ => hw
  · exact h

/-- The backup is there to be installed, and the env file has its port unless the name is
settled. -/
structure Installable (restores : Bool) (id : Nat) (v : View) : Prop where
  kept : Kept restores v
  listed : Listed id v
  port : v.port.isSome = true ∨ Settled v

theorem Installable.drift
    {id : Nat} {v w : View}
    (h : Installable restores id v) (hd : Drift v w) :
    Installable restores id w where
  kept := h.kept.drift hd
  listed := h.listed.drift hd
  port := h.port.imp (fun hport => by simpa [View.port, hd.env] using hport)
    (fun hs => hs.drift h.kept hd)

/-- The image of a restore is imported. -/
theorem Kept.setRestoreImage
    {v : View}
    (h : Kept restores v) (fs : Option Fs) :
    Kept restores { v with restoreImage := fs } :=
  ⟨h.ordered, h.past, h.backups, h.older, h.stands, h.window⟩

theorem Preserved.setRestoreImage
    {v : View}
    (h : Preserved restores v) (fs : Option Fs) :
    Preserved restores { v with restoreImage := fs } :=
  ⟨h.kept.setRestoreImage fs, h.settled.resumable, h.settled.cleared⟩

theorem settles_createRestored
    {id : Nat} {v : View}
    (hcr : Creatable restores (.restore id) v) (port : Nat) :
    Settles restores
      (do
        createContainer (.restore id) port
        ask .startContainer >>= orFail "failed to start restored agent") v := by
  refine wp_seq (ensures_createContainer hcr port) (fun _ w hw => ?_) (fun _ _ hw => hw.1)
  refine ensures_query hw.1 (drift_startContainer w) fun started x hx _ => ?_
  cases started <;> exact hx

theorem settles_installBackup
    {id : Nat} {v : View}
    (h : Installable restores id v) :
    Settles restores (installBackup id) v := by
  refine ensures_ask h.kept fun t ht w hd => ?_
  obtain ⟨read, hread⟩ : ∃ read : Option Nat, (v.act .readEnvPort t).1 = read := ⟨_, rfl⟩
  rw [hread]
  cases read with
  | none =>
      have hsettled : Settled v := by
        rcases ht with hr | hs
        · rw [View.act, hr] at hread
          have hport : v.port = none := hread
          exact h.port.resolve_left (by simp [hport])
        · exact hs
      exact Preserved.drift ⟨h.kept, hsettled⟩ hd
  | some port =>
      replace h := h.drift hd
      refine ensures_ask h.kept fun t ht x hd => ?_
      obtain ⟨fs, hfs⟩ := h.listed.backupFs
      cases hr : t.outcome.reports with
      | true =>
          have hact :
              w.act (.restoreToImage id) t =
                (true, { w with restoreImage := some fs }) := by
            simp [View.act, hfs, hr, Outcome.acts_of_reports hr, Option.filter]
          rw [hact] at hd ⊢
          have hcr : Creatable restores (.restore id) { w with restoreImage := some fs } :=
            ⟨h.kept.setRestoreImage _, fun _ => ⟨fs, rfl, hfs⟩⟩
          exact settles_createRestored (hcr.drift hd) port
      | false =>
          have hw : Preserved restores w := ⟨h.kept, ht.resolve_left (by simp [hr])⟩
          have hact :
              (w.act (.restoreToImage id) t).1 = false ∧
                Preserved restores (w.act (.restoreToImage id) t).2 := by
            rw [View.act]
            split
            · exact ⟨rfl, hw⟩
            · exact ⟨hr, hw.setRestoreImage _⟩
          rw [hact.1]
          exact hact.2.drift hd

/-- What a confirmed removal leaves can be installed from. -/
theorem Removed.installable
    {id : Nat} {v : View}
    (h : Removed restores (.restore id) v) (hk : Kept restores v) (hlisted : Listed id v) :
    Installable restores id v where
  kept := hk
  listed := hlisted
  port := by
    by_cases hc : v.container = none
    · obtain ⟨L, -, hrep⟩ := h hc
      exact .inl hrep.2.2
    · exact .inr (hk.preserved hc).settled

theorem settles_replaceByBackup
    {id : Nat} {status : ContainerStatus} {v : View}
    (h : Preserved restores v) (hc : v.container ≠ none) (hlisted : Listed id v) :
    Settles restores (replaceByBackup status id) v := by
  refine wp_seq (ensures_stopIfRunning h status) (fun _ w hw => ?_) (fun _ _ hw => hw.2.1)
  obtain ⟨-, hw, hd⟩ := hw
  refine ensures_resticSnapshot hw fun saved x hx hmem hstands => ?_
  replace hlisted := hmem id (hlisted.drift hd)
  have hcx : x.container ≠ none := fun hnone => hd.container_ne_none hc (hstands.2 hnone)
  cases saved with
  | false => exact settles_abortRestore hx status _
  | true =>
      refine wp_attempt_bind
        (ensures_ensureContainerRemoved hx.kept (fun hnone => absurd hnone hcx) rfl
          containerRemoveMaxAttempts)
        fun r y hy => ?_
      cases r with
      | error e => exact settles_abortRestore hy status e
      | ok _ =>
          obtain ⟨hk, hremoved, hrepo⟩ := hy
          have hlisted' : Listed id y := by
            unfold Listed
            rw [hrepo]
            exact hlisted
          exact settles_installBackup (hremoved.installable hk hlisted')

/-- The backups that list are in the repository. -/
theorem ensures_listBackups
    {v : View}
    (h : Preserved restores v) :
    Ensures restores listBackups
      (fun r w => Preserved restores w ∧ ∀ ids, r = .ok ids → ∀ id ∈ ids, Listed id w) v := by
  refine ensures_query h (fun _ => .refl v) fun isFile v h _ => ?_
  cases isFile with
  | false => exact ⟨h, nofun⟩
  | true =>
      refine ensures_ask h.kept fun t _ w hd => ?_
      have hw := h.drift hd
      obtain ⟨read, hread⟩ : ∃ read : Option (List Nat), (v.act .resticList t).1 = read := ⟨_, rfl⟩
      rw [hread]
      cases read with
      | none => exact ⟨hw, nofun⟩
      | some listed =>
          refine ⟨hw, fun ids hids id hid => ?_⟩
          obtain rfl := Except.ok.inj hids
          rw [View.act] at hread
          split at hread
          · obtain rfl := Option.some.inj hread
            exact Listed.drift hid hd
          · cases hread

theorem settles_restoreBackup
    {v : View}
    (h : Preserved restores v) (id : Nat) :
    Settles restores (restoreBackup id) v := by
  refine wp_seq (ensures_listBackups h) (fun ids v hv => ?_) (fun _ _ hw => hw.1)
  obtain ⟨h, hids⟩ := hv
  split
  · rename_i hid
    have hlisted := hids ids rfl id hid
    refine ensures_query h (fun _ => .refl v) fun ready w hw hd => ?_
    replace hlisted := hlisted.drift hd
    refine ensures_orFail (fun _ => ?_) (fun _ => hw)
    refine ensures_ask hw.kept fun t _ x hd => ?_
    have hx : Preserved restores x := hw.drift hd
    replace hlisted := hlisted.drift hd
    by_cases hs : (w.act .containerStatus t).1 = .notFound
    · rw [if_pos hs]
      exact settles_installBackup ⟨hx.kept, hlisted, .inr hx.settled⟩
    · rw [if_neg hs]
      have hstands := hd.container_ne_none (container_ne_none_of_status hs)
      exact settles_replaceByBackup hx hstands hlisted
  · exact h

end Docker
end Vestad
end Vesta
