import Vesta.Vestad.Docker.Lifecycle

/-!
# What the operations on one agent preserve

Between two operations an agent's container holds what the agent has last had.
An agent without a container has that in its newest snapshot, or in a backup
that a restore has taken, and its env file has a port to resume with.  Where no
agent is left, no env file makes the boot pass resume from a leftover snapshot.

`tidy` is the condition on the calls under which every operation keeps this,
wherever it fails or is cut.
-/

namespace Vesta
namespace Vestad
namespace Docker

open Lib
open Prog

/-! ## What happens to a name from the outside -/

/-- Time passes, and an agent that runs may write. -/
structure Drift (v w : View) : Prop where
  now : v.now ≤ w.now
  fresh : v.fresh ≤ w.fresh
  snapshots : w.snapshots = v.snapshots
  env : w.env = v.env
  repo : w.repo = v.repo
  restoreImage : w.restoreImage = v.restoreImage
  gone : v.container = none → w.container = none ∧ w.latest = v.latest
  stands :
    ∀ c, v.container = some c → ∃ c', w.container = some c' ∧ c'.image = c.image ∧
      (w.latest = some c'.fs ∨ v.latest ≠ some c.fs)

namespace Drift

theorem refl (v : View) : Drift v v where
  now := Nat.le_refl _
  fresh := Nat.le_refl _
  snapshots := rfl
  env := rfl
  repo := rfl
  restoreImage := rfl
  gone h := ⟨h, rfl⟩
  stands c h := ⟨c, h, rfl, em _⟩

theorem trans
    {u v w : View}
    (h : Drift u v) (h' : Drift v w) :
    Drift u w where
  now := Nat.le_trans h.now h'.now
  fresh := Nat.le_trans h.fresh h'.fresh
  snapshots := h'.snapshots.trans h.snapshots
  env := h'.env.trans h.env
  repo := h'.repo.trans h.repo
  restoreImage := h'.restoreImage.trans h.restoreImage
  gone hc := by
    obtain ⟨hc', hl⟩ := h.gone hc
    obtain ⟨hc'', hl'⟩ := h'.gone hc'
    exact ⟨hc'', hl'.trans hl⟩
  stands c hc := by
    obtain ⟨c', hc', himage, hl⟩ := h.stands c hc
    obtain ⟨c'', hc'', himage', hl'⟩ := h'.stands c' hc'
    refine ⟨c'', hc'', himage'.trans himage, ?_⟩
    rcases hl with hl | hl
    · exact .inl (hl'.resolve_right (not_not_intro hl))
    · exact .inr hl

end Drift

theorem drift_write (v : View) : Drift v v.write := by
  unfold View.write
  split
  · exact .refl v
  · rename_i c hc
    split
    · refine ⟨Nat.le_refl _, Nat.le_succ _, rfl, rfl, rfl, rfl,
        fun h => absurd (hc.symm.trans h) (by simp), ?_⟩
      intro d hd
      obtain rfl := Option.some.inj (hc.symm.trans hd)
      refine ⟨_, rfl, rfl, ?_⟩
      cases hl : v.latest with
      | none => exact .inr (by simp)
      | some L => exact .inl rfl
    · exact .refl v

theorem drift_later (v : View) (secs : Nat) : Drift v (v.later secs) :=
  { Drift.refl v with
    now := Nat.le_add_right _ _
    gone := fun h => ⟨h, rfl⟩
    stands := fun c h => ⟨c, h, rfl, em _⟩ }

theorem drift_pass (v : View) (t : Tick) : Drift v (v.pass t) := by
  unfold View.pass
  split
  · exact (drift_later v t.elapsed).trans (drift_write _)
  · exact drift_later v t.elapsed

/-! ## The invariant -/

/-- No env file with a port makes the boot pass resume from a leftover snapshot. -/
def Cleared (v : View) : Prop := v.port = none ∨ v.snapshots = []

/-- The newest snapshot holds a filesystem. -/
def Newest (v : View) (fs : Fs) : Prop := ∃ ts, v.snapshots.head? = some (ts, fs)

/-- A backup holds a filesystem. -/
def BackedUp (v : View) (fs : Fs) : Prop := ∃ id, (id, fs) ∈ v.repo

/-- The agent's filesystem is in its container or, where it has none, in its newest snapshot or,
where restores may remove the container, in a backup.  A container stands for an agent only. -/
structure Kept (restores : Bool) (v : View) : Prop where
  ordered : v.snapshots.Pairwise fun a b => b.1 < a.1
  past : ∀ s ∈ v.snapshots, s.1 ≤ v.now
  backups : v.repo.Pairwise fun a b => b.1 < a.1
  older : ∀ b ∈ v.repo, b.1 < v.fresh
  stands : ∀ c, v.container = some c → v.latest = some c.fs
  window :
    v.container = none → ∀ L, v.latest = some L →
      Newest v L ∨ (restores = true ∧ BackedUp v L)

/-- A boot that follows resumes no other filesystem than the agent's, and resumes it where it is
in a snapshot. -/
structure Settled (v : View) : Prop where
  resumable :
    v.container = none → ∀ L, v.latest = some L →
      v.port.isSome = true ∧ ∀ s ∈ v.snapshots.head?, s.2 = L
  cleared : v.latest = none → Cleared v

structure Preserved (restores : Bool) (v : View) : Prop where
  kept : Kept restores v
  settled : Settled v

variable {restores : Bool}

theorem Kept.drift
    {v w : View}
    (h : Kept restores v) (hd : Drift v w) :
    Kept restores w where
  ordered := hd.snapshots ▸ h.ordered
  past s hs := Nat.le_trans (h.past s (hd.snapshots ▸ hs)) hd.now
  backups := hd.repo ▸ h.backups
  older b hb := Nat.lt_of_lt_of_le (h.older b (hd.repo ▸ hb)) hd.fresh
  stands c hc := by
    cases hv : v.container with
    | none => exact absurd ((hd.gone hv).1.symm.trans hc) (by simp)
    | some d =>
        obtain ⟨d', hd', -, hl⟩ := hd.stands d hv
        obtain rfl := Option.some.inj (hd'.symm.trans hc)
        exact hl.resolve_right (not_not_intro (h.stands d hv))
  window hc L hL := by
    cases hv : v.container with
    | none =>
        rw [(hd.gone hv).2] at hL
        simpa [Newest, BackedUp, hd.snapshots, hd.repo] using h.window hv L hL
    | some d =>
        obtain ⟨d', hd', -, -⟩ := hd.stands d hv
        exact absurd (hd'.symm.trans hc) (by simp)

theorem Drift.container_none
    {v w : View}
    (hd : Drift v w) :
    w.container = none ↔ v.container = none := by
  constructor
  · intro hc
    cases hv : v.container with
    | none => rfl
    | some d =>
        obtain ⟨d', hd', -, -⟩ := hd.stands d hv
        exact absurd (hd'.symm.trans hc) (by simp)
  · exact fun hc => (hd.gone hc).1

theorem Settled.drift
    {v w : View}
    (h : Settled v) (hk : Kept restores v) (hd : Drift v w) :
    Settled w where
  resumable hc L hL := by
    have hv := hd.container_none.1 hc
    rw [(hd.gone hv).2] at hL
    simpa [View.port, hd.env, hd.snapshots] using h.resumable hv L hL
  cleared hl := by
    cases hv : v.container with
    | none =>
        rw [(hd.gone hv).2] at hl
        simpa [Cleared, View.port, hd.env, hd.snapshots] using h.cleared hl
    | some d =>
        obtain ⟨d', -, -, hlatest⟩ := hd.stands d hv
        rw [hl] at hlatest
        exact absurd (hk.stands d hv) (hlatest.resolve_left (by simp))

theorem Preserved.drift
    {v w : View}
    (h : Preserved restores v) (hd : Drift v w) :
    Preserved restores w :=
  ⟨h.kept.drift hd, h.settled.drift h.kept hd⟩

/-- While a container stands, a boot resumes nothing. -/
theorem Kept.preserved
    {v : View}
    (h : Kept restores v) (hc : v.container ≠ none) :
    Preserved restores v where
  kept := h
  settled :=
    { resumable := fun hnone => absurd hnone hc
      cleared := fun hl => by
        obtain ⟨c, hcont⟩ := Option.ne_none_iff_exists'.1 hc
        simp [h.stands c hcont] at hl }

/-! ## The condition on the calls -/

/-- A container may be removed: the snapshot just taken holds what the agent has last had, or the
safety backup does and the env file has a port. -/
def Replaceable (restores : Bool) (v : View) (fs : Fs) : Image → Prop
  | .base => False
  | .rebuild ts => v.snapshots.head? = some (ts, fs)
  | .restore _ => restores = true ∧ BackedUp v fs ∧ v.port.isSome = true

/-- No call fails that would leave an agent without a container and without a way to resume it, or
a way to resume an agent that is gone; and no container is removed that holds more than what was
saved of it. -/
def tidy (restores : Bool) : Guard Call View Tick where
  call v
    | .removeContainer replacement, t =>
        t.outcome.acts = true → ∀ c ∈ v.container, Replaceable restores v c.fs replacement
    | .createContainer _, t =>
        t.outcome.acts = true ∨ v.container ≠ none ∨ v.latest = none
    | .removeContainerForce, t => t.outcome = .lost → Cleared v
    | .deleteEnvFile, t => t.outcome.acts = true ∨ Settled v
    | .ensureAgentNetwork, t | .ensureSidecar, t | .openEnvFile, t | .writeEnvFile _, t
    | .ensureConstitutionFile, t | .readEnvPort, t | .restoreToImage _, t =>
        t.outcome.reports = true ∨ Settled v
    | _, _ => True
  cut _ _ := True

/-- What an operation ensures, with what is kept at every point along the way. -/
abbrev Ensures {α : Type} (restores : Bool) (p : Op α)
    (Q : Except String α → View → Prop) (v : View) : Prop :=
  wp exec (tidy restores) (Kept restores) Q p v

/-- A call, and whatever happens before the next one. -/
theorem ensures_ask
    {α : Type} {c : Call} {f : Answer c → Op α}
    {Q : Except String α → View → Prop} {v : View}
    (hk : Kept restores v)
    (h :
      ∀ t, (tidy restores).call v c t →
        ∀ w, Drift (v.act c t).2 w → Ensures restores (f (v.act c t).1) Q w) :
    Ensures restores (ask c >>= f) Q v :=
  ⟨fun _ => hk, fun t ht => h t ht _ (drift_pass _ t)⟩

theorem ensures_orFail
    {α : Type} {message : String} {worked : Bool} {f : Unit → Op α}
    {Q : Except String α → View → Prop} {v : View}
    (hok : worked = true → Ensures restores (f ()) Q v)
    (hfail : worked = false → Q (.error message) v) :
    Ensures restores (orFail message worked >>= f) Q v := by
  cases worked with
  | true => exact hok rfl
  | false => exact hfail rfl

/-! ## What single calls keep -/

theorem container_ne_none_of_status
    {v : View} {t : Tick}
    (h : (v.act .containerStatus t).1 ≠ .notFound) :
    v.container ≠ none := by
  intro hc
  apply h
  change (if t.outcome.reports then v.status t else .notFound) = ContainerStatus.notFound
  simp [View.status, hc]

theorem drift_setRunning (v : View) (running : Bool) : Drift v (v.setRunning running) :=
  { Drift.refl v with
    gone := fun h => ⟨by simp [View.setRunning, h], rfl⟩
    stands := fun c h => ⟨{ c with running := running }, by simp [View.setRunning, h], rfl, em _⟩ }

theorem Drift.container_ne_none
    {v w : View}
    (hd : Drift v w) (h : v.container ≠ none) :
    w.container ≠ none :=
  fun hc => h (hd.container_none.1 hc)

/-- The env file is not part of what is kept. -/
theorem Kept.setEnv
    {v : View}
    (h : Kept restores v) (env : Option (Option Nat)) :
    Kept restores { v with env := env } :=
  ⟨h.ordered, h.past, h.backups, h.older, h.stands, h.window⟩

/-- The snapshots may go: the agent has its container, or there is none. -/
def Unneeded (v : View) : Prop := v.container ≠ none ∨ v.latest = none

theorem Unneeded.drift
    {v w : View}
    (h : Unneeded v) (hd : Drift v w) :
    Unneeded w := by
  by_cases hc : v.container = none
  · exact .inr ((hd.gone hc).2.trans (h.resolve_left (not_not_intro hc)))
  · exact .inl (hd.container_ne_none hc)

theorem Preserved.removeImage
    {v : View}
    (h : Preserved restores v) (hu : Unneeded v) (image : Image) :
    Preserved restores (v.removeImage image) where
  kept :=
    { h.kept with
      ordered := h.kept.ordered.filter _
      past := fun s hs => h.kept.past s (List.mem_filter.1 hs).1
      window := fun hc L hL => by
        have hnone := hu.resolve_left (not_not_intro hc)
        exact absurd (hnone.symm.trans hL) (by simp) }
  settled :=
    { resumable := fun hc L hL => by
        have hnone := hu.resolve_left (not_not_intro hc)
        exact absurd (hnone.symm.trans hL) (by simp)
      cleared := fun hl => by
        rcases h.settled.cleared hl with hport | hempty
        · exact .inl hport
        · exact .inr (by simp [View.removeImage, hempty]) }

/-- The second a snapshot is taken at: no snapshot is from a later one. -/
def Current (ts : Nat) (v : View) : Prop :=
  (∀ s ∈ v.snapshots, s.1 ≤ ts) ∧ ts ≤ v.now

theorem Current.drift
    {ts : Nat} {v w : View}
    (h : Current ts v) (hd : Drift v w) :
    Current ts w :=
  ⟨fun s hs => h.1 s (hd.snapshots ▸ hs), Nat.le_trans h.2 hd.now⟩

/-- A snapshot of the container that stands. -/
theorem Kept.snapshot
    {v : View} {ts : Nat} {fs : Fs}
    (h : Kept restores v) (hc : v.container ≠ none) (hts : Current ts v) :
    Kept restores { v with snapshots := (ts, fs) :: (v.removeImage (.rebuild ts)).snapshots } where
  ordered := by
    refine List.pairwise_cons.2 ⟨?_, h.ordered.filter _⟩
    intro s hs
    obtain ⟨hmem, hne⟩ := List.mem_filter.1 hs
    have hle := hts.1 s hmem
    have hne' : s.1 ≠ ts := by simpa using hne
    exact Nat.lt_of_le_of_ne hle hne'
  past s hs := by
    rcases List.mem_cons.1 hs with rfl | hs
    · exact hts.2
    · exact h.past s (List.mem_filter.1 hs).1
  backups := h.backups
  older := h.older
  stands := h.stands
  window hnone := absurd hnone hc

/-- A container is removed that holds no more than what was saved of it. -/
theorem Kept.remove
    {v : View} {replacement : Image}
    (h : Kept restores v)
    (hr : ∀ c ∈ v.container, Replaceable restores v c.fs replacement) :
    Kept restores { v with container := none } where
  ordered := h.ordered
  past := h.past
  backups := h.backups
  older := h.older
  stands c hc := nomatch hc
  window _ L hL := by
    cases hv : v.container with
    | none => exact h.window hv L hL
    | some c =>
        obtain rfl := Option.some.inj ((h.stands c hv).symm.trans hL)
        have hrep := hr c hv
        cases replacement with
        | base => exact hrep.elim
        | rebuild ts => exact .inl ⟨ts, hrep⟩
        | restore id => exact .inr ⟨hrep.1, hrep.2.1⟩

end Docker
end Vestad
end Vesta
