import Vesta.Vestad.Docker.Operations

/-!
# What the operations do when every call works

An agent without a container is created again by the boot pass, from its newest
snapshot, and by a restore, from the backup that was chosen.
-/

namespace Vesta
namespace Vestad
namespace Docker

open Lib
open Prog

variable {α : Type}

/-- Every call works, the program runs to its end, and the agent does not write meanwhile. -/
def smooth : Guard Call View Tick where
  call _ _ t := t.outcome = .ok ∧ t.writes = false
  cut _ _ := False

/-- What an operation brings about when every call works. -/
abbrev Completes {α : Type} (p : Op α) (Q : Except String α → View → Prop) (v : View) : Prop :=
  wp exec smooth (fun _ => True) Q p v

theorem completes_ask
    {c : Call} {f : Answer c → Op α} {Q : Except String α → View → Prop} {v : View}
    (h :
      ∀ t : Tick, t.outcome = .ok →
        Completes (f (v.act c t).1) Q ((v.act c t).2.later t.elapsed)) :
    Completes (ask c >>= f) Q v := by
  refine ⟨nofun, fun t ht => ?_⟩
  have hpass : (v.act c t).2.pass t = (v.act c t).2.later t.elapsed := by
    simp [View.pass, ht.2]
  have := h t ht.1
  rw [← hpass] at this
  exact this

/-- A call that only asks. -/
theorem completes_query
    {c : Call} {f : Answer c → Op α} {Q : Except String α → View → Prop} {v : View}
    (hsame : ∀ t : Tick, (v.act c t).2 = v)
    (h : ∀ t : Tick, t.outcome = .ok → Completes (f (v.act c t).1) Q (v.later t.elapsed)) :
    Completes (ask c >>= f) Q v := by
  refine completes_ask fun t ht => ?_
  rw [hsame t]
  exact h t ht

/-- No container stands and the image gives the agent its filesystem. -/
structure Creates (image : Image) (fs : Fs) (v : View) : Prop where
  absent : v.container = none
  source : v.imageFs image = some fs
  latest : v.latestFrom fs image = some fs

theorem Creates.later
    {image : Image} {fs : Fs} {v : View}
    (h : Creates image fs v) (secs : Nat) :
    Creates image fs (v.later secs) :=
  ⟨h.absent, by cases image <;> exact h.source, by cases image <;> exact h.latest⟩

theorem Creates.setEnv
    {image : Image} {fs : Fs} {v : View}
    (h : Creates image fs v) (env : Option (Option Nat)) :
    Creates image fs { v with env := env } :=
  ⟨h.absent, by cases image <;> exact h.source, by cases image <;> exact h.latest⟩

/-- What a step of the preparation leaves. -/
def Prepared (image : Image) (fs : Fs) (r : Except String Unit) (v : View) : Prop :=
  r = .ok () ∧ Creates image fs v

theorem completes_prepare
    {c : Call} {message : String} {image : Image} {fs : Fs} {v : View}
    (hc : Answer c = Bool)
    (hanswer : ∀ t : Tick, cast hc (v.act c t).1 = t.outcome.reports)
    (hafter : ∀ t : Tick, t.outcome = .ok → Creates image fs (v.act c t).2) :
    Completes (ask c >>= fun r => orFail message (cast hc r)) (Prepared image fs) v := by
  refine completes_ask fun t ht => ?_
  rw [hanswer t, ht]
  exact ⟨rfl, (hafter t ht).later t.elapsed⟩

/-- Sequencing of steps that end without an error. -/
theorem completes_seq
    {P : View → Prop} {β : Type} {p : Op β} {f : β → Op α} {Q : Except String α → View → Prop}
    {v : View} {b : β}
    (hp : Completes p (fun r w => r = .ok b ∧ P w) v)
    (hf : ∀ w, P w → Completes (f b) Q w) :
    Completes (p >>= f) Q v := by
  refine wp_seq hp (fun a w hw => ?_) (fun e w hw => nomatch hw.1)
  obtain rfl := Except.ok.inj hw.1
  exact hf w hw.2

theorem completes_writeAgentEnvFile
    {image : Image} {fs : Fs} {v : View}
    (h : Creates image fs v) (port : Nat) :
    Completes (writeAgentEnvFile port) (Prepared image fs) v := by
  refine completes_seq (P := Creates image fs) (b := ()) ?_ fun w hw => ?_
  · exact completes_prepare rfl (fun _ => rfl) fun t ht => by
      rw [View.act, ht]
      exact h.setEnv _
  · exact completes_prepare rfl (fun _ => rfl) fun t ht => by
      rw [View.act, ht]
      exact hw.setEnv _

/-- The container that a creation leaves. -/
def Created (image : Image) (fs : Fs) (v : View) : Prop :=
  v.container = some { fs := fs, running := false, image := image } ∧ v.latest = some fs

theorem completes_createContainer
    {image : Image} {fs : Fs} {v : View}
    (h : Creates image fs v) (port : Nat) :
    Completes (createContainer image port) (fun r w => r = .ok () ∧ Created image fs w) v := by
  refine completes_seq (P := Creates image fs) (b := ()) ?_ fun v h => ?_
  · exact completes_prepare rfl (fun _ => rfl) fun _ _ => h
  refine completes_seq (P := Creates image fs) (b := ()) ?_ fun v h => ?_
  · exact completes_prepare rfl (fun _ => rfl) fun _ _ => h
  refine completes_seq (completes_writeAgentEnvFile h port) fun v h => ?_
  refine completes_seq (P := Creates image fs) (b := ()) ?_ fun v h => ?_
  · exact completes_prepare rfl (fun _ => rfl) fun _ _ => h
  refine completes_ask fun t ht => ?_
  have hact : v.act (.createContainer image) t = (true, v.create fs image) := by
    simp [View.act, h.source, h.absent, ht, Outcome.acts, Outcome.reports, Option.filter]
  rw [hact]
  exact ⟨rfl, rfl, h.latest⟩

/-! ## The boot pass -/

theorem View.env_isSome_of_port
    {v : View} {port : Nat}
    (h : v.port = some port) :
    v.env.isSome = true := by
  cases he : v.env with
  | none => simp [View.port, he] at h
  | some e => rfl

theorem completes_removeSnapshots
    {c : Option Container} {L : Option Fs} {v : View}
    (h : v.container = c ∧ v.latest = L) (tss : List Nat) :
    Completes (removeSnapshots tss) (fun _ w => w.container = c ∧ w.latest = L) v := by
  induction tss generalizing v with
  | nil => exact h
  | cons ts tss ih =>
      refine completes_ask fun t ht => ?_
      rw [View.act, ht]
      exact ih h

/-- An agent without a container, whose snapshots the boot pass has found and whose env file has
its port, is created again from its newest snapshot. -/
theorem completes_resumeInterruptedRebuild
    {tss : List Nat} {ts port : Nat} {fs : Fs} {v : View}
    (hc : v.container = none) (hlatest : v.latest = some fs)
    (hfound : Found tss v) (hhead : v.snapshots.head? = some (ts, fs))
    (hport : v.port = some port) :
    Completes (resumeInterruptedRebuild tss) (fun _ w => Created (.rebuild ts) fs w) v := by
  have hnewest : tss.getLast? = some ts := by
    rw [← List.head?_reverse, ← hfound, List.head?_map, hhead]
    rfl
  have henv := View.env_isSome_of_port hport
  have hsource : Creates (.rebuild ts) fs v := by
    obtain ⟨rest, hrest⟩ := List.head?_eq_some_iff.1 hhead
    exact ⟨hc, by simp [View.imageFs, View.snapshotAt, hrest], hlatest⟩
  refine completes_query (fun _ => rfl) fun t ht => ?_
  have hstatus : (v.act .containerStatus t).1 = .notFound := by
    simp [View.act, View.status, hc]
  rw [if_neg (not_not_intro hstatus), hnewest]
  refine completes_query (fun _ => rfl) fun t' _ => ?_
  have hisFile : ((v.later t.elapsed).act .envIsFile t').1 = true := henv
  rw [if_pos hisFile]
  refine completes_query (fun _ => rfl) fun t'' ht'' => ?_
  have hread : (((v.later t.elapsed).later t'.elapsed).act .readEnvPort t'').1 = some port := by
    rw [View.act, ht'']
    exact hport
  rw [hread]
  refine completes_seq (b := .ok ()) (P := Created (.rebuild ts) fs) ?_ fun w hw => ?_
  · have hcreates := ((hsource.later t.elapsed).later t'.elapsed).later t''.elapsed
    refine (wp_attempt _ _ _).2 (wp_mono ?_ (completes_createContainer hcreates port))
    exact fun r w hw => ⟨congrArg _ hw.1, hw.2⟩
  · exact completes_removeSnapshots hw _

/-! ## Restores -/

/-- No container stands, and the backup and the port are there. -/
structure Restorable (id port : Nat) (fs : Fs) (v : View) : Prop where
  absent : v.container = none
  port : v.port = some port
  backup : v.backupFs id = some fs

theorem Restorable.later
    {id port : Nat} {fs : Fs} {v : View}
    (h : Restorable id port fs v) (secs : Nat) :
    Restorable id port fs (v.later secs) :=
  ⟨h.absent, h.port, h.backup⟩

theorem completes_installBackup
    {id port : Nat} {fs : Fs} {v : View}
    (h : Restorable id port fs v) :
    Completes (installBackup id)
      (fun r w => r = .ok () ∧
        w.container = some { fs := fs, running := true, image := .restore id }) v := by
  refine completes_query (fun _ => rfl) fun t ht => ?_
  have hread : (v.act .readEnvPort t).1 = some port := by
    rw [View.act, ht]
    exact h.port
  rw [hread]
  replace h := h.later t.elapsed
  refine completes_seq (b := ()) (P := Creates (.restore id) fs) ?_ fun w hw => ?_
  · refine completes_ask fun t' ht' => ?_
    have hact :
        (v.later t.elapsed).act (.restoreToImage id) t' =
          (true, { v.later t.elapsed with restoreImage := some fs }) := by
      simp [View.act, h.backup, ht', Outcome.acts, Outcome.reports, Option.filter]
    have hcreates : Creates (.restore id) fs { v.later t.elapsed with restoreImage := some fs } :=
      ⟨h.absent, rfl, h.backup⟩
    change Completes (orFail _ ((v.later t.elapsed).act (.restoreToImage id) t').1) _
      (((v.later t.elapsed).act (.restoreToImage id) t').2.later t'.elapsed)
    rw [hact]
    exact ⟨rfl, hcreates.later t'.elapsed⟩
  refine completes_seq (completes_createContainer hw port) fun w hw => ?_
  refine completes_ask fun t' ht' => ?_
  rw [View.act, ht']
  refine ⟨rfl, ?_⟩
  change w.container.map _ = _
  rw [hw.1]
  rfl

theorem completes_listBackups
    {port : Nat} {v : View}
    (hport : v.port = some port) :
    Completes listBackups
      (fun r w => r = .ok (v.repo.map (·.1)) ∧ ∃ secs, w = v.later secs) v := by
  refine completes_query (fun _ => rfl) fun t _ => ?_
  have hisFile : (v.act .envIsFile t).1 = true := View.env_isSome_of_port hport
  rw [if_pos hisFile]
  refine completes_query (fun _ => rfl) fun t' ht' => ?_
  have hlist : ((v.later t.elapsed).act .resticList t').1 = some (v.repo.map (·.1)) := by
    rw [View.act, ht']
    rfl
  rw [hlist]
  exact ⟨rfl, t.elapsed + t'.elapsed, by simp [View.later, Nat.add_assoc]⟩

/-- An agent without a container is restored from any of its backups. -/
theorem completes_restoreBackup
    {id port : Nat} {fs : Fs} {v : View}
    (h : Restorable id port fs v) :
    Completes (restoreBackup id)
      (fun r w => r = .ok () ∧
        w.container = some { fs := fs, running := true, image := .restore id }) v := by
  refine completes_seq (completes_listBackups h.port) fun v' hv' => ?_
  obtain ⟨secs, rfl⟩ := hv'
  replace h := h.later secs
  have hid : id ∈ v.repo.map (·.1) := by
    obtain ⟨b, hb, -⟩ := Option.map_eq_some_iff.1 h.backup
    have hkey := List.find?_some hb
    exact List.mem_map.2 ⟨b, List.mem_of_find?_eq_some hb, by simpa using hkey⟩
  rw [if_pos hid]
  refine completes_seq (b := ()) (P := Restorable id port fs) ?_ fun w hw => ?_
  · refine completes_query (fun _ => rfl) fun t ht => ?_
    rw [View.act, ht]
    exact ⟨rfl, h.later t.elapsed⟩
  refine completes_query (fun _ => rfl) fun t ht => ?_
  have hstatus : (w.act .containerStatus t).1 = .notFound := by
    simp [View.act, View.status, hw.absent]
  rw [if_pos hstatus]
  exact completes_installBackup (hw.later t.elapsed)

end Docker
end Vestad
end Vesta
