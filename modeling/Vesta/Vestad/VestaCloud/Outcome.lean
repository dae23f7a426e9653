import Vesta.Vestad.VestaCloud.Ownership

/-!
# Careful runs lose no outcome

The steps of the flows keep the invariant, one lemma for each kind of step: a
flow enters a phase and changes nothing, it removes the pairing, it puts a
pairing or a link in place, it retires an account or removes it.
-/

namespace Vesta
namespace Vestad
namespace VestaCloud

open Lib

/-- A phase that no other flow bears on. -/
def Phase.plain : Phase → Bool
  | .linked _ _ | .clearing _ (some _) | .unlinking _ => false
  | _ => true

theorem Phase.plain_of_idle
    {u : Phase}
    (h : u.idle = true) :
    u.plain = true := by
  cases u <;> first | rfl | cases h

section Steps

variable {w : World} {i : Nat} {u : Task}

theorem tasks_set
    {j : Nat} {v u' : Task}
    (h : (w.tasks.set i u')[j]? = some v) :
    j = i ∧ v = u' ∨ j ≠ i ∧ w.tasks[j]? = some v := by
  by_cases hj : j = i
  · subst hj
    rw [List.getElem?_set_self'] at h
    obtain ⟨_, -, rfl⟩ := Option.map_eq_some_iff.1 h
    exact .inl ⟨rfl, rfl⟩
  · rw [List.getElem?_set_ne fun heq => hj heq.symm] at h
    exact .inr ⟨hj, h⟩

theorem World.Alone.carries
    (h : w.Alone i)
    {j : Nat} {v : Task}
    (hj : j ≠ i)
    (hv : w.tasks[j]? = some v) :
    v.phase.carries = none :=
  h v (List.mem_eraseIdx_iff_getElem?.2 ⟨j, hj, hv⟩)

theorem World.Paired.unpairs
    (h : w.Paired)
    {j : Nat} {v : Task}
    (hv : w.tasks[j]? = some v) :
    v.phase.unpairs = none :=
  h v (List.mem_of_getElem? hv)

/-- One flow has moved. -/
theorem kept_set
    {s : Shared} {u' : Task}
    (hstanding : Standing s)
    (hown : Held s u'.phase)
    (hother :
      ∀ (j : Nat) v, j ≠ i → w.tasks[j]? = some v →
        Held s v.phase ∧ Apart s u'.phase v.phase ∧ Apart s v.phase u'.phase)
    (hrest :
      ∀ (j k : Nat) v x, j ≠ k → j ≠ i → k ≠ i →
        w.tasks[j]? = some v → w.tasks[k]? = some x → Apart s v.phase x.phase)
    (holder : Option Nat) :
    Kept { shared := s, tasks := w.tasks.set i u', holder } where
  shared := hstanding
  task j v hv := by
    rcases tasks_set hv with ⟨-, rfl⟩ | ⟨hj, hbefore⟩
    · exact hown
    · exact (hother j v hj hbefore).1
  pair j k v x hjk hv hx := by
    rcases tasks_set hv with ⟨hj, rfl⟩ | ⟨hj, hvbefore⟩
    · rcases tasks_set hx with ⟨hk, -⟩ | ⟨hk, hxbefore⟩
      · exact (hjk (hj.trans hk.symm)).elim
      · exact (hother k x hk hxbefore).2.1
    · rcases tasks_set hx with ⟨-, rfl⟩ | ⟨hk, hxbefore⟩
      · exact (hother j v hj hvbefore).2.2
      · exact hrest j k v x hjk hj hk hvbefore hxbefore

/-- A flow enters a phase and changes nothing.  What it owns there it owned before, or has just
read. -/
theorem Kept.enter
    (hw : Kept w)
    (hu : w.tasks[i]? = some u)
    {phase : Phase}
    (hown : Held w.shared phase)
    (howns :
      ∀ p, phase.owns = some p →
        u.phase.owns = some p ∨ w.shared.pairing.load = some p)
    (hplain : phase.plain = true)
    (holder : Option Nat) :
    Kept { shared := w.shared, tasks := w.tasks.set i { u with phase }, holder } := by
  refine kept_set hw.shared hown ?_ (fun j k v x hjk _ _ hv hx => hw.pair j k v x hjk hv hx) holder
  intro j v hj hv
  -- the same pairing, by what the flow owned or by the file
  have hsame : ∀ p q, phase.owns = some p → v.phase.owns = some q → p = q := by
    intro p q hp hq
    rcases howns p hp with hp | hp
    · exact (hw.pair i j u v (Ne.symm hj) hu hv).1 p q hp hq
    · rcases (hw.task j v hv).owned q hq with hload | hload
      · simpa [hp] using hload
      · simp [hp] at hload
  refine ⟨hw.task j v hv, ⟨hsame, ?_, ?_⟩, ⟨fun q p hq hp => (hsame p q hp hq).symm, ?_, ?_⟩⟩
  · rintro a _ _ rfl
    cases hplain
  · rintro a _ _ rfl
    cases hplain
  · rintro _ p a - rfl
    cases hplain
  · rintro _ p a - rfl
    cases hplain

/-- A flow enters a phase that relies on nothing. -/
theorem Kept.rest
    (hw : Kept w)
    (hu : w.tasks[i]? = some u)
    {phase : Phase}
    (hidle : phase.idle = true)
    (holder : Option Nat) :
    Kept { shared := w.shared, tasks := w.tasks.set i { u with phase }, holder } := by
  have howns := Phase.owns_of_idle hidle
  refine hw.enter hu (.of_idle hidle) ?_ (Phase.plain_of_idle hidle) holder
  intro p hp
  simp [howns] at hp

/-- A flow removes the pairing it owns, whose code is settled. -/
theorem Kept.clear
    (hw : Kept w)
    (hu : w.tasks[i]? = some u)
    {p : Pairing} {phase : Phase}
    (howns : u.phase.owns = some p)
    (happrovable : ¬ w.shared.Approvable p.deviceCode)
    (haccount :
      ∀ a, w.shared.codes p.deviceCode = some (.approved a) →
        w.shared.account.load = some a)
    (hunlinking :
      ∀ (j : Nat) v a, w.tasks[j]? = some v → v.phase = .unlinking a →
        w.shared.codes p.deviceCode ≠ some (.approved a))
    (hidle : phase.idle = true)
    (holder : Option Nat) :
    Kept
      { shared := w.shared.clearPairing, tasks := w.tasks.set i { u with phase }, holder } := by
  -- the file holds the flow's own pairing, or none
  have heq : ∀ q, w.shared.pairing.load = some q → q = p := by
    intro q hq
    rcases (hw.task i u hu).owned p howns with hload | hload
    · simpa [hq] using hload
    · simp [hq] at hload
  refine kept_set (hw.shared.clearPairing ?_) (.of_idle hidle) ?_
    (fun j k v x hjk _ _ hv hx => hw.pair j k v x hjk hv hx) holder
  · intro q hq
    obtain rfl := heq q hq
    exact ⟨happrovable, haccount⟩
  · intro j v _ hv
    refine ⟨(hw.task j v hv).clearPairing ?_ ?_, ?_, ?_⟩
    · intro q hq
      obtain rfl := heq q hq
      exact happrovable
    · intro a q hv' hq
      obtain rfl := heq q hq
      exact hunlinking j v a hv hv'
    · exact Apart.idle_left (Phase.owns_of_idle hidle) (Phase.unpairs_of_idle hidle)
    · exact Apart.idle_right (Phase.owns_of_idle hidle)

/-- A pairing that has expired is dropped once its account is delivered. -/
theorem Kept.drop
    (hw : Kept w)
    (hu : w.tasks[i]? = some u)
    {p : Pairing} {phase : Phase}
    (hphase : u.phase = .dropping p ∨ u.phase = .expiring p)
    (hdelivered : w.Delivered p.deviceCode)
    (hidle : phase.idle = true)
    (holder : Option Nat) :
    Kept
      { shared := w.shared.clearPairing, tasks := w.tasks.set i { u with phase }, holder } := by
  have hheld := hw.task i u hu
  have howns : u.phase.owns = some p := by
    rcases hphase with h | h <;> rw [h] <;> rfl
  have hexpired := hheld.dropping p hphase
  obtain ⟨state, hstate, hexpires⟩ := hheld.issued p (Phase.carries_of_owns howns)
  refine hw.clear hu howns ?_ ?_ ?_ hidle holder
  · rw [Shared.approvable_iff]
    rintro ⟨expiresAt, hcode, hnow⟩
    have hopened := hexpires expiresAt (Option.some.inj (hstate.symm.trans hcode))
    omega
  · intro a hcode
    rw [World.Delivered, hcode] at hdelivered
    exact hdelivered.1
  · intro j v a hv hunlinking hcode
    rw [World.Delivered, hcode] at hdelivered
    have hnone := hdelivered.2.unpairs hv
    simp [hunlinking, Phase.unpairs] at hnone

/-- A new pairing is put in place, and its flow goes on to show it. -/
theorem Kept.install
    (hw : Kept w)
    (hu : w.tasks[i]? = some u)
    {p : Pairing}
    (hphase : u.phase = .installing p)
    (halone : w.Alone i)
    (hnone : w.shared.pairing.load = none)
    (holder : Option Nat) :
    Kept
      { shared := w.shared.installPairing
        tasks := w.tasks.set i { u with phase := .showing p }
        holder } := by
  have hheld := hw.task i u hu
  have htmp := hheld.installing p hphase
  have hissued := hheld.issued p (by rw [hphase]; rfl)
  have hload : w.shared.installPairing.pairing.load = some p := by
    simp [Shared.installPairing, htmp]
  have hissued' : w.shared.installPairing.Issued p := by
    have hcodes : w.shared.installPairing.codes = w.shared.codes := by
      simp [Shared.installPairing, htmp]
    rw [Shared.Issued, hcodes]
    exact hissued
  refine kept_set (hw.shared.installPairing hissued htmp hnone) (.of_showing hissued' hload) ?_ ?_
    holder
  · intro j v hj hv
    have hcarries := halone.carries hj hv
    have howns : v.phase.owns = none := by
      cases howns : v.phase.owns with
      | none => rfl
      | some q => simp [Phase.carries_of_owns howns] at hcarries
    refine ⟨(hw.task j v hv).installPairing htmp hnone hcarries, ?_, ?_⟩
    · exact Apart.idle_right howns
    · refine ⟨fun q r hq => by simp [howns] at hq, ?_, ?_⟩
      · rintro a q b - ⟨⟩
      · rintro a q b - ⟨⟩
  · intro j k v x hjk hj hk hv hx
    have hcarries := halone.carries hk hx
    refine Apart.idle_right ?_
    cases howns : x.phase.owns with
    | none => rfl
    | some q => simp [Phase.carries_of_owns howns] at hcarries

/-- What all flows share changes, and no flow moves. -/
theorem Kept.share
    (hw : Kept w)
    {s : Shared}
    (hstanding : Standing s)
    (hheld : ∀ v, Held w.shared v → Held s v)
    (hapart : ∀ v x, Held w.shared x → Apart w.shared v x → Apart s v x) :
    Kept { w with shared := s } where
  shared := hstanding
  task j v hv := hheld v.phase (hw.task j v hv)
  pair j k v x hjk hv hx := hapart v.phase x.phase (hw.task k x hx) (hw.pair j k v x hjk hv hx)

theorem Kept.progress
    (hw : Kept w)
    {codes : String → Option CodeState}
    (h : Progress w.shared codes) :
    Kept { w with shared := { w.shared with codes } } :=
  hw.share (hw.shared.progress h) (fun _ hv => hv.progress h) (fun _ _ hx hv => hv.progress hx h)

/-- The control plane opens a code for a flow. -/
theorem Kept.start
    (hw : Kept w)
    (hu : w.tasks[i]? = some u)
    {start : PairStart}
    (hnew : w.shared.codes start.deviceCode = none)
    (holder : Option Nat) :
    Kept
      { shared :=
          w.shared.setCode start.deviceCode (.opened (w.shared.now + start.expiresIn))
        tasks := w.tasks.set i { u with phase := .opened start }
        holder } := by
  have hopened := hw.progress (progress_opened hnew (w.shared.now + start.expiresIn))
  have hcode :
      (w.shared.setCode start.deviceCode (.opened (w.shared.now + start.expiresIn))).codes
          start.deviceCode =
        some (.opened (w.shared.now + start.expiresIn)) := by
    rw [Shared.codes_setCode, if_pos rfl]
  refine hopened.enter hu (.of_opened hcode ?_) ?_ rfl holder
  · rintro expiresAt ⟨⟩
    exact Nat.le_refl _
  · intro p hp
    cases hp

/-- The temporary file of a pairing is written, or torn. -/
theorem Kept.write
    (hw : Kept w)
    (halone : w.Alone i)
    {content : File Pairing} {phase : Phase}
    (hown : Held (w.shared.writePairing content) phase)
    (howns : phase.owns = none)
    (hunpairs : phase.unpairs = none)
    (holder : Option Nat) :
    Kept
      { shared := w.shared.writePairing content
        tasks := w.tasks.set i { u with phase }
        holder } := by
  have hstanding : Standing (w.shared.writePairing content) := { hw.shared with }
  refine kept_set hstanding hown ?_ (fun j k v x hjk _ _ hv hx => hw.pair j k v x hjk hv hx)
    holder
  intro j v hj hv
  refine ⟨(hw.task j v hv).writePairing (halone.carries hj hv), ?_, ?_⟩
  · exact Apart.idle_left howns hunpairs
  · exact Apart.idle_right howns

/-- The user code is handed out, and its flow goes on. -/
theorem Kept.show
    (hw : Kept w)
    (hu : w.tasks[i]? = some u)
    {p : Pairing}
    (hphase : u.phase = .showing p)
    (flow : Flow)
    (holder : Option Nat) :
    Kept
      { shared := w.shared.handOut p.deviceCode
        tasks := w.tasks.set i { u with phase := flow.goesOn p }
        holder } := by
  have hheld := hw.task i u hu
  have hissued := hheld.issued p (by rw [hphase]; rfl)
  have howned := hheld.owned p (by rw [hphase]; rfl)
  have hshown :
      Kept { w with shared := w.shared.handOut p.deviceCode } := by
    refine hw.share (hw.shared.handOut hissued (hheld.showing p hphase)) ?_ ?_
    · exact fun _ hv => hv.handOut
    · exact fun _ _ _ hv => hv
  cases flow with
  | login =>
      refine hshown.enter hu (.of_waiting hissued howned) ?_ rfl holder
      intro q hq
      left
      rw [hphase]
      exact hq
  | _ => exact hshown.rest hu rfl holder

/-! ### The account link -/

/-- The flows whose codes were consumed agree on the account. -/
theorem Kept.same_account
    (hw : Kept w)
    (hu : w.tasks[i]? = some u)
    {p : Pairing} {a : Account}
    (howns : u.phase.owns = some p)
    (hconsumed : w.shared.Consumed p.deviceCode a)
    {j : Nat} {v : Task} {q : Pairing} {b : Account}
    (hj : j ≠ i)
    (hv : w.tasks[j]? = some v)
    (hphase : v.phase = .linked q b ∨ v.phase = .clearing q (some b)) :
    q = p ∧ b = a := by
  have hq : v.phase.owns = some q := by
    rcases hphase with h | h <;> rw [h] <;> rfl
  obtain rfl := (hw.pair i j u v (Ne.symm hj) hu hv).1 p q howns hq
  have hboth := (hw.task j v hv).consumed p b (.inr hphase)
  exact ⟨rfl, hconsumed.eq hboth⟩

/-- The temporary file of the account is written. -/
theorem Kept.writeLink
    (hw : Kept w)
    (hu : w.tasks[i]? = some u)
    {p : Pairing} {a : Account}
    (hphase : u.phase = .linking p a)
    (holder : Option Nat) :
    Kept
      { shared := w.shared.writeAccount (.holds a)
        tasks := w.tasks.set i { u with phase := .linked p a }
        holder } := by
  have hheld := hw.task i u hu
  have howns : u.phase.owns = some p := by
    rw [hphase]
    rfl
  have hconsumed := hheld.consumed p a (.inl hphase)
  have hissued := hheld.issued p (Phase.carries_of_owns howns)
  have hstanding : Standing (w.shared.writeAccount (.holds a)) := { hw.shared with }
  have hown : Held (w.shared.writeAccount (.holds a)) (.linked p a) := by
    apply Held.of_linked
    · exact hissued
    · exact hheld.owned p howns
    · exact hconsumed
    · rfl
  refine kept_set hstanding hown ?_ ?_ holder
  · intro j v hj hv
    refine ⟨(hw.task j v hv).writeAccount ?_, ⟨?_, ?_, ?_⟩, ⟨?_, ?_, ?_⟩⟩
    · intro q b hlinked
      rw [(hw.same_account hu howns hconsumed hj hv (.inl hlinked)).2]
    · rintro q r ⟨⟩ hr
      exact (hw.pair i j u v (Ne.symm hj) hu hv).1 p r howns hr
    · rintro b _ _ ⟨⟩
    · rintro b _ _ ⟨⟩
    · rintro q r hq ⟨⟩
      exact (hw.pair j i v u hj hv hu).1 q p hq howns
    · rintro b _ _ - ⟨⟩
    · rintro b _ _ - ⟨⟩ hcode
      rw [hconsumed.eq_of_approved hcode]
      rfl
  · intro j k v x hjk _ hk hv hx
    have hbefore := hw.pair j k v x hjk hv hx
    refine ⟨hbefore.1, hbefore.2.1, ?_⟩
    intro b q c _ hlinked hcode
    obtain ⟨rfl, rfl⟩ := hw.same_account hu howns hconsumed hk hx (.inl hlinked)
    have heq : b = c := hconsumed.eq_of_approved hcode
    rw [heq]
    rfl

/-- The temporary file of the account is torn while no flow is about to rename it. -/
theorem Kept.tearLink
    (hw : Kept w)
    (hu : w.tasks[i]? = some u)
    {p : Pairing} {a : Account}
    (hphase : u.phase = .linking p a)
    (hunlinked : w.Unlinked)
    (holder : Option Nat) :
    Kept
      { shared := w.shared.writeAccount .corrupt
        tasks := w.tasks.set i { u with phase := .linking p a }
        holder } := by
  have hnot : ∀ (j : Nat) v q b, w.tasks[j]? = some v → v.phase ≠ .linked q b := by
    intro j v q b hv hlinked
    have hnone := hunlinked v (List.mem_of_getElem? hv)
    simp [hlinked, Phase.renames] at hnone
  have hstanding : Standing (w.shared.writeAccount .corrupt) := { hw.shared with }
  have hheld : ∀ (j : Nat) v, w.tasks[j]? = some v →
      Held (w.shared.writeAccount .corrupt) v.phase :=
    fun j v hv => (hw.task j v hv).writeAccount fun q b hlinked => (hnot j v q b hv hlinked).elim
  have hapart : ∀ (j k : Nat) v x, j ≠ k → w.tasks[j]? = some v → w.tasks[k]? = some x →
      Apart (w.shared.writeAccount .corrupt) v.phase x.phase := by
    intro j k v x hjk hv hx
    have hbefore := hw.pair j k v x hjk hv hx
    exact ⟨hbefore.1, hbefore.2.1, fun b q c _ hlinked => (hnot k x q c hx hlinked).elim⟩
  have hown := hheld i u hu
  rw [hphase] at hown
  refine kept_set hstanding hown ?_ (fun j k v x hjk _ _ hv hx => hapart j k v x hjk hv hx) holder
  intro j v hj hv
  have hleft := hapart i j u v (Ne.symm hj) hu hv
  have hright := hapart j i v u hj hv hu
  rw [hphase] at hleft hright
  exact ⟨hheld j v hv, hleft, hright⟩

theorem Apart.of_paired
    {s t : Shared} {v x : Phase}
    (h : Apart s v x)
    (hunpairs : v.unpairs = none) :
    Apart t v x := by
  refine ⟨h.1, ?_, ?_⟩
  · rintro a _ _ rfl
    simp [Phase.unpairs] at hunpairs
  · rintro a _ _ rfl
    simp [Phase.unpairs] at hunpairs

/-- The link is put in place, by this flow or by another before it. -/
theorem Kept.link
    (hw : Kept w)
    (hu : w.tasks[i]? = some u)
    {p : Pairing} {a : Account}
    (hphase : u.phase = .linked p a)
    (hpaired : w.Paired)
    (hfree : w.shared.account.load = none ∨ w.shared.account.load = some a)
    (holder : Option Nat) :
    Kept
      { shared := w.shared.installAccount
        tasks := w.tasks.set i { u with phase := .clearing p (some a) }
        holder } := by
  have hheld := hw.task i u hu
  have howns : u.phase.owns = some p := by
    rw [hphase]
    rfl
  have hconsumed := hheld.consumed p a (.inr (.inl hphase))
  have hissued := hheld.issued p (Phase.carries_of_owns howns)
  have howned := hheld.owned p howns
  have hwritten := hheld.written p a hphase
  have hown : Held w.shared.installAccount (.clearing p (some a)) := by
    rcases hwritten with htmp | htmp
    · have hinstalled :
          w.shared.installAccount =
            { w.shared with account := .holds a, accountTmp := .missing } := by
        simp [Shared.installAccount, htmp]
      rw [hinstalled]
      exact .of_clearing hissued howned hconsumed fun _ => rfl
    · have hinstalled : w.shared.installAccount = w.shared := by
        simp [Shared.installAccount, htmp]
      rw [hinstalled]
      exact .of_clearing hissued howned hconsumed (hheld.renamed p a hphase htmp)
  refine kept_set (hw.shared.installAccount hwritten hfree) hown ?_ ?_ holder
  · intro j v hj hv
    refine ⟨(hw.task j v hv).installAccount hwritten (hpaired.unpairs hv) ?_, ⟨?_, ?_, ?_⟩, ?_⟩
    · exact fun q b hlater => (hw.same_account hu howns hconsumed hj hv hlater).2
    · rintro q r ⟨⟩ hr
      exact (hw.pair i j u v (Ne.symm hj) hu hv).1 p r howns hr
    · rintro b _ _ ⟨⟩
    · rintro b _ _ ⟨⟩
    · have hbefore : Apart w.shared v.phase (.clearing p (some a)) := by
        refine ⟨?_, ?_, ?_⟩
        · rintro q r hq ⟨⟩
          exact (hw.pair j i v u hj hv hu).1 q p hq howns
        · intro b _ _ hunlinking
          have hnone := hpaired.unpairs hv
          simp [hunlinking, Phase.unpairs] at hnone
        · rintro b _ _ - ⟨⟩
      exact hbefore.of_paired (hpaired.unpairs hv)
  · intro j k v x hjk _ _ hv hx
    exact (hw.pair j k v x hjk hv hx).of_paired (hpaired.unpairs hv)

/-- The registration is retired, so no code is approved for its account any more. -/
theorem Kept.retire
    (hw : Kept w)
    (hu : w.tasks[i]? = some u)
    {a : Account}
    (hphase : u.phase = .retiring a)
    (holder : Option Nat) :
    Kept
      { shared := w.shared.retire a
        tasks := w.tasks.set i { u with phase := .unlinking a }
        holder } := by
  have hretired := hw.progress (progress_retire w.shared a)
  have haccount := (hw.task i u hu).unpairing a (by rw [hphase]; rfl)
  have hnone := w.shared.not_approved_retire a
  have hown : Held (w.shared.retire a) (.unlinking a) := by
    apply Held.of_unlinking
    · exact haccount
    · exact hnone
  have hstanding : Standing (w.shared.retire a) := hretired.shared
  refine kept_set hstanding hown ?_
    (fun j k v x hjk _ _ hv hx => hretired.pair j k v x hjk hv hx) holder
  intro j v _ hv
  refine ⟨hretired.task j v hv, ⟨?_, ?_, ?_⟩, Apart.idle_right rfl⟩
  · rintro p q ⟨⟩
  · rintro b p _ ⟨⟩ -
    exact hnone p.deviceCode
  · rintro b p _ ⟨⟩ - hcode
    exact (hnone p.deviceCode hcode).elim

/-- The account is removed. -/
theorem Kept.unlink
    (hw : Kept w)
    (hu : w.tasks[i]? = some u)
    {a : Account}
    (hphase : u.phase = .unlinking a)
    (holder : Option Nat) :
    Kept
      { shared := w.shared.clearAccount
        tasks := w.tasks.set i { u with phase := .finished }
        holder } := by
  have hheld := hw.task i u hu
  have haccount := hheld.unpairing a (by rw [hphase]; rfl)
  refine kept_set (hw.shared.clearAccount haccount (hheld.unlinking a hphase)) (.of_idle rfl) ?_
    (fun j k v x hjk _ _ hv hx => hw.pair j k v x hjk hv hx) holder
  intro j v hj hv
  have hapart := hw.pair i j u v (Ne.symm hj) hu hv
  rw [hphase] at hapart
  exact ⟨(hw.task j v hv).clearAccount haccount hapart, Apart.idle_left rfl rfl,
    Apart.idle_right rfl⟩

/-! ### The phases -/

section Phases

variable {flow : Flow} {next : Phase} {event : Event} {s : Shared}

theorem Flow.idle_withoutPairing (flow : Flow) : flow.withoutPairing.idle = true := by
  cases flow <;> rfl

theorem Kept.checking
    (hw : Kept w)
    (hu : w.tasks[i]? = some ⟨flow, .checking⟩)
    (h : act w.shared flow .checking event = some (s, next))
    (holder : Option Nat) :
    Kept { shared := s, tasks := w.tasks.set i ⟨flow, next⟩, holder } := by
  cases event with
  | works =>
      obtain ⟨rfl, rfl⟩ := by simpa [act] using h
      refine hw.rest hu ?_ holder
      split
      · rfl
      · cases flow <;> rfl
  | _ => cases h

theorem Kept.timing
    (hw : Kept w)
    (hu : w.tasks[i]? = some ⟨flow, .timing⟩)
    (h : act w.shared flow .timing event = some (s, next))
    (holder : Option Nat) :
    Kept { shared := s, tasks := w.tasks.set i ⟨flow, next⟩, holder } := by
  cases event with
  | works =>
      obtain ⟨rfl, rfl⟩ := by simpa [act] using h
      exact hw.enter hu (.of_locking (Nat.le_refl _)) (fun p hp => by cases hp) rfl holder
  | _ => cases h

theorem Kept.locking
    (hw : Kept w)
    {now : Option Nat}
    (hu : w.tasks[i]? = some ⟨flow, .locking now⟩)
    (h : act w.shared flow (.locking now) event = some (s, next))
    (holder : Option Nat) :
    Kept { shared := s, tasks := w.tasks.set i ⟨flow, next⟩, holder } := by
  cases event with
  | works =>
      cases now with
      | none =>
          obtain ⟨rfl, rfl⟩ := by simpa [act] using h
          exact hw.rest hu rfl holder
      | some now =>
          obtain ⟨rfl, rfl⟩ := by simpa [act] using h
          have hread := (hw.task i _ hu).locking now rfl
          exact hw.enter hu (.of_reading hread) (fun p hp => by cases hp) rfl holder
  | _ => cases now <;> cases h

theorem Kept.resuming
    (hw : Kept w)
    (hu : w.tasks[i]? = some ⟨flow, .resuming⟩)
    (h : act w.shared flow .resuming event = some (s, next))
    (holder : Option Nat) :
    Kept { shared := s, tasks := w.tasks.set i ⟨flow, next⟩, holder } := by
  cases event with
  | works =>
      obtain ⟨rfl, rfl⟩ := by simpa [act] using h
      exact hw.enter hu (.of_reading (Nat.le_refl _)) (fun p hp => by cases hp) rfl holder
  | _ => cases h

/-- A flow that finds a pairing owns it from then on. -/
theorem Kept.reading
    (hw : Kept w)
    {now : Nat}
    (hu : w.tasks[i]? = some ⟨flow, .reading now⟩)
    (h : act w.shared flow (.reading now) event = some (s, next))
    (holder : Option Nat) :
    Kept { shared := s, tasks := w.tasks.set i ⟨flow, next⟩, holder } := by
  cases event with
  | works =>
      cases hload : w.shared.pairing.load with
      | none =>
          obtain ⟨rfl, rfl⟩ := by simpa [act, hload] using h
          exact hw.rest hu flow.idle_withoutPairing holder
      | some p =>
          obtain ⟨rfl, rfl⟩ := by simpa [act, hload] using h
          have hissued := hw.shared.file p hload
          split
          · rename_i hexpired
            have hread := (hw.task i _ hu).reading now rfl
            have hpast : p.expiresAtEpochSecs ≤ w.shared.now :=
              Nat.le_trans (of_decide_eq_true hexpired) hread
            refine hw.enter hu (.of_dropping hissued (.inl hload) hpast) ?_ rfl holder
            rintro q ⟨⟩
            exact .inr hload
          · cases flow with
            | poll =>
                refine hw.enter hu (.of_polling hissued (.inl hload)) ?_ rfl holder
                rintro q ⟨⟩
                exact .inr hload
            | _ =>
                refine hw.enter hu (.of_showing hissued hload) ?_ rfl holder
                rintro q ⟨⟩
                exact .inr hload
  | _ => cases h

theorem Kept.dropping
    (hw : Kept w)
    {p : Pairing}
    (hu : w.tasks[i]? = some ⟨flow, .dropping p⟩)
    (hok : w.CarefulMove i (.dropping p) event)
    (h : act w.shared flow (.dropping p) event = some (s, next))
    (holder : Option Nat) :
    Kept { shared := s, tasks := w.tasks.set i ⟨flow, next⟩, holder } := by
  cases event with
  | works =>
      obtain ⟨rfl, rfl⟩ := by simpa [act] using h
      exact hw.drop hu (.inl rfl) hok flow.idle_withoutPairing holder
  | fails =>
      obtain ⟨rfl, rfl⟩ := by simpa [act] using h
      exact hw.rest hu flow.idle_withoutPairing holder
  | _ => cases h

theorem Kept.opening
    (hw : Kept w)
    (hu : w.tasks[i]? = some ⟨flow, .opening⟩)
    (h : act w.shared flow .opening event = some (s, next))
    (holder : Option Nat) :
    Kept { shared := s, tasks := w.tasks.set i ⟨flow, next⟩, holder } := by
  cases event with
  | hears reply =>
      cases reply with
      | started start =>
          by_cases hnew : w.shared.codes start.deviceCode = none
          · obtain ⟨rfl, rfl⟩ := by simpa [act, hnew] using h
            exact hw.start hu hnew holder
          · simp [act, hnew] at h
      | _ =>
          obtain ⟨rfl, rfl⟩ := by simpa [act] using h
          exact hw.rest hu rfl holder
  | _ => cases h

/-- The deadline of a pairing is reckoned when the answer has arrived. -/
theorem Kept.opened
    (hw : Kept w)
    {start : PairStart}
    (hu : w.tasks[i]? = some ⟨flow, .opened start⟩)
    (h : act w.shared flow (.opened start) event = some (s, next))
    (holder : Option Nat) :
    Kept { shared := s, tasks := w.tasks.set i ⟨flow, next⟩, holder } := by
  cases event with
  | works =>
      obtain ⟨rfl, rfl⟩ := by simpa [act] using h
      have hissued : w.shared.Issued (start.pairing w.shared.now) :=
        (hw.task i _ hu).opened start rfl
      exact hw.enter hu (.of_saving hissued) (fun p hp => by cases hp) rfl holder
  | _ => cases h

theorem Kept.saving
    (hw : Kept w)
    {p : Pairing}
    (hu : w.tasks[i]? = some ⟨flow, .saving p⟩)
    (hok : w.CarefulMove i (.saving p) event)
    (h : act w.shared flow (.saving p) event = some (s, next))
    (holder : Option Nat) :
    Kept { shared := s, tasks := w.tasks.set i ⟨flow, next⟩, holder } := by
  have hissued := (hw.task i _ hu).issued p rfl
  cases event with
  | works =>
      obtain ⟨rfl, rfl⟩ := by simpa [act] using h
      have hown : Held (w.shared.writePairing (.holds p)) (.installing p) :=
        .of_installing hissued rfl
      exact hw.write (u := ⟨flow, .saving p⟩) hok hown rfl rfl holder
  | tears =>
      obtain ⟨rfl, rfl⟩ := by simpa [act] using h
      have hown : Held (w.shared.writePairing .corrupt) (.saving p) := .of_saving hissued
      exact hw.write (u := ⟨flow, .saving p⟩) hok hown rfl rfl holder
  | fails => exact hok.elim
  | hears reply => cases h

theorem Kept.installing
    (hw : Kept w)
    {p : Pairing}
    (hu : w.tasks[i]? = some ⟨flow, .installing p⟩)
    (hok : w.CarefulMove i (.installing p) event)
    (h : act w.shared flow (.installing p) event = some (s, next))
    (holder : Option Nat) :
    Kept { shared := s, tasks := w.tasks.set i ⟨flow, next⟩, holder } := by
  cases event with
  | works =>
      obtain ⟨rfl, rfl⟩ := by simpa [act] using h
      exact hw.install hu rfl hok.1 hok.2 holder
  | fails => exact hok.elim
  | _ => cases h

theorem Kept.showing
    (hw : Kept w)
    {p : Pairing}
    (hu : w.tasks[i]? = some ⟨flow, .showing p⟩)
    (h : act w.shared flow (.showing p) event = some (s, next))
    (holder : Option Nat) :
    Kept { shared := s, tasks := w.tasks.set i ⟨flow, next⟩, holder } := by
  cases event with
  | works =>
      obtain ⟨rfl, rfl⟩ := by simpa [act] using h
      exact hw.show hu rfl flow holder
  | _ => cases h

theorem Kept.waiting
    (hw : Kept w)
    {p : Pairing}
    (hu : w.tasks[i]? = some ⟨flow, .waiting p⟩)
    (h : act w.shared flow (.waiting p) event = some (s, next))
    (holder : Option Nat) :
    Kept { shared := s, tasks := w.tasks.set i ⟨flow, next⟩, holder } := by
  have hheld := hw.task i _ hu
  have hissued := hheld.issued p rfl
  have howned := hheld.owned p rfl
  cases event with
  | works =>
      obtain ⟨rfl, rfl⟩ := by simpa [act] using h
      split
      · rename_i hexpired
        exact hw.enter hu (.of_expiring hissued howned (of_decide_eq_true hexpired))
          (fun q hq => .inl hq) rfl holder
      · exact hw.enter hu (.of_polling hissued howned) (fun q hq => .inl hq) rfl holder
  | _ => cases h

theorem Kept.expiring
    (hw : Kept w)
    {p : Pairing}
    (hu : w.tasks[i]? = some ⟨flow, .expiring p⟩)
    (hok : w.CarefulMove i (.expiring p) event)
    (h : act w.shared flow (.expiring p) event = some (s, next))
    (holder : Option Nat) :
    Kept { shared := s, tasks := w.tasks.set i ⟨flow, next⟩, holder } := by
  cases event with
  | works =>
      obtain ⟨rfl, rfl⟩ := by simpa [act] using h
      exact hw.drop hu (.inr rfl) hok rfl holder
  | fails =>
      obtain ⟨rfl, rfl⟩ := by simpa [act] using h
      exact hw.rest hu rfl holder
  | _ => cases h

/-- After an answer that settles nothing the login polls on. -/
theorem Kept.goOn
    (hw : Kept w)
    {p : Pairing}
    (hu : w.tasks[i]? = some ⟨flow, .polling p⟩)
    (holder : Option Nat) :
    Kept { shared := w.shared, tasks := w.tasks.set i ⟨flow, flow.goesOn p⟩, holder } := by
  have hheld := hw.task i _ hu
  cases flow with
  | login =>
      exact hw.enter hu (.of_waiting (hheld.issued p rfl) (hheld.owned p rfl))
        (fun q hq => .inl hq) rfl holder
  | _ => exact hw.rest hu rfl holder

theorem Kept.polling
    (hw : Kept w)
    {p : Pairing}
    (hu : w.tasks[i]? = some ⟨flow, .polling p⟩)
    (hok : w.CarefulMove i (.polling p) event)
    (h : act w.shared flow (.polling p) event = some (s, next))
    (holder : Option Nat) :
    Kept { shared := s, tasks := w.tasks.set i ⟨flow, next⟩, holder } := by
  have hheld := hw.task i _ hu
  have hissued := hheld.issued p rfl
  have howned := hheld.owned p rfl
  cases event with
  | hears reply =>
      cases reply with
      | unreachable =>
          obtain ⟨rfl, rfl⟩ := by simpa [act] using h
          exact hw.goOn hu holder
      | pending =>
          obtain ⟨rfl, rfl⟩ := by simpa [act] using h
          exact hw.goOn hu holder
      | linked a =>
          by_cases hconsumed : w.shared.Consumed p.deviceCode a
          · rw [act, if_pos (by exact hconsumed)] at h
            obtain ⟨rfl, rfl⟩ := by simpa using h
            exact hw.enter hu (.of_linking hissued howned hconsumed) (fun q hq => .inl hq) rfl
              holder
          · rw [act, if_neg (by exact hconsumed)] at h
            cases h
      | refused =>
          have hnot : ∀ a, w.shared.codes p.deviceCode ≠ some (.approved a) := by
            intro a hcode
            simp [act, hcode] at h
          have hnext : s = w.shared ∧ next = .clearing p none := by
            rw [act] at h
            split at h
            · cases h
            · cases h
              exact ⟨rfl, rfl⟩
          obtain ⟨rfl, rfl⟩ := hnext
          exact hw.enter hu (.of_refused hissued howned hok hnot) (fun q hq => .inl hq) rfl holder
      | _ => cases h
  | _ => cases h

theorem Kept.linking
    (hw : Kept w)
    {p : Pairing} {a : Account}
    (hu : w.tasks[i]? = some ⟨flow, .linking p a⟩)
    (hok : w.CarefulMove i (.linking p a) event)
    (h : act w.shared flow (.linking p a) event = some (s, next))
    (holder : Option Nat) :
    Kept { shared := s, tasks := w.tasks.set i ⟨flow, next⟩, holder } := by
  cases event with
  | works =>
      obtain ⟨rfl, rfl⟩ := by simpa [act] using h
      exact hw.writeLink hu rfl holder
  | tears =>
      obtain ⟨rfl, rfl⟩ := by simpa [act] using h
      exact hw.tearLink hu rfl hok holder
  | fails => exact hok.elim
  | hears reply => cases h

theorem Kept.linked
    (hw : Kept w)
    {p : Pairing} {a : Account}
    (hu : w.tasks[i]? = some ⟨flow, .linked p a⟩)
    (hok : w.CarefulMove i (.linked p a) event)
    (h : act w.shared flow (.linked p a) event = some (s, next))
    (holder : Option Nat) :
    Kept { shared := s, tasks := w.tasks.set i ⟨flow, next⟩, holder } := by
  cases event with
  | works =>
      obtain ⟨rfl, rfl⟩ := by simpa [act] using h
      exact hw.link hu rfl hok.1 hok.2 holder
  | fails => exact hok.elim
  | _ => cases h

/-- After an answer the pairing is removed: its account is linked, or it is refused for good. -/
theorem Kept.clearing
    (hw : Kept w)
    {p : Pairing} {outcome : Option Account}
    (hu : w.tasks[i]? = some ⟨flow, .clearing p outcome⟩)
    (h : act w.shared flow (.clearing p outcome) event = some (s, next))
    (holder : Option Nat) :
    Kept { shared := s, tasks := w.tasks.set i ⟨flow, next⟩, holder } := by
  have hheld := hw.task i _ hu
  cases event with
  | works =>
      obtain ⟨rfl, rfl⟩ := by simpa [act] using h
      cases outcome with
      | none =>
          obtain ⟨happrovable, happroved⟩ := hheld.refused p rfl
          exact hw.clear hu rfl happrovable (fun a hcode => (happroved a hcode).elim)
            (fun _ _ a _ _ => happroved a) rfl holder
      | some a =>
          have hconsumed := hheld.consumed p a (.inr (.inr rfl))
          refine hw.clear hu rfl hconsumed.not_approvable ?_ ?_ rfl holder
          · intro b hcode
            obtain rfl := hconsumed.eq_of_approved hcode
            exact hheld.clearing p b rfl hcode
          · intro j v b hv hunlinking
            have hne : j ≠ i := by
              rintro rfl
              rw [hu] at hv
              cases hv
              cases hunlinking
            exact (hw.pair j i v _ hne hv hu).2.1 b p a hunlinking rfl
  | fails =>
      obtain ⟨rfl, rfl⟩ := by simpa [act] using h
      exact hw.rest hu rfl holder
  | _ => cases h

theorem Kept.loading
    (hw : Kept w)
    (hu : w.tasks[i]? = some ⟨flow, .loading⟩)
    (h : act w.shared flow .loading event = some (s, next))
    (holder : Option Nat) :
    Kept { shared := s, tasks := w.tasks.set i ⟨flow, next⟩, holder } := by
  cases event with
  | works =>
      cases hload : w.shared.account.load with
      | none =>
          obtain ⟨rfl, rfl⟩ := by simpa [act, hload] using h
          exact hw.rest hu rfl holder
      | some a =>
          obtain ⟨rfl, rfl⟩ := by simpa [act, hload] using h
          exact hw.enter hu (.of_retiring (.inl hload)) (fun p hp => by cases hp) rfl holder
  | _ => cases h

theorem Kept.retiring
    (hw : Kept w)
    {a : Account}
    (hu : w.tasks[i]? = some ⟨flow, .retiring a⟩)
    (h : act w.shared flow (.retiring a) event = some (s, next))
    (holder : Option Nat) :
    Kept { shared := s, tasks := w.tasks.set i ⟨flow, next⟩, holder } := by
  cases event with
  | hears reply =>
      cases reply with
      | unpaired =>
          obtain ⟨rfl, rfl⟩ := by simpa [act] using h
          exact hw.retire hu rfl holder
      | _ =>
          obtain ⟨rfl, rfl⟩ := by simpa [act] using h
          exact hw.rest hu rfl holder
  | _ => cases h

theorem Kept.unlinking
    (hw : Kept w)
    {a : Account}
    (hu : w.tasks[i]? = some ⟨flow, .unlinking a⟩)
    (h : act w.shared flow (.unlinking a) event = some (s, next))
    (holder : Option Nat) :
    Kept { shared := s, tasks := w.tasks.set i ⟨flow, next⟩, holder } := by
  cases event with
  | works =>
      obtain ⟨rfl, rfl⟩ := by simpa [act] using h
      exact hw.unlink hu rfl holder
  | fails =>
      obtain ⟨rfl, rfl⟩ := by simpa [act] using h
      exact hw.rest hu rfl holder
  | _ => cases h

/-- A step of a flow keeps the invariant. -/
theorem Kept.act
    (hw : Kept w)
    {phase : Phase}
    (hu : w.tasks[i]? = some ⟨flow, phase⟩)
    (hok : w.CarefulMove i phase event)
    (h : VestaCloud.act w.shared flow phase event = some (s, next))
    (holder : Option Nat) :
    Kept { shared := s, tasks := w.tasks.set i ⟨flow, next⟩, holder } := by
  cases phase with
  | checking => exact hw.checking hu h holder
  | timing => exact hw.timing hu h holder
  | locking now => exact hw.locking hu h holder
  | resuming => exact hw.resuming hu h holder
  | reading now => exact hw.reading hu h holder
  | dropping p => exact hw.dropping hu hok h holder
  | opening => exact hw.opening hu h holder
  | opened start => exact hw.opened hu h holder
  | saving p => exact hw.saving hu hok h holder
  | installing p => exact hw.installing hu hok h holder
  | showing p => exact hw.showing hu h holder
  | waiting p => exact hw.waiting hu h holder
  | expiring p => exact hw.expiring hu hok h holder
  | polling p => exact hw.polling hu hok h holder
  | linking p a => exact hw.linking hu hok h holder
  | linked p a => exact hw.linked hu hok h holder
  | clearing p outcome => exact hw.clearing hu h holder
  | loading => exact hw.loading hu h holder
  | retiring a => exact hw.retiring hu h holder
  | unlinking a => exact hw.unlinking hu h holder
  | finished =>
      rw [act_finished] at h
      cases h

end Phases

end Steps

/-! ## Runs -/

theorem kept_fresh
    {w : World}
    (h : Fresh w) :
    Kept w := by
  rw [h]
  constructor
  · constructor <;> simp
  · simp
  · simp

theorem Kept.step
    {w w' : World} {label : Label}
    (hw : Kept w)
    (hok : Careful w label)
    (h : VestaCloud.step w label = some w') :
    Kept w' := by
  cases label with
  | spawn flow =>
      obtain rfl := Option.some.inj h
      have hentry : flow.entry.idle = true := by cases flow <;> rfl
      have hlookup : ∀ (j : Nat) v, (w.tasks ++ [⟨flow, flow.entry⟩])[j]? = some v →
          v.phase.idle = true ∨ w.tasks[j]? = some v := by
        intro j v hv
        rw [List.getElem?_append] at hv
        split at hv
        · exact .inr hv
        · rw [List.getElem?_singleton] at hv
          split at hv
          · cases hv
            exact .inl hentry
          · cases hv
      refine ⟨hw.shared, ?_, ?_⟩
      · intro j v hv
        rcases hlookup j v hv with hidle | hv
        · exact .of_idle hidle
        · exact hw.task j v hv
      · intro j k v x hjk hv hx
        rcases hlookup j v hv with hidle | hv
        · exact Apart.idle_left (Phase.owns_of_idle hidle) (Phase.unpairs_of_idle hidle)
        · rcases hlookup k x hx with hidle | hx
          · exact Apart.idle_right (Phase.owns_of_idle hidle)
          · exact hw.pair j k v x hjk hv hx
  | move i event =>
      cases hu : w.tasks[i]? with
      | none => simp [VestaCloud.step, hu] at h
      | some u =>
          have hcareful : w.CarefulMove i u.phase event := hok u (by rw [hu]; rfl)
          simp only [VestaCloud.step, hu] at h
          split at h
          · cases h
          · cases hact : VestaCloud.act w.shared u.flow u.phase event with
            | none => simp [hact] at h
            | some result =>
                obtain ⟨s, next⟩ := result
                simp only [hact, Option.some.injEq] at h
                subst h
                exact hw.act hu hcareful hact _
  | die i =>
      cases hu : w.tasks[i]? with
      | none => simp [VestaCloud.step, hu] at h
      | some u =>
          simp only [VestaCloud.step, hu, Option.some.injEq] at h
          subst h
          exact hw.rest hu rfl _
  | approve code a =>
      simp only [VestaCloud.step] at h
      split at h
      · rename_i hcode
        obtain ⟨expiresAt, hopen, -⟩ := Shared.approvable_iff.1 hcode.1
        have hholds := hw.shared.visible code hcode.2 hcode.1
        obtain rfl := Option.some.inj h
        refine hw.progress (progress_settled hopen (by simp) ?_)
        exact fun _ _ => ⟨hcode.1, hholds⟩
      · cases h
  | decline code =>
      simp only [VestaCloud.step] at h
      split at h
      · rename_i expiresAt hopen
        obtain rfl := Option.some.inj h
        exact hw.progress (progress_settled hopen (by simp) (by simp))
      · cases h
  | retire a =>
      obtain rfl := Option.some.inj h
      exact hw.progress (progress_retire w.shared a)
  | tick =>
      obtain rfl := Option.some.inj h
      exact hw.share hw.shared.tick (fun _ hv => hv.tick) (fun _ _ _ hv => hv)

/-- No outcome is lost: an approved code is linked or held, a refusal is about to remove its own
pairing or none, and an unpair its own account or none. -/
structure OutcomeKept (w : World) : Prop where
  linked :
    ∀ code a, w.shared.codes code = some (.approved a) →
      w.shared.account.load = some a ∨ w.shared.HoldsCode code
  refused :
    ∀ task ∈ w.tasks, ∀ p, task.phase = .clearing p none →
      ∀ q, w.shared.pairing.load = some q → q = p
  unpaired :
    ∀ task ∈ w.tasks, ∀ a, task.phase = .unlinking a →
      ∀ b, w.shared.account.load = some b → b = a

theorem Kept.outcomeKept
    {w : World}
    (hw : Kept w) :
    OutcomeKept w where
  linked := hw.shared.linked
  refused task htask p hphase q hq := by
    obtain ⟨i, hi⟩ := List.mem_iff_getElem?.1 htask
    rcases (hw.task i task hi).owned p (by rw [hphase]; rfl) with hload | hload
    · simpa [hq] using hload
    · simp [hq] at hload
  unpaired task htask a hphase b hb := by
    obtain ⟨i, hi⟩ := List.mem_iff_getElem?.1 htask
    rcases (hw.task i task hi).unpairing a (by rw [hphase]; rfl) with hload | hload
    · simpa [hb] using hload
    · simp [hb] at hload

/-- A box that was never paired. -/
def unpairedBox : World where
  shared :=
    { now := 0
      pairing := .missing
      account := .missing
      pairingTmp := .missing
      accountTmp := .missing
      codes := fun _ => none
      shown := fun _ => false }
  tasks := []
  holder := none

/-- A pair request opens a code that lives for a second, and its owner approves it. -/
def approvedRun : List Label :=
  [.spawn .pair, .move 0 .works, .move 0 .works, .move 0 .works, .move 0 .works,
    .move 0 (.hears (.started ⟨"WXYZ", "vesta.run/pair", "d", 5, 1⟩)), .move 0 .works,
    .move 0 .works, .move 0 .works, .move 0 .works, .approve "d" ⟨"srv", "vesta.run/api"⟩]

/-- The next poll comes at once and links the account. -/
def promptRun : List Label :=
  approvedRun ++
    [.spawn .poll, .move 1 .works, .move 1 .works, .move 1 .works,
      .move 1 (.hears (.linked ⟨"srv", "vesta.run/api"⟩)), .move 1 .works, .move 1 .works,
      .move 1 .works]

/-- The next poll comes after the code has expired. -/
def lateRun : List Label :=
  approvedRun ++ [.tick, .spawn .poll, .move 1 .works, .move 1 .works, .move 1 .works,
    .move 1 .works]

end VestaCloud
end Vestad
end Vesta
