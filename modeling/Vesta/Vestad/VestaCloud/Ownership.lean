import Vesta.Vestad.VestaCloud.Pairing

/-!
# The outcome of a pairing

The owner's approval reaches the box through the device code alone.  So as long
as a code is approved the box must hold the account or the code.  A pairing that
has expired is dropped without a last poll, and every removal is of the file and
not of a code; so the outcome is lost in some runs, and `Careful` says which
steps lose it.

In careful runs the flows that own a pairing all own the same one, and the file
holds that pairing or none.  `Standing` is what holds of the files and the
control plane, `Held` what a flow may rely on in each phase, and `Apart` what
holds of two flows.
-/

namespace Vesta
namespace Vestad
namespace VestaCloud

open Lib

/-! ## What a flow carries -/

/-- The pairing a flow carries. -/
def Phase.carries : Phase → Option Pairing
  | .dropping p | .saving p | .installing p | .showing p | .waiting p | .expiring p | .polling p
  | .linking p _ | .linked p _ | .clearing p _ => some p
  | _ => none

/-- The pairing a flow carries once it is saved. -/
def Phase.owns : Phase → Option Pairing
  | .dropping p | .showing p | .waiting p | .expiring p | .polling p
  | .linking p _ | .linked p _ | .clearing p _ => some p
  | _ => none

/-- The account a flow unpairs the box from. -/
def Phase.unpairs : Phase → Option Account
  | .retiring a | .unlinking a => some a
  | _ => none

attribute [grind =] Phase.carries Phase.owns Phase.unpairs

/-- The account whose temporary file a flow is about to rename. -/
def Phase.renames : Phase → Option Account
  | .linked _ a => some a
  | _ => none

theorem Phase.carries_of_owns
    {u : Phase} {p : Pairing}
    (h : u.owns = some p) :
    u.carries = some p := by
  cases u <;> first | exact h | cases h

namespace Shared

/-- The box holds the device code. -/
def HoldsCode (s : Shared) (code : String) : Prop :=
  ∃ p, s.pairing.load = some p ∧ p.deviceCode = code

/-- The control plane handed the code out, and it expires there no later than here. -/
def Issued (s : Shared) (p : Pairing) : Prop :=
  ∃ state, s.codes p.deviceCode = some state ∧
    ∀ expiresAt, state = .opened expiresAt → expiresAt ≤ p.expiresAtEpochSecs

/-- The control plane replays the account to the code. -/
def Consumed (s : Shared) (code : String) (a : Account) : Prop :=
  s.codes code = some (.approved a) ∨ s.codes code = some (.retired a)

theorem approvable_iff {s : Shared} {code : String} :
    s.Approvable code ↔
      ∃ expiresAt, s.codes code = some (.opened expiresAt) ∧ s.now < expiresAt := by
  unfold Approvable
  constructor
  · intro h
    split at h
    · exact ⟨_, ‹_›, h⟩
    · exact h.elim
  · rintro ⟨expiresAt, hcode, hnow⟩
    simpa [hcode] using hnow

theorem Consumed.not_approvable
    {s : Shared} {code : String} {a : Account}
    (h : s.Consumed code a) :
    ¬ s.Approvable code := by
  rw [approvable_iff]
  rintro ⟨expiresAt, hcode, -⟩
  rcases h with h | h <;> simp [h] at hcode

theorem Consumed.eq_of_approved
    {s : Shared} {code : String} {a b : Account}
    (h : s.Consumed code a)
    (hb : s.codes code = some (.approved b)) :
    b = a := by
  rcases h with h | h
  · simpa [h, eq_comm] using hb
  · simp [h] at hb

theorem Consumed.eq
    {s : Shared} {code : String} {a b : Account}
    (ha : s.Consumed code a)
    (hb : s.Consumed code b) :
    b = a := by
  rcases hb with hb | hb
  · exact ha.eq_of_approved hb
  · rcases ha with ha | ha
    · simp [ha] at hb
    · simpa [ha, eq_comm] using hb

end Shared

/-! ## Careful steps -/

/-- No other flow carries a pairing. -/
def World.Alone (w : World) (i : Nat) : Prop :=
  ∀ task ∈ w.tasks.eraseIdx i, task.phase.carries = none

/-- No unpair is under way. -/
def World.Paired (w : World) : Prop :=
  ∀ task ∈ w.tasks, task.phase.unpairs = none

/-- No flow is about to rename the temporary file of the account. -/
def World.Unlinked (w : World) : Prop :=
  ∀ task ∈ w.tasks, task.phase.renames = none

instance (w : World) (i : Nat) : Decidable (w.Alone i) :=
  inferInstanceAs (Decidable (∀ task ∈ w.tasks.eraseIdx i, task.phase.carries = none))

instance (w : World) : Decidable w.Paired :=
  inferInstanceAs (Decidable (∀ task ∈ w.tasks, task.phase.unpairs = none))

instance (w : World) : Decidable w.Unlinked :=
  inferInstanceAs (Decidable (∀ task ∈ w.tasks, task.phase.renames = none))

/-- The code is not approved, or the box holds its account and keeps it. -/
def World.Delivered (w : World) (code : String) : Prop :=
  match w.shared.codes code with
  | some (.approved a) => w.shared.account.load = some a ∧ w.Paired
  | _ => True

/-- The steps that lose nothing.  The file writes succeed.  A pairing is saved while the file
holds none and no other flow carries one.  A pairing that has expired is dropped when its
account has been delivered.  A code is refused when its owner cannot approve it any more.  A
link is put in place while no unpair is under way and no other account is linked. -/
def World.CarefulMove (w : World) (i : Nat) : Phase → Event → Prop
  | .saving _, .fails => False
  | .saving _, _ => w.Alone i
  | .installing _, .fails => False
  | .installing _, _ => w.Alone i ∧ w.shared.pairing.load = none
  | .dropping p, .works => w.Delivered p.deviceCode
  | .expiring p, .works => w.Delivered p.deviceCode
  | .polling p, .hears .refused => ¬ w.shared.Approvable p.deviceCode
  | .linking _ _, .fails => False
  | .linking _ _, .tears => w.Unlinked
  | .linked _ _, .fails => False
  | .linked _ a, _ =>
      w.Paired ∧ (w.shared.account.load = none ∨ w.shared.account.load = some a)
  | _, _ => True

def Careful (w : World) : Label → Prop
  | .move i event => ∀ task ∈ w.tasks[i]?, w.CarefulMove i task.phase event
  | _ => True

instance (w : World) (code : String) : Decidable (w.Delivered code) := by
  unfold World.Delivered
  split <;> infer_instance

instance (w : World) (i : Nat) (u : Phase) (event : Event) :
    Decidable (w.CarefulMove i u event) := by
  unfold World.CarefulMove
  split <;> infer_instance

instance (w : World) (label : Label) : Decidable (Careful w label) :=
  match label with
  | .move i event =>
      inferInstanceAs (Decidable (∀ task ∈ w.tasks[i]?, w.CarefulMove i task.phase event))
  | .spawn _ | .die _ | .approve _ _ | .decline _ | .retire _ | .tick => isTrue trivial

/-! ## The invariant -/

/-- What holds of the files, the control plane and the codes in the owner's hands. -/
structure Standing (s : Shared) : Prop where
  file : ∀ p, s.pairing.load = some p → s.Issued p
  known : ∀ code, s.shown code = true → s.codes code ≠ none
  /-- A code the owner may approve is held. -/
  visible : ∀ code, s.shown code = true → s.Approvable code → s.HoldsCode code
  /-- An approved code is linked or held. -/
  linked :
    ∀ code a, s.codes code = some (.approved a) →
      s.account.load = some a ∨ s.HoldsCode code

/-- What a flow may rely on. -/
structure Held (s : Shared) (u : Phase) : Prop where
  locking : ∀ now, u = .locking (some now) → now ≤ s.now
  reading : ∀ now, u = .reading now → now ≤ s.now
  dropping : ∀ p, u = .dropping p ∨ u = .expiring p → p.expiresAtEpochSecs ≤ s.now
  opened :
    ∀ start, u = .opened start →
      ∃ state, s.codes start.deviceCode = some state ∧
        ∀ expiresAt, state = .opened expiresAt → expiresAt ≤ s.now + start.expiresIn
  issued : ∀ p, u.carries = some p → s.Issued p
  owned : ∀ p, u.owns = some p → s.pairing.load = some p ∨ s.pairing.load = none
  installing : ∀ p, u = .installing p → s.pairingTmp = .holds p
  showing : ∀ p, u = .showing p → s.Approvable p.deviceCode → s.pairing.load = some p
  consumed :
    ∀ p a, u = .linking p a ∨ u = .linked p a ∨ u = .clearing p (some a) →
      s.Consumed p.deviceCode a
  written : ∀ p a, u = .linked p a → s.accountTmp = .holds a ∨ s.accountTmp = .missing
  /-- Another flow has put the link in place. -/
  renamed :
    ∀ p a, u = .linked p a → s.accountTmp = .missing →
      s.codes p.deviceCode = some (.approved a) → s.account.load = some a
  clearing :
    ∀ p a, u = .clearing p (some a) →
      s.codes p.deviceCode = some (.approved a) → s.account.load = some a
  refused :
    ∀ p, u = .clearing p none →
      ¬ s.Approvable p.deviceCode ∧ ∀ a, s.codes p.deviceCode ≠ some (.approved a)
  unpairing :
    ∀ a, u.unpairs = some a → s.account.load = some a ∨ s.account.load = none
  unlinking :
    ∀ a, u = .unlinking a →
      ∀ code, s.codes code = some (.approved a) → s.HoldsCode code

/-- What holds of two flows. -/
def Apart (s : Shared) (u v : Phase) : Prop :=
  (∀ p q, u.owns = some p → v.owns = some q → p = q) ∧
    (∀ a p b, u = .unlinking a → v = .clearing p (some b) →
      s.codes p.deviceCode ≠ some (.approved a)) ∧
    ∀ a p b, u = .unlinking a → v = .linked p b →
      s.codes p.deviceCode = some (.approved a) → s.accountTmp = .holds a

structure Kept (w : World) : Prop where
  shared : Standing w.shared
  task : ∀ (i : Nat) u, w.tasks[i]? = some u → Held w.shared u.phase
  pair :
    ∀ (i j : Nat) u v, i ≠ j → w.tasks[i]? = some u → w.tasks[j]? = some v →
      Apart w.shared u.phase v.phase

/-! ## Changes of the files -/

theorem Apart.idle_left
    {s : Shared} {u v : Phase}
    (howns : u.owns = none)
    (hunpairs : u.unpairs = none) :
    Apart s u v := by
  refine ⟨?_, ?_, ?_⟩
  · intro p q hp
    simp [howns] at hp
  · rintro a p b rfl
    simp [Phase.unpairs] at hunpairs
  · rintro a p b rfl
    simp [Phase.unpairs] at hunpairs

theorem Apart.idle_right
    {s : Shared} {u v : Phase}
    (howns : v.owns = none) :
    Apart s u v := by
  refine ⟨?_, ?_, ?_⟩
  · intro p q _ hq
    simp [howns] at hq
  · rintro a p b - rfl
    simp [Phase.owns] at howns
  · rintro a p b - rfl
    simp [Phase.owns] at howns

/-- A pairing whose code is settled may be removed. -/
theorem Standing.clearPairing
    {s : Shared}
    (hs : Standing s)
    (hgone :
      ∀ p, s.pairing.load = some p →
        ¬ s.Approvable p.deviceCode ∧
          ∀ a, s.codes p.deviceCode = some (.approved a) → s.account.load = some a) :
    Standing s.clearPairing where
  file p hp := by simp [Shared.clearPairing] at hp
  known := hs.known
  visible code hshown happrovable := by
    obtain ⟨p, hp, rfl⟩ := hs.visible code hshown happrovable
    exact ((hgone p hp).1 happrovable).elim
  linked code a hcode := by
    rcases hs.linked code a hcode with haccount | ⟨p, hp, rfl⟩
    · exact .inl haccount
    · exact .inl ((hgone p hp).2 a hcode)

theorem Held.clearPairing
    {s : Shared} {v : Phase}
    (hv : Held s v)
    (hgone : ∀ p, s.pairing.load = some p → ¬ s.Approvable p.deviceCode)
    (hunlinking :
      ∀ a p, v = .unlinking a → s.pairing.load = some p →
        s.codes p.deviceCode ≠ some (.approved a)) :
    Held s.clearPairing v where
  locking := hv.locking
  reading := hv.reading
  dropping := hv.dropping
  opened := hv.opened
  issued := hv.issued
  owned _ _ := .inr rfl
  installing := hv.installing
  showing p hu happrovable := (hgone p (hv.showing p hu happrovable) happrovable).elim
  consumed := hv.consumed
  written := hv.written
  renamed := hv.renamed
  clearing := hv.clearing
  refused := hv.refused
  unpairing := hv.unpairing
  unlinking a hu code hcode := by
    obtain ⟨p, hp, rfl⟩ := hv.unlinking a hu code hcode
    exact (hunlinking a p hu hp hcode).elim

theorem Standing.installPairing
    {s : Shared} {p : Pairing}
    (hs : Standing s)
    (hissued : s.Issued p)
    (htmp : s.pairingTmp = .holds p)
    (hnone : s.pairing.load = none) :
    Standing s.installPairing := by
  have hinstalled :
      s.installPairing = { s with pairing := .holds p, pairingTmp := .missing } := by
    simp [Shared.installPairing, htmp]
  rw [hinstalled]
  constructor
  · intro q hq
    obtain rfl : p = q := by simpa using hq
    exact hissued
  · exact hs.known
  · intro code hshown happrovable
    obtain ⟨q, hq, -⟩ := hs.visible code hshown happrovable
    simp [hnone] at hq
  · intro code a hcode
    rcases hs.linked code a hcode with haccount | ⟨q, hq, -⟩
    · exact .inl haccount
    · simp [hnone] at hq

/-- A new pairing disturbs no flow without one. -/
theorem Held.installPairing
    {s : Shared} {p : Pairing} {v : Phase}
    (hv : Held s v)
    (htmp : s.pairingTmp = .holds p)
    (hnone : s.pairing.load = none)
    (hcarries : v.carries = none) :
    Held s.installPairing v := by
  have hinstalled :
      s.installPairing = { s with pairing := .holds p, pairingTmp := .missing } := by
    simp [Shared.installPairing, htmp]
  rw [hinstalled]
  refine { hv with owned := ?_, installing := ?_, showing := ?_, unlinking := ?_ }
  · intro q hq
    simp [Phase.carries_of_owns hq] at hcarries
  · rintro q rfl
    simp [Phase.carries] at hcarries
  · rintro q rfl
    simp [Phase.carries] at hcarries
  · intro a hu code hcode
    obtain ⟨q, hq, -⟩ := hv.unlinking a hu code hcode
    simp [hnone] at hq

theorem Held.writePairing
    {s : Shared} {v : Phase} {content : File Pairing}
    (hv : Held s v)
    (hcarries : v.carries = none) :
    Held (s.writePairing content) v := by
  refine { hv with installing := ?_ }
  rintro q rfl
  simp [Phase.carries] at hcarries

theorem Standing.installAccount
    {s : Shared} {a : Account}
    (hs : Standing s)
    (htmp : s.accountTmp = .holds a ∨ s.accountTmp = .missing)
    (hfree : s.account.load = none ∨ s.account.load = some a) :
    Standing s.installAccount := by
  rcases htmp with htmp | htmp
  · have hinstalled :
        s.installAccount = { s with account := .holds a, accountTmp := .missing } := by
      simp [Shared.installAccount, htmp]
    rw [hinstalled]
    refine { hs with linked := ?_ }
    intro code b hcode
    rcases hs.linked code b hcode with haccount | hholds
    · rcases hfree with hfree | hfree
      · simp [hfree] at haccount
      · exact .inl (hfree.symm.trans haccount)
    · exact .inr hholds
  · have hinstalled : s.installAccount = s := by
      simp [Shared.installAccount, htmp]
    rw [hinstalled]
    exact hs

/-- A link disturbs no flow whose pairing was consumed for the same account. -/
theorem Held.installAccount
    {s : Shared} {a : Account} {v : Phase}
    (hv : Held s v)
    (htmp : s.accountTmp = .holds a ∨ s.accountTmp = .missing)
    (hunpairs : v.unpairs = none)
    (hsame :
      ∀ p b, v = .linked p b ∨ v = .clearing p (some b) → b = a) :
    Held s.installAccount v := by
  rcases htmp with htmp | htmp
  · have hinstalled :
        s.installAccount = { s with account := .holds a, accountTmp := .missing } := by
      simp [Shared.installAccount, htmp]
    rw [hinstalled]
    refine
      { hv with
        written := fun _ _ _ => .inr rfl
        renamed := ?_
        clearing := ?_
        unpairing := ?_ }
    · intro p b hu _ _
      obtain rfl := hsame p b (.inl hu)
      rfl
    · intro p b hu _
      obtain rfl := hsame p b (.inr hu)
      rfl
    · intro b hb
      simp [hunpairs] at hb
  · have hinstalled : s.installAccount = s := by
      simp [Shared.installAccount, htmp]
    rw [hinstalled]
    exact hv

theorem Held.writeAccount
    {s : Shared} {v : Phase} {content : File Account}
    (hv : Held s v)
    (hsame : ∀ p b, v = .linked p b → content = .holds b) :
    Held (s.writeAccount content) v := by
  refine { hv with written := ?_, renamed := ?_ }
  · intro p b hu
    exact .inl (hsame p b hu)
  · intro p b hu hmissing _
    rw [Shared.writeAccount, hsame p b hu] at hmissing
    cases hmissing

/-- The account may be removed once the codes approved for it are held. -/
theorem Standing.clearAccount
    {s : Shared} {a : Account}
    (hs : Standing s)
    (haccount : s.account.load = some a ∨ s.account.load = none)
    (hheld : ∀ code, s.codes code = some (.approved a) → s.HoldsCode code) :
    Standing s.clearAccount := by
  refine { hs with linked := ?_ }
  intro code b hcode
  rcases hs.linked code b hcode with hb | hholds
  · rcases haccount with ha | ha
    · obtain rfl : a = b := by simpa [ha] using hb
      exact .inr (hheld code hcode)
    · simp [ha] at hb
  · exact .inr hholds

theorem Held.clearAccount
    {s : Shared} {a : Account} {v : Phase}
    (hv : Held s v)
    (haccount : s.account.load = some a ∨ s.account.load = none)
    (hapart : Apart s (.unlinking a) v) :
    Held s.clearAccount v := by
  have heq : ∀ b, s.account.load = some b → b = a := by
    intro b hb
    rcases haccount with ha | ha
    · simpa [ha, eq_comm] using hb
    · simp [ha] at hb
  refine { hv with renamed := ?_, clearing := ?_, unpairing := ?_ }
  · intro p b hu hmissing hcode
    obtain rfl := heq b (hv.renamed p b hu hmissing hcode)
    have hwritten := hapart.2.2 b p b rfl hu hcode
    change s.accountTmp = .missing at hmissing
    rw [hwritten] at hmissing
    cases hmissing
  · intro p b hu hcode
    obtain rfl := heq b (hv.clearing p b hu hcode)
    exact (hapart.2.1 b p b rfl hu hcode).elim
  · intro b _
    exact .inr rfl

/-! ## Changes of the control plane -/

/-- How the codes of the control plane move on. -/
structure Progress (s : Shared) (codes : String → Option CodeState) : Prop where
  known : ∀ code, s.codes code ≠ none → codes code ≠ none
  opened :
    ∀ code expiresAt, s.codes code ≠ none → codes code = some (.opened expiresAt) →
      s.codes code = some (.opened expiresAt)
  consumed :
    ∀ code a, s.Consumed code a →
      codes code = some (.approved a) ∨ codes code = some (.retired a)
  /-- A code is approved by an owner who was shown it. -/
  approved :
    ∀ code a, codes code = some (.approved a) →
      s.codes code = some (.approved a) ∨ s.Approvable code ∧ s.HoldsCode code

section Progress

variable {s : Shared} {codes : String → Option CodeState}

theorem Progress.issued
    (h : Progress s codes)
    {p : Pairing}
    (hp : s.Issued p) :
    Shared.Issued { s with codes } p := by
  obtain ⟨state, hstate, hexpires⟩ := hp
  have hknown : s.codes p.deviceCode ≠ none := by simp [hstate]
  obtain ⟨state', hstate'⟩ := Option.ne_none_iff_exists'.1 (h.known _ hknown)
  refine ⟨state', hstate', ?_⟩
  rintro expiresAt rfl
  have hbefore := h.opened _ expiresAt hknown hstate'
  exact hexpires expiresAt (Option.some.inj (hstate.symm.trans hbefore))

theorem Progress.approvable
    (h : Progress s codes)
    {code : String}
    (hknown : s.codes code ≠ none)
    (happrovable : Shared.Approvable { s with codes } code) :
    s.Approvable code := by
  rw [Shared.approvable_iff] at happrovable ⊢
  obtain ⟨expiresAt, hcode, hnow⟩ := happrovable
  exact ⟨expiresAt, h.opened code expiresAt hknown hcode, hnow⟩

/-- A consumed code is not approved again. -/
theorem Progress.approved_of_consumed
    (h : Progress s codes)
    {code : String} {a b : Account}
    (hconsumed : s.Consumed code a)
    (hcode : codes code = some (.approved b)) :
    s.codes code = some (.approved b) := by
  rcases h.approved code b hcode with hbefore | ⟨happrovable, -⟩
  · exact hbefore
  · exact (hconsumed.not_approvable happrovable).elim

theorem Standing.progress
    (hs : Standing s)
    (h : Progress s codes) :
    Standing { s with codes } where
  file p hp := h.issued (hs.file p hp)
  known code hshown := h.known code (hs.known code hshown)
  visible code hshown happrovable :=
    hs.visible code hshown (h.approvable (hs.known code hshown) happrovable)
  linked code a hcode := by
    rcases h.approved code a hcode with hbefore | ⟨-, hholds⟩
    · exact hs.linked code a hbefore
    · exact .inr hholds

theorem Held.progress
    {v : Phase}
    (hv : Held s v)
    (h : Progress s codes) :
    Held { s with codes } v where
  locking := hv.locking
  reading := hv.reading
  dropping := hv.dropping
  opened start hu := by
    obtain ⟨state, hstate, hexpires⟩ := hv.opened start hu
    have hknown : s.codes start.deviceCode ≠ none := by simp [hstate]
    obtain ⟨state', hstate'⟩ := Option.ne_none_iff_exists'.1 (h.known _ hknown)
    refine ⟨state', hstate', ?_⟩
    rintro expiresAt rfl
    have hbefore := h.opened _ expiresAt hknown hstate'
    exact hexpires expiresAt (Option.some.inj (hstate.symm.trans hbefore))
  issued p hp := h.issued (hv.issued p hp)
  owned := hv.owned
  installing := hv.installing
  showing p hu happrovable := by
    obtain ⟨state, hstate, -⟩ := hv.issued p (by rw [hu]; rfl)
    exact hv.showing p hu (h.approvable (by simp [hstate]) happrovable)
  consumed p a hu := h.consumed _ a (hv.consumed p a hu)
  written := hv.written
  renamed p a hu hmissing hcode :=
    hv.renamed p a hu hmissing
      (h.approved_of_consumed (hv.consumed p a (.inr (.inl hu))) hcode)
  clearing p a hu hcode :=
    hv.clearing p a hu
      (h.approved_of_consumed (hv.consumed p a (.inr (.inr hu))) hcode)
  refused p hu := by
    obtain ⟨happrovable, happroved⟩ := hv.refused p hu
    obtain ⟨state, hstate, -⟩ := hv.issued p (by rw [hu]; rfl)
    refine ⟨fun hafter => happrovable (h.approvable (by simp [hstate]) hafter), ?_⟩
    intro a hcode
    rcases h.approved _ a hcode with hbefore | ⟨hnow, -⟩
    · exact happroved a hbefore
    · exact happrovable hnow
  unpairing := hv.unpairing
  unlinking a hu code hcode := by
    rcases h.approved code a hcode with hbefore | ⟨-, hholds⟩
    · exact hv.unlinking a hu code hbefore
    · exact hholds

theorem Apart.progress
    {u v : Phase}
    (hapart : Apart s u v)
    (hv : Held s v)
    (h : Progress s codes) :
    Apart { s with codes } u v := by
  refine ⟨hapart.1, ?_, ?_⟩
  · intro a p b hu hclearing hcode
    have hconsumed := hv.consumed p b (.inr (.inr hclearing))
    exact hapart.2.1 a p b hu hclearing (h.approved_of_consumed hconsumed hcode)
  · intro a p b hu hlinked hcode
    have hconsumed := hv.consumed p b (.inr (.inl hlinked))
    exact hapart.2.2 a p b hu hlinked (h.approved_of_consumed hconsumed hcode)

end Progress

theorem Shared.codes_setCode
    (s : Shared) (code other : String) (state : CodeState) :
    (s.setCode code state).codes other = if other = code then some state else s.codes other := by
  simp [Shared.setCode, Function.update_apply]

/-- The control plane hands out a new code. -/
theorem progress_opened
    {s : Shared} {code : String}
    (hnew : s.codes code = none) (expiresAt : Nat) :
    Progress s (s.setCode code (.opened expiresAt)).codes := by
  have hold : ∀ other, s.codes other ≠ none →
      (s.setCode code (.opened expiresAt)).codes other = s.codes other := by
    intro other hknown
    have hne : other ≠ code := by
      rintro rfl
      exact hknown hnew
    rw [Shared.codes_setCode, if_neg hne]
  constructor
  · intro other hknown
    rw [hold other hknown]
    exact hknown
  · intro other e hknown hcode
    rwa [hold other hknown] at hcode
  · intro other a hconsumed
    have hknown : s.codes other ≠ none := by
      rcases hconsumed with h | h <;> simp [h]
    rw [hold other hknown]
    exact hconsumed
  · intro other a hcode
    rw [Shared.codes_setCode] at hcode
    split at hcode
    · cases hcode
    · exact .inl hcode

/-- An open code is approved, if the box holds it, or declined. -/
theorem progress_settled
    {s : Shared} {code : String} {expiresAt : Nat} {state : CodeState}
    (hopen : s.codes code = some (.opened expiresAt))
    (hstate : ∀ e, state ≠ .opened e)
    (happroved : ∀ a, state = .approved a → s.Approvable code ∧ s.HoldsCode code) :
    Progress s (s.setCode code state).codes := by
  constructor
  · intro other hknown
    rw [Shared.codes_setCode]
    split
    · simp
    · exact hknown
  · intro other e _ hcode
    rw [Shared.codes_setCode] at hcode
    split at hcode
    · exact (hstate e (Option.some.inj hcode)).elim
    · exact hcode
  · intro other a hconsumed
    have hne : other ≠ code := by
      rintro rfl
      rcases hconsumed with h | h <;> simp [hopen] at h
    rw [Shared.codes_setCode, if_neg hne]
    exact hconsumed
  · intro other a hcode
    rw [Shared.codes_setCode] at hcode
    split at hcode
    · rename_i heq
      subst heq
      exact .inr (happroved a (Option.some.inj hcode))
    · exact .inl hcode

theorem progress_retire
    (s : Shared) (a : Account) :
    Progress s (s.retire a).codes := by
  constructor
  · intro code hknown
    change (if _ then _ else _) ≠ none
    split
    · simp
    · exact hknown
  · intro code e _ hcode
    change (if _ then _ else _) = _ at hcode
    split at hcode
    · cases hcode
    · exact hcode
  · intro code b hconsumed
    change (if _ then _ else _) = _ ∨ (if _ then _ else _) = _
    split
    · rename_i happroved
      rw [hconsumed.eq_of_approved happroved]
      exact .inr rfl
    · exact hconsumed
  · intro code b hcode
    change (if _ then _ else _) = _ at hcode
    split at hcode
    · cases hcode
    · exact .inl hcode

theorem Shared.not_approved_retire
    (s : Shared) (a : Account) (code : String) :
    (s.retire a).codes code ≠ some (.approved a) := by
  change (if _ then _ else _) ≠ _
  split
  · simp
  · assumption

/-! ## Changes of the clock and of the owner's knowledge -/

theorem Standing.tick
    {s : Shared}
    (hs : Standing s) :
    Standing { s with now := s.now + 1 } where
  file := hs.file
  known := hs.known
  visible code hshown happrovable := by
    refine hs.visible code hshown ?_
    rw [Shared.approvable_iff] at happrovable ⊢
    obtain ⟨expiresAt, hcode, hnow⟩ := happrovable
    exact ⟨expiresAt, hcode, Nat.lt_of_succ_lt hnow⟩
  linked := hs.linked

theorem Held.tick
    {s : Shared} {v : Phase}
    (hv : Held s v) :
    Held { s with now := s.now + 1 } v := by
  have happrovable : ∀ code,
      Shared.Approvable { s with now := s.now + 1 } code → s.Approvable code := by
    intro code happrovable
    rw [Shared.approvable_iff] at happrovable ⊢
    obtain ⟨expiresAt, hcode, hnow⟩ := happrovable
    exact ⟨expiresAt, hcode, Nat.lt_of_succ_lt hnow⟩
  refine
    { hv with
      locking := fun now hu => Nat.le_succ_of_le (hv.locking now hu)
      reading := fun now hu => Nat.le_succ_of_le (hv.reading now hu)
      dropping := fun p hu => Nat.le_succ_of_le (hv.dropping p hu)
      opened := ?_
      showing := fun p hu hafter => hv.showing p hu (happrovable _ hafter)
      refused := ?_ }
  · intro start hu
    obtain ⟨state, hstate, hexpires⟩ := hv.opened start hu
    refine ⟨state, hstate, fun expiresAt heq => ?_⟩
    have hbefore := hexpires expiresAt heq
    change expiresAt ≤ s.now + 1 + start.expiresIn
    omega
  · intro p hu
    obtain ⟨hnot, happroved⟩ := hv.refused p hu
    exact ⟨fun hafter => hnot (happrovable _ hafter), happroved⟩

theorem Standing.handOut
    {s : Shared} {p : Pairing}
    (hs : Standing s)
    (hissued : s.Issued p)
    (hshowing : s.Approvable p.deviceCode → s.pairing.load = some p) :
    Standing (s.handOut p.deviceCode) where
  file := hs.file
  known code hshown := by
    by_cases hcode : code = p.deviceCode
    · obtain ⟨state, hstate, -⟩ := hissued
      subst hcode
      simp [Shared.handOut, hstate]
    · exact hs.known code (by simpa [Shared.handOut, hcode] using hshown)
  visible code hshown happrovable := by
    by_cases hcode : code = p.deviceCode
    · subst hcode
      exact ⟨p, hshowing happrovable, rfl⟩
    · exact hs.visible code (by simpa [Shared.handOut, hcode] using hshown) happrovable
  linked := hs.linked

theorem Held.handOut
    {s : Shared} {v : Phase} {code : String}
    (hv : Held s v) :
    Held (s.handOut code) v :=
  { hv with }

/-! ## The phases a flow enters -/

/-- A phase that relies on nothing. -/
def Phase.idle : Phase → Bool
  | .checking | .timing | .locking none | .resuming | .opening | .loading | .finished => true
  | _ => false

theorem Phase.owns_of_idle
    {u : Phase}
    (h : u.idle = true) :
    u.owns = none := by
  cases u <;> first | rfl | cases h

theorem Phase.unpairs_of_idle
    {u : Phase}
    (h : u.idle = true) :
    u.unpairs = none := by
  cases u <;> first | rfl | cases h

section Enter

variable {s : Shared} {p : Pairing} {a : Account}

theorem Held.of_idle
    {u : Phase}
    (h : u.idle = true) :
    Held s u := by
  cases u with
  | checking | timing | resuming | opening | loading | finished =>
      constructor <;> simp [Phase.carries, Phase.owns, Phase.unpairs]
  | locking now =>
      cases now with
      | none => constructor <;> simp [Phase.carries, Phase.owns, Phase.unpairs]
      | some now => cases h
  | _ => cases h

theorem Held.of_locking
    {now : Nat}
    (h : now ≤ s.now) :
    Held s (.locking (some now)) := by
  constructor <;> simp [Phase.carries, Phase.owns, Phase.unpairs, h]

theorem Held.of_reading
    {now : Nat}
    (h : now ≤ s.now) :
    Held s (.reading now) := by
  constructor <;> simp [Phase.carries, Phase.owns, Phase.unpairs, h]

theorem Held.of_dropping
    (hissued : s.Issued p)
    (howned : s.pairing.load = some p ∨ s.pairing.load = none)
    (hexpired : p.expiresAtEpochSecs ≤ s.now) :
    Held s (.dropping p) := by
  constructor <;> simp [Phase.carries, Phase.owns, Phase.unpairs, hissued, howned, hexpired]

theorem Held.of_expiring
    (hissued : s.Issued p)
    (howned : s.pairing.load = some p ∨ s.pairing.load = none)
    (hexpired : p.expiresAtEpochSecs ≤ s.now) :
    Held s (.expiring p) := by
  constructor <;> simp [Phase.carries, Phase.owns, Phase.unpairs, hissued, howned, hexpired]

theorem Held.of_opened
    {start : PairStart} {state : CodeState}
    (hstate : s.codes start.deviceCode = some state)
    (hexpires :
      ∀ expiresAt, state = .opened expiresAt → expiresAt ≤ s.now + start.expiresIn) :
    Held s (.opened start) := by
  have hopened :
      ∃ state, s.codes start.deviceCode = some state ∧
        ∀ expiresAt, state = .opened expiresAt → expiresAt ≤ s.now + start.expiresIn :=
    ⟨state, hstate, hexpires⟩
  constructor <;> simp [Phase.carries, Phase.owns, Phase.unpairs]
  exact hopened

theorem Held.of_saving
    (hissued : s.Issued p) :
    Held s (.saving p) := by
  constructor <;> simp [Phase.carries, Phase.owns, Phase.unpairs, hissued]

theorem Held.of_installing
    (hissued : s.Issued p)
    (htmp : s.pairingTmp = .holds p) :
    Held s (.installing p) := by
  constructor <;> simp [Phase.carries, Phase.owns, Phase.unpairs, hissued, htmp]

theorem Held.of_showing
    (hissued : s.Issued p)
    (hload : s.pairing.load = some p) :
    Held s (.showing p) := by
  constructor <;> simp [Phase.carries, Phase.owns, Phase.unpairs, hissued, hload]

theorem Held.of_waiting
    (hissued : s.Issued p)
    (howned : s.pairing.load = some p ∨ s.pairing.load = none) :
    Held s (.waiting p) := by
  constructor <;> simp [Phase.carries, Phase.owns, Phase.unpairs, hissued, howned]

theorem Held.of_polling
    (hissued : s.Issued p)
    (howned : s.pairing.load = some p ∨ s.pairing.load = none) :
    Held s (.polling p) := by
  constructor <;> simp [Phase.carries, Phase.owns, Phase.unpairs, hissued, howned]

theorem Held.of_linking
    (hissued : s.Issued p)
    (howned : s.pairing.load = some p ∨ s.pairing.load = none)
    (hconsumed : s.Consumed p.deviceCode a) :
    Held s (.linking p a) := by
  constructor <;> simp [Phase.carries, Phase.owns, Phase.unpairs, hissued, howned, hconsumed]

theorem Held.of_linked
    (hissued : s.Issued p)
    (howned : s.pairing.load = some p ∨ s.pairing.load = none)
    (hconsumed : s.Consumed p.deviceCode a)
    (hwritten : s.accountTmp = .holds a) :
    Held s (.linked p a) := by
  constructor <;>
    simp [Phase.carries, Phase.owns, Phase.unpairs, hissued, howned, hconsumed, hwritten]

theorem Held.of_clearing
    (hissued : s.Issued p)
    (howned : s.pairing.load = some p ∨ s.pairing.load = none)
    (hconsumed : s.Consumed p.deviceCode a)
    (haccount : s.codes p.deviceCode = some (.approved a) → s.account.load = some a) :
    Held s (.clearing p (some a)) := by
  constructor <;> simp [Phase.carries, Phase.owns, Phase.unpairs, hissued, howned, hconsumed]
  exact haccount

theorem Held.of_refused
    (hissued : s.Issued p)
    (howned : s.pairing.load = some p ∨ s.pairing.load = none)
    (happrovable : ¬ s.Approvable p.deviceCode)
    (happroved : ∀ a, s.codes p.deviceCode ≠ some (.approved a)) :
    Held s (.clearing p none) := by
  constructor <;>
    simp [Phase.carries, Phase.owns, Phase.unpairs, hissued, howned, happrovable, happroved]

theorem Held.of_retiring
    (haccount : s.account.load = some a ∨ s.account.load = none) :
    Held s (.retiring a) := by
  constructor <;> simp [Phase.carries, Phase.owns, Phase.unpairs, haccount]

theorem Held.of_unlinking
    (haccount : s.account.load = some a ∨ s.account.load = none)
    (hretired : ∀ code, s.codes code ≠ some (.approved a)) :
    Held s (.unlinking a) := by
  constructor <;> simp [Phase.carries, Phase.owns, Phase.unpairs, haccount, hretired]

end Enter

end VestaCloud
end Vestad
end Vesta
