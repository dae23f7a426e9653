import Vesta.Lib.Machine
import Vesta.Lib.Map

/-!
# Refresh-token rotation

A login is a family of refresh tokens.  The registry stores for each family the
one live token id, the id it was rotated from and an idle expiry.  A rotation
with the live id advances the family, one with the previous id re-mints the
live one, and any other id of a known family revokes it.

A handler reads the clock and changes the registry under a lock, then persists
it, and mints the token afterwards with a clock reading of its own.  The machine
below takes these as separate steps.  It keeps three records that the code does
not have: the ids a family has had, newest first; when its expiry was last
moved; and the expiry of the last token minted in it.

The ids are 128 random bits.  A draw is a parameter of the step, and the
generator never draws an id twice.
-/

namespace Vesta
namespace Vestad
namespace Auth

open Lib

/-- Lifetime of a refresh token, in seconds. -/
def refreshTokenTtl : Nat := 30 * 24 * 60 * 60

structure RefreshFamily where
  live : String
  prev : Option String
  exp : Nat
deriving DecidableEq

/-- What a presented refresh token says about its family; older tokens name none. -/
structure Claims where
  jti : Option String
  fam : Option String

abbrev Registry : Type := Map String RefreshFamily

def pruneExpired (map : Registry) (now : Nat) : Registry :=
  map.retain fun _ f => decide (now < f.exp)

/-- Start a new family with the two ids drawn for it. -/
def registerFamily (map : Registry) (now : Nat) (jti fam : String) : Registry :=
  (pruneExpired map now).insert fam
    { live := jti, prev := none, exp := now + refreshTokenTtl }

/-- The registry after a rotation and the ids of the token to mint, if it is accepted. -/
def rotate (map : Registry) (claims : Claims) (now : Nat) (newJti : String) :
    Registry × Option (String × String) :=
  let map := pruneExpired map now
  match claims.jti, claims.fam with
  | some jti, some fam =>
      match map[fam]? with
      | none => (map, none)
      | some f =>
          if f.live = jti then
            (map.insert fam
              { live := newJti, prev := some f.live, exp := now + refreshTokenTtl },
              some (newJti, fam))
          else if f.prev = some jti then
            (map.insert fam { f with exp := now + refreshTokenTtl }, some (f.live, fam))
          else
            (map.erase fam, none)
  | _, _ => (map, none)

@[simp] theorem getElem?_pruneExpired (map : Registry) (now : Nat) (fam : String) :
    (pruneExpired map now)[fam]? = map[fam]?.filter fun f => decide (now < f.exp) := by
  simp [pruneExpired]

theorem of_getElem?_pruneExpired
    {map : Registry} {now : Nat} {fam : String} {f : RefreshFamily}
    (h : (pruneExpired map now)[fam]? = some f) :
    map[fam]? = some f ∧ now < f.exp := by
  rw [getElem?_pruneExpired] at h
  simpa using Option.filter_eq_some_iff.1 h

/-- Everything a rotation can do: nothing beyond pruning, when the token names no stored
family; advance the family; re-mint its live token; or revoke it. -/
theorem rotate_cases
    (map : Registry) (claims : Claims) (now : Nat) (newJti : String) :
    (rotate map claims now newJti = (pruneExpired map now, none) ∧
      ∀ jti fam, claims.jti = some jti → claims.fam = some fam →
        (pruneExpired map now)[fam]? = none) ∨
    ∃ jti fam f,
      claims.jti = some jti ∧ claims.fam = some fam ∧
      (pruneExpired map now)[fam]? = some f ∧
      ((f.live = jti ∧
          rotate map claims now newJti =
            ((pruneExpired map now).insert fam
              { live := newJti, prev := some f.live, exp := now + refreshTokenTtl },
              some (newJti, fam))) ∨
        (f.live ≠ jti ∧ f.prev = some jti ∧
          rotate map claims now newJti =
            ((pruneExpired map now).insert fam { f with exp := now + refreshTokenTtl },
              some (f.live, fam))) ∨
        (f.live ≠ jti ∧ f.prev ≠ some jti ∧
          rotate map claims now newJti = ((pruneExpired map now).erase fam, none))) := by
  rcases claims with ⟨_ | jti, _ | fam⟩
  · exact .inl ⟨rfl, by simp⟩
  · exact .inl ⟨rfl, by simp⟩
  · exact .inl ⟨rfl, by simp⟩
  · cases hf : (pruneExpired map now)[fam]? with
    | none =>
        refine .inl ⟨by simp only [rotate, hf], ?_⟩
        rintro jti' fam' - ⟨rfl⟩
        exact hf
    | some f =>
        refine .inr ⟨jti, fam, f, rfl, rfl, hf, ?_⟩
        by_cases hlive : f.live = jti
        · exact .inl ⟨hlive, by simp only [rotate, hf, hlive, if_true]⟩
        · by_cases hprev : f.prev = some jti
          · exact .inr (.inl ⟨hlive, hprev, by simp only [rotate, hf, hlive, hprev, if_true, if_false]⟩)
          · exact .inr (.inr ⟨hlive, hprev, by simp only [rotate, hf, hlive, hprev, if_false]⟩)

/-! ## Runs of the handlers -/

structure AuthState where
  refreshLive : Registry
  clock : Nat
  drawn : List String
  toMint : List (String × String)
  history : Map String (List String)
  slidAt : Map String Nat
  lastMinted : Map String Nat

inductive Call
  | registerRefreshFamily (now : Nat) (jti fam : String)
  | rotateRefresh (claims : Claims) (now : Nat) (newJti : String)
  | mint (ids : String × String) (now : Nat)

namespace AuthState

def empty : AuthState where
  refreshLive := ∅
  clock := 0
  drawn := []
  toMint := []
  history := ∅
  slidAt := ∅
  lastMinted := ∅

/-- The records after a rotation that was accepted with `jti`. -/
def accepted (s : AuthState) (now : Nat) (newJti jti fam : String) : AuthState :=
  { s with
    toMint := (jti, fam) :: s.toMint
    slidAt := s.slidAt.insert fam now
    drawn := if jti = newJti then newJti :: s.drawn else s.drawn
    history :=
      if jti = newJti then s.history.insert fam (newJti :: s.history[fam]?.getD [])
      else s.history }

def step (s : AuthState) : Call → Option AuthState
  | .registerRefreshFamily now jti fam =>
      if s.clock ≤ now ∧ jti ∉ s.drawn ∧ fam ∉ s.drawn ∧ jti ≠ fam then
        some { s with
          refreshLive := registerFamily s.refreshLive now jti fam
          clock := now
          drawn := jti :: fam :: s.drawn
          toMint := (jti, fam) :: s.toMint
          history := s.history.insert fam [jti]
          slidAt := s.slidAt.insert fam now }
      else
        none
  | .rotateRefresh claims now newJti =>
      if s.clock ≤ now ∧ newJti ∉ s.drawn then
        let rotated := rotate s.refreshLive claims now newJti
        let s' := { s with refreshLive := rotated.1, clock := now }
        match rotated.2 with
        | none => some s'
        | some (jti, fam) => some (s'.accepted now newJti jti fam)
      else
        none
  | .mint ids now =>
      if s.clock ≤ now ∧ ids ∈ s.toMint then
        some { s with
          clock := now
          toMint := s.toMint.erase ids
          lastMinted := s.lastMinted.insert ids.2 (now + refreshTokenTtl) }
      else
        none

end AuthState

def machine : Machine AuthState Call where
  start s := s = .empty
  step := AuthState.step

/-- The family a call names and the clock reading it prunes by. -/
def Call.fam : Call → Option String
  | .registerRefreshFamily _ _ fam => some fam
  | .rotateRefresh claims _ _ => claims.fam
  | .mint .. => none

def Call.now : Call → Nat
  | .registerRefreshFamily now _ _ => now
  | .rotateRefresh _ now _ => now
  | .mint _ now => now

/-- A family's stored state as it stands at a time: an expired family is none. -/
def familyAt (map : Registry) (fam : String) (time : Nat) : Option RefreshFamily :=
  map[fam]?.filter fun f => decide (time < f.exp)

/-- What rotation guarantees in a state, whatever is called next. -/
structure Rotation (s : AuthState) : Prop where
  /-- Only the live id and the one before it are accepted. -/
  accepts :
    ∀ claims now newJti jti fam,
      (rotate s.refreshLive claims now newJti).2 = some (jti, fam) →
      ∃ presented f,
        claims.jti = some presented ∧ claims.fam = some fam ∧
        s.refreshLive[fam]? = some f ∧
        (presented = f.live ∨ f.prev = some presented) ∧
        presented ∈ (s.history[fam]?.getD []).take 2
  /-- An id superseded by two or more rotations revokes the family for good. -/
  revokes :
    ∀ (fam jti : String) (ids : List String),
      s.history[fam]? = some ids → jti ∈ ids.drop 2 →
      ∀ now newJti t,
        s.step (.rotateRefresh ⟨some jti, some fam⟩ now newJti) = some t →
        t.refreshLive[fam]? = none ∧
          ∀ calls u, machine.exec t calls = some u →
            ∀ claims now newJti, claims.fam = some fam →
              (rotate u.refreshLive claims now newJti).2 = none
  /-- No call changes another family. -/
  others :
    ∀ call t fam, s.step call = some t → call.fam ≠ some fam →
      ∀ time, call.now ≤ time → familyAt t.refreshLive fam time = familyAt s.refreshLive fam time
  /-- A stored family outlives the last token minted in it. -/
  expiry :
    ∀ (fam : String) (f : RefreshFamily) (exp : Nat),
      s.refreshLive[fam]? = some f → s.lastMinted[fam]? = some exp → exp ≤ f.exp

/-- A token of a stored family is minted with a clock reading no later than the one its
family's expiry was last moved with. -/
def MintedInTime (s : AuthState) : Call → Prop
  | .mint ids now => ids.2 ∈ s.refreshLive → ∀ slid ∈ s.slidAt[ids.2]?, now ≤ slid
  | .registerRefreshFamily .. => True
  | .rotateRefresh .. => True

instance decidableMintedInTime (s : AuthState) : ∀ call, Decidable (MintedInTime s call)
  | .mint ids now =>
      inferInstanceAs
        (Decidable (ids.2 ∈ s.refreshLive → ∀ slid ∈ s.slidAt[ids.2]?, now ≤ slid))
  | .registerRefreshFamily .. | .rotateRefresh .. => isTrue trivial

/-! ## The invariant -/

/-- How the registry agrees with the records of a run. -/
structure AuthInv (s : AuthState) : Prop where
  stored :
    ∀ (fam : String) (f : RefreshFamily), s.refreshLive[fam]? = some f →
      ∃ rest, s.history[fam]? = some (f.live :: rest) ∧ f.prev = rest.head?
  slid :
    ∀ (fam : String) (f : RefreshFamily), s.refreshLive[fam]? = some f →
      ∃ slid, s.slidAt[fam]? = some slid ∧ f.exp = slid + refreshTokenTtl ∧ slid ≤ s.clock
  drawn :
    ∀ (fam : String) (ids : List String), s.history[fam]? = some ids →
      fam ∈ s.drawn ∧ ids.Nodup ∧ ∀ id ∈ ids, id ∈ s.drawn
  toMint : ∀ ids ∈ s.toMint, ids.2 ∈ s.history
  minted : ∀ fam, fam ∈ s.lastMinted → fam ∈ s.history

theorem authInv_empty : AuthInv .empty := by
  constructor <;> simp [AuthState.empty]

/-- Dropping families and letting time pass keep the invariant. -/
theorem AuthInv.of_sub
    {s : AuthState} {map : Registry} {now : Nat}
    (h : AuthInv s)
    (hsub : ∀ (fam : String) (f : RefreshFamily), map[fam]? = some f → s.refreshLive[fam]? = some f)
    (hnow : s.clock ≤ now) :
    AuthInv { s with refreshLive := map, clock := now } where
  stored fam f hf := h.stored fam f (hsub fam f hf)
  slid fam f hf := by
    obtain ⟨slid, hslid, hexp, hle⟩ := h.slid fam f (hsub fam f hf)
    exact ⟨slid, hslid, hexp, Nat.le_trans hle hnow⟩
  drawn := h.drawn
  toMint := h.toMint
  minted := h.minted

theorem authInv_register
    {s : AuthState} {now : Nat} {jti fam : String}
    (h : AuthInv s)
    (hnow : s.clock ≤ now) :
    AuthInv { s with
      refreshLive := registerFamily s.refreshLive now jti fam
      clock := now
      drawn := jti :: fam :: s.drawn
      toMint := (jti, fam) :: s.toMint
      history := s.history.insert fam [jti]
      slidAt := s.slidAt.insert fam now } where
  stored k f hf := by
    by_cases hk : fam = k
    · subst hk
      have hf' : f = { live := jti, prev := none, exp := now + refreshTokenTtl } := by
        simpa [registerFamily] using hf.symm
      exact ⟨[], by simp [hf']⟩
    · have hf' : s.refreshLive[k]? = some f := by
        simp only [registerFamily, Std.ExtTreeMap.getElem?_insert,
          Std.LawfulEqOrd.compare_eq_iff_eq, hk, if_false] at hf
        exact (of_getElem?_pruneExpired hf).1
      simpa [Std.ExtTreeMap.getElem?_insert, hk] using h.stored k f hf'
  slid k f hf := by
    by_cases hk : fam = k
    · subst hk
      have hf' : f = { live := jti, prev := none, exp := now + refreshTokenTtl } := by
        simpa [registerFamily] using hf.symm
      exact ⟨now, by simp [hf']⟩
    · have hf' : s.refreshLive[k]? = some f := by
        simp only [registerFamily, Std.ExtTreeMap.getElem?_insert,
          Std.LawfulEqOrd.compare_eq_iff_eq, hk, if_false] at hf
        exact (of_getElem?_pruneExpired hf).1
      obtain ⟨slid, hslid, hexp, hle⟩ := h.slid k f hf'
      exact ⟨slid, by simpa [Std.ExtTreeMap.getElem?_insert, hk] using hslid, hexp,
        Nat.le_trans hle hnow⟩
  drawn k ids hids := by
    by_cases hk : fam = k
    · subst hk
      have hids' : ids = [jti] := by simpa using hids.symm
      simp [hids']
    · have hids' : s.history[k]? = some ids := by
        simpa [Std.ExtTreeMap.getElem?_insert, hk] using hids
      obtain ⟨hfam', hnodup, hall⟩ := h.drawn k ids hids'
      exact ⟨by simp [hfam'], hnodup, fun id hid => by simp [hall id hid]⟩
  toMint ids hids := by
    rcases List.mem_cons.1 hids with rfl | hids
    · simp
    · exact Std.ExtTreeMap.mem_insert.2 (.inr (h.toMint ids hids))
  minted k hk := Std.ExtTreeMap.mem_insert.2 (.inr (h.minted k hk))

/-- A family whose live id is replaced by a fresh one. -/
theorem authInv_advance
    {s : AuthState} {now : Nat} {newJti fam : String} {f : RefreshFamily}
    (h : AuthInv s)
    (hnew : newJti ∉ s.drawn)
    (hf : s.refreshLive[fam]? = some f)
    (hclock : s.clock = now) :
    AuthInv (({ s with
      refreshLive := s.refreshLive.insert fam
        { live := newJti, prev := some f.live, exp := now + refreshTokenTtl } } :
          AuthState).accepted now newJti newJti fam) := by
  obtain ⟨rest, hhist, hprev⟩ := h.stored fam f hf
  obtain ⟨hfam, hnodup, hall⟩ := h.drawn fam _ hhist
  constructor
  · intro k g hg
    by_cases hk : fam = k
    · subst hk
      have hg' : g = { live := newJti, prev := some f.live, exp := now + refreshTokenTtl } := by
        simpa [AuthState.accepted] using hg.symm
      exact ⟨f.live :: rest, by simp [AuthState.accepted, hg', hhist]⟩
    · have hg' : s.refreshLive[k]? = some g := by
        simpa [AuthState.accepted, Std.ExtTreeMap.getElem?_insert, hk] using hg
      simpa [AuthState.accepted, Std.ExtTreeMap.getElem?_insert, hk] using h.stored k g hg'
  · intro k g hg
    by_cases hk : fam = k
    · subst hk
      have hg' : g = { live := newJti, prev := some f.live, exp := now + refreshTokenTtl } := by
        simpa [AuthState.accepted] using hg.symm
      exact ⟨now, by simp [AuthState.accepted, hg', hclock]⟩
    · have hg' : s.refreshLive[k]? = some g := by
        simpa [AuthState.accepted, Std.ExtTreeMap.getElem?_insert, hk] using hg
      simpa [AuthState.accepted, Std.ExtTreeMap.getElem?_insert, hk] using h.slid k g hg'
  · intro k ids hids
    by_cases hk : fam = k
    · subst hk
      have hids' : ids = newJti :: f.live :: rest := by
        simpa [AuthState.accepted, hhist] using hids.symm
      subst hids'
      refine ⟨by simp [AuthState.accepted, hfam], ?_, ?_⟩
      · exact List.nodup_cons.2 ⟨fun hmem => hnew (hall _ hmem), hnodup⟩
      · intro id hid
        rcases List.mem_cons.1 hid with rfl | hid
        · simp [AuthState.accepted]
        · simp [AuthState.accepted, hall id hid]
    · have hids' : s.history[k]? = some ids := by
        simpa [AuthState.accepted, Std.ExtTreeMap.getElem?_insert, hk] using hids
      obtain ⟨hk', hnodup', hall'⟩ := h.drawn k ids hids'
      refine ⟨by simp [AuthState.accepted, hk'], hnodup', ?_⟩
      intro id hid
      simp [AuthState.accepted, hall' id hid]
  · intro ids hids
    rcases List.mem_cons.1 hids with rfl | hids
    · simp [AuthState.accepted]
    · simp [AuthState.accepted, h.toMint ids hids]
  · intro k hk
    simp [AuthState.accepted, h.minted k hk]

/-- A family whose live token is minted again. -/
theorem authInv_retry
    {s : AuthState} {now : Nat} {newJti fam : String} {f : RefreshFamily}
    (h : AuthInv s)
    (hnew : newJti ∉ s.drawn)
    (hf : s.refreshLive[fam]? = some f)
    (hclock : s.clock = now) :
    AuthInv (({ s with
      refreshLive := s.refreshLive.insert fam { f with exp := now + refreshTokenTtl } } :
        AuthState).accepted now newJti f.live fam) := by
  obtain ⟨rest, hhist, hprev⟩ := h.stored fam f hf
  obtain ⟨hfam, hnodup, hall⟩ := h.drawn fam _ hhist
  have hlive : f.live ≠ newJti := fun heq => hnew (heq ▸ hall _ List.mem_cons_self)
  constructor
  · intro k g hg
    by_cases hk : fam = k
    · subst hk
      have hg' : g = { f with exp := now + refreshTokenTtl } := by
        simpa [AuthState.accepted] using hg.symm
      exact ⟨rest, by simp [AuthState.accepted, hg', hlive, hhist, hprev]⟩
    · have hg' : s.refreshLive[k]? = some g := by
        simpa [AuthState.accepted, Std.ExtTreeMap.getElem?_insert, hk] using hg
      simpa [AuthState.accepted, hlive] using h.stored k g hg'
  · intro k g hg
    by_cases hk : fam = k
    · subst hk
      have hg' : g = { f with exp := now + refreshTokenTtl } := by
        simpa [AuthState.accepted] using hg.symm
      exact ⟨now, by simp [AuthState.accepted, hg', hclock]⟩
    · have hg' : s.refreshLive[k]? = some g := by
        simpa [AuthState.accepted, Std.ExtTreeMap.getElem?_insert, hk] using hg
      simpa [AuthState.accepted, Std.ExtTreeMap.getElem?_insert, hk] using h.slid k g hg'
  · intro k ids hids
    simpa [AuthState.accepted, hlive] using
      h.drawn k ids (by simpa [AuthState.accepted, hlive] using hids)
  · intro ids hids
    rcases List.mem_cons.1 hids with rfl | hids
    · simp [AuthState.accepted, hlive, Std.ExtTreeMap.mem_iff_isSome_getElem?, hhist]
    · simp [AuthState.accepted, hlive, h.toMint ids hids]
  · intro k hk
    simp [AuthState.accepted, hlive, h.minted k hk]

/-- What a rotation call does to the state. -/
theorem step_rotate_cases
    {s t : AuthState} {claims : Claims} {now : Nat} {newJti : String}
    (hstep : s.step (.rotateRefresh claims now newJti) = some t) :
    s.clock ≤ now ∧ newJti ∉ s.drawn ∧
      let pruned := { s with refreshLive := pruneExpired s.refreshLive now, clock := now }
      (t = pruned ∧
        ∀ jti fam, claims.jti = some jti → claims.fam = some fam →
          pruned.refreshLive[fam]? = none) ∨
      ∃ jti fam f,
        claims.jti = some jti ∧ claims.fam = some fam ∧
        pruned.refreshLive[fam]? = some f ∧
        ((f.live = jti ∧
            t = ({ pruned with
              refreshLive := pruned.refreshLive.insert fam
                { live := newJti, prev := some f.live, exp := now + refreshTokenTtl } } :
                  AuthState).accepted now newJti newJti fam) ∨
          (f.live ≠ jti ∧ f.prev = some jti ∧
            t = ({ pruned with
              refreshLive := pruned.refreshLive.insert fam
                { f with exp := now + refreshTokenTtl } } :
                  AuthState).accepted now newJti f.live fam) ∨
          (f.live ≠ jti ∧ f.prev ≠ some jti ∧
            t = { pruned with refreshLive := pruned.refreshLive.erase fam })) := by
  rw [AuthState.step] at hstep
  split at hstep
  · rename_i hguard
    refine ⟨hguard.1, hguard.2, ?_⟩
    rcases rotate_cases s.refreshLive claims now newJti with
      ⟨hrot, hnone⟩ | ⟨jti, fam, f, hjti, hfam, hf, hcase⟩
    · simp only [hrot] at hstep
      cases hstep
      exact .inl ⟨rfl, hnone⟩
    · refine .inr ⟨jti, fam, f, hjti, hfam, hf, ?_⟩
      rcases hcase with ⟨hlive, hrot⟩ | ⟨hlive, hprev, hrot⟩ | ⟨hlive, hprev, hrot⟩
      · simp only [hrot] at hstep
        cases hstep
        exact .inl ⟨hlive, rfl⟩
      · simp only [hrot] at hstep
        cases hstep
        exact .inr (.inl ⟨hlive, hprev, rfl⟩)
      · simp only [hrot] at hstep
        cases hstep
        exact .inr (.inr ⟨hlive, hprev, rfl⟩)
  · cases hstep

theorem authInv_step
    {s t : AuthState} {call : Call}
    (h : AuthInv s)
    (hstep : s.step call = some t) :
    AuthInv t := by
  cases call with
  | registerRefreshFamily now jti fam =>
      rw [AuthState.step] at hstep
      split at hstep
      · rename_i hguard
        cases hstep
        exact authInv_register h hguard.1
      · cases hstep
  | rotateRefresh claims now newJti =>
      obtain ⟨hnow, hnew, hcase⟩ := step_rotate_cases hstep
      have hpruned :
          AuthInv { s with refreshLive := pruneExpired s.refreshLive now, clock := now } :=
        h.of_sub (fun _ _ hf => (of_getElem?_pruneExpired hf).1) hnow
      rcases hcase with ⟨rfl, -⟩ | ⟨jti, fam, f, -, -, hf, hcase⟩
      · exact hpruned
      · rcases hcase with ⟨-, rfl⟩ | ⟨-, -, rfl⟩ | ⟨-, -, rfl⟩
        · exact authInv_advance hpruned hnew hf rfl
        · exact authInv_retry hpruned hnew hf rfl
        · apply hpruned.of_sub _ (Nat.le_refl _)
          intro k g hg
          rw [Std.ExtTreeMap.getElem?_erase] at hg
          split at hg
          · cases hg
          · exact hg
  | mint ids now =>
      rw [AuthState.step] at hstep
      split at hstep
      · rename_i hguard
        cases hstep
        have h' : AuthInv { s with clock := now } := h.of_sub (fun _ _ hf => hf) hguard.1
        refine ⟨h'.stored, h'.slid, h'.drawn, ?_, ?_⟩
        · exact fun k hk => h.toMint k (List.mem_of_mem_erase hk)
        · intro k hk
          rcases Std.ExtTreeMap.mem_insert.1 hk with hk | hk
          · have hk' : ids.2 = k := by simpa using hk
            exact hk' ▸ h.toMint ids hguard.2
          · exact h.minted k hk
      · cases hstep

/-! ## What rotation guarantees -/

theorem accepts_of_authInv
    {s : AuthState}
    (h : AuthInv s)
    {claims : Claims} {now : Nat} {newJti jti fam : String}
    (hrot : (rotate s.refreshLive claims now newJti).2 = some (jti, fam)) :
    ∃ presented f,
      claims.jti = some presented ∧ claims.fam = some fam ∧
      s.refreshLive[fam]? = some f ∧
      (presented = f.live ∨ f.prev = some presented) ∧
      presented ∈ (s.history[fam]?.getD []).take 2 := by
  rcases rotate_cases s.refreshLive claims now newJti with
    ⟨heq, -⟩ | ⟨presented, fam', f, hjti, hfam, hf, hcase⟩
  · simp [heq] at hrot
  · have hstored := (of_getElem?_pruneExpired hf).1
    obtain ⟨rest, hhist, hprev⟩ := h.stored fam' f hstored
    rcases hcase with ⟨hlive, heq⟩ | ⟨-, hprev', heq⟩ | ⟨-, -, heq⟩
    · rw [heq] at hrot
      cases hrot
      exact ⟨presented, f, hjti, hfam, hstored, .inl hlive.symm, by simp [hhist, hlive]⟩
    · rw [heq] at hrot
      cases hrot
      refine ⟨presented, f, hjti, hfam, hstored, .inr hprev', ?_⟩
      cases rest with
      | nil => simp [hprev'] at hprev
      | cons p rest =>
          have hp : presented = p := by simpa [hprev'] using hprev
          simp [hhist, hp]
    · simp [heq] at hrot

/-- A family that has left the registry stays out of it. -/
theorem gone_step
    {s t : AuthState} {call : Call} {fam : String}
    (h : fam ∈ s.drawn ∧ s.refreshLive[fam]? = none)
    (hstep : s.step call = some t) :
    fam ∈ t.drawn ∧ t.refreshLive[fam]? = none := by
  obtain ⟨hdrawn, hnone⟩ := h
  have hpruned : ∀ now, (pruneExpired s.refreshLive now)[fam]? = none := by
    intro now
    simp [hnone]
  cases call with
  | registerRefreshFamily now jti fam' =>
      rw [AuthState.step] at hstep
      split at hstep
      · rename_i hguard
        cases hstep
        have hne : fam' ≠ fam := fun heq => hguard.2.2.1 (heq ▸ hdrawn)
        refine ⟨by simp [hdrawn], ?_⟩
        simpa [registerFamily, Std.ExtTreeMap.getElem?_insert, hne] using hpruned now
      · cases hstep
  | rotateRefresh claims now newJti =>
      obtain ⟨-, -, hcase⟩ := step_rotate_cases hstep
      rcases hcase with ⟨rfl, -⟩ | ⟨jti, fam', f, -, -, hf, hcase⟩
      · exact ⟨hdrawn, hpruned now⟩
      · have hne : fam' ≠ fam := by
          rintro rfl
          rw [hpruned now] at hf
          cases hf
        rcases hcase with ⟨-, rfl⟩ | ⟨-, -, rfl⟩ | ⟨-, -, rfl⟩
        · refine ⟨by simp [AuthState.accepted, hdrawn], ?_⟩
          simpa [AuthState.accepted, Std.ExtTreeMap.getElem?_insert, hne] using hpruned now
        · refine ⟨?_, ?_⟩
          · simp only [AuthState.accepted]
            split
            · exact List.mem_cons_of_mem _ hdrawn
            · exact hdrawn
          · simpa [AuthState.accepted, Std.ExtTreeMap.getElem?_insert, hne] using hpruned now
        · refine ⟨hdrawn, ?_⟩
          simpa [Std.ExtTreeMap.getElem?_erase, hne] using hpruned now
  | mint ids now =>
      rw [AuthState.step] at hstep
      split at hstep
      · cases hstep
        exact ⟨hdrawn, hnone⟩
      · cases hstep

theorem rotate_of_gone
    {map : Registry} {fam : String}
    (h : map[fam]? = none)
    {claims : Claims} (hfam : claims.fam = some fam)
    (now : Nat) (newJti : String) :
    (rotate map claims now newJti).2 = none := by
  rcases rotate_cases map claims now newJti with
    ⟨heq, -⟩ | ⟨jti, fam', f, -, hfam', hf, -⟩
  · rw [heq]
  · have hsame : fam' = fam := Option.some.inj (hfam'.symm.trans hfam)
    rw [hsame, getElem?_pruneExpired, h] at hf
    cases hf

theorem revokes_of_authInv
    {s t : AuthState}
    (h : AuthInv s)
    {fam jti newJti : String} {ids : List String} {now : Nat}
    (hhist : s.history[fam]? = some ids) (hold : jti ∈ ids.drop 2)
    (hstep : s.step (.rotateRefresh ⟨some jti, some fam⟩ now newJti) = some t) :
    fam ∈ t.drawn ∧ t.refreshLive[fam]? = none := by
  obtain ⟨hfam, hnodup, -⟩ := h.drawn fam ids hhist
  obtain ⟨-, -, hcase⟩ := step_rotate_cases hstep
  rcases hcase with ⟨rfl, hnone⟩ | ⟨jti', fam', f, hjti', hfam', hf, hcase⟩
  · exact ⟨hfam, hnone jti fam rfl rfl⟩
  · cases hjti'
    cases hfam'
    obtain ⟨rest, hhist', hprev⟩ := h.stored fam f (of_getElem?_pruneExpired hf).1
    have hids : ids = f.live :: rest := Option.some.inj (hhist.symm.trans hhist')
    subst hids
    -- the superseded id is neither the first of the history nor the second
    have hlive : f.live ≠ jti := by
      rintro rfl
      exact (List.nodup_cons.1 hnodup).1 (List.mem_of_mem_drop (i := 1) hold)
    have hprev' : f.prev ≠ some jti := by
      rw [hprev]
      cases rest with
      | nil => simp
      | cons p rest =>
          intro heq
          have hp : p = jti := by simpa using heq
          subst hp
          exact (List.nodup_cons.1 (List.nodup_cons.1 hnodup).2).1 hold
    rcases hcase with ⟨hlive', -⟩ | ⟨-, hprev'', -⟩ | ⟨-, -, rfl⟩
    · exact absurd hlive' hlive
    · exact absurd hprev'' hprev'
    · exact ⟨hfam, by simp⟩

theorem familyAt_pruneExpired
    (map : Registry) (fam : String) {now time : Nat}
    (hle : now ≤ time) :
    familyAt (pruneExpired map now) fam time = familyAt map fam time := by
  rw [familyAt, familyAt, getElem?_pruneExpired]
  cases map[fam]? with
  | none => rfl
  | some f =>
      by_cases hexp : now < f.exp
      · simp [Option.filter, hexp]
      · have hexp' : ¬time < f.exp := by omega
        simp [Option.filter, hexp, hexp']

theorem others_step
    {s t : AuthState} {call : Call} {fam : String} {time : Nat}
    (hstep : s.step call = some t)
    (hfam : call.fam ≠ some fam)
    (htime : call.now ≤ time) :
    familyAt t.refreshLive fam time = familyAt s.refreshLive fam time := by
  cases call with
  | registerRefreshFamily now jti fam' =>
      rw [AuthState.step] at hstep
      split at hstep
      · cases hstep
        have hne : fam' ≠ fam := fun heq => hfam (congrArg some heq)
        rw [← familyAt_pruneExpired s.refreshLive fam htime, familyAt, familyAt, registerFamily,
          Std.ExtTreeMap.getElem?_insert, if_neg (by simpa using hne)]
        rfl
      · cases hstep
  | rotateRefresh claims now newJti =>
      obtain ⟨-, -, hcase⟩ := step_rotate_cases hstep
      rw [← familyAt_pruneExpired s.refreshLive fam htime]
      rcases hcase with ⟨rfl, -⟩ | ⟨jti, fam', f, -, hfam', hf, hcase⟩
      · rfl
      · have hne : fam' ≠ fam := fun heq => hfam (heq ▸ hfam')
        rcases hcase with ⟨-, rfl⟩ | ⟨-, -, rfl⟩ | ⟨-, -, rfl⟩
        · simp [familyAt, AuthState.accepted, Std.ExtTreeMap.getElem?_insert, hne, Call.now]
        · simp [familyAt, AuthState.accepted, Std.ExtTreeMap.getElem?_insert, hne, Call.now]
        · simp [familyAt, Std.ExtTreeMap.getElem?_erase, hne, Call.now]
  | mint ids now =>
      rw [AuthState.step] at hstep
      split at hstep
      · cases hstep
        rfl
      · cases hstep

/-- A stored family outlives the last token minted in it. -/
def Outlives (s : AuthState) : Prop :=
  ∀ (fam : String) (f : RefreshFamily) (exp : Nat),
    s.refreshLive[fam]? = some f → s.lastMinted[fam]? = some exp → exp ≤ f.exp

/-- A call that only moves expiries forward keeps the families outliving their tokens. -/
theorem outlives_rotate
    {s t : AuthState} {claims : Claims} {now : Nat} {newJti : String}
    (h : AuthInv s) (hout : Outlives s)
    (hstep : s.step (.rotateRefresh claims now newJti) = some t) :
    Outlives t := by
  obtain ⟨hnow, -, hcase⟩ := step_rotate_cases hstep
  have hpruned :
      ∀ (k : String) (f : RefreshFamily) (exp : Nat),
        (pruneExpired s.refreshLive now)[k]? = some f →
        s.lastMinted[k]? = some exp → exp ≤ f.exp := by
    intro k f exp hf
    exact hout k f exp (of_getElem?_pruneExpired hf).1
  rcases hcase with ⟨rfl, -⟩ | ⟨jti, fam, f, -, -, hf, hcase⟩
  · exact hpruned
  · have hslide : ∀ exp, s.lastMinted[fam]? = some exp → exp ≤ now + refreshTokenTtl := by
      intro exp hexp
      have hstored := (of_getElem?_pruneExpired hf).1
      obtain ⟨slid, -, hfexp, hle⟩ := h.slid fam f hstored
      have hbound := hout fam f exp hstored hexp
      omega
    rcases hcase with ⟨-, rfl⟩ | ⟨-, -, rfl⟩ | ⟨-, -, rfl⟩
    · intro k g exp hg hexp
      by_cases hk : fam = k
      · subst hk
        have hg' : g.exp = now + refreshTokenTtl := by
          have := hg
          simp only [AuthState.accepted, Std.ExtTreeMap.getElem?_insert_self] at this
          exact (congrArg RefreshFamily.exp (Option.some.inj this)).symm
        exact hg' ▸ hslide exp hexp
      · refine hpruned k g exp ?_ hexp
        simpa [AuthState.accepted, Std.ExtTreeMap.getElem?_insert, hk] using hg
    · intro k g exp hg hexp
      by_cases hk : fam = k
      · subst hk
        have hg' : g.exp = now + refreshTokenTtl := by
          have := hg
          simp only [AuthState.accepted, Std.ExtTreeMap.getElem?_insert_self] at this
          exact (congrArg RefreshFamily.exp (Option.some.inj this)).symm
        exact hg' ▸ hslide exp hexp
      · refine hpruned k g exp ?_ hexp
        simpa [AuthState.accepted, Std.ExtTreeMap.getElem?_insert, hk] using hg
    · intro k g exp hg hexp
      refine hpruned k g exp ?_ hexp
      rw [Std.ExtTreeMap.getElem?_erase] at hg
      split at hg
      · cases hg
      · exact hg

theorem outlives_register
    {s t : AuthState} {now : Nat} {jti fam : String}
    (h : AuthInv s) (hout : Outlives s)
    (hstep : s.step (.registerRefreshFamily now jti fam) = some t) :
    Outlives t := by
  rw [AuthState.step] at hstep
  split at hstep
  · rename_i hguard
    cases hstep
    intro k g exp hg hexp
    by_cases hk : fam = k
    · subst hk
      have hmem : fam ∈ s.lastMinted := by
        rw [Std.ExtTreeMap.mem_iff_isSome_getElem?, hexp]
        rfl
      obtain ⟨ids, hids⟩ := Option.isSome_iff_exists.1
        (Std.ExtTreeMap.mem_iff_isSome_getElem?.1 (h.minted fam hmem))
      exact absurd (h.drawn fam ids hids).1 hguard.2.2.1
    · refine hout k g exp ?_ hexp
      simp only [registerFamily, Std.ExtTreeMap.getElem?_insert,
        Std.LawfulEqOrd.compare_eq_iff_eq, hk, if_false] at hg
      exact (of_getElem?_pruneExpired hg).1
  · cases hstep

/-- Minting keeps the families outliving their tokens exactly when it is in time. -/
theorem outlives_mint
    {s t : AuthState} {ids : String × String} {now : Nat}
    (h : AuthInv s) (hout : Outlives s)
    (hstep : s.step (.mint ids now) = some t) :
    Outlives t ↔ MintedInTime s (.mint ids now) := by
  rw [AuthState.step] at hstep
  split at hstep
  · cases hstep
    constructor
    · intro hout' hmem slid hslid
      obtain ⟨f, hf⟩ := Option.isSome_iff_exists.1
        (Std.ExtTreeMap.mem_iff_isSome_getElem?.1 hmem)
      obtain ⟨slid', hslid', hexp, -⟩ := h.slid ids.2 f hf
      have hsame : slid = slid' := Option.some.inj (Eq.trans (Eq.symm hslid) hslid')
      have hbound := hout' ids.2 f (now + refreshTokenTtl) hf (by simp)
      omega
    · intro htime k g exp hg hexp
      by_cases hk : ids.2 = k
      · subst hk
        obtain ⟨slid, hslid, hgexp, -⟩ := h.slid ids.2 g hg
        have hmem : ids.2 ∈ s.refreshLive := by
          rw [Std.ExtTreeMap.mem_iff_isSome_getElem?]
          exact Option.isSome_iff_exists.2 ⟨g, hg⟩
        have hexp' : exp = now + refreshTokenTtl := by simpa using hexp.symm
        have hle := htime hmem slid hslid
        omega
      · refine hout k g exp hg ?_
        simpa [Std.ExtTreeMap.getElem?_insert, hk] using hexp
  · cases hstep

theorem rotation_of_authInv
    {s : AuthState}
    (h : AuthInv s) (hout : Outlives s) :
    Rotation s where
  accepts _ _ _ _ _ hrot := accepts_of_authInv h hrot
  revokes fam jti ids hhist hold now newJti t hstep := by
    have hgone := revokes_of_authInv h hhist hold hstep
    refine ⟨hgone.2, ?_⟩
    intro calls u hrun claims now newJti hfam
    have hgone' : fam ∈ u.drawn ∧ u.refreshLive[fam]? = none :=
      machine.exec_invariant (I := fun v => fam ∈ v.drawn ∧ v.refreshLive[fam]? = none)
        (fun _ _ _ hv hs => gone_step hv hs) hgone hrun
    exact rotate_of_gone hgone'.2 hfam now newJti
  others _ _ _ hstep hfam _ htime := others_step hstep hfam htime
  expiry := hout

theorem authInv_of_reaches
    {s : AuthState}
    (h : machine.Reaches MintedInTime s) :
    AuthInv s ∧ Outlives s := by
  refine h.invariant (I := fun s => AuthInv s ∧ Outlives s) ?_ ?_
  · rintro s rfl
    exact ⟨authInv_empty, by simp [Outlives, AuthState.empty]⟩
  · rintro s call t ⟨hinv, hout⟩ hok hstep
    refine ⟨authInv_step hinv hstep, ?_⟩
    cases call with
    | registerRefreshFamily now jti fam => exact outlives_register hinv hout hstep
    | rotateRefresh claims now newJti => exact outlives_rotate hinv hout hstep
    | mint ids now => exact (outlives_mint hinv hout hstep).2 hok

/-- Along runs whose tokens are minted in time every state guarantees rotation, and the first
token that is not minted in time breaks it. -/
theorem rotation_iff_mintedInTime
    (s : AuthState)
    (h : machine.Reaches MintedInTime s) :
    Rotation s ∧
      ∀ call t, s.step call = some t → (Rotation t ↔ MintedInTime s call) := by
  obtain ⟨hinv, hout⟩ := authInv_of_reaches h
  refine ⟨rotation_of_authInv hinv hout, ?_⟩
  intro call t hstep
  constructor
  · intro hrot
    cases call with
    | registerRefreshFamily | rotateRefresh => trivial
    | mint ids now => exact (outlives_mint hinv hout hstep).1 hrot.expiry
  · intro hok
    obtain ⟨hinv', hout'⟩ := authInv_of_reaches (.step h hok hstep)
    exact rotation_of_authInv hinv' hout'

/-- A login, and a refresh whose response took a second to be written. -/
def lateRun : List Call :=
  [.registerRefreshFamily 100 "j1" "f1", .mint ("j1", "f1") 100,
    .rotateRefresh ⟨some "j1", some "f1"⟩ 200 "j2"]

theorem rotation_iff_mintedInTime_lateRun :
    Rotation (machine.runTo .empty lateRun) ∧
      (Rotation (machine.runTo .empty (lateRun ++ [.mint ("j2", "f1") 200])) ↔
        MintedInTime (machine.runTo .empty lateRun) (.mint ("j2", "f1") 200)) := by
  have hstart : machine.Reaches MintedInTime .empty := .start rfl
  have hreach := hstart.runTo lateRun (by decide) (by decide)
  obtain ⟨hrot, hexact⟩ := rotation_iff_mintedInTime _ hreach
  exact ⟨hrot, hexact (.mint ("j2", "f1") 200) _ rfl⟩

/-- A token minted a second after its family's expiry was moved outlives the family. -/
theorem not_rotation_lateRun :
    ¬∀ s, machine.Reaches Machine.always s → Rotation s := by
  intro hall
  have hstart : machine.Reaches Machine.always .empty := .start rfl
  have hrot := hall _ (hstart.runTo (lateRun ++ [.mint ("j2", "f1") 201])
    (Machine.admits_always _ _ _) (by decide))
  have hbound := hrot.expiry "f1" ⟨"j2", some "j1", 200 + refreshTokenTtl⟩
    (201 + refreshTokenTtl) (by decide) (by decide)
  simp at hbound

end Auth
end Vestad
end Vesta
