import Vesta.Vestad.Rebuilding.Handlers

/-!
# No handler acts on the container during a rebuild

Two facts carry the result.  The tracker counts the marks of the reconcile and
of the handler that holds the lock, and every program takes and drops its marks
in pairs; so a rebuild that is open is marked, and a request that tests the
marks is refused.  And only the holder of the lock makes calls, so the rebuild
of one handler excludes all others.

What is not excluded is a handler that is past its test when the reconcile,
which takes no lock, opens a rebuild, and a rename, which makes no test.
-/

namespace Vesta
namespace Vestad
namespace Rebuilding

open Lib
open Prog
open Docker (ContainerStatus Inspected View)

/-! ## Marks are taken and dropped in pairs -/

/-- A mark is taken once and dropped when it is held. -/
def Marks.allows (m : Marks) : Call → Prop
  | .markPending => m.pending = false
  | .markRebuild => m.rebuild = false
  | .dropPending => m.pending = true
  | .dropRebuild => m.rebuild = true
  | _ => True

/-- Whatever the answers, the marks are taken and dropped in pairs, and those held at the end
satisfy `Q`. -/
def Balanced {α : Type} (Q : Except String α → Marks → Prop) : Op α → Marks → Prop
  | .ret r, m => Q r m
  | .call c k, m => m.allows c ∧ ∀ r, Balanced Q (k r) (m.after c)

theorem balanced_mono
    {α : Type} {Q Q' : Except String α → Marks → Prop} {p : Op α} {m : Marks}
    (hQ : ∀ r m, Q r m → Q' r m)
    (h : Balanced Q p m) :
    Balanced Q' p m := by
  induction p generalizing m with
  | ret r => exact hQ r m h
  | call c k ih => exact ⟨h.1, fun r => ih r (h.2 r)⟩

theorem balanced_bind
    {α β : Type} {R : Except String α → Marks → Prop} {Q : Except String β → Marks → Prop}
    {p : Op α} {f : α → Op β} {m : Marks}
    (hp : Balanced R p m)
    (hok : ∀ a m, R (.ok a) m → Balanced Q (f a) m)
    (herror : ∀ e m, R (.error e) m → Q (.error e) m) :
    Balanced Q (p >>= f) m := by
  induction p generalizing m with
  | ret r =>
      cases r with
      | ok a => exact hok a m hp
      | error e => exact herror e m hp
  | call c k ih => exact ⟨hp.1, fun r => ih r (hp.2 r)⟩

theorem balanced_attempt
    {α : Type} {Q : Except String (Except String α) → Marks → Prop} {p : Op α} {m : Marks}
    (h : Balanced (fun r m => Q (.ok r) m) p m) :
    Balanced Q (attempt p) m := by
  induction p generalizing m with
  | ret r => exact h
  | call c k ih => exact ⟨h.1, fun r => ih r (h.2 r)⟩

/-- A call that is not about a mark. -/
def Plain : Call → Prop
  | .markPending | .markRebuild | .dropPending | .dropRebuild => False
  | _ => True

theorem Plain.after
    {c : Call}
    (h : Plain c) (m : Marks) :
    m.after c = m := by
  cases c <;> first | rfl | exact h.elim

theorem Plain.allows
    {c : Call}
    (h : Plain c) (m : Marks) :
    m.allows c := by
  cases c <;> trivial

theorem balanced_of_only
    {α : Type} {p : Op α}
    (h : Only Plain p) (m : Marks) :
    Balanced (fun _ m' => m' = m) p m := by
  induction p with
  | ret r => rfl
  | call c k ih =>
      refine ⟨h.1.allows m, fun r => ?_⟩
      rw [h.1.after m]
      exact ih r (h.2 r)

theorem only_onDocker {α : Type} (p : Docker.Op α) : Only Plain (onDocker p) := by
  induction p with
  | ret r => trivial
  | call c k ih => exact ⟨trivial, ih⟩

theorem only_onRename {α : Type} (p : Rename.Op α) : Only Plain (onRename p) := by
  induction p with
  | ret r => trivial
  | call c k ih => exact ⟨trivial, ih⟩

theorem balanced_onDocker
    {α : Type} (p : Docker.Op α) (m : Marks) :
    Balanced (fun _ m' => m' = m) (onDocker p) m :=
  balanced_of_only (only_onDocker p) m

theorem balanced_ask
    {α : Type} {Q : Except String α → Marks → Prop} {c : Call} {f : Answer c → Op α} {m : Marks}
    (hallows : m.allows c)
    (hf : ∀ r, Balanced Q (f r) (m.after c)) :
    Balanced Q (ask c >>= f) m :=
  ⟨hallows, hf⟩

/-- Sequencing after a program whose errors are handed on. -/
theorem balanced_attempt_bind
    {α β : Type} {R : Marks → Prop} {Q : Except String β → Marks → Prop}
    {p : Op α} {f : Except String α → Op β} {m : Marks}
    (hp : Balanced (fun _ m' => R m') p m)
    (hf : ∀ r m', R m' → Balanced Q (f r) m') :
    Balanced Q (attempt p >>= f) m := by
  refine balanced_bind (R := fun r m' => (∃ result, r = .ok result) ∧ R m')
    (balanced_attempt (balanced_mono (fun r m' hm' => ⟨⟨r, rfl⟩, hm'⟩) hp)) ?_ ?_
  · rintro r m' ⟨-, hm'⟩
    exact hf r m' hm'
  · rintro e m' ⟨⟨r, hr⟩, -⟩
    cases hr

/-- The rebuild's own mark comes and goes. -/
theorem balanced_rebuildAgent
    {m : Marks}
    (h : m.rebuild = false) :
    Balanced (fun _ m' => m' = m) rebuildAgent m := by
  refine balanced_ask h fun _ => ?_
  refine balanced_attempt_bind (balanced_onDocker _ _) ?_
  rintro result m' rfl
  refine balanced_ask rfl fun _ => ?_
  obtain ⟨pending, rebuild⟩ := m
  obtain rfl : rebuild = false := h
  rfl

theorem only_plainRestart : Only Plain plainRestart := by
  refine ⟨trivial, fun worked => ?_⟩
  change Only Plain (orFail _ worked)
  cases worked <;> trivial

theorem balanced_plainRestart (m : Marks) :
    Balanced (fun _ m' => m' = m) plainRestart m :=
  balanced_of_only only_plainRestart m

theorem balanced_restartAgent : Balanced (fun _ m => m = .none) restartAgent .none := by
  refine balanced_bind (balanced_onDocker _ _) ?_ fun _ _ hm => hm
  rintro - m rfl
  refine balanced_ask trivial fun info => ?_
  cases info with
  | none => exact balanced_plainRestart _
  | some info =>
      refine balanced_ask trivial fun drifted => ?_
      cases drifted with
      | false => exact balanced_plainRestart _
      | true =>
          refine balanced_ask trivial fun diskOk => ?_
          cases diskOk with
          | false => rfl
          | true =>
              refine balanced_bind (balanced_rebuildAgent rfl) ?_ fun _ _ hm => hm
              rintro - m rfl
              exact balanced_onDocker _ _

/-- The alignment returns, and marks nothing. -/
theorem balanced_align (codeChanged : Bool) (m : Marks) :
    Balanced (fun r m' => r = .ok () ∧ m' = m) (align codeChanged) m := by
  refine balanced_ask trivial fun info => balanced_ask trivial fun wanted => ?_
  split
  · split
    · exact balanced_ask trivial fun _ => ⟨rfl, rfl⟩
    · split
      · exact balanced_ask trivial fun _ => ⟨rfl, rfl⟩
      · exact ⟨rfl, rfl⟩
  · split
    · exact balanced_ask trivial fun _ => ⟨rfl, rfl⟩
    · exact ⟨rfl, rfl⟩

theorem balanced_rebuildMarked (codeChanged : Bool) :
    Balanced (fun _ m => m = .none) (rebuildMarked codeChanged) ⟨true, false⟩ := by
  have halign : Balanced (fun _ m => m = .none) (align codeChanged) .none :=
    balanced_mono (fun _ _ h => h.2) (balanced_align codeChanged .none)
  refine balanced_ask trivial fun codeOk => ?_
  cases codeOk with
  | false => exact balanced_ask rfl fun _ => halign
  | true =>
      refine balanced_attempt_bind (balanced_rebuildAgent rfl) ?_
      rintro result m rfl
      cases result with
      | error e => exact balanced_ask rfl fun _ => halign
      | ok u =>
          refine balanced_bind (balanced_align codeChanged _) ?_ ?_
          · rintro - m ⟨-, rfl⟩
            exact balanced_ask rfl fun _ => rfl
          · rintro e m ⟨hok, -⟩
            cases hok

theorem balanced_reconcileAgent (codeChanged : Bool) :
    Balanced (fun _ m => m = .none) (reconcileAgent codeChanged) .none := by
  have halign : Balanced (fun _ m => m = .none) (align codeChanged) .none :=
    balanced_mono (fun _ _ h => h.2) (balanced_align codeChanged .none)
  refine balanced_ask trivial fun info => ?_
  cases info with
  | none => exact halign
  | some info =>
      refine balanced_ask trivial fun outdated => ?_
      cases outdated with
      | false => exact halign
      | true =>
          refine balanced_ask trivial fun diskOk => ?_
          cases diskOk with
          | false => exact halign
          | true => exact balanced_ask rfl fun _ => balanced_rebuildMarked codeChanged

theorem balanced_reconcileContainers (codeChanged : Bool) :
    Balanced (fun _ m => m = .none) (reconcileContainers codeChanged) .none := by
  have hresume : Balanced (fun _ m => m = .none) resumeInterruptedRebuilds .none := by
    refine balanced_ask trivial fun tss => ?_
    cases tss with
    | none => rfl
    | some tss => exact balanced_onDocker _ _
  refine balanced_attempt_bind hresume ?_
  rintro - m rfl
  refine balanced_ask trivial fun listed => ?_
  cases listed with
  | false => rfl
  | true => exact balanced_reconcileAgent codeChanged

theorem only_prog
    (name : String) {kind : Kind}
    (h : kind.detached = false) :
    Only Plain (kind.prog name) := by
  cases kind with
  | start => exact only_onDocker _
  | stop => exact only_onDocker _
  | restart => cases h
  | destroy => exact only_onDocker _
  | rename new => exact only_onRename _

theorem balanced_prog
    (name : String) (kind : Kind) :
    Balanced (fun _ m => m = .none) (kind.prog name) .none := by
  cases kind with
  | restart => exact balanced_restartAgent
  | start => exact balanced_onDocker _ _
  | stop => exact balanced_onDocker _ _
  | destroy => exact balanced_onDocker _ _
  | rename new => exact balanced_of_only (only_onRename _) _

/-! ## An agent without a container -/

/-- The answers to a call about an agent that has no container. -/
def Absent : (c : Call) → Answer c → Prop
  | .docker .containerStatus, status => status = .notFound
  | .docker .inspectContainer, info => info = none
  | _, _ => True

/-- As long as the agent has no container, the program creates none. -/
def Inert {α : Type} : Op α → Prop
  | .ret _ => True
  | .call c k => (∀ image, c ≠ .docker (.createContainer image)) ∧ ∀ r, Absent c r → Inert (k r)

theorem absent_act
    {name : String} {v : View}
    (h : v.container = none)
    (c : Call) (t : CallTick) :
    Absent c (act name v c t).1 := by
  have hstatus : (v.act .containerStatus t.tick).1 = ContainerStatus.notFound := by
    simp only [View.act, View.status, h]
    split <;> rfl
  cases c with
  | docker c =>
      cases c with
      | containerStatus => exact hstatus
      | inspectContainer =>
          change (v.act .inspectContainer t.tick).1 = none
          simp only [View.act, h]
          split <;> rfl
      | _ => trivial
  | _ => trivial

theorem container_act
    {name : String} {v : View} {c : Call}
    (h : v.container = none)
    (hc : ∀ image, c ≠ .docker (.createContainer image))
    (t : CallTick) :
    (act name v c t).2.container = none := by
  have hrunning : ∀ running, (v.setRunning running).container = none := by
    simp [View.setRunning, h]
  cases c with
  | docker c =>
      cases c with
      | createContainer image => exact (hc image rfl).elim
      | stopContainer | startContainer =>
          simp only [act, View.act]
          split
          · exact hrunning _
          · exact h
      | removeContainer _ | removeContainerForce =>
          simp only [act, View.act]
          split
          · rfl
          · exact h
      | snapshotContainer _ | resticSnapshot | restoreToImage _ | openEnvFile | writeEnvFile _
      | deleteEnvFile | removeImage _ | removeRepo =>
          simp only [act, View.act]
          split <;> exact h
      | _ => exact h
  | rename c =>
      cases c with
      | stopContainer other | startContainer other =>
          simp only [act, renameAct, View.act]
          repeat' split
          all_goals first | exact hrunning _ | exact h
      | removeContainer other =>
          simp only [act, renameAct, View.act]
          repeat' split
          all_goals first | rfl | exact h
      | _ => exact h
  | restartContainer =>
      simp only [act]
      split
      · exact hrunning true
      · exact h
  | _ => exact h

theorem inert_onRename {α : Type} (p : Rename.Op α) : Inert (onRename p) := by
  induction p with
  | ret r => trivial
  | call c k ih => exact ⟨fun image => Call.noConfusion, fun r _ => ih r⟩

theorem inert_prog
    (name : String) (kind : Kind) :
    Inert (kind.prog name) := by
  cases kind with
  | rename new => exact inert_onRename _
  | start | stop | destroy | restart =>
      refine ⟨by simp, ?_⟩
      rintro status rfl
      trivial

/-! ## What every run keeps -/

def Handler.marks : Handler → Marks
  | .working _ task => task.marks
  | _ => .none

/-- The marks of the handler that holds the lock. -/
def World.held (w : World) : Nat :=
  match w.holder with
  | none => 0
  | some h => (w.handlers h).marks.count

/-- A task will drop what it has taken, and marks the rebuild that it has open. -/
structure TaskKept (task : Task) : Prop where
  balanced : Balanced (fun _ m => m = .none) task.prog task.marks
  opened : task.opened = true → task.marks.rebuild = true

/-- A handler at work holds the lock. -/
structure Working (w : World) (h : Nat) (kind : Kind) (task : Task) : Prop where
  lock : w.holder = some h
  kept : TaskKept task
  plain : kind.detached = false → Only Plain task.prog ∧ task.marks = .none
  inert : w.interrupted = true → Inert task.prog

structure Kept (w : World) : Prop where
  marks : w.marks = w.boot.marks.count + w.held
  boot : TaskKept w.boot
  working : ∀ h kind task, w.handlers h = .working kind task → Working w h kind task
  closed : w.boot.opened = true → ∀ h, (w.handlers h).active = false
  interrupted : w.interrupted = true → w.view.container = none

/-- Whether the next call of a task opens its rebuild. -/
def Task.opens (task : Task) : Bool :=
  match task.prog with
  | .call (.docker .stopContainer) _ => task.marks.rebuild
  | .call (.docker (.snapshotContainer _)) _ => task.marks.rebuild
  | _ => false

/-- The reconcile opens no rebuild while a handler is on its way, and no rename comes in while the
reconcile has one open. -/
def Orderly (w : World) : Label → Prop
  | .boot _ => w.boot.opened = false → w.boot.opens = true → ∀ h, (w.handlers h).active = false
  | .request _ (.rename _) => w.boot.opened = false
  | _ => True

variable {name : String} {w : World}

theorem TaskKept.fresh
    {p : Op Unit}
    (h : Balanced (fun _ m => m = .none) p .none) :
    TaskKept (.fresh p) :=
  ⟨h, fun hopened => by cases hopened⟩

/-- One call of a task. -/
theorem advance_eq
    {v v' : View} {marks marks' : Nat} {task task' : Task} {t : CallTick}
    (h : task.advance name v marks t = some (v', marks', task')) :
    ∃ c k, task.prog = .call c k ∧ v' = (act name v c t).2 ∧ marks' = countAfter c marks ∧
      task' =
        { prog := k (act name v c t).1
          marks := task.marks.after c
          opened := openedAfter task.marks task.opened c (act name v c t).1 } := by
  unfold Task.advance at h
  split at h
  · cases h
  · next c k hprog =>
      simp only [Option.some.injEq, Prod.mk.injEq] at h
      obtain ⟨rfl, rfl, rfl⟩ := h
      exact ⟨c, k, hprog, rfl, rfl, rfl⟩

theorem openedAfter_marked
    {m : Marks} {opened : Bool} {c : Call} {r : Answer c}
    (h : opened = true → m.rebuild = true)
    (hafter : openedAfter m opened c r = true) :
    (m.after c).rebuild = true := by
  have hmarked : (opened || m.rebuild) = true → m.rebuild = true := by
    intro hor
    rcases Bool.or_eq_true_iff.1 hor with hopened | hrebuild
    · exact h hopened
    · exact hrebuild
  cases c with
  | docker c =>
      cases c with
      | stopContainer | snapshotContainer _ => exact hmarked hafter
      | createContainer _ => exact h (Bool.and_eq_true_iff.1 hafter).1
      | _ => exact h hafter
  | markRebuild => rfl
  | dropRebuild => cases hafter
  | _ => exact h hafter

theorem count_after
    {m : Marks} {c : Call} {others : Nat}
    (h : m.allows c) :
    countAfter c (m.count + others) = (m.after c).count + others := by
  obtain ⟨pending, rebuild⟩ := m
  cases c with
  | markPending | dropPending =>
      obtain rfl : pending = _ := h
      simp only [countAfter, Marks.after, Marks.count, Bool.toNat_true, Bool.toNat_false]
      omega
  | markRebuild | dropRebuild =>
      obtain rfl : rebuild = _ := h
      simp only [countAfter, Marks.after, Marks.count, Bool.toNat_true, Bool.toNat_false]
      omega
  | _ => rfl

theorem TaskKept.advance
    {v v' : View} {marks marks' : Nat} {task task' : Task} {t : CallTick}
    (hkept : TaskKept task)
    (h : task.advance name v marks t = some (v', marks', task')) :
    TaskKept task' ∧
      ∀ others, marks = task.marks.count + others → marks' = task'.marks.count + others := by
  obtain ⟨c, k, hprog, -, rfl, rfl⟩ := advance_eq h
  obtain ⟨hallows, hrest⟩ := hprog ▸ hkept.balanced
  refine ⟨⟨hrest _, openedAfter_marked hkept.opened⟩, ?_⟩
  rintro others rfl
  exact count_after hallows

/-- A rebuild that is open has a mark in the tracker. -/
theorem Kept.marked
    (h : Kept w)
    (hopened : w.boot.opened = true) :
    0 < w.marks := by
  have hrebuild := h.boot.opened hopened
  rw [h.marks, Marks.count, hrebuild, Bool.toNat_true]
  omega

theorem held_setHandler
    {h : Nat} {handler : Handler}
    (hsame : handler.marks.count = (w.handlers h).marks.count) :
    (w.setHandler h handler).held = w.held := by
  unfold World.held World.setHandler
  cases hholder : w.holder with
  | none => simp
  | some j =>
      simp only
      by_cases hj : j = h
      · subst hj
        rw [Function.update_self, hsame]
      · rw [Function.update_of_ne hj]

/-- A handler that waits or ends holds no marks and has no call to make. -/
def Handler.idle : Handler → Bool
  | .working _ _ => false
  | _ => true

theorem Handler.marks_of_idle
    {handler : Handler}
    (h : handler.idle = true) :
    handler.marks = .none := by
  cases handler <;> first | rfl | cases h

theorem working_setHandler
    {h j : Nat} {handler : Handler} {kind : Kind} {task : Task}
    (hidle : handler.idle = true)
    (hworking : (w.setHandler h handler).handlers j = .working kind task) :
    j ≠ h ∧ w.handlers j = .working kind task := by
  by_cases hj : j = h
  · subst hj
    simp only [World.setHandler, Function.update_self] at hworking
    subst hworking
    cases hidle
  · simp only [World.setHandler, Function.update_of_ne hj] at hworking
    exact ⟨hj, hworking⟩

/-- A handler that is not at work moves on without taking up work. -/
theorem Kept.setIdle
    {h : Nat} {handler : Handler}
    (hw : Kept w)
    (hbefore : (w.handlers h).idle = true)
    (hidle : handler.idle = true)
    (hclosed : w.boot.opened = true → handler.active = false) :
    Kept (w.setHandler h handler) where
  marks := by
    rw [held_setHandler (by rw [Handler.marks_of_idle hidle, Handler.marks_of_idle hbefore])]
    exact hw.marks
  boot := hw.boot
  working j kind task hworking := by
    obtain ⟨-, hworking⟩ := working_setHandler hidle hworking
    exact { hw.working j kind task hworking with }
  closed hopened j := by
    by_cases hj : j = h
    · subst hj
      simpa [World.setHandler] using hclosed hopened
    · simpa [World.setHandler, hj] using hw.closed hopened j
  interrupted := hw.interrupted

theorem Kept.request
    {h : Nat} {kind : Kind} {w' : World}
    (hw : Kept w)
    (hok : Orderly w (.request h kind))
    (hstep : step name w (.request h kind) = some w') :
    Kept w' := by
  simp only [step] at hstep
  split at hstep
  · next habsent =>
      split at hstep
      · cases hstep
        exact hw.setIdle (by rw [habsent]; rfl) rfl fun _ => rfl
      · next htest =>
          cases hstep
          refine hw.setIdle (by rw [habsent]; rfl) rfl fun hopened => ?_
          have hmarked := hw.marked hopened
          cases kind with
          | rename new =>
              have hclosed : w.boot.opened = false := hok
              rw [hclosed] at hopened
              cases hopened
          | start | stop | restart | destroy =>
              simp [Kind.ensuresNotRebuilding, hmarked] at htest
  · cases hstep

/-- The holder of the lock is the only handler at work. -/
theorem Kept.unique
    {h j : Nat} {kind kind' : Kind} {task task' : Task}
    (hw : Kept w)
    (hh : w.handlers h = .working kind task)
    (hj : w.handlers j = .working kind' task') :
    h = j := by
  have hlock := (hw.working h kind task hh).lock
  rw [(hw.working j kind' task' hj).lock] at hlock
  exact (Option.some.inj hlock).symm

theorem Kept.held_eq
    {h : Nat} {kind : Kind} {task : Task}
    (hw : Kept w)
    (hh : w.handlers h = .working kind task) :
    w.held = task.marks.count := by
  rw [World.held, (hw.working h kind task hh).lock]
  simp only [hh, Handler.marks]

/-- A handler that holds no marks gives the lock back. -/
theorem Kept.leave
    {h : Nat} {kind : Kind} {task : Task}
    (hw : Kept w)
    (hh : w.handlers h = .working kind task)
    (hmarks : task.marks = .none) :
    Kept (w.leave h) where
  marks := by
    change w.marks = w.boot.marks.count + 0
    rw [hw.marks, hw.held_eq hh, hmarks]
    rfl
  boot := hw.boot
  working j kind' task' hj := by
    have hidle : Handler.done.idle = true := rfl
    obtain ⟨hne, hj⟩ := working_setHandler hidle hj
    exact (hne (hw.unique hj hh)).elim
  closed hopened j := by
    by_cases hj : j = h
    · subst hj
      simp [World.leave, World.setHandler, Handler.active]
    · simpa [World.leave, World.setHandler, hj] using hw.closed hopened j
  interrupted := hw.interrupted

theorem Kept.acquire
    {h : Nat} {w' : World}
    (hw : Kept w)
    (hstep : step name w (.acquire h) = some w') :
    Kept w' := by
  simp only [step] at hstep
  split at hstep
  · next kind hwaiting hholder =>
      cases hstep
      have hnone : ∀ j kind task, w.handlers j ≠ .working kind task := by
        intro j kind task hj
        have hlock := (hw.working j kind task hj).lock
        rw [hholder] at hlock
        cases hlock
      refine ⟨?_, hw.boot, ?_, ?_, hw.interrupted⟩
      · have hmarks := hw.marks
        rw [World.held, hholder] at hmarks
        simp only [World.held, World.setHandler, Function.update_self, Handler.marks]
        exact hmarks
      · intro j kind' task' hj
        by_cases hjh : j = h
        · subst hjh
          simp only [World.setHandler, Function.update_self, Handler.working.injEq] at hj
          obtain ⟨rfl, rfl⟩ := hj
          exact
            ⟨rfl, .fresh (balanced_prog name kind),
              fun hattached => ⟨only_prog name hattached, rfl⟩, fun _ => inert_prog name kind⟩
        · simp only [World.setHandler, Function.update_of_ne hjh] at hj
          exact (hnone j kind' task' hj).elim
      · intro hopened j
        have hactive := hw.closed hopened h
        rw [hwaiting] at hactive
        cases hactive
  · cases hstep

theorem Kept.advance
    {h : Nat} {t : CallTick} {w' : World}
    (hw : Kept w)
    (hstep : step name w (.advance h t) = some w') :
    Kept w' := by
  simp only [step] at hstep
  split at hstep
  · next kind task hh =>
      split at hstep
      · cases hstep
      · next v marks task' hadvance =>
          cases hstep
          obtain ⟨hlock, hkept, hplain, hinert⟩ := hw.working h kind task hh
          obtain ⟨hkept', hcount⟩ := hkept.advance hadvance
          obtain ⟨c, k, hprog, rfl, -, rfl⟩ := advance_eq hadvance
          refine ⟨?_, hw.boot, ?_, ?_, ?_⟩
          · have hmarks := hw.marks
            rw [hw.held_eq hh, Nat.add_comm] at hmarks
            have hcount := hcount _ hmarks
            rw [Nat.add_comm] at hcount
            simp only [World.held, World.see, World.setHandler, hlock, Function.update_self,
              Handler.marks]
            exact hcount
          · intro j kind' task' hj
            by_cases hjh : j = h
            · subst hjh
              simp only [World.see, World.setHandler, Function.update_self,
                Handler.working.injEq] at hj
              obtain ⟨rfl, rfl⟩ := hj
              refine ⟨hlock, hkept', fun hattached => ?_, fun hinterrupted => ?_⟩
              · obtain ⟨honly, hnone⟩ := hplain hattached
                rw [hprog] at honly
                exact ⟨honly.2 _, by rw [honly.1.after, hnone]⟩
              · have hwas : w.interrupted = true := (Bool.and_eq_true_iff.1 hinterrupted).1
                have hinert := hinert hwas
                rw [hprog] at hinert
                exact hinert.2 _ (absent_act (hw.interrupted hwas) c t)
            · simp only [World.see, World.setHandler, Function.update_of_ne hjh] at hj
              exact (hjh (hw.unique hj hh)).elim
          · intro hopened j
            have hactive := hw.closed hopened h
            rw [hh] at hactive
            cases hactive
          · intro hinterrupted
            exact Option.isNone_iff_eq_none.1 (Bool.and_eq_true_iff.1 hinterrupted).2
  · cases hstep

theorem Kept.finish
    {h : Nat} {w' : World}
    (hw : Kept w)
    (hstep : step name w (.finish h) = some w') :
    Kept w' := by
  simp only [step] at hstep
  split at hstep
  · next kind task hh =>
      split at hstep
      · next r hprog =>
          cases hstep
          have hbalanced := (hw.working h kind task hh).kept.balanced
          rw [hprog] at hbalanced
          exact hw.leave hh hbalanced
      · cases hstep
  · cases hstep

theorem Kept.cancel
    {h : Nat} {w' : World}
    (hw : Kept w)
    (hstep : step name w (.cancel h) = some w') :
    Kept w' := by
  simp only [step] at hstep
  split at hstep
  · next kind hh =>
      split at hstep
      · cases hstep
      · cases hstep
        exact hw.setIdle (by rw [hh]; rfl) rfl fun _ => rfl
  · next kind task hh =>
      split at hstep
      · cases hstep
      · next hattached =>
          cases hstep
          have hplain := (hw.working h kind task hh).plain (by simpa using hattached)
          exact hw.leave hh hplain.2
  · cases hstep

/-- Another view, in which an interruption goes on only without a container. -/
theorem Kept.see
    (hw : Kept w) (v : View) :
    Kept (w.see v) where
  marks := hw.marks
  boot := hw.boot
  working h kind task hh :=
    { hw.working h kind task hh with
      inert := fun hinterrupted =>
        (hw.working h kind task hh).inert (Bool.and_eq_true_iff.1 hinterrupted).1 }
  closed := hw.closed
  interrupted hinterrupted :=
    Option.isNone_iff_eq_none.1 (Bool.and_eq_true_iff.1 hinterrupted).2

/-- A rebuild is open after a call that opens it, or was open before. -/
theorem opens_of_after
    {task : Task} {c : Call} {k : Answer c → Op Unit} {r : Answer c}
    (hprog : task.prog = .call c k)
    (hopened : openedAfter task.marks task.opened c r = true) :
    task.opened = true ∨ task.opens = true := by
  unfold Task.opens
  rw [hprog]
  cases c with
  | docker c =>
      cases c with
      | stopContainer | snapshotContainer _ => exact Bool.or_eq_true_iff.1 hopened
      | createContainer _ => exact .inl (Bool.and_eq_true_iff.1 hopened).1
      | _ => exact .inl hopened
  | dropRebuild => cases hopened
  | _ => exact .inl hopened

theorem Kept.bootStep
    {t : CallTick} {w' : World}
    (hw : Kept w)
    (hok : Orderly w (.boot t))
    (hstep : step name w (.boot t) = some w') :
    Kept w' := by
  simp only [step] at hstep
  split at hstep
  · cases hstep
  · next v marks task' hadvance =>
      cases hstep
      obtain ⟨hkept', hcount⟩ := hw.boot.advance hadvance
      obtain ⟨c, k, hprog, -, -, rfl⟩ := advance_eq hadvance
      have hsee := hw.see v
      refine ⟨hcount _ hw.marks, hkept', fun h kind task hh => ?_, ?_, hsee.interrupted⟩
      · exact { hsee.working h kind task hh with }
      · intro hopened
        cases hbefore : w.boot.opened with
        | true => exact hw.closed hbefore
        | false =>
            rcases opens_of_after hprog hopened with hwas | hopens
            · rw [hbefore] at hwas
              cases hwas
            · exact hok hbefore hopens

theorem Kept.step
    {a : Label} {w' : World}
    (hw : Kept w)
    (hok : Orderly w a)
    (hstep : Rebuilding.step name w a = some w') :
    Kept w' := by
  cases a with
  | request h kind => exact hw.request hok hstep
  | acquire h => exact hw.acquire hstep
  | advance h t => exact hw.advance hstep
  | finish h => exact hw.finish hstep
  | cancel h => exact hw.cancel hstep
  | boot t => exact hw.bootStep hok hstep
  | write =>
      cases hstep
      exact hw.see _
  | exit =>
      cases hstep
      exact hw.see _

theorem Start.kept
    {codeChanged : Bool}
    (h : Start codeChanged w) :
    Kept w where
  marks := by
    rw [h.marks, h.boot, World.held, h.holder]
    rfl
  boot := by
    rw [h.boot]
    exact .fresh (balanced_reconcileContainers codeChanged)
  working j kind task hj := by
    rw [h.handlers] at hj
    cases hj
  closed _ j := by
    rw [h.handlers]
    rfl
  interrupted := h.interrupted

theorem kept_of_reaches
    {codeChanged : Bool}
    (h : (machine name codeChanged).Reaches Orderly w) :
    Kept w :=
  h.invariant (fun _ => Start.kept) fun _ _ _ hw hok hstep => hw.step hok hstep

/-! ## The exclusion -/

/-- A rebuild of another party is open: the reconcile's, or that of another handler. -/
def RebuildOpen (w : World) (h : Nat) : Prop :=
  w.boot.opened = true ∨ ∃ j, j ≠ h ∧ (w.handlers j).opened = true

/-- A step of a handler leaves the container alone while a rebuild of another party is open, or
the one that was interrupted waits to be resumed. -/
def Excluded (name : String) (w : World) : Prop :=
  ∀ h a w', a.handler = some h → step name w a = some w' →
    RebuildOpen w h ∨ w.interrupted = true →
      w'.view.container = w.view.container

/-- A handler at work makes no call while a rebuild of another party is open. -/
theorem Kept.not_open
    {h : Nat} {kind : Kind} {task : Task}
    (hw : Kept w)
    (hh : w.handlers h = .working kind task) :
    ¬RebuildOpen w h := by
  rintro (hopened | ⟨j, hne, hopened⟩)
  · have hactive := hw.closed hopened h
    rw [hh] at hactive
    cases hactive
  · cases hj : w.handlers j with
    | working kind' task' => exact hne (hw.unique hj hh)
    | _ =>
        rw [hj] at hopened
        cases hopened

theorem Kept.excluded
    (hw : Kept w) :
    Excluded name w := by
  intro h a w' hhandler hstep hopen
  cases a with
  | request j kind =>
      simp only [Rebuilding.step] at hstep
      split at hstep
      · split at hstep <;> cases hstep <;> rfl
      · cases hstep
  | acquire j =>
      simp only [Rebuilding.step] at hstep
      split at hstep
      · cases hstep
        rfl
      · cases hstep
  | finish j =>
      simp only [Rebuilding.step] at hstep
      split at hstep
      · split at hstep
        · cases hstep
          rfl
        · cases hstep
      · cases hstep
  | cancel j =>
      simp only [Rebuilding.step] at hstep
      repeat' split at hstep
      all_goals cases hstep
      all_goals rfl
  | advance j t =>
      obtain rfl : j = h := Option.some.inj hhandler
      simp only [Rebuilding.step] at hstep
      split at hstep
      · next kind task hj =>
          split at hstep
          · cases hstep
          · next v marks task' hadvance =>
              cases hstep
              have hinterrupted := hopen.resolve_left (hw.not_open hj)
              obtain ⟨c, k, hprog, rfl, -, -⟩ := advance_eq hadvance
              have hinert := (hw.working j kind task hj).inert hinterrupted
              rw [hprog] at hinert
              have hnone := hw.interrupted hinterrupted
              exact (container_act hnone hinert.1 t).trans hnone.symm
      · cases hstep
  | boot t => cases hhandler
  | write => cases hhandler
  | exit => cases hhandler

/-- In every run in which the reconcile opens no rebuild while a handler is on its way, and no
rename comes in while the reconcile has one open, no handler acts on the container during a
rebuild of another party. -/
theorem rebuild_excludes_handlers
    {codeChanged : Bool}
    (h : (machine name codeChanged).Reaches Orderly w) :
    Excluded name w :=
  (kept_of_reaches h).excluded

/-! ## Runs -/

/-- What a rename hears where nothing of the other name exists. -/
def nothingElsewhere : (c : Rename.Call) → Rename.Answer c
  | .readMounts _ => []
  | .containerStatus _ | .removalStatus _ => .notFound
  | .inspectContainer _ => none
  | .readEnvPort _ | .readContainerEnv _ | .allocatePort => none
  | .nowEpochSecs => 0
  | .readConstitution _ => none
  | .loadProxy _ => none
  | .prepareEgress _ | .handoffShutdownReason _ | .stopContainer _ | .snapshotContainer _ _
  | .removeContainer _ | .removeSidecar _ | .renameProxy _ _ | .writeConstitution _ _
  | .deleteEnvFile _ | .deleteConstitutionFile _ | .removeAgentNetwork _ | .ensureAgentNetwork _
  | .ensureSidecar _ | .openEnvFile _ | .writeEnvFile _ _ | .ensureConstitutionFile _
  | .createContainer _ _ _ | .handoffBootReason _ | .removeImage _ | .renameRepo _ _
  | .moveSettings _ _ | .saveSettings | .dropNotification _ | .startContainer _ => true

/-- A call that works, and whose question is answered with yes. -/
def works : CallTick where
  tick := { outcome := .ok, elapsed := 1, writes := false, dead := false, port := some 7000 }
  flag := true
  elsewhere := nothingElsewhere

/-- A boot that finds a running agent. -/
def bootWorld : World where
  view :=
    { container := some { fs := 0, running := true, image := .base }
      snapshots := []
      env := some (some 7000)
      repo := []
      restoreImage := none
      latest := some 0
      fresh := 1
      now := 0 }
  marks := 0
  holder := none
  handlers _ := .absent
  boot := .fresh (reconcileContainers false)
  interrupted := false

theorem bootWorld_reaches
    {ok : World → Label → Prop} :
    (machine name false).Reaches ok bootWorld :=
  .start ⟨rfl, rfl, fun _ => rfl, rfl, fun h => by cases h⟩

/-- Steps of the reconcile while no handler is on its way. -/
theorem admits_boots
    {t : CallTick} {n : Nat}
    (h : ∀ j, (w.handlers j).active = false) :
    (machine name false).Admits Orderly w (List.replicate n (.boot t)) := by
  induction n generalizing w with
  | zero => trivial
  | succ n ih =>
      refine ⟨fun _ _ => h, fun w' hstep => ih fun j => ?_⟩
      change step name w (.boot t) = some w' at hstep
      simp only [step] at hstep
      split at hstep
      · cases hstep
      · cases hstep
        exact h j

/-- The reconcile has opened a rebuild. -/
theorem rebuild_excludes_handlers_opened :
    ((machine "ada" false).runTo bootWorld (List.replicate 15 (.boot works))).boot.opened = true ∧
      Excluded "ada" ((machine "ada" false).runTo bootWorld (List.replicate 15 (.boot works))) :=
  ⟨by decide +kernel,
    rebuild_excludes_handlers
      (bootWorld_reaches.runTo _ (admits_boots fun _ => rfl) (by decide +kernel))⟩

/-- A start passes its test and takes the lock; the reconcile marks the agent and stops its
container; and the start finds it stopped. -/
def startedRun : List Label :=
  [.request 0 .start, .acquire 0] ++ List.replicate 15 (.boot works) ++ [.advance 0 works]

theorem start_acts_during_rebuild :
    ¬∀ (name : String) (codeChanged : Bool) (w : World),
        (machine name codeChanged).Reaches Machine.always w → Excluded name w := by
  intro h
  have hreaches :=
    (bootWorld_reaches : (machine "ada" false).Reaches Machine.always bootWorld).runTo startedRun
      (Machine.admits_always _ _ _) (by decide +kernel)
  have hexcluded := h "ada" false _ hreaches 0 (.advance 0 works)
  have hbefore :
      (((machine "ada" false).runTo bootWorld startedRun).view.container.map (·.running)) =
        some false := by decide +kernel
  have hopened : ((machine "ada" false).runTo bootWorld startedRun).boot.opened = true := by
    decide +kernel
  have hafter :
      (step "ada" ((machine "ada" false).runTo bootWorld startedRun) (.advance 0 works)).map
        (fun w => w.view.container.map (·.running)) = some (some true) := by decide +kernel
  obtain ⟨w', hstep, hrunning⟩ := Option.map_eq_some_iff.1 hafter
  rw [hexcluded w' rfl hstep (.inl (.inl hopened)), hbefore] at hrunning
  cases hrunning

end Rebuilding
end Vestad
end Vesta
