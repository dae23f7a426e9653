import Vesta.Vestad.Settings.Store

/-!
# Saved settings

The settings file parses at all times and agrees with memory between two saves,
along every interleaving in which each step is orderly.

The proof gives every task an assertion by its next request.  A handler past
`lock` holds the lock and carries the settings in memory.  Whoever has opened the
temporary file knows the inode and, after its write, what that inode holds.  The
reconcile carries settings that answer its question as memory does.  Two tasks
never both hold the lock and never both use the temporary file.
-/

namespace Vesta
namespace Vestad
namespace SettingsStore

open Lib
open Prog

/-! ## The order of the requests -/

/-- What may follow a request and its answer. -/
def follows : (c : Call) → Answer c → Call → Prop
  | .lock, _, .change _ => True
  | .change _, changed, .openTmp .save value => value = changed
  | .readStored q, stored, .openTmp (.load q') value => q' = q ∧ value = loaded stored
  | .readStored q, stored, .act q' value => q.acts = true ∧ q' = q ∧ value = loaded stored
  | .readStored _, _, .openTmp .lan _ => True
  | .openTmp writer value, fd, .writeTmp writer' fd' value' =>
      writer' = writer ∧ fd' = fd ∧ value' = value
  | .writeTmp writer _ value, _, .renameTmp writer' value' => writer' = writer ∧ value' = value
  | .renameTmp .save _, _, .unlock => True
  | .renameTmp (.load q) value, _, .act q' value' => q.acts = true ∧ q' = q ∧ value' = value
  | .renameTmp (.load _) _, _, .openTmp .lan _ => True
  | _, _, _ => False

abbrev Ordered {α : Type} (p : Op α) : Prop := Consecutive follows p

/-- Writing the file is in order when what comes after the rename is. -/
theorem ordered_writeJsonAtomic
    {α : Type} {writer : Writer} {value : Settings} {f : Unit → Op α}
    (hnext : ∀ c ∈ (f ()).next, follows (.renameTmp writer value) () c)
    (hf : Ordered (f ())) :
    Ordered (writeJsonAtomic writer value >>= f) := by
  intro fd
  constructor
  · rintro c ⟨⟩
    exact ⟨rfl, rfl, rfl⟩
  · intro _
    constructor
    · rintro c ⟨⟩
      exact ⟨rfl, rfl⟩
    · intro _
      exact ⟨hnext, hf⟩

theorem ordered_changeSettings (f : Settings → Settings) : Ordered (changeSettings f) := by
  intro _
  constructor
  · rintro c ⟨⟩
    trivial
  · intro changed
    constructor
    · rintro c ⟨⟩
      rfl
    · refine ordered_writeJsonAtomic ?_ ?_
      · rintro c ⟨⟩
        trivial
      · intro _
        exact ⟨by rintro c ⟨⟩, trivial⟩

/-- A load is in order when what is done with the settings it gives is. -/
theorem ordered_loadSettings
    {α : Type} {q : Question} {f : Settings → Op α}
    (hread : ∀ stored, ∀ c ∈ (f (loaded stored)).next, follows (.readStored q) stored c)
    (hnext : ∀ value, ∀ c ∈ (f value).next, follows (.renameTmp (.load q) value) () c)
    (hf : ∀ value, Ordered (f value)) :
    Ordered (loadSettings q >>= f) := by
  intro stored
  cases hstored : stored with
  | ok found =>
      constructor
      · rintro c ⟨⟩
        exact ⟨rfl, rfl⟩
      · exact ordered_writeJsonAtomic (f := fun _ => f (loaded (.ok found))) (hnext _) (hf _)
  | error e => exact ⟨hread (.error e), hf _⟩

theorem ordered_reconcile
    {q : Question}
    (hq : q.acts = true) :
    Ordered (reconcile q) := by
  refine ordered_loadSettings ?_ ?_ ?_
  · rintro stored c ⟨⟩
    exact ⟨hq, rfl, rfl⟩
  · rintro value c ⟨⟩
    exact ⟨hq, rfl, rfl⟩
  · intro value _
    exact ⟨by rintro c ⟨⟩, trivial⟩

theorem ordered_setExposeLan (expose : Bool) : Ordered (setExposeLan expose) := by
  refine ordered_loadSettings ?_ ?_ ?_
  · intro stored c hc
    split at hc
    · cases hc
    · cases hc
      trivial
  · intro stored c hc
    split at hc
    · cases hc
    · cases hc
      trivial
  · intro value
    split
    · trivial
    · exact ordered_writeJsonAtomic (f := pure) (by rintro c ⟨⟩) trivial

theorem ordered_prog (op : Operation) : Ordered op.prog := by
  cases op with
  | changeSettings f => exact ordered_changeSettings f
  | wantsRunning name => exact ordered_reconcile rfl
  | mountsFor name => exact ordered_reconcile rfl
  | exposeLanSetting =>
      exact ordered_loadSettings (by rintro _ c ⟨⟩) (by rintro _ c ⟨⟩) fun _ => trivial
  | setExposeLan expose => exact ordered_setExposeLan expose

/-- The requests an operation may start with. -/
def isEntry : Call → Bool
  | .lock => true
  | .readStored _ => true
  | _ => false

theorem isEntry_of_next_prog
    {op : Operation} {c : Call}
    (h : op.prog.next = some c) :
    isEntry c = true := by
  cases op <;> cases h <;> rfl

/-! ## The assertions -/

/-- What holds of the world. -/
structure WorldInv (w : World) : Prop where
  whole : ∃ settings, w.stored = .ok (some settings)
  saved : w.locked = false → w.stored = .ok (some w.memory)
  target : ∀ i, w.target = some i → i < w.next
  tmp : ∀ i, w.tmp = some i → i < w.next ∧ w.target ≠ some i
  acted : ∀ done ∈ w.acts, done.decided = done.latest

/-- A load whose answer is acted on carries settings that answer as memory does. -/
def Current (q : Question) (value : Settings) (w : World) : Prop :=
  q.acts = true → q.answer value = q.answer w.memory

/-- What a writer knows of the value it writes. -/
def WriterInv : Writer → Settings → World → Prop
  | .save, value, w => w.locked = true ∧ value = w.memory
  | .load q, value, w => Current q value w
  | .lan, _, _ => True

/-- What a task knows of the temporary file it has opened, or written. -/
def TmpInv (w : World) (content : Content) (fd : Nat) : Prop :=
  w.tmp = some fd ∧ w.inodes[fd]? = some content

/-- What a task knows before its next request. -/
def CallInv : Call → World → Prop
  | .lock, _ => True
  | .change _, w => w.locked = true
  | .unlock, w => w.locked = true ∧ w.stored = .ok (some w.memory)
  | .readStored _, _ => True
  | .openTmp writer value, w => WriterInv writer value w
  | .writeTmp writer fd value, w => WriterInv writer value w ∧ TmpInv w .empty fd
  | .renameTmp writer value, w => WriterInv writer value w ∧ ∃ fd, TmpInv w (.json value) fd
  | .act q value, w => q.acts = true ∧ q.answer value = q.answer w.memory

structure TaskInv (p : Op Unit) (w : World) : Prop where
  ordered : Ordered p
  next : ∀ c ∈ p.next, CallInv c w

/-- A request between the opening of the temporary file and its rename. -/
def onTmp : Call → Bool
  | .writeTmp .. => true
  | .renameTmp .. => true
  | _ => false

def Writer.locks : Writer → Bool
  | .save => true
  | .load _ => false
  | .lan => false

/-- A request of a handler that holds the lock. -/
def inLock : Call → Bool
  | .change _ => true
  | .openTmp writer _ => writer.locks
  | .writeTmp writer _ _ => writer.locks
  | .renameTmp writer _ => writer.locks
  | .unlock => true
  | _ => false

/-- Two tasks do not both use the temporary file and do not both hold the lock. -/
def Apart (p q : Op Unit) : Prop :=
  ∀ c ∈ p.next, ∀ d ∈ q.next,
    ¬(onTmp c = true ∧ onTmp d = true) ∧ ¬(inLock c = true ∧ inLock d = true)

theorem Apart.symm
    {p q : Op Unit}
    (h : Apart p q) :
    Apart q p := by
  intro d hd c hc
  obtain ⟨htmp, hlock⟩ := h c hc d hd
  exact ⟨fun h => htmp ⟨h.2, h.1⟩, fun h => hlock ⟨h.2, h.1⟩⟩

theorem onTmp_of_usesTmp
    {p : Op Unit} {c : Call}
    (h : usesTmp p = false) (hc : p.next = some c) :
    onTmp c = false := by
  cases p with
  | ret r => cases hc
  | call d k =>
      cases hc
      cases c <;> first | rfl | cases h

theorem entry_apart
    {op : Operation} {q : Op Unit} :
    Apart op.prog q := by
  intro c hc d _
  have hentry := isEntry_of_next_prog hc
  cases c with
  | lock | readStored =>
      exact ⟨fun h => Bool.noConfusion h.1, fun h => Bool.noConfusion h.1⟩
  | change | unlock | openTmp | writeTmp | renameTmp | act => cases hentry

theorem entry_callInv
    {op : Operation} {c : Call} (w : World)
    (hc : op.prog.next = some c) :
    CallInv c w := by
  have hentry := isEntry_of_next_prog hc
  cases c with
  | lock | readStored => trivial
  | change | unlock | openTmp | writeTmp | renameTmp | act => cases hentry

theorem WriterInv.locked
    {writer : Writer} {value : Settings} {w : World}
    (h : WriterInv writer value w) (hlocks : writer.locks = true) :
    w.locked = true := by
  cases writer with
  | save => exact h.1
  | load | lan => cases hlocks

/-- Whoever is past `lock` holds the lock. -/
theorem locked_of_inLock
    {c : Call} {w : World}
    (hc : CallInv c w) (h : inLock c = true) :
    w.locked = true := by
  cases c with
  | lock | readStored | act => cases h
  | change => exact hc
  | unlock => exact hc.1
  | openTmp writer value => exact WriterInv.locked hc h
  | writeTmp writer fd value => exact hc.1.locked h
  | renameTmp writer value => exact hc.1.locked h

/-! ## What a request changes -/

/-- The stored settings depend on the inode that `settings.json` names. -/
theorem stored_congr
    {w w' : World}
    (htarget : w'.target = w.target)
    (hinode : ∀ i, w.target = some i → w'.inodes[i]? = w.inodes[i]?) :
    w'.stored = w.stored := by
  unfold World.stored
  rw [htarget]
  cases h : w.target with
  | none => rfl
  | some i =>
      dsimp only
      rw [hinode i h]

theorem Current.congr
    {q : Question} {value : Settings} {w w' : World}
    (h : Current q value w)
    (hmemory : w'.memory = w.memory) :
    Current q value w' := by
  intro hq
  rw [hmemory]
  exact h hq

theorem WriterInv.congr
    {writer : Writer} {value : Settings} {w w' : World}
    (h : WriterInv writer value w)
    (hmemory : w'.memory = w.memory)
    (hlocked : writer.locks = true → w'.locked = w.locked) :
    WriterInv writer value w' := by
  cases writer with
  | save => exact ⟨(hlocked rfl).trans h.1, h.2.trans hmemory.symm⟩
  | load q => exact Current.congr h hmemory
  | lan => trivial

/-- What an assertion speaks of. -/
theorem CallInv.congr
    {c : Call} {w w' : World}
    (hc : CallInv c w)
    (hmemory : w'.memory = w.memory)
    (hlocked : inLock c = true → w'.locked = w.locked)
    (hstored : c = .unlock → w'.stored = w.stored)
    (htmp : onTmp c = true → w'.tmp = w.tmp ∧ w'.inodes = w.inodes) :
    CallInv c w' := by
  cases c with
  | lock | readStored => trivial
  | change => exact (hlocked rfl).trans hc
  | unlock => exact ⟨(hlocked rfl).trans hc.1, by rw [hstored rfl, hmemory]; exact hc.2⟩
  | openTmp writer value => exact WriterInv.congr hc hmemory hlocked
  | writeTmp writer fd value =>
      obtain ⟨hname, hinode⟩ := hc.2
      obtain ⟨htmp, hinodes⟩ := htmp rfl
      exact ⟨hc.1.congr hmemory hlocked, htmp.trans hname, by rw [hinodes]; exact hinode⟩
  | renameTmp writer value =>
      obtain ⟨hwriter, fd, hname, hinode⟩ := hc
      obtain ⟨htmp, hinodes⟩ := htmp rfl
      exact ⟨hwriter.congr hmemory hlocked, fd, htmp.trans hname, by rw [hinodes]; exact hinode⟩
  | act q value => exact ⟨hc.1, hc.2.trans (by rw [hmemory])⟩

/-- Opening gives an inode that `settings.json` does not name. -/
theorem exec_openTmp
    {w : World} (hw : WorldInv w)
    (writer : Writer) (value : Settings) (t : Tick) :
    ∃ fd next,
      fd < next ∧ w.next ≤ next ∧ w.target ≠ some fd ∧
        exec w (.openTmp writer value) t =
          (fd, { w with
                  tmp := some fd
                  inodes := w.inodes.insert fd .empty
                  next := next }) := by
  cases htmp : w.tmp with
  | some fd =>
      obtain ⟨hlt, hne⟩ := hw.tmp fd htmp
      refine ⟨fd, w.next, hlt, le_rfl, hne, ?_⟩
      simp only [exec, htmp]
  | none =>
      refine ⟨w.next, w.next + 1, by omega, by omega, ?_, ?_⟩
      · intro htarget
        exact absurd (hw.target _ htarget) (lt_irrefl _)
      · simp only [exec, htmp]

/-- The only writer writes the whole text. -/
theorem exec_writeTmp
    {w : World} {fd : Nat}
    (h : TmpInv w .empty fd)
    (writer : Writer) (value : Settings) (t : Tick) :
    exec w (.writeTmp writer fd value) t =
      ((), { w with inodes := w.inodes.insert fd (.json value) }) := by
  simp [exec, h.2]

theorem exec_renameTmp
    {w : World} {fd : Nat} {content : Content}
    (h : TmpInv w content fd)
    (writer : Writer) (value : Settings) (t : Tick) :
    exec w (.renameTmp writer value) t = ((), { w with tmp := none, target := some fd }) := by
  simp [exec, h.1]

/-- A rename installs what the temporary file holds. -/
theorem stored_renameTmp
    {w : World} {fd : Nat} {value : Settings}
    (h : TmpInv w (.json value) fd) :
    World.stored { w with tmp := none, target := some fd } = .ok (some value) := by
  simp [World.stored, h.2]

/-- What is written to the temporary file is not in `settings.json`. -/
theorem stored_insert
    {w : World} {fd : Nat}
    (h : w.target ≠ some fd)
    (tmp : Option Nat) (content : Content) (next : Nat) :
    World.stored { w with tmp := tmp, inodes := w.inodes.insert fd content, next := next } =
      w.stored := by
  refine stored_congr rfl fun i hi => ?_
  rw [Std.ExtTreeMap.getElem?_insert]
  split
  · rename_i heq
    have : fd = i := by simpa using heq
    exact absurd (this ▸ hi) h
  · rfl

/-- A task comes to use the temporary file by opening it. -/
theorem onTmp_of_follows
    {c d : Call} {r : Answer c}
    (h : follows c r d) (hd : onTmp d = true) :
    onTmp c = true ∨ ∃ writer value, c = .openTmp writer value := by
  unfold follows at h
  split at h
  case h_6 writer value _ _ _ _ => exact .inr ⟨writer, value, rfl⟩
  case h_7 => exact .inl rfl
  case h_11 => exact h.elim
  all_goals cases hd

/-- A task comes to hold the lock by taking it. -/
theorem inLock_of_follows
    {c d : Call} {r : Answer c}
    (h : follows c r d) (hd : inLock d = true) :
    inLock c = true ∨ c = .lock := by
  unfold follows at h
  split at h
  case h_1 => exact .inr rfl
  case h_6 =>
    obtain ⟨rfl, -⟩ := h
    exact .inl hd
  case h_7 =>
    obtain ⟨rfl, -⟩ := h
    exact .inl hd
  case h_11 => exact h.elim
  all_goals first | exact .inl rfl | cases hd

/-! ## What a step keeps -/

theorem orderlyCall_of_step
    {s : State} {id : Nat} {tick : Tick} {c : Call} {k : Answer c → Op Unit}
    (hok : Orderly s (.step id tick))
    (hp : s.tasks[id]? = some (.call c k)) :
    OrderlyCall s c :=
  hok c (by simp [hp, Prog.next])

theorem worldInv_step
    {s : State} {c : Call}
    (hw : WorldInv s.world) (hc : CallInv c s.world) (hok : OrderlyCall s c)
    (t : Tick) :
    WorldInv (exec s.world c t).2 := by
  cases c with
  | lock => exact ⟨hw.whole, fun h => Bool.noConfusion h, hw.target, hw.tmp, hw.acted⟩
  | change f =>
      refine ⟨hw.whole, ?_, hw.target, hw.tmp, hw.acted⟩
      intro hunlocked
      have hlocked : s.world.locked = true := hc
      exact absurd (hlocked.symm.trans hunlocked) Bool.noConfusion
  | unlock => exact ⟨hw.whole, fun _ => hc.2, hw.target, hw.tmp, hw.acted⟩
  | readStored q => exact hw
  | openTmp writer value =>
      obtain ⟨fd, next, hlt, hle, hne, heq⟩ := exec_openTmp hw writer value t
      rw [heq]
      have hstored := stored_insert hne (some fd) .empty next
      refine ⟨?_, ?_, ?_, ?_, hw.acted⟩
      · obtain ⟨settings, h⟩ := hw.whole
        exact ⟨settings, hstored.trans h⟩
      · intro hunlocked
        exact hstored.trans (hw.saved hunlocked)
      · intro i hi
        exact lt_of_lt_of_le (hw.target i hi) hle
      · rintro i ⟨⟩
        exact ⟨hlt, hne⟩
  | writeTmp writer fd value =>
      obtain ⟨-, htmp⟩ := hc
      rw [exec_writeTmp htmp]
      have hstored := stored_insert (hw.tmp fd htmp.1).2 s.world.tmp (.json value) s.world.next
      refine ⟨?_, ?_, hw.target, hw.tmp, hw.acted⟩
      · obtain ⟨settings, h⟩ := hw.whole
        exact ⟨settings, hstored.trans h⟩
      · intro hunlocked
        exact hstored.trans (hw.saved hunlocked)
  | renameTmp writer value =>
      obtain ⟨hwriter, fd, htmp⟩ := hc
      rw [exec_renameTmp htmp]
      have hstored := stored_renameTmp htmp
      refine ⟨⟨value, hstored⟩, ?_, ?_, ?_, hw.acted⟩
      · intro hunlocked
        -- a load or the LAN setting has written what was stored, and that was saved
        have hkept : s.world.stored = .ok (some value) := by
          cases writer with
          | save => exact absurd (hwriter.1.symm.trans hunlocked) Bool.noConfusion
          | load | lan => exact hok
        rw [hstored, ← hkept]
        exact hw.saved hunlocked
      · rintro i ⟨⟩
        exact (hw.tmp fd htmp.1).1
      · rintro i ⟨⟩
  | act q settings =>
      refine ⟨hw.whole, hw.saved, hw.target, hw.tmp, ?_⟩
      intro done hdone
      rcases List.mem_cons.1 hdone with rfl | hdone
      · exact hc.2
      · exact hw.acted done hdone

/-- The task that is answered knows what its next request needs. -/
theorem callInv_next
    {s : State} {c d : Call} {t : Tick}
    (hw : WorldInv s.world) (hc : CallInv c s.world) (hok : OrderlyCall s c)
    (h : follows c (exec s.world c t).1 d) :
    CallInv d (exec s.world c t).2 := by
  unfold follows at h
  split at h
  case h_1 => exact rfl
  case h_2 f value _ => exact ⟨hc, h⟩
  case h_3 q _ _ _ _ =>
    obtain ⟨rfl, hvalue⟩ := h
    intro hq
    rw [hvalue]
    exact hok hq
  case h_4 =>
    obtain ⟨hq, rfl, hvalue⟩ := h
    refine ⟨hq, ?_⟩
    rw [hvalue]
    exact hok hq
  case h_5 => trivial
  case h_6 writer value _ _ _ _ =>
    obtain ⟨rfl, hfd, rfl⟩ := h
    obtain ⟨fd, next, -, -, -, heq⟩ := exec_openTmp hw _ _ t
    rw [heq] at hfd ⊢
    subst hfd
    exact ⟨WriterInv.congr hc rfl fun _ => rfl, rfl, by simp⟩
  case h_7 =>
    obtain ⟨rfl, rfl⟩ := h
    obtain ⟨hwriter, htmp⟩ := hc
    rw [exec_writeTmp htmp]
    exact ⟨WriterInv.congr hwriter rfl fun _ => rfl, _, htmp.1, by simp⟩
  case h_8 =>
    obtain ⟨hwriter, fd, htmp⟩ := hc
    rw [exec_renameTmp htmp]
    exact ⟨hwriter.1, (stored_renameTmp htmp).trans (by rw [hwriter.2])⟩
  case h_9 =>
    obtain ⟨hq, rfl, rfl⟩ := h
    obtain ⟨hwriter, fd, htmp⟩ := hc
    rw [exec_renameTmp htmp]
    exact ⟨hq, hwriter hq⟩
  case h_10 => trivial
  case h_11 => exact h.elim

/-- A change of the settings leaves what the reconcile has read as it is asked to. -/
theorem callInv_change
    {f : Settings → Settings} {s : State} {d : Call} {j : Nat} {p : Op Unit}
    (hok : OrderlyCall s (.change f))
    (hp : s.tasks[j]? = some p) (hnext : p.next = some d)
    (hd : CallInv d s.world)
    (hlock : inLock d = false) :
    CallInv d { s.world with memory := f s.world.memory } := by
  have hreads := hok (j, p) (Std.ExtTreeMap.mem_toList_iff_getElem?_eq_some.2 hp)
  cases p with
  | ret r => cases hnext
  | call c k =>
      cases hnext
      have hwriter :
          ∀ writer value,
            WriterInv writer value s.world → writer.locks = false →
            (∀ q, writer = .load q → inFlight (.call d k) = some (q, value)) →
            WriterInv writer value { s.world with memory := f s.world.memory } := by
        intro writer value h hlocks hflight
        cases writer with
        | save => cases hlocks
        | load q => exact hreads (q, value) (hflight q rfl)
        | lan => trivial
      cases d with
      | lock | readStored => trivial
      | change | unlock => cases hlock
      | openTmp writer value =>
          exact hwriter writer value hd hlock fun q hq => by subst hq; rfl
      | writeTmp writer fd value =>
          exact ⟨hwriter writer value hd.1 hlock fun q hq => (by subst hq; rfl), hd.2⟩
      | renameTmp writer value =>
          exact ⟨hwriter writer value hd.1 hlock fun q hq => (by subst hq; rfl), hd.2⟩
      | act q value => exact ⟨hd.1, hreads (q, value) rfl hd.1⟩

/-- Another task still knows what its next request needs. -/
theorem callInv_other
    {s : State} {c d : Call} {t : Tick} {j : Nat} {p : Op Unit}
    (hw : WorldInv s.world) (hc : CallInv c s.world) (hok : OrderlyCall s c)
    (hready : ready s.world c = true)
    (hp : s.tasks[j]? = some p) (hnext : p.next = some d)
    (hd : CallInv d s.world)
    (htmp : ¬(onTmp c = true ∧ onTmp d = true))
    (hlock : ¬(inLock c = true ∧ inLock d = true)) :
    CallInv d (exec s.world c t).2 := by
  cases c with
  | lock =>
      have hunlocked : s.world.locked = false := by simpa [ready] using hready
      refine hd.congr rfl ?_ (fun _ => rfl) (fun _ => ⟨rfl, rfl⟩)
      intro hin
      exact absurd ((locked_of_inLock hd hin).symm.trans hunlocked) Bool.noConfusion
  | change f =>
      refine callInv_change hok hp hnext hd ?_
      simpa using fun h => hlock ⟨rfl, h⟩
  | unlock =>
      refine hd.congr rfl ?_ (fun _ => rfl) (fun _ => ⟨rfl, rfl⟩)
      intro hin
      exact absurd ⟨rfl, hin⟩ hlock
  | readStored q => exact hd
  | openTmp writer value =>
      have hoff : onTmp d = false :=
        onTmp_of_usesTmp (hok (j, p) (Std.ExtTreeMap.mem_toList_iff_getElem?_eq_some.2 hp)) hnext
      obtain ⟨fd, next, -, -, hne, heq⟩ := exec_openTmp hw writer value t
      rw [heq]
      refine hd.congr rfl (fun _ => rfl) (fun _ => stored_insert hne _ _ _) ?_
      intro hon
      exact absurd (hon.symm.trans hoff) Bool.noConfusion
  | writeTmp writer fd value =>
      rw [exec_writeTmp hc.2]
      refine hd.congr rfl (fun _ => rfl) ?_ ?_
      · exact fun _ => stored_insert (hw.tmp fd hc.2.1).2 _ _ _
      · exact fun hon => absurd ⟨rfl, hon⟩ htmp
  | renameTmp writer value =>
      obtain ⟨hwriter, fd, hfd⟩ := hc
      rw [exec_renameTmp hfd]
      refine hd.congr rfl (fun _ => rfl) ?_ ?_
      · rintro rfl
        cases writer with
        | save => exact absurd ⟨rfl, rfl⟩ hlock
        | load | lan => exact (stored_renameTmp hfd).trans (Eq.symm hok)
      · exact fun hon => absurd ⟨rfl, hon⟩ htmp
  | act q settings => exact hd.congr rfl (fun _ => rfl) (fun _ => rfl) fun _ => ⟨rfl, rfl⟩

/-- The task that is answered stays apart from every other one. -/
theorem apart_next
    {s : State} {c : Call} {k : Answer c → Op Unit} {t : Tick} {j : Nat} {q : Op Unit}
    (hordered : Ordered (.call c k : Op Unit))
    (hok : OrderlyCall s c) (hready : ready s.world c = true)
    (hq : s.tasks[j]? = some q) (hqinv : TaskInv q s.world)
    (hapart : Apart (.call c k) q) :
    Apart (k (exec s.world c t).1) q := by
  intro d hd e he
  have hfollows := (hordered (exec s.world c t).1).1 d hd
  obtain ⟨htmp, hlock⟩ := hapart c rfl e he
  constructor
  · rintro ⟨hond, hone⟩
    rcases onTmp_of_follows hfollows hond with honc | ⟨writer, value, rfl⟩
    · exact htmp ⟨honc, hone⟩
    · have hoff :=
        onTmp_of_usesTmp (hok (j, q) (Std.ExtTreeMap.mem_toList_iff_getElem?_eq_some.2 hq)) he
      exact absurd (hone.symm.trans hoff) Bool.noConfusion
  · rintro ⟨hind, hine⟩
    rcases inLock_of_follows hfollows hind with hinc | rfl
    · exact hlock ⟨hinc, hine⟩
    · have hunlocked : s.world.locked = false := by simpa [ready] using hready
      have hlocked := locked_of_inLock (hqinv.next e he) hine
      exact absurd (hlocked.symm.trans hunlocked) Bool.noConfusion

theorem worldInv_of_booted
    {w : World}
    (h : Booted w) :
    WorldInv w :=
  ⟨⟨_, h.stored⟩, fun _ => h.stored, h.target, h.tmp, by simp [h.acts]⟩

theorem holds_of_reaches
    {s : State}
    (h : machine.Reaches Orderly s) :
    Pool.Holds WorldInv TaskInv Apart s := by
  refine Pool.Reaches.invariant (fun _ => worldInv_of_booted) (fun _ _ => Apart.symm) ?_ ?_ ?_ h
  · intro s id op _ _ _
    exact ⟨⟨ordered_prog op, fun c hc => entry_callInv s.world hc⟩, fun _ _ _ => entry_apart⟩
  · intro s id t c k hs hok hp hready
    have hself := hs.task id _ hp
    have hcall := orderlyCall_of_step hok hp
    have hinv := hself.next c rfl
    refine ⟨worldInv_step hs.world hinv hcall t, ?_, ?_⟩
    · have hrest := hself.ordered (exec s.world c t).1
      exact ⟨hrest.2, fun d hd => callInv_next hs.world hinv hcall (hrest.1 d hd)⟩
    · intro j q hj hq
      exact apart_next hself.ordered hcall hready hq (hs.task j q hq)
        (hs.pair id j _ q (Ne.symm hj) hp hq)
  · intro s id t c k j p hs hok hp hready hj hpj
    have hother := hs.task j p hpj
    refine ⟨hother.ordered, fun d hd => ?_⟩
    obtain ⟨htmp, hlock⟩ := hs.pair id j _ p (Ne.symm hj) hp hpj c rfl d hd
    exact callInv_other hs.world ((hs.task id _ hp).next c rfl) (orderlyCall_of_step hok hp)
      hready hpj hd (hother.next d hd) htmp hlock

/-- One running agent, saved. -/
def initial : Settings :=
  { Settings.default with agents := (∅ : Map String AgentSettings).insert "scout" ⟨.running, []⟩ }

def booted : State where
  world :=
    { memory := initial
      locked := false
      inodes := (∅ : Map Nat Content).insert 0 (.json initial)
      next := 1
      tmp := none
      target := some 0
      acts := [] }
  tasks := ∅

theorem booted_start : machine.start booted := by
  refine ⟨⟨rfl, rfl, ?_, ?_, rfl⟩, rfl⟩
  · rintro i ⟨⟩
    decide
  · rintro i ⟨⟩

/-- Requests of a task whose writes cover what is there. -/
def work (id calls : Nat) : List (PoolLabel Operation Tick) :=
  List.replicate calls (.step id { covers := true })

/-- The reconcile asks whether the agent is wanted after the user has stopped it. -/
def inTurnRun : List (PoolLabel Operation Tick) :=
  [.spawn 0 (.changeSettings (stopAgent "scout"))] ++ work 0 6 ++
    [.spawn 1 (.wantsRunning "scout")] ++ work 1 5

/-- The user stops the agent between the reconcile's read and its write-back. -/
def staleRun : List (PoolLabel Operation Tick) :=
  [.spawn 0 (.wantsRunning "scout")] ++ work 0 1 ++
    [.spawn 1 (.changeSettings (stopAgent "scout"))] ++ work 1 6 ++ work 0 4

end SettingsStore
end Vestad
end Vesta
