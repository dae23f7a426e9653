import Vesta.VoiceEngine.Wake

/-!
# The mic audio of a voice session

Mic audio goes to the open stream.  While a stream opens it queues behind the pre-roll, and
while there is none the newest of it is the pre-roll.  The buffers change hands between the
sends of a stream that just opened, and audio goes on coming in.

A `Life` is what a run shows of one stream.  `Mic.Kept` says how the buffers and the lives
stand to the audio heard, and every operation keeps it: a stream is handed one piece of the
audio without a gap.
-/

namespace Vesta
namespace VoiceEngine

open Wake

/-! ## Lives of streams -/

/-- How a stream closed: the bytes heard until then, the steps of the gate behind it, and
whether the gate closed it or the end of the session did. -/
structure Closing where
  heardBytes : Nat
  steps : List GateStep
  byGate : Bool
deriving DecidableEq

/-- One stream: the bytes heard when the gate opened, when the stream before it was over and
when it was ordered, the steps behind the order, and what it was handed. -/
structure Life where
  gateOpenedAt : Nat
  quietSince : Nat
  orderedAt : Nat
  steps : List GateStep
  handed : List UInt8
  opened : Bool
  closing : Option Closing
deriving DecidableEq

/-- Where the audio of a stream starts: the pre-roll goes no further back than
`preRollBytes` before the order, and not into the stream before. -/
def Life.first (life : Life) : Nat :=
  max life.quietSince (life.orderedAt - preRollBytes)

/-- The audio heard while a stream was there. -/
def Life.until (life : Life) (heard : List UInt8) : List UInt8 :=
  match life.closing with
  | none => heard
  | some closing => heard.take closing.heardBytes

/-! ## The buffers -/

/-- The fields of a session that hold mic audio, and the audio it heard. -/
structure Mic where
  stt : Option Nat
  opening : Option (List UInt8)
  preRoll : List UInt8
  heard : List UInt8
  quietSince : Nat
  gateOpenedAt : Nat
  lives : List Life
deriving DecidableEq

def Mic.initial : Mic where
  stt := none
  opening := none
  preRoll := []
  heard := []
  quietSince := 0
  gateOpenedAt := 0
  lives := []

def Mic.stream (mic : Mic) : Stream :=
  match mic.stt, mic.opening with
  | some _, _ => .opened
  | none, some _ => .opening
  | none, none => .closed

/-- `del audio[:-n]` -/
def newest (n : Nat) (audio : List UInt8) : List UInt8 :=
  audio.drop (audio.length - n)

/-- `stream.send` -/
def Mic.send (mic : Mic) (stream : Nat) (pcm : List UInt8) : Mic :=
  { mic with
    lives := mic.lives.modify stream fun life => { life with handed := life.handed ++ pcm } }

/-- `_hear` -/
def Mic.hear (mic : Mic) (pcm : List UInt8) : Mic :=
  let mic := { mic with heard := mic.heard ++ pcm }
  match mic.stt, mic.opening with
  | some stream, _ => mic.send stream pcm
  | none, some queued => { mic with opening := some (queued ++ pcm) }
  | none, none => { mic with preRoll := newest preRollBytes (mic.preRoll ++ pcm) }

/-- The gate opens, or it does not. -/
def Mic.mark (mic : Mic) (opens : Bool) : Mic :=
  if opens then { mic with gateOpenedAt := mic.heard.length } else mic

/-- The gate orders a stream: the pre-roll becomes the head of its queue. -/
def Mic.order (mic : Mic) (steps : List GateStep) : Mic :=
  { mic with
    opening := some mic.preRoll
    preRoll := []
    lives := mic.lives ++
      [{  gateOpenedAt := mic.gateOpenedAt
          quietSince := mic.quietSince
          orderedAt := mic.heard.length
          steps := steps
          handed := []
          opened := false
          closing := none }] }

/-- The stream was refused: the audio of the wait is lost. -/
def Mic.refused (mic : Mic) : Mic :=
  { mic with opening := none, quietSince := mic.heard.length }

/-- One round of `_on_stt_opened`: what is queued goes out, and more can queue behind it. -/
def Mic.flush (mic : Mic) (stream : Nat) (queued : List UInt8) : Mic :=
  { mic.send stream queued with opening := some [] }

/-- Nothing is queued any more: the mic goes to the stream. -/
def Mic.handOver (mic : Mic) (stream : Nat) : Mic :=
  { mic with
    opening := none
    stt := some stream
    lives := mic.lives.modify stream fun life => { life with opened := true } }

/-- `_close_stt` -/
def Mic.close (mic : Mic) (steps : List GateStep) (byGate : Bool) : Mic :=
  match mic.stt with
  | none => mic
  | some stream =>
      { mic with
        stt := none
        quietSince := mic.heard.length
        lives := mic.lives.modify stream fun life =>
          { life with closing := some ⟨mic.heard.length, steps, byGate⟩ } }

/-! ## The newest audio -/

theorem newest_append (n : Nat) (audio pcm : List UInt8) :
    newest n (newest n audio ++ pcm) = newest n (audio ++ pcm) := by
  unfold newest
  rw [← List.drop_append_of_le_length (by omega), List.drop_drop]
  congr 1
  simp only [List.length_drop, List.length_append]
  omega

/-- The newest of the audio from a place on starts there, or `n` before the end. -/
theorem newest_drop (heard : List UInt8) (start n : Nat) :
    newest n (heard.drop start) = heard.drop (max start (heard.length - n)) := by
  unfold newest
  rw [List.drop_drop]
  congr 1
  simp only [List.length_drop]
  omega

theorem drop_heard
    {heard : List UInt8} {n : Nat}
    (h : n ≤ heard.length)
    (pcm : List UInt8) :
    (heard ++ pcm).drop n = heard.drop n ++ pcm :=
  List.drop_append_of_le_length h

theorem modify_last (past : List Life) (life : Life) (f : Life → Life) :
    (past ++ [life]).modify past.length f = past ++ [f life] := by
  induction past with
  | nil => rfl
  | cons first past ih => simp [ih]

/-! ## What the buffers hold -/

/-- A stream the mic no longer goes to: it never opened, or it closed and was handed the audio
from its first byte to the last one heard before it closed. -/
def Life.Over (life : Life) (heard : List UInt8) : Prop :=
  life.opened = true →
    ∃ closing, life.closing = some closing ∧ closing.heardBytes ≤ heard.length ∧
      life.handed = (heard.take closing.heardBytes).drop life.first

theorem Life.Over.hear
    {life : Life} {heard : List UInt8}
    (h : life.Over heard)
    (pcm : List UInt8) :
    life.Over (heard ++ pcm) := by
  rintro hopened
  obtain ⟨closing, hclosing, hle, hhanded⟩ := h hopened
  refine ⟨closing, hclosing, hle.trans (by simp), ?_⟩
  rw [List.take_append_of_le_length hle]
  exact hhanded

/-- A stream that is ordered and not over, the last of the lives. -/
structure Life.Current (life : Life) (heard : List UInt8) : Prop where
  closing : life.closing = none
  first : life.first ≤ heard.length

/-- How the buffers and the lives stand to the audio heard. -/
inductive Mic.Kept (mic : Mic) : Prop
  | quiet
      (hstt : mic.stt = none)
      (hopening : mic.opening = none)
      (hpreRoll : mic.preRoll = newest preRollBytes (mic.heard.drop mic.quietSince))
      (hquiet : mic.quietSince ≤ mic.heard.length)
      (hover : ∀ life ∈ mic.lives, life.Over mic.heard)
  | opening
      (queued : List UInt8)
      (past : List Life)
      (life : Life)
      (hstt : mic.stt = none)
      (hopening : mic.opening = some queued)
      (hpreRoll : mic.preRoll = [])
      (hlives : mic.lives = past ++ [life])
      (hover : ∀ before ∈ past, before.Over mic.heard)
      (hcurrent : life.Current mic.heard)
      (hopened : life.opened = false)
      (haudio : life.handed ++ queued = mic.heard.drop life.first)
  | streaming
      (past : List Life)
      (life : Life)
      (hstt : mic.stt = some past.length)
      (hopening : mic.opening = none)
      (hpreRoll : mic.preRoll = [])
      (hlives : mic.lives = past ++ [life])
      (hover : ∀ before ∈ past, before.Over mic.heard)
      (hcurrent : life.Current mic.heard)
      (haudio : life.handed = mic.heard.drop life.first)

theorem Mic.initial_kept : Mic.initial.Kept :=
  .quiet rfl rfl (by simp [Mic.initial, newest]) (le_refl _) (by simp [Mic.initial])

/-- The lives before the current one are over, and the current one is over when it never opened. -/
theorem over_append
    {past : List Life} {life : Life} {heard : List UInt8}
    (hover : ∀ before ∈ past, before.Over heard)
    (hlife : life.Over heard) :
    ∀ before ∈ past ++ [life], before.Over heard := by
  rintro before hbefore
  rcases List.mem_append.1 hbefore with hpast | hlast
  · exact hover before hpast
  · exact List.mem_singleton.1 hlast ▸ hlife

theorem Life.Current.hear
    {life : Life} {heard : List UInt8}
    (h : life.Current heard)
    (pcm : List UInt8) :
    life.Current (heard ++ pcm) where
  closing := h.closing
  first := h.first.trans (by simp)

theorem Mic.Kept.hear
    {mic : Mic}
    (h : mic.Kept)
    (pcm : List UInt8) :
    (mic.hear pcm).Kept := by
  cases h with
  | quiet hstt hopening hpreRoll hquiet hover =>
      have hhear : mic.hear pcm =
          { mic with
            heard := mic.heard ++ pcm
            preRoll := newest preRollBytes (mic.preRoll ++ pcm) } := by
        simp [Mic.hear, hstt, hopening]
      rw [hhear]
      have haudio : newest preRollBytes (mic.preRoll ++ pcm) =
          newest preRollBytes ((mic.heard ++ pcm).drop mic.quietSince) := by
        rw [hpreRoll, newest_append, drop_heard hquiet]
      exact .quiet hstt hopening haudio (hquiet.trans (by simp)) fun life hlife =>
        (hover life hlife).hear pcm
  | opening queued past life hstt hopening hpreRoll hlives hover hcurrent hopened haudio =>
      have hhear : mic.hear pcm =
          { mic with
            heard := mic.heard ++ pcm
            opening := some (queued ++ pcm) } := by
        simp [Mic.hear, hstt, hopening]
      rw [hhear]
      refine .opening (queued ++ pcm) past life hstt rfl hpreRoll hlives
        (fun before hbefore => (hover before hbefore).hear pcm) (hcurrent.hear pcm) hopened ?_
      rw [drop_heard hcurrent.first, ← haudio, List.append_assoc]
  | streaming past life hstt hopening hpreRoll hlives hover hcurrent haudio =>
      have hhear : mic.hear pcm =
          { mic with
            heard := mic.heard ++ pcm
            lives := past ++ [{ life with handed := life.handed ++ pcm }] } := by
        simp [Mic.hear, Mic.send, hstt, hlives, modify_last]
      rw [hhear]
      refine .streaming past { life with handed := life.handed ++ pcm } hstt hopening hpreRoll rfl
        (fun before hbefore => (hover before hbefore).hear pcm) ⟨hcurrent.closing, ?_⟩ ?_
      · exact (hcurrent.hear pcm).first
      · exact (congrArg (· ++ pcm) haudio).trans (drop_heard hcurrent.first pcm).symm

@[simp] theorem Mic.mark_stt (mic : Mic) (opens : Bool) : (mic.mark opens).stt = mic.stt := by
  cases opens <;> rfl

@[simp] theorem Mic.mark_opening (mic : Mic) (opens : Bool) :
    (mic.mark opens).opening = mic.opening := by
  cases opens <;> rfl

@[simp] theorem Mic.mark_lives (mic : Mic) (opens : Bool) :
    (mic.mark opens).lives = mic.lives := by
  cases opens <;> rfl

@[simp] theorem Mic.mark_heard (mic : Mic) (opens : Bool) :
    (mic.mark opens).heard = mic.heard := by
  cases opens <;> rfl

@[simp] theorem Mic.mark_stream (mic : Mic) (opens : Bool) :
    (mic.mark opens).stream = mic.stream := by
  simp [Mic.stream]

theorem Mic.Kept.mark
    {mic : Mic}
    (h : mic.Kept)
    (opens : Bool) :
    (mic.mark opens).Kept := by
  cases opens with
  | false => exact h
  | true =>
      cases h with
      | quiet hstt hopening hpreRoll hquiet hover =>
          exact .quiet hstt hopening hpreRoll hquiet hover
      | opening queued past life hstt hopening hpreRoll hlives hover hcurrent hopened haudio =>
          exact .opening queued past life hstt hopening hpreRoll hlives hover hcurrent hopened
            haudio
      | streaming past life hstt hopening hpreRoll hlives hover hcurrent haudio =>
          exact .streaming past life hstt hopening hpreRoll hlives hover hcurrent haudio

/-- No stream has the mic while one opens. -/
theorem Mic.Kept.stt_of_opening
    {mic : Mic}
    (h : mic.Kept)
    (hopening : mic.opening.isSome = true) :
    mic.stt = none := by
  cases h with
  | quiet hstt => exact hstt
  | opening queued past life hstt => exact hstt
  | streaming past life hstt hnone => simp [hnone] at hopening

/-- An order takes over the pre-roll, which is what was heard last. -/
theorem Mic.Kept.order
    {mic : Mic}
    (h : mic.Kept)
    (hclosed : mic.stream = .closed)
    (steps : List GateStep) :
    (mic.order steps).Kept := by
  cases h with
  | quiet hstt hopening hpreRoll hquiet hover =>
      refine .opening mic.preRoll mic.lives _ hstt rfl rfl rfl hover ⟨rfl, ?_⟩ rfl ?_
      · exact max_le hquiet (Nat.sub_le _ _)
      · exact hpreRoll.trans (newest_drop _ _ _)
  | opening queued past life hstt hopening =>
      simp [Mic.stream, hstt, hopening] at hclosed
  | streaming past life hstt =>
      simp [Mic.stream, hstt] at hclosed

/-- After a refusal nothing of the audio of the wait is left. -/
theorem Mic.Kept.refused
    {mic : Mic}
    (h : mic.Kept)
    (hopening : mic.stream = .opening) :
    mic.refused.Kept := by
  cases h with
  | quiet hstt hnone => simp [Mic.stream, hstt, hnone] at hopening
  | opening queued past life hstt hsome hpreRoll hlives hover hcurrent hopened =>
      refine .quiet hstt rfl ?_ (le_refl _) ?_
      · simp [Mic.refused, hpreRoll, newest]
      · rw [Mic.refused, hlives]
        exact over_append hover fun htrue => by simp [hopened] at htrue
  | streaming past life hstt => simp [Mic.stream, hstt] at hopening

/-- What is queued goes out to the stream, and the queue is empty. -/
theorem Mic.Kept.flush
    {mic : Mic}
    (h : mic.Kept)
    {stream : Nat} {queued : List UInt8}
    (hopening : mic.opening = some queued)
    (hstream : stream + 1 = mic.lives.length) :
    (mic.flush stream queued).Kept := by
  cases h with
  | quiet hstt hnone => cases hnone.symm.trans hopening
  | opening audio past life hstt hsome hpreRoll hlives hover hcurrent hopened haudio =>
      obtain rfl : audio = queued := Option.some.inj (hsome.symm.trans hopening)
      obtain rfl : stream = past.length := by simpa [hlives] using hstream
      refine .opening [] past { life with handed := life.handed ++ audio } hstt rfl hpreRoll
        ?_ hover ⟨hcurrent.closing, hcurrent.first⟩ hopened ?_
      · rw [Mic.flush, Mic.send, hlives, modify_last]
      · exact (List.append_nil _).trans haudio
  | streaming past life hstt hnone => cases hnone.symm.trans hopening

/-- When nothing is queued the stream has all the audio, and the mic goes to it from now on. -/
theorem Mic.Kept.handOver
    {mic : Mic}
    (h : mic.Kept)
    {stream : Nat}
    (hopening : mic.opening = some [])
    (hstream : stream + 1 = mic.lives.length) :
    (mic.handOver stream).Kept := by
  cases h with
  | quiet hstt hnone => cases hnone.symm.trans hopening
  | opening audio past life hstt hsome hpreRoll hlives hover hcurrent hopened haudio =>
      obtain rfl : audio = [] := Option.some.inj (hsome.symm.trans hopening)
      obtain rfl : stream = past.length := by simpa [hlives] using hstream
      refine .streaming past { life with opened := true } rfl rfl hpreRoll ?_ hover
        ⟨hcurrent.closing, hcurrent.first⟩ ?_
      · rw [Mic.handOver, hlives, modify_last]
      · exact (List.append_nil _).symm.trans haudio
  | streaming past life hstt hnone => cases hnone.symm.trans hopening

/-- A stream that closes was handed all the audio up to now. -/
theorem Mic.Kept.close
    {mic : Mic}
    (h : mic.Kept)
    (steps : List GateStep)
    (byGate : Bool) :
    (mic.close steps byGate).Kept := by
  cases hstt : mic.stt with
  | none => rwa [Mic.close, hstt]
  | some stream =>
      cases h with
      | quiet hnone => cases hnone.symm.trans hstt
      | opening queued past life hnone => cases hnone.symm.trans hstt
      | streaming past life hsome hopening hpreRoll hlives hover hcurrent haudio =>
          obtain rfl : past.length = stream := Option.some.inj (hsome.symm.trans hstt)
          rw [Mic.close, hstt]
          refine .quiet rfl hopening ?_ (le_refl _) ?_
          · simp [hpreRoll, newest]
          · simp only [hlives, modify_last]
            refine over_append hover fun _ => ⟨_, rfl, le_refl _, ?_⟩
            rw [List.take_length]
            exact haudio

/-! ## What the lives show -/

/-- A stream that opened was handed the audio from its first byte on, without a gap. -/
def Life.Exact (life : Life) (heard : List UInt8) : Prop :=
  life.opened = true → life.handed = (life.until heard).drop life.first

theorem Life.Over.exact
    {life : Life} {heard : List UInt8}
    (h : life.Over heard) :
    life.Exact heard := by
  rintro hopened
  obtain ⟨closing, hclosing, -, hhanded⟩ := h hopened
  rw [hhanded, Life.until, hclosing]

theorem Mic.Kept.exact
    {mic : Mic}
    (h : mic.Kept) :
    ∀ life ∈ mic.lives, life.Exact mic.heard := by
  cases h with
  | quiet hstt hopening hpreRoll hquiet hover =>
      exact fun life hlife => (hover life hlife).exact
  | opening queued past life hstt hopening hpreRoll hlives hover hcurrent hopened haudio =>
      rintro before hbefore
      rw [hlives] at hbefore
      rcases List.mem_append.1 hbefore with hpast | hlast
      · exact (hover before hpast).exact
      · obtain rfl := List.mem_singleton.1 hlast
        rintro htrue
        simp [hopened] at htrue
  | streaming past life hstt hopening hpreRoll hlives hover hcurrent haudio =>
      rintro before hbefore
      rw [hlives] at hbefore
      rcases List.mem_append.1 hbefore with hpast | hlast
      · exact (hover before hpast).exact
      · obtain rfl := List.mem_singleton.1 hlast
        rintro -
        rw [haudio, Life.until, hcurrent.closing]

end VoiceEngine
end Vesta
