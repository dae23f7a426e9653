import Vesta.AppChat.Upload.Store
import Vesta.Lib.Machine

/-!
# Chunked uploads

A client sends a file in chunks, each at its offset, and then completes the
upload.  Each request runs on a thread of its own and goes on when the client has
given it up.

`World` holds the directory of the upload, every request that was sent and the
client.  A step of a request is one file operation.  `Intact` is what the upload
promises, and `upload_intact` says that it holds in every state of the runs that
`Fits` admits, for a file that is not named as one of the store's own: a chunk is
written to the part that it was checked against, a finalize finds what its checks
and its rename need, and no crash comes between the rename and the meta record.
-/

namespace Vesta
namespace AppChat
namespace Upload

open Lib

/-! ## The client -/

def maxChunkUploadBytes : Nat := 8 * 1024 * 1024

def initialChunkBytes : Nat := 1024 * 1024

def minChunkBytes : Nat := 256 * 1024

/-- Where the client stands, and the request that it waits for. -/
inductive Phase
  | sending
  | putting (call length : Nat)
  | probing (call : Nat)
  | parked
  | recovering (call : Nat)
  | completing (call : Nat)
  | waiting
  | done (attachment : Record)
  | failed
  | tooLarge
  | aborted
deriving DecidableEq, Repr

structure Client where
  phase : Phase
  offset : Nat
  chunkBytes : Nat
deriving DecidableEq, Repr

namespace Client

def goto (client : Client) (phase : Phase) : Client :=
  { client with phase := phase }

/-- The chunk landed; a fast one doubles the next. -/
def landed (client : Client) (length : Nat) (fast : Bool) : Client where
  phase := .sending
  offset := client.offset + length
  chunkBytes :=
    if fast then min (client.chunkBytes * 2) maxChunkUploadBytes else client.chunkBytes

/-- A failed chunk is parked, and the next is half its size. -/
def shrink (client : Client) : Client where
  phase := .parked
  offset := client.offset
  chunkBytes := max (client.chunkBytes / 2) minChunkBytes

/-- The client adopts the staged size. -/
def resync (client : Client) (size received : Nat) (finalized : Bool) : Client where
  phase := .sending
  offset := if finalized then size else received
  chunkBytes := client.chunkBytes

end Client

/-! ## Runs of an upload -/

/-- `filled` says that the part once was the whole file. -/
structure World where
  directory : Directory
  calls : List Call
  client : Client
  filled : Bool

inductive Label
  | request
  | arrive (call : Nat)
  | serve (call : Nat)
  | deliver (fast : Bool)
  | fail
  | abort
  | crash
deriving DecidableEq, Repr

namespace World

/-- The client sends a request and waits for it. -/
def send (w : World) (call : Call) (phase : Nat → Phase) : World :=
  { w with calls := w.calls ++ [call], client := w.client.goto (phase w.calls.length) }

def withClient (w : World) (client : Client) : World :=
  { w with client := client }

/-- The next chunk of the file. -/
def chunk (w : World) (file : Bytes) : Bytes :=
  (file.drop w.client.offset).take
    (min (w.client.offset + w.client.chunkBytes) file.length - w.client.offset)

/-- The client goes on: with the next chunk, with the completion, or after a park. -/
def request (w : World) (file : Bytes) : Option World :=
  match w.client.phase with
  | .sending =>
      if w.client.offset < file.length then
        some (w.send (.data w.client.offset (w.chunk file) .sent)
          fun call => .putting call (w.chunk file).length)
      else some (w.send (.complete .sent) .completing)
  | .parked => some (w.send (.status .sent) .recovering)
  | .waiting => some (w.send (.complete .sent) .completing)
  | _ => none

/-- The response to a chunk. -/
def deliverData (w : World) (length : Nat) (fast : Bool) : AppendResponse → World
  | .received _ => w.withClient (w.client.landed length fast)
  | .offsetMismatch _ => w.send (.status .sent) .probing
  | .tooLarge => w.withClient (w.client.goto .tooLarge)
  | .unknown => w.withClient (w.client.goto .failed)
  | .serverError => w.withClient w.client.shrink

/-- The response to a completion. -/
def deliverComplete (w : World) : FinalizeResponse → World
  | .attachment record => w.withClient (w.client.goto (.done record))
  | .sizeMismatch => w.withClient (w.client.goto .failed)
  | .unknown => w.withClient (w.client.goto .failed)
  | .serverError => w.withClient (w.client.goto .waiting)

/-- The response that the client waits for comes. -/
def deliver (w : World) (file : Bytes) (fast : Bool) : Option World :=
  match w.client.phase with
  | .putting call length =>
      match w.calls[call]? with
      | some (.data _ _ (.answered response)) => some (w.deliverData length fast response)
      | _ => none
  | .probing call =>
      match w.calls[call]? with
      | some (.status (.answered (.status received finalized))) =>
          some (w.withClient (w.client.resync file.length received finalized))
      | some (.status (.answered .unknown)) => some (w.withClient (w.client.goto .failed))
      | some (.status (.answered .serverError)) => some (w.withClient (w.client.goto .parked))
      | _ => none
  | .recovering call =>
      match w.calls[call]? with
      | some (.status (.answered (.status received finalized))) =>
          some (w.withClient (w.client.resync file.length received finalized))
      | some (.status (.answered _)) => some (w.withClient (w.client.goto .sending))
      | _ => none
  | .completing call =>
      match w.calls[call]? with
      | some (.complete (.answered response)) => some (w.deliverComplete response)
      | _ => none
  | _ => none

/-- The request that the client waits for fails, or takes too long. -/
def fail (w : World) : Option World :=
  match w.client.phase with
  | .putting _ _ => some (w.withClient w.client.shrink)
  | .probing _ => some (w.withClient (w.client.goto .parked))
  | .recovering _ => some (w.withClient (w.client.goto .sending))
  | .completing _ => some (w.withClient (w.client.goto .waiting))
  | _ => none

def served (w : World) (file : Bytes) (k : Nat) (next : Directory × Call) : World where
  directory := next.1
  calls := w.calls.set k next.2
  client := w.client
  filled := w.filled || next.1.isFull file

end World

section Machine

variable (loads : Bytes → Option Record)
variable (name : Text)
variable (file : Bytes)

def step (w : World) : Label → Option World
  | .request => w.request file
  | .arrive k =>
      match w.calls[k]? with
      | some call => call.arrive.map fun next => { w with calls := w.calls.set k next }
      | none => none
  | .serve k =>
      match w.calls[k]? with
      | some call => (call.serve loads w.directory).map (w.served file k)
      | none => none
  | .deliver fast => w.deliver file fast
  | .fail => w.fail
  | .abort => some (w.withClient (w.client.goto .aborted))
  | .crash => some { w with calls := w.calls.map Call.crash }

attribute [grind =] step

/-- The session was created under the name, and its response reached the client. -/
def initial : World where
  directory :=
    { entry := fun other =>
        if other = sessionFile then some (.json ⟨name, file.length⟩)
        else if other = partFile then some (.file 0)
        else none
      content := fun _ => []
      files := 1 }
  calls := []
  client := ⟨.sending, 0, min initialChunkBytes maxChunkUploadBytes⟩
  filled := file.isEmpty

def machine : Machine World Label where
  start w := w = initial name file
  step := step loads file

end Machine

/-! ## What an upload promises -/

def Publishing (w : World) : Prop :=
  ∃ call ∈ w.calls, call.publishes = true

instance : DecidablePred Publishing := fun _ => inferInstanceAs (Decidable (∃ _, _ ∧ _))

/-- The finalized blob is the file and the staged bytes are a prefix of it.  When the bytes were
all staged once, they still are, in a part that can be completed or in a blob that has its record
or gets it, and the client does not report a failure. -/
structure Intact (name : Text) (file : Bytes) (w : World) : Prop where
  blob :
    (w.directory.entry metaFile).isSome = true →
      ∃ blob, w.directory.fileAt name = some blob ∧ w.directory.content blob = file
  staged :
    ∀ part, w.directory.fileAt partFile = some part → w.directory.content part <+: file
  kept :
    w.filled = true →
      (∃ part, w.directory.fileAt partFile = some part ∧ w.directory.content part = file ∧
        w.directory.entry sessionFile = some (.json ⟨name, file.length⟩)) ∨
      ∃ blob, w.directory.fileAt name = some blob ∧ w.directory.content blob = file ∧
        ((w.directory.entry metaFile).isSome = true ∨ Publishing w)
  reported : w.filled = true → w.client.phase ≠ .failed ∧ w.client.phase ≠ .tooLarge

/-- Every operation finds what its request checked, and no crash comes between the rename and the
meta record. -/
def Fits (w : World) : Label → Prop
  | .serve k => (w.calls[k]?).all (fitsOp w.directory (w.client.phase = .completing k)) = true
  | .crash => Publishing w → (w.directory.entry metaFile).isSome = true
  | _ => True

instance (w : World) : DecidablePred (Fits w)
  | .request => isTrue trivial
  | .arrive _ => isTrue trivial
  | .serve k =>
      inferInstanceAs (Decidable
        ((w.calls[k]?).all (fitsOp w.directory (w.client.phase = .completing k)) = true))
  | .deliver _ => isTrue trivial
  | .fail => isTrue trivial
  | .abort => isTrue trivial
  | .crash =>
      inferInstanceAs (Decidable (Publishing w → (w.directory.entry metaFile).isSome = true))

/-! ### The requests and the client -/

def World.requests (w : World) : List Call :=
  w.calls.map Call.erase

namespace Phase

/-- The client has not asked for a completion. -/
def isSending : Phase → Bool
  | .sending => true
  | .putting _ _ => true
  | .probing _ => true
  | .parked => true
  | .recovering _ => true
  | _ => false

def isCompleting : Phase → Bool
  | .completing _ => true
  | .waiting => true
  | _ => false

end Phase

/-- What the client asked and knows, when `staged` bytes reached the store. -/
structure Asked (requests : List Call) (filled : Bool) (staged : Nat) (client : Client) :
    Prop where
  completion : .complete .sent ∈ requests → filled = true
  sending : client.phase.isSending = true → .complete .sent ∉ requests
  completing : client.phase.isCompleting = true → filled = true
  offset : client.offset ≤ staged
  putting :
    ∀ call length, client.phase = .putting call length →
      ∃ chunk, requests[call]? = some (.data client.offset chunk .sent) ∧ chunk.length = length
  reported : client.phase ≠ .failed ∧ client.phase ≠ .tooLarge

/-- What holds in every state of a run that `Fits` admits. -/
structure Sound (name : Text) (file : Bytes) (w : World) : Prop where
  stored : Stored name file w.directory w.filled
  full : w.directory.isFull file = true → w.filled = true
  calls : ∀ call ∈ w.calls, CallOk name file w.directory call
  asked : Asked w.requests w.filled (progress name file w.directory) w.client
  renamed : (w.directory.fileAt name).isSome = true → .complete .sent ∈ w.requests
  published :
    (w.directory.fileAt name).isSome = true →
      (w.directory.entry metaFile).isSome = true ∨ Publishing w
  heard :
    ∀ k response, w.client.phase = .completing k →
      w.calls[k]? = some (.complete (.answered response)) →
      response ≠ .sizeMismatch ∧ response ≠ .unknown

section Client

variable {requests : List Call}
variable {filled : Bool}
variable {staged : Nat}
variable {client next : Client}

theorem Asked.mono
    (h : Asked requests filled staged client)
    {filled' : Bool} {staged' : Nat}
    (hfilled : filled = true → filled' = true)
    (hstaged : staged ≤ staged') :
    Asked requests filled' staged' client where
  completion := fun hmem => hfilled (h.completion hmem)
  sending := h.sending
  completing := fun hphase => hfilled (h.completing hphase)
  offset := Nat.le_trans h.offset hstaged
  putting := h.putting
  reported := h.reported

/-- The client goes on without a new request. -/
theorem Asked.change
    (h : Asked requests filled staged client)
    (hsending : next.phase.isSending = true → client.phase.isSending = true)
    (hcompleting : next.phase.isCompleting = true → client.phase.isCompleting = true)
    (hoffset : next.offset ≤ staged)
    (hputting : ∀ call length, next.phase ≠ .putting call length)
    (hreported : next.phase ≠ .failed ∧ next.phase ≠ .tooLarge) :
    Asked requests filled staged next where
  completion := h.completion
  sending := fun hphase => h.sending (hsending hphase)
  completing := fun hphase => h.completing (hcompleting hphase)
  offset := hoffset
  putting := fun call length hphase => absurd hphase (hputting call length)
  reported := hreported

/-- The client sends a request for bytes or for the status. -/
theorem Asked.ask
    (h : Asked requests filled staged client)
    (hsending : client.phase.isSending = true)
    {call : Call} {phase : Phase}
    (hcall : call ≠ .complete .sent)
    (hphase : phase.isSending = true)
    (hputting :
      ∀ k length, phase = .putting k length →
        k = requests.length ∧
          ∃ chunk, call = .data client.offset chunk .sent ∧ chunk.length = length) :
    Asked (requests ++ [call]) filled staged (client.goto phase) := by
  have hnone : .complete .sent ∉ requests ++ [call] := by
    intro hmem
    rcases List.mem_append.1 hmem with hmem | hmem
    · exact h.sending hsending hmem
    · exact hcall (List.mem_singleton.1 hmem).symm
  constructor
  · exact fun hmem => absurd hmem hnone
  · exact fun _ => hnone
  · intro hcompleting
    change phase.isCompleting = true at hcompleting
    cases phase <;> simp_all [Phase.isSending, Phase.isCompleting]
  · exact h.offset
  · intro k length hk
    obtain ⟨rfl, chunk, rfl, hlength⟩ := hputting k length hk
    exact ⟨chunk, by simp [Client.goto], hlength⟩
  · change phase ≠ .failed ∧ phase ≠ .tooLarge
    cases phase <;> simp_all [Phase.isSending]

/-- The client asks for the completion. -/
theorem Asked.askComplete
    (h : Asked requests filled staged client)
    (hfilled : filled = true)
    (k : Nat) :
    Asked (requests ++ [.complete .sent]) filled staged (client.goto (.completing k)) where
  completion := fun _ => hfilled
  sending := by simp [Client.goto, Phase.isSending]
  completing := fun _ => hfilled
  offset := h.offset
  putting := by simp [Client.goto]
  reported := by simp [Client.goto]

end Client

section Steps

variable {loads : Bytes → Option Record}
variable {name : Text}
variable {file : Bytes}
variable {w : World}

namespace Sound

theorem blob_none
    (h : Sound name file w)
    (hsending : w.client.phase.isSending = true) :
    w.directory.fileAt name = none := by
  cases hblob : w.directory.fileAt name with
  | none => rfl
  | some name =>
      have hmem := h.renamed (by simp [hblob])
      exact absurd hmem (h.asked.sending hsending)

/-- A client that has nothing left to send has staged the whole file. -/
theorem filled_of_offset
    (h : Sound name file w)
    (hsending : w.client.phase.isSending = true)
    (hoffset : file.length ≤ w.client.offset) :
    w.filled = true := by
  have hblob := h.blob_none hsending
  have hprogress : progress name file w.directory = w.directory.partSize := by
    simp [progress, hblob]
  have hle := h.asked.offset
  have hsize : w.directory.partSize = file.length :=
    Nat.le_antisymm h.stored.partSize_le (by omega)
  obtain ⟨name, hpart⟩ := Option.isSome_iff_exists.1 (h.stored.staging hblob)
  exact h.full (isFull_iff.2 ⟨name, hpart, h.stored.content_of_size hpart hsize⟩)

/-- What the client does alone. -/
theorem withClient
    (h : Sound name file w)
    {client : Client}
    (hasked : Asked w.requests w.filled (progress name file w.directory) client)
    (hphase : ∀ k, client.phase ≠ .completing k) :
    Sound name file (w.withClient client) where
  stored := h.stored
  full := h.full
  calls := h.calls
  asked := hasked
  renamed := h.renamed
  published := h.published
  heard := fun k _ hk => absurd hk (hphase k)

/-- The client takes another phase, with the offset that it has. -/
theorem goto
    (h : Sound name file w)
    {client : Client}
    (hoffset : client.offset = w.client.offset)
    (hsending : client.phase.isSending = true → w.client.phase.isSending = true)
    (hcompleting : client.phase.isCompleting = true → w.client.phase.isCompleting = true)
    (hwaits :
      ∀ k length, client.phase ≠ .putting k length ∧ client.phase ≠ .completing k)
    (hreported : client.phase ≠ .failed ∧ client.phase ≠ .tooLarge) :
    Sound name file (w.withClient client) := by
  refine h.withClient (h.asked.change hsending hcompleting ?_ ?_ hreported) ?_
  · rw [hoffset]
    exact h.asked.offset
  · exact fun k length => (hwaits k length).1
  · exact fun k => (hwaits k 0).2

theorem send
    (h : Sound name file w)
    {call : Call} {phase : Nat → Phase}
    (hsent : call.erase = call)
    (hcall : CallOk name file w.directory call)
    (hasked :
      Asked (w.requests ++ [call]) w.filled (progress name file w.directory)
        (w.client.goto (phase w.calls.length)))
    (hphase : ∀ k, phase w.calls.length = .completing k → k = w.calls.length) :
    Sound name file (w.send call phase) := by
  have hrequests : (w.send call phase).requests = w.requests ++ [call] := by
    simp [World.send, World.requests, hsent]
  constructor
  · exact h.stored
  · exact h.full
  · intro other hother
    rcases List.mem_append.1 hother with hother | hother
    · exact h.calls other hother
    · rw [List.mem_singleton.1 hother]
      exact hcall
  · rw [hrequests]
    exact hasked
  · intro hblob
    rw [hrequests]
    exact List.mem_append_left _ (h.renamed hblob)
  · intro hblob
    rcases h.published hblob with hrecord | ⟨other, hother, hpublishes⟩
    · exact Or.inl hrecord
    · exact Or.inr ⟨other, List.mem_append_left _ hother, hpublishes⟩
  · intro k response hk hanswer
    -- the request just sent is not answered
    obtain rfl := hphase k hk
    have hlast : call = .complete (.answered response) := by
      simpa [World.send] using hanswer
    rw [hlast] at hsent
    cases hsent

/-! ### What the client does -/

/-- The chunk that the client sends next is the bytes at its offset. -/
theorem holds_chunk
    (hoffset : w.client.offset < file.length) :
    Holds file w.client.offset (w.chunk file) := by
  refine ⟨file.take w.client.offset, (file.drop w.client.offset).drop
    (min (w.client.offset + w.client.chunkBytes) file.length - w.client.offset), ?_, ?_⟩
  · rw [List.append_assoc, World.chunk, List.take_append_drop, List.take_append_drop]
  · rw [List.length_take]
    omega

theorem askStatus
    (h : Sound name file w)
    (hsending : w.client.phase.isSending = true)
    {phase : Nat → Phase}
    (hphase : ∀ k, phase k = .probing k ∨ phase k = .recovering k) :
    Sound name file (w.send (.status .sent) phase) := by
  refine h.send rfl trivial (h.asked.ask hsending (by simp) ?_ ?_) ?_
  · rcases hphase w.calls.length with hk | hk <;> simp [hk, Phase.isSending]
  · rcases hphase w.calls.length with hk | hk <;> simp [hk]
  · rcases hphase w.calls.length with hk | hk <;> simp [hk]

theorem askComplete
    (h : Sound name file w)
    (hfilled : w.filled = true) :
    Sound name file (w.send (.complete .sent) .completing) :=
  h.send rfl trivial (h.asked.askComplete hfilled _) (fun _ hk => (Phase.completing.inj hk).symm)

theorem request
    (h : Sound name file w)
    {next : World}
    (hstep : w.request file = some next) :
    Sound name file next := by
  unfold World.request at hstep
  split at hstep
  · next hphase =>
      have hsending : w.client.phase.isSending = true := by simp [hphase, Phase.isSending]
      split at hstep
      · next hoffset =>
          cases hstep
          refine h.send rfl ⟨holds_chunk hoffset, trivial⟩
            (h.asked.ask hsending (by simp) rfl ?_) (by simp)
          intro k length hk
          obtain ⟨rfl, rfl⟩ := Phase.putting.inj hk
          exact ⟨by simp [World.requests], _, rfl, rfl⟩
      · next hoffset =>
          cases hstep
          exact h.askComplete (h.filled_of_offset hsending (Nat.not_lt.1 hoffset))
  · next hphase =>
      cases hstep
      exact h.askStatus (by simp [hphase, Phase.isSending]) (fun _ => Or.inr rfl)
  · next hphase =>
      cases hstep
      exact h.askComplete (h.asked.completing (by simp [hphase, Phase.isCompleting]))
  · cases hstep

/-- The request behind a chunk that the client waits for. -/
theorem data_of_putting
    (h : Sound name file w)
    {k length offset : Nat} {chunk : Bytes} {stage : Stage AppendOp AppendResponse}
    (hphase : w.client.phase = .putting k length)
    (hcall : w.calls[k]? = some (.data offset chunk stage)) :
    offset = w.client.offset ∧ chunk.length = length := by
  obtain ⟨chunk', hrequest, hlength⟩ := h.asked.putting k length hphase
  rw [World.requests, List.getElem?_map, hcall] at hrequest
  obtain ⟨rfl, rfl⟩ : offset = w.client.offset ∧ chunk = chunk' := by
    simpa [Call.erase] using hrequest
  exact ⟨rfl, hlength⟩

theorem deliverData
    (h : Sound name file w)
    {k length offset : Nat} {chunk : Bytes} {response : AppendResponse}
    (hphase : w.client.phase = .putting k length)
    (hcall : w.calls[k]? = some (.data offset chunk (.answered response)))
    (fast : Bool) :
    Sound name file (w.deliverData length fast response) := by
  have hsending : w.client.phase.isSending = true := by simp [hphase, Phase.isSending]
  obtain ⟨rfl, rfl⟩ := h.data_of_putting hphase hcall
  have hok := (h.calls _ (List.mem_of_getElem? hcall)).2
  cases response with
  | received received =>
      refine h.withClient (h.asked.change (fun _ => hsending) ?_ hok ?_ ?_) ?_
      · simp [Client.landed, Phase.isCompleting]
      · simp [Client.landed]
      · simp [Client.landed]
      · simp [Client.landed]
  | offsetMismatch received => exact h.askStatus hsending (fun _ => Or.inl rfl)
  | tooLarge => exact hok.elim
  | unknown =>
      have hblob : (w.directory.fileAt name).isSome = true := hok
      simp [h.blob_none hsending] at hblob
  | serverError =>
      refine h.goto rfl ?_ ?_ ?_ ?_
      all_goals simp [Client.shrink, Phase.isSending, Phase.isCompleting, hphase]

theorem deliverStatus
    (h : Sound name file w)
    (hsending : w.client.phase.isSending = true)
    {k received : Nat} {finalized : Bool}
    (hcall : w.calls[k]? = some (.status (.answered (.status received finalized)))) :
    Sound name file (w.withClient (w.client.resync file.length received finalized)) := by
  obtain ⟨hreceived, hfinal⟩ := h.calls _ (List.mem_of_getElem? hcall)
  refine h.withClient (h.asked.change (fun _ => hsending) ?_ ?_ ?_ ?_) ?_
  · simp [Client.resync, Phase.isCompleting]
  · cases finalized with
    | false => exact hreceived
    | true => exact Nat.le_of_eq (progress_of_blob (hfinal rfl)).symm
  · simp [Client.resync]
  · simp [Client.resync]
  · simp [Client.resync]

theorem deliverComplete
    (h : Sound name file w)
    {k : Nat} {response : FinalizeResponse}
    (hphase : w.client.phase = .completing k)
    (hcall : w.calls[k]? = some (.complete (.answered response))) :
    Sound name file (w.deliverComplete response) := by
  have hheard := h.heard k response hphase hcall
  cases response with
  | attachment record =>
      refine h.goto rfl ?_ ?_ ?_ ?_
      all_goals simp [Client.goto, Phase.isSending, Phase.isCompleting]
  | sizeMismatch => exact absurd rfl hheard.1
  | unknown => exact absurd rfl hheard.2
  | serverError =>
      refine h.goto rfl ?_ ?_ ?_ ?_
      all_goals simp [Client.goto, Phase.isSending, Phase.isCompleting, hphase]

theorem deliver
    (h : Sound name file w)
    {fast : Bool} {next : World}
    (hstep : w.deliver file fast = some next) :
    Sound name file next := by
  unfold World.deliver at hstep
  split at hstep
  · next k length hphase =>
      split at hstep
      · next hcall =>
          cases hstep
          exact h.deliverData hphase hcall fast
      · cases hstep
  · next k hphase =>
      have hsending : w.client.phase.isSending = true := by simp [hphase, Phase.isSending]
      split at hstep
      · next hcall =>
          cases hstep
          exact h.deliverStatus hsending hcall
      · next hcall =>
          have hblob : (w.directory.fileAt name).isSome = true :=
            h.calls _ (List.mem_of_getElem? hcall)
          simp [h.blob_none hsending] at hblob
      · cases hstep
        refine h.goto rfl ?_ ?_ ?_ ?_
        all_goals simp [Client.goto, Phase.isSending, Phase.isCompleting, hphase]
      · cases hstep
  · next k hphase =>
      have hsending : w.client.phase.isSending = true := by simp [hphase, Phase.isSending]
      split at hstep
      · next hcall =>
          cases hstep
          exact h.deliverStatus hsending hcall
      · cases hstep
        refine h.goto rfl ?_ ?_ ?_ ?_
        all_goals simp [Client.goto, Phase.isSending, Phase.isCompleting, hphase]
      · cases hstep
  · next k hphase =>
      split at hstep
      · next hcall =>
          cases hstep
          exact h.deliverComplete hphase hcall
      · cases hstep
  · cases hstep

theorem fail
    (h : Sound name file w)
    {next : World}
    (hstep : w.fail = some next) :
    Sound name file next := by
  unfold World.fail at hstep
  split at hstep
  all_goals cases hstep
  all_goals next hphase =>
    refine h.goto rfl ?_ ?_ ?_ ?_
    all_goals simp [Client.goto, Client.shrink, Phase.isSending, Phase.isCompleting, hphase]

theorem abort
    (h : Sound name file w) :
    Sound name file (w.withClient (w.client.goto .aborted)) := by
  refine h.goto rfl ?_ ?_ ?_ ?_
  all_goals simp [Client.goto, Phase.isSending, Phase.isCompleting]

/-! ### What the server does -/

theorem requests_set
    {k : Nat} {call next : Call}
    (hcall : w.calls[k]? = some call)
    (herase : next.erase = call.erase) :
    (w.calls.set k next).map Call.erase = w.requests := by
  rw [List.map_set, herase, World.requests]
  refine List.ext_getElem? fun i => ?_
  rcases eq_or_ne k i with rfl | hne
  · obtain ⟨hlt, hget⟩ := List.getElem?_eq_some_iff.1 hcall
    simp [hlt, hget]
  · rw [List.getElem?_set_ne hne]

/-- A file operation of a request, or its arrival. -/
theorem set
    (h : Sound name file w)
    {k : Nat} {call : Call} {next : Directory × Call}
    (hcall : w.calls[k]? = some call)
    (hserved : Served name file w.directory call w.filled next)
    (herase : next.2.erase = call.erase)
    (hheard :
      w.client.phase = .completing k →
        ∀ response, next.2 = .complete (.answered response) →
          response ≠ .sizeMismatch ∧ response ≠ .unknown) :
    Sound name file (w.served file k next) := by
  have hlt : k < w.calls.length := (List.getElem?_eq_some_iff.1 hcall).1
  have hnext : next.2 ∈ w.calls.set k next.2 := List.mem_set hlt _
  have hrequests : (w.served file k next).requests = w.requests := requests_set hcall herase
  have hfilled : w.filled = true → (w.served file k next).filled = true := by
    intro hfilled
    simp [World.served, hfilled]
  constructor
  · exact hserved.stored.fill
  · intro hfull
    simp [World.served, show next.1.isFull file = true from hfull]
  · intro other hother
    rcases List.mem_or_eq_of_mem_set hother with hother | rfl
    · exact (h.calls other hother).mono hserved.advance
    · exact hserved.ok
  · rw [hrequests]
    exact h.asked.mono hfilled hserved.advance.progress
  · intro hblob
    rw [hrequests]
    rcases hserved.renamed hblob with hblob | hpublishes
    · exact h.renamed hblob
    · -- the rename is a step of a completion
      have hcomplete : call.erase = .complete .sent := by
        rw [← herase]
        cases hcase : next.2 with
        | complete stage => rfl
        | _ => simp [hcase, Call.publishes] at hpublishes
      exact hcomplete ▸ List.mem_map_of_mem (List.mem_of_getElem? hcall)
  · intro hblob
    rcases hserved.renamed hblob with hblob | hpublishes
    · rcases h.published hblob with hrecord | ⟨other, hother, hpublishes⟩
      · exact Or.inl (hserved.advance.record hrecord)
      · obtain ⟨j, hj⟩ := List.mem_iff_getElem?.1 hother
        rcases eq_or_ne k j with rfl | hne
        · obtain rfl : call = other := Option.some.inj (hcall.symm.trans hj)
          exact Or.inl (hserved.published hpublishes)
        · refine Or.inr ⟨other, List.mem_iff_getElem?.2 ⟨j, ?_⟩, hpublishes⟩
          exact (List.getElem?_set_ne hne).trans hj
    · exact Or.inr ⟨next.2, hnext, hpublishes⟩
  · intro j response hphase hanswer
    rcases eq_or_ne k j with rfl | hne
    · refine hheard hphase response ?_
      simpa [World.served, hlt] using hanswer
    · exact h.heard j response hphase ((List.getElem?_set_ne hne).symm.trans hanswer)

theorem arrive
    (h : Sound name file w)
    {k : Nat} {call next : Call}
    (hcall : w.calls[k]? = some call)
    (harrive : call.arrive = some next) :
    Sound name file { w with calls := w.calls.set k next } := by
  have hsame : { w with calls := w.calls.set k next } = w.served file k (w.directory, next) := by
    have hfilled : (w.filled || w.directory.isFull file) = w.filled := by
      simpa using h.full
    simp [World.served, hfilled]
  have hok := h.calls call (List.mem_of_getElem? hcall)
  rw [hsame]
  unfold Call.arrive at harrive
  split at harrive
  · cases harrive
    exact h.set hcall ⟨h.stored, .refl, ⟨hok.1, trivial⟩, Or.inl, by simp [Call.publishes]⟩ rfl
      (by simp)
  · cases harrive
    exact h.set hcall ⟨h.stored, .refl, trivial, Or.inl, by simp [Call.publishes]⟩ rfl (by simp)
  · cases harrive
    exact h.set hcall ⟨h.stored, .refl, trivial, Or.inl, by simp [Call.publishes]⟩ rfl (by simp)
  · cases harrive

theorem serve
    (h : Sound name file w)
    {k : Nat} {call : Call} {next : Directory × Call}
    (hcall : w.calls[k]? = some call)
    (hfits : fitsOp w.directory (w.client.phase = .completing k) call = true)
    (hserve : call.serve loads w.directory = some next) :
    Sound name file (w.served file k next) := by
  have hok := h.calls call (List.mem_of_getElem? hcall)
  refine h.set hcall (served h.stored hok hfits hserve) (erase_serve hserve) ?_
  intro hphase response hnext
  rw [decide_eq_true hphase] at hfits
  exact heard_serve hfits hserve hnext

theorem crash
    (h : Sound name file w)
    (hfits : Publishing w → (w.directory.entry metaFile).isSome = true) :
    Sound name file { w with calls := w.calls.map Call.crash } := by
  have hrequests : (w.calls.map Call.crash).map Call.erase = w.requests := by
    rw [List.map_map]
    refine List.map_congr_left fun call _ => ?_
    simp only [Function.comp_apply]
    unfold Call.crash
    split <;> rfl
  constructor
  · exact h.stored
  · exact h.full
  · intro other hother
    obtain ⟨call, hcall, rfl⟩ := List.mem_map.1 hother
    have hok := h.calls call hcall
    unfold Call.crash
    split
    · exact ⟨hok.1, trivial⟩
    · trivial
    · trivial
    · exact hok
  · rw [World.requests, hrequests]
    exact h.asked
  · intro hblob
    rw [World.requests, hrequests]
    exact h.renamed hblob
  · intro hblob
    exact Or.inl ((h.published hblob).elim id hfits)
  · intro k response hphase hanswer
    refine h.heard k response hphase ?_
    rw [List.getElem?_map] at hanswer
    obtain ⟨call, hcall, hcrash⟩ := Option.map_eq_some_iff.1 hanswer
    unfold Call.crash at hcrash
    split at hcrash
    · cases hcrash
    · cases hcrash
    · cases hcrash
    · rw [hcall, hcrash]

end Sound

/-! ### Runs -/

theorem stored_initial
    (file : Bytes)
    (hname : name ∉ controlFiles) :
    Stored name file (initial name file).directory (initial name file).filled := by
  obtain ⟨hns, -, hnp⟩ := ne_of_apart hname
  have hsession :
      (initial name file).directory.entry sessionFile = some (.json ⟨name, file.length⟩) := by
    simp [initial]
  have hrecord : (initial name file).directory.entry metaFile = none := by
    simp [initial, meta_ne_session, part_ne_meta.symm]
  have hpart : (initial name file).directory.fileAt partFile = some 0 := by
    simp [initial, Directory.fileAt, part_ne_session]
  have hblob : (initial name file).directory.fileAt name = none := by
    simp [initial, Directory.fileAt, hns, hnp]
  constructor
  · exact hname
  · simp [hsession]
  · simp [hrecord]
  · simp [hsession]
  · simp [hrecord]
  · simp [hpart]
  · simp [initial]
  · simp [hblob]
  · simp [hblob]
  · intro part hfile
    obtain rfl : 0 = part := Option.some.inj (hpart.symm.trans hfile)
    exact Nat.zero_lt_one
  · simp [hblob]
  · intro hempty _
    have hempty : file = [] := by simpa [initial] using hempty
    rw [partSize_of_part hpart, hempty]
    rfl

theorem sound_initial
    (hname : name ∉ controlFiles) :
    Sound name file (initial name file) := by
  have hstored := stored_initial file hname
  obtain ⟨hns, -, hnp⟩ := ne_of_apart hname
  have hblob : (initial name file).directory.fileAt name = none := by
    simp [initial, Directory.fileAt, hns, hnp]
  constructor
  · exact hstored
  · intro hfull
    obtain ⟨part, -, hcontent⟩ := isFull_iff.1 hfull
    have hempty : [] = file := hcontent
    simp [initial, ← hempty]
  · simp [initial]
  · constructor <;> simp [initial, World.requests, Phase.isCompleting]
  · simp [hblob]
  · simp [hblob]
  · simp [initial]

theorem sound_step
    {label : Label} {next : World}
    (h : Sound name file w)
    (hfits : Fits w label)
    (hstep : step loads file w label = some next) :
    Sound name file next := by
  cases label with
  | request => exact h.request hstep
  | arrive k =>
      simp only [step] at hstep
      split at hstep
      · next call hcall =>
          obtain ⟨moved, harrive, rfl⟩ := Option.map_eq_some_iff.1 hstep
          exact h.arrive hcall harrive
      · cases hstep
  | serve k =>
      simp only [step] at hstep
      split at hstep
      · next call hcall =>
          obtain ⟨moved, hserve, rfl⟩ := Option.map_eq_some_iff.1 hstep
          refine h.serve hcall ?_ hserve
          simpa [Fits, hcall] using hfits
      · cases hstep
  | deliver fast => exact h.deliver hstep
  | fail => exact h.fail hstep
  | abort =>
      cases hstep
      exact h.abort
  | crash =>
      cases hstep
      exact h.crash hfits

theorem sound_of_reaches
    (hname : name ∉ controlFiles)
    (h : (machine loads name file).Reaches Fits w) :
    Sound name file w := by
  refine h.invariant ?_ ?_
  · rintro s rfl
    exact sound_initial hname
  · exact fun s label t hs hfits hstep => sound_step hs hfits hstep

theorem Sound.intact
    (h : Sound name file w) :
    Intact name file w := by
  constructor
  · intro hrecord
    obtain ⟨blob, hblob⟩ := Option.isSome_iff_exists.1 (h.stored.published hrecord)
    exact ⟨blob, hblob, h.stored.whole blob hblob⟩
  · exact h.stored.staged
  · intro hfilled
    cases hblob : w.directory.fileAt name with
    | some blob =>
        have hpublished := h.published (by simp [hblob])
        exact Or.inr ⟨blob, rfl, h.stored.whole blob hblob, hpublished⟩
    | none =>
        obtain ⟨part, hpart⟩ := Option.isSome_iff_exists.1 (h.stored.staging hblob)
        have hcontent := h.stored.content_of_size hpart (h.stored.full hfilled hblob)
        cases hsession : w.directory.entry sessionFile with
        | none =>
            have hsome := h.stored.blob_of_ended hsession
            rw [hblob] at hsome
            cases hsome
        | some entry =>
            exact Or.inl ⟨part, hpart, hcontent, by rw [h.stored.session entry hsession]⟩
  · exact fun _ => h.asked.reported

end Steps

section Runs

def note : Text := "note".toList

def noRecord (_ : Bytes) : Option Record := none

def shortUpload : List Label :=
  [.request, .arrive 0, .serve 0, .serve 0, .serve 0, .serve 0, .deliver true,
    .request, .arrive 1, .serve 1, .serve 1, .serve 1, .serve 1, .serve 1, .serve 1, .deliver true]

/-- Two appends check the size of the empty part before either writes. -/
def twice : List Label :=
  [.request, .arrive 0, .serve 0, .serve 0, .serve 0, .fail, .request, .fail, .request,
    .arrive 2, .serve 2, .serve 2, .serve 2, .serve 2, .serve 0]

end Runs

end Upload
end AppChat
end Vesta
