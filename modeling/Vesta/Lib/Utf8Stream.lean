import Mathlib.Algebra.Order.Ring.Nat
import Vesta.Lib.JsString

/-!
# Decoding UTF-8 as it arrives

A decoder takes one byte after another and gives out the code points that are complete,
with the replacement character for what is not well formed.  What it keeps between two
bytes is the start of a character.  Decoding a stream in pieces is therefore decoding it
whole, and a line feed ends what was begun: the lines of a stream are decoded each on
its own.
-/

namespace Vesta
namespace Lib
namespace Utf8Stream

def replacement : Nat := 0xFFFD

def byteOrderMark : Nat := 0xFEFF

/-- A character begun: how many bytes are left, its bits so far, and the bounds of the next
byte, which leave out the encodings that are too long. -/
structure Decoder where
  left : Nat
  codePoint : Nat
  lower : Nat
  upper : Nat
  continues : 0x80 ≤ lower
  fits : upper ≤ 0xBF
  shortest : 0 < left → 0x80 ≤ codePoint * 64 ^ left + (lower - 0x80) * 64 ^ (left - 1)

def ready : Decoder where
  left := 0
  codePoint := 0
  lower := 0x80
  upper := 0xBF
  continues := le_rfl
  fits := le_rfl
  shortest h := absurd h (lt_irrefl 0)

/-- The first byte of a character. -/
def lead (b : Nat) : Decoder × List Nat :=
  if b < 0x80 then (ready, [b])
  else if h : 0xC2 ≤ b ∧ b ≤ 0xDF then
    ({ left := 1
       codePoint := b % 32
       lower := 0x80
       upper := 0xBF
       continues := le_rfl
       fits := le_rfl
       shortest := fun _ => by omega }, [])
  else if h : 0xE0 ≤ b ∧ b ≤ 0xEF then
    ({ left := 2
       codePoint := b % 16
       lower := if b = 0xE0 then 0xA0 else 0x80
       upper := if b = 0xED then 0x9F else 0xBF
       continues := by split <;> omega
       fits := by split <;> omega
       shortest := fun _ => by split <;> omega }, [])
  else if h : 0xF0 ≤ b ∧ b ≤ 0xF4 then
    ({ left := 3
       codePoint := b % 8
       lower := if b = 0xF0 then 0x90 else 0x80
       upper := if b = 0xF4 then 0x8F else 0xBF
       continues := by split <;> omega
       fits := by split <;> omega
       shortest := fun _ => by split <;> omega }, [])
  else (ready, [replacement])

/-- A byte that goes on with a character: the last one completes it. -/
def Decoder.continueWith (d : Decoder) (b : Nat) (hlow : d.lower ≤ b) (hhigh : b ≤ d.upper) :
    Decoder × List Nat :=
  let codePoint := d.codePoint * 64 + b % 64
  if hlast : d.left ≤ 1 then (ready, [codePoint])
  else
    ({ left := d.left - 1
       codePoint := codePoint
       lower := 0x80
       upper := 0xBF
       continues := le_rfl
       fits := le_rfl
       shortest := fun _ => by
        have hshortest := d.shortest (by omega)
        have hlower := d.continues
        have hupper := d.fits
        have hbits : d.lower - 0x80 ≤ b % 64 := by omega
        have hpow : 64 ^ d.left = 64 * 64 ^ (d.left - 1) := by
          rw [← Nat.pow_succ', Nat.succ_eq_add_one, Nat.sub_add_cancel (by omega)]
        calc 0x80 ≤ d.codePoint * 64 ^ d.left + (d.lower - 0x80) * 64 ^ (d.left - 1) := hshortest
          _ ≤ d.codePoint * 64 ^ d.left + b % 64 * 64 ^ (d.left - 1) :=
              Nat.add_le_add_left (Nat.mul_le_mul_right _ hbits) _
          _ = codePoint * 64 ^ (d.left - 1) + (0x80 - 0x80) * 64 ^ (d.left - 1 - 1) := by
              rw [hpow, Nat.sub_self, Nat.zero_mul, Nat.add_zero, Nat.add_mul, Nat.mul_assoc] }, [])

/-- One byte; one that does not go on with the character begun is taken as a first byte. -/
def Decoder.step (d : Decoder) (b : Nat) : Decoder × List Nat :=
  if d.left = 0 then lead b
  else if h : d.lower ≤ b ∧ b ≤ d.upper then d.continueWith b h.1 h.2
  else ((lead b).1, replacement :: (lead b).2)

/-- The code points that bytes complete. -/
def Decoder.run : Decoder → List UInt8 → Decoder × List Nat
  | d, [] => (d, [])
  | d, b :: bytes =>
      let next := d.step b.toNat
      let rest := next.1.run bytes
      (rest.1, next.2 ++ rest.2)

/-- What the end of the input leaves of a character begun. -/
def Decoder.flush (d : Decoder) : List Nat := if d.left = 0 then [] else [replacement]

/-- The code points of bytes that are decoded on their own. -/
def points (bytes : List UInt8) : List Nat :=
  (ready.run bytes).2 ++ (ready.run bytes).1.flush

/-- The units of bytes that are decoded on their own. -/
def decodeUnits (bytes : List UInt8) : List Nat :=
  (points bytes).flatMap JsString.fromCodePoint

theorem run_append
    (d : Decoder)
    (a b : List UInt8) :
    d.run (a ++ b) =
      (((d.run a).1.run b).1, (d.run a).2 ++ ((d.run a).1.run b).2) := by
  induction a generalizing d with
  | nil => simp [Decoder.run]
  | cons x a ih => simp [Decoder.run, ih]

@[simp] theorem lead_of_lt
    {b : Nat}
    (h : b < 0x80) :
    lead b = (ready, [b]) := by
  simp [lead, h]

@[simp] theorem ready_step (b : Nat) : ready.step b = lead b := by
  simp [Decoder.step, ready]

/-- A byte below 0x80 ends what was begun. -/
theorem step_of_lt
    (d : Decoder)
    {b : Nat}
    (h : b < 0x80) :
    d.step b = (ready, d.flush ++ [b]) := by
  have hlower := d.continues
  have hout : ¬(d.lower ≤ b ∧ b ≤ d.upper) := by omega
  unfold Decoder.step Decoder.flush
  rw [dif_neg hout, lead_of_lt h]
  split <;> rfl

theorem ready_run_ascii
    {bytes : List UInt8}
    (h : ∀ b ∈ bytes, b.toNat < 0x80)
    (rest : List UInt8) :
    ready.run (bytes ++ rest) =
      ((ready.run rest).1, bytes.map UInt8.toNat ++ (ready.run rest).2) := by
  induction bytes with
  | nil => rfl
  | cons b bytes ih =>
      obtain ⟨hb, hrest⟩ := List.forall_mem_cons.1 h
      simp [Decoder.run, lead_of_lt hb, ih hrest]

/-- The bytes before one below 0x80 are decoded on their own. -/
theorem run_cut
    (bytes rest : List UInt8)
    {b : UInt8}
    (h : b.toNat < 0x80) :
    ready.run (bytes ++ b :: rest) =
      ((ready.run rest).1, points bytes ++ b.toNat :: (ready.run rest).2) := by
  rw [run_append, Decoder.run, step_of_lt _ h]
  simp [points]

theorem points_ascii
    {bytes : List UInt8}
    (h : ∀ b ∈ bytes, b.toNat < 0x80)
    (rest : List UInt8) :
    points (bytes ++ rest) = bytes.map UInt8.toNat ++ points rest := by
  simp [points, ready_run_ascii h]

/-! ## Line feeds -/

theorem lead_lineFeed
    {b : Nat}
    (h : 10 ∈ (lead b).2) :
    b = 10 := by
  unfold lead at h
  split at h
  · exact (List.mem_singleton.1 h).symm
  · split at h
    · cases h
    · split at h
      · cases h
      · split at h
        · cases h
        · simp [replacement] at h

theorem step_lineFeed
    {d : Decoder} {b : Nat}
    (h : 10 ∈ (d.step b).2) :
    b = 10 := by
  unfold Decoder.step at h
  split at h
  · exact lead_lineFeed h
  · split at h
    · -- A character of several bytes is not a line feed.
      rename_i hmore hbounds
      exfalso
      unfold Decoder.continueWith at h
      dsimp only at h
      split at h
      · rename_i hlast
        have hone : d.left = 1 := by omega
        have hshortest := d.shortest (by omega)
        have hlower := d.continues
        have hupper := d.fits
        rw [hone] at hshortest
        simp only [List.mem_singleton] at h
        omega
      · cases h
    · rcases List.mem_cons.1 h with h | h
      · simp [replacement] at h
      · exact lead_lineFeed h

theorem run_lineFeed
    {d : Decoder} {bytes : List UInt8}
    (h : 10 ∈ (d.run bytes).2) :
    10 ∈ bytes := by
  induction bytes generalizing d with
  | nil => cases h
  | cons b bytes ih =>
      rcases List.mem_append.1 h with h | h
      · exact List.mem_cons.2 (.inl (UInt8.toNat_inj.1 (step_lineFeed h).symm))
      · exact List.mem_cons_of_mem _ (ih h)

theorem fromCodePoint_lineFeed
    {n : Nat}
    (h : 10 ∈ JsString.fromCodePoint n) :
    n = 10 := by
  unfold JsString.fromCodePoint at h
  split at h
  · exact (List.mem_singleton.1 h).symm
  · simp only [List.mem_cons, List.not_mem_nil, or_false] at h
    omega

theorem decodeUnits_lineFeed
    {bytes : List UInt8}
    (h : 10 ∈ decodeUnits bytes) :
    10 ∈ bytes := by
  obtain ⟨n, hn, hmem⟩ := List.mem_flatMap.1 h
  cases fromCodePoint_lineFeed hmem
  rcases List.mem_append.1 hn with hn | hn
  · exact run_lineFeed hn
  · unfold Decoder.flush at hn
    split at hn <;> simp [replacement] at hn

/-! ## The decoder of the platform -/

/-- `TextDecoder`: it leaves out a byte order mark at the start. -/
structure TextDecoder where
  bomSeen : Bool
  decoder : Decoder

namespace TextDecoder

def new : TextDecoder := ⟨false, ready⟩

/-- The code points without the mark, if they are the first ones and begin with it. -/
def dropMark (bomSeen : Bool) (points : List Nat) : Bool × List Nat :=
  match bomSeen, points with
  | true, points => (true, points)
  | false, [] => (false, [])
  | false, point :: points =>
      (true, if point = byteOrderMark then points else point :: points)

/-- `decoder.decode(bytes, { stream: true })` -/
def decode (d : TextDecoder) (bytes : List UInt8) : TextDecoder × List Nat :=
  let ran := d.decoder.run bytes
  let kept := dropMark d.bomSeen ran.2
  (⟨kept.1, ran.1⟩, kept.2.flatMap JsString.fromCodePoint)

/-- The text of a whole body. -/
def text (bytes : List UInt8) : List Nat :=
  let decoded := new.decode bytes
  decoded.2 ++ decoded.1.decoder.flush.flatMap JsString.fromCodePoint

theorem dropMark_append
    (bomSeen : Bool)
    (a b : List Nat) :
    dropMark bomSeen (a ++ b) =
      ((dropMark (dropMark bomSeen a).1 b).1,
        (dropMark bomSeen a).2 ++ (dropMark (dropMark bomSeen a).1 b).2) := by
  cases bomSeen with
  | true => rfl
  | false =>
      cases a with
      | nil => rfl
      | cons x a =>
          simp only [List.cons_append, dropMark]
          split <;> rfl

/-- Decoding is incremental. -/
theorem decode_append
    (d : TextDecoder)
    (a b : List UInt8) :
    d.decode (a ++ b) =
      (((d.decode a).1.decode b).1, (d.decode a).2 ++ ((d.decode a).1.decode b).2) := by
  simp [decode, run_append, dropMark_append]

/-- The text of bytes that begin with one below 0x80. -/
theorem decode_new_of_lt
    {b : UInt8}
    (h : b.toNat < 0x80)
    (bytes : List UInt8) :
    new.decode (b :: bytes) =
      (⟨true, (ready.run (b :: bytes)).1⟩,
        (ready.run (b :: bytes)).2.flatMap JsString.fromCodePoint) := by
  have hmark : b.toNat ≠ byteOrderMark := by unfold byteOrderMark; omega
  simp [decode, new, Decoder.run, lead_of_lt h, dropMark, hmark]

end TextDecoder

end Utf8Stream
end Lib
end Vesta
