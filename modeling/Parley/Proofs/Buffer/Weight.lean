import Parley.Proofs.Buffer.Waiting

/-!
# The weight of a buffer

A turn of a party that does not wait makes a buffer lighter, together with what its writer has
still to write. A byte is the heavier the further it has to go, and a wake-up costs less than the
byte that gave rise to it.
-/

namespace Parley

/-- A thread that is about to take a turn weighs more than one that waits. -/
def Stance.weight : Stance → Nat
  | waiting => 0
  | running | notified => 1

@[simp] theorem Stance.weight_waiting : waiting.weight = 0 := rfl

@[simp] theorem Stance.weight_running : running.weight = 1 := rfl

theorem Stance.weight_of_ne_waiting {stance : Stance} (h : stance ≠ .waiting) :
    stance.weight = 1 := by
  cases stance with
  | waiting => exact absurd rfl h
  | running | notified => rfl

theorem Stance.weight_notify_le (stance : Stance) : stance.notify.weight ≤ stance.weight + 1 := by
  cases stance <;> simp [notify, weight]

/-- The bytes that a turn leaves to its writer. -/
def Offered.left : Offered → List UInt8
  | accepted => []
  | refused _ left | waiting left => left

namespace Buffer

variable {buffer buffer' : Buffer} {bytes : List UInt8} {n : Nat}

/-- A byte held weighs two, as much as a wake-up and some more. -/
def weight (buffer : Buffer) : Nat :=
  2 * buffer.ring.size + buffer.writer.weight + buffer.reader.weight

/-- A byte weighs three before it is held, and a writer loses weight when it has to wait. -/
theorem OfferTurn.weight_le {result : Offered} (t : OfferTurn buffer bytes buffer' result)
    (ha : buffer.writer ≠ .waiting) :
    buffer'.weight + 3 * result.left.length + (1 - result.stance.weight) ≤
      buffer.weight + 3 * bytes.length := by
  have hawake := Stance.weight_of_ne_waiting ha
  have hnotify := buffer.reader.weight_notify_le
  cases t with
  | nothing | closed | readerGone | full =>
    simp [weight, Offered.left, Offered.stance]
    omega
  | whole hne _ _ hr =>
    have hlen : 0 < bytes.length := List.length_pos_iff.mpr hne
    simp only [weight, Offered.left, Offered.stance, Stance.weight_running, Ring.size_push,
      List.length_nil]
    omega
  | part _ _ hpos hr =>
    simp only [weight, Offered.left, Offered.stance, Stance.weight_waiting, Ring.size_push,
      List.length_drop]
    omega

theorem TakeTurn.weight_le {result : Taken} (t : TakeTurn buffer n buffer' result)
    (hn : 0 < n) (ha : buffer.reader ≠ .waiting) :
    buffer'.weight ≤ buffer.weight ∧ (result ≠ .ended → buffer'.weight < buffer.weight) := by
  have hawake := Stance.weight_of_ne_waiting ha
  have hnotify := buffer.writer.weight_notify_le
  cases t with
  | nothing h => omega
  | ended | empty => simp [weight, hawake]
  | some _ hs =>
    simp only [weight, Stance.weight_running, Ring.size_pop]
    omega

theorem weight_close_le (buffer : Buffer) : buffer.close.weight ≤ buffer.weight + 1 := by
  have hnotify := buffer.reader.weight_notify_le
  unfold close
  split
  · omega
  · simp only [weight]
    omega

theorem weight_dropReader_le (buffer : Buffer) :
    buffer.dropReader.weight ≤ buffer.weight + 1 := by
  have hnotify := buffer.writer.weight_notify_le
  simp only [weight, dropReader]
  omega

end Buffer

end Parley
