import SparkleWayland.Were.RingBuffer

/-!
# The ALSA plugin (`pcm_sparkle/pcm_sparkle.c`)

The producer side of the shared ring: `sparkle_write` copies at most one period
into it, and `sparkle_pointer` reports how far the player has read.
-/

namespace SparkleWayland

/-- `sparkle_period_size`. -/
def sparklePeriodSize : Int32 := 65536 / 8

/-- `frame_bytes`, as `sparkle_hw_params` computes it for the one format and the
one channel count that `sparkle_hw_constraint` allows: 16 bits, two channels. -/
def frameBytes : UInt32 := 16 * 2 / 8

/-- The arguments of one transfer: the memory of the area with its first bit and
bit step, and the offset and size in frames. -/
structure Transfer where
  addr : Memory Byte
  first : UInt32
  step : UInt32
  offset : UInt64
  size : UInt64

/-- Where in the area the transfer starts. -/
def Transfer.data (t : Transfer) : Nat :=
  ((t.first.toUInt64 + t.step.toUInt64 * t.offset) / 8).toNat

/-- `sparkle_write`: the ring afterwards, and the number of frames accepted. -/
def sparkleWrite (buffer : RingBuffer) (t : Transfer) : RingBuffer × UInt32 :=
  let sizeBytes := UInt64.asInt (t.size * frameBytes.toUInt64)
  let sizeBytes := if sizeBytes > sparklePeriodSize then sparklePeriodSize else sizeBytes
  let region := buffer.writeStart sizeBytes
  let n := region.2
  let data := buffer.data.copy t.addr region.1.toInt.toNat t.data (Int32.asUInt64 n).toNat
  ({ buffer with data := data }.writeFinish n, n.toUInt32 / frameBytes)

/-- The bytes of the frames that `sparkle_write` says it accepted. -/
def acceptedBytes (buffer : RingBuffer) (t : Transfer) : List Byte :=
  t.addr.read t.data ((sparkleWrite buffer t).2.toNat * frameBytes.toNat)

/-- `sparkle_pointer`, in frames. -/
def sparklePointer (buffer : RingBuffer) : UInt64 :=
  buffer.readPosition / frameBytes.toUInt64

end SparkleWayland
