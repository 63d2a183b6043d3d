import SparkleWayland.Were.RingBuffer

/-!
# The audio player (`sparkle_android/sparkle_player.cpp`)

The player reads the shared ring and hands one region at a time to the OpenSL
buffer queue, which plays it where it lies and calls back when it is done. The
buffer queue is a list of regions; every region keeps the bytes it held when it
was enqueued, and the queue keeps all regions it was ever given, so that what
was played can be compared with what was written.
-/

namespace SparkleWayland

/-! ## The buffer queue -/

/-- One `Enqueue`: a region of `data`, and the bytes it held at that moment. -/
structure Enqueued where
  offset : Nat
  length : Nat
  bytes : List Byte
  deriving DecidableEq

/-- `player_buffer_queue_`: the regions not yet called back, and all regions ever
enqueued. -/
structure BufferQueue where
  pending : List Enqueued
  history : List Enqueued
  deriving DecidableEq

namespace BufferQueue

/-- `Enqueue`. -/
def enqueue (queue : BufferQueue) (e : Enqueued) : BufferQueue where
  pending := queue.pending ++ [e]
  history := queue.history ++ [e]

/-- `Clear`. -/
def clear (queue : BufferQueue) : BufferQueue where
  pending := []
  history := queue.history

/-- The enqueued regions, one after the other. -/
def enqueuedBytes (queue : BufferQueue) : List Byte :=
  queue.history.flatMap Enqueued.bytes

@[simp] theorem enqueuedBytes_enqueue (queue : BufferQueue) (e : Enqueued) :
    (queue.enqueue e).enqueuedBytes = queue.enqueuedBytes ++ e.bytes := by
  simp [enqueuedBytes, enqueue]

@[simp] theorem enqueuedBytes_clear (queue : BufferQueue) :
    queue.clear.enqueuedBytes = queue.enqueuedBytes := rfl

end BufferQueue

/-! ## The player -/

/-- `SL_PLAYSTATE_STOPPED`. -/
def playStateStopped : UInt32 := 1

/-- `SL_PLAYSTATE_PLAYING`. -/
def playStatePlaying : UInt32 := 3

/-- `sparkle_player`. `hasBuffer` is `buffer_ != nullptr`; the buffer itself is
shared with the client and passed to every operation. -/
structure Player where
  state : UInt32
  playing : Int32
  hasBuffer : Bool
  checkTimer : Bool
  queue : BufferQueue

namespace Player

/-- `sparkle_player::check`. -/
def check (player : Player) (buffer : RingBuffer) : Player :=
  if player.state = playStatePlaying ∧ player.playing = 0 ∧ player.hasBuffer = true then
    let n := buffer.bytesAvailable
    if n < 1 then player
    else
      let n := if n > 8192 then 8192 else n
      let region := buffer.readStart n
      let offset := region.1.toInt.toNat
      let length := region.2.toInt.toNat
      { player with
        queue := player.queue.enqueue ⟨offset, length, buffer.data.read offset length⟩
        playing := region.2 }
  else player

/-- `sparkle_player::callback`; the signal it posts at its end has no part here. -/
def callback (player : Player) (buffer : RingBuffer) : Player × RingBuffer :=
  if player.state ≠ playStatePlaying then (player, buffer)
  else
    let buffer := buffer.readFinish player.playing
    let player := { player with playing := 0 }
    (player.check buffer, buffer)

/-- `sparkle_player::start`. -/
def start (player : Player) (buffer : RingBuffer) : Player :=
  if player.state ≠ playStatePlaying then
    let player := { player with state := playStatePlaying, playing := 0 }
    { player.check buffer with checkTimer := true }
  else player

/-- `sparkle_player::stop`. -/
def stop (player : Player) (buffer : RingBuffer) : Player × RingBuffer :=
  if player.state ≠ playStateStopped then
    ({ player with
        checkTimer := false
        state := playStateStopped
        queue := player.queue.clear
        playing := 0 },
      if player.hasBuffer then buffer.reset else buffer)
  else (player, buffer)

/-- `check` touches nothing but the region at the buffer queue. -/
theorem check_keeps (player : Player) (buffer : RingBuffer) :
    (player.check buffer).state = player.state ∧
      (player.check buffer).hasBuffer = player.hasBuffer ∧
      (player.check buffer).checkTimer = player.checkTimer := by
  rw [check]
  split
  · dsimp only
    split <;> exact ⟨rfl, rfl, rfl⟩
  · exact ⟨rfl, rfl, rfl⟩

/-- Neither does `callback`, which moves the read position besides. -/
theorem callback_keeps (player : Player) (buffer : RingBuffer) :
    ((player.callback buffer).1.state = player.state ∧
      (player.callback buffer).1.hasBuffer = player.hasBuffer ∧
      (player.callback buffer).1.checkTimer = player.checkTimer) ∧
    (player.callback buffer).2.size = buffer.size := by
  rw [callback]
  split
  · exact ⟨⟨rfl, rfl, rfl⟩, rfl⟩
  · exact ⟨check_keeps _ _, rfl⟩

/-- The buffer queue is done with the region it was given first, and calls back. -/
def regionDone (player : Player) (buffer : RingBuffer) : Option (Player × RingBuffer) :=
  match player.queue.pending with
  | [] => none
  | _ :: rest =>
    some (callback { player with queue := { player.queue with pending := rest } } buffer)

end Player

end SparkleWayland
