import SparkleWayland.Audio.Player
import SparkleWayland.Lib.Machine
import Mathlib.Logic.Function.Basic

/-!
# Who owns the ring (`sparkle_android/sparkle_audio.cpp`)

A client hands over a descriptor, the service maps it and gives the mapping to the
player; all three fields are set by `read` and taken back by `disconnect_client`.
`read` takes one code after the other. Its branch for the code 0 is not joined to
those that follow, so that a 0 ends up with the codes nobody knows, and its branch for
the code 1 overwrites both fields whatever they hold. `inOrder_iff` says that all is
well exactly as long as neither happens.

Received descriptors and mappings are numbered in the order in which the service got
them; the kernel counts for each how often it was closed or unmapped.
-/

namespace SparkleWayland

/-- A message of the client: its code and, after the code 1, the memory behind the
descriptor that comes with it. -/
structure ClientMessage where
  code : UInt64
  memory : RingBuffer

/-- `sparkle_audio` with its player, and what the kernel keeps for it. `handedOver` is
the history of the current session: a code 1 was received. -/
structure SparkleAudio where
  player : Player
  /-- `buffer_` of the player, which is `buffer_` of the service or null. -/
  playerBuffer : Option Nat
  bufferFd : Option Nat
  buffer : Option Nat
  connected : Bool
  received : Nat
  closes : Nat → Nat
  mapped : Nat
  unmaps : Nat → Nat
  rings : Nat → RingBuffer
  handedOver : Bool
  threw : Bool

namespace SparkleAudio

/-! ## The player -/

/-- What a player without a buffer is given; it does not look at it. -/
def noRing : RingBuffer := ⟨0, 0, 0, fun _ => 0⟩

/-- The memory that the player's pointer leads to. -/
def playerRing (s : SparkleAudio) : RingBuffer := (s.playerBuffer.map s.rings).getD noRing

/-- `player_->start()` -/
def startPlayer (s : SparkleAudio) : SparkleAudio :=
  { s with player := s.player.start s.playerRing }

/-- `player_->stop()` -/
def stopPlayer (s : SparkleAudio) : SparkleAudio :=
  { s with
    player := (s.player.stop s.playerRing).1
    rings := match s.playerBuffer with
      | none => s.rings
      | some b => Function.update s.rings b (s.player.stop s.playerRing).2 }

/-- `sparkle_player::set_buffer` -/
def setBuffer (s : SparkleAudio) (buffer : Option Nat) : SparkleAudio :=
  { s with playerBuffer := buffer, player := { s.player with hasBuffer := buffer.isSome } }

/-! ## The service -/

/-- `receive_fds`, of a message that has one. -/
def receiveFd (s : SparkleAudio) : SparkleAudio :=
  { s with bufferFd := some s.received, received := s.received + 1 }

/-- `were1_tmpfile_map`, of memory that can be mapped. -/
def tmpfileMap (s : SparkleAudio) (memory : RingBuffer) : SparkleAudio :=
  { s with
    buffer := some s.mapped
    mapped := s.mapped + 1
    rings := Function.update s.rings s.mapped memory }

/-- One round of the loop in `sparkle_audio::read`; `none` is an exception. -/
def receive (s : SparkleAudio) (m : ClientMessage) : Option SparkleAudio :=
  -- an `if` of its own: what follows is not its `else`
  let s := if m.code = 0 then s else s
  if m.code = 1 then
    let s := (s.receiveFd.tmpfileMap m.memory)
    some { s.setBuffer s.buffer with handedOver := true }
  else if m.code = 2 then some s.startPlayer
  else if m.code = 3 then some s.stopPlayer
  else none

/-- `sparkle_audio::read`, when these messages are there to be read. -/
def read (s : SparkleAudio) : List ClientMessage → SparkleAudio
  | [] => s
  | m :: rest =>
    match s.receive m with
    | none => { s with threw := true }
    | some s => s.read rest

/-- `sparkle_audio::connect_client`. A second client is rejected. -/
def connectClient (s : SparkleAudio) : SparkleAudio :=
  if s.connected then s else { s.stopPlayer with connected := true }

/-- `were1_tmpfile_unmap` -/
def tmpfileUnmap (s : SparkleAudio) : SparkleAudio :=
  match s.buffer with
  | none => s
  | some b =>
    { s.setBuffer none with
      unmaps := Function.update s.unmaps b (s.unmaps b + 1)
      buffer := none }

/-- `close(buffer_fd_)` -/
def closeFd (s : SparkleAudio) : SparkleAudio :=
  match s.bufferFd with
  | none => s
  | some fd =>
    { s with closes := Function.update s.closes fd (s.closes fd + 1), bufferFd := none }

/-- `sparkle_audio::disconnect_client` -/
def disconnectClient (s : SparkleAudio) : SparkleAudio :=
  if s.connected then
    { s.stopPlayer.tmpfileUnmap.closeFd with connected := false, handedOver := false }
  else s

/-- What happens to the service. -/
inductive Event where
  | newConnection
  | read (messages : List ClientMessage)
  | disconnect

/-- One event. The codes of a well-formed client are 0 to 3; an exception ends the
program. -/
def step (s : SparkleAudio) (e : Event) : Option SparkleAudio :=
  if s.threw then none
  else
    match e with
    | .newConnection => some s.connectClient
    | .read messages =>
      if s.connected ∧ ∀ m ∈ messages, m.code ≤ 3 then some (s.read messages) else none
    | .disconnect => if s.connected then some s.disconnectClient else none

/-- A service as its constructor leaves it, with a stopped player. -/
def constructed : SparkleAudio where
  player := ⟨playStateStopped, 0, false, false, ⟨[], []⟩⟩
  playerBuffer := none
  bufferFd := none
  buffer := none
  connected := false
  received := 0
  closes _ := 0
  mapped := 0
  unmaps _ := 0
  rings _ := noRing
  handedOver := false
  threw := false

def machine : Machine SparkleAudio Event := Machine.ofStep (fun s => s = constructed) step

/-! ## Owning nothing twice -/

/-- The received descriptors that have not been closed. -/
def openFds (s : SparkleAudio) : List Nat := (List.range s.received).filter (s.closes · = 0)

/-- The mappings that have not been unmapped. -/
def openMappings (s : SparkleAudio) : List Nat := (List.range s.mapped).filter (s.unmaps · = 0)

/-- What the service owes at every point. -/
structure Orderly (s : SparkleAudio) : Prop where
  quiet : s.threw = false
  /-- What is open is `buffer_fd_`, and there is one just if a code 1 was received. -/
  fd : s.openFds = s.bufferFd.toList
  fdReceived : s.bufferFd.isSome = s.handedOver
  mapping : s.openMappings = s.buffer.toList
  mappingReceived : s.buffer.isSome = s.handedOver
  playerBuffer : s.playerBuffer = s.buffer
  closedOnce : ∀ i, s.closes i ≤ 1
  unmappedOnce : ∀ i, s.unmaps i ≤ 1
  disconnected : s.connected = false →
    (∀ i < s.received, s.closes i = 1) ∧ ∀ i < s.mapped, s.unmaps i = 1
  /-- A second client changes nothing. -/
  second : s.connected = true → s.connectClient = s

/-- No message has the code 0, and the session has one message with the code 1 at most. -/
def InOrder (s : SparkleAudio) : Event → Prop
  | .read messages =>
    (∀ m ∈ messages, m.code ≠ 0) ∧
      messages.countP (fun m => m.code = 1) + (if s.handedOver then 1 else 0) ≤ 1
  | _ => True

/-! ## What holds of every state -/

/-- The fields agree, and nothing is given back that is not held. -/
structure Balanced (s : SparkleAudio) : Prop where
  fdOpen : ∀ i, s.bufferFd = some i → i < s.received ∧ s.closes i = 0
  mappingOpen : ∀ i, s.buffer = some i → i < s.mapped ∧ s.unmaps i = 0
  fdReceived : s.bufferFd.isSome = s.handedOver
  mappingReceived : s.buffer.isSome = s.handedOver
  playerBuffer : s.playerBuffer = s.buffer
  closedOnce : ∀ i, s.closes i ≤ 1
  unmappedOnce : ∀ i, s.unmaps i ≤ 1
  fdFresh : ∀ i, s.received ≤ i → s.closes i = 0
  mappingFresh : ∀ i, s.mapped ≤ i → s.unmaps i = 0
  idle : s.connected = false → s.handedOver = false

/-- Whatever is open is held in a field. -/
structure NothingLost (s : SparkleAudio) : Prop where
  fds : ∀ i < s.received, s.closes i = 0 → s.bufferFd = some i
  mappings : ∀ i < s.mapped, s.unmaps i = 0 → s.buffer = some i

/-- The numbers below `n` with count zero are those of `held`. -/
theorem filter_range_eq_toList_iff {n : Nat} {count : Nat → Nat} {held : Option Nat}
    (hheld : ∀ i, held = some i → i < n ∧ count i = 0) :
    (List.range n).filter (count · = 0) = held.toList ↔
      ∀ i < n, count i = 0 → held = some i := by
  have hmem : ∀ i, i ∈ (List.range n).filter (count · = 0) ↔ i < n ∧ count i = 0 := by
    simp
  constructor
  · intro h i hi hzero
    have hin := (hmem i).mpr ⟨hi, hzero⟩
    rw [h] at hin
    exact Option.mem_toList.mp hin
  · intro h
    cases hcase : held with
    | none =>
      refine List.eq_nil_iff_forall_not_mem.mpr fun i hi => ?_
      obtain ⟨hlt, hzero⟩ := (hmem i).mp hi
      rw [h i hlt hzero] at hcase
      cases hcase
    | some j =>
      have hnodup : ((List.range n).filter (count · = 0)).Nodup := List.nodup_range.filter _
      refine List.perm_singleton.mp ((List.perm_ext_iff_of_nodup hnodup (by simp)).mpr
        fun i => ?_)
      rw [hmem, List.mem_singleton]
      constructor
      · rintro ⟨hlt, hzero⟩
        have := (h i hlt hzero).symm.trans hcase
        exact Option.some.inj this
      · rintro rfl
        exact hheld i hcase

theorem Balanced.orderly_iff {s : SparkleAudio} (h : s.Balanced) :
    s.Orderly ↔ s.threw = false ∧ s.NothingLost := by
  have hfds := filter_range_eq_toList_iff h.fdOpen
  have hmappings := filter_range_eq_toList_iff h.mappingOpen
  constructor
  · exact fun ho => ⟨ho.quiet, hfds.mp ho.fd, hmappings.mp ho.mapping⟩
  · rintro ⟨hquiet, hlost⟩
    refine ⟨hquiet, hfds.mpr hlost.fds, h.fdReceived, hmappings.mpr hlost.mappings,
      h.mappingReceived, h.playerBuffer, h.closedOnce, h.unmappedOnce, fun hdis => ?_,
      fun hconnected => if_pos hconnected⟩
    -- nothing is held while nobody is connected, so nothing may be open
    have hnone := h.idle hdis
    constructor
    · intro i hi
      have hne : s.closes i ≠ 0 := fun hzero => by
        have hreceived := h.fdReceived
        rw [hlost.fds i hi hzero, hnone] at hreceived
        cases hreceived
      have := h.closedOnce i
      omega
    · intro i hi
      have hne : s.unmaps i ≠ 0 := fun hzero => by
        have hreceived := h.mappingReceived
        rw [hlost.mappings i hi hzero, hnone] at hreceived
        cases hreceived
      have := h.unmappedOnce i
      omega

theorem constructed_balanced : constructed.Balanced where
  fdOpen := nofun
  mappingOpen := nofun
  fdReceived := rfl
  mappingReceived := rfl
  playerBuffer := rfl
  closedOnce := fun _ => Nat.zero_le _
  unmappedOnce := fun _ => Nat.zero_le _
  fdFresh := fun _ _ => rfl
  mappingFresh := fun _ _ => rfl
  idle := fun _ => rfl

theorem constructed_nothingLost : constructed.NothingLost :=
  ⟨nofun, nofun⟩

/-- Starting or stopping the player is not the owner's business. -/
theorem balanced_congr {s : SparkleAudio} (h : s.Balanced) (s' : SparkleAudio)
    (hbuffer : s'.playerBuffer = s.playerBuffer) (hfd : s'.bufferFd = s.bufferFd)
    (hmapping : s'.buffer = s.buffer)
    (hclosed : s'.received = s.received ∧ s'.closes = s.closes)
    (hunmapped : s'.mapped = s.mapped ∧ s'.unmaps = s.unmaps)
    (hover : s'.handedOver = s.handedOver)
    (hconnected : s'.connected = false → s.connected = false) :
    s'.Balanced ∧ (s'.NothingLost ↔ s.NothingLost) := by
  obtain ⟨hreceived, hcloses⟩ := hclosed
  obtain ⟨hmapped, hunmaps⟩ := hunmapped
  refine ⟨⟨?_, ?_, ?_, ?_, ?_, ?_, ?_, ?_, ?_, ?_⟩, ?_, ?_⟩
  · rw [hfd, hreceived, hcloses]
    exact h.fdOpen
  · rw [hmapping, hmapped, hunmaps]
    exact h.mappingOpen
  · rw [hfd, hover]
    exact h.fdReceived
  · rw [hmapping, hover]
    exact h.mappingReceived
  · rw [hbuffer, hmapping]
    exact h.playerBuffer
  · rw [hcloses]
    exact h.closedOnce
  · rw [hunmaps]
    exact h.unmappedOnce
  · rw [hreceived, hcloses]
    exact h.fdFresh
  · rw [hmapped, hunmaps]
    exact h.mappingFresh
  · rw [hover]
    exact fun hc => h.idle (hconnected hc)
  · rintro ⟨hfds, hmappings⟩
    rw [hreceived, hcloses, hfd] at hfds
    rw [hmapped, hunmaps, hmapping] at hmappings
    exact ⟨hfds, hmappings⟩
  · rintro ⟨hfds, hmappings⟩
    refine ⟨?_, ?_⟩
    · rw [hreceived, hcloses, hfd]
      exact hfds
    · rw [hmapped, hunmaps, hmapping]
      exact hmappings

/-- The code 1. What was held before is lost. -/
theorem receive_one {s : SparkleAudio} (h : s.Balanced) (hconnected : s.connected = true)
    (memory : RingBuffer) :
    let s' := { (s.receiveFd.tmpfileMap memory).setBuffer (some s.mapped) with handedOver := true }
    s'.Balanced ∧ (s'.NothingLost ↔ s.NothingLost ∧ s.handedOver = false) := by
  refine ⟨⟨?_, ?_, rfl, rfl, rfl, h.closedOnce, h.unmappedOnce, ?_, ?_, ?_⟩, ?_, ?_⟩
  · rintro i ⟨⟩
    exact ⟨Nat.lt_succ_self _, h.fdFresh _ (Nat.le_refl _)⟩
  · rintro i ⟨⟩
    exact ⟨Nat.lt_succ_self _, h.mappingFresh _ (Nat.le_refl _)⟩
  · exact fun i hi => h.fdFresh i (Nat.le_of_succ_le hi)
  · exact fun i hi => h.mappingFresh i (Nat.le_of_succ_le hi)
  · intro hc
    rw [show s.connected = false from hc] at hconnected
    cases hconnected
  · rintro ⟨hfds, hmappings⟩
    -- what is open below the new number would have to be the new number
    have hfd : ∀ i < s.received, s.closes i ≠ 0 := fun i hi hzero => by
      have heq : some s.received = some i := hfds i (Nat.lt_succ_of_lt hi) hzero
      exact Nat.ne_of_gt hi (Option.some.inj heq)
    have hmapping : ∀ i < s.mapped, s.unmaps i ≠ 0 := fun i hi hzero => by
      have heq : some s.mapped = some i := hmappings i (Nat.lt_succ_of_lt hi) hzero
      exact Nat.ne_of_gt hi (Option.some.inj heq)
    refine ⟨⟨fun i hi hzero => absurd hzero (hfd i hi),
      fun i hi hzero => absurd hzero (hmapping i hi)⟩, ?_⟩
    rw [← h.fdReceived]
    cases hcase : s.bufferFd with
    | none => rfl
    | some i => exact absurd (h.fdOpen i hcase).2 (hfd i (h.fdOpen i hcase).1)
  · rintro ⟨⟨hfds, hmappings⟩, hnone⟩
    have hfd := h.fdReceived
    have hmapping := h.mappingReceived
    rw [hnone, Option.isSome_eq_false_iff, Option.isNone_iff_eq_none] at hfd hmapping
    refine ⟨fun i hi hzero => ?_, fun i hi hzero => ?_⟩
    · rcases Nat.lt_succ_iff_lt_or_eq.mp hi with hlt | rfl
      · cases hfd.symm.trans (hfds i hlt hzero)
      · rfl
    · rcases Nat.lt_succ_iff_lt_or_eq.mp hi with hlt | rfl
      · cases hmapping.symm.trans (hmappings i hlt hzero)
      · rfl

/-- The branch for the code 0 does nothing, and the chain that follows decides. -/
theorem receive_eq (s : SparkleAudio) (m : ClientMessage) :
    s.receive m =
      if m.code = 1 then
        some { (s.receiveFd.tmpfileMap m.memory).setBuffer (some s.mapped) with handedOver := true }
      else if m.code = 2 then some s.startPlayer
      else if m.code = 3 then some s.stopPlayer
      else none := by
  simp only [receive, ite_self]
  rfl

/-- One round of the loop, for a code of a well-formed client. -/
theorem receive_spec {s : SparkleAudio} {m : ClientMessage} (h : s.Balanced)
    (hconnected : s.connected = true) (hcode : m.code ≤ 3) :
    (m.code = 0 ∧ s.receive m = none) ∨
      ∃ s', s.receive m = some s' ∧ m.code ≠ 0 ∧ s'.Balanced ∧ s'.connected = true ∧
        s'.threw = s.threw ∧
        s'.handedOver = (s.handedOver || decide (m.code = 1)) ∧
        (s'.NothingLost ↔ s.NothingLost ∧ (m.code = 1 → s.handedOver = false)) := by
  rw [receive_eq]
  by_cases h1 : m.code = 1
  · obtain ⟨hbalanced, hlost⟩ := receive_one h hconnected m.memory
    refine Or.inr ⟨_, if_pos h1, by simp [h1], hbalanced, hconnected, rfl, by simp [h1], ?_⟩
    rw [hlost]
    simp [h1]
  · rw [if_neg h1]
    by_cases h2 : m.code = 2
    · obtain ⟨hbalanced, hlost⟩ := balanced_congr h s.startPlayer rfl rfl rfl ⟨rfl, rfl⟩
        ⟨rfl, rfl⟩ rfl id
      exact Or.inr ⟨_, if_pos h2, by simp [h2], hbalanced, hconnected, rfl,
        by simp [h1, startPlayer], by simp [hlost, h1]⟩
    · rw [if_neg h2]
      by_cases h3 : m.code = 3
      · obtain ⟨hbalanced, hlost⟩ := balanced_congr h s.stopPlayer rfl rfl rfl ⟨rfl, rfl⟩
          ⟨rfl, rfl⟩ rfl id
        exact Or.inr ⟨_, if_pos h3, by simp [h3], hbalanced, hconnected, rfl,
          by simp [h1, stopPlayer], by simp [hlost, h1]⟩
      · -- of the codes up to 3 only the 0 is left
        refine Or.inl ⟨?_, if_neg h3⟩
        simp only [UInt64.le_iff_toNat_le, UInt64.toNat_inj.symm] at hcode h1 h2 h3 ⊢
        have : m.code.toNat ≤ 3 := hcode
        have : m.code.toNat ≠ 1 := h1
        have : m.code.toNat ≠ 2 := h2
        have : m.code.toNat ≠ 3 := h3
        show m.code.toNat = 0
        omega

/-- The loop, over the codes of a well-formed client. -/
theorem read_spec {s : SparkleAudio} {messages : List ClientMessage} (h : s.Balanced)
    (hconnected : s.connected = true) (hquiet : s.threw = false)
    (hcodes : ∀ m ∈ messages, m.code ≤ 3) :
    (s.read messages).Balanced ∧
      ((s.read messages).threw = false ∧ (s.read messages).NothingLost ↔
        s.NothingLost ∧ s.InOrder (.read messages)) := by
  induction messages generalizing s with
  | nil =>
    refine ⟨h, ?_⟩
    have hle : (if s.handedOver then 1 else 0) ≤ 1 := by split <;> decide
    simp [read, InOrder, hquiet, hle]
  | cons m rest ih =>
    rcases receive_spec h hconnected (hcodes m List.mem_cons_self) with
      ⟨hzero, hnone⟩ | ⟨s', hs', hne, hbalanced, hconnected', hthrew, hover, hlost⟩
    · have hread : s.read (m :: rest) = { s with threw := true } := by rw [read, hnone]
      rw [hread]
      have hcongr :=
        balanced_congr h { s with threw := true } rfl rfl rfl ⟨rfl, rfl⟩ ⟨rfl, rfl⟩ rfl id
      refine ⟨hcongr.1, ?_⟩
      simp [InOrder, hzero]
    · have hread : s.read (m :: rest) = s'.read rest := by rw [read, hs']
      rw [hread]
      obtain ⟨hrest, hiff⟩ := ih hbalanced hconnected' (hthrew.trans hquiet)
        fun m hm => hcodes m (List.mem_cons_of_mem _ hm)
      refine ⟨hrest, ?_⟩
      rw [hiff, hlost, and_assoc]
      refine and_congr_right fun _ => ?_
      simp only [InOrder, hover, List.forall_mem_cons, List.countP_cons]
      by_cases h1 : m.code = 1
      · cases hcase : s.handedOver <;> simp [h1]
      · simp [h1, hne]

/-- Counting something that is open once. -/
theorem update_one {n k : Nat} {count : Nat → Nat} (honce : ∀ i, count i ≤ 1)
    (hfresh : ∀ i, n ≤ i → count i = 0) (hk : k < n) (i : Nat) :
    Function.update count k 1 i ≤ 1 ∧ (n ≤ i → Function.update count k 1 i = 0) := by
  rcases eq_or_ne i k with rfl | hne
  · rw [Function.update_self]
    exact ⟨le_refl _, fun hi => absurd hk (Nat.not_lt_of_le hi)⟩
  · rw [Function.update_of_ne hne]
    exact ⟨honce i, hfresh i⟩

/-- Counting what is held, and holding it no more, leaves nothing uncounted that was not
uncounted before. -/
theorem lost_update_iff {n k : Nat} {count : Nat → Nat} :
    (∀ i < n, Function.update count k 1 i = 0 → none = some i) ↔
      ∀ i < n, count i = 0 → some k = some i := by
  refine forall_congr' fun i => imp_congr_right fun _ => ?_
  rcases eq_or_ne i k with rfl | hne
  · simp
  · simp [Function.update_of_ne hne, hne.symm]

/-- What is held is given back, and what was lost stays lost. -/
theorem giveBack_spec {s : SparkleAudio} (h : s.Balanced) :
    let s' := { s.tmpfileUnmap.closeFd with connected := false, handedOver := false }
    s'.Balanced ∧ s'.threw = s.threw ∧ (s'.NothingLost ↔ s.NothingLost) := by
  have hfd := h.fdReceived
  have hmapping := h.mappingReceived
  cases hover : s.handedOver with
  | false =>
    rw [hover, Option.isSome_eq_false_iff, Option.isNone_iff_eq_none] at hfd hmapping
    -- nothing is held: both functions return at once
    have hsame : s.tmpfileUnmap.closeFd = s := by
      rw [tmpfileUnmap, hmapping]
      show s.closeFd = s
      rw [closeFd, hfd]
    rw [hsame]
    refine ⟨⟨h.fdOpen, h.mappingOpen, by simp [hfd], by simp [hmapping], h.playerBuffer,
      h.closedOnce, h.unmappedOnce, h.fdFresh, h.mappingFresh, fun _ => rfl⟩, rfl, ?_⟩
    exact ⟨fun ⟨hfds, hmappings⟩ => ⟨hfds, hmappings⟩, fun ⟨hfds, hmappings⟩ => ⟨hfds, hmappings⟩⟩
  | true =>
    obtain ⟨fd, hfd⟩ := Option.isSome_iff_exists.mp (hfd.trans hover)
    obtain ⟨b, hmapping⟩ := Option.isSome_iff_exists.mp (hmapping.trans hover)
    obtain ⟨hfdlt, hfdzero⟩ := h.fdOpen fd hfd
    obtain ⟨hblt, hbzero⟩ := h.mappingOpen b hmapping
    -- what is held is open, and now closed for the first time
    have hgiven : s.tmpfileUnmap.closeFd =
        { s.setBuffer none with
          unmaps := Function.update s.unmaps b 1
          buffer := none
          closes := Function.update s.closes fd 1
          bufferFd := none } := by
      rw [tmpfileUnmap, hmapping]
      dsimp only
      rw [hbzero, closeFd]
      show (match s.bufferFd with | none => _ | some fd => _) = _
      rw [hfd]
      dsimp only [setBuffer]
      rw [hfdzero]
    rw [hgiven]
    have hcloses := fun i => update_one (n := s.received) h.closedOnce h.fdFresh hfdlt i
    have hunmaps := fun i => update_one (n := s.mapped) h.unmappedOnce h.mappingFresh hblt i
    refine ⟨⟨nofun, nofun, rfl, rfl, rfl, fun i => (hcloses i).1, fun i => (hunmaps i).1,
      fun i => (hcloses i).2, fun i => (hunmaps i).2, fun _ => rfl⟩, rfl, ?_⟩
    constructor
    · rintro ⟨hfds, hmappings⟩
      exact ⟨hfd ▸ lost_update_iff.mp hfds, hmapping ▸ lost_update_iff.mp hmappings⟩
    · rintro ⟨hfds, hmappings⟩
      exact ⟨lost_update_iff.mpr (hfd ▸ hfds), lost_update_iff.mpr (hmapping ▸ hmappings)⟩

/-! ## Every run -/

theorem step_balanced {s s' : SparkleAudio} {e : Event} (h : s.Balanced)
    (hstep : s.step e = some s') :
    s'.Balanced ∧ (s'.Orderly ↔ s.Orderly ∧ s.InOrder e) := by
  obtain ⟨hquiet, hstep⟩ := Option.ite_none_left_eq_some.mp hstep
  have hquiet : s.threw = false := Bool.eq_false_iff.mpr hquiet
  cases e with
  | newConnection =>
    cases hstep
    have hiff : s.connectClient.Balanced ∧ s.connectClient.threw = s.threw ∧
        (s.connectClient.NothingLost ↔ s.NothingLost) := by
      rw [connectClient]
      split
      · exact ⟨h, rfl, Iff.rfl⟩
      · obtain ⟨hbalanced, hlost⟩ := balanced_congr h { s.stopPlayer with connected := true }
          rfl rfl rfl ⟨rfl, rfl⟩ ⟨rfl, rfl⟩ rfl nofun
        exact ⟨hbalanced, rfl, hlost⟩
    obtain ⟨hbalanced, hthrew, hlost⟩ := hiff
    refine ⟨hbalanced, ?_⟩
    rw [hbalanced.orderly_iff, h.orderly_iff, hthrew, hlost]
    simp [InOrder]
  | read messages =>
    obtain ⟨⟨hconnected, hcodes⟩, hs⟩ := Option.ite_none_right_eq_some.mp hstep
    cases hs
    obtain ⟨hbalanced, hiff⟩ := read_spec h hconnected hquiet hcodes
    refine ⟨hbalanced, ?_⟩
    rw [hbalanced.orderly_iff, h.orderly_iff, hiff]
    simp [hquiet]
  | disconnect =>
    obtain ⟨hconnected, hs⟩ := Option.ite_none_right_eq_some.mp hstep
    cases hs
    obtain ⟨hstopped, hlost⟩ := balanced_congr h s.stopPlayer rfl rfl rfl ⟨rfl, rfl⟩ ⟨rfl, rfl⟩
      rfl id
    obtain ⟨hbalanced, hthrew, hlost'⟩ := giveBack_spec hstopped
    rw [disconnectClient, if_pos hconnected]
    refine ⟨hbalanced, ?_⟩
    rw [hbalanced.orderly_iff, h.orderly_iff, hthrew, hlost', hlost]
    simp [InOrder, stopPlayer]

/-- The runs in which the service is in order at every point are those in which no code 0 is
received, and in no session the code 1 twice. -/
theorem inOrder_iff {as : List Event} {s : SparkleAudio} :
    machine.Reaches as s ∧ s.Orderly ↔ (machine.guarded InOrder).Reaches as s := by
  refine Machine.reaches_guarded_iff (I := Balanced) ?_ ?_ ?_
  · rintro s rfl
    exact ⟨constructed_balanced,
      constructed_balanced.orderly_iff.mpr ⟨rfl, constructed_nothingLost⟩⟩
  · exact fun s e t h hstep => (step_balanced h hstep).1
  · exact fun s e t h hstep => (step_balanced h hstep).2

/-- A message with some memory behind it. -/
def message (code : UInt64) : ClientMessage := ⟨code, noRing⟩

/-- The code 0 is an exception. -/
theorem orderly_zero : ¬ ∀ as s, machine.Reaches as s → s.Orderly := by
  intro h
  have hrun : (List.foldlM step constructed [.newConnection, .read [message 0]]).map threw =
      some true := by decide +kernel
  obtain ⟨s, hs, hthrew⟩ := Option.map_eq_some_iff.mp hrun
  have hquiet := (h _ s ⟨_, rfl, Machine.Path.of_run hs⟩).quiet
  rw [hthrew] at hquiet
  cases hquiet

end SparkleAudio

end SparkleWayland
