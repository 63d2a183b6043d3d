import SparkleWayland.Audio.Check
import SparkleWayland.Lib.Machine

/-!
# Completions on their way (`sparkle_android/sparkle_player.cpp`)

The buffer queue calls back on a thread of its own. A call that it has dispatched cannot be
recalled: `Clear` empties the queue, and the call comes all the same, perhaps after the
player was started again. It does not say which region it is for, and `callback` takes it
for the one that is being played. `faithful_guarded_iff` says that this is the only thing
that goes wrong.

A region is in the queue from its `Enqueue` until its completion is delivered or the queue
is cleared. Regions are numbered in the order in which they were enqueued.
-/

namespace SparkleWayland

/-- The player with the ring, and the completions: those dispatched and not delivered, in
their order, and those delivered. `passed` has an entry for each region that the read
position was moved over: its number, and whether its own completion had been delivered
by then. -/
structure Completions where
  ring : RingBuffer
  player : Player
  inFlight : List Nat
  delivered : List Nat
  passed : List (Nat × Bool)

namespace Completions

/-- The number of the next region. -/
def enqueued (player : Player) : Nat := player.queue.history.length

/-- The number of the first region in the queue, or of the next one if it is empty. -/
def first (player : Player) : Nat := enqueued player - player.queue.pending.length

/-- The buffer queue is done with the next region that it has not called back for. -/
def dispatch (s : Completions) : Option Completions :=
  let called := s.inFlight.countP fun n => first s.player ≤ n
  if called < s.player.queue.pending.length then
    some { s with inFlight := s.inFlight ++ [first s.player + called] }
  else none

/-- A completion is delivered. Its region leaves the queue, if it is there. -/
def deliver (s : Completions) : Option Completions :=
  match s.inFlight with
  | [] => none
  | n :: rest =>
    -- without a buffer a playing player dereferences a null pointer
    if s.player.state = playStatePlaying ∧ s.player.hasBuffer = false then none
    else
      let called :=
        if first s.player ≤ n then s.player.regionDone s.ring
        else some (s.player.callback s.ring)
      let last := enqueued s.player - 1
      called.map fun result =>
        { player := result.1
          ring := result.2
          inFlight := rest
          delivered := n :: s.delivered
          passed :=
            if s.player.state = playStatePlaying ∧ s.player.playing ≠ 0 then
              s.passed ++ [(last, decide (last ∈ n :: s.delivered))]
            else s.passed }

inductive Label
  /-- The client writes, whatever and wherever it likes. -/
  | write (position : UInt64) (data : Memory Byte)
  /-- The service maps the ring of a client. -/
  | setBuffer (ring : RingBuffer) (size : 0 < ring.size.toInt)
  /-- `sparkle_audio::disconnect_client`: the player stops and gives the ring back. -/
  | disconnect
  | start
  | stop
  /-- The timer. -/
  | check
  | dispatch
  | deliver

def step (s : Completions) : Label → Option Completions
  | .write position data =>
    some { s with ring := { s.ring with writePosition := position, data := data } }
  | .setBuffer ring _ =>
    if s.player.hasBuffer then none
    else some { s with ring := ring, player := { s.player with hasBuffer := true } }
  | .disconnect =>
    some { s with
      player := { (s.player.stop s.ring).1 with hasBuffer := false }
      ring := (s.player.stop s.ring).2 }
  | .start => some { s with player := s.player.start s.ring }
  | .stop => some { s with player := (s.player.stop s.ring).1, ring := (s.player.stop s.ring).2 }
  | .check => some { s with player := s.player.check s.ring }
  | .dispatch => s.dispatch
  | .deliver => s.deliver

/-- A player as its constructor leaves it: it stops in the state 100. -/
def constructed (ring : RingBuffer) : Player :=
  (Player.stop ⟨100, 0, false, false, ⟨[], []⟩⟩ ring).1

/-- All interleavings. -/
def machine : Machine Completions Label :=
  .ofStep (fun s => s = ⟨s.ring, constructed s.ring, [], [], []⟩) step

/-- At most one region is queued, `playing_` is its length, the read position was moved only
over regions whose own completions were delivered, and the timer runs while the player
plays. -/
structure Faithful (s : Completions) : Prop where
  oneQueued : s.player.queue.pending.length ≤ 1
  playing : s.player.playing.toInt = (s.player.queue.pending.head?.map Enqueued.length).getD 0
  owned : ∀ p ∈ s.passed, p.2 = true
  timer : s.player.checkTimer = true ↔ s.player.state = playStatePlaying

/-- The completion of a region that is no longer queued finds nothing being played. -/
def Recalled (s : Completions) : Label → Prop
  | .deliver => ∀ n ∈ s.inFlight.head?,
      first s.player ≤ n ∨ s.player.state ≠ playStatePlaying ∨ s.player.playing = 0
  | _ => True

/-! ## The player -/

/-- What `check` does: nothing, or it enqueues one region and remembers its length. -/
theorem check_spec {player : Player} {ring : RingBuffer}
    (hsize : player.hasBuffer = true → 0 < ring.size.toInt) :
    player.check ring = player ∨
      player.state = playStatePlaying ∧ player.playing = 0 ∧ player.hasBuffer = true ∧
        ∃ e n, 0 < e.length ∧ Int32.toInt n = e.length ∧
          player.check ring = { player with queue := player.queue.enqueue e, playing := n } := by
  unfold Player.check
  split
  case isFalse => exact Or.inl rfl
  case isTrue hidle =>
    obtain ⟨hstate, hplaying, hbuffer⟩ := hidle
    dsimp only
    split
    case isTrue => exact Or.inl rfl
    case isFalse hsome =>
      refine Or.inr ⟨hstate, hplaying, hbuffer, ?_⟩
      have hone : Int32.toInt 1 = 1 := rfl
      have hclamped := Player.toInt_clamped (n := ring.bytesAvailable)
      rw [Int32.lt_iff_toInt_lt, hone] at hsome
      obtain ⟨-, hlength⟩ := RingBuffer.readStart_of_pos (n :=
        if ring.bytesAvailable > 8192 then 8192 else ring.bytesAvailable) (hsize hbuffer)
      have hposition := Nat.mod_lt ring.readPosition.toNat
        (show 0 < ring.size.toInt.toNat by have := hsize hbuffer; omega)
      exact ⟨_, _, by dsimp only; omega, by dsimp only; omega, rfl⟩

/-- As long as every completion was credited to its own region: the queue is empty, or it has
the one region that is being played. What was delivered is no longer queued. -/
structure Tidy (player : Player) (inFlight delivered : List Nat) : Prop where
  queue : player.queue.pending = [] ∧ player.playing = 0 ∨
    player.state = playStatePlaying ∧ 1 ≤ enqueued player ∧ ∃ e, player.queue.pending = [e] ∧
      0 < e.length ∧ player.playing.toInt = e.length
  inFlight : ∀ n ∈ inFlight, n < enqueued player
  delivered : ∀ n ∈ delivered, n < first player

variable {player : Player} {inFlight delivered : List Nat}

/-- A player that plays nothing has nothing queued. -/
theorem Tidy.empty (h : Tidy player inFlight delivered)
    (hidle : player.state ≠ playStatePlaying ∨ player.playing = 0) :
    player.queue.pending = [] ∧ player.playing = 0 := by
  rcases h.queue with hempty | ⟨hstate, -, e, -, hpos, hplaying⟩
  · exact hempty
  · rcases hidle with hnot | hzero
    · exact absurd hstate hnot
    · rw [hzero, show Int32.toInt 0 = 0 from rfl] at hplaying
      omega

theorem first_of_empty (h : player.queue.pending = []) : first player = enqueued player := by
  rw [first, h, List.length_nil, Nat.sub_zero]

/-- An empty queue and nothing playing: every region that was enqueued is over, also one
whose completion is delivered now. -/
theorem Tidy.idle {player' : Player} {inFlight' delivered' : List Nat}
    (h : Tidy player inFlight delivered) (hpending : player'.queue.pending = [])
    (hplaying : player'.playing = 0) (hhistory : player'.queue.history = player.queue.history)
    (hflight : ∀ n ∈ inFlight', n ∈ inFlight)
    (hover : ∀ n ∈ delivered', n ∈ delivered ∨ n ∈ inFlight) :
    Tidy player' inFlight' delivered' where
  queue := Or.inl ⟨hpending, hplaying⟩
  inFlight := fun n hn => by
    rw [enqueued, hhistory]
    exact h.inFlight n (hflight n hn)
  delivered := fun n hn => by
    rw [first_of_empty hpending, enqueued, hhistory]
    rcases hover n hn with hn | hn
    · exact Nat.lt_of_lt_of_le (h.delivered n hn) (Nat.sub_le _ _)
    · exact h.inFlight n hn

theorem Tidy.check {ring : RingBuffer} (h : Tidy player inFlight delivered)
    (hsize : player.hasBuffer = true → 0 < ring.size.toInt) :
    Tidy (player.check ring) inFlight delivered := by
  rcases check_spec hsize with heq | ⟨hstate, hzero, -, e, n, hpos, hn, heq⟩
  · rwa [heq]
  · obtain ⟨hempty, -⟩ := h.empty (Or.inr hzero)
    have hhistory : enqueued { player with queue := player.queue.enqueue e, playing := n } =
        enqueued player + 1 := List.length_append
    have hpending : (player.queue.enqueue e).pending = [e] := by
      rw [BufferQueue.enqueue, hempty, List.nil_append]
    rw [heq]
    refine ⟨Or.inr ⟨hstate, by omega, e, hpending, hpos, hn⟩, fun m hm => ?_, fun m hm => ?_⟩
    · have := h.inFlight m hm
      omega
    · have hlt := h.delivered m hm
      rw [first_of_empty hempty] at hlt
      rw [first, hhistory]
      show m < enqueued player + 1 - (player.queue.enqueue e).pending.length
      rw [hpending]
      exact hlt

theorem Tidy.start {ring : RingBuffer} (h : Tidy player inFlight delivered)
    (hsize : player.hasBuffer = true → 0 < ring.size.toInt) :
    Tidy (player.start ring) inFlight delivered := by
  unfold Player.start
  split
  case isFalse => exact h
  case isTrue hstate =>
    obtain ⟨hempty, -⟩ := h.empty (Or.inl hstate)
    have hready : Tidy { player with state := playStatePlaying, playing := 0 } inFlight delivered :=
      h.idle hempty rfl rfl (fun _ hn => hn) fun _ hn => Or.inl hn
    have hchecked := hready.check hsize
    exact ⟨hchecked.queue, hchecked.inFlight, hchecked.delivered⟩

theorem Tidy.stop {ring : RingBuffer} (h : Tidy player inFlight delivered) :
    Tidy (player.stop ring).1 inFlight delivered := by
  unfold Player.stop
  split
  case isFalse => exact h
  case isTrue => exact h.idle rfl rfl rfl (fun _ hn => hn) fun _ hn => Or.inl hn

/-! ## Steps -/

/-- What holds however the completions come. -/
structure Always (s : Completions) : Prop where
  timer : s.player.checkTimer = true ↔ s.player.state = playStatePlaying
  stopped : s.player.state = playStatePlaying ∨ s.player.state = playStateStopped
  size : s.player.hasBuffer = true → 0 < s.ring.size.toInt

/-- Every completion was credited to its own region so far. -/
def Owned (s : Completions) : Prop := ∀ p ∈ s.passed, p.2 = true

/-- What holds of every state. -/
structure Kept (s : Completions) : Prop where
  always : s.Always
  tidy : s.Owned → Tidy s.player s.inFlight s.delivered

theorem Kept.faithful_iff {s : Completions} (h : s.Kept) : s.Faithful ↔ s.Owned := by
  constructor
  · exact fun hf => hf.owned
  · intro howned
    obtain htidy := (h.tidy howned).queue
    refine ⟨?_, ?_, howned, h.always.timer⟩
    · rcases htidy with ⟨hempty, -⟩ | ⟨-, -, e, hone, -⟩
      · rw [hempty]
        exact Nat.zero_le _
      · rw [hone]
        exact le_refl _
    · rcases htidy with ⟨hempty, hzero⟩ | ⟨-, -, e, hone, -, hplaying⟩
      · rw [hempty, hzero]
        rfl
      · rw [hone, hplaying]
        rfl

/-- A delivered completion: `callback` runs, without the region in the queue if it was the
completion's own. -/
theorem deliver_cases {s t : Completions} (h : s.deliver = some t) :
    ∃ n rest player, s.inFlight = n :: rest ∧
      ¬ (s.player.state = playStatePlaying ∧ s.player.hasBuffer = false) ∧
      (first s.player ≤ n ∧ (∃ e es, s.player.queue.pending = e :: es ∧
          player = { s.player with queue := { s.player.queue with pending := es } }) ∨
        n < first s.player ∧ player = s.player) ∧
      t.player = (player.callback s.ring).1 ∧ t.ring = (player.callback s.ring).2 ∧
      t.inFlight = rest ∧ t.delivered = n :: s.delivered ∧
      t.passed = if s.player.state = playStatePlaying ∧ s.player.playing ≠ 0 then
        s.passed ++ [(enqueued s.player - 1,
          decide (enqueued s.player - 1 ∈ n :: s.delivered))] else s.passed := by
  unfold deliver at h
  split at h
  · cases h
  · rename_i n rest hflight
    obtain ⟨hbuffer, h⟩ := Option.ite_none_left_eq_some.mp h
    obtain ⟨result, hresult, rfl⟩ := Option.map_eq_some_iff.mp h
    split at hresult
    case isTrue hfirst =>
      unfold Player.regionDone at hresult
      split at hresult
      · cases hresult
      · rename_i e es hpending
        cases hresult
        exact ⟨n, rest, _, hflight, hbuffer, Or.inl ⟨hfirst, e, es, hpending, rfl⟩, rfl, rfl, rfl,
          rfl, rfl⟩
    case isFalse hfirst =>
      cases hresult
      exact ⟨n, rest, _, hflight, hbuffer, Or.inr ⟨Nat.lt_of_not_le hfirst, rfl⟩, rfl, rfl, rfl,
        rfl, rfl⟩

theorem Always.deliver {s t : Completions} (h : s.Always) (hstep : s.deliver = some t) :
    t.Always := by
  obtain ⟨n, rest, player, -, -, hplayer, htp, htr, -⟩ := deliver_cases hstep
  have hsame : player.state = s.player.state ∧ player.hasBuffer = s.player.hasBuffer ∧
      player.checkTimer = s.player.checkTimer := by
    rcases hplayer with ⟨-, e, es, -, rfl⟩ | ⟨-, rfl⟩
    · exact ⟨rfl, rfl, rfl⟩
    · exact ⟨rfl, rfl, rfl⟩
  obtain ⟨⟨hstate, hbuffer, htimer⟩, hring⟩ := player.callback_keeps s.ring
  have hstate := hstate.trans hsame.1
  have hbuffer := hbuffer.trans hsame.2.1
  have htimer := htimer.trans hsame.2.2
  refine ⟨?_, ?_, ?_⟩
  · rw [htp, hstate, htimer]
    exact h.timer
  · rw [htp, hstate]
    exact h.stopped
  · rw [htp, htr, hbuffer, hring]
    exact h.size

theorem Always.start {s : Completions} (h : s.Always) :
    ({ s with player := s.player.start s.ring } : Completions).Always := by
  unfold Player.start
  split
  case isFalse => exact ⟨h.timer, h.stopped, h.size⟩
  case isTrue =>
    obtain ⟨hstate, hbuffer, -⟩ :=
      Player.check_keeps { s.player with state := playStatePlaying, playing := 0 } s.ring
    exact ⟨iff_of_true rfl hstate, Or.inl hstate, fun hb => h.size (hbuffer.symm.trans hb)⟩

theorem Always.stop {s : Completions} (h : s.Always) :
    ({ s with player := (s.player.stop s.ring).1, ring := (s.player.stop s.ring).2 }
      : Completions).Always := by
  unfold Player.stop
  split
  case isFalse => exact ⟨h.timer, h.stopped, h.size⟩
  case isTrue =>
    refine ⟨iff_of_false nofun (show playStateStopped ≠ playStatePlaying by decide), Or.inr rfl,
      fun hb => ?_⟩
    have hsize : 0 < s.ring.size.toInt := h.size hb
    dsimp only
    split
    · exact hsize
    · exact hsize

theorem Always.step {s t : Completions} {a : Label} (h : s.Always) (hstep : s.step a = some t) :
    t.Always := by
  cases a with
  | write position data =>
    cases hstep
    exact ⟨h.timer, h.stopped, h.size⟩
  | setBuffer ring size =>
    obtain ⟨-, hstep⟩ := Option.ite_none_left_eq_some.mp hstep
    cases hstep
    exact ⟨h.timer, h.stopped, fun _ => size⟩
  | disconnect =>
    cases hstep
    exact ⟨h.stop.timer, h.stop.stopped, nofun⟩
  | start =>
    cases hstep
    exact h.start
  | stop =>
    cases hstep
    exact h.stop
  | check =>
    cases hstep
    obtain ⟨hstate, hbuffer, htimer⟩ := s.player.check_keeps s.ring
    refine ⟨?_, ?_, fun hb => h.size (hbuffer.symm.trans hb)⟩
    · rw [hstate, htimer]
      exact h.timer
    · rw [hstate]
      exact h.stopped
  | dispatch =>
    obtain ⟨-, hstep⟩ := Option.ite_none_right_eq_some.mp hstep
    cases hstep
    exact ⟨h.timer, h.stopped, h.size⟩
  | deliver => exact h.deliver hstep

/-- A completion that finds its own region played, or nothing. -/
theorem Tidy.deliver {s t : Completions} (ha : s.Always)
    (h : Tidy s.player s.inFlight s.delivered) (hok : s.Recalled .deliver)
    (hstep : s.deliver = some t) : Tidy t.player t.inFlight t.delivered := by
  obtain ⟨n, rest, player, hflight, -, hplayer, htp, -, htf, htd, -⟩ := deliver_cases hstep
  -- nothing is queued when `callback` runs, and nothing is playing unless it is over
  have hready : player.queue.pending = [] ∧ player.queue.history = s.player.queue.history ∧
      player.hasBuffer = s.player.hasBuffer ∧
      (player.state ≠ playStatePlaying → player.playing = 0) := by
    rcases hplayer with ⟨-, e, es, hpending, rfl⟩ | ⟨hstale, rfl⟩
    · rcases h.queue with ⟨hempty, -⟩ | ⟨hstate, -, e', hone, -⟩
      · rw [hempty] at hpending
        cases hpending
      · rw [hone] at hpending
        cases hpending
        exact ⟨rfl, rfl, rfl, fun hnot => absurd hstate hnot⟩
    · have hidle := hok n (by rw [hflight, List.head?_cons]; rfl)
      obtain ⟨hempty, hzero⟩ := h.empty (hidle.resolve_left (Nat.not_le_of_lt hstale))
      exact ⟨hempty, rfl, rfl, fun _ => hzero⟩
  obtain ⟨hempty, hhistory, hbuffer, hzero⟩ := hready
  have hsub : ∀ m ∈ rest, m ∈ s.inFlight := fun m hm => hflight ▸ List.mem_cons_of_mem n hm
  have hover : ∀ m ∈ n :: s.delivered, m ∈ s.delivered ∨ m ∈ s.inFlight := by
    intro m hm
    rcases List.mem_cons.mp hm with rfl | hm
    · exact Or.inr (hflight ▸ List.mem_cons_self)
    · exact Or.inl hm
  rw [htp, htf, htd, Player.callback]
  split
  case isTrue hstate => exact h.idle hempty (hzero hstate) hhistory hsub hover
  case isFalse =>
    have hcleared : Tidy { player with playing := 0 } rest (n :: s.delivered) :=
      h.idle hempty rfl hhistory hsub hover
    exact hcleared.check fun hb => ha.size (hbuffer.symm.trans hb)

/-- The read position is moved over a region that was not called back, exactly if the
completion is that of another one. -/
theorem deliver_owned_iff {s t : Completions} (h : Tidy s.player s.inFlight s.delivered)
    (howned : s.Owned) (hstep : s.deliver = some t) : t.Owned ↔ s.Recalled .deliver := by
  obtain ⟨n, rest, player, hflight, -, hplayer, -, -, -, -, htpassed⟩ := deliver_cases hstep
  have hrecalled : s.Recalled .deliver ↔ first s.player ≤ n ∨
      s.player.state ≠ playStatePlaying ∨ s.player.playing = 0 := by
    rw [Recalled, hflight]
    simp
  rw [hrecalled, Owned, htpassed]
  split
  case isFalse hidle =>
    refine iff_of_true howned (Or.inr ?_)
    by_contra hnot
    obtain ⟨hstate, hplaying⟩ := not_or.mp hnot
    exact hidle ⟨not_not.mp hstate, hplaying⟩
  case isTrue hplays =>
    obtain ⟨hstate, hplaying⟩ := hplays
    -- one region is queued, the last that was enqueued
    have hlast : first s.player = enqueued s.player - 1 := by
      rcases h.queue with ⟨-, hzero⟩ | ⟨-, -, e, hone, -⟩
      · exact absurd hzero hplaying
      · rw [first, hone]
        rfl
    have hn : n < enqueued s.player := h.inFlight n (hflight ▸ List.mem_cons_self)
    have hnot : enqueued s.player - 1 ∉ s.delivered := by
      intro hmem
      have := h.delivered _ hmem
      omega
    rw [List.forall_mem_append, List.forall_mem_singleton, decide_eq_true_iff,
      and_iff_right (show ∀ p ∈ s.passed, p.2 = true from howned), List.mem_cons,
      or_iff_left hnot]
    constructor
    · intro heq
      exact Or.inl (by omega)
    · rintro (hown | hno | hzero)
      · omega
      · exact absurd hstate hno
      · exact absurd hzero hplaying

/-- What was passed over stays passed over. -/
theorem deliver_owned {s t : Completions} (hstep : s.deliver = some t) (h : t.Owned) :
    s.Owned := by
  obtain ⟨n, rest, player, -, -, -, -, -, -, -, htpassed⟩ := deliver_cases hstep
  intro p hp
  refine h p ?_
  rw [htpassed]
  split
  · exact List.mem_append_left _ hp
  · exact hp

/-- What is dispatched is a region of the queue. -/
theorem Tidy.dispatch {player : Player} {inFlight delivered : List Nat}
    (h : Tidy player inFlight delivered)
    (hmore : inFlight.countP (fun n => first player ≤ n) < player.queue.pending.length) :
    Tidy player (inFlight ++ [first player + inFlight.countP fun n => first player ≤ n])
      delivered := by
  refine ⟨h.queue, ?_, h.delivered⟩
  rw [List.forall_mem_append, List.forall_mem_singleton]
  refine ⟨h.inFlight, ?_⟩
  have hqueued : player.queue.pending.length ≤ enqueued player := by
    rcases h.queue with ⟨hempty, -⟩ | ⟨-, hsome, e, hone, -⟩
    · rw [hempty]
      exact Nat.zero_le _
    · rw [hone]
      exact hsome
  have hfirst : first player = enqueued player - player.queue.pending.length := rfl
  omega

theorem Kept.deliver_owned_iff {s t : Completions} (h : s.Kept) (hstep : s.deliver = some t) :
    t.Owned ↔ s.Owned ∧ s.Recalled .deliver := by
  constructor
  · intro ho
    have hbefore := deliver_owned hstep ho
    exact ⟨hbefore, (Completions.deliver_owned_iff (h.tidy hbefore) hbefore hstep).mp ho⟩
  · rintro ⟨hbefore, hok⟩
    exact (Completions.deliver_owned_iff (h.tidy hbefore) hbefore hstep).mpr hok

theorem Kept.step {s t : Completions} {a : Label} (h : s.Kept) (hstep : s.step a = some t) :
    t.Kept ∧ (t.Owned ↔ s.Owned ∧ s.Recalled a) := by
  have halways := h.always.step hstep
  cases a with
  | write position data =>
    cases hstep
    exact ⟨⟨halways, h.tidy⟩, (and_iff_left trivial).symm⟩
  | setBuffer ring size =>
    obtain ⟨-, hstep⟩ := Option.ite_none_left_eq_some.mp hstep
    cases hstep
    refine ⟨⟨halways, fun ho => ?_⟩, (and_iff_left trivial).symm⟩
    obtain ⟨hqueue, hflight, hdelivered⟩ := h.tidy ho
    exact ⟨hqueue, hflight, hdelivered⟩
  | disconnect =>
    cases hstep
    refine ⟨⟨halways, fun ho => ?_⟩, (and_iff_left trivial).symm⟩
    have hstop : Tidy (s.player.stop s.ring).1 s.inFlight s.delivered := (h.tidy ho).stop
    obtain ⟨hqueue, hflight, hdelivered⟩ := hstop
    exact ⟨hqueue, hflight, hdelivered⟩
  | start =>
    cases hstep
    exact ⟨⟨halways, fun ho => (h.tidy ho).start h.always.size⟩, (and_iff_left trivial).symm⟩
  | stop =>
    cases hstep
    exact ⟨⟨halways, fun ho => (h.tidy ho).stop⟩, (and_iff_left trivial).symm⟩
  | check =>
    cases hstep
    exact ⟨⟨halways, fun ho => (h.tidy ho).check h.always.size⟩, (and_iff_left trivial).symm⟩
  | dispatch =>
    obtain ⟨hmore, hstep⟩ := Option.ite_none_right_eq_some.mp hstep
    cases hstep
    exact ⟨⟨halways, fun ho => (h.tidy ho).dispatch hmore⟩, (and_iff_left trivial).symm⟩
  | deliver =>
    have hiff := h.deliver_owned_iff hstep
    refine ⟨⟨halways, fun ho => ?_⟩, hiff⟩
    obtain ⟨hbefore, hok⟩ := hiff.mp ho
    exact (h.tidy hbefore).deliver h.always hok hstep

theorem constructed_kept (ring : RingBuffer) :
    Kept ⟨ring, constructed ring, [], [], []⟩ where
  always :=
    ⟨iff_of_false nofun (show playStateStopped ≠ playStatePlaying by decide), Or.inr rfl, nofun⟩
  tidy := fun _ => ⟨Or.inl ⟨rfl, rfl⟩, List.forall_mem_nil _, List.forall_mem_nil _⟩

/-! ## Runs -/

/-- The runs in which all is as it should be are those in which no completion is delivered
while another region than its own is being played. -/
theorem faithful_guarded_iff {as : List Label} {s : Completions} :
    machine.Reaches as s ∧ s.Faithful ↔ (machine.guarded Recalled).Reaches as s := by
  have hinv : ∀ s a t, s.Kept → machine.step s a t → t.Kept :=
    fun _ _ _ hkept hstep => (hkept.step hstep).1
  have hstart : ∀ s, machine.start s → s.Kept ∧ s.Faithful := by
    intro s hs
    have hkept : s.Kept := hs ▸ constructed_kept s.ring
    refine ⟨hkept, hkept.faithful_iff.mpr ?_⟩
    rw [hs]
    exact List.forall_mem_nil _
  refine Machine.reaches_guarded_iff hstart hinv ?_
  intro s a t hkept hstep
  rw [(hinv s a t hkept hstep).faithful_iff, hkept.faithful_iff]
  exact (hkept.step hstep).2

/-- The player is stopped and started again while a completion is on its way: it is taken for
that of the second region, and a third one is enqueued behind it. -/
theorem restarted_unfaithful :
    ∃ s, machine.Reaches [.setBuffer ⟨65536, 0, 0, fun _ => 0⟩ (by decide),
        .write 16 (fun _ => 0), .start, .dispatch, .stop, .write 10000 (fun _ => 0), .start,
        .deliver] s ∧
      ¬ s.Faithful ∧ s.player.queue.pending.length = 2 ∧ s.passed = [(1, false)] := by
  let ring : RingBuffer := ⟨0, 0, 0, fun _ => 0⟩
  let created : Completions := ⟨ring, constructed ring, [], [], []⟩
  have hrun : (List.foldlM step created
      [.setBuffer ⟨65536, 0, 0, fun _ => 0⟩ (by decide), .write 16 (fun _ => 0), .start, .dispatch,
        .stop, .write 10000 (fun _ => 0), .start, .deliver]).map
        (fun s => (s.player.queue.pending.length, s.passed)) = some (2, [(1, false)]) := by
    decide +kernel
  obtain ⟨s, hs, heq⟩ := Option.map_eq_some_iff.mp hrun
  obtain ⟨hpending, hpassed⟩ := Prod.mk.inj heq
  refine ⟨s, ⟨created, rfl, Machine.Path.of_run hs⟩, fun hf => ?_, hpending, hpassed⟩
  have hle := hf.oneQueued
  rw [hpending] at hle
  exact absurd hle (by decide)

end Completions

end SparkleWayland
