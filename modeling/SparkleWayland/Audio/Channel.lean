import SparkleWayland.Audio.Service
import SparkleWayland.Were.UnixSocket

/-!
# The control channel, byte by byte (`sparkle_audio::read`)

The plugin sends 8-byte codes, and after the code 1 one more byte that carries the
descriptor of the ring. Its bytes leave in pieces, arrive in pieces and are received in
pieces; the service starts to read when something arrives and goes on while there is
anything to read. Nothing marks where a code begins. `Aligned` says where the service
stands in the stream of the operations, in every state of every run, and the round trip
follows from it.

The client of this model sends any bytes at all and may close the connection; the plugin
is the client whose bytes are those of its operations.
-/

namespace SparkleWayland

/-- A byte in a socket, with the descriptor that was sent along with it. -/
structure Cell where
  byte : Byte
  fd : Option Nat
  deriving DecidableEq

namespace Channel

/-! ## What the plugin sends -/

/-- What the plugin wants of the service. -/
inductive Operation where
  | initialise (fd : Nat)
  | start
  | stop
  deriving DecidableEq

/-- A call of `were1_unix_socket_send_all` with a code, or of `were1_unix_socket_send_fds`. -/
inductive SendCall where
  | sendAll (code : UInt64)
  | sendFds (fd : Nat)

/-- The calls of `sparkle_initialize`, `sparkle_start` and `sparkle_stop`. -/
def Operation.calls : Operation → List SendCall
  | initialise fd => [.sendAll 1, .sendFds fd]
  | start => [.sendAll 2]
  | stop => [.sendAll 3]

/-- A code in memory, the lowest byte first. -/
def codeBytes (code : UInt64) : List Byte :=
  (List.range 8).map fun i => BitVec.ofNat 8 (code.toNat / 256 ^ i)

/-- The code that these bytes are in memory. -/
def codeOf (bs : List Byte) : UInt64 :=
  UInt64.ofNat (bs.foldr (fun b n => b.toNat + 256 * n) 0)

/-- The bytes of a call. The payload that carries a descriptor is not initialized. -/
def SendCall.cells (payload : Byte) : SendCall → List Cell
  | sendAll code => (codeBytes code).map (⟨·, none⟩)
  | sendFds fd => [⟨payload, some fd⟩]

/-- The bytes of an operation. -/
def Operation.cells (payload : Byte) (op : Operation) : List Cell :=
  op.calls.flatMap (SendCall.cells payload)

theorem codeOf_codeBytes (code : UInt64) : codeOf (codeBytes code) = code := by
  have hlt := code.toNat_lt
  refine UInt64.toNat.inj ?_
  simp only [codeOf, codeBytes, List.range, List.range.loop, List.map_cons, List.map_nil,
    List.foldr_cons, List.foldr_nil, BitVec.toNat_ofNat, UInt64.toNat_ofNat']
  omega

@[simp] theorem length_codeBytes (code : UInt64) : (codeBytes code).length = 8 := by
  simp [codeBytes]

end Channel

/-! ## The two ends -/

/-- Where the service stands. `receivingCode` is the loop of `receive_all`, `receivingFds`
the call of `receive_fds`; `threw` is the end of the program. -/
inductive ReadPhase where
  | idle
  | checking
  | receivingCode (got : List Cell)
  | receivingFds
  | disconnected
  | threw
  deriving DecidableEq

/-- A client and the service, with the socket between them. `edge` says that something
has arrived since the service last began to read. -/
structure Channel where
  /-- The calls the client has yet to make, and what its current call has yet to send. -/
  calls : List Channel.SendCall
  sending : List Cell
  /-- The client closes the connection when it has sent everything. -/
  closes : Bool
  closed : Bool
  travelling : List Cell
  unread : List Cell
  edge : Bool
  phase : ReadPhase
  service : SparkleAudio
  /-- The codes the service has acted on, each with its descriptor. -/
  dispatched : List (UInt64 × Option Nat)

namespace Channel

/-- One step of the client (`call`, `send`, `close`), of the socket (`arrive`) or of the
service. The numbers say how many bytes are moved, less one. -/
inductive Label where
  | call
  | send (n : Nat)
  | close
  | arrive (n : Nat)
  | read
  | check
  | recv (n : Nat)
  | dispatch
  | recvmsg
  | fail
  | hangUp

/-- What a `recv` meets that does not block. -/
def meets (s : Channel) (n : Nat) : Option UnixSocket.Recv :=
  if h : s.unread = [] then
    if s.closed = true ∧ s.travelling = [] then some .endOfStream else none
  else some (.bytes ((s.unread.take (n + 1)).map Cell.byte) (by simp [h]))

/-- The bytes that a `recv` takes into a buffer that holds `got` so far. -/
def taken (s : Channel) (got : List Cell) (n : Nat) : List Cell :=
  s.unread.take (min (n + 1) (8 - got.length))

/-- A code and its descriptor, with what is behind the descriptor. -/
def clientMessage (memory : Nat → RingBuffer) (m : UInt64 × Option Nat) : ClientMessage :=
  ⟨m.1, (m.2.map memory).getD SparkleAudio.noRing⟩

/-- The service acts on a code. -/
def act (memory : Nat → RingBuffer) (s : Channel) (code : UInt64) (fd : Option Nat) : Channel :=
  match s.service.receive (clientMessage memory (code, fd)) with
  | none => { s with phase := .threw }
  | some service =>
    { s with service := service, dispatched := s.dispatched ++ [(code, fd)], phase := .checking }

/-- One step. `memory` is what is behind the descriptors, `payload` what goes along with
them. -/
def step (payload : Byte) (memory : Nat → RingBuffer) (s : Channel) : Label → Option Channel
  | .call =>
    match s.sending, s.calls with
    | [], c :: rest => some { s with sending := c.cells payload, calls := rest }
    | _, _ => none
  | .send n =>
    if s.sending = [] then none
    else
      some { s with
        sending := s.sending.drop (n + 1)
        travelling := s.travelling ++ s.sending.take (n + 1) }
  | .close =>
    if s.calls = [] ∧ s.sending = [] ∧ s.closes = true ∧ s.closed = false then
      some { s with closed := true }
    else none
  | .arrive n =>
    if s.travelling = [] then none
    else
      some { s with
        travelling := s.travelling.drop (n + 1)
        unread := s.unread ++ s.travelling.take (n + 1)
        edge := true }
  | .read =>
    if s.phase = .idle ∧ s.edge = true then some { s with phase := .checking, edge := false }
    else none
  | .check =>
    if s.phase = .checking then
      some { s with phase := if s.unread = [] then .idle else .receivingCode [] }
    else none
  | .recv n =>
    match s.phase with
    | .receivingCode got =>
      if got.length = 8 then none
      else
        (s.meets n).map fun _ => { s with
          phase := .receivingCode (got ++ s.taken got n)
          unread := s.unread.drop (s.taken got n).length }
    | _ => none
  | .dispatch =>
    match s.phase with
    | .receivingCode got =>
      if got.length = 8 then
        let code := codeOf (got.map Cell.byte)
        -- only after the code 1 there is more to receive before the service can act
        if code = 1 then some { s with phase := .receivingFds }
        else some (s.act memory code none)
      else none
    | _ => none
  | .recvmsg =>
    if s.phase = .receivingFds then
      match s.unread with
      | [] =>
        if s.closed = true ∧ s.travelling = [] then some { s with phase := .disconnected }
        else none
      | c :: rest =>
        match c.fd with
        | none => some { s with unread := rest, phase := .threw }
        | some fd => some ({ s with unread := rest }.act memory 1 (some fd))
    else none
  | .fail =>
    match s.closed, s.phase with
    | true, .receivingCode _ => some { s with phase := .disconnected }
    | true, .receivingFds => some { s with phase := .disconnected }
    | _, _ => none
  | .hangUp =>
    if s.phase = .idle ∧ s.closed = true then some { s with phase := .disconnected } else none

/-- A client that is about to make these calls. -/
def connected (calls : List SendCall) (sending : List Cell) (closes : Bool)
    (service : SparkleAudio) : Channel where
  calls := calls
  sending := sending
  closes := closes
  closed := false
  travelling := []
  unread := []
  edge := false
  phase := .idle
  service := service
  dispatched := []

/-- The bytes that a `recv` takes are those that a round of `receive_all` puts into its
buffer. -/
theorem taken_round {s : Channel} {got : List Cell} {n : Nat} {r : UnixSocket.Recv}
    (h : s.meets n = some r) :
    UnixSocket.receiveRound 8 (got.map Cell.byte) r =
      some ((got ++ s.taken got n).map Cell.byte) := by
  unfold meets at h
  split at h
  · rename_i hnone
    split at h
    · cases h
      simp [UnixSocket.receiveRound, UnixSocket.Recv.available, taken, hnone]
    · cases h
  · cases h
    rw [UnixSocket.receiveRound_chunk, UnixSocket.Recv.available]
    simp only [taken, List.map_append, List.map_take, List.length_map, List.take_take,
      Option.some.injEq, List.append_cancel_left_eq]
    refine congrArg (List.take · _) ?_
    have : 8 - got.length ≤ UnixSocket.maxTransfer :=
      Nat.le_trans (Nat.sub_le _ _) (by decide)
    omega

variable {payload : Byte} {memory : Nat → RingBuffer}

/-! ## What a step does -/

/-- What each step finds, and what it makes of it. -/
def StepSpec (payload : Byte) (memory : Nat → RingBuffer) (s t : Channel) : Label → Prop
  | .call => ∃ c rest, s.sending = [] ∧ s.calls = c :: rest ∧
      t = { s with sending := c.cells payload, calls := rest }
  | .send n => s.sending ≠ [] ∧
      t = { s with
        sending := s.sending.drop (n + 1)
        travelling := s.travelling ++ s.sending.take (n + 1) }
  | .close => (s.calls = [] ∧ s.sending = [] ∧ s.closes = true ∧ s.closed = false) ∧
      t = { s with closed := true }
  | .arrive n => s.travelling ≠ [] ∧
      t = { s with
        travelling := s.travelling.drop (n + 1)
        unread := s.unread ++ s.travelling.take (n + 1)
        edge := true }
  | .read => s.phase = .idle ∧ s.edge = true ∧ t = { s with phase := .checking, edge := false }
  | .check => s.phase = .checking ∧
      t = { s with phase := if s.unread = [] then .idle else .receivingCode [] }
  | .recv n => ∃ got, s.phase = .receivingCode got ∧ got.length ≠ 8 ∧
      (s.unread = [] → s.closed = true ∧ s.travelling = []) ∧
      t = { s with
        phase := .receivingCode (got ++ s.taken got n)
        unread := s.unread.drop (s.taken got n).length }
  | .dispatch => ∃ got, s.phase = .receivingCode got ∧ got.length = 8 ∧
      (codeOf (got.map Cell.byte) = 1 ∧ t = { s with phase := .receivingFds } ∨
        codeOf (got.map Cell.byte) ≠ 1 ∧ t = s.act memory (codeOf (got.map Cell.byte)) none)
  | .recvmsg => s.phase = .receivingFds ∧
      (s.unread = [] ∧ s.closed = true ∧ t = { s with phase := .disconnected } ∨
        ∃ c rest, s.unread = c :: rest ∧
          (c.fd = none ∧ t = { s with unread := rest, phase := .threw } ∨
            ∃ fd, c.fd = some fd ∧ t = { s with unread := rest }.act memory 1 (some fd)))
  | .fail => s.closed = true ∧
      ((∃ got, s.phase = .receivingCode got) ∨ s.phase = .receivingFds) ∧
      t = { s with phase := .disconnected }
  | .hangUp => s.phase = .idle ∧ s.closed = true ∧ t = { s with phase := .disconnected }

theorem step_spec {s t : Channel} {a : Label} (h : s.step payload memory a = some t) :
    StepSpec payload memory s t a := by
  cases a with
  | call =>
    simp only [step] at h
    split at h
    · rename_i c rest hsending hcalls
      exact ⟨c, rest, hsending, hcalls, (Option.some.inj h).symm⟩
    · cases h
  | send n =>
    obtain ⟨hne, ht⟩ := Option.ite_none_left_eq_some.mp h
    exact ⟨hne, (Option.some.inj ht).symm⟩
  | close =>
    obtain ⟨hclose, ht⟩ := Option.ite_none_right_eq_some.mp h
    exact ⟨hclose, (Option.some.inj ht).symm⟩
  | arrive n =>
    obtain ⟨hne, ht⟩ := Option.ite_none_left_eq_some.mp h
    exact ⟨hne, (Option.some.inj ht).symm⟩
  | read =>
    obtain ⟨⟨hidle, hedge⟩, ht⟩ := Option.ite_none_right_eq_some.mp h
    exact ⟨hidle, hedge, (Option.some.inj ht).symm⟩
  | check =>
    obtain ⟨hchecking, ht⟩ := Option.ite_none_right_eq_some.mp h
    exact ⟨hchecking, (Option.some.inj ht).symm⟩
  | recv n =>
    simp only [step] at h
    split at h
    · rename_i got hphase
      obtain ⟨hlen, hrecv⟩ := Option.ite_none_left_eq_some.mp h
      obtain ⟨r, hmeets, ht⟩ := Option.map_eq_some_iff.mp hrecv
      refine ⟨got, hphase, hlen, fun hnone => ?_, ht.symm⟩
      rw [meets, dif_pos hnone] at hmeets
      exact (Option.ite_none_right_eq_some.mp hmeets).1
    · cases h
  | dispatch =>
    simp only [step] at h
    split at h
    · rename_i got hphase
      obtain ⟨hlen, hcode⟩ := Option.ite_none_right_eq_some.mp h
      refine ⟨got, hphase, hlen, ?_⟩
      split at hcode
      · rename_i hone
        exact Or.inl ⟨hone, (Option.some.inj hcode).symm⟩
      · rename_i hother
        exact Or.inr ⟨hother, (Option.some.inj hcode).symm⟩
    · cases h
  | recvmsg =>
    obtain ⟨hphase, hrest⟩ := Option.ite_none_right_eq_some.mp h
    refine ⟨hphase, ?_⟩
    split at hrest
    · rename_i hunread
      obtain ⟨hend, ht⟩ := Option.ite_none_right_eq_some.mp hrest
      exact Or.inl ⟨hunread, hend.1, (Option.some.inj ht).symm⟩
    · rename_i c rest hunread
      refine Or.inr ⟨c, rest, hunread, ?_⟩
      split at hrest
      · rename_i hfd
        exact Or.inl ⟨hfd, (Option.some.inj hrest).symm⟩
      · rename_i fd hfd
        exact Or.inr ⟨fd, hfd, (Option.some.inj hrest).symm⟩
  | fail =>
    simp only [step] at h
    split at h
    · rename_i got hclosed hphase
      exact ⟨hclosed, Or.inl ⟨got, hphase⟩, (Option.some.inj h).symm⟩
    · rename_i hclosed hphase
      exact ⟨hclosed, Or.inr hphase, (Option.some.inj h).symm⟩
    · cases h
  | hangUp =>
    obtain ⟨⟨hidle, hclosed⟩, ht⟩ := Option.ite_none_right_eq_some.mp h
    exact ⟨hidle, hclosed, (Option.some.inj ht).symm⟩

/-! ## Every run ends, but for the end of the stream -/

/-- The bytes that the service has not received. -/
def future (payload : Byte) (s : Channel) : List Cell :=
  s.unread ++ s.travelling ++ s.sending ++ s.calls.flatMap (SendCall.cells payload)

/-- The service is in the middle of a code, and the stream has ended. -/
def Stuck (s : Channel) : Prop :=
  ∃ got, s.phase = .receivingCode got ∧ got.length ≠ 8 ∧ s.unread = [] ∧ s.travelling = [] ∧
    s.closed = true

/-- `receive_all` never has more than it was asked for. -/
def Fits (s : Channel) : Prop := ∀ got, s.phase = .receivingCode got → got.length ≤ 8

/-- What the phase adds to what is left to do. -/
def phaseWork : ReadPhase → Nat
  | .idle => 2
  | .checking => 3
  | .receivingCode got => 2 + 2 * got.length
  | .receivingFds => 10
  | .disconnected => 0
  | .threw => 0

/-- What is left to do: a byte counts for more the farther it is from the service. -/
def work (payload : Byte) (s : Channel) : Nat :=
  (s.calls.map fun c => 1 + 12 * (c.cells payload).length).sum + 11 * s.sending.length +
    10 * s.travelling.length + 5 * s.unread.length + (if s.edge then 3 else 0) +
    (if s.closed then 0 else 1) + phaseWork s.phase

theorem act_work_lt {s : Channel} {code : UInt64} {fd : Option Nat}
    (h : 10 ≤ phaseWork s.phase) :
    (s.act memory code fd).work payload < s.work payload := by
  have hthrew : phaseWork .threw = 0 := rfl
  have hchecking : phaseWork .checking = 3 := rfl
  unfold act
  split <;> simp only [work] <;> omega

/-- A `recv` brings bytes closer, unless the service is stuck. -/
theorem recv_work {s : Channel} {got : List Cell} {n : Nat} (hfits : s.Fits)
    (hphase : s.phase = .receivingCode got) (hlen : got.length ≠ 8)
    (hready : s.unread = [] → s.closed = true ∧ s.travelling = []) :
    let t : Channel := { s with
      phase := .receivingCode (got ++ s.taken got n)
      unread := s.unread.drop (s.taken got n).length }
    t.work payload < s.work payload ∨ (s.Stuck ∧ t = s) := by
  intro t
  by_cases hnone : s.unread = []
  · -- nothing is taken, and nothing changes
    obtain ⟨hclosed, htravelling⟩ := hready hnone
    have htaken : s.taken got n = [] := by rw [taken, hnone, List.take_nil]
    refine Or.inr ⟨⟨got, hphase, hlen, hnone, htravelling, hclosed⟩, ?_⟩
    show ({ s with phase := _, unread := _ } : Channel) = s
    rw [htaken, List.append_nil, List.length_nil, List.drop_zero, ← hphase]
  · have hpos := List.length_pos_iff.mpr hnone
    have hgot := hfits got hphase
    refine Or.inl ?_
    simp only [t, work, hphase, phaseWork, taken, List.length_append, List.length_take,
      List.length_drop]
    omega

theorem recvmsg_work {s t : Channel} (h : StepSpec payload memory s t .recvmsg) :
    t.work payload < s.work payload := by
  obtain ⟨hphase, hrest⟩ := h
  have hten : phaseWork s.phase = 10 := by rw [hphase, phaseWork]
  rcases hrest with ⟨-, -, rfl⟩ | ⟨c, rest, hunread, hrest⟩
  · simp only [work, hten]
    simp only [phaseWork]
    omega
  · have hless : ({ s with unread := rest } : Channel).work payload < s.work payload := by
      simp only [work, hunread, List.length_cons]
      omega
    rcases hrest with ⟨-, rfl⟩ | ⟨fd, -, rfl⟩
    · refine Nat.lt_of_le_of_lt ?_ hless
      simp only [work, hten]
      simp only [phaseWork]
      omega
    · exact Nat.lt_trans (act_work_lt (Nat.le_of_eq hten.symm)) hless

/-- Every step leaves less to do, unless the service is stuck; then it stays so. -/
theorem step_work {s t : Channel} {a : Label} (hfits : s.Fits)
    (h : s.step payload memory a = some t) :
    t.work payload < s.work payload ∨ (s.Stuck ∧ t = s) := by
  have hspec := step_spec h
  cases a with
  | call =>
    obtain ⟨c, rest, hsending, hcalls, rfl⟩ := hspec
    left
    simp only [work, hsending, hcalls, List.map_cons, List.sum_cons, List.length_nil]
    omega
  | send n =>
    obtain ⟨hne, rfl⟩ := hspec
    have hpos := List.length_pos_iff.mpr hne
    left
    simp only [work, List.length_append, List.length_take, List.length_drop]
    omega
  | close =>
    obtain ⟨⟨-, -, -, hopen⟩, rfl⟩ := hspec
    left
    simp [work, hopen]
  | arrive n =>
    obtain ⟨hne, rfl⟩ := hspec
    have hpos := List.length_pos_iff.mpr hne
    left
    simp only [work, List.length_append, List.length_take, List.length_drop, if_true]
    split <;> omega
  | read =>
    obtain ⟨hidle, hedge, rfl⟩ := hspec
    left
    simp only [work, hidle, hedge, phaseWork, if_true, Bool.false_eq_true, if_false]
    omega
  | check =>
    obtain ⟨hchecking, rfl⟩ := hspec
    have hless : phaseWork (if s.unread = [] then .idle else .receivingCode []) = 2 := by
      split <;> rfl
    left
    simp only [work, hless, hchecking]
    simp only [phaseWork]
    omega
  | recv n =>
    obtain ⟨got, hphase, hlen, hready, rfl⟩ := hspec
    exact recv_work hfits hphase hlen hready
  | dispatch =>
    obtain ⟨got, hphase, hlen, ⟨-, rfl⟩ | ⟨-, rfl⟩⟩ := hspec
    all_goals have hfull : phaseWork s.phase = 18 := by rw [hphase, phaseWork, hlen]
    · left
      simp only [work, hfull]
      simp only [phaseWork]
      omega
    · exact Or.inl (act_work_lt (by omega))
  | recvmsg => exact Or.inl (recvmsg_work hspec)
  | fail =>
    obtain ⟨-, ⟨got, hphase⟩ | hphase, rfl⟩ := hspec
    all_goals
      left
      simp only [work, hphase, phaseWork]
      omega
  | hangUp =>
    obtain ⟨hidle, -, rfl⟩ := hspec
    left
    simp only [work, hidle, phaseWork]
    omega

/-! ## What a stream says -/

/-- How a stream ends for its reader. -/
inductive Ending where
  | whole
  | insideCode
  | withoutPayload
  | withoutDescriptor
  | unknownCode
  deriving DecidableEq

/-- The codes in a stream, each with its descriptor, up to where its reader has to stop. -/
def parse (cells : List Cell) : List (UInt64 × Option Nat) × Ending :=
  if cells = [] then ([], .whole)
  else if cells.length < 8 then ([], .insideCode)
  else
    let code := codeOf ((cells.take 8).map Cell.byte)
    if code = 1 then
      match cells.drop 8 with
      | [] => ([], .withoutPayload)
      | c :: _ =>
        match c.fd with
        | none => ([], .withoutDescriptor)
        | some fd => ((1, some fd) :: (parse (cells.drop 9)).1, (parse (cells.drop 9)).2)
    else if code = 2 ∨ code = 3 then
      ((code, none) :: (parse (cells.drop 8)).1, (parse (cells.drop 8)).2)
    else ([], .unknownCode)
termination_by cells.length
decreasing_by all_goals rw [List.length_drop]; omega

@[simp] theorem parse_nil : parse [] = ([], .whole) := by rw [parse, if_pos rfl]

/-- Fewer than eight bytes are no code. -/
theorem parse_short {cells : List Cell} (hne : cells ≠ []) (hlt : cells.length < 8) :
    parse cells = ([], .insideCode) := by
  rw [parse, if_neg hne, if_pos hlt]

section Codes

variable {got rest : List Cell} (hlen : got.length = 8)

include hlen

theorem ne_nil_of_code : got ++ rest ≠ [] := by
  intro h
  rw [(List.append_eq_nil_iff.mp h).1] at hlen
  cases hlen

/-- After the code 1. -/
theorem parse_one {c : Cell} {fd : Nat} (hcode : codeOf (got.map Cell.byte) = 1)
    (hfd : c.fd = some fd) :
    parse (got ++ c :: rest) = ((1, some fd) :: (parse rest).1, (parse rest).2) := by
  have hdrop : (got ++ c :: rest).drop 9 = rest := by
    rw [List.drop_append, hlen, List.drop_eq_nil_of_le (by omega)]
    rfl
  rw [parse, if_neg (ne_nil_of_code hlen), if_neg (by rw [List.length_append]; omega)]
  dsimp only
  rw [List.take_left' hlen, if_pos hcode, List.drop_left' hlen, hdrop]
  dsimp only
  rw [hfd]

theorem parse_one_withoutDescriptor {c : Cell} (hcode : codeOf (got.map Cell.byte) = 1)
    (hfd : c.fd = none) : parse (got ++ c :: rest) = ([], .withoutDescriptor) := by
  rw [parse, if_neg (ne_nil_of_code hlen), if_neg (by rw [List.length_append]; omega)]
  dsimp only
  rw [List.take_left' hlen, if_pos hcode, List.drop_left' hlen]
  dsimp only
  rw [hfd]

theorem parse_one_withoutPayload (hcode : codeOf (got.map Cell.byte) = 1) :
    parse got = ([], .withoutPayload) := by
  have hne : got ++ [] ≠ [] := ne_nil_of_code hlen
  rw [List.append_nil] at hne
  rw [parse, if_neg hne, if_neg (by omega)]
  dsimp only
  rw [List.take_of_length_le (by omega), if_pos hcode, List.drop_eq_nil_of_le (by omega)]

/-- A code that stands alone. -/
theorem parse_other (hcode : codeOf (got.map Cell.byte) = 2 ∨ codeOf (got.map Cell.byte) = 3) :
    parse (got ++ rest) =
      ((codeOf (got.map Cell.byte), none) :: (parse rest).1, (parse rest).2) := by
  have hne : codeOf (got.map Cell.byte) ≠ 1 := by
    rcases hcode with h | h <;> rw [h] <;> decide
  rw [parse, if_neg (ne_nil_of_code hlen), if_neg (by rw [List.length_append]; omega)]
  dsimp only
  rw [List.take_left' hlen, if_neg hne, if_pos hcode, List.drop_left' hlen]

theorem parse_unknown (hcode : codeOf (got.map Cell.byte) ≠ 1 ∧
    codeOf (got.map Cell.byte) ≠ 2 ∧ codeOf (got.map Cell.byte) ≠ 3) :
    parse (got ++ rest) = ([], .unknownCode) := by
  obtain ⟨h1, h2, h3⟩ := hcode
  rw [parse, if_neg (ne_nil_of_code hlen), if_neg (by rw [List.length_append]; omega)]
  dsimp only
  rw [List.take_left' hlen, if_neg h1, if_neg (by rintro (h | h); exacts [h2 h, h3 h])]

end Codes

/-- The cells of the code 1. -/
def codeOne : List Cell := (codeBytes 1).map (⟨·, none⟩)

theorem map_byte_cells (code : UInt64) :
    ((codeBytes code).map fun b => (⟨b, none⟩ : Cell)).map Cell.byte = codeBytes code := by
  rw [List.map_map]
  exact List.map_id _

theorem codeOf_codeOne : codeOf (codeOne.map Cell.byte) = 1 := by
  rw [codeOne, map_byte_cells, codeOf_codeBytes]

/-- Once it has been received, it does not matter of which cells a code 1 was. -/
theorem parse_codeOne {got : List Cell} (hlen : got.length = 8)
    (hcode : codeOf (got.map Cell.byte) = 1) (rest : List Cell) :
    parse (codeOne ++ rest) = parse (got ++ rest) := by
  have hlen' : codeOne.length = 8 := rfl
  have hcode' := codeOf_codeOne
  cases rest with
  | nil =>
    rw [List.append_nil, List.append_nil, parse_one_withoutPayload hlen hcode,
      parse_one_withoutPayload hlen' hcode']
  | cons c rest =>
    cases hfd : c.fd with
    | none =>
      rw [parse_one_withoutDescriptor hlen hcode hfd,
        parse_one_withoutDescriptor hlen' hcode' hfd]
    | some fd => rw [parse_one hlen hcode hfd, parse_one hlen' hcode' hfd]

/-- The code and the descriptor of an operation. -/
def Operation.message : Operation → UInt64 × Option Nat
  | initialise fd => (1, some fd)
  | start => (2, none)
  | stop => (3, none)

/-- The stream of the operations says just what they are. -/
theorem parse_operations (payload : Byte) (ops : List Operation) :
    parse (ops.flatMap (Operation.cells payload)) = (ops.map Operation.message, .whole) := by
  induction ops with
  | nil => exact parse_nil
  | cons op ops ih =>
    rw [List.flatMap_cons, List.map_cons]
    have hcode (code : UInt64) :
        codeOf (((codeBytes code).map fun b => (⟨b, none⟩ : Cell)).map Cell.byte) = code := by
      rw [map_byte_cells, codeOf_codeBytes]
    have hlen (code : UInt64) :
        ((codeBytes code).map fun b => (⟨b, none⟩ : Cell)).length = 8 := by
      simp
    cases op with
    | initialise fd =>
      show parse ((codeBytes 1).map (⟨·, none⟩) ++ ⟨payload, some fd⟩ ::
        ops.flatMap (Operation.cells payload)) = _
      rw [parse_one (hlen 1) (hcode 1) rfl, ih]
      rfl
    | start =>
      show parse (((codeBytes 2).map (⟨·, none⟩) ++ []) ++
        ops.flatMap (Operation.cells payload)) = _
      rw [List.append_nil, parse_other (hlen 2) (Or.inl (hcode 2)), hcode, ih]
      rfl
    | stop =>
      show parse (((codeBytes 3).map (⟨·, none⟩) ++ []) ++
        ops.flatMap (Operation.cells payload)) = _
      rw [List.append_nil, parse_other (hlen 3) (Or.inr (hcode 3)), hcode, ih]
      rfl

/-! ## Where the service stands in the stream -/

/-- The stream from the code on that the service has not acted on yet. -/
def ahead (payload : Byte) (s : Channel) : List Cell :=
  match s.phase with
  | .receivingCode got => got ++ s.future payload
  | .receivingFds => codeOne ++ s.future payload
  | _ => s.future payload

/-- The service is still there to read. -/
def Serves (s : Channel) : Prop := s.phase ≠ .disconnected ∧ s.phase ≠ .threw

/-- A code that the service acts on. -/
def Known (code : UInt64) : Prop := code = 1 ∨ code = 2 ∨ code = 3

/-- Where the service stands in the stream `all`, and what it has made of what it was. -/
structure Placed (payload : Byte) (memory : Nat → RingBuffer) (all : List Cell)
    (service : SparkleAudio) (s : Channel) : Prop where
  stream : s.Serves → parse all =
    (s.dispatched ++ (parse (s.ahead payload)).1, (parse (s.ahead payload)).2)
  fits : ∀ got, s.phase = .receivingCode got → got.length ≤ 8 ∧ (got = [] → s.unread ≠ [])
  threw : s.phase = .threw →
    (parse all).2 = .unknownCode ∨ (parse all).2 = .withoutDescriptor
  left : s.phase = .disconnected → s.closed = true
  idle : s.phase = .idle → s.edge = false → s.unread = []
  closing : s.closed = true → s.closes = true ∧ s.calls = [] ∧ s.sending = []
  known : ∀ m ∈ s.dispatched, Known m.1
  acted : s.service = service.read (s.dispatched.map (clientMessage memory))

theorem receive_known {service : SparkleAudio} {m : ClientMessage} (h : Known m.code) :
    ∃ service', service.receive m = some service' := by
  rw [SparkleAudio.receive_eq]
  rcases h with h | h | h <;> rw [h]
  exacts [⟨_, rfl⟩, ⟨_, rfl⟩, ⟨_, rfl⟩]

theorem receive_unknown {service : SparkleAudio} {m : ClientMessage} (h : ¬ Known m.code) :
    service.receive m = none := by
  rw [SparkleAudio.receive_eq, if_neg fun h1 => h (Or.inl h1),
    if_neg fun h2 => h (Or.inr (Or.inl h2)), if_neg fun h3 => h (Or.inr (Or.inr h3))]

/-- Reading known codes, and then one more. -/
theorem read_append {service service' : SparkleAudio} {ms : List ClientMessage}
    {m : ClientMessage} (h : ∀ m ∈ ms, Known m.code)
    (hlast : (service.read ms).receive m = some service') :
    service.read (ms ++ [m]) = service' := by
  induction ms generalizing service with
  | nil =>
    rw [SparkleAudio.read] at hlast
    rw [List.nil_append, SparkleAudio.read, hlast]
    rfl
  | cons first ms ih =>
    obtain ⟨next, hnext⟩ : ∃ next, service.receive first = some next :=
      receive_known (h first List.mem_cons_self)
    rw [SparkleAudio.read, hnext] at hlast
    rw [List.cons_append, SparkleAudio.read, hnext]
    exact ih (fun m hm => h m (List.mem_cons_of_mem _ hm)) hlast

namespace Placed

variable {all : List Cell} {service : SparkleAudio} {s t : Channel}

/-- A step of the client or the socket moves bytes, and nothing else. -/
theorem moved (h : s.Placed payload memory all service)
    (hfuture : t.future payload = s.future payload)
    (hservice : t.phase = s.phase ∧ t.service = s.service ∧ t.dispatched = s.dispatched)
    (hunread : s.unread ≠ [] → t.unread ≠ [])
    (hedge : t.edge = false → s.edge = false ∧ t.unread = s.unread)
    (hclosed : s.closed = true → t.closed = true)
    (hclosing : t.closed = true → t.closes = true ∧ t.calls = [] ∧ t.sending = []) :
    t.Placed payload memory all service := by
  obtain ⟨hphase, hsame, hdispatched⟩ := hservice
  have hahead : t.ahead payload = s.ahead payload := by
    rw [ahead, ahead, hphase, hfuture]
  refine ⟨?_, ?_, ?_, ?_, ?_, hclosing, ?_, ?_⟩
  · rw [Serves, hphase, hahead, hdispatched]
    exact h.stream
  · intro got hgot
    obtain ⟨hle, hsome⟩ := h.fits got (hphase ▸ hgot)
    exact ⟨hle, fun hnil => hunread (hsome hnil)⟩
  · rw [hphase]
    exact h.threw
  · rw [hphase]
    exact fun hleft => hclosed (h.left hleft)
  · intro hidle hnone
    obtain ⟨hbefore, heq⟩ := hedge hnone
    rw [heq]
    exact h.idle (hphase ▸ hidle) hbefore
  · rw [hdispatched]
    exact h.known
  · rw [hsame, hdispatched]
    exact h.acted

/-- The service goes on to another phase, and stands where it stood. -/
theorem turned (h : s.Placed payload memory all service) (hserves : s.Serves)
    (hahead : parse (t.ahead payload) = parse (s.ahead payload))
    (hservice : t.service = s.service ∧ t.dispatched = s.dispatched)
    (hphase : t.Serves ∧ (t.phase = .idle → t.unread = []))
    (hfits : ∀ got, t.phase = .receivingCode got → got.length ≤ 8 ∧ (got = [] → t.unread ≠ []))
    (hsame : t.closed = s.closed ∧ t.closes = s.closes ∧ t.calls = s.calls ∧
      t.sending = s.sending) : t.Placed payload memory all service := by
  obtain ⟨hacted, hdispatched⟩ := hservice
  obtain ⟨hclosed, hcloses, hcalls, hsending⟩ := hsame
  refine ⟨fun _ => ?_, hfits, fun hthrew => absurd hthrew hphase.1.2,
    fun hleft => absurd hleft hphase.1.1, fun hidle _ => hphase.2 hidle, ?_, ?_, ?_⟩
  · rw [hahead, hdispatched]
    exact h.stream hserves
  · rw [hclosed, hcloses, hcalls, hsending]
    exact h.closing
  · rw [hdispatched]
    exact h.known
  · rw [hacted, hdispatched]
    exact h.acted

/-- The service acts on a known code, and goes on behind it. -/
theorem acts {code : UInt64} {fd : Option Nat} (h : s.Placed payload memory all service)
    (hserves : s.Serves) (hknown : Known code)
    (hahead : parse (s.ahead payload) =
      ((code, fd) :: (parse (t.future payload)).1, (parse (t.future payload)).2))
    (hservice : t.service = s.service ∧ t.dispatched = s.dispatched)
    (hsame : t.closed = s.closed ∧ t.closes = s.closes ∧ t.calls = s.calls ∧
      t.sending = s.sending) : (t.act memory code fd).Placed payload memory all service := by
  obtain ⟨hacted, hdispatched⟩ := hservice
  obtain ⟨hclosed, hcloses, hcalls, hsending⟩ := hsame
  obtain ⟨service', hreceive⟩ :
      ∃ service', t.service.receive (clientMessage memory (code, fd)) = some service' :=
    receive_known hknown
  rw [act, hreceive]
  refine ⟨fun _ => ?_, nofun, nofun, nofun, nofun, ?_, ?_, ?_⟩
  · show _ = (t.dispatched ++ [(code, fd)] ++ (parse (t.future payload)).1,
      (parse (t.future payload)).2)
    rw [h.stream hserves, hahead, hdispatched, List.append_assoc]
    rfl
  · show t.closed = true → t.closes = true ∧ t.calls = [] ∧ t.sending = []
    rw [hclosed, hcloses, hcalls, hsending]
    exact h.closing
  · show ∀ m ∈ t.dispatched ++ [(code, fd)], Known m.1
    rw [hdispatched]
    intro m hm
    rcases List.mem_append.mp hm with hold | hnew
    · exact h.known m hold
    · rw [List.mem_singleton.mp hnew]
      exact hknown
  · show service' = service.read ((t.dispatched ++ [(code, fd)]).map (clientMessage memory))
    rw [List.map_append, hdispatched]
    refine (read_append ?_ ?_).symm
    · intro m hm
      obtain ⟨old, hold, rfl⟩ := List.mem_map.mp hm
      exact h.known old hold
    · rw [← h.acted, ← hacted]
      exact hreceive

/-- The service throws, for the stream gives it reason to. -/
theorem throws (h : s.Placed payload memory all service) (hserves : s.Serves)
    (hending : (parse (s.ahead payload)).2 = .unknownCode ∨
      (parse (s.ahead payload)).2 = .withoutDescriptor)
    (hphase : t.phase = .threw) (hservice : t.service = s.service ∧ t.dispatched = s.dispatched)
    (hsame : t.closed = s.closed ∧ t.closes = s.closes ∧ t.calls = s.calls ∧
      t.sending = s.sending) : t.Placed payload memory all service := by
  obtain ⟨hacted, hdispatched⟩ := hservice
  obtain ⟨hclosed, hcloses, hcalls, hsending⟩ := hsame
  refine ⟨fun hserves' => absurd hphase hserves'.2, ?_, fun _ => ?_, ?_, ?_, ?_, ?_, ?_⟩
  · intro got hgot
    rw [hphase] at hgot
    cases hgot
  · rw [h.stream hserves]
    exact hending
  · rw [hphase]
    nofun
  · rw [hphase]
    nofun
  · rw [hclosed, hcloses, hcalls, hsending]
    exact h.closing
  · rw [hdispatched]
    exact h.known
  · rw [hacted, hdispatched]
    exact h.acted

/-- The client is gone. -/
theorem leaves (h : s.Placed payload memory all service) (hclosed : s.closed = true) :
    ({ s with phase := .disconnected } : Channel).Placed payload memory all service where
  stream := fun hserves => absurd rfl hserves.1
  fits := nofun
  threw := nofun
  left := fun _ => hclosed
  idle := nofun
  closing := h.closing
  known := h.known
  acted := h.acted

end Placed

theorem connected_placed (calls : List SendCall) (sending : List Cell) (closes : Bool)
    (service : SparkleAudio) :
    (connected calls sending closes service).Placed payload memory
      (sending ++ calls.flatMap (SendCall.cells payload)) service where
  stream := fun _ => rfl
  fits := nofun
  threw := nofun
  left := nofun
  idle := fun _ _ => rfl
  closing := nofun
  known := nofun
  acted := rfl

section Steps

variable {all : List Cell} {service : SparkleAudio} {s t : Channel}

/-- The service receives bytes of a code. -/
theorem recv_placed {n : Nat} (h : s.Placed payload memory all service)
    (hspec : StepSpec payload memory s t (.recv n)) : t.Placed payload memory all service := by
  obtain ⟨got, hphase, hlen, -, rfl⟩ := hspec
  obtain ⟨hle, hsome⟩ := h.fits got hphase
  have htaken : s.taken got n ++ s.unread.drop (s.taken got n).length = s.unread := by
    have htake : s.taken got n = s.unread.take (s.taken got n).length :=
      List.prefix_iff_eq_take.mp (List.take_prefix _ _)
    conv_lhs => rw [htake]
    rw [List.length_take, Nat.min_eq_left (by simp [taken])]
    exact List.take_append_drop _ _
  refine h.turned ?_ ?_ ⟨rfl, rfl⟩ ⟨⟨nofun, nofun⟩, nofun⟩ ?_ ⟨rfl, rfl, rfl, rfl⟩
  · rw [Serves, hphase]
    exact ⟨nofun, nofun⟩
  · rw [ahead, ahead, hphase]
    show parse (got ++ s.taken got n ++ _) = parse (got ++ _)
    conv_rhs => rw [future, ← htaken]
    simp [future]
  · rintro got' hgot'
    cases hgot'
    refine ⟨?_, fun hnil => ?_⟩
    · rw [List.length_append, taken, List.length_take]
      omega
    · -- with nothing in the buffer there was something to read, and some was taken
      obtain ⟨hgot, hnone⟩ := List.append_eq_nil_iff.mp hnil
      have hpos := List.length_pos_iff.mpr (hsome hgot)
      rw [taken, ← List.length_eq_zero_iff, List.length_take, hgot, List.length_nil] at hnone
      omega

/-- The service looks at a code it has received. -/
theorem dispatch_placed (h : s.Placed payload memory all service)
    (hspec : StepSpec payload memory s t .dispatch) : t.Placed payload memory all service := by
  obtain ⟨got, hphase, hlen, hcode⟩ := hspec
  have hserves : s.Serves := by
    rw [Serves, hphase]
    exact ⟨nofun, nofun⟩
  have hahead : s.ahead payload = got ++ s.future payload := by rw [ahead, hphase]
  rcases hcode with ⟨hone, rfl⟩ | ⟨hother, rfl⟩
  · refine h.turned hserves ?_ ⟨rfl, rfl⟩ ⟨⟨nofun, nofun⟩, nofun⟩ nofun ⟨rfl, rfl, rfl, rfl⟩
    rw [hahead]
    exact parse_codeOne hlen hone _
  · by_cases hknown : Known (codeOf (got.map Cell.byte))
    · refine h.acts hserves hknown ?_ ⟨rfl, rfl⟩ ⟨rfl, rfl, rfl, rfl⟩
      rw [hahead]
      exact parse_other hlen (Or.resolve_left hknown hother)
    · have hthrow : s.act memory (codeOf (got.map Cell.byte)) none =
          { s with phase := .threw } := by
        rw [act, receive_unknown (m := clientMessage memory
          (codeOf (got.map Cell.byte), none)) hknown]
      rw [hthrow]
      refine h.throws hserves (Or.inl ?_) rfl ⟨rfl, rfl⟩ ⟨rfl, rfl, rfl, rfl⟩
      rw [hahead, parse_unknown hlen ⟨hother, fun h2 => hknown (Or.inr (Or.inl h2)),
        fun h3 => hknown (Or.inr (Or.inr h3))⟩]

/-- The service receives what comes after a code 1. -/
theorem recvmsg_placed (h : s.Placed payload memory all service)
    (hspec : StepSpec payload memory s t .recvmsg) : t.Placed payload memory all service := by
  obtain ⟨hphase, ⟨-, hclosed, rfl⟩ | ⟨c, rest, hunread, hfd⟩⟩ := hspec
  · exact h.leaves hclosed
  · have hserves : s.Serves := by
      rw [Serves, hphase]
      exact ⟨nofun, nofun⟩
    have hahead : s.ahead payload =
        codeOne ++ c :: ({ s with unread := rest } : Channel).future payload := by
      rw [ahead, hphase, future, hunread]
      rfl
    have hcode := codeOf_codeOne
    rcases hfd with ⟨hnone, rfl⟩ | ⟨fd, hsome, rfl⟩
    · refine h.throws hserves (Or.inr ?_) rfl ⟨rfl, rfl⟩ ⟨rfl, rfl, rfl, rfl⟩
      rw [hahead, parse_one_withoutDescriptor rfl hcode hnone]
    · refine h.acts hserves (Or.inl rfl) ?_ ⟨rfl, rfl⟩ ⟨rfl, rfl, rfl, rfl⟩
      rw [hahead]
      exact parse_one rfl hcode hsome

/-- `bytes_available` is called for the next code. -/
theorem check_placed (h : s.Placed payload memory all service)
    (hspec : StepSpec payload memory s t .check) : t.Placed payload memory all service := by
  obtain ⟨hchecking, rfl⟩ := hspec
  have hserves : s.Serves := by
    rw [Serves, hchecking]
    exact ⟨nofun, nofun⟩
  by_cases hnone : s.unread = []
  · refine h.turned hserves ?_ ⟨rfl, rfl⟩ ⟨?_, fun _ => hnone⟩ ?_ ⟨rfl, rfl, rfl, rfl⟩
    · rw [ahead, ahead, hchecking, if_pos hnone]
      rfl
    · rw [if_pos hnone]
      exact ⟨nofun, nofun⟩
    · rw [if_pos hnone]
      nofun
  · refine h.turned hserves ?_ ⟨rfl, rfl⟩ ?_ ?_ ⟨rfl, rfl, rfl, rfl⟩
    · rw [ahead, ahead, hchecking, if_neg hnone]
      rfl
    · rw [if_neg hnone]
      exact ⟨⟨nofun, nofun⟩, nofun⟩
    · rw [if_neg hnone]
      rintro got hgot
      cases hgot
      exact ⟨Nat.zero_le _, fun _ => hnone⟩

/-- Every step keeps the service in its place. -/
theorem step_placed {a : Label} (h : s.Placed payload memory all service)
    (hstep : s.step payload memory a = some t) : t.Placed payload memory all service := by
  have hspec := step_spec hstep
  cases a with
  | call =>
    obtain ⟨c, rest, hsending, hcalls, rfl⟩ := hspec
    refine h.moved ?_ ⟨rfl, rfl, rfl⟩ id (fun hedge => ⟨hedge, rfl⟩) id fun hclosed => ?_
    · simp [future, hsending, hcalls]
    · obtain ⟨-, hnone, -⟩ := h.closing hclosed
      rw [hcalls] at hnone
      cases hnone
  | send n =>
    obtain ⟨hne, rfl⟩ := hspec
    refine h.moved ?_ ⟨rfl, rfl, rfl⟩ id (fun hedge => ⟨hedge, rfl⟩) id fun hclosed => ?_
    · simp [future]
    · exact absurd (h.closing hclosed).2.2 hne
  | close =>
    obtain ⟨⟨hcalls, hsending, hcloses, -⟩, rfl⟩ := hspec
    exact h.moved rfl ⟨rfl, rfl, rfl⟩ id (fun hedge => ⟨hedge, rfl⟩) (fun _ => rfl)
      fun _ => ⟨hcloses, hcalls, hsending⟩
  | arrive n =>
    obtain ⟨-, rfl⟩ := hspec
    refine h.moved ?_ ⟨rfl, rfl, rfl⟩ ?_ nofun id h.closing
    · simp [future]
    · exact fun hne => by simp [hne]
  | read =>
    obtain ⟨hidle, -, rfl⟩ := hspec
    refine h.turned ?_ ?_ ⟨rfl, rfl⟩ ⟨⟨nofun, nofun⟩, nofun⟩ nofun ⟨rfl, rfl, rfl, rfl⟩
    · rw [Serves, hidle]
      exact ⟨nofun, nofun⟩
    · rw [ahead, ahead, hidle]
      rfl
  | check => exact check_placed h hspec
  | recv n => exact recv_placed h hspec
  | dispatch => exact dispatch_placed h hspec
  | recvmsg => exact recvmsg_placed h hspec
  | fail =>
    obtain ⟨hclosed, -, rfl⟩ := hspec
    exact h.leaves hclosed
  | hangUp =>
    obtain ⟨-, hclosed, rfl⟩ := hspec
    exact h.leaves hclosed

end Steps

/-! ## The service goes on -/

/-- As long as there are bytes on their way, they come closer. -/
theorem step_of_future {s : Channel} (hfuture : s.future payload ≠ []) (hunread : s.unread = []) :
    ∃ a t, s.step payload memory a = some t ∧ t.phase = s.phase := by
  by_cases htravelling : s.travelling = []
  · by_cases hsending : s.sending = []
    · cases hcalls : s.calls with
      | nil =>
        rw [future, hunread, htravelling, hsending, hcalls] at hfuture
        exact absurd rfl hfuture
      | cons c rest =>
        exact ⟨.call, { s with sending := c.cells payload, calls := rest },
          by simp [step, hsending, hcalls], rfl⟩
    · exact ⟨.send 0, _, if_neg hsending, rfl⟩
  · exact ⟨.arrive 0, _, if_neg htravelling, rfl⟩

/-- A service that has acted on a code is not disconnected. -/
theorem act_phase (memory : Nat → RingBuffer) (s : Channel) (code : UInt64) (fd : Option Nat) :
    (s.act memory code fd).phase ≠ .disconnected := by
  unfold act
  split <;> nofun

/-- Every call sends something. -/
theorem cells_ne_nil (payload : Byte) (c : SendCall) : c.cells payload ≠ [] := by
  cases c with
  | sendAll code =>
    intro h
    have hlen := congrArg List.length h
    simp [SendCall.cells] at hlen
  | sendFds fd => nofun

/-- Where no bytes are left, the client is done. -/
theorem future_eq_nil_iff {s : Channel} :
    s.future payload = [] ↔
      s.unread = [] ∧ s.travelling = [] ∧ s.sending = [] ∧ s.calls = [] := by
  rw [future, List.append_eq_nil_iff, List.append_eq_nil_iff, List.append_eq_nil_iff,
    List.flatMap_eq_nil_iff, List.eq_nil_iff_forall_not_mem (l := s.calls)]
  constructor
  · rintro ⟨⟨⟨hunread, htravelling⟩, hsending⟩, hcalls⟩
    exact ⟨hunread, htravelling, hsending, fun c hc => cells_ne_nil payload c (hcalls c hc)⟩
  · rintro ⟨hunread, htravelling, hsending, hcalls⟩
    exact ⟨⟨⟨hunread, htravelling⟩, hsending⟩, fun c hc => absurd hc (hcalls c)⟩

/-- The service is in the middle of something, and there are no more bytes. -/
def Waits (payload : Byte) (s : Channel) : Prop :=
  s.future payload = [] ∧
    ((∃ got, s.phase = .receivingCode got ∧ got.length < 8 ∧ got ≠ []) ∨
      s.phase = .receivingFds)

/-- The stream of a service that waits is cut off. -/
theorem Waits.ending {s : Channel} (h : s.Waits payload) :
    (parse (s.ahead payload)).2 = .insideCode ∧ (∃ got, s.phase = .receivingCode got ∧
        got.length < 8) ∨
      (parse (s.ahead payload)).2 = .withoutPayload ∧ s.phase = .receivingFds := by
  obtain ⟨hfuture, ⟨got, hphase, hlt, hne⟩ | hphase⟩ := h
  · have hahead : s.ahead payload = got := by
      rw [ahead, hphase]
      exact (congrArg (got ++ ·) hfuture).trans (List.append_nil got)
    rw [hahead, parse_short hne hlt]
    exact Or.inl ⟨rfl, got, hphase, hlt⟩
  · have hahead : s.ahead payload = codeOne := by
      rw [ahead, hphase]
      exact (congrArg (codeOne ++ ·) hfuture).trans (List.append_nil codeOne)
    rw [hahead, parse_one_withoutPayload rfl codeOf_codeOne]
    exact Or.inr ⟨rfl, hphase⟩

/-- The service has nothing left to read, or goes on, or waits for bytes that nobody
sends. -/
theorem progress {all : List Cell} {service : SparkleAudio} {s : Channel}
    (h : s.Placed payload memory all service) (hserves : s.Serves) :
    (s.phase = .idle ∧ s.edge = false ∧ s.future payload = []) ∨
      (∃ a t, s.step payload memory a = some t ∧ t.phase ≠ .disconnected) ∨
      s.Waits payload := by
  have hmove (hfuture : s.future payload ≠ []) (hunread : s.unread = []) :
      ∃ a t, s.step payload memory a = some t ∧ t.phase ≠ .disconnected := by
    obtain ⟨a, t, hstep, hphase⟩ :
        ∃ a t, s.step payload memory a = some t ∧ t.phase = s.phase :=
      step_of_future hfuture hunread
    exact ⟨a, t, hstep, fun hleft => hserves.1 (hphase ▸ hleft)⟩
  cases hphase : s.phase with
  | idle =>
    cases hedge : s.edge with
    | true =>
      exact Or.inr (Or.inl ⟨.read, _, if_pos ⟨hphase, hedge⟩, nofun⟩)
    | false =>
      have hunread := h.idle hphase hedge
      by_cases hfuture : s.future payload = []
      · exact Or.inl ⟨rfl, rfl, hfuture⟩
      · exact Or.inr (Or.inl (hmove hfuture hunread))
  | checking =>
    refine Or.inr (Or.inl ⟨.check, _, if_pos hphase, ?_⟩)
    dsimp only
    split <;> nofun
  | receivingCode got =>
    obtain ⟨hle, hsome⟩ := h.fits got hphase
    by_cases hlen : got.length = 8
    · by_cases hcode : codeOf (got.map Cell.byte) = 1
      · refine Or.inr (Or.inl ⟨.dispatch, { s with phase := .receivingFds }, ?_, nofun⟩)
        simp [step, hphase, hlen, hcode]
      · refine Or.inr (Or.inl ⟨.dispatch, _, ?_, act_phase memory s
          (codeOf (got.map Cell.byte)) none⟩)
        simp [step, hphase, hlen, hcode]
    · by_cases hunread : s.unread = []
      · by_cases hfuture : s.future payload = []
        · exact Or.inr (Or.inr ⟨hfuture, Or.inl ⟨got, hphase, by omega,
            fun hnil => hsome hnil hunread⟩⟩)
        · exact Or.inr (Or.inl (hmove hfuture hunread))
      · refine Or.inr (Or.inl ⟨.recv 0, { s with
            phase := .receivingCode (got ++ s.taken got 0)
            unread := s.unread.drop (s.taken got 0).length }, ?_, nofun⟩)
        simp only [step, hphase, hlen, if_false, meets, dif_neg hunread, Option.map_some]
  | receivingFds =>
    cases hunread : s.unread with
    | nil =>
      by_cases hfuture : s.future payload = []
      · exact Or.inr (Or.inr ⟨hfuture, Or.inr hphase⟩)
      · exact Or.inr (Or.inl (hmove hfuture hunread))
    | cons c rest =>
      cases hfd : c.fd with
      | none =>
        refine Or.inr (Or.inl ⟨.recvmsg, { s with unread := rest, phase := .threw }, ?_,
          ReadPhase.noConfusion⟩)
        simp [step, hphase, hunread, hfd]
      | some fd =>
        refine Or.inr (Or.inl ⟨.recvmsg, _, ?_, act_phase memory
          { s with unread := rest } 1 (some fd)⟩)
        simp [step, hphase, hunread, hfd]
  | disconnected => exact absurd hphase hserves.1
  | threw => exact absurd hphase hserves.2

/-! ## The round trip -/

/-- The plugin on one end of the socket, about to perform these operations, and the
service on the other. -/
def machine (payload : Byte) (memory : Nat → RingBuffer) (ops : List Operation)
    (service : SparkleAudio) : Machine Channel Label :=
  Machine.ofStep (fun s => s = connected (ops.flatMap Operation.calls) [] false service)
    (step payload memory)

/-- All that the plugin sends has arrived, and the service is not reading nor about to. -/
def Quiet (s : Channel) : Prop :=
  s.calls = [] ∧ s.sending = [] ∧ s.travelling = [] ∧ s.phase = .idle ∧ s.edge = false

/-- What the control channel delivers of these operations. -/
structure Delivers (payload : Byte) (memory : Nat → RingBuffer) (ops : List Operation)
    (service : SparkleAudio) (steps : Nat) (s : Channel) : Prop where
  /-- The service has acted on the first operations, in order and with their descriptors. -/
  inOrder : s.dispatched <+: ops.map Operation.message
  acted : s.service = service.read (s.dispatched.map (clientMessage memory))
  /-- Nobody waits for ever before all has arrived and the service is quiet. -/
  goesOn : s.Quiet ∨ ∃ a t, s.step payload memory a = some t
  bounded : steps ≤ (connected (ops.flatMap Operation.calls) [] false service).work payload
  complete : s.Quiet → s.unread = [] ∧ s.dispatched = ops.map Operation.message

theorem flatMap_calls (payload : Byte) (ops : List Operation) :
    (ops.flatMap Operation.calls).flatMap (SendCall.cells payload) =
      ops.flatMap (Operation.cells payload) := by
  rw [List.flatMap_assoc]
  rfl

theorem act_closes (memory : Nat → RingBuffer) (s : Channel) (code : UInt64)
    (fd : Option Nat) : (s.act memory code fd).closes = s.closes := by
  unfold act
  split <;> rfl

/-- Whether the client closes the connection in the end does not change. -/
theorem step_closes {s t : Channel} {a : Label} (h : s.step payload memory a = some t) :
    t.closes = s.closes := by
  have hspec := step_spec h
  cases a with
  | call =>
    obtain ⟨c, rest, -, -, rfl⟩ := hspec
    rfl
  | send n | close | arrive n | check =>
    obtain ⟨-, rfl⟩ := hspec
    rfl
  | read | hangUp | fail =>
    obtain ⟨-, -, rfl⟩ := hspec
    rfl
  | recv n =>
    obtain ⟨got, -, -, -, rfl⟩ := hspec
    rfl
  | dispatch =>
    obtain ⟨got, -, -, ⟨-, rfl⟩ | ⟨-, rfl⟩⟩ := hspec
    · rfl
    · exact act_closes memory s _ none
  | recvmsg =>
    obtain ⟨-, ⟨-, -, rfl⟩ | ⟨c, rest, -, ⟨-, rfl⟩ | ⟨fd, -, rfl⟩⟩⟩ := hspec
    · rfl
    · rfl
    · exact act_closes memory { s with unread := rest } 1 (some fd)

theorem Placed.toFits {all : List Cell} {service : SparkleAudio} {s : Channel}
    (h : s.Placed payload memory all service) : s.Fits :=
  fun got hgot => (h.fits got hgot).1

/-- In every run the service keeps its place in the stream of the operations, and every step has
left less to do. -/
theorem reaches_placed {ops : List Operation} {service : SparkleAudio} {as : List Label}
    {s : Channel} (h : (machine payload memory ops service).Reaches as s) :
    s.Placed payload memory (ops.flatMap (Operation.cells payload)) service ∧
      s.closes = false ∧ as.length + s.work payload ≤
        (connected (ops.flatMap Operation.calls) [] false service).work payload := by
  obtain ⟨s₀, rfl, hpath⟩ := h
  induction hpath with
  | nil =>
    have hplaced : (connected (ops.flatMap Operation.calls) [] false service).Placed payload
        memory ([] ++ (ops.flatMap Operation.calls).flatMap (SendCall.cells payload)) service :=
      connected_placed (ops.flatMap Operation.calls) [] false service
    rw [List.nil_append, flatMap_calls] at hplaced
    exact ⟨hplaced, rfl, by simp⟩
  | snoc _ hstep ih =>
    obtain ⟨hplaced, hopen, hwork⟩ := ih
    refine ⟨step_placed hplaced hstep, (step_closes hstep).trans hopen, ?_⟩
    rcases step_work hplaced.toFits hstep with hless | ⟨⟨got, -, -, -, -, hclosed⟩, -⟩
    · rw [List.length_append, List.length_singleton]
      omega
    · rw [(hplaced.closing hclosed).1] at hopen
      cases hopen

/-- **Round trip.** In every run the service has acted on the first of the plugin's
operations, in order and each with its descriptor; it goes on until all has arrived, and
then it has acted on all of them and left no byte unread. -/
theorem roundTrip {ops : List Operation} {service : SparkleAudio} {as : List Label}
    {s : Channel} (h : (machine payload memory ops service).Reaches as s) :
    Delivers payload memory ops service as.length s := by
  obtain ⟨hplaced, hopen, hwork⟩ := reaches_placed h
  have hending : (parse (ops.flatMap (Operation.cells payload))).2 = .whole := by
    rw [parse_operations]
  have hserves : s.Serves := by
    constructor
    · intro hleft
      rw [(hplaced.closing (hplaced.left hleft)).1] at hopen
      cases hopen
    · intro hthrew
      rcases hplaced.threw hthrew with hbad | hbad <;> rw [hending] at hbad <;> cases hbad
  have hstream := hplaced.stream hserves
  rw [parse_operations] at hstream
  obtain ⟨hmessages, hwhole⟩ := Prod.mk.inj hstream
  refine ⟨⟨_, hmessages.symm⟩, hplaced.acted, ?_, by omega, ?_⟩
  · rcases progress hplaced hserves with ⟨hidle, hedge, hfuture⟩ | ⟨a, t, hstep, -⟩ | hwaits
    · obtain ⟨-, htravelling, hsending, hcalls⟩ := future_eq_nil_iff.mp hfuture
      exact Or.inl ⟨hcalls, hsending, htravelling, hidle, hedge⟩
    · exact Or.inr ⟨a, t, hstep⟩
    · rcases hwaits.ending with ⟨hcut, -⟩ | ⟨hcut, -⟩ <;> rw [← hwhole] at hcut <;> cases hcut
  · rintro ⟨hcalls, hsending, htravelling, hidle, hedge⟩
    have hunread := hplaced.idle hidle hedge
    refine ⟨hunread, ?_⟩
    rw [ahead, hidle] at hmessages
    dsimp only at hmessages
    rw [future, hunread, htravelling, hsending, hcalls] at hmessages
    simpa using hmessages.symm

/-- A service with a client and a stopped player. -/
def ready : SparkleAudio := SparkleAudio.constructed.connectClient

/-- The plugin initialises and starts; the code 1 comes in two pieces, its payload and
the code 2 in one, of which the service receives three bytes first. -/
def pieces : List Label :=
  [.call, .send 4, .arrive 4, .read, .check, .recv 9, .send 9, .arrive 2, .recv 9, .dispatch,
    .call, .send 0, .call, .send 7, .arrive 8, .recvmsg, .check, .recv 2, .recv 9, .dispatch,
    .check, .read, .check]

theorem pieces_roundTrip :
    ∃ s, (machine 0 (fun _ => SparkleAudio.noRing) [.initialise 7, .start] ready).Reaches
        pieces s ∧
      s.dispatched = [(1, some 7), (2, none)] ∧
      Delivers 0 (fun _ => SparkleAudio.noRing) [.initialise 7, .start] ready pieces.length s := by
  have hrun : (pieces.foldlM (step 0 fun _ => SparkleAudio.noRing)
      (connected ([Operation.initialise 7, .start].flatMap Operation.calls) [] false
        ready)).map Channel.dispatched = some [(1, some 7), (2, none)] := by
    decide +kernel
  obtain ⟨s, hs, hdispatched⟩ := Option.map_eq_some_iff.mp hrun
  have hreaches : (machine 0 (fun _ => SparkleAudio.noRing) [.initialise 7, .start] ready).Reaches
      pieces s := ⟨_, rfl, Machine.Path.of_run hs⟩
  exact ⟨s, hreaches, hdispatched, roundTrip hreaches⟩

end Channel

end SparkleWayland
