import SparkleWayland.Audio.Channel

/-!
# A client that leaves (`sparkle_audio::read`)

A client may send any bytes and then close the connection. `receive_all` does not notice
the end of the stream; the service that has received a part of a code tries for ever to
receive the rest. `receives_iff` says of `receive_all` and of `read` just when they
come back.
-/

namespace SparkleWayland

namespace Channel

variable {payload : Byte} {memory : Nat → RingBuffer}

/-- What can follow a state. -/
def Follows (payload : Byte) (memory : Nat → RingBuffer) (t s : Channel) : Prop :=
  ∃ a, s.step payload memory a = some t

/-- The client that sends these bytes and closes the connection, and the service. -/
def leaving (cells : List Cell) (service : SparkleAudio) : Channel :=
  connected [] cells true service

/-- Every `read` comes back: no run goes on for ever, and where one can go no further the
service is not in the middle of a `read`. -/
def ReadReturns (payload : Byte) (memory : Nat → RingBuffer) (s : Channel) : Prop :=
  Acc (Follows payload memory) s ∧
    ∀ as t, (Machine.ofStep (fun _ => True) (step payload memory)).Path s as t →
      (∀ a, t.step payload memory a = none) →
        t.phase = .idle ∨ t.phase = .disconnected ∨ t.phase = .threw

theorem leaving_placed (cells : List Cell) (service : SparkleAudio) :
    (leaving cells service).Placed payload memory cells service := by
  have hplaced : (connected [] cells true service).Placed payload memory
      (cells ++ [].flatMap (SendCall.cells payload)) service :=
    connected_placed [] cells true service
  rwa [List.flatMap_nil, List.append_nil] at hplaced

section Runs

variable {all : List Cell} {service : SparkleAudio} {s : Channel}

/-- A service that waits for more of a client that closes is told in the end. -/
theorem Waits.step (hwaits : s.Waits payload) (hcloses : s.closes = true) :
    ∃ a t, s.step payload memory a = some t ∧ (t.phase = s.phase ∨ s.phase = .receivingFds) := by
  obtain ⟨hfuture, hphase⟩ := hwaits
  obtain ⟨hunread, htravelling, hsending, hcalls⟩ := future_eq_nil_iff.mp hfuture
  cases hclosed : s.closed with
  | false => exact ⟨.close, _, if_pos ⟨hcalls, hsending, hcloses, hclosed⟩, Or.inl rfl⟩
  | true =>
    rcases hphase with ⟨got, hphase, hlt, -⟩ | hphase
    · refine ⟨.recv 0, { s with
          phase := .receivingCode (got ++ s.taken got 0)
          unread := s.unread.drop (s.taken got 0).length }, ?_, Or.inl ?_⟩
      · simp only [Channel.step, hphase, Nat.ne_of_lt hlt, if_false, meets, dif_pos hunread,
          if_pos (And.intro hclosed htravelling), Option.map_some]
      · rw [hphase, taken, hunread, List.take_nil, List.append_nil]
    · refine ⟨.recvmsg, { s with phase := .disconnected }, ?_, Or.inr hphase⟩
      simp [Channel.step, hphase, hunread, hclosed, htravelling]

/-- A stuck service has a part of a code, and there is no more. -/
theorem Stuck.ending (h : s.Placed payload memory all service) (hstuck : s.Stuck) :
    (parse all).2 = .insideCode := by
  obtain ⟨got, hphase, hne, hunread, htravelling, hclosed⟩ := hstuck
  obtain ⟨-, hcalls, hsending⟩ := h.closing hclosed
  obtain ⟨hle, hsome⟩ := h.fits got hphase
  have hserves : s.Serves := by
    rw [Serves, hphase]
    exact ⟨ReadPhase.noConfusion, ReadPhase.noConfusion⟩
  have hfuture : s.future payload = [] :=
    future_eq_nil_iff.mpr ⟨hunread, htravelling, hsending, hcalls⟩
  have hahead : s.ahead payload = got := by
    rw [ahead, hphase]
    exact (congrArg (got ++ ·) hfuture).trans (List.append_nil got)
  rw [h.stream hserves, hahead, parse_short (fun hnil => hsome hnil hunread) (by omega)]

/-- Where the stream does not end inside a code, every step leaves less to do. -/
theorem acc_of_ending (hending : (parse all).2 ≠ .insideCode)
    (h : s.Placed payload memory all service) : Acc (Follows payload memory) s := by
  induction hwork : s.work payload using Nat.strong_induction_on generalizing s with
  | _ work ih =>
    refine Acc.intro s fun t ⟨a, hstep⟩ => ?_
    rcases step_work h.toFits hstep with hless | ⟨hstuck, -⟩
    · exact ih (t.work payload) (by omega) (step_placed h hstep) rfl
    · exact absurd (hstuck.ending h) hending

/-- Where it does, there is always a step after which it still does. -/
theorem not_acc_of_ending (hending : (parse all).2 = .insideCode)
    (h : s.Placed payload memory all service) (hcloses : s.closes = true) (hserves : s.Serves) :
    ¬ Acc (Follows payload memory) s := by
  intro hacc
  induction hacc with
  | intro s _ ih =>
    have hnext : ∃ a t, s.step payload memory a = some t ∧ t.phase ≠ .disconnected := by
      have hstream := h.stream hserves
      rcases progress h hserves with ⟨hidle, -, hfuture⟩ | hgo | hwaits
      · have hahead : s.ahead payload = [] := by
          rw [ahead, hidle]
          exact hfuture
        rw [hstream, hahead, parse_nil] at hending
        cases hending
      · exact hgo
      · obtain ⟨a, t, hstep, hphase | hphase⟩ := hwaits.step hcloses
        · exact ⟨a, t, hstep, hphase ▸ hserves.1⟩
        · rcases hwaits.ending with ⟨-, got, hcode, -⟩ | ⟨hcut, -⟩
          · rw [hphase] at hcode
            cases hcode
          · rw [hstream, hcut] at hending
            cases hending
    obtain ⟨a, t, hstep, hphase⟩ := hnext
    have hplaced := step_placed h hstep
    refine ih t ⟨a, hstep⟩ hplaced ((step_closes hstep).trans hcloses) ⟨hphase, fun hthrew => ?_⟩
    rcases hplaced.threw hthrew with hbad | hbad <;> rw [hending] at hbad <;> cases hbad

/-- Where no step is possible, the service is not reading. -/
theorem not_reading (h : s.Placed payload memory all service) (hcloses : s.closes = true)
    (hnone : ∀ a, s.step payload memory a = none) :
    s.phase = .idle ∨ s.phase = .disconnected ∨ s.phase = .threw := by
  by_cases hserves : s.Serves
  · rcases progress h hserves with ⟨hidle, -⟩ | ⟨a, t, hstep, -⟩ | hwaits
    · exact Or.inl hidle
    · rw [hnone a] at hstep
      cases hstep
    · obtain ⟨a, t, hstep, -⟩ := hwaits.step hcloses
      rw [hnone a] at hstep
      cases hstep
  · by_cases hleft : s.phase = .disconnected
    · exact Or.inr (Or.inl hleft)
    · by_contra hnot
      exact hserves ⟨hleft, fun hthrew => hnot (Or.inr (Or.inr hthrew))⟩

end Runs

theorem readReturns_iff (cells : List Cell) (service : SparkleAudio) :
    ReadReturns payload memory (leaving cells service) ↔ (parse cells).2 ≠ .insideCode := by
  have hplaced : (leaving cells service).Placed payload memory cells service :=
    leaving_placed cells service
  constructor
  · rintro ⟨hacc, -⟩ hending
    exact not_acc_of_ending hending hplaced rfl ⟨nofun, nofun⟩ hacc
  · intro hending
    refine ⟨acc_of_ending hending hplaced, fun as t hpath hnone => ?_⟩
    have hkept : t.Placed payload memory cells service ∧ t.closes = true := by
      refine hpath.preserves
        (I := fun u => u.Placed payload memory cells service ∧ u.closes = true) ?_ ⟨hplaced, rfl⟩
      rintro u a v ⟨hu, hcloses⟩ hstep
      exact ⟨step_placed hu hstep, (step_closes hstep).trans hcloses⟩
    exact not_reading hkept.1 hkept.2 hnone

/-- `receive_all` comes back with the right answer exactly if the stream does not end too
early, and the service has done with a client that leaves exactly if what the client sent
does not end inside a code. -/
theorem receives_iff (schedule : UnixSocket.RecvSchedule) (length : Nat) (payload : Byte)
    (memory : Nat → RingBuffer) (cells : List Cell) (service : SparkleAudio) :
    (UnixSocket.Right schedule length ↔ ¬ UnixSocket.Ends schedule length) ∧
      (ReadReturns payload memory (leaving cells service) ↔ (parse cells).2 ≠ .insideCode) :=
  ⟨UnixSocket.right_iff schedule length, readReturns_iff cells service⟩

/-- A stream that ends at once. -/
def ended : UnixSocket.RecvSchedule := ⟨fun _ => .endOfStream, fun _ h => h⟩

/-- A client that sends three bytes of a code. -/
def threeBytes : List Cell := [⟨1, none⟩, ⟨0, none⟩, ⟨0, none⟩]

theorem threeBytes_forever :
    ¬ UnixSocket.Right ended 8 ∧
      ¬ ReadReturns 0 (fun _ => SparkleAudio.noRing) (leaving threeBytes ready) := by
  constructor
  · intro h
    obtain ⟨r, buffer, hreturns⟩ := h.terminates
    exact UnixSocket.not_returns_of_ends ⟨0, nofun, by decide, rfl⟩ hreturns
  · intro h
    exact (readReturns_iff threeBytes ready).mp h
      (congrArg Prod.snd (parse_short (by decide) (by decide)))

end Channel

end SparkleWayland
