import SparkleWayland.Lib.Machine
import SparkleWayland.Were.UnixSocket

/-!
# Taking in the service's notifications (`pcm_sparkle/pcm_sparkle.c`)

For every region played the service sends eight bytes, which `sparkle_receive` takes off the
socket: as long as there are eight bytes it receives eight, and anything but success aborts
the host application. The number of bytes is an `int`, -1 where it cannot be had, and is
compared as a `size_t`, so that a query that fails starts a receive too; the descriptor
blocks. `harmless_guarded_iff` says that nothing else goes wrong.
-/

namespace SparkleWayland

open UnixSocket

/-- Where the plugin is: outside `sparkle_receive`, before a query, in
`were1_unix_socket_receive_all` with these bytes received, or aborted. -/
inductive ReceivePhase
  | idle
  | querying
  | receiving (received : List Byte)
  | aborted
  deriving DecidableEq

/-- A query after which a receive was started, with what was available. -/
structure Query where
  result : Int32
  available : Nat

/-- The end of a call of `sparkle_receive`: what had arrived by its last query, and what had
been taken off the socket. -/
structure Return where
  arrived : Nat
  consumed : Nat

/-- The plugin's end of the socket, with the queries that started a receive and the calls that
returned. -/
structure PluginSocket where
  queue : List Byte
  arrived : Nat
  consumed : Nat
  closed : Bool
  phase : ReceivePhase
  started : List Query
  returned : List Return

namespace PluginSocket

inductive Label
  /-- Bytes from the service. -/
  | arrive (bs : List Byte)
  /-- The service closes its end. -/
  | close
  /-- `sparkle_poll_revents` or `sparkle_pointer` calls `sparkle_receive`. -/
  | call
  /-- `were1_unix_socket_bytes_available` returns. -/
  | query (result : Int32)
  /-- `recv` returns. -/
  | recv (r : Recv)

/-- What `recv` can meet: a front of what is there, and the end of the stream or an error only
where nothing is. -/
def Meets (s : PluginSocket) : Recv → Prop
  | .bytes bs _ => bs <+: s.queue
  | .endOfStream => s.queue = [] ∧ s.closed = true
  | .error => s.queue = []

instance (s : PluginSocket) (r : Recv) : Decidable (s.Meets r) :=
  match r with
  | .bytes bs _ => inferInstanceAs (Decidable (bs <+: s.queue))
  | .endOfStream => inferInstanceAs (Decidable (s.queue = [] ∧ s.closed = true))
  | .error => inferInstanceAs (Decidable (s.queue = []))

/-- The loop of `sparkle_receive` goes on: the `int` is converted to the type of
`sizeof(uint64_t)`. -/
def GoesOn (result : Int32) : Prop := 8 ≤ Int32.asUInt64 result

instance (result : Int32) : Decidable (GoesOn result) :=
  inferInstanceAs (Decidable (8 ≤ Int32.asUInt64 result))

def step (s : PluginSocket) : Label → Option PluginSocket
  | .arrive bs =>
    if s.closed then none
    else some { s with queue := s.queue ++ bs, arrived := s.arrived + bs.length }
  | .close => some { s with closed := true }
  | .call => if s.phase = .idle then some { s with phase := .querying } else none
  | .query result =>
    if s.phase = .querying ∧ (result = -1 ∨ result.toInt = s.queue.length) then
      if GoesOn result then
        some { s with
          phase := .receiving [], started := ⟨result, s.queue.length⟩ :: s.started }
      else
        some { s with phase := .idle, returned := ⟨s.arrived, s.consumed⟩ :: s.returned }
    else none
  | .recv r =>
    match s.phase with
    | .receiving received =>
      if s.Meets r then
        match receiveRound 8 received r with
        | none => some { s with phase := .aborted }
        | some received' =>
          some { s with
            queue := s.queue.drop (received'.length - received.length)
            consumed := s.consumed + (received'.length - received.length)
            phase := if received'.length = 8 then .querying else .receiving received' }
      else none
    | _ => none

/-- A connection from its beginning. -/
def machine : Machine PluginSocket Label :=
  Machine.ofStep (fun s => s = ⟨[], 0, 0, false, .idle, [], []⟩) step

/-- The query is answered. -/
def Answered (_ : PluginSocket) (a : Label) : Prop := a ≠ .query (-1)

/-- The plugin's own steps, with queries that are answered. -/
def Label.Own : Label → Prop
  | .query result => result ≠ -1
  | .recv _ => True
  | _ => False

/-- What `sparkle_receive` promises its caller. -/
structure Harmless (s : PluginSocket) : Prop where
  /-- A receive is only started where the query succeeded and there are eight bytes. -/
  started : ∀ q ∈ s.started, 0 ≤ q.result.toInt ∧ 8 ≤ q.available
  /-- `recv` never has to wait, nor does it spin at the end of the stream. -/
  unblocked : ∀ received, s.phase = .receiving received → s.queue ≠ []
  unaborted : s.phase ≠ .aborted
  /-- A call that has returned had taken all whole notifications off the socket, and no part
  of one. -/
  returned : ∀ r ∈ s.returned, r.consumed = 8 * (r.arrived / 8)
  /-- It returns at the first query that finds fewer than eight bytes. -/
  stops : ∀ result t, result ≠ -1 → s.queue.length < 8 → s.step (.query result) = some t →
    t.phase = .idle
  /-- Until it returns it has a step to take, and without new arrivals it takes finitely
  many. -/
  proceeds : s.phase ≠ .idle → s.queue.length < 2 ^ 31 → ∃ a t, a.Own ∧ s.step a = some t
  finite : ∀ bs t, machine.Path s bs t → (∀ b ∈ bs, b.Own) → bs.length ≤ 2 * s.queue.length + 1

/-! ## What a query leads to -/

/-- As a `size_t`, -1 is larger than anything. -/
theorem goesOn_failed : GoesOn (-1) := by decide

theorem goesOn_iff {result : Int32} {n : Nat} (h : result.toInt = n) : GoesOn result ↔ 8 ≤ n := by
  rw [GoesOn, UInt64.le_iff_toNat_le, Int32.toNat_asUInt64 (by omega), h, Int.toNat_natCast]
  rfl

variable {s t : PluginSocket} {a : Label}

/-- An answered query starts a receive just if there are eight bytes. -/
theorem query_cases {result : Int32} (hanswered : result ≠ -1)
    (hstep : s.step (.query result) = some t) :
    s.phase = .querying ∧ result.toInt = s.queue.length ∧
      (8 ≤ s.queue.length ∧ t = { s with
          phase := .receiving [], started := ⟨result, s.queue.length⟩ :: s.started } ∨
        s.queue.length < 8 ∧ t = { s with
          phase := .idle, returned := ⟨s.arrived, s.consumed⟩ :: s.returned }) := by
  simp only [step, Option.ite_none_right_eq_some] at hstep
  obtain ⟨⟨hphase, hresult⟩, hstep⟩ := hstep
  have hcount := hresult.resolve_left hanswered
  refine ⟨hphase, hcount, ?_⟩
  split at hstep
  case isTrue hgo =>
    cases hstep
    exact Or.inl ⟨(goesOn_iff hcount).mp hgo, rfl⟩
  case isFalse hstop =>
    cases hstep
    exact Or.inr ⟨Nat.not_le.mp fun hle => hstop ((goesOn_iff hcount).mpr hle), rfl⟩

/-- `recv` finds bytes where there are some, and takes at least one of them. -/
theorem recv_cases {received : List Byte} {r : Recv} (hphase : s.phase = .receiving received)
    (hroom : received.length < 8) (hqueue : s.queue ≠ []) (hstep : s.step (.recv r) = some t) :
    ∃ n received', 1 ≤ n ∧ n ≤ s.queue.length ∧ received'.length = received.length + n ∧
      received'.length ≤ 8 ∧ t = { s with
        queue := s.queue.drop n, consumed := s.consumed + n,
        phase := if received'.length = 8 then .querying else .receiving received' } := by
  simp only [step, hphase, Option.ite_none_right_eq_some] at hstep
  obtain ⟨hmeets, hstep⟩ := hstep
  cases r with
  | error => exact absurd hmeets hqueue
  | endOfStream => exact absurd hmeets.1 hqueue
  | bytes bs ne =>
    have hpos := Recv.available_ne_nil (r := .bytes bs ne) trivial
    have hle : (Recv.bytes bs ne).available.length ≤ s.queue.length := by
      refine le_trans ?_ (List.IsPrefix.length_le hmeets)
      rw [Recv.available, List.length_take]
      exact Nat.min_le_right _ _
    have hround := receiveRound_chunk 8 received bs ne
    have hnew : ((Recv.bytes bs ne).available.take (8 - received.length)).length =
        min (8 - received.length) (Recv.bytes bs ne).available.length := List.length_take
    generalize (Recv.bytes bs ne).available.take (8 - received.length) = new at hround hnew
    simp only [hround] at hstep
    refine ⟨new.length, received ++ new, by omega, by omega, List.length_append, ?_, ?_⟩
    · rw [List.length_append]
      omega
    · rw [← Option.some.inj hstep, List.length_append, Nat.add_sub_cancel_left]

/-! ## Whole notifications -/

/-- How far a receive is, after so many bytes were consumed; the bytes it still needs are among
those available. -/
def AtPhase (consumed available : Nat) : ReceivePhase → Prop
  | .idle => 8 ∣ consumed
  | .querying => 8 ∣ consumed
  | .receiving received =>
    received.length < 8 ∧ 8 ≤ received.length + available ∧
      ∃ k, consumed = 8 * k + received.length
  | .aborted => False

theorem AtPhase.mono {consumed n m : Nat} {phase : ReceivePhase} (h : AtPhase consumed n phase)
    (hle : n ≤ m) : AtPhase consumed m phase := by
  cases phase with
  | idle => exact h
  | querying => exact h
  | receiving received => exact ⟨h.1, h.2.1.trans (Nat.add_le_add_left hle _), h.2.2⟩
  | aborted => exact h

/-- What holds as long as every query is answered. -/
structure Whole (s : PluginSocket) : Prop where
  balance : s.consumed + s.queue.length = s.arrived
  started : ∀ q ∈ s.started, 0 ≤ q.result.toInt ∧ 8 ≤ q.available
  returned : ∀ r ∈ s.returned, r.consumed = 8 * (r.arrived / 8)
  phase : AtPhase s.consumed s.queue.length s.phase

/-- Between receives everything taken off was whole. -/
theorem Whole.dvd (h : s.Whole) (hphase : s.phase = .idle ∨ s.phase = .querying) :
    8 ∣ s.consumed := by
  have hat := h.phase
  rcases hphase with hphase | hphase <;> rw [hphase] at hat <;> exact hat

theorem Whole.receiving (h : s.Whole) {received : List Byte}
    (hphase : s.phase = .receiving received) :
    received.length < 8 ∧ 8 ≤ received.length + s.queue.length ∧
      ∃ k, s.consumed = 8 * k + received.length := by
  have hat := h.phase
  rwa [hphase] at hat

theorem Whole.unblocked (h : s.Whole) {received : List Byte}
    (hphase : s.phase = .receiving received) : s.queue ≠ [] := by
  obtain ⟨hroom, hneeds, -⟩ := h.receiving hphase
  rintro hnil
  rw [hnil, List.length_nil] at hneeds
  omega

theorem Whole.arrive (h : s.Whole) (bs : List Byte) :
    Whole { s with queue := s.queue ++ bs, arrived := s.arrived + bs.length } := by
  have hlength : (s.queue ++ bs).length = s.queue.length + bs.length := List.length_append
  have hbalance := h.balance
  exact ⟨by dsimp only; omega, h.started, h.returned, h.phase.mono (by dsimp only; omega)⟩

theorem Whole.query (h : s.Whole) {result : Int32} (hanswered : result ≠ -1)
    (hstep : s.step (.query result) = some t) : t.Whole := by
  obtain ⟨hphase, hcount, ⟨henough, rfl⟩ | ⟨hfew, rfl⟩⟩ := query_cases hanswered hstep
  · obtain ⟨k, hk⟩ := h.dvd (Or.inr hphase)
    refine ⟨h.balance, ?_, h.returned, ⟨by decide, ?_, k, hk⟩⟩
    · rintro q (- | ⟨-, hq⟩)
      · exact ⟨by dsimp only; omega, henough⟩
      · exact h.started q hq
    · rw [List.length_nil]
      dsimp only
      omega
  · have hdvd := h.dvd (Or.inr hphase)
    have hbalance := h.balance
    refine ⟨hbalance, h.started, ?_, hdvd⟩
    rintro r (- | ⟨-, hr⟩)
    · dsimp only
      omega
    · exact h.returned r hr

theorem Whole.recv (h : s.Whole) {received : List Byte} (hphase : s.phase = .receiving received)
    {r : Recv} (hstep : s.step (.recv r) = some t) : t.Whole := by
  obtain ⟨hroom, hneeds, k, hk⟩ := h.receiving hphase
  obtain ⟨n, received', hone, hle, hlength, hmost, rfl⟩ :=
    recv_cases hphase hroom (h.unblocked hphase) hstep
  have hbalance := h.balance
  have hrest : (s.queue.drop n).length = s.queue.length - n := List.length_drop
  refine ⟨by dsimp only; omega, h.started, h.returned, ?_⟩
  dsimp only
  split
  case isTrue hfull => exact ⟨k + 1, by omega⟩
  case isFalse hmore => exact ⟨by omega, by omega, k, by omega⟩

/-- `recv` returns only inside a receive. -/
theorem receiving_of_recv {r : Recv} (hstep : s.step (.recv r) = some t) :
    ∃ received, s.phase = .receiving received := by
  rw [step] at hstep
  split at hstep
  · exact ⟨_, ‹_›⟩
  · cases hstep

theorem step_whole (h : s.Whole) (hanswered : s.Answered a) (hstep : s.step a = some t) :
    t.Whole := by
  cases a with
  | arrive bs =>
    obtain ⟨-, hstep⟩ := Option.ite_none_left_eq_some.mp hstep
    cases hstep
    exact h.arrive bs
  | close =>
    cases hstep
    exact ⟨h.balance, h.started, h.returned, h.phase⟩
  | call =>
    obtain ⟨hphase, hstep⟩ := Option.ite_none_right_eq_some.mp hstep
    cases hstep
    exact ⟨h.balance, h.started, h.returned, h.dvd (Or.inl hphase)⟩
  | query result => exact h.query (fun hfailed => hanswered (hfailed ▸ rfl)) hstep
  | recv r =>
    obtain ⟨received, hphase⟩ := receiving_of_recv hstep
    exact h.recv hphase hstep

/-! ## Returning -/

/-- The steps left of a call, if nothing more arrives. -/
def left (s : PluginSocket) : Nat :=
  match s.phase with
  | .querying => 2 * s.queue.length + 1
  | .receiving _ => 2 * s.queue.length
  | _ => 0

/-- Every step of the plugin brings the call closer to its end. -/
theorem own_left (h : s.Whole) (hown : a.Own) (hstep : s.step a = some t) :
    t.left < s.left := by
  cases a with
  | query result =>
    obtain ⟨hphase, -, ⟨-, rfl⟩ | ⟨-, rfl⟩⟩ := query_cases hown hstep <;>
      simp only [left, hphase] <;> omega
  | recv r =>
    obtain ⟨received, hphase⟩ := receiving_of_recv hstep
    obtain ⟨n, received', hone, hle, -, -, rfl⟩ :=
      recv_cases hphase (h.receiving hphase).1 (h.unblocked hphase) hstep
    have hrest : (s.queue.drop n).length = s.queue.length - n := List.length_drop
    by_cases hfull : received'.length = 8
    · simp only [left, hphase, if_pos hfull]
      omega
    · simp only [left, hphase, if_neg hfull]
      omega
  | arrive bs => cases hown
  | close => cases hown
  | call => cases hown


theorem answered_of_own (hown : a.Own) : s.Answered a := by
  rintro rfl
  exact hown rfl

/-- A path of such steps is no longer than what is left. -/
theorem own_path {as : List Label} (h : s.Whole) (hpath : machine.Path s as t)
    (hown : ∀ a ∈ as, a.Own) : t.Whole ∧ as.length + t.left ≤ s.left := by
  induction hpath with
  | nil => exact ⟨h, (Nat.zero_add _).le⟩
  | snoc _ hst ih =>
    obtain ⟨hwhole, hle⟩ := ih fun b hb => hown b (List.mem_append_left _ hb)
    have hlast := hown _ (List.mem_append_right _ (List.mem_singleton_self _))
    have hlt := own_left hwhole hlast hst
    refine ⟨step_whole hwhole (answered_of_own hlast) hst, ?_⟩
    rw [List.length_append, List.length_singleton]
    omega

/-- Inside a call there is a step to take. -/
theorem Whole.proceeds (h : s.Whole) (hphase : s.phase ≠ .idle)
    (hsmall : s.queue.length < 2 ^ 31) : ∃ a t, a.Own ∧ s.step a = some t := by
  cases hp : s.phase with
  | idle => exact absurd hp hphase
  | aborted =>
    have hat := h.phase
    rw [hp] at hat
    exact hat.elim
  | receiving received =>
    have hround := receiveRound_chunk 8 received s.queue (h.unblocked hp)
    have hsome : (s.step (.recv (.bytes s.queue (h.unblocked hp)))).isSome := by
      simp [step, hp, hround, Meets]
    obtain ⟨t, ht⟩ := Option.isSome_iff_exists.mp hsome
    exact ⟨.recv (.bytes s.queue (h.unblocked hp)), t, trivial, ht⟩
  | querying =>
    have hcount : (Int32.ofNat s.queue.length).toInt = s.queue.length :=
      Int32.toInt_ofNat_of_lt hsmall
    have hown : Int32.ofNat s.queue.length ≠ -1 := by
      intro hfailed
      rw [hfailed] at hcount
      have : Int32.toInt (-1) = -1 := rfl
      omega
    have hsome : (s.step (.query (Int32.ofNat s.queue.length))).isSome := by
      rw [step, if_pos ⟨hp, Or.inr hcount⟩]
      split <;> rfl
    obtain ⟨t, ht⟩ := Option.isSome_iff_exists.mp hsome
    exact ⟨.query (Int32.ofNat s.queue.length), t, hown, ht⟩

/-! ## When it is harmless -/

/-- No receive was started after a query that failed. -/
def NoneFailed (s : PluginSocket) : Prop := ∀ q ∈ s.started, 0 ≤ q.result.toInt

theorem Whole.harmless (h : s.Whole) : s.Harmless where
  started := h.started
  unblocked _ hphase := h.unblocked hphase
  unaborted habort := by
    have hat := h.phase
    rw [habort] at hat
    exact hat
  returned := h.returned
  stops result t hanswered hfew hstep := by
    obtain ⟨-, -, ⟨hmany, -⟩ | ⟨-, rfl⟩⟩ := query_cases hanswered hstep
    · omega
    · rfl
  proceeds := h.proceeds
  finite bs t hpath hown := by
    have hle := (own_path h hpath hown).2
    have hleft : s.left ≤ 2 * s.queue.length + 1 := by
      rw [left]
      split <;> omega
    omega

theorem recv_started {r : Recv} (hstep : s.step (.recv r) = some t) : t.started = s.started := by
  obtain ⟨received, hphase⟩ := receiving_of_recv hstep
  simp only [step, hphase, Option.ite_none_right_eq_some] at hstep
  obtain ⟨-, hstep⟩ := hstep
  split at hstep <;> cases hstep <;> rfl

/-- A query that fails starts a receive, and only that counts as one that should not have
been. -/
theorem noneFailed_step (hstep : s.step a = some t) :
    t.NoneFailed ↔ s.NoneFailed ∧ s.Answered a := by
  have hsame : t.started = s.started → s.Answered a →
      (t.NoneFailed ↔ s.NoneFailed ∧ s.Answered a) := by
    intro hstarted hanswered
    rw [NoneFailed, hstarted]
    exact (and_iff_left hanswered).symm
  cases a with
  | arrive bs =>
    obtain ⟨-, hstep⟩ := Option.ite_none_left_eq_some.mp hstep
    exact hsame (by cases hstep; rfl) nofun
  | close => exact hsame (by cases hstep; rfl) nofun
  | call =>
    obtain ⟨-, hstep⟩ := Option.ite_none_right_eq_some.mp hstep
    exact hsame (by cases hstep; rfl) nofun
  | recv r => exact hsame (recv_started hstep) nofun
  | query result =>
    by_cases hfailed : result = -1
    · subst hfailed
      obtain ⟨-, hstep⟩ := Option.ite_none_right_eq_some.mp hstep
      rw [if_pos goesOn_failed] at hstep
      cases hstep
      refine iff_of_false (fun hnone => ?_) fun hboth => hboth.2 rfl
      have hresult : 0 ≤ Int32.toInt (-1) := hnone _ List.mem_cons_self
      exact absurd hresult (by decide)
    · have hanswered : s.Answered (.query result) := fun heq => hfailed (Label.query.inj heq)
      obtain ⟨-, hcount, ⟨-, rfl⟩ | ⟨-, rfl⟩⟩ := query_cases hfailed hstep
      · refine ⟨fun hnone => ⟨fun q hq => hnone q (List.mem_cons_of_mem _ hq), hanswered⟩, ?_⟩
        rintro ⟨hnone, -⟩ q (- | ⟨-, hq⟩)
        · dsimp only
          omega
        · exact hnone q hq
      · exact hsame rfl hanswered

theorem start_whole (h : machine.start s) : s.NoneFailed → s.Whole := by
  cases h
  exact fun _ => ⟨rfl, nofun, nofun, dvd_zero 8⟩

theorem noneFailed_whole (hs : s.NoneFailed → s.Whole) (hstep : s.step a = some t) :
    t.NoneFailed → t.Whole := by
  intro hnone
  obtain ⟨hbefore, hanswered⟩ := (noneFailed_step hstep).mp hnone
  exact step_whole (hs hbefore) hanswered hstep

/-- **Harmless receives**: `sparkle_receive` keeps its promises in a run exactly if every query of
the run is answered. -/
theorem harmless_guarded_iff {as : List Label} {s : PluginSocket} :
    machine.Reaches as s ∧ s.Harmless ↔ (machine.guarded Answered).Reaches as s := by
  have hguard : machine.Reaches as s ∧ s.NoneFailed ↔ (machine.guarded Answered).Reaches as s :=
    machine.reaches_guarded_iff (I := fun s => s.NoneFailed → s.Whole)
      (fun s h => ⟨start_whole h, by cases h; exact nofun⟩)
      (fun _ _ _ hs hstep => noneFailed_whole hs hstep)
      (fun _ _ _ _ hstep => noneFailed_step hstep)
  rw [← hguard]
  refine and_congr_right fun hreach => ⟨fun hharmless q hq => (hharmless.started q hq).1,
    fun hnone => ?_⟩
  have hwhole : s.NoneFailed → s.Whole :=
    Machine.invariant (I := fun s => s.NoneFailed → s.Whole) (fun _ h => start_whole h)
      (fun _ _ _ hs hstep => noneFailed_whole hs hstep) hreach
  exact (hwhole hnone).harmless

/-- The first query of a call fails, and nothing has arrived: the host application waits in
`recv`. -/
theorem failedQuery_harmful :
    ∃ s, machine.Reaches [.call, .query (-1)] s ∧ ¬ s.Harmless ∧
      s.phase = .receiving [] ∧ s.queue = [] := by
  have hrun : (List.foldlM step ⟨[], 0, 0, false, .idle, [], []⟩ [.call, .query (-1)]).map
      (fun s => (s.phase, s.queue)) = some (.receiving [], []) := by
    decide +kernel
  obtain ⟨s, hs, heq⟩ := Option.map_eq_some_iff.mp hrun
  obtain ⟨hphase, hqueue⟩ := Prod.mk.inj heq
  exact ⟨s, ⟨_, rfl, Machine.Path.of_run hs⟩, fun h => h.unblocked [] hphase hqueue, hphase,
    hqueue⟩

end PluginSocket

end SparkleWayland
