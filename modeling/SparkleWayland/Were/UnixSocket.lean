import SparkleWayland.Were.RingBuffer
import Mathlib.Data.Nat.Find

/-!
# Receiving all of a message (`were/were1_unix_socket.c`)

`were1_unix_socket_receive_all` calls `recv` until it has as many bytes as it was asked
for. A call may bring an error, some of the bytes, or nothing at all because the peer has
closed the connection; the loop tells the last two apart by nothing but the sum, and goes
on. `receiveAll_right_iff` says that it comes back with the right answer exactly if the
stream does not end too early.
-/

namespace SparkleWayland

namespace UnixSocket

/-- What a call of `recv` meets: an error, the end of the stream, or bytes. -/
inductive Recv where
  | error
  | endOfStream
  | bytes (bs : List Byte) (ne : bs ≠ [])

/-- What successive calls of `recv` meet. The end of a stream is final. -/
structure RecvSchedule where
  meets : Nat → Recv
  ended : ∀ n, meets n = .endOfStream → meets (n + 1) = .endOfStream

/-- The bytes that Linux transfers at most in one call; an `int` holds their number. -/
def maxTransfer : Nat := 0x7ffff000

namespace Recv

/-- The bytes that there are for one call. -/
def available : Recv → List Byte
  | bytes bs _ => bs.take maxTransfer
  | _ => []

def IsBytes : Recv → Prop
  | bytes _ _ => True
  | _ => False

theorem available_ne_nil {r : Recv} (h : r.IsBytes) : 0 < r.available.length := by
  cases r with
  | error => cases h
  | endOfStream => cases h
  | bytes bs ne =>
    have hpos := List.length_pos_iff.mpr ne
    rw [available, List.length_take]
    exact Nat.lt_min.mpr ⟨by decide, hpos⟩

end Recv

/-! ## The loop -/

/-- One round of the loop in `were1_unix_socket_receive_all`: `recv` fills what is left of
the buffer, or fails. -/
def receiveRound (length : Nat) (received : List Byte) : Recv → Option (List Byte)
  | .error => none
  | r => some (received ++ r.available.take (length - received.length))

theorem receiveRound_chunk (length : Nat) (received bs : List Byte) (ne : bs ≠ []) :
    receiveRound length received (.bytes bs ne) =
      some (received ++ (Recv.bytes bs ne).available.take (length - received.length)) := rfl

/-- `were1_unix_socket_receive_all`: the result and what the buffer holds then. -/
def receiveAll (schedule : RecvSchedule) (length : Nat) :
    (fuel : Nat) → (received : List Byte) → (calls : Nat) → Option (Int × List Byte)
  | 0, _, _ => none
  | fuel + 1, received, calls =>
    if received.length = length then some (0, received)
    else
      match receiveRound length received (schedule.meets calls) with
      | none => some (-1, received)
      | some received => receiveAll schedule length fuel received (calls + 1)

/-- It returns `r`, with these bytes in the buffer. -/
def Returns (schedule : RecvSchedule) (length : Nat) (r : Int) (buffer : List Byte) : Prop :=
  ∃ fuel, receiveAll schedule length fuel [] 0 = some (r, buffer)

/-! ## The stream -/

/-- The bytes of the first calls. -/
def stream (schedule : RecvSchedule) (calls : Nat) : List Byte :=
  (List.range calls).flatMap fun i => (schedule.meets i).available

/-- The first calls all bring bytes. -/
def Flows (schedule : RecvSchedule) (calls : Nat) : Prop :=
  ∀ i < calls, (schedule.meets i).IsBytes

/-- All the bytes arrive. -/
def Arrives (schedule : RecvSchedule) (length : Nat) : Prop :=
  ∃ calls, Flows schedule calls ∧ length ≤ (stream schedule calls).length

/-- Before that the stream meets `r`. -/
def Breaks (schedule : RecvSchedule) (length : Nat) (r : Recv) : Prop :=
  ∃ calls, Flows schedule calls ∧ (stream schedule calls).length < length ∧
    schedule.meets calls = r

/-- The stream fails before all the bytes have arrived. -/
def Fails (schedule : RecvSchedule) (length : Nat) : Prop := Breaks schedule length .error

/-- The stream ends before all the bytes have arrived. -/
def Ends (schedule : RecvSchedule) (length : Nat) : Prop := Breaks schedule length .endOfStream

variable {schedule : RecvSchedule} {length calls : Nat}

theorem stream_succ : stream schedule (calls + 1) =
    stream schedule calls ++ (schedule.meets calls).available := by
  simp [stream, List.range_succ]

theorem Flows.succ (h : Flows schedule calls) (hnext : (schedule.meets calls).IsBytes) :
    Flows schedule (calls + 1) := by
  intro i hi
  rcases Nat.lt_succ_iff_lt_or_eq.mp hi with hlt | rfl
  · exact h i hlt
  · exact hnext

/-- Every call brings a byte at least. -/
theorem Flows.le_length (h : Flows schedule calls) : calls ≤ (stream schedule calls).length := by
  induction calls with
  | zero => exact Nat.zero_le _
  | succ n ih =>
    have hbefore := ih fun i hi => h i (Nat.lt_succ_of_lt hi)
    have hnew := Recv.available_ne_nil (h n (Nat.lt_succ_self n))
    rw [stream_succ, List.length_append]
    omega

theorem length_stream_mono {n m : Nat} (h : n ≤ m) :
    (stream schedule n).length ≤ (stream schedule m).length := by
  induction h with
  | refl => exact Nat.le_refl _
  | step _ ih =>
    rw [stream_succ, List.length_append]
    exact Nat.le_add_right_of_le ih

/-- A stream that has arrived has not broken off. -/
theorem Arrives.not_breaks {r : Recv} (h : Arrives schedule length) (hr : ¬ r.IsBytes) :
    ¬ Breaks schedule length r := by
  obtain ⟨n, hflows, hle⟩ := h
  rintro ⟨m, -, hlt, hmeets⟩
  rcases Nat.lt_or_ge m n with hmn | hnm
  · exact hr (hmeets ▸ hflows m hmn)
  · have hle : (stream schedule n).length ≤ (stream schedule m).length := length_stream_mono hnm
    omega

/-- It cannot break off in two ways. -/
theorem Breaks.unique {r r' : Recv} (h : Breaks schedule length r)
    (h' : Breaks schedule length r') (hr : ¬ r.IsBytes) (hr' : ¬ r'.IsBytes) : r = r' := by
  obtain ⟨n, hflows, -, hmeets⟩ := h
  obtain ⟨m, hflows', -, hmeets'⟩ := h'
  rcases Nat.lt_trichotomy n m with hlt | rfl | hlt
  · exact absurd (hmeets ▸ hflows' n hlt) hr
  · exact hmeets.symm.trans hmeets'
  · exact absurd (hmeets' ▸ hflows m hlt) hr'

/-- All the bytes arrive, or the stream fails, or it ends. -/
theorem arrives_or_breaks (schedule : RecvSchedule) (length : Nat) :
    Arrives schedule length ∨ Fails schedule length ∨ Ends schedule length := by
  -- follow the calls until one brings no byte, or there are as many calls as bytes wanted
  have hcalls : ∀ n, Flows schedule n ∨ Arrives schedule length ∨ Fails schedule length ∨
      Ends schedule length := by
    intro n
    induction n with
    | zero => exact Or.inl nofun
    | succ n ih =>
      rcases ih with hflows | hdone
      · by_cases hle : length ≤ (stream schedule n).length
        · exact Or.inr (Or.inl ⟨n, hflows, hle⟩)
        · cases hmeets : schedule.meets n with
          | error => exact Or.inr (Or.inr (Or.inl ⟨n, hflows, Nat.not_le.mp hle, hmeets⟩))
          | endOfStream => exact Or.inr (Or.inr (Or.inr ⟨n, hflows, Nat.not_le.mp hle, hmeets⟩))
          | bytes bs ne => exact Or.inl (hflows.succ (by rw [hmeets]; trivial))
      · exact Or.inr hdone
  rcases hcalls length with hflows | hdone
  · exact Or.inl ⟨length, hflows, hflows.le_length⟩
  · exact hdone

/-! ## What comes back -/

/-- A call that brings bytes fills the buffer with what the stream has brought so far. -/
theorem receiveRound_bytes (h : (schedule.meets calls).IsBytes) :
    receiveRound length ((stream schedule calls).take length) (schedule.meets calls) =
      some ((stream schedule (calls + 1)).take length) := by
  rw [stream_succ, List.take_append]
  have hroom : length - ((stream schedule calls).take length).length =
      length - (stream schedule calls).length := by
    rw [List.length_take]
    omega
  cases hmeets : schedule.meets calls with
  | error => rw [hmeets] at h; cases h
  | endOfStream => rw [hmeets] at h; cases h
  | bytes bs ne =>
    rw [receiveRound, hroom]
    nofun

/-- The loop runs through the calls that bring bytes, until it has enough. -/
theorem receiveAll_flows {fuel : Nat} (h : Flows schedule calls)
    (hfew : ∀ i < calls, (stream schedule i).length < length) :
    receiveAll schedule length (fuel + calls) [] 0 =
      receiveAll schedule length fuel ((stream schedule calls).take length) calls := by
  induction calls generalizing fuel with
  | zero => rw [show stream schedule 0 = [] from rfl, List.take_nil]; rfl
  | succ n ih =>
    have hstep := @ih (fuel + 1) (fun i hi => h i (Nat.lt_succ_of_lt hi))
      (fun i hi => hfew i (Nat.lt_succ_of_lt hi))
    have hlt := hfew n (Nat.lt_succ_self n)
    rw [show fuel + (n + 1) = fuel + 1 + n by omega, hstep, receiveAll,
      if_neg (by rw [List.length_take]; omega), receiveRound_bytes (h n (Nat.lt_succ_self n))]

theorem returns_of_arrives (h : Arrives schedule length) :
    ∃ calls, length ≤ (stream schedule calls).length ∧
      Returns schedule length 0 ((stream schedule calls).take length) := by
  classical
  -- the first call after which there is enough
  let enough := fun n => Flows schedule n ∧ length ≤ (stream schedule n).length
  obtain ⟨hflows, hle⟩ := Nat.find_spec (p := enough) h
  have hfew : ∀ i < Nat.find (p := enough) h, (stream schedule i).length < length := by
    intro i hi
    by_contra hnot
    exact Nat.find_min (p := enough) h hi
      ⟨fun j hj => hflows j (Nat.lt_trans hj hi), Nat.not_lt.mp hnot⟩
  refine ⟨_, hle, 1 + Nat.find (p := enough) h, ?_⟩
  rw [receiveAll_flows hflows hfew, receiveAll, if_pos (by rw [List.length_take]; omega)]

/-- The loop comes to the call with which the stream breaks off. -/
theorem receiveAll_breaks {r : Recv} (h : Breaks schedule length r) :
    ∃ calls received, received.length ≠ length ∧ schedule.meets calls = r ∧
      ∀ fuel, receiveAll schedule length (fuel + calls) [] 0 =
        receiveAll schedule length fuel received calls := by
  obtain ⟨calls, hflows, hlt, hmeets⟩ := h
  refine ⟨calls, _, ?_, hmeets, fun fuel => receiveAll_flows hflows fun i hi => ?_⟩
  · rw [List.length_take]
    omega
  · exact Nat.lt_of_le_of_lt (length_stream_mono (Nat.le_of_lt hi)) hlt

theorem returns_of_fails (h : Fails schedule length) :
    ∃ buffer, Returns schedule length (-1) buffer := by
  obtain ⟨calls, received, hne, hmeets, hrun⟩ := receiveAll_breaks h
  refine ⟨received, 1 + calls, ?_⟩
  rw [hrun, receiveAll, if_neg hne, hmeets]
  rfl

/-- At the end of the stream the loop goes round and round. -/
theorem receiveAll_endOfStream {fuel : Nat} {received : List Byte}
    (hne : received.length ≠ length) (h : schedule.meets calls = .endOfStream) :
    receiveAll schedule length fuel received calls = none := by
  induction fuel generalizing calls with
  | zero => rfl
  | succ fuel ih =>
    have hround : receiveRound length received (schedule.meets calls) = some received := by
      rw [h]
      simp [receiveRound, Recv.available]
    rw [receiveAll, if_neg hne, hround]
    exact ih (schedule.ended calls h)

theorem receiveAll_mono {fuel : Nat} {received : List Byte} {r : Int × List Byte} (more : Nat)
    (h : receiveAll schedule length fuel received calls = some r) :
    receiveAll schedule length (fuel + more) received calls = some r := by
  induction fuel generalizing received calls with
  | zero => cases h
  | succ fuel ih =>
    rw [show fuel + 1 + more = fuel + more + 1 by omega]
    unfold receiveAll at h ⊢
    split at h
    · rw [if_pos ‹_›]
      exact h
    · rw [if_neg ‹_›]
      cases hround : receiveRound length received (schedule.meets calls) with
      | none => rwa [hround] at h
      | some received =>
        rw [hround] at h
        exact ih h

theorem not_returns_of_ends {r : Int} {buffer : List Byte} (h : Ends schedule length) :
    ¬ Returns schedule length r buffer := by
  rintro ⟨fuel, hreturns⟩
  obtain ⟨calls, received, hne, hmeets, hrun⟩ := receiveAll_breaks h
  have hmore := receiveAll_mono calls hreturns
  rw [hrun, receiveAll_endOfStream hne hmeets] at hmore
  cases hmore

/-- The result does not depend on how long one waits for it. -/
theorem Returns.unique {r r' : Int} {buffer buffer' : List Byte}
    (h : Returns schedule length r buffer) (h' : Returns schedule length r' buffer') : r = r' := by
  obtain ⟨fuel, hreturns⟩ := h
  obtain ⟨fuel', hreturns'⟩ := h'
  have hsum := receiveAll_mono fuel' hreturns
  rw [Nat.add_comm, receiveAll_mono fuel hreturns'] at hsum
  cases hsum
  rfl

/-- It comes back, with 0 if all the bytes have arrived, and with -1 if the stream has
failed or ended before that. -/
structure Right (schedule : RecvSchedule) (length : Nat) : Prop where
  terminates : ∃ r buffer, Returns schedule length r buffer
  zero : (∃ buffer, Returns schedule length 0 buffer) ↔ Arrives schedule length
  minusOne : (∃ buffer, Returns schedule length (-1) buffer) ↔
    Fails schedule length ∨ Ends schedule length

theorem right_iff (schedule : RecvSchedule) (length : Nat) :
    Right schedule length ↔ ¬ Ends schedule length := by
  constructor
  · intro h hends
    obtain ⟨r, buffer, hreturns⟩ := h.terminates
    exact not_returns_of_ends hends hreturns
  · intro hends
    rcases arrives_or_breaks schedule length with harrives | hfails | hends'
    · obtain ⟨calls, -, hreturns⟩ := returns_of_arrives harrives
      refine ⟨⟨_, _, hreturns⟩, iff_of_true ⟨_, hreturns⟩ harrives, iff_of_false ?_ ?_⟩
      · rintro ⟨buffer, hother⟩
        cases hreturns.unique hother
      · rintro (hfails | hends')
        · exact harrives.not_breaks id hfails
        · exact hends hends'
    · obtain ⟨buffer, hreturns⟩ := returns_of_fails hfails
      refine ⟨⟨_, _, hreturns⟩, iff_of_false ?_ ?_, iff_of_true ⟨_, hreturns⟩ (Or.inl hfails)⟩
      · rintro ⟨buffer', hother⟩
        cases hreturns.unique hother
      · exact fun harrives => harrives.not_breaks id hfails
    · exact absurd hends' hends

end UnixSocket

end SparkleWayland
