import SparkleWayland.Lib.Sessions
import SparkleWayland.Sparkle.Routing

/-!
# The events of a pointer (`sparkle_common/sparkle_pointer.h`, `sparkle_common/sparkle_surface.cpp`)

A `sparkle_pointer` sends what it is told to: it knows no surface that it is on. A registration
makes it enter the surface, for it may be there already, and the view makes it enter once
more when it comes. Some of its methods end what they send with a frame event, others do
not. `wellFormed_guarded_iff` says for which sequences of registrations and input the trace is
what the protocol asks for.
-/

namespace SparkleWayland

/-- The events of `wl_pointer`. -/
inductive PointerEvent where
  | enter (surface : Nat)
  | leave (surface : Nat)
  | motion (x y : Int32)
  | button (button : Int32) (pressed : Bool)
  | axis (value : Int32)
  | frame
  deriving DecidableEq, Repr

/-! ## `sparkle_pointer` -/

/-- `WL_POINTER_FRAME_SINCE_VERSION` -/
def frameSinceVersion : Nat := 5

def wlFixedFromInt (i : Int32) : Int32 := i * 256

namespace SparklePointer

/-- An event, and the frame that ends it if the version has one. -/
def framed (version : Nat) (event : PointerEvent) : List PointerEvent :=
  if frameSinceVersion ≤ version then [event, .frame] else [event]

def wheelDown : List PointerEvent := [.axis (wlFixedFromInt 10)]

def wheelUp : List PointerEvent := [.axis (wlFixedFromInt (-10))]

def buttonDown (button : Int32) : List PointerEvent :=
  if button = btnGearUp then wheelUp
  else if button = btnGearDown then wheelDown
  else [.button button true]

def buttonUp (button : Int32) : List PointerEvent :=
  if button = btnGearUp ∨ button = btnGearDown then [] else [.button button false]

/-- What a method sends. -/
def events (version : Nat) : DeviceCall → List PointerEvent
  | .buttonDown button => buttonDown button
  | .buttonUp button => buttonUp button
  | .motion x y => framed version (.motion (wlFixedFromInt x) (wlFixedFromInt y))
  | .enter surface => framed version (.enter surface)
  | .leave surface => framed version (.leave surface)
  | _ => []

end SparklePointer

/-! ## What a trace should be -/

/-- What an event does to the time that the pointer is on a surface. -/
def PointerEvent.token : PointerEvent → Option (SessionToken Nat)
  | enter surface => some (.opens surface)
  | leave surface => some (.closes surface)
  | motion _ _ | button _ _ | axis _ => some .within
  | frame => none

/-- What the operations of a pointer sent, one list for each. -/
abbrev PointerTrace := List (List PointerEvent)

namespace PointerTrace

def tokens (ops : PointerTrace) : List (SessionToken Nat) :=
  ops.flatten.filterMap PointerEvent.token

/-- What has been sent ends with a frame. -/
def Closed (ops : PointerTrace) : Prop := ∀ e, ops.flatten.getLast? = some e → e = .frame

/-- The events of every operation are closed by a frame before the next operation's events. -/
def Framed (ops : PointerTrace) : Prop :=
  ∀ before es after, ops = before ++ es :: after → es ≠ [] → Closed before

/-- The trace is well formed so far: surfaces are entered and left one after the other, the rest
happens in between, and from version 5 on there are frames. -/
structure WellFormed (version : Nat) (ops : PointerTrace) : Prop where
  sessions : ∃ rest, tokens ops ++ rest ∈ Sessions.language Nat
  framed : frameSinceVersion ≤ version → Framed ops

end PointerTrace

/-! ## Which operations are in order -/

/-- The operations of a pointer so far: the surface it has entered and not left, and whether it
sent an event for a button or the wheel. -/
structure PointerState where
  on : Option Nat
  unframed : Bool
  deriving DecidableEq, Repr

namespace PointerState

/-- The pointer before its first operation. -/
def fresh : PointerState := ⟨none, false⟩

/-- The operation sends an event for a button or the wheel. -/
def Presses : DeviceCall → Prop
  | .buttonDown _ => True
  | .buttonUp button => ¬(button = btnGearUp ∨ button = btnGearDown)
  | _ => False

instance : DecidablePred Presses
  | .buttonDown _ => .isTrue trivial
  | .buttonUp _ => inferInstanceAs (Decidable (¬(_ ∨ _)))
  | .keyPress _ | .keyRelease _ | .motion _ _ | .enter _ | .leave _ | .down _ _ _ _ | .up _ _ _ _
  | .touchMotion _ _ _ _ => .isFalse id

/-- The pointer behind an operation. -/
def after (p : PointerState) (c : DeviceCall) : PointerState where
  on :=
    match c with
    | .enter surface => some surface
    | .leave _ => none
    | _ => p.on
  unframed := p.unframed || decide (Presses c)

/-- Nothing is left without its frame. -/
def Ready (version : Nat) (p : PointerState) : Prop :=
  version < frameSinceVersion ∨ p.unframed = false

/-- The operation is in order: a surface is entered while none is, and left while it is, the rest
comes while some surface is entered, and what needs a frame has one before anything else is sent. -/
def Allows (version : Nat) (p : PointerState) : DeviceCall → Prop
  | .enter _ => p.on = none ∧ p.Ready version
  | .leave surface => p.on = some surface ∧ p.Ready version
  | .motion _ _ => p.on ≠ none ∧ p.Ready version
  | .buttonDown button => Presses (.buttonDown button) → p.on ≠ none ∧ p.Ready version
  | .buttonUp button => Presses (.buttonUp button) → p.on ≠ none ∧ p.Ready version
  | _ => True

/-- Operations that are in order, one after the other. -/
def AllowsAll (version : Nat) : PointerState → List DeviceCall → Prop
  | _, [] => True
  | p, c :: cs => p.Allows version c ∧ AllowsAll version (p.after c) cs

end PointerState

/-! ## One operation -/

section Operation

variable {version : Nat}

theorem PointerState.ready_iff {p : PointerState} :
    p.Ready version ↔ (frameSinceVersion ≤ version → p.unframed = false) := by
  unfold PointerState.Ready
  constructor
  · rintro (hlt | hfalse) hle
    · omega
    · exact hfalse
  · intro h
    rcases Nat.lt_or_ge version frameSinceVersion with hlt | hle
    · exact Or.inl hlt
    · exact Or.inr (h hle)

theorem PointerState.after_eq {p : PointerState} {c : DeviceCall} (hquiet : ¬Presses c)
    (hon : (p.after c).on = p.on) : p.after c = p := by
  have hunframed : (p.after c).unframed = p.unframed := by
    show (p.unframed || decide (Presses c)) = p.unframed
    rw [decide_eq_false hquiet, Bool.or_false]
  cases p
  exact congr (congrArg PointerState.mk hon) hunframed

/-- An operation that sends one event and perhaps a frame: the event's token says where it is in
order, and without the frame it leaves something to be closed. -/
structure SparklePointer.Sends (version : Nat) (c : DeviceCall) (token : SessionToken Nat) :
    Prop where
  tokens : (events version c).filterMap PointerEvent.token = [token]
  allows : ∀ p : PointerState,
    p.Allows version c ↔ (∃ o, Sessions.next p.on token = some o) ∧ p.Ready version
  on : ∀ (p : PointerState) o, Sessions.next p.on token = some o → o = (p.after c).on
  closes : frameSinceVersion ≤ version →
    ((∀ e, (events version c).getLast? = some e → e = .frame) ↔ ¬PointerState.Presses c)

namespace SparklePointer

theorem tokens_framed (event : PointerEvent) {token : SessionToken Nat}
    (h : event.token = some token) :
    (framed version event).filterMap PointerEvent.token = [token] := by
  unfold framed
  split <;> exact List.filterMap_cons_some h

theorem getLast?_framed (event : PointerEvent) (h : frameSinceVersion ≤ version) :
    (framed version event).getLast? = some .frame := by
  rw [framed, if_pos h]
  rfl

/-- A button or the wheel. -/
theorem sends_press {c : DeviceCall} {event : PointerEvent} (hevents : events version c = [event])
    (htoken : event.token = some .within) (hpresses : PointerState.Presses c)
    (hallows : ∀ p : PointerState, p.Allows version c ↔ p.on ≠ none ∧ p.Ready version)
    (hon : ∀ p : PointerState, (p.after c).on = p.on) : Sends version c .within where
  tokens := by simp [hevents, htoken]
  allows p := by rw [hallows, Sessions.next_within_iff]
  on p o h := by
    rw [hon]
    cases hp : p.on with
    | none =>
      rw [hp] at h
      cases h
    | some key =>
      rw [hp] at h
      exact (Option.some.inj h).symm
  closes _ := by
    refine iff_of_false (fun hall => ?_) (not_not_intro hpresses)
    rw [hall event (by rw [hevents]; rfl)] at htoken
    cases htoken

/-- An event with its frame. -/
theorem sends_framed {c : DeviceCall} {event : PointerEvent} {token : SessionToken Nat}
    (hevents : events version c = framed version event) (htoken : event.token = some token)
    (hpresses : ¬PointerState.Presses c)
    (hallows : ∀ p : PointerState,
      p.Allows version c ↔ (∃ o, Sessions.next p.on token = some o) ∧ p.Ready version)
    (hon : ∀ (p : PointerState) o, Sessions.next p.on token = some o → o = (p.after c).on) :
    Sends version c token where
  tokens := by rw [hevents, tokens_framed event htoken]
  allows := hallows
  on := hon
  closes hle := by
    refine iff_of_true (fun e he => ?_) hpresses
    rw [hevents, getLast?_framed event hle] at he
    exact (Option.some.inj he).symm

/-- **Operations**: each sends nothing and is always in order, or one event. -/
theorem events_cases (version : Nat) (c : DeviceCall) :
    (events version c = [] ∧ ∀ p : PointerState, p.Allows version c ∧ p.after c = p) ∨
      ∃ token, Sends version c token := by
  have hwithin : ∀ (p : PointerState) o, Sessions.next p.on .within = some o → o = p.on := by
    intro p o h
    cases hp : p.on with
    | none =>
      rw [hp] at h
      cases h
    | some key =>
      rw [hp] at h
      exact (Option.some.inj h).symm
  cases c with
  | enter surface =>
    refine Or.inr ⟨.opens surface, sends_framed rfl rfl id (fun p => ?_) fun p o h => ?_⟩
    · rw [Sessions.next_opens_iff]
      rfl
    · rw [Sessions.next_opens_iff.mp ⟨o, h⟩] at h
      exact (Option.some.inj h).symm
  | leave surface =>
    refine Or.inr ⟨.closes surface, sends_framed rfl rfl id (fun p => ?_) fun p o h => ?_⟩
    · rw [Sessions.next_closes_iff]
      rfl
    · rw [Sessions.next_closes_iff.mp ⟨o, h⟩] at h
      have hnone : (if surface = surface then some none else none : Option (Option Nat)) =
          some o := h
      rw [if_pos rfl] at hnone
      exact (Option.some.inj hnone).symm
  | motion x y =>
    refine Or.inr ⟨.within, sends_framed rfl rfl id (fun p => ?_) hwithin⟩
    rw [Sessions.next_within_iff]
    rfl
  | buttonDown button =>
    have hallows : ∀ p : PointerState,
        p.Allows version (.buttonDown button) ↔ p.on ≠ none ∧ p.Ready version :=
      fun p => true_imp_iff
    refine Or.inr ⟨.within, ?_⟩
    by_cases hup : button = btnGearUp
    · exact sends_press (if_pos hup) rfl trivial hallows fun _ => rfl
    · by_cases hdown : button = btnGearDown
      · exact sends_press ((if_neg hup).trans (if_pos hdown)) rfl trivial hallows fun _ => rfl
      · exact sends_press ((if_neg hup).trans (if_neg hdown)) rfl trivial hallows fun _ => rfl
  | buttonUp button =>
    by_cases hgear : button = btnGearUp ∨ button = btnGearDown
    · refine Or.inl ⟨if_pos hgear, fun p => ⟨fun hpresses => absurd hgear hpresses, ?_⟩⟩
      exact PointerState.after_eq (not_not_intro hgear) rfl
    · exact Or.inr ⟨.within, sends_press (if_neg hgear) rfl hgear
        (fun p => imp_iff_right hgear) fun _ => rfl⟩
  | keyPress code | keyRelease code | down surface id x y | up surface id x y
  | touchMotion surface id x y =>
    exact Or.inl ⟨rfl, fun p => ⟨trivial, PointerState.after_eq not_false rfl⟩⟩

end SparklePointer

end Operation

/-! ## All operations -/

namespace PointerTrace

variable {version : Nat} {ops : PointerTrace} {es : List PointerEvent}

theorem tokens_concat (ops : PointerTrace) (es : List PointerEvent) :
    tokens (ops ++ [es]) = tokens ops ++ es.filterMap PointerEvent.token := by
  simp [tokens]

theorem closed_concat (hne : es ≠ []) :
    Closed (ops ++ [es]) ↔ ∀ e, es.getLast? = some e → e = .frame := by
  have hlast : (ops ++ [es]).flatten.getLast? = es.getLast? := by
    rw [List.flatten_concat, List.getLast?_append_of_ne_nil _ hne]
  rw [Closed, hlast]

theorem framed_concat_iff : Framed (ops ++ [es]) ↔ Framed ops ∧ (es ≠ [] → Closed ops) := by
  constructor
  · intro h
    refine ⟨fun before es' after heq => h before es' (after ++ [es]) ?_, h ops es [] rfl⟩
    rw [heq, List.append_assoc, List.cons_append]
  · rintro ⟨hold, hlast⟩ before es' after heq
    rcases Machine.snoc_eq_cut_iff.mp heq with ⟨-, rfl, rfl⟩ | ⟨after', -, heq'⟩
    · exact hlast
    · exact hold before es' after' heq'

/-- What is well formed was so all along. -/
theorem WellFormed.of_append {ops' : PointerTrace} (h : WellFormed version (ops ++ ops')) :
    WellFormed version ops := by
  obtain ⟨⟨rest, hrest⟩, hframed⟩ := h
  refine ⟨⟨tokens ops' ++ rest, ?_⟩, fun hle before es after heq => ?_⟩
  · rw [← List.append_assoc]
    simpa [tokens] using hrest
  · refine hframed hle before es (after ++ ops') ?_
    rw [heq, List.append_assoc, List.cons_append]

/-- An operation without events changes nothing. -/
theorem flatten_concat_nil (ops : PointerTrace) : (ops ++ [[]]).flatten = ops.flatten := by
  rw [List.flatten_concat, List.append_nil]

theorem WellFormed.concat_nil (h : WellFormed version ops) : WellFormed version (ops ++ [[]]) where
  sessions := by
    rw [tokens, flatten_concat_nil]
    exact h.sessions
  framed hle := framed_concat_iff.mpr ⟨h.framed hle, absurd rfl⟩

/-- The trace leaves the pointer as its history says. -/
structure Follows (version : Nat) (ops : PointerTrace) (p : PointerState) : Prop where
  on : Sessions.scan (tokens ops) = some p.on
  closed : frameSinceVersion ≤ version → (Closed ops ↔ p.unframed = false)

theorem follows_nil (version : Nat) : Follows version [] .fresh :=
  ⟨rfl, fun _ => iff_of_true nofun rfl⟩

theorem Follows.concat_nil {p : PointerState} (h : Follows version ops p) :
    Follows version (ops ++ [[]]) p where
  on := by rw [tokens, flatten_concat_nil, ← tokens, h.on]
  closed hle := by
    rw [Closed, flatten_concat_nil]
    exact h.closed hle

section Sends

variable {p : PointerState} {c : DeviceCall} {token : SessionToken Nat}

theorem Follows.scan_concat (h : Follows version ops p)
    (hsends : SparklePointer.Sends version c token) :
    Sessions.scan (tokens (ops ++ [SparklePointer.events version c])) =
      Sessions.next p.on token := by
  rw [tokens_concat, hsends.tokens, Sessions.scan_concat, h.on]
  rfl

/-- An operation keeps the trace well formed exactly if it is in order. -/
theorem Follows.wellFormed_concat_iff (h : Follows version ops p)
    (hsends : SparklePointer.Sends version c token) :
    WellFormed version (ops ++ [SparklePointer.events version c]) ↔
      WellFormed version ops ∧ p.Allows version c := by
  have hne : SparklePointer.events version c ≠ [] := by
    intro hnil
    have htokens := hsends.tokens
    rw [hnil] at htokens
    cases htokens
  rw [hsends.allows, PointerState.ready_iff]
  constructor
  · rintro ⟨hsessions, hframed⟩
    rw [Sessions.exists_append_mem_iff, h.scan_concat hsends] at hsessions
    refine ⟨⟨?_, fun hle => (framed_concat_iff.mp (hframed hle)).1⟩, hsessions, fun hle => ?_⟩
    · exact Sessions.exists_append_mem_iff.mpr ⟨_, h.on⟩
    · exact (h.closed hle).mp ((framed_concat_iff.mp (hframed hle)).2 hne)
  · rintro ⟨hbefore, hnext, hready⟩
    refine ⟨?_, fun hle => framed_concat_iff.mpr ⟨hbefore.framed hle, fun _ => ?_⟩⟩
    · rw [Sessions.exists_append_mem_iff, h.scan_concat hsends]
      exact hnext
    · exact (h.closed hle).mpr (hready hle)

theorem Follows.concat (h : Follows version ops p)
    (hsends : SparklePointer.Sends version c token) (hallows : p.Allows version c) :
    Follows version (ops ++ [SparklePointer.events version c]) (p.after c) := by
  obtain ⟨⟨o, hnext⟩, hready⟩ := (hsends.allows p).mp hallows
  have hne : SparklePointer.events version c ≠ [] := by
    intro hnil
    have htokens := hsends.tokens
    rw [hnil] at htokens
    cases htokens
  refine ⟨?_, fun hle => ?_⟩
  · rw [h.scan_concat hsends, hnext, hsends.on p o hnext]
  · have hunframed := PointerState.ready_iff.mp hready hle
    rw [closed_concat hne, hsends.closes hle]
    show _ ↔ (p.unframed || decide (PointerState.Presses c)) = false
    rw [hunframed, Bool.false_or, decide_eq_false_iff_not]

end Sends

/-- **Operations in a row**: the trace stays well formed exactly if they are in order. -/
theorem Follows.wellFormed_iff {p : PointerState} (h : Follows version ops p)
    (hops : WellFormed version ops) (cs : List DeviceCall) :
    WellFormed version (ops ++ cs.map (SparklePointer.events version)) ↔
      p.AllowsAll version cs := by
  induction cs generalizing ops p with
  | nil =>
    rw [List.map_nil, List.append_nil]
    exact iff_of_true hops trivial
  | cons c cs ih =>
    rw [List.map_cons, List.append_cons]
    show _ ↔ p.Allows version c ∧ (p.after c).AllowsAll version cs
    rcases SparklePointer.events_cases version c with ⟨hnil, hquiet⟩ | ⟨token, hsends⟩
    · -- an operation without events
      obtain ⟨hallows, hafter⟩ := hquiet p
      rw [hnil, hafter, and_iff_right hallows]
      exact ih h.concat_nil hops.concat_nil
    · by_cases hallows : p.Allows version c
      · rw [and_iff_right hallows]
        exact ih (h.concat hsends hallows) ((h.wellFormed_concat_iff hsends).mpr ⟨hops, hallows⟩)
      · refine iff_of_false (fun hwell => hallows ?_) fun hall => hallows hall.1
        exact ((h.wellFormed_concat_iff hsends).mp hwell.of_append).2

theorem wellFormed_iff (version : Nat) (cs : List DeviceCall) :
    WellFormed version (cs.map (SparklePointer.events version)) ↔
      PointerState.fresh.AllowsAll version cs := by
  have hempty : WellFormed version [] :=
    ⟨⟨[], Sessions.nil_mem⟩, fun _ before es after heq => absurd heq (by simp)⟩
  exact (follows_nil version).wellFormed_iff hempty cs

end PointerTrace

namespace PointerState

theorem allowsAll_append (version : Nat) (p : PointerState) (cs cs' : List DeviceCall) :
    p.AllowsAll version (cs ++ cs') ↔
      p.AllowsAll version cs ∧ (cs.foldl after p).AllowsAll version cs' := by
  induction cs generalizing p with
  | nil => exact (iff_of_eq (true_and _)).symm
  | cons c cs ih =>
    show p.Allows version c ∧ (p.after c).AllowsAll version (cs ++ cs') ↔ _
    rw [ih, ← and_assoc]
    rfl

end PointerState

/-! ## Registrations and input -/

/-- `sparkle` with surfaces and pointers of its clients. `registered` has the surface and the
pointer of each registration that connected them. -/
structure Pointers (Client : Type) where
  server : Sparkle Client
  registered : List (Nat × Nat)

namespace Pointers

variable {Client : Type}

/-- The surface and the pointer are of one client. -/
def SameClient (s : Pointers Client) (surface pointer : Nat) : Prop :=
  s.server.resource (.device .pointer pointer) = s.server.resource (.surface surface)

/-- What was called on a pointer. -/
def calls (s : Pointers Client) (n : Nat) : List DeviceCall :=
  (s.server.calls.filter fun c => c.1 = .device .pointer n).map Prod.snd

/-- What was sent to a pointer, for the versions that the pointers have. -/
def trace (version : Nat → Nat) (s : Pointers Client) (n : Nat) : PointerTrace :=
  (s.calls n).map (SparklePointer.events (version n))

/-- What has become of a pointer. -/
def pointer (s : Pointers Client) (n : Nat) : PointerState :=
  (s.calls n).foldl PointerState.after .fresh

section Runs

variable [DecidableEq Client]

instance (s : Pointers Client) (surface pointer : Nat) : Decidable (s.SameClient surface pointer) :=
  inferInstanceAs (Decidable (_ = _))

inductive Label where
  | register (surface pointer : Nat)
  | input (surface : Nat) (input : Input)
  deriving DecidableEq, Repr

def step (s : Pointers Client) : Label → Option (Pointers Client)
  | .register surface pointer =>
    (s.server.registerPointer surface pointer).map fun server =>
      { server := server
        registered :=
          if s.SameClient surface pointer then s.registered ++ [(surface, pointer)]
          else s.registered }
  | .input surface input =>
    some { s with
      server := { s.server with calls := s.server.calls ++ s.server.forward surface input } }

/-- Clients have made surfaces and pointers, and nothing is connected. -/
def made (resource : SparkleObject → Option Client) : Pointers Client :=
  ⟨⟨resource, fun _ => false, fun _ => [], 0, []⟩, []⟩

def machine : Machine (Pointers Client) Label :=
  Machine.ofStep (fun s => ∃ resource, s = made resource) step

/-- What a step makes a pointer do. -/
def told (s : Pointers Client) : Label → Nat → List DeviceCall
  | .register surface pointer, n =>
    if n = pointer ∧ s.SameClient surface pointer then [.enter surface] else []
  | .input surface input, n =>
    if input.signal.kind = .pointer then
      List.replicate (s.registered.count (surface, n)) (input.call surface)
    else []

/-- What the step makes the pointers do is in order. -/
def InOrder (version : Nat → Nat) (s : Pointers Client) (a : Label) : Prop :=
  ∀ n, (s.pointer n).AllowsAll (version n) (s.told a n)

end Runs

/-! ## What a step calls -/

/-- The wires of a registration. -/
def wires (r : Nat × Nat) : List Sparkle.Wire :=
  DeviceKind.pointer.inputs.map fun i => (.surface r.1, i.name, .device .pointer r.2)

/-- The registrations are what is connected. -/
def Linked (s : Pointers Client) : Prop := s.server.Wires (s.registered.flatMap wires)

theorem calls_append (s : Pointers Client) (calls : List (SparkleObject × DeviceCall)) (n : Nat) :
    Pointers.calls
        { s with server := { s.server with calls := s.server.calls ++ calls } } n =
      s.calls n ++ (calls.filter fun c => c.1 = .device .pointer n).map Prod.snd := by
  rw [Pointers.calls, List.filter_append, List.map_append]
  rfl

/-- One registration, as an emission on a surface finds it. -/
theorem count_wires (r : Nat × Nat) (surface n : Nat) (i : InputSignal) :
    (((wires r).filter fun w => w.1 = .surface surface ∧ w.2.1 = i.name).map fun w => w.2.2).count
        (.device .pointer n) =
      if i.kind = .pointer then [r].count (surface, n) else 0 := by
  obtain ⟨surface', n'⟩ := r
  by_cases hsurface : surface' = surface
  · by_cases hn : n' = n
    · subst hsurface hn
      cases i <;> simp [wires, DeviceKind.inputs, InputSignal.name, InputSignal.kind]
    · subst hsurface
      cases i <;> simp [wires, DeviceKind.inputs, InputSignal.name, InputSignal.kind, hn]
  · simp [wires, DeviceKind.inputs, hsurface]

/-- An emission calls a pointer once for each registration. -/
theorem Linked.count_contexts {s : Pointers Client} (h : s.Linked) (surface n : Nat)
    (i : InputSignal) :
    (s.server.contexts (.surface surface) i.name).count (.device .pointer n) =
      if i.kind = .pointer then s.registered.count (surface, n) else 0 := by
  rw [Sparkle.contexts_eq h _ i.name_ne_destroyed]
  generalize s.registered = rs
  induction rs with
  | nil =>
    show 0 = _
    split <;> rfl
  | cons r rs ih =>
    rw [List.flatMap_cons, List.filter_append, List.map_append, List.count_append, ih, count_wires,
      show r :: rs = [r] ++ rs from rfl, List.count_append]
    split <;> rfl

section Steps

variable [DecidableEq Client] {s t : Pointers Client}

omit [DecidableEq Client] in
theorem connects_calls (surface : Nat) (device : SparkleObject) (inputs : List InputSignal)
    (s : Sparkle Client) :
    (inputs.foldl (fun s i => s.connect (.surface surface) i.name device) s).calls = s.calls := by
  induction inputs generalizing s with
  | nil => rfl
  | cons i inputs ih => exact ih _

/-- A registration connects the inputs and enters, if the clients are the same. -/
theorem registerPointer_spec {s s' : Sparkle Client} {surface pointer : Nat}
    (h : s.registerPointer surface pointer = some s') :
    let same := s.resource (.device .pointer pointer) = s.resource (.surface surface)
    Sparkle.Grows s s' (if same then wires (surface, pointer) else []) ∧
      s'.calls = s.calls ++ if same then [(.device .pointer pointer, .enter surface)] else [] := by
  have hregister : s.register surface (.device .pointer pointer) DeviceKind.pointer.inputs true =
      some s' := h
  rw [Sparkle.register] at hregister
  obtain ⟨client, hdevice, h⟩ := Option.bind_eq_some_iff.mp hregister
  obtain ⟨client', hsurface, h⟩ := Option.bind_eq_some_iff.mp h
  have hgrows := Sparkle.grows_connects (.surface surface) (.device .pointer pointer)
    InputSignal.name_ne_destroyed DeviceKind.pointer.inputs s
  intro same
  by_cases heq : client = client'
  · have hsame : same := by
      show s.resource _ = s.resource _
      rw [hdevice, hsurface, heq]
    rw [if_neg (not_not_intro heq)] at h
    cases h
    rw [if_pos hsame, if_pos hsame]
    exact ⟨hgrows.called _, congrArg (· ++ _) (connects_calls surface _ _ s)⟩
  · have hsame : ¬same := by
      show ¬s.resource _ = s.resource _
      rw [hdevice, hsurface, Option.some.injEq]
      exact heq
    rw [if_pos heq] at h
    cases h
    rw [if_neg hsame, if_neg hsame, List.append_nil]
    exact ⟨Sparkle.Grows.refl s, rfl⟩

/-- **Steps**: what is registered stays what is connected, and pointers do what they are told. -/
theorem Linked.step (h : s.Linked) {a : Label} (hstep : s.step a = some t) :
    t.Linked ∧ ∀ n, t.calls n = s.calls n ++ s.told a n := by
  cases a with
  | register surface pointer =>
    obtain ⟨server, hserver, rfl⟩ := Option.map_eq_some_iff.mp hstep
    obtain ⟨hgrows, hcalls⟩ := registerPointer_spec hserver
    have hwires := hgrows.wires h
    by_cases hsame : s.SameClient surface pointer
    · rw [if_pos (show _ = _ from hsame)] at hwires hcalls
      refine ⟨?_, fun n => ?_⟩
      · unfold Linked
        dsimp only
        rw [if_pos hsame, List.flatMap_append]
        simpa using hwires
      · show (server.calls.filter _).map _ = s.calls n ++ if n = pointer ∧ _ then _ else _
        rw [hcalls, List.filter_append, List.map_append, Pointers.calls]
        congr 1
        by_cases hn : n = pointer
        · rw [if_pos ⟨hn, hsame⟩, hn]
          simp
        · rw [if_neg fun hboth => hn hboth.1]
          simp [Ne.symm hn]
    · rw [if_neg (show ¬_ = _ from hsame), List.append_nil] at hwires hcalls
      refine ⟨?_, fun n => ?_⟩
      · unfold Linked
        dsimp only
        rw [if_neg hsame]
        exact hwires
      · show (server.calls.filter _).map _ = s.calls n ++ if n = pointer ∧ _ then _ else _
        rw [hcalls, if_neg fun hboth => hsame hboth.2, List.append_nil]
        rfl
  | input surface input =>
    cases hstep
    refine ⟨h, fun n => ?_⟩
    rw [calls_append]
    congr 1
    -- the slots of the surface are those of the registrations
    have hcount := h.count_contexts surface n input.signal
    rw [Sparkle.forward, List.filter_map, List.map_map]
    show ((s.server.contexts (.surface surface) input.signal.name).filter
      (fun o => o = .device .pointer n)).map (fun _ => input.call surface) = _
    rw [List.filter_eq, List.map_replicate, hcount, told]
    split <;> rfl

omit [DecidableEq Client] in
theorem linked_made (resource : SparkleObject → Option Client) : (made resource).Linked :=
  ⟨[], Signals.holds_nil 0, rfl⟩

/-- **Traces**: the runs in which every pointer's trace is well formed are those whose steps are in
order. -/
theorem wellFormed_guarded_iff (version : Nat → Nat) {as : List Label} {s : Pointers Client} :
    (machine.Reaches as s ∧ ∀ n, PointerTrace.WellFormed (version n) (s.trace version n)) ↔
      (machine.guarded (InOrder version)).Reaches as s := by
  refine @Machine.reaches_guarded_iff _ _ machine Linked
    (fun s => ∀ n, PointerTrace.WellFormed (version n) (s.trace version n)) (InOrder version)
    ?_ ?_ ?_ as s
  · rintro s ⟨resource, rfl⟩
    refine ⟨linked_made resource, fun n => ?_⟩
    exact (PointerTrace.wellFormed_iff (version n) []).mpr trivial
  · intro s a t hs hstep
    exact (hs.step hstep).1
  · intro s a t hs hstep
    have hcalls := (hs.step hstep).2
    constructor
    · intro hgood
      refine ⟨fun n => ?_, fun n => ?_⟩
      all_goals
        have hwell := hgood n
        rw [trace, hcalls, PointerTrace.wellFormed_iff, PointerState.allowsAll_append] at hwell
      · rw [trace, PointerTrace.wellFormed_iff]
        exact hwell.1
      · exact hwell.2
    · rintro ⟨hgood, hok⟩ n
      have hwell := hgood n
      rw [trace, PointerTrace.wellFormed_iff] at hwell
      rw [trace, hcalls, PointerTrace.wellFormed_iff, PointerState.allowsAll_append]
      exact ⟨hwell, hok n⟩

end Steps

/-- The client's window is mapped, its pointer registered, and the mouse comes. -/
def entered : List Label := [.register 0 0, .input 0 .pointerEnter]

theorem entered_twice :
    ∃ s : Pointers Unit, machine.Reaches entered s ∧
      s.trace (fun _ => 5) 0 = [[.enter 0, .frame], [.enter 0, .frame]] ∧
      ¬PointerTrace.WellFormed 5 (s.trace (fun _ => 5) 0) := by
  have hrun : (entered.foldlM step (made fun _ => some ())).map (fun s => s.trace (fun _ => 5) 0) =
      some [[.enter 0, .frame], [.enter 0, .frame]] := by
    decide +kernel
  obtain ⟨s, hs, htrace⟩ := Option.map_eq_some_iff.mp hrun
  refine ⟨s, ⟨_, ⟨_, rfl⟩, Machine.Path.of_run hs⟩, htrace, fun hwell => ?_⟩
  have hsessions := hwell.sessions
  rw [htrace, Sessions.exists_append_mem_iff] at hsessions
  obtain ⟨o, ho⟩ := hsessions
  cases ho

end Pointers

end SparkleWayland
