import SparkleWayland.Lib.Batches
import SparkleWayland.Were.Signal
import Mathlib.Data.List.Pairwise

/-!
# The connections behind the signals (`were/were_connect.h`)

On one thread, and while no slot breaks a connection that is being used, the lists of the
signals say no more than which connections have been made and not been broken, in
order (`Signals.Holds`). A connect adds one, and the collapse of an object takes away those
that it is the source or the context of.
-/

namespace SparkleWayland

namespace Signals

variable {Obj : Type} [DecidableEq Obj]

/-- What a connection contributes to the list of a signal. -/
def entriesOf (signal : Signal Obj) (c : Connection Obj) : List (SignalConnection Obj) :=
  (if c.signal = signal then [⟨.call c, c.pcId⟩] else []) ++
    ((if ⟨c.source, .destroyed⟩ = signal then [⟨.breaker c, c.sbId⟩] else []) ++
      if ⟨c.context, .destroyed⟩ = signal then [⟨.breaker c, c.cbId⟩] else [])

/-- The collapse of an object emits `destroyed`, whose breakers are run one after the other. -/
def collapse (l : Signals Obj) (o : Obj) : Signals Obj :=
  (l ⟨o, .destroyed⟩).foldl (fun l entry =>
    match entry.call with
    | .breaker c => l.breaker c
    | .call _ | .queuedCall _ => l) l

/-- The contexts of the calls that an emission makes, in order. -/
def contexts (l : Signals Obj) (signal : Signal Obj) : List Obj :=
  (l signal).map fun entry => entry.call.connection.context

/-- The lists are those of the connections `L`, in the order in which they were made. None of
them is to a `destroyed` signal. -/
structure Holds (l : Signals Obj) (nextId : Nat) (L : List (Connection Obj)) : Prop where
  lists : ∀ signal, l signal = L.flatMap (entriesOf signal)
  made : ∀ c ∈ L, c = Connection.make c.source c.name c.context c.pcId ∧ c.name ≠ .destroyed
  order : L.Pairwise fun c d => c.pcId + 2 < d.pcId
  ids : ∀ c ∈ L, c.pcId + 2 < nextId

theorem holds_nil (nextId : Nat) : Holds (fun _ => [] : Signals Obj) nextId [] where
  lists _ := rfl
  made c hc := by cases hc
  order := List.Pairwise.nil
  ids c hc := by cases hc

theorem mem_entriesOf {signal : Signal Obj} {c : Connection Obj} {y : SignalConnection Obj}
    (h : y ∈ entriesOf signal c) :
    (y = ⟨.call c, c.pcId⟩ ∧ c.signal = signal) ∨
      (y = ⟨.breaker c, c.sbId⟩ ∧ ⟨c.source, .destroyed⟩ = signal) ∨
        (y = ⟨.breaker c, c.cbId⟩ ∧ ⟨c.context, .destroyed⟩ = signal) := by
  unfold entriesOf at h
  rcases List.mem_append.mp h with h | h
  · split at h
    case isTrue hsignal => exact Or.inl ⟨List.mem_singleton.mp h, hsignal⟩
    case isFalse => cases h
  · rcases List.mem_append.mp h with h | h
    · split at h
      case isTrue hsource => exact Or.inr (Or.inl ⟨List.mem_singleton.mp h, hsource⟩)
      case isFalse => cases h
    · split at h
      case isTrue hcontext => exact Or.inr (Or.inr ⟨List.mem_singleton.mp h, hcontext⟩)
      case isFalse => cases h

/-- `connect` appends the entries of the new connection. -/
theorem connect_apply (l : Signals Obj) (c : Connection Obj) (signal : Signal Obj) :
    l.connect c (.call c) signal = l signal ++ entriesOf signal c := by
  simp only [connect, Connection.breakers, List.foldl_cons, List.foldl_nil, addConnection_apply,
    entriesOf, List.append_assoc]

omit [DecidableEq Obj] in
/-- The ids of connections that were made one after the other have nothing in common. -/
theorem apart_of_order {L : List (Connection Obj)}
    (h : L.Pairwise fun c d => c.pcId + 2 < d.pcId) {c d : Connection Obj} (hc : c ∈ L) (hd : d ∈ L)
    (hne : d ≠ c) : c.pcId + 2 < d.pcId ∨ d.pcId + 2 < c.pcId := by
  have horder : L.Pairwise fun c d => d ≠ c → c.pcId + 2 < d.pcId ∨ d.pcId + 2 < c.pcId :=
    h.imp fun hlt _ => Or.inl hlt
  refine horder.forall_of_forall_of_flip (fun c _ hne => absurd rfl hne) ?_ hc hd hne
  exact h.imp fun hlt _ => Or.inr hlt

/-- A breaker takes the entries of its own connection away, and no others. -/
theorem breaker_apply {l : Signals Obj} {L : List (Connection Obj)} {signal : Signal Obj}
    (hl : l signal = L.flatMap (entriesOf signal))
    (hmade : ∀ d ∈ L, d = .make d.source d.name d.context d.pcId) {c : Connection Obj}
    (hc : c = .make c.source c.name c.context c.pcId)
    (hapart : ∀ d ∈ L, d ≠ c → c.pcId + 2 < d.pcId ∨ d.pcId + 2 < c.pcId) :
    l.breaker c signal = (L.filter fun d => d ≠ c).flatMap (entriesOf signal) := by
  have hids : ∀ {d : Connection Obj}, d = .make d.source d.name d.context d.pcId →
      d.sbId = d.pcId + 1 ∧ d.cbId = d.pcId + 2 := by
    intro d hd
    rw [hd]
    exact ⟨rfl, rfl⟩
  obtain ⟨hsb, hcb⟩ := hids hc
  simp only [breaker, Connection.items, List.foldl_cons, List.foldl_nil, removeConnection_apply, hl,
    List.filter_filter]
  refine Batches.filter_flatMap fun d hd y hy => ?_
  obtain ⟨hdsb, hdcb⟩ := hids (hmade d hd)
  -- all entries of `c` go, and those of another connection have other ids
  by_cases hdc : d = c
  · subst hdc
    rcases mem_entriesOf hy with ⟨rfl, hsignal⟩ | ⟨rfl, hsignal⟩ | ⟨rfl, hsignal⟩ <;>
      simp [hsignal]
  · have hfar := hapart d hd hdc
    have hkeep : y.id ≠ c.pcId ∧ y.id ≠ c.sbId ∧ y.id ≠ c.cbId := by
      rcases mem_entriesOf hy with ⟨rfl, -⟩ | ⟨rfl, -⟩ | ⟨rfl, -⟩ <;> dsimp only <;> omega
    simp [hdc, hkeep]

section Breaking

variable {l : Signals Obj} {nextId : Nat} {L : List (Connection Obj)}

/-- **Connect** -/
theorem Holds.connect (h : Holds l nextId L) (source context : Obj) {name : SignalName}
    (hname : name ≠ .destroyed) :
    Holds (l.connect (.make source name context nextId) (.call (.make source name context nextId)))
      (nextId + 3) (L ++ [.make source name context nextId]) where
  lists signal := by
    rw [connect_apply, h.lists, List.flatMap_append, List.flatMap_singleton]
  made := List.forall_mem_append.mpr ⟨h.made, List.forall_mem_singleton.mpr ⟨rfl, hname⟩⟩
  order := by
    refine List.pairwise_append.mpr ⟨h.order, List.pairwise_singleton _ _, fun c hc d hd => ?_⟩
    rw [List.mem_singleton.mp hd]
    exact h.ids c hc
  ids := by
    refine List.forall_mem_append.mpr ⟨fun c hc => ?_, List.forall_mem_singleton.mpr ?_⟩
    · exact Nat.lt_of_lt_of_le (h.ids c hc) (Nat.le_add_right _ _)
    · exact Nat.lt_succ_self _

theorem Holds.filter {l' : Signals Obj} (h : Holds l nextId L) (keep : Connection Obj → Bool)
    (hl' : ∀ signal, l' signal = (L.filter keep).flatMap (entriesOf signal)) :
    Holds l' nextId (L.filter keep) where
  lists := hl'
  made c hc := h.made c (List.mem_of_mem_filter hc)
  order := h.order.filter _
  ids c hc := h.ids c (List.mem_of_mem_filter hc)

theorem Holds.breaker (h : Holds l nextId L) {c : Connection Obj}
    (hmade : c = .make c.source c.name c.context c.pcId)
    (hapart : ∀ d ∈ L, d ≠ c → c.pcId + 2 < d.pcId ∨ d.pcId + 2 < c.pcId) :
    Holds (l.breaker c) nextId (L.filter fun d => d ≠ c) :=
  h.filter _ fun signal =>
    breaker_apply (h.lists signal) (fun d hd => (h.made d hd).1) hmade hapart

/-- Breakers run one after the other, also twice. -/
theorem Holds.breakers {l₀ : Signals Obj} {M : List (Connection Obj)} (hM : Holds l₀ nextId M)
    {entries : List (SignalConnection Obj)}
    (hentries : ∀ e ∈ entries, ∃ c ∈ M, e.call = .breaker c) (h : Holds l nextId L)
    (hsub : ∀ c ∈ L, c ∈ M) :
    Holds (entries.foldl (fun l entry =>
      match entry.call with
      | .breaker c => l.breaker c
      | .call _ | .queuedCall _ => l) l) nextId
      (L.filter fun c => ∀ e ∈ entries, e.call ≠ .breaker c) := by
  induction entries generalizing l L with
  | nil => simpa using h
  | cons e entries ih =>
    obtain ⟨⟨c, hc, hcall⟩, hrest⟩ := List.forall_mem_cons.mp hentries
    have hstep := h.breaker (hM.made c hc).1 fun d hd => apart_of_order hM.order hc (hsub d hd)
    have hend := ih hrest hstep fun d hd => hsub d (List.mem_of_mem_filter hd)
    rw [List.filter_filter] at hend
    rw [List.foldl_cons, hcall]
    -- not to be in the list is not to be its head nor in its tail
    have hfilter : (L.filter fun d => ∀ e' ∈ e :: entries, e'.call ≠ .breaker d) =
        L.filter fun d => decide (∀ e' ∈ entries, e'.call ≠ .breaker d) && decide (d ≠ c) := by
      refine List.filter_congr fun d _ => ?_
      rw [← Bool.decide_and, decide_eq_decide, List.forall_mem_cons, hcall, and_comm]
      refine and_congr_right fun _ => not_congr ?_
      rw [Slot.breaker.injEq]
      exact eq_comm
    rw [hfilter]
    exact hend

/-- **Collapse**: the connections of the object are broken. -/
theorem Holds.collapse (h : Holds l nextId L) (o : Obj) :
    Holds (l.collapse o) nextId (L.filter fun c => c.source ≠ o ∧ c.context ≠ o) := by
  have hmem : ∀ {e}, e ∈ l ⟨o, .destroyed⟩ ↔
      ∃ c ∈ L, e ∈ entriesOf ⟨o, .destroyed⟩ c := by
    intro e
    rw [h.lists, List.mem_flatMap]
  have hno : ∀ c ∈ L, c.signal ≠ ⟨o, .destroyed⟩ := fun c hc heq =>
    (h.made c hc).2 (congrArg Signal.name heq)
  -- no connection is to `destroyed`, so the list has breakers only
  have hentries : ∀ e ∈ l ⟨o, .destroyed⟩, ∃ c ∈ L, e.call = .breaker c := by
    intro e he
    obtain ⟨c, hc, he⟩ := hmem.mp he
    refine ⟨c, hc, ?_⟩
    rcases mem_entriesOf he with ⟨-, hsignal⟩ | ⟨rfl, -⟩ | ⟨rfl, -⟩
    · exact absurd hsignal (hno c hc)
    · rfl
    · rfl
  have hbroken := Holds.breakers h hentries h fun c hc => hc
  have hfilter : (L.filter fun c => ∀ e ∈ l ⟨o, .destroyed⟩, e.call ≠ .breaker c) =
      L.filter fun c => c.source ≠ o ∧ c.context ≠ o := by
    refine List.filter_congr fun c hc => decide_eq_decide.mpr ?_
    constructor
    · intro hkept
      constructor
      · rintro rfl
        exact hkept ⟨.breaker c, c.sbId⟩ (hmem.mpr ⟨c, hc, by simp [entriesOf]⟩) rfl
      · rintro rfl
        exact hkept ⟨.breaker c, c.cbId⟩ (hmem.mpr ⟨c, hc, by simp [entriesOf]⟩) rfl
    · rintro ⟨hsource, hcontext⟩ e he hcall
      obtain ⟨d, hd, he⟩ := hmem.mp he
      rcases mem_entriesOf he with ⟨-, hsignal⟩ | ⟨rfl, hsignal⟩ | ⟨rfl, hsignal⟩
      · exact absurd hsignal (hno d hd)
      · cases hcall
        exact hsource (congrArg Signal.object hsignal)
      · cases hcall
        exact hcontext (congrArg Signal.object hsignal)
  rw [hfilter] at hbroken
  exact hbroken

/-- An emission calls the contexts of the connections to the signal. -/
theorem Holds.contexts_eq (h : Holds l nextId L) (o : Obj) {name : SignalName}
    (hname : name ≠ .destroyed) :
    l.contexts ⟨o, name⟩ = (L.filter fun c => c.signal = ⟨o, name⟩).map Connection.context := by
  have hentries : ∀ c : Connection Obj, entriesOf ⟨o, name⟩ c =
      if c.signal = ⟨o, name⟩ then [⟨.call c, c.pcId⟩] else [] := by
    intro c
    simp [entriesOf, Ne.symm hname]
  rw [contexts, h.lists]
  clear h
  induction L with
  | nil => rfl
  | cons c L ih =>
    rw [List.flatMap_cons, List.map_append, ih, hentries]
    by_cases hc : c.signal = ⟨o, name⟩
    · rw [if_pos hc, List.filter_cons_of_pos (by simpa using hc)]
      rfl
    · rw [if_neg hc, List.filter_cons_of_neg (by simpa using hc)]
      rfl

end Breaking

end Signals

end SparkleWayland
