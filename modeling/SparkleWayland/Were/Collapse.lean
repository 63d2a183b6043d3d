import SparkleWayland.Lib.Machine
import SparkleWayland.Were.Connections
import Mathlib.Logic.Relation

/-!
# Collapsing linked objects (`were/were_capability_integrator.cpp`)

`were::link(first, second)` makes the collapse of `second` collapse `first`. A collapse
emits `destroyed`, whose slots collapse further objects and remove connections from
the very lists that emissions below them are going through; only after its slots have
run is an object marked as disintegrated, so that a cycle of links re-enters an
object that is still collapsing.

It ends all the same (`disintegrate_ends`): as long as no connection has been removed,
every nested collapse is entered through an older link than the one around it. What is
left is told by the links alone (`collapse_closes`): the objects that the collapsed one
reaches are gone, and so are exactly the connections that touch them.
-/

namespace SparkleWayland

/-- The objects of one thread. -/
structure Objects (Obj : Type) where
  state : Obj → IntegrationState
  signals : Signals Obj
  nextId : Nat

namespace Objects

variable {Obj : Type}

/-- `were_capability_collapse::destroyed` -/
def destroyed (s : Objects Obj) (o : Obj) : List (SignalConnection Obj) := s.signals ⟨o, .destroyed⟩

section
variable [DecidableEq Obj]

/-- `were::link`: the objects live on one thread, so the call is made as it is. -/
def link (s : Objects Obj) (first second : Obj) : Objects Obj :=
  let c := Connection.make second .destroyed first s.nextId
  { s with signals := s.signals.connect c (.call c), nextId := s.nextId + 3 }

/-- One entry of `destroyed` is called: the call of a link collapses its context, a queued
call is only posted, and a breaker removes its connection. -/
def call (collapse : Objects Obj → Obj → Option (Objects Obj)) (s : Objects Obj)
    (connection : SignalConnection Obj) : Option (Objects Obj) :=
  match connection.call with
  | .call c => collapse s c.context
  | .queuedCall _ => some s
  | .breaker c => some { s with signals := s.signals.breaker c }

/-- `were_capability_integrator::disintegrate`, nested no deeper than `fuel`. The one
disintegrator of an object emits `destroyed`. -/
def disintegrate : Nat → Objects Obj → Obj → Option (Objects Obj)
  | 0, _, _ => none
  | fuel + 1, s, x =>
    if s.state x = .integrated then
      ((s.destroyed x).foldlM (call (disintegrate fuel)) s).map fun s' =>
        { s' with state := Function.update s'.state x .disintegrated }
    else some s

inductive Label (Obj : Type) where
  | link (first second : Obj)
  | collapse (x : Obj)
  deriving DecidableEq

/-- Links between distinct integrated objects, and collapses of any object. -/
def machine (Obj : Type) [DecidableEq Obj] : Machine (Objects Obj) (Label Obj) where
  start s := ∀ signal, s.signals signal = []
  step s a s' :=
    match a with
    | .link first second =>
      first ≠ second ∧ s.state first = .integrated ∧ s.state second = .integrated ∧
        s' = s.link first second
    | .collapse x => ∃ fuel, s.disintegrate fuel x = some s'

end

/-! ## The links behind the lists -/

/-- What the connection `c` contributes to the `destroyed` list of `o`. -/
def entriesAt [DecidableEq Obj] (o : Obj) (c : Connection Obj) : List (SignalConnection Obj) :=
  (if c.source = o then [⟨.call c, c.pcId⟩, ⟨.breaker c, c.sbId⟩] else []) ++
    if c.context = o then [⟨.breaker c, c.cbId⟩] else []

/-- A connection as `link` makes it. -/
def IsLink (c : Connection Obj) : Prop :=
  c = Connection.make c.source .destroyed c.context c.pcId ∧ c.source ≠ c.context

def Alive (s : Objects Obj) (c : Connection Obj) : Prop :=
  s.state c.source = .integrated ∧ s.state c.context = .integrated

instance (s : Objects Obj) (c : Connection Obj) : Decidable (s.Alive c) :=
  inferInstanceAs (Decidable (_ ∧ _))

/-- The lists of `s` are those of the links `L`, in the order in which they were made,
and every link is between integrated objects. -/
structure Linked [DecidableEq Obj] (s : Objects Obj) (L : List (Connection Obj)) : Prop where
  lists : ∀ o, s.destroyed o = L.flatMap (entriesAt o)
  links : ∀ c ∈ L, IsLink c
  order : L.Pairwise fun c d => c.pcId + 2 < d.pcId
  ids : ∀ c ∈ L, c.pcId + 2 < s.nextId
  alive : ∀ c ∈ L, s.Alive c

/-- The objects that the collapse of `x` goes on to through the links `L`. -/
def ReachedBy (L : List (Connection Obj)) (x o : Obj) : Prop :=
  Relation.ReflTransGen (fun a b => ∃ c ∈ L, c.source = a ∧ c.context = b) x o

theorem ReachedBy.mono {L L' : List (Connection Obj)} (hsub : ∀ c ∈ L', c ∈ L) {x o : Obj}
    (h : ReachedBy L' x o) : ReachedBy L x o :=
  Relation.ReflTransGen.mono (fun _ _ ⟨c, hc, hends⟩ => ⟨c, hsub c hc, hends⟩) _ _ h

section
variable [DecidableEq Obj]

/-- Every entry knows its connection. -/
theorem connection_entriesAt {o : Obj} {c : Connection Obj} {y : SignalConnection Obj}
    (h : y ∈ entriesAt o c) : y.call.connection = c := by
  unfold entriesAt at h
  rcases List.mem_append.mp h with h | h
  · split at h
    case isTrue =>
      rcases List.mem_cons.mp h with rfl | h
      · rfl
      · rw [List.mem_singleton.mp h]
        rfl
    case isFalse => cases h
  · split at h
    case isTrue =>
      rw [List.mem_singleton.mp h]
      rfl
    case isFalse => cases h

theorem entriesAt_eq {c : Connection Obj} (hc : IsLink c) (o : Obj) :
    entriesAt o c = Signals.entriesOf ⟨o, .destroyed⟩ c := by
  have hname : c.name = .destroyed := by
    rw [hc.1]
    rfl
  simp only [entriesAt, Signals.entriesOf, Connection.signal, hname, Signal.mk.injEq, and_true]
  by_cases hsource : c.source = o
  · simp [hsource]
  · simp [hsource]

/-- `connect` appends the entries of the new link. -/
theorem connect_destroyed (l : Signals Obj) {c : Connection Obj} (hc : IsLink c) (o : Obj) :
    l.connect c (.call c) ⟨o, .destroyed⟩ = l ⟨o, .destroyed⟩ ++ entriesAt o c := by
  rw [Signals.connect_apply, entriesAt_eq hc]

theorem flatMap_entriesAt {L : List (Connection Obj)} (hlinks : ∀ d ∈ L, IsLink d) (o : Obj) :
    L.flatMap (entriesAt o) = L.flatMap (Signals.entriesOf ⟨o, .destroyed⟩) :=
  List.flatMap_congr fun d hd => entriesAt_eq (hlinks d hd) o

/-- A breaker takes the entries of its own link away, and no others. -/
theorem breaker_destroyed {l : Signals Obj} {L : List (Connection Obj)}
    (hlinks : ∀ d ∈ L, IsLink d) {c : Connection Obj} (hc : IsLink c)
    (hapart : ∀ d ∈ L, d ≠ c → c.pcId + 2 < d.pcId ∨ d.pcId + 2 < c.pcId) {o : Obj}
    (hl : l ⟨o, .destroyed⟩ = L.flatMap (entriesAt o)) :
    l.breaker c ⟨o, .destroyed⟩ = (L.filter fun d => d ≠ c).flatMap (entriesAt o) := by
  have hmade : ∀ {d : Connection Obj}, IsLink d → d = .make d.source d.name d.context d.pcId := by
    rintro d ⟨hmake, -⟩
    rw [hmake]
    rfl
  rw [flatMap_entriesAt fun d hd => hlinks d (List.mem_of_mem_filter hd)]
  rw [flatMap_entriesAt hlinks] at hl
  exact Signals.breaker_apply hl (fun d hd => hmade (hlinks d hd)) (hmade hc) hapart

/-! ## Fuel -/

theorem call_mono {f g : Objects Obj → Obj → Option (Objects Obj)}
    (h : ∀ s x s', f s x = some s' → g s x = some s') {s s' : Objects Obj}
    {y : SignalConnection Obj} (hcall : call f s y = some s') : call g s y = some s' := by
  unfold call at hcall ⊢
  split at hcall
  · exact h _ _ _ hcall
  · exact hcall
  · exact hcall

/-- More fuel changes nothing. -/
theorem disintegrate_mono {fuel more : Nat} (hle : fuel ≤ more) {s s' : Objects Obj} {x : Obj}
    (h : s.disintegrate fuel x = some s') : s.disintegrate more x = some s' := by
  induction fuel generalizing more s s' x with
  | zero => cases h
  | succ fuel ih =>
    obtain ⟨more, rfl⟩ : ∃ k, more = k + 1 := ⟨more - 1, by omega⟩
    unfold disintegrate at h ⊢
    split at h
    case isTrue hstate =>
      rw [if_pos hstate]
      obtain ⟨u, hu, hs'⟩ := Option.map_eq_some_iff.mp h
      have hu' := Batches.foldlM_mono
        (fun _ _ _ => call_mono fun _ _ _ => ih (Nat.le_of_succ_le_succ hle)) hu
      rw [hu', Option.map_some, hs']
    case isFalse hstate =>
      rw [if_neg hstate]
      exact h

/-! ## What a collapse has done so far -/

/-- The connection `c` is an end of `x`. -/
def Touches (c : Connection Obj) (x : Obj) : Prop := c.source = x ∨ c.context = x

/-- From `s` with the links `L` to `s'` with the links `L'`, in the course of
a collapse of `x`. -/
structure Progress (s : Objects Obj) (L : List (Connection Obj)) (x : Obj) (s' : Objects Obj)
    (L' : List (Connection Obj)) : Prop where
  linked : s'.Linked L'
  left : ∃ keep : Connection Obj → Bool, L' = L.filter keep
  states : ∀ o, s'.state o = s.state o ∨
    s.state o = .integrated ∧ s'.state o = .disintegrated ∧ ReachedBy L x o
  /-- A connection is removed because its context is gone, or is the collapsing object. -/
  removed : ∀ c ∈ L, c ∉ L' → s'.state c.context ≠ .integrated ∨ c.context = x

theorem Progress.subset {s s' : Objects Obj} {L L' : List (Connection Obj)} {x : Obj}
    (h : Progress s L x s' L') : ∀ c ∈ L', c ∈ L := by
  obtain ⟨keep, rfl⟩ := h.left
  exact fun c hc => List.mem_of_mem_filter hc

/-- What is gone stays gone. -/
theorem Progress.gone {s s' : Objects Obj} {L L' : List (Connection Obj)} {x o : Obj}
    (h : Progress s L x s' L') (ho : s.state o ≠ .integrated) : s'.state o ≠ .integrated := by
  rcases h.states o with heq | ⟨hstate, -, -⟩
  · rwa [heq]
  · exact absurd hstate ho

theorem Progress.refl {s : Objects Obj} {L : List (Connection Obj)} (h : s.Linked L) (x : Obj) :
    Progress s L x s L where
  linked := h
  left := ⟨fun _ => true, by simp⟩
  states _ := Or.inl rfl
  removed _ hc hno := absurd hc hno

/-- A collapse of `x` goes on to the context of one of its links. -/
theorem Progress.nested {s s₁ s₂ : Objects Obj} {L L₁ L₂ : List (Connection Obj)} {x : Obj}
    (h : Progress s L x s₁ L₁) {c : Connection Obj} (hc : c ∈ L) (hx : c.source = x)
    (h' : Progress s₁ L₁ c.context s₂ L₂) (hgone : s₂.state c.context ≠ .integrated) :
    Progress s L x s₂ L₂ where
  linked := h'.linked
  left := by
    obtain ⟨keep, rfl⟩ := h.left
    obtain ⟨keep', rfl⟩ := h'.left
    exact ⟨_, List.filter_filter⟩
  states o := by
    have hreach : ReachedBy L₁ c.context o → ReachedBy L x o := fun hr =>
      .head ⟨c, hc, hx, rfl⟩ (hr.mono h.subset)
    rcases h'.states o with heq | ⟨hstate, hgone', hr⟩
    · rw [heq]
      exact h.states o
    · rcases h.states o with heq | ⟨-, hno, -⟩
      · exact Or.inr ⟨heq ▸ hstate, hgone', hreach hr⟩
      · rw [hno] at hstate
        cases hstate
  removed d hd hno := by
    by_cases hd₁ : d ∈ L₁
    · rcases h'.removed d hd₁ hno with hd | hd
      · exact Or.inl hd
      · rw [hd]
        exact Or.inl hgone
    · exact (h.removed d hd hd₁).imp_left h'.gone

/-- A collapse of `x` runs the breaker of one of the links. -/
theorem Progress.breaker {s s₁ : Objects Obj} {L L₁ : List (Connection Obj)} {x : Obj}
    (hs : s.Linked L) (h : Progress s L x s₁ L₁) {c : Connection Obj} (hc : c ∈ L)
    (hcontext : s₁.state c.context ≠ .integrated ∨ c.context = x) :
    Progress s L x { s₁ with signals := s₁.signals.breaker c } (L₁.filter fun d => d ≠ c) := by
  have hapart : ∀ d ∈ L₁, d ≠ c → c.pcId + 2 < d.pcId ∨ d.pcId + 2 < c.pcId :=
    fun d hd hne => Signals.apart_of_order hs.order hc (h.subset d hd) hne
  exact
    { linked :=
        { lists := fun o =>
            breaker_destroyed h.linked.links (hs.links c hc) hapart (h.linked.lists o)
          links := fun d hd => h.linked.links d (List.mem_of_mem_filter hd)
          order := h.linked.order.filter _
          ids := fun d hd => h.linked.ids d (List.mem_of_mem_filter hd)
          alive := fun d hd => h.linked.alive d (List.mem_of_mem_filter hd) }
      left := by
        obtain ⟨keep, rfl⟩ := h.left
        exact ⟨_, List.filter_filter⟩
      states := h.states
      removed := fun d hd hno => by
        by_cases hdc : d = c
        · rw [hdc]
          exact hcontext
        · exact h.removed d hd fun hd₁ => hno (List.mem_filter.mpr ⟨hd₁, by simpa using hdc⟩) }

/-- The slots of `x` have run, and it is marked as disintegrated. -/
theorem Progress.marked {s s₁ : Objects Obj} {L L₁ : List (Connection Obj)} {x : Obj}
    (h : Progress s L x s₁ L₁) (hx : s.state x = .integrated) (hnone : ∀ c ∈ L₁, ¬ Touches c x) :
    Progress s L x { s₁ with state := Function.update s₁.state x .disintegrated } L₁ where
  linked := { h.linked with
    alive := fun c hc => by
      obtain ⟨hsource, hcontext⟩ := h.linked.alive c hc
      have hne := not_or.mp (hnone c hc)
      exact ⟨(Function.update_of_ne hne.1 ..).trans hsource,
        (Function.update_of_ne hne.2 ..).trans hcontext⟩ }
  left := h.left
  states o := by
    by_cases ho : o = x
    · rw [ho]
      exact Or.inr ⟨hx, Function.update_self .., .refl⟩
    · simp only [Function.update_of_ne ho]
      exact h.states o
  removed c hc hno := by
    by_cases hx' : c.context = x
    · exact Or.inr hx'
    · simp only [Function.update_of_ne hx']
      exact h.removed c hc hno

/-! ## Every collapse ends -/

/-- The collapse of `x` returns, having marked it and done nothing but its work. -/
def Ends (s : Objects Obj) (L : List (Connection Obj)) (x : Obj) : Prop :=
  ∃ fuel s' L', s.disintegrate fuel x = some s' ∧ Progress s L x s' L' ∧
    s'.state x ≠ .integrated

/-- The entries of one link in the list of `x`. -/
theorem link_ends {s s₁ : Objects Obj} {L L₁ : List (Connection Obj)} {x : Obj}
    (hs : s.Linked L) (h : Progress s L x s₁ L₁) {c : Connection Obj} (hc : c ∈ L)
    (hnested : c.source = x → Ends s₁ L₁ c.context) :
    ∃ fuel s₂ L₂, (entriesAt x c).foldlM (call (disintegrate fuel)) s₁ = some s₂ ∧
      Progress s L x s₂ L₂ ∧ (∀ d ∈ L₂, d ∈ L₁) ∧ (Touches c x → c ∉ L₂) := by
  have hends := (hs.links c hc).2
  have hcut : ∀ L' : List (Connection Obj), c ∉ L'.filter fun d => d ≠ c := by simp
  by_cases hsource : c.source = x
  · have hcontext : c.context ≠ x := fun hx => hends (hsource.trans hx.symm)
    obtain ⟨fuel, s₂, L₂, hrun, hprogress, hgone⟩ := hnested hsource
    have h₂ := h.nested hc hsource hprogress hgone
    refine ⟨fuel, _, _, ?_, h₂.breaker hs hc (Or.inl hgone),
      fun d hd => hprogress.subset d (List.mem_of_mem_filter hd), fun _ => hcut _⟩
    simp only [entriesAt, hsource, hcontext, if_true, if_false, List.append_nil, List.foldlM_cons,
      List.foldlM_nil, call, hrun]
    rfl
  · by_cases hcontext : c.context = x
    · refine ⟨0, _, _, ?_, h.breaker hs hc (Or.inr hcontext),
        fun d hd => List.mem_of_mem_filter hd, fun _ => hcut _⟩
      simp only [entriesAt, hsource, hcontext, if_true, if_false, List.nil_append, List.foldlM_cons,
        List.foldlM_nil, call]
      rfl
    · refine ⟨0, s₁, L₁, ?_, h, fun _ hd => hd, fun htouch => absurd htouch (by simp [Touches, *])⟩
      simp only [entriesAt, hsource, hcontext, if_false, List.append_nil, List.foldlM_nil]
      rfl

/-- The list of `x`, link after link: those done are gone, so that a link to be called
is the oldest that still touches `x`. -/
theorem links_end {s : Objects Obj} {L : List (Connection Obj)} {x : Obj} (hs : s.Linked L)
    (hnested : ∀ s₁ L₁ c, Progress s L x s₁ L₁ → c ∈ L → c.source = x →
      (∀ d ∈ L₁, Touches d x → c.pcId ≤ d.pcId) → Ends s₁ L₁ c.context)
    (todo done : List (Connection Obj)) (hL : L = done ++ todo) {s₁ : Objects Obj}
    {L₁ : List (Connection Obj)} (h : Progress s L x s₁ L₁)
    (hdone : ∀ d ∈ done, Touches d x → d ∉ L₁) :
    ∃ fuel s₂ L₂,
      todo.foldlM (fun s c => (entriesAt x c).foldlM (call (disintegrate fuel)) s) s₁ = some s₂ ∧
        Progress s L x s₂ L₂ ∧ ∀ d ∈ L, Touches d x → d ∉ L₂ := by
  induction todo generalizing done s₁ L₁ with
  | nil =>
    rw [List.append_nil] at hL
    exact ⟨0, s₁, L₁, rfl, h, hL ▸ hdone⟩
  | cons c todo ih =>
    have hc : c ∈ L := hL ▸ List.mem_append_right _ List.mem_cons_self
    -- the links are called from the oldest on, and those called are gone
    have holdest : ∀ d ∈ L₁, Touches d x → c.pcId ≤ d.pcId := by
      intro d hd htouch
      have hmem := h.subset d hd
      have horder := hs.order
      rw [hL] at hmem horder
      rcases List.mem_append.mp hmem with hd' | hd'
      · exact absurd hd (hdone d hd' htouch)
      · rcases List.mem_cons.mp hd' with rfl | hd'
        · exact Nat.le_refl _
        · have hlt := List.rel_of_pairwise_cons (List.pairwise_append.mp horder).2.1 hd'
          omega
    obtain ⟨fuel, s₂, L₂, hrun, h₂, hsub, hcut⟩ :=
      link_ends hs h hc fun hsource => hnested s₁ L₁ c h hc hsource holdest
    obtain ⟨fuel', s₃, L₃, hrest, h₃, hnone⟩ := ih (done ++ [c])
      (by rw [hL, List.append_assoc]; rfl) h₂ fun d hd htouch hd₂ => by
        rcases List.mem_append.mp hd with hd | hd
        · exact hdone d hd htouch (hsub d hd₂)
        · rw [List.mem_singleton.mp hd] at htouch hd₂
          exact hcut htouch hd₂
    -- both runs also succeed with the larger fuel
    have hmore : ∀ fuel'' ≤ max fuel fuel', ∀ {s s' : Objects Obj} {y : SignalConnection Obj},
        call (disintegrate fuel'') s y = some s' →
          call (disintegrate (max fuel fuel')) s y = some s' :=
      fun _ hle => call_mono fun _ _ _ => disintegrate_mono hle
    refine ⟨max fuel fuel', s₃, L₃, ?_, h₃, hnone⟩
    rw [List.foldlM_cons, Batches.foldlM_mono (fun _ _ _ => hmore fuel (Nat.le_max_left ..)) hrun]
    exact Batches.foldlM_mono (fun _ _ _ => Batches.foldlM_mono fun _ _ _ =>
      hmore fuel' (Nat.le_max_right ..)) hrest

/-- If the oldest link that touches `x` is one to be called, its id is below `k`. -/
def OldestBelow (L : List (Connection Obj)) (x : Obj) (k : Nat) : Prop :=
  ∀ c ∈ L, c.source = x → (∀ d ∈ L, Touches d x → c.pcId ≤ d.pcId) → c.pcId < k

theorem oldestBelow_ids {s : Objects Obj} {L : List (Connection Obj)} (hs : s.Linked L)
    (x : Obj) : OldestBelow L x s.nextId := by
  intro c hc _ _
  have hid := hs.ids c hc
  omega

/-- Entered through `c`, the next object has `c` itself to break before any younger link. -/
theorem Linked.oldestBelow_context {s : Objects Obj} {L : List (Connection Obj)}
    (hs : s.Linked L) {c : Connection Obj} (hc : c ∈ L) : OldestBelow L c.context c.pcId := by
  intro d hd hsource hold
  have hle := hold c hc (Or.inr rfl)
  -- a link has two ends, so the one to call is another one
  have hne : d ≠ c := by
    rintro rfl
    exact (hs.links d hd).2 hsource
  have hapart := Signals.apart_of_order hs.order hc hd hne
  omega

/-- **Termination**: a nested collapse is entered when links have already gone, or
through a link that is older than every link by which the collapse around it could
have been entered. -/
theorem disintegrate_ends {s : Objects Obj} {L : List (Connection Obj)} (hs : s.Linked L)
    (x : Obj) : Ends s L x := by
  have hends : ∀ n k, ∀ {s : Objects Obj} {L : List (Connection Obj)} {x : Obj}, s.Linked L →
      L.length = n → OldestBelow L x k → Ends s L x := by
    intro n
    induction n using Nat.strongRecOn with
    | ind n ihn =>
      intro k
      induction k using Nat.strongRecOn with
      | ind k ihk =>
        intro s L x hs hn hbelow
        by_cases hx : s.state x = .integrated
        · have hnested : ∀ s₁ L₁ c, Progress s L x s₁ L₁ → c ∈ L → c.source = x →
              (∀ d ∈ L₁, Touches d x → c.pcId ≤ d.pcId) → Ends s₁ L₁ c.context := by
            intro s₁ L₁ c h hc hsource hold
            obtain ⟨keep, hkeep⟩ := h.left
            have hsub : L₁.Sublist L := hkeep ▸ List.filter_sublist
            by_cases hlen : L₁.length < n
            · exact ihn _ hlen s₁.nextId h.linked rfl (oldestBelow_ids h.linked _)
            · have hL : L₁ = L := hsub.eq_of_length_le (by omega)
              subst hL
              exact ihk c.pcId (hbelow c hc hsource hold) h.linked hn
                (h.linked.oldestBelow_context hc)
          obtain ⟨fuel, s₁, L₁, hrun, h, hnone⟩ :=
            links_end hs hnested L [] rfl (.refl hs x) (by simp)
          refine ⟨fuel + 1, _, L₁, ?_, h.marked hx fun c hc htouch =>
            hnone c (h.subset c hc) htouch hc, by simp⟩
          rw [disintegrate, if_pos hx, hs.lists, Batches.foldlM_flatMap, hrun]
          rfl
        · exact ⟨1, s, L, by rw [disintegrate, if_neg hx], .refl hs x, hx⟩
  exact hends L.length s.nextId hs rfl (oldestBelow_ids hs x)

/-- Whatever was removed in a collapse that returned had its context in it. -/
theorem Progress.removed_context {s s' : Objects Obj} {L L' : List (Connection Obj)} {x : Obj}
    (h : Progress s L x s' L') (hgone : s'.state x ≠ .integrated) {c : Connection Obj}
    (hc : c ∈ L) (hc' : c ∉ L') : s'.state c.context ≠ .integrated := by
  rcases h.removed c hc hc' with hcontext | hcontext
  · exact hcontext
  · rwa [hcontext]

/-- What a collapse does does not depend on the fuel it needs. -/
theorem Linked.collapsed {s s' : Objects Obj} {L : List (Connection Obj)} (hs : s.Linked L)
    {x : Obj} {fuel : Nat} (h : s.disintegrate fuel x = some s') :
    ∃ L', Progress s L x s' L' ∧ s'.state x ≠ .integrated := by
  obtain ⟨fuel', s'', L', h', hprogress, hgone⟩ := disintegrate_ends hs x
  have heq : some s' = some s'' := by
    rw [← disintegrate_mono (Nat.le_max_left fuel fuel') h,
      disintegrate_mono (Nat.le_max_right fuel fuel') h']
  cases heq
  exact ⟨L', hprogress, hgone⟩

/-! ## Every run -/

/-- The links `L` of a state reached by `as`: a link that was made is there unless
the object it would collapse is gone. -/
structure Follows (as : List (Label Obj)) (s : Objects Obj) (L : List (Connection Obj)) :
    Prop where
  linked : s.Linked L
  made : ∀ c ∈ L, .link c.context c.source ∈ as
  traced : ∀ first second, .link first second ∈ as →
    (∃ c ∈ L, c.source = second ∧ c.context = first) ∨ s.state first ≠ .integrated

theorem Linked.link {s : Objects Obj} {L : List (Connection Obj)} (h : s.Linked L)
    {first second : Obj} (hne : first ≠ second) (hfirst : s.state first = .integrated)
    (hsecond : s.state second = .integrated) :
    (s.link first second).Linked (L ++ [.make second .destroyed first s.nextId]) := by
  have hlink : IsLink (.make second .destroyed first s.nextId) := ⟨rfl, hne.symm⟩
  refine ⟨fun o => ?_, ?_, ?_, ?_, ?_⟩
  · rw [List.flatMap_append, ← h.lists o, List.flatMap_singleton]
    exact connect_destroyed s.signals hlink o
  · exact List.forall_mem_append.mpr ⟨h.links, List.forall_mem_singleton.mpr hlink⟩
  · refine List.pairwise_append.mpr ⟨h.order, List.pairwise_singleton .., fun c hc d hd => ?_⟩
    rw [List.mem_singleton.mp hd]
    exact h.ids c hc
  · refine List.forall_mem_append.mpr ⟨fun c hc => ?_, List.forall_mem_singleton.mpr ?_⟩
    · exact Nat.lt_of_lt_of_le (h.ids c hc) (Nat.le_add_right _ 3)
    · exact Nat.lt_succ_self _
  · exact List.forall_mem_append.mpr
      ⟨h.alive, List.forall_mem_singleton.mpr ⟨hsecond, hfirst⟩⟩

/-- Every state a run reaches has its lists made of links. -/
theorem reaches_follows {as : List (Label Obj)} {s : Objects Obj}
    (h : (machine Obj).Reaches as s) : ∃ L, Follows as s L := by
  obtain ⟨s₀, hstart, hpath⟩ := h
  induction hpath with
  | nil =>
    exact ⟨[], ⟨fun o => hstart _, by simp, .nil, by simp, by simp⟩, by simp, by simp⟩
  | snoc _ hstep ih =>
    obtain ⟨L, hlinked, hmade, htraced⟩ := ih
    rename_i a _
    cases a with
    | link first second =>
      obtain ⟨hne, hfirst, hsecond, rfl⟩ := hstep
      refine ⟨_, hlinked.link hne hfirst hsecond, ?_, fun first' second' hmem => ?_⟩
      · refine List.forall_mem_append.mpr
          ⟨fun c hc => List.mem_append_left _ (hmade c hc), List.forall_mem_singleton.mpr ?_⟩
        exact List.mem_append_right _ (List.mem_singleton_self _)
      · rcases List.mem_append.mp hmem with hmem | hmem
        · refine (htraced first' second' hmem).imp_left ?_
          rintro ⟨c, hc, hends⟩
          exact ⟨c, List.mem_append_left _ hc, hends⟩
        · cases List.mem_singleton.mp hmem
          exact Or.inl ⟨_, List.mem_append_right _ (List.mem_singleton_self _), rfl, rfl⟩
    | collapse x =>
      obtain ⟨fuel, hcollapse⟩ := hstep
      obtain ⟨L', hprogress, hgone⟩ := hlinked.collapsed hcollapse
      refine ⟨L', hprogress.linked, fun c hc =>
        List.mem_append_left _ (hmade c (hprogress.subset c hc)), fun first second hmem => ?_⟩
      have hold := (List.mem_append.mp hmem).resolve_right (by simp)
      rcases htraced first second hold with ⟨c, hc, hends⟩ | hfirst
      · by_cases hc' : c ∈ L'
        · exact Or.inl ⟨c, hc', hends⟩
        · exact Or.inr (hends.2 ▸ hprogress.removed_context hgone hc hc')
      · exact Or.inr (hprogress.gone hfirst)

theorem reaches_link {as : List (Label Obj)} {s : Objects Obj} (h : (machine Obj).Reaches as s)
    {first second : Obj} (hne : first ≠ second) (hfirst : s.state first = .integrated)
    (hsecond : s.state second = .integrated) :
    (machine Obj).Reaches (as ++ [.link first second]) (s.link first second) :=
  h.next ⟨hne, hfirst, hsecond, rfl⟩

/-- What the collapse of `x` leaves behind, told by the links made so far. -/
structure Collapsed (as : List (Label Obj)) (s : Objects Obj) (x : Obj) (s' : Objects Obj) :
    Prop where
  /-- Newly disintegrated are the integrated objects that `x` reaches, itself included. -/
  disintegrated : ∀ o, s.state o = .integrated ∧ s'.state o = .disintegrated ↔
    s.state o = .integrated ∧
      Relation.ReflTransGen (fun second first => .link first second ∈ as) x o
  /-- No other object changes its state. -/
  others : ∀ o, s'.state o ≠ s.state o → s.state o = .integrated ∧ s'.state o = .disintegrated
  /-- No list holds an entry of a connection one of whose ends is gone. -/
  swept : ∀ o, ∀ y ∈ s'.destroyed o, s'.Alive y.call.connection
  /-- All entries of the other connections are there, in their old order. -/
  kept : ∀ o, s'.destroyed o = (s.destroyed o).filter fun y => s'.Alive y.call.connection

/-- What is gone takes along what was linked to it. -/
theorem Progress.closed {as : List (Label Obj)} {s s' : Objects Obj}
    {L L' : List (Connection Obj)} {x : Obj} (hs : Follows as s L) (h : Progress s L x s' L')
    (hgone : s'.state x ≠ .integrated) {o : Obj}
    (hreach : Relation.ReflTransGen (fun second first => .link first second ∈ as) x o) :
    s'.state o ≠ .integrated := by
  induction hreach with
  | refl => exact hgone
  | tail _ hlink ih =>
    rcases hs.traced _ _ hlink with ⟨c, hc, hsource, hcontext⟩ | hfirst
    · have hc' : c ∉ L' := fun hc' => ih (hsource ▸ (h.linked.alive c hc').1)
      exact hcontext ▸ h.removed_context hgone hc hc'
    · exact h.gone hfirst

/-- The lists keep the entries of the links that are left, and no others. -/
theorem Progress.kept {s s' : Objects Obj} {L L' : List (Connection Obj)} {x : Obj}
    (hs : s.Linked L) (h : Progress s L x s' L') (hgone : s'.state x ≠ .integrated) (o : Obj) :
    s'.destroyed o = (s.destroyed o).filter fun y => s'.Alive y.call.connection := by
  obtain ⟨keep, hkeep⟩ := h.left
  have halive : ∀ c ∈ L, decide (s'.Alive c) = keep c := by
    intro c hc
    have hmem : c ∈ L' ↔ keep c = true := by rw [hkeep, List.mem_filter, and_iff_right hc]
    rw [Bool.eq_iff_iff, decide_eq_true_iff, ← hmem]
    constructor
    · intro hboth
      by_contra hc'
      exact h.removed_context hgone hc hc' hboth.2
    · exact h.linked.alive c
  rw [h.linked.lists, hs.lists, hkeep]
  refine (Batches.filter_flatMap fun c hc y hy => ?_).symm
  rw [connection_entriesAt hy]
  exact halive c hc

theorem Progress.collapsed {as : List (Label Obj)} {s s' : Objects Obj}
    {L L' : List (Connection Obj)} {x : Obj} (hs : Follows as s L) (h : Progress s L x s' L')
    (hgone : s'.state x ≠ .integrated) : Collapsed as s x s' := by
  have hkept := h.kept hs.linked hgone
  have hmade : ∀ o, ReachedBy L x o →
      Relation.ReflTransGen (fun second first => .link first second ∈ as) x o := by
    intro o
    refine Relation.ReflTransGen.mono ?_ _ _
    rintro _ _ ⟨c, hc, rfl, rfl⟩
    exact hs.made c hc
  refine ⟨fun o => and_congr_right fun ho => ⟨fun ho' => ?_, fun hreach => ?_⟩, fun o hne => ?_,
    fun o y hy => ?_, hkept⟩
  · rcases h.states o with heq | ⟨-, -, hreach⟩
    · rw [heq, ho] at ho'
      cases ho'
    · exact hmade o hreach
  · rcases h.states o with heq | ⟨-, ho', -⟩
    · exact absurd (heq.trans ho) (h.closed hs hgone hreach)
    · exact ho'
  · rcases h.states o with heq | ⟨ho, ho', -⟩
    · exact absurd heq hne
    · exact ⟨ho, ho'⟩
  · rw [hkept o, List.mem_filter] at hy
    exact of_decide_eq_true hy.2

/-- **Collapse**: in every state reached by links and collapses, the collapse of any
object returns, and leaves behind what the links say. -/
theorem collapse_closes {as : List (Label Obj)} {s : Objects Obj}
    (h : (machine Obj).Reaches as s) (x : Obj) :
    ∃ s', (∃ fuel, ∀ more ≥ fuel, s.disintegrate more x = some s') ∧ Collapsed as s x s' := by
  obtain ⟨L, hfollows⟩ := reaches_follows h
  obtain ⟨fuel, s', L', hrun, hprogress, hgone⟩ := disintegrate_ends hfollows.linked x
  exact ⟨s', ⟨fuel, fun more hle => disintegrate_mono hle hrun⟩,
    hprogress.collapsed hfollows hgone⟩

end

/-- Objects that nothing links yet. -/
def unlinked : Objects Nat := ⟨fun _ => .integrated, fun _ => [], 0⟩

/-- Two objects linked both ways, and a third one whose collapse would take the second
and a fourth along: the collapse of the first takes the second along, and the link
between the other two stays. -/
theorem collapse_closes_cycle :
    ∃ s s', (machine Nat).Reaches [.link 1 0, .link 0 1, .link 1 2, .link 3 2] s ∧
      (∃ fuel, ∀ more ≥ fuel, s.disintegrate more 0 = some s') ∧
      Collapsed [.link 1 0, .link 0 1, .link 1 2, .link 3 2] s 0 s' ∧
      s'.state 1 = .disintegrated ∧ s'.state 2 = .integrated ∧
      (s'.destroyed 2).map (fun y => y.id) = [9, 10] := by
  let s := (((unlinked.link 1 0).link 0 1).link 1 2).link 3 2
  have hstart : (machine Nat).Reaches [] unlinked := Machine.Reaches.start fun _ => rfl
  have hreach : (machine Nat).Reaches [.link 1 0, .link 0 1, .link 1 2, .link 3 2] s :=
    reaches_link (reaches_link (reaches_link (reaches_link hstart (by decide) rfl rfl)
      (by decide) rfl rfl) (by decide) rfl rfl) (by decide) rfl rfl
  obtain ⟨s', hends, hcollapsed⟩ := collapse_closes hreach 0
  have hrun : (s.disintegrate 9 0).map (fun s' =>
      (s'.state 1, s'.state 2, (s'.destroyed 2).map fun y => y.id)) =
      some (.disintegrated, .integrated, [9, 10]) := by
    decide +kernel
  obtain ⟨fuel, hfuel⟩ := hends
  obtain ⟨s'', hs'', heq⟩ := Option.map_eq_some_iff.mp hrun
  have hsame : some s'' = some s' := by
    rw [← hfuel _ (Nat.le_max_left fuel 9), disintegrate_mono (Nat.le_max_right fuel 9) hs'']
  cases hsame
  obtain ⟨hgone, hrest⟩ := Prod.mk.inj heq
  obtain ⟨hleft, hkept⟩ := Prod.mk.inj hrest
  exact ⟨s, s', hreach, ⟨fuel, hfuel⟩, hcollapsed, hgone, hleft, hkept⟩

end Objects

end SparkleWayland
