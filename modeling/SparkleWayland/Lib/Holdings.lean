import Mathlib.Data.Finset.Basic
import Mathlib.Data.Finset.Lattice.Lemmas

/-!
# What a process holds

Programs that are handed things and give them back: descriptors, mappings, blocks of memory. What is
handed out is not held already, and to use or give back what is not held is a mistake. A
`Triple` says what a program turns its own share into, whatever else the process
holds: that is in the definition, so that it holds of every program.
-/

namespace SparkleWayland

universe u v

/-- Why a program does not come back. -/
inductive Stop (ε : Type u) where
  /-- What is not held has been used or given back. -/
  | mistaken
  /-- What is held has been handed out, which does not happen. -/
  | excluded
  /-- The process has ended. -/
  | ended (e : ε)
  deriving DecidableEq, Repr

/-- Programs of a process that holds a finite set of things. -/
abbrev Holding (R : Type u) (ε : Type u) (α : Type u) :=
  StateT (Finset R) (Except (Stop ε)) α

namespace Holding

variable {R ε α β : Type u} [DecidableEq R]

/-- A thing is handed out. -/
def acquire (r : R) : Holding R ε PUnit := fun held =>
  if r ∈ held then .error .excluded else .ok (⟨⟩, insert r held)

/-- A thing is given back. -/
def release (r : R) : Holding R ε PUnit := fun held =>
  if r ∈ held then .ok (⟨⟩, held.erase r) else .error .mistaken

/-- A thing is used. -/
def touch (r : R) : Holding R ε PUnit := fun held =>
  if r ∈ held then .ok (⟨⟩, held) else .error .mistaken

/-- The process ends. -/
def finish (e : ε) : Holding R ε α := fun _ => .error (.ended e)

/-! ## Triples -/

/-- Beside a frame no mistake has been made, and the share of a program that has come back is one
that `post` allows. -/
def Meets (post : α → Finset R → Prop) (frame : Finset R) :
    Except (Stop ε) (α × Finset R) → Prop
  | .ok (a, held) => ∃ share, Disjoint share frame ∧ held = share ∪ frame ∧ post a share
  | .error stop => stop ≠ .mistaken

/-- From a share `pre`, and whatever else is held, the program meets `post`. -/
def Triple (pre : Finset R) (p : Holding R ε α) (post : α → Finset R → Prop) : Prop :=
  ∀ frame, Disjoint pre frame → Meets post frame (p (pre ∪ frame))

theorem Meets.weaken {post post' : α → Finset R → Prop} {frame : Finset R}
    {out : Except (Stop ε) (α × Finset R)} (h : Meets post frame out)
    (hpost : ∀ a share, post a share → post' a share) : Meets post' frame out := by
  cases out with
  | error stop => exact h
  | ok out =>
    obtain ⟨share, hdisjoint, heq, hshare⟩ := h
    exact ⟨share, hdisjoint, heq, hpost _ _ hshare⟩

variable {pre : Finset R} {p : Holding R ε α} {post : α → Finset R → Prop}

theorem Triple.returns (h : Triple pre p post) {frame : Finset R} (hframe : Disjoint pre frame)
    {a : α} {held : Finset R} (hp : p (pre ∪ frame) = .ok (a, held)) :
    ∃ share, Disjoint share frame ∧ held = share ∪ frame ∧ post a share := by
  have hrun := h frame hframe
  rw [hp] at hrun
  exact hrun

theorem Triple.not_mistaken (h : Triple pre p post) {frame : Finset R}
    (hframe : Disjoint pre frame) : p (pre ∪ frame) ≠ .error .mistaken := by
  intro hp
  have hrun := h frame hframe
  rw [hp] at hrun
  exact hrun rfl

theorem Triple.weaken (h : Triple pre p post) {post' : α → Finset R → Prop}
    (hpost : ∀ a share, post a share → post' a share) : Triple pre p post' :=
  fun frame hframe => (h frame hframe).weaken hpost

theorem Triple.pure {a : α} (h : post a pre) : Triple pre (pure a : Holding R ε α) post :=
  fun _ hframe => ⟨pre, hframe, rfl, h⟩

/-- One program after the other. -/
theorem Triple.bind {f : α → Holding R ε β} {mid : α → Finset R → Prop}
    {post : β → Finset R → Prop} (hp : Triple pre p mid)
    (hf : ∀ a share, mid a share → Triple share (f a) post) : Triple pre (p >>= f) post := by
  intro frame hframe
  have hrun := hp frame hframe
  have hbind : (p >>= f) (pre ∪ frame) = p (pre ∪ frame) >>= fun x => f x.1 x.2 := rfl
  rw [hbind]
  cases hout : p (pre ∪ frame) with
  | error stop =>
    rw [hout] at hrun
    exact hrun
  | ok out =>
    rw [hout] at hrun
    obtain ⟨share, hdisjoint, hheld, hmid⟩ := hrun
    have hnext := hf out.1 share hmid frame hdisjoint
    rw [← hheld] at hnext
    exact hnext

/-- What is given back leaves the share. -/
theorem Triple.release {r : R} (hr : r ∈ pre) :
    Triple pre (release r : Holding R ε PUnit) fun _ share => share = pre.erase r := by
  intro frame hframe
  rw [Holding.release, if_pos (Finset.mem_union_left frame hr)]
  refine ⟨pre.erase r, hframe.mono_left (Finset.erase_subset r pre), ?_, rfl⟩
  rw [Finset.erase_union_distrib, Finset.erase_eq_of_notMem (Finset.disjoint_left.mp hframe hr)]

/-- What is used stays. -/
theorem Triple.touch {r : R} (hr : r ∈ pre) :
    Triple pre (touch r : Holding R ε PUnit) fun _ share => share = pre := by
  intro frame hframe
  rw [Holding.touch, if_pos (Finset.mem_union_left frame hr)]
  exact ⟨pre, hframe, rfl, rfl⟩

theorem Triple.finish {e : ε} : Triple pre (finish e : Holding R ε α) post := by
  rintro frame - ⟨⟩

/-! ## A program, thing by thing -/

variable {f : PUnit → Holding R ε β} {post : β → Finset R → Prop} {r : R}

/-- What is handed out joins the share. -/
theorem Triple.acquire_bind (h : r ∉ pre → Triple (insert r pre) (f ⟨⟩) post) :
    Triple pre (acquire r >>= f) post := by
  have hacquire : Triple pre (Holding.acquire r : Holding R ε PUnit)
      fun _ share => r ∉ pre ∧ share = insert r pre := by
    intro frame hframe
    rw [Holding.acquire]
    split_ifs with hheld
    · rintro ⟨⟩
    · obtain ⟨hpre, hr⟩ := not_or.mp (mt Finset.mem_union.mpr hheld)
      exact ⟨insert r pre, Finset.disjoint_insert_left.mpr ⟨hr, hframe⟩,
        (Finset.insert_union r pre frame).symm, hpre, rfl⟩
  refine hacquire.bind fun _ share hshare => ?_
  obtain ⟨hr, rfl⟩ := hshare
  exact h hr

theorem Triple.release_bind (hr : r ∈ pre) (h : Triple (pre.erase r) (f ⟨⟩) post) :
    Triple pre (Holding.release r >>= f) post :=
  (Triple.release hr).bind fun _ _ hshare => hshare ▸ h

theorem Triple.touch_bind (hr : r ∈ pre) (h : Triple pre (f ⟨⟩) post) :
    Triple pre (Holding.touch r >>= f) post :=
  (Triple.touch hr).bind fun _ _ hshare => hshare ▸ h

/-- One program after another that leaves its share as it is. -/
theorem Triple.keep_bind {g : α → Holding R ε β} (hp : Triple pre p fun _ share => share = pre)
    (h : ∀ a, Triple pre (g a) post) : Triple pre (p >>= g) post :=
  hp.bind fun a _ hshare => hshare ▸ h a

end Holding

end SparkleWayland
