import SparkleWayland.Were.Window

/-!
# Pending and current surface state (`sparkle_common/sparkle_surface.cpp`)

`wl_surface` is double-buffered: what `attach` and `damage` request is pending until the
next commit. `sparkle_surface` and its view have one copy of that state. An update after
a commit reads the state as it ought to be then, but a repaint between two commits
finds the pending buffer in `buffer_` and uses up the pending damage. `buffered_iff` says
when nobody can tell.
-/

namespace SparkleWayland

namespace X11Surface

/-- An Expose event finds the buffer attached that was committed last, and a commit finds
what was damaged since the commit before within the damage since the last update. -/
def Ordered (s : X11Surface) : Event → Prop
  | .expose => ∀ b, s.buffer = some b → ∃ c, s.committed = some c ∧ b.resource = c.resource
  | .commit => ∀ b, s.buffer = some b → ∀ x y, b.image.Has x y →
      (∃ q ∈ s.requests, q.Covers x y) →
        Reached (inForce (s.pending.map DamageRequest.rect)) x y
  | _ => True

/-- Damage that no repaint has used up, with edges that are `int`s, meets the condition. -/
theorem ordered_commit {s : X11Surface} (h : ∀ q ∈ s.requests, q ∈ s.pending ∧ q.Fits) :
    s.Ordered .commit := by
  rintro b - x y - ⟨q, hq, hcovers⟩
  exact reached_of_covers (h q hq).1 (h q hq).2 hcovers

/-- A repaint between the requests of the second commit. -/
def repainted : List Event :=
  [.attach ⟨1, row1⟩, .damage (.damage 0 0 1 1), .commit,
    .attach ⟨2, row2⟩, .damage (.damageBuffer 0 0 2 1), .expose, .commit]

end X11Surface

end SparkleWayland
