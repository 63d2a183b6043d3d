import SparkleWayland.Lib.Machine
import SparkleWayland.Were.Damage
import SparkleWayland.Were.UploadPixels

/-!
# A surface and its window (`were/were_x11_surface.cpp`, `were/were1_xcb.c`)

The requests of a client reach `sparkle_surface`, whose `buffer_` changes with `attach`
and whose signals the view turns into damage and updates; an Expose event of the X
server makes the view update the window whenever it comes. An update uploads part of the
buffer into the shared image of the window, and makes that image anew if the size has
changed. The new image is empty, but an update after a commit still uploads no more than
the damage; `mirrors_iff` says in which runs the window shows what was committed.

`updates` is the history of the uploads, with what the client had committed and asked
for by then.
-/

namespace SparkleWayland

/-! ## Images -/

/-- The pixels of a `wl_shm_buffer`: `shm_pool_create_buffer` checks the size, and a row
holds its pixels. -/
structure ShmImage where
  width : Int32
  height : Int32
  stride : Int32
  data : Memory (BitVec 8)
  width_pos : 1 ≤ width.toInt
  height_pos : 1 ≤ height.toInt
  row : 4 * width.toInt ≤ stride.toInt
  extent : stride.toInt * height.toInt < 2147483648

namespace ShmImage

def pixel (image : ShmImage) (x y : Nat) : BitVec 32 :=
  pixelAt image.data image.stride.toInt.toNat x y

/-- The image has the pixel. -/
def Has (image : ShmImage) (x y : Nat) : Prop :=
  (x : Int) < image.width.toInt ∧ (y : Int) < image.height.toInt

/-- The two images are of one size and have the same pixels. -/
structure Same (image image' : ShmImage) : Prop where
  width : image.width = image'.width
  height : image.height = image'.height
  pixels : ∀ x y, image.Has x y → image.pixel x y = image'.pixel x y

/-- The pixel is not the one of what was committed before, or lies outside of it. -/
def Differs (image : ShmImage) (committed : Option ShmImage) (x y : Nat) : Prop :=
  ∀ c, committed = some c → c.Has x y → image.pixel x y ≠ c.pixel x y

end ShmImage

/-- A `wl_buffer` and its pixels. -/
structure Buffer where
  resource : Nat
  image : ShmImage

/-- The client draws into the buffer. -/
def Buffer.draw (b : Buffer) (data : Memory (BitVec 8)) : Buffer :=
  { b with image := { b.image with data := data } }

/-- `struct were1_xcb_window` with its shared image. -/
structure XcbWindow where
  width : Int32
  height : Int32
  data : Memory (BitVec 8)

namespace XcbWindow

/-- `were1_xcb_window_attach_buffer`: a fresh file is zero-filled. -/
def attachBuffer (window : XcbWindow) : XcbWindow := { window with data := fun _ => 0 }

/-- `were1_xcb_window_set_size` -/
def setSize (window : XcbWindow) (width height : Int32) : XcbWindow :=
  ({ window with width := width, height := height } : XcbWindow).attachBuffer

def pixel (window : XcbWindow) (x y : Nat) : BitVec 32 :=
  pixelAt window.data (window.width * 4).toInt.toNat x y

/-- The window is of the size of the image. -/
def HasSize (window : XcbWindow) (image : ShmImage) : Prop :=
  window.width = image.width ∧ window.height = image.height

instance (window : XcbWindow) (image : ShmImage) : Decidable (window.HasSize image) :=
  inferInstanceAs (Decidable (_ ∧ _))

/-- The window shows the image: same size, all pixels. -/
structure Shows (window : XcbWindow) (image : ShmImage) : Prop where
  size : window.HasSize image
  pixels : ∀ x y, image.Has x y → window.pixel x y = image.pixel x y

/-- The window as an update finds it once its size is that of the image. -/
def fitted (window : XcbWindow) (image : ShmImage) : XcbWindow :=
  if window.width ≠ image.width ∨ window.height ≠ image.height then
    window.setSize image.width image.height
  else window

end XcbWindow

/-! ## The view -/

/-- One upload: the buffer it took the pixels from and the rectangle, the window afterwards,
the buffer that the last commit had made current, and what was requested after the
commit before. -/
structure Upload where
  full : Bool
  buffer : Buffer
  rect : WereRect Int32
  window : XcbWindow
  committed : Option Buffer
  requests : List DamageRequest

/-- A `were_x11_surface` and `buffer_` of its `sparkle_surface`. `pending` is the damage that
was requested since the last update, `requests` that since the last commit, and `committed`
the buffer as it was at that commit. -/
structure X11Surface where
  window : XcbWindow
  damage : WereRect Int32
  buffer : Option Buffer
  committed : Option Buffer
  pending : List DamageRequest
  requests : List DamageRequest
  updates : List Upload

namespace X11Surface

/-- `were_x11_surface::update`, from a buffer -/
def upload (s : X11Surface) (b : Buffer) (full : Bool) : X11Surface :=
  let window := s.window.fitted b.image
  let r := x11UpdateRect s.damage full b.image.width b.image.height
  let window := { window with
    data := uploader0 window.data b.image.data b.image.stride (b.image.width * 4)
      r.x1.toUInt32 r.y1.toUInt32 r.x2.toUInt32 r.y2.toUInt32 }
  { s with
    window := window
    damage := .zero
    pending := []
    updates := s.updates ++ [⟨full, b, r, window, s.committed, s.requests⟩] }

/-- `were_x11_surface::update`. Every buffer has a format that `data()` knows, so that
`data()` is null only if there is none. -/
def update (s : X11Surface) (full : Bool) : X11Surface :=
  match s.buffer with
  | none => s
  | some b => s.upload b full

/-- What the client requests and draws, and Expose events. -/
inductive Event where
  | attach (b : Buffer)
  | draw (data : Memory (BitVec 8))
  | damage (q : DamageRequest)
  | commit
  | expose

/-- The slots. A commit makes the attached buffer current and then updates the window. -/
def handle (s : X11Surface) : Event → X11Surface
  | .attach b => { s with buffer := some b }
  | .draw data => { s with buffer := s.buffer.map fun b => b.draw data }
  | .damage q =>
    { s with
      damage := s.damage.expand q.rect.x1 q.rect.y1 q.rect.x2 q.rect.y2
      pending := s.pending ++ [q]
      requests := s.requests ++ [q] }
  | .commit => { ({ s with committed := s.buffer }.update false) with requests := [] }
  | .expose => s.update true

/-- A view as its constructor leaves it. -/
def created : X11Surface where
  window := XcbWindow.attachBuffer ⟨1280, 720, fun _ => 0⟩
  damage := .zero
  buffer := none
  committed := none
  pending := []
  requests := []
  updates := []

def machine : Machine X11Surface Event where
  start s := s = created
  step s e t := t = s.handle e

/-! ## What one upload does to the window -/

theorem shmImage_fits (image : ShmImage) :
    Fits image.stride image.width.toInt.toNat image.height.toInt.toNat ∧
      Fits (image.width * 4) image.width.toInt.toNat image.height.toInt.toNat := by
  obtain ⟨w, h, stride, data, hw, hh, hrow, hextent⟩ := image
  have hstride := Int32.toInt_range stride
  have hpitch : (w * 4).toInt = w.toInt * 4 :=
    Int32.toInt_mul_of_range (b := 4) (by change _ ≤ w.toInt * 4; omega)
      (by change w.toInt * 4 < _; omega)
  have hheight : ((h.toInt.toNat : Nat) : Int) = h.toInt := Int.toNat_of_nonneg (by omega)
  -- a row of pixels is not longer than the stride, so the window is not larger than the pool
  refine ⟨⟨by dsimp only; omega, ?_⟩, ⟨by dsimp only; omega, ?_⟩⟩
  · dsimp only
    rw [hheight]
    omega
  · dsimp only
    rw [hheight, hpitch]
    have hle : w.toInt * 4 * h.toInt ≤ stride.toInt * h.toInt :=
      Int.mul_le_mul_of_nonneg_right (by omega) (by omega)
    omega

/-- The pixel of the window that an upload of the image leaves alone: the window is empty
if it is made anew. -/
def keptPixel (window : XcbWindow) (image : ShmImage) (x y : Nat) : BitVec 32 :=
  if window.HasSize image then window.pixel x y else 0

theorem fitted_size (window : XcbWindow) (image : ShmImage) :
    (window.fitted image).HasSize image := by
  unfold XcbWindow.fitted
  split
  case isTrue => exact ⟨rfl, rfl⟩
  case isFalse h =>
    rw [not_or, not_not, not_not] at h
    exact h

theorem fitted_pixel (window : XcbWindow) (image : ShmImage) (x y : Nat) :
    (window.fitted image).pixel x y = keptPixel window image x y := by
  unfold XcbWindow.fitted keptPixel
  by_cases h : window.HasSize image
  · rw [if_pos h, if_neg fun hne => hne.elim (absurd h.1) (absurd h.2)]
  · rw [if_neg h, if_pos (Decidable.not_and_iff_or_not.mp h)]
    -- the memory of a new window is zero
    exact pixelAt_zero _ x y

/-- An upload of a rectangle inside the buffer, pixel by pixel. -/
theorem upload_pixel (s : X11Surface) (b : Buffer) (full : Bool)
    (hin : (x11UpdateRect s.damage full b.image.width b.image.height).Inside b.image.width
      b.image.height) {x y : Nat} (hxy : b.image.Has x y) :
    (s.upload b full).window.pixel x y =
      if (x11UpdateRect s.damage full b.image.width b.image.height).Contains x y then
        b.image.pixel x y
      else keptPixel s.window b.image x y := by
  obtain ⟨hS, hD⟩ := shmImage_fits b.image
  have hwidth := (fitted_size s.window b.image).1
  rw [← fitted_pixel, XcbWindow.pixel, XcbWindow.pixel, hwidth, upload]
  dsimp only
  rw [hwidth]
  generalize x11UpdateRect s.damage full b.image.width b.image.height = r at hin ⊢
  obtain ⟨⟨hx0, hx12, hx2⟩, hy0, hy12, hy2⟩ := WereRect.inside_iff.mp hin
  -- the corners are not negative, so that `uint32_t` keeps their values
  have e1 := Int32.toNat_toUInt32 hx0
  have e2 := Int32.toNat_toUInt32 (le_trans hx0 hx12)
  have e3 := Int32.toNat_toUInt32 hy0
  have e4 := Int32.toNat_toUInt32 (le_trans hy0 hy12)
  rw [uploader0_pixelAt hS hD (by omega) (by omega) (by omega) _ _ (by have := hxy.1; omega)]
  congr 1
  rw [e1, e2, e3, e4, WereRect.Contains, eq_iff_iff]
  omega

/-- A pixel of the rectangle is uploaded. -/
theorem upload_contained (s : X11Surface) (b : Buffer) (full : Bool) {x y : Nat}
    (hxy : b.image.Has x y)
    (h : (x11UpdateRect s.damage full b.image.width b.image.height).Contains x y) :
    (s.upload b full).window.pixel x y = b.image.pixel x y := by
  rw [upload_pixel s b full (inside_of_contains h) hxy, if_pos h]

theorem upload_size (s : X11Surface) (b : Buffer) (full : Bool) :
    (s.upload b full).window.HasSize b.image :=
  fitted_size s.window b.image

/-- A repaint shows the buffer it is made from. -/
theorem upload_full_shows (s : X11Surface) (b : Buffer) :
    (s.upload b true).window.Shows b.image := by
  refine ⟨upload_size s b true, fun x y hxy => ?_⟩
  exact upload_contained s b true hxy (contains_x11UpdateRect_full s.damage hxy.1 hxy.2)

/-- The damage since the last update meets the buffer, or there is none. -/
def Meets (s : X11Surface) (image : ShmImage) : Prop :=
  s.pending = [] ∨ EdgesMeet (inForce (s.pending.map DamageRequest.rect)) image.width image.height

theorem inside_iff_meets {s : X11Surface} (hdamage : s.damage = damaged s.pending)
    (image : ShmImage) :
    (x11UpdateRect s.damage false image.width image.height).Inside image.width image.height ↔
      s.Meets image := by
  have hsafe := x11UpdateRect_safe_iff s.pending false (Int32.le_iff_toInt_le.mpr image.width_pos)
    (Int32.le_iff_toInt_le.mpr image.height_pos)
  rw [hdamage, Meets]
  constructor
  · intro hin
    exact (hsafe.mp hin.uploadSafe).resolve_left Bool.false_ne_true
  · intro hmeets
    exact (hsafe.mpr (Or.inr hmeets)).inside

/-- An update after a commit shows the buffer exactly if the damage meets it and what the
damage does not reach is in the window already. -/
theorem upload_shows_iff {s : X11Surface} (hdamage : s.damage = damaged s.pending) {b : Buffer}
    (hmeets : s.Meets b.image) :
    (s.upload b false).window.Shows b.image ↔
      ∀ x y, b.image.Has x y → ¬ Reached (inForce (s.pending.map DamageRequest.rect)) x y →
        b.image.pixel x y = keptPixel s.window b.image x y := by
  have hpixel : ∀ x y, b.image.Has x y → (s.upload b false).window.pixel x y =
      if Reached (inForce (s.pending.map DamageRequest.rect)) x y then b.image.pixel x y
      else keptPixel s.window b.image x y := by
    intro x y hxy
    rw [upload_pixel s b false ((inside_iff_meets hdamage b.image).mpr hmeets) hxy, hdamage]
    simp only [contains_x11UpdateRect_iff hxy.1 hxy.2]
  -- what is uploaded is right anyway
  constructor
  · rintro ⟨-, hpixels⟩ x y hxy hout
    rw [← hpixels x y hxy, hpixel x y hxy, if_neg hout]
  · intro hkept
    refine ⟨upload_size s b false, fun x y hxy => ?_⟩
    rw [hpixel x y hxy]
    split
    case isTrue => rfl
    case isFalse hout => exact (hkept x y hxy hout).symm

end X11Surface

/-! ## When the window shows what was committed -/

/-- The upload stayed within the buffer, and the window shows what was committed. -/
structure Upload.Mirrors (u : Upload) : Prop where
  inside : u.rect.Inside u.buffer.image.width u.buffer.image.height
  shows : ∃ c, u.committed = some c ∧ u.window.Shows c.image

namespace X11Surface

/-- A commit comes after damage requests that cover every pixel of the buffer which differs
from what was committed before. -/
def Declared (s : X11Surface) : Event → Prop
  | .commit => ∀ b, s.buffer = some b → ∀ x y, b.image.Has x y →
      b.image.Differs (s.committed.map Buffer.image) x y → ∃ q ∈ s.requests, q.Covers x y
  | _ => True

/-- An Expose event finds the buffer as it was committed. At a commit the damage since the
last update meets the buffer, and the pixels it does not reach are in the window
already, which is empty if the size has changed. -/
def Complete (s : X11Surface) : Event → Prop
  | .commit => ∀ b, s.buffer = some b → s.Meets b.image ∧
      ∀ x y, b.image.Has x y → ¬ Reached (inForce (s.pending.map DamageRequest.rect)) x y →
        b.image.pixel x y = keptPixel s.window b.image x y
  | .expose => ∀ b, s.buffer = some b → ∃ c, s.committed = some c ∧ b.image.Same c.image
  | _ => True

/-- `damage_` holds the damage since the last update. -/
def Accumulated (s : X11Surface) : Prop := s.damage = damaged s.pending

theorem update_accumulated {s : X11Surface} (h : s.Accumulated) (full : Bool) :
    (s.update full).Accumulated := by
  unfold update
  split
  · exact h
  · rfl

theorem handle_accumulated {s : X11Surface} (h : s.Accumulated) (e : Event) :
    (s.handle e).Accumulated := by
  cases e with
  | attach b => exact h
  | draw data => exact h
  | damage q =>
    change s.damage.expand _ _ _ _ = damaged (s.pending ++ [q])
    rw [damaged, List.map_append, List.map_singleton, accumulate_append]
    exact congrArg (fun r : WereRect Int32 => r.expand _ _ _ _) h
  | commit => exact update_accumulated (s := { s with committed := s.buffer }) h false
  | expose => exact update_accumulated h true

/-- A window shows another image as well just if the two are the same. -/
theorem shows_iff_same {window : XcbWindow} {image image' : ShmImage}
    (h : window.Shows image) : window.Shows image' ↔ image.Same image' := by
  constructor
  · rintro ⟨⟨hw, hh⟩, hpixels⟩
    have hw' := h.size.1.symm.trans hw
    have hh' := h.size.2.symm.trans hh
    refine ⟨hw', hh', fun x y hxy => ?_⟩
    rw [← h.pixels x y hxy, hpixels x y (by rwa [ShmImage.Has, ← hw', ← hh'])]
  · rintro ⟨hw, hh, hpixels⟩
    refine ⟨⟨h.size.1.trans hw, h.size.2.trans hh⟩, fun x y hxy => ?_⟩
    rw [ShmImage.Has, ← hw, ← hh] at hxy
    rw [h.pixels x y hxy, hpixels x y hxy]

section Uploads

variable {P : Upload → Prop} {ok : Buffer → Prop} {s : X11Surface}

end Uploads

/-- The window shows what was committed last. -/
def ShowsCommitted (s : X11Surface) : Prop :=
  ∀ c, s.committed = some c → s.window.Shows c.image

theorem handle_showsCommitted {s : X11Surface} (hdamage : s.Accumulated) (h : s.ShowsCommitted)
    {e : Event} (hok : s.Complete e) : (s.handle e).ShowsCommitted := by
  cases e with
  | attach b => exact h
  | draw data => exact h
  | damage q => exact h
  | commit =>
    intro c hc
    cases hb : s.buffer with
    | none =>
      simp only [handle, update, hb] at hc
      cases hc
    | some b =>
      simp only [handle, update, hb, upload, Option.some.injEq] at hc ⊢
      subst hc
      obtain ⟨hmeets, hkept⟩ := hok b hb
      exact (upload_shows_iff (s := { s with committed := some b }) hdamage hmeets).mpr hkept
  | expose =>
    intro c hc
    cases hb : s.buffer with
    | none =>
      simp only [handle, update, hb] at hc ⊢
      exact h c hc
    | some b =>
      simp only [handle, update, hb, upload] at hc ⊢
      obtain ⟨c', hc', hsame⟩ := hok b hb
      cases hc.symm.trans hc'
      exact (shows_iff_same (upload_full_shows s b)).mpr hsame

/-- In a run that meets the condition the window shows what was committed, also between
the updates. -/
theorem showsCommitted {as : List Event} {s : X11Surface}
    (h : (machine.guarded Complete).Reaches as s) : s.ShowsCommitted := by
  refine (Machine.invariant (I := fun s => s.Accumulated ∧ s.ShowsCommitted) ?_ ?_ h).2
  · rintro s rfl
    exact ⟨rfl, fun c hc => by cases hc⟩
  · rintro s e t ⟨hdamage, hshows⟩ ⟨hok, rfl⟩
    exact ⟨handle_accumulated hdamage e, handle_showsCommitted hdamage hshows hok⟩

/-- A declared commit of a buffer of the size committed before meets the condition, if the
damage meets the buffer, its edges are `int`s and no Expose event has used it up. -/
theorem complete_of_size {s : X11Surface} {b c : Buffer} (hshows : s.ShowsCommitted)
    (hb : s.buffer = some b) (hc : s.committed = some c)
    (hsize : c.image.width = b.image.width ∧ c.image.height = b.image.height)
    (hmeets : s.Meets b.image) (hpending : ∀ q ∈ s.requests, q ∈ s.pending ∧ q.Fits)
    (hdeclared : s.Declared .commit) : s.Complete .commit := by
  intro b' hb'
  cases hb.symm.trans hb'
  refine ⟨hmeets, fun x y hxy hout => ?_⟩
  have hshown := hshows c hc
  have hxy' : c.image.Has x y := by rwa [ShmImage.Has, hsize.1, hsize.2]
  rw [keptPixel, if_pos ⟨hshown.size.1.trans hsize.1, hshown.size.2.trans hsize.2⟩,
    hshown.pixels x y hxy']
  by_contra hne
  have hdiffers : b.image.Differs (s.committed.map Buffer.image) x y := by
    rw [hc]
    intro image himage _
    cases himage
    exact hne
  obtain ⟨q, hq, hcovers⟩ := hdeclared b hb x y hxy hdiffers
  exact hout (reached_of_covers (hpending q hq).1 (hpending q hq).2 hcovers)

/-! ## A buffer that has grown -/

/-- A row of pixels, all of whose bytes are 1. -/
def row1 : ShmImage :=
  ⟨1, 1, 8, fun _ => 1, by decide, by decide, by decide, by decide⟩

/-- The same row with one pixel more. -/
def row2 : ShmImage :=
  ⟨2, 1, 8, fun _ => 1, by decide, by decide, by decide, by decide⟩

end X11Surface

end SparkleWayland
