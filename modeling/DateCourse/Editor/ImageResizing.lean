import Mathlib.Algebra.Order.Floor.Ring
import Mathlib.Data.Rat.Floor
import Mathlib.Tactic.FieldSimp
import Mathlib.Tactic.Linarith
import DateCourse.Editor.SaveChain
import DateCourse.Machine.Loop

/-!
# Shrinking a photo to one megabyte

`UIImage.resizedTo1MB` draws an image at nine tenths of its size until its PNG encoding has at most
a million bytes. The size of the encoding need not fall when the image shrinks; what does fall is
the number of pixels on a side, as long as one side has ten pixels or more. The drawing and the
encoding are parameters, with what is known about them as hypotheses.

## Main definitions

* `UIImage` and `ImageCoding`: an image and the functions of UIKit;
* `ImageCoding.Bounded`: what the loop relies on;
* `resized` and `resizedTo1MB`;
* `shrunk` and `ResizedTo1MB`: what the result should be, in terms of the functions of UIKit.

## Main results

* `sides_lt_of_tooBig`: the measure that each round lowers;
* `resizedTo1MB_ends`: the loop ends, with the result that it should have;
* `Save.resizedTo1MB_spec`: so what a save uploads is the PNG of such a result, of at most a million
  bytes.
-/

namespace DateCourse

/-- A `UIImage`: its bitmap, with the number of pixels on each side, and its scale. -/
structure UIImage (Bitmap : Type) where
  pixelWidth : ℕ
  pixelHeight : ℕ
  scale : ℚ
  scale_pos : 0 < scale
  bitmap : Bitmap
deriving DecidableEq

namespace UIImage

variable {Bitmap : Type} (image : UIImage Bitmap)

/-- `size.width`, in points. -/
def width : ℚ := image.pixelWidth / image.scale

/-- `size.height`, in points. -/
def height : ℚ := image.pixelHeight / image.scale

end UIImage

/-- The functions of UIKit that the loop calls. -/
structure ImageCoding (Bitmap Data : Type) where
  /-- The image of a context of the given canvas width, height and scale in which the image has
  been drawn. -/
  drawn : UIImage Bitmap → (width height scale : ℚ) → Option (UIImage Bitmap)
  /-- `UIImagePNGRepresentation`. -/
  pngRepresentation : UIImage Bitmap → Option Data
  /-- The number of bytes. -/
  count : Data → ℕ

/-- What is known about these functions, for an encoding with `c₀` bytes and `c₁` for each pixel. -/
structure ImageCoding.Bounded {Bitmap Data : Type} (coding : ImageCoding Bitmap Data)
    (c₀ c₁ : ℚ) : Prop where
  /-- The pixels of a context are the canvas times the scale, rounded up. -/
  drawn : ∀ image width height scale result,
    coding.drawn image width height scale = some result →
      result.pixelWidth = ⌈width * scale⌉₊ ∧ result.pixelHeight = ⌈height * scale⌉₊
  count_le : ∀ image data, coding.pngRepresentation image = some data →
    (coding.count data : ℚ) ≤ c₀ + c₁ * (image.pixelWidth * image.pixelHeight)
  c₁_nonneg : 0 ≤ c₁
  /-- An image of nine by nine pixels fits. -/
  fits : c₀ + 81 * c₁ ≤ 1000000

namespace UIImage

variable {Bitmap Data : Type} (coding : ImageCoding Bitmap Data)

/-- `resized(withPercentage:)`. -/
def resized (image : UIImage Bitmap) (percentage : ℚ) : Option (UIImage Bitmap) :=
  coding.drawn image (image.width * percentage) (image.height * percentage) image.scale

/-- The variables of the loop. -/
structure Resizing (Bitmap : Type) where
  resizingImage : UIImage Bitmap
  imageSizeKB : ℚ

/-- The loop of `resizedTo1MB`. -/
def resizing : WhileLoop (Resizing Bitmap) where
  guard s := s.imageSizeKB > 1000
  body s := do
    let resizedImage ← s.resizingImage.resized coding (9 / 10)
    let imageData ← coding.pngRepresentation resizedImage
    return { resizingImage := resizedImage, imageSizeKB := coding.count imageData / 1000 }

/-- `resizedTo1MB()` with fuel for its loop: `none` if the fuel does not suffice, `some none` if
the function returns nil. -/
def resizedTo1MB (fuel : ℕ) (image : UIImage Bitmap) : Option (Option (UIImage Bitmap)) :=
  match coding.pngRepresentation image with
  | none => some none
  | some imageData =>
    ((resizing coding).run fuel
      { resizingImage := image, imageSizeKB := coding.count imageData / 1000 }).map
        fun result => result.map (·.resizingImage)

/-! ### What the result should be, in terms of UIKit alone -/

/-- An image drawn on a canvas of nine tenths of its size in points, at its own scale. -/
def drawnAtNineTenths (image : UIImage Bitmap) : Option (UIImage Bitmap) :=
  coding.drawn image (image.pixelWidth / image.scale * (9 / 10))
    (image.pixelHeight / image.scale * (9 / 10)) image.scale

/-- The image after `k` drawings, each at nine tenths of the size of the one before. -/
def shrunk : ℕ → UIImage Bitmap → Option (UIImage Bitmap)
  | 0, image => some image
  | k + 1, image => (shrunk k image).bind (drawnAtNineTenths coding)

/-- The first `k` of these images are all drawn and encoded, with more than a million bytes. -/
def TooBig (image : UIImage Bitmap) (k : ℕ) : Prop :=
  ∀ j < k, ∃ resized data, shrunk coding j image = some resized ∧
    coding.pngRepresentation resized = some data ∧ 1000000 < coding.count data

/-- What `resizedTo1MB` should return. -/
structure ResizedTo1MB (image : UIImage Bitmap) (result : Option (UIImage Bitmap)) : Prop where
  /-- It returns nil exactly when a drawing or an encoding that it reaches fails: all images before
  the one of that step are too big. -/
  failed : result = none ↔ ∃ k, TooBig coding image k ∧
    (shrunk coding k image).bind coding.pngRepresentation = none
  /-- It returns the first of the images whose encoding has at most a million bytes. -/
  returned : ∀ resized, result = some resized ↔ ∃ k data, TooBig coding image k ∧
    shrunk coding k image = some resized ∧ coding.pngRepresentation resized = some data ∧
      coding.count data ≤ 1000000

/-! ## One round -/

/-- What `resized(withPercentage: 0.9)` does. -/
theorem resized_eq_drawnAtNineTenths (image : UIImage Bitmap) :
    image.resized coding (9 / 10) = drawnAtNineTenths coding image := rfl

section Round

variable {coding} {c₀ c₁ : ℚ} {image : UIImage Bitmap}

/-- Nine tenths of a side, rounded up, are never more pixels. -/
theorem ceil_nine_tenths_le (pixels : ℕ) : ⌈(pixels : ℚ) * (9 / 10)⌉₊ ≤ pixels := by
  have hnonneg : (0 : ℚ) ≤ pixels := Nat.cast_nonneg pixels
  exact Nat.ceil_le.mpr (by linarith)

/-- They are fewer from ten pixels on; nine pixels stay nine. -/
theorem ceil_nine_tenths_lt {pixels : ℕ} (h : 10 ≤ pixels) :
    ⌈(pixels : ℚ) * (9 / 10)⌉₊ < pixels := by
  have hten : (10 : ℚ) ≤ pixels := by exact_mod_cast h
  have hle : ⌈(pixels : ℚ) * (9 / 10)⌉₊ ≤ pixels - 1 := by
    refine Nat.ceil_le.mpr ?_
    rw [Nat.cast_sub (by omega), Nat.cast_one]
    linarith
  omega

/-- An image that is too big has a side of at least ten pixels. -/
theorem side_of_tooBig (h : coding.Bounded c₀ c₁) {data : Data}
    (hdata : coding.pngRepresentation image = some data) (hbig : 1000000 < coding.count data) :
    10 ≤ image.pixelWidth ∨ 10 ≤ image.pixelHeight := by
  by_contra hsmall
  obtain ⟨hwidth, hheight⟩ := not_or.mp hsmall
  -- nine by nine pixels at most
  have hpixels : image.pixelWidth * image.pixelHeight ≤ 81 :=
    Nat.mul_le_mul (show image.pixelWidth ≤ 9 by omega) (show image.pixelHeight ≤ 9 by omega)
  have hpixels' : (image.pixelWidth * image.pixelHeight : ℚ) ≤ 81 := by exact_mod_cast hpixels
  have hcount : (coding.count data : ℚ) ≤ 1000000 :=
    calc (coding.count data : ℚ)
        ≤ c₀ + c₁ * (image.pixelWidth * image.pixelHeight) := h.count_le image data hdata
      _ ≤ c₀ + c₁ * 81 := by gcongr; exact h.c₁_nonneg
      _ ≤ 1000000 := by linarith [h.fits]
  have hcount' : coding.count data ≤ 1000000 := by exact_mod_cast hcount
  omega

/-- The pixels of an image drawn at nine tenths of its size. -/
theorem pixels_drawnAtNineTenths (h : coding.Bounded c₀ c₁) {result : UIImage Bitmap}
    (hresult : drawnAtNineTenths coding image = some result) :
    result.pixelWidth = ⌈(image.pixelWidth : ℚ) * (9 / 10)⌉₊ ∧
      result.pixelHeight = ⌈(image.pixelHeight : ℚ) * (9 / 10)⌉₊ := by
  have hscale := image.scale_pos.ne'
  -- the scale cancels, whatever the scale of the new image is
  have hcancel : ∀ pixels : ℕ, (pixels : ℚ) / image.scale * (9 / 10) * image.scale =
      pixels * (9 / 10) := fun pixels => by
    field_simp
  have hdrawn := h.drawn _ _ _ _ _ hresult
  rw [hcancel, hcancel] at hdrawn
  exact hdrawn

/-- The measure of the loop: drawing an image that is too big lowers the sum of its sides. -/
theorem sides_lt_of_tooBig (h : coding.Bounded c₀ c₁) {data : Data} {result : UIImage Bitmap}
    (hdata : coding.pngRepresentation image = some data) (hbig : 1000000 < coding.count data)
    (hresult : drawnAtNineTenths coding image = some result) :
    result.pixelWidth + result.pixelHeight < image.pixelWidth + image.pixelHeight := by
  obtain ⟨hwidth, hheight⟩ := pixels_drawnAtNineTenths h hresult
  have hwidth_le := ceil_nine_tenths_le image.pixelWidth
  have hheight_le := ceil_nine_tenths_le image.pixelHeight
  -- the other side may have stopped shrinking
  rcases side_of_tooBig h hdata hbig with hten | hten
  · have hlt := ceil_nine_tenths_lt hten
    omega
  · have hlt := ceil_nine_tenths_lt hten
    omega

end Round

/-! ## The loop -/

section Loop

variable {coding} {c₀ c₁ : ℚ} {image : UIImage Bitmap}

/-- The size in the loop is that of the encoding of its image. -/
def Encodes (coding : ImageCoding Bitmap Data) (s : Resizing Bitmap) : Prop :=
  ∃ data, coding.pngRepresentation s.resizingImage = some data ∧
    s.imageSizeKB = coding.count data / 1000

/-- The loop goes on as long as its image is too big. -/
theorem guard_iff {s : Resizing Bitmap} {data : Data}
    (hsize : s.imageSizeKB = coding.count data / 1000) :
    (resizing coding).guard s = true ↔ 1000000 < coding.count data := by
  have hguard : (resizing coding).guard s = decide (s.imageSizeKB > 1000) := rfl
  rw [hguard, decide_eq_true_eq, hsize, gt_iff_lt, lt_div_iff₀ (by norm_num)]
  norm_cast

/-- One round draws the smaller image and encodes it. -/
theorem body_eq_some_iff {s t : Resizing Bitmap} :
    (resizing coding).body s = some t ↔
      drawnAtNineTenths coding s.resizingImage = some t.resizingImage ∧ Encodes coding t := by
  rw [← resized_eq_drawnAtNineTenths]
  obtain ⟨resizedImage, imageSizeKB⟩ := t
  constructor
  · intro hbody
    obtain ⟨resizedImage', hresized, hrest⟩ := Option.bind_eq_some_iff.mp hbody
    obtain ⟨data, hdata, hend⟩ := Option.bind_eq_some_iff.mp hrest
    obtain ⟨rfl, rfl⟩ := Resizing.mk.inj (Option.some.inj hend)
    exact ⟨hresized, data, hdata, rfl⟩
  · rintro ⟨hresized, data, hdata, hsize⟩
    obtain rfl : imageSizeKB = coding.count data / 1000 := hsize
    simp only [resizing, hresized, Option.bind_eq_bind, Option.bind_some]
    rw [hdata, Option.bind_some]
    rfl

/-- A round fails where the drawing or the encoding does. -/
theorem body_eq_none_iff {s : Resizing Bitmap} :
    (resizing coding).body s = none ↔
      (drawnAtNineTenths coding s.resizingImage).bind coding.pngRepresentation = none := by
  rw [← resized_eq_drawnAtNineTenths]
  cases hresized : s.resizingImage.resized coding (9 / 10) with
  | none => simp [resizing, hresized]
  | some resizedImage =>
    cases hdata : coding.pngRepresentation resizedImage <;> simp [resizing, hresized, hdata]

variable {s t : Resizing Bitmap} {k : ℕ}

/-- The rounds of the loop shrink its image. -/
theorem shrunk_of_rounds (hs : Encodes coding s)
    (ht : (resizing coding).rounds k s = some t) :
    shrunk coding k s.resizingImage = some t.resizingImage ∧ Encodes coding t := by
  induction k generalizing t with
  | zero =>
    obtain rfl : s = t := Option.some.inj ht
    exact ⟨rfl, hs⟩
  | succ k ih =>
    rw [WhileLoop.rounds_succ] at ht
    obtain ⟨u, hu, hbody⟩ := Option.bind_eq_some_iff.mp ht
    obtain ⟨hresized, hencodes⟩ := body_eq_some_iff.mp hbody
    rw [shrunk, (ih hu).1, Option.bind_some]
    exact ⟨hresized, hencodes⟩

/-- As long as the images are too big, there are rounds that lead to them. -/
theorem rounds_of_shrunk (hs : Encodes coding s) (hbig : TooBig coding s.resizingImage k)
    (ht : shrunk coding k s.resizingImage = some t.resizingImage) (hencodes : Encodes coding t) :
    (resizing coding).rounds k s = some t := by
  induction k generalizing t with
  | zero =>
    -- the same image has the same encoding
    obtain ⟨resizingImage, imageSizeKB⟩ := s
    obtain ⟨resizingImage', imageSizeKB'⟩ := t
    obtain rfl : resizingImage = resizingImage' := Option.some.inj ht
    obtain ⟨data, hdata, hsize⟩ := hs
    obtain ⟨data', hdata', hsize'⟩ := hencodes
    obtain rfl : data = data' := Option.some.inj (hdata.symm.trans hdata')
    obtain rfl : imageSizeKB = imageSizeKB' := hsize.trans hsize'.symm
    rfl
  | succ k ih =>
    obtain ⟨resizedImage, data, hresized, hdata, -⟩ := hbig k (Nat.lt_succ_self k)
    have hround := ih (t := ⟨resizedImage, coding.count data / 1000⟩)
      (fun j hj => hbig j (by omega)) hresized ⟨data, hdata, rfl⟩
    rw [shrunk, hresized, Option.bind_some] at ht
    rw [WhileLoop.rounds_succ, hround, Option.bind_some]
    exact body_eq_some_iff.mpr ⟨ht, hencodes⟩

/-- The rounds that the loop enters are those with an image that is too big. -/
theorem enters_iff (hs : Encodes coding s) :
    (resizing coding).Enters k s ↔ TooBig coding s.resizingImage k := by
  constructor
  · intro henters j hj
    obtain ⟨t, ht, hguard⟩ := henters j hj
    obtain ⟨hshrunk, data, hdata, hsize⟩ := shrunk_of_rounds hs ht
    exact ⟨t.resizingImage, data, hshrunk, hdata, (guard_iff hsize).mp hguard⟩
  · intro hbig j hj
    obtain ⟨resizedImage, data, hshrunk, hdata, hcount⟩ := hbig j hj
    refine ⟨⟨resizedImage, coding.count data / 1000⟩, ?_, (guard_iff rfl).mpr hcount⟩
    exact rounds_of_shrunk hs (fun i hi => hbig i (by omega)) hshrunk ⟨data, hdata, rfl⟩

/-- Whatever the loop results in is what `resizedTo1MB` should return. -/
theorem resizedTo1MB_of_run {fuel : ℕ} {data : Data}
    (hdata : coding.pngRepresentation image = some data) {r : Option (Resizing Bitmap)}
    (hrun : (resizing coding).run fuel
      { resizingImage := image, imageSizeKB := coding.count data / 1000 } = some r) :
    ResizedTo1MB coding image (r.map (·.resizingImage)) := by
  have hs : Encodes coding ⟨image, coding.count data / 1000⟩ := ⟨data, hdata, rfl⟩
  constructor
  · rw [Option.map_eq_none_iff, WhileLoop.run_eq_some_none_iff hrun]
    constructor
    · rintro ⟨k, t, henters, ht, hguard, hbody⟩
      obtain ⟨hshrunk, data', hdata', hsize⟩ := shrunk_of_rounds hs ht
      refine ⟨k + 1, fun j hj => ?_, ?_⟩
      · -- the round that fails has been entered too
        rcases Nat.lt_succ_iff_lt_or_eq.mp hj with hlt | rfl
        · exact (enters_iff hs).mp henters j hlt
        · exact ⟨t.resizingImage, data', hshrunk, hdata', (guard_iff hsize).mp hguard⟩
      · rw [shrunk, hshrunk, Option.bind_some]
        exact body_eq_none_iff.mp hbody
    · rintro ⟨k, hbig, hnone⟩
      cases k with
      | zero =>
        -- the image itself can be encoded
        rw [shrunk, Option.bind_some, hdata] at hnone
        cases hnone
      | succ k =>
        obtain ⟨resizedImage, data', hshrunk, hdata', hcount⟩ := hbig k (Nat.lt_succ_self k)
        have hbig' : TooBig coding image k := fun j hj => hbig j (by omega)
        rw [shrunk, hshrunk, Option.bind_some] at hnone
        exact ⟨k, ⟨resizedImage, coding.count data' / 1000⟩, (enters_iff hs).mpr hbig',
          rounds_of_shrunk hs hbig' hshrunk ⟨data', hdata', rfl⟩, (guard_iff rfl).mpr hcount,
          body_eq_none_iff.mpr hnone⟩
  · intro resized
    rw [Option.map_eq_some_iff]
    constructor
    · rintro ⟨t, rfl, rfl⟩
      obtain ⟨k, henters, ht, hguard⟩ := (WhileLoop.run_eq_some_some_iff hrun).mp rfl
      obtain ⟨hshrunk, data', hdata', hsize⟩ := shrunk_of_rounds hs ht
      refine ⟨k, data', (enters_iff hs).mp henters, hshrunk, hdata', ?_⟩
      by_contra hcount
      rw [(guard_iff hsize).mpr (by omega)] at hguard
      cases hguard
    · rintro ⟨k, data', hbig, hshrunk, hdata', hcount⟩
      refine ⟨⟨resized, coding.count data' / 1000⟩, ?_, rfl⟩
      refine (WhileLoop.run_eq_some_some_iff hrun).mpr ⟨k, (enters_iff hs).mpr hbig,
        rounds_of_shrunk hs hbig hshrunk ⟨data', hdata', rfl⟩, ?_⟩
      rw [← Bool.not_eq_true, guard_iff rfl]
      omega

/-- The loop ends, for every image, with the result that it should have. -/
theorem resizedTo1MB_ends (h : coding.Bounded c₀ c₁) (image : UIImage Bitmap) {fuel : ℕ}
    (hfuel : image.pixelWidth + image.pixelHeight < fuel) :
    ∃ result, resizedTo1MB coding fuel image = some result ∧ ResizedTo1MB coding image result := by
  cases hdata : coding.pngRepresentation image with
  | none =>
    refine ⟨none, by rw [resizedTo1MB, hdata], ?_, fun resized => ?_⟩
    · exact iff_of_true rfl ⟨0, fun j hj => absurd hj (Nat.not_lt_zero j), hdata⟩
    · -- an image that cannot be encoded is neither returned nor passed over
      refine iff_of_false (fun hnone => by cases hnone) ?_
      rintro ⟨k, data, hbig, hshrunk, hencoded, -⟩
      cases k with
      | zero =>
        obtain rfl : image = resized := Option.some.inj hshrunk
        rw [hdata] at hencoded
        cases hencoded
      | succ k =>
        obtain ⟨first, data', hfirst, hdata', -⟩ := hbig 0 (Nat.succ_pos k)
        obtain rfl : image = first := Option.some.inj hfirst
        rw [hdata] at hdata'
        cases hdata'
  | some data =>
    have hround : ∀ s t, Encodes coding s → (resizing coding).guard s = true →
        (resizing coding).body s = some t → Encodes coding t ∧
          t.resizingImage.pixelWidth + t.resizingImage.pixelHeight <
            s.resizingImage.pixelWidth + s.resizingImage.pixelHeight := by
      rintro s t ⟨data, hdata, hsize⟩ hguard hbody
      obtain ⟨hresized, hencodes⟩ := body_eq_some_iff.mp hbody
      exact ⟨hencodes, sides_lt_of_tooBig h hdata ((guard_iff hsize).mp hguard) hresized⟩
    have hends := WhileLoop.run_isSome_of_measure
      (fun s : Resizing Bitmap => s.resizingImage.pixelWidth + s.resizingImage.pixelHeight) hround
      fuel (s := ⟨image, coding.count data / 1000⟩) ⟨data, hdata, rfl⟩ hfuel
    obtain ⟨r, hr⟩ := Option.isSome_iff_exists.mp hends
    refine ⟨r.map (·.resizingImage), ?_, resizedTo1MB_of_run hdata hr⟩
    simp only [resizedTo1MB, hdata]
    rw [hr, Option.map_some]

end Loop

end UIImage

/-! ## The payloads of a save -/

namespace Save

open UIImage

variable {Bitmap Data : Type}

/-- The services of a save whose photos are shrunk by the loop, with fuel enough. -/
def resizingServices (coding : ImageCoding Bitmap Data) (absoluteString : ℕ × ℕ → String) :
    Services (UIImage Bitmap) Data :=
  { resizedTo1MB := fun image =>
      (resizedTo1MB coding (image.pixelWidth + image.pixelHeight + 1) image).join,
    pngRepresentation := coding.pngRepresentation, absoluteString }

variable {coding : ImageCoding Bitmap Data} {c₀ c₁ : ℚ}

/-- The payload for a location: the PNG of the image that its photo should be shrunk to. -/
def PayloadOf (coding : ImageCoding Bitmap Data) (location : Location (UIImage Bitmap))
    (uploadData : Data) : Prop :=
  ∃ image resized, location.firstPhoto = some image ∧
    ResizedTo1MB coding image (some resized) ∧
      coding.pngRepresentation resized = some uploadData ∧ coding.count uploadData ≤ 1000000

/-- What is uploaded for a location is its payload. -/
theorem payloadOf_uploadDataOf (h : coding.Bounded c₀ c₁) {absoluteString : ℕ × ℕ → String}
    {location : Location (UIImage Bitmap)} {uploadData : Data}
    (hupload : uploadDataOf (resizingServices coding absoluteString) location = some uploadData) :
    PayloadOf coding location uploadData := by
  obtain ⟨currentImage, hphoto, hrest⟩ := Option.bind_eq_some_iff.mp hupload
  obtain ⟨storageImage, hresized, hencoded⟩ := Option.bind_eq_some_iff.mp hrest
  obtain ⟨result, hresult, hspec⟩ := resizedTo1MB_ends h currentImage (Nat.lt_add_one _)
  have hreturned : (resizedTo1MB coding (currentImage.pixelWidth + currentImage.pixelHeight + 1)
      currentImage).join = some storageImage := hresized
  rw [hresult, Option.join_some] at hreturned
  subst hreturned
  -- the image has been encoded before, with the same result
  obtain ⟨k, data, -, -, hdata, hcount⟩ := (hspec.returned storageImage).mp rfl
  obtain rfl : data = uploadData := Option.some.inj (hdata.symm.trans hencoded)
  exact ⟨currentImage, storageImage, hphoto, hspec, hencoded, hcount⟩

/-- For every image the loop ends, with nil exactly if a step that it reaches fails, and otherwise
with the first image, each nine tenths of the one before, that has at most a million bytes. So in
every state of every save, each payload that `putData` has been given is the PNG of such an image
of its location, and has at most as many. -/
theorem resizedTo1MB_spec (h : coding.Bounded c₀ c₁) :
    (∀ (image : UIImage Bitmap) (fuel : ℕ), image.pixelWidth + image.pixelHeight < fuel →
      ∃ result, resizedTo1MB coding fuel image = some result ∧
        ResizedTo1MB coding image result) ∧
    ∀ absoluteString itinerary user es s,
      (step (resizingServices coding absoluteString)).exec (State.fresh itinerary user) es =
        some s → ∀ a index locationCount ref,
          s.controller.stageOf a = some (.putData index locationCount ref) →
            PayloadOf coding ref.location ref.uploadData := by
  constructor
  · intro image fuel hfuel
    exact resizedTo1MB_ends h image hfuel
  · intro absoluteString itinerary user es s hs a index locationCount ref hstage
    obtain ⟨s', hs', hinv⟩ := exec_inv (resizingServices coding absoluteString) itinerary user es
    obtain rfl : s' = s := Option.some.inj (hs'.symm.trans hs)
    obtain ⟨att, -, hatt, hstageInv⟩ := hinv.1.stageInv hstage
    rw [Attempt.StageInv, hatt] at hstageInv
    obtain ⟨-, -, -, -, -, hfrom⟩ := hstageInv
    exact payloadOf_uploadDataOf h hfrom.photo

/-- One byte for each pixel, and nothing fails. -/
def rawCoding : ImageCoding Unit ℕ :=
  { drawn := fun image width height scale =>
      some { image with pixelWidth := ⌈width * scale⌉₊, pixelHeight := ⌈height * scale⌉₊ },
    pngRepresentation := fun image => some (image.pixelWidth * image.pixelHeight),
    count := id }

theorem rawCoding_bounded : rawCoding.Bounded 0 1 := by
  refine ⟨fun image width height scale result hresult => ?_, fun image data hdata => ?_,
    by norm_num, by norm_num⟩
  · obtain rfl := Option.some.inj hresult
    exact ⟨rfl, rfl⟩
  · obtain rfl := Option.some.inj hdata
    simp [rawCoding]

/-- A photo of twenty by ten pixels at scale two. -/
def smallPhoto : UIImage Unit :=
  { pixelWidth := 20, pixelHeight := 10, scale := 2, scale_pos := by norm_num, bitmap := () }

/-- The upload of a location with this photo. -/
def smallReference : StorageReference (UIImage Unit) ℕ :=
  { attempt := 0, index := 0, uploadData := 200,
    location := ⟨⟨"place", "id", none, ⟨0, 0⟩⟩, some smallPhoto⟩ }

/-- An itinerary of this location only. -/
def onePhoto : CurrentItinerary (UIImage Unit) :=
  { (CurrentItinerary.init : CurrentItinerary (UIImage Unit)) with
    locations := [smallReference.location] }

/-- The theorem for an image of two million pixels, and for a save of one small photo. -/
theorem resizedTo1MB_spec_rawCoding :
    (∃ result, resizedTo1MB rawCoding 3001
        { smallPhoto with pixelWidth := 2000, pixelHeight := 1000 } = some result ∧
      ResizedTo1MB rawCoding { smallPhoto with pixelWidth := 2000, pixelHeight := 1000 } result) ∧
    ∃ s, (step (resizingServices rawCoding fun _ => "")).exec
        (State.fresh onePhoto (some "user")) [.controller .yes] = some s ∧
      s.controller.stageOf 0 = some (.putData 0 1 smallReference) ∧
      PayloadOf rawCoding smallReference.location smallReference.uploadData := by
  obtain ⟨s, hs, -⟩ := exec_inv (resizingServices rawCoding fun _ => "") onePhoto (some "user")
    [.controller .yes]
  have hstage : ((step (resizingServices rawCoding fun _ => "")).exec
      (State.fresh onePhoto (some "user")) [.controller .yes]).bind (·.controller.stageOf 0) =
      some (.putData 0 1 smallReference) := by decide +kernel
  rw [hs, Option.bind_some] at hstage
  exact ⟨(resizedTo1MB_spec rawCoding_bounded).1 _ 3001 (by decide), s, hs, hstage,
    (resizedTo1MB_spec rawCoding_bounded).2 _ onePhoto (some "user") _ s hs 0 0 1 _ hstage⟩

end Save

end DateCourse
