import OverwatchTeams.App.TeamsView
import OverwatchTeams.NetworkPlatform.TeamsWebService
import OverwatchTeams.Lib.Transition
import OverwatchTeams.Lib.Keyed
import Mathlib.Logic.Function.Basic

/-!
# Logos

`UIImageView.downloaded` takes an image from the shared cache or starts a
download, whose response puts a closure on the main queue that sets the image.
Nothing cancels a download, and the closure does not ask which link its view
shows by then.

A `Gallery` is the state of the cells of a table: the cells, the cache, the
downloads in flight and the closures in the main queue. Its labels are the calls
of the table view, the responses in any order, the closures and evictions. An
image carries the URL it was downloaded from, so that `ShowsConfigured` can say
that every logo belongs to the link its cell was last configured with. A run
keeps to that exactly when its closures arrive on time (`shows_configured_iff`).
-/

namespace OverwatchTeams

/-- `URL(string:)` gives URLs without a base: one is its `absoluteString`. -/
structure URL where
  absoluteString : String
  deriving DecidableEq, Repr

/-- What Foundation and UIKit decide: which links are URLs, and which bytes are
images. -/
structure ImagePlatform (D I : Type) where
  /-- `URL(string:)`. -/
  url : String → Option URL
  /-- `UIImage(data:)`. -/
  image : D → Option I

/-- An image; `source` records the URL it was downloaded from. -/
structure UIImage (I : Type) where
  content : I
  source : URL
  deriving DecidableEq, Repr

inductive ContentMode where
  | scaleToFill
  | scaleAspectFit
  | scaleAspectFill
  | redraw
  | center
  | top
  | bottom
  | left
  | right
  | topLeft
  | topRight
  | bottomLeft
  | bottomRight
  deriving DecidableEq, Repr

structure UIImageView (I : Type) where
  image : Option (UIImage I)
  contentMode : ContentMode
  deriving DecidableEq, Repr

/-- `NSCache` by `absoluteString`; it may drop any entry at any time. -/
abbrev ImageCache (I : Type) : Type := String → Option (UIImage I)

variable {V D I : Type}

/-! ## The source's functions -/

namespace UIImageView

/-- `downloaded(from url:contentMode:)`: the view after the call, and the URL of the
data task it starts. -/
def downloadedURL (imageCache : ImageCache I) (url : URL) (mode : ContentMode) (v : UIImageView I) :
    UIImageView I × Option URL :=
  match imageCache url.absoluteString with
  | some cachedImage => ({ v with image := some cachedImage }, none)
  | none => ({ v with contentMode := mode }, some url)

/-- `downloaded(from link:contentMode:)`. -/
def downloaded (platform : ImagePlatform D I) (imageCache : ImageCache I) (link : String)
    (mode : ContentMode) (v : UIImageView I) : UIImageView I × Option URL :=
  match platform.url link with
  | none => (v, none)
  | some url => v.downloadedURL imageCache url mode

/-- The `guard` of the data task's completion handler. -/
def imageOfResponse (platform : ImagePlatform D I) (data : Option D) (response : Option URLResponse)
    (error : Option URLError) : Option I := do
  let response ← response
  let statusCode ← response.statusCode
  guard (statusCode = 200)
  let mimeType ← response.mimeType
  guard ("image".toList <+: mimeType.toList)
  let data ← data
  guard error.isNone
  platform.image data

end UIImageView

structure TeamCell (I : Type) where
  logoImageView : UIImageView I
  /-- The text of the label, as for the other one. -/
  nameLabel : Option String
  abbreviatedNameLabel : Option String
  accessibilityIdentifier : Option String
  deriving DecidableEq, Repr

namespace TeamCell

def init : TeamCell I where
  logoImageView := { image := none, contentMode := .scaleAspectFit }
  nameLabel := none
  abbreviatedNameLabel := none
  accessibilityIdentifier := none

def prepareForReuse (cell : TeamCell I) : TeamCell I :=
  { cell with
    logoImageView := { cell.logoImageView with image := none }
    nameLabel := none
    abbreviatedNameLabel := none }

/-- `configure(with:)`, with the URL of the data task it starts. -/
def configure (platform : ImagePlatform D I) (imageCache : ImageCache I) (viewModel : ViewModel)
    (cell : TeamCell I) : TeamCell I × Option URL :=
  let (logoImageView, task) := cell.logoImageView.downloaded platform imageCache
    viewModel.logoAddress .scaleAspectFit
  ({ logoImageView
     nameLabel := some viewModel.name
     abbreviatedNameLabel := some viewModel.abbreviatedName
     accessibilityIdentifier := some ("teamCell" ++ viewModel.abbreviatedName) }, task)

end TeamCell

/-! ## Cells, cache and downloads together -/

structure Download (V : Type) where
  cell : V
  url : URL
  deriving DecidableEq, Repr

/-- The closure a successful data task puts on the main queue. -/
structure ImageClosure (V I : Type) where
  cell : V
  url : URL
  image : UIImage I
  deriving DecidableEq, Repr

@[ext] structure Gallery (V I : Type) where
  cells : V → TeamCell I
  imageCache : ImageCache I
  inFlight : List (Download V)
  mainQueue : List (ImageClosure V I)
  /-- The cells that are fresh, or prepared for reuse and not configured since. -/
  ready : V → Bool
  /-- The link each cell was last configured with. -/
  links : V → Option String

inductive GalleryLabel (V D : Type) where
  | prepareForReuse (cell : V)
  | configure (cell : V) (viewModel : TeamCell.ViewModel)
  /-- The data task at this position ends, whatever was started before or after it. -/
  | respond (position : Nat) (data : Option D) (response : Option URLResponse)
      (error : Option URLError)
  /-- The main queue runs its first closure. -/
  | execute
  | evict (key : String)

namespace Gallery

variable [DecidableEq V] (platform : ImagePlatform D I)

def init : Gallery V I where
  cells := fun _ => .init
  imageCache := fun _ => none
  inFlight := []
  mainQueue := []
  ready := fun _ => true
  links := fun _ => none

def prepareForReuse (cell : V) (g : Gallery V I) : Gallery V I :=
  { g with
    cells := Function.update g.cells cell (g.cells cell).prepareForReuse
    ready := Function.update g.ready cell true }

def configure (cell : V) (viewModel : TeamCell.ViewModel) (g : Gallery V I) : Gallery V I :=
  let (configured, task) := (g.cells cell).configure platform g.imageCache viewModel
  { g with
    cells := Function.update g.cells cell configured
    inFlight := g.inFlight ++ (task.map fun url => { cell, url }).toList
    ready := Function.update g.ready cell false
    links := Function.update g.links cell (some viewModel.logoAddress) }

/-- The completion handler of a data task. -/
def respond (d : Download V) (data : Option D) (response : Option URLResponse)
    (error : Option URLError) (g : Gallery V I) : Gallery V I :=
  match UIImageView.imageOfResponse platform data response error with
  | none => g
  | some content =>
    { g with
      mainQueue := g.mainQueue ++ [{ cell := d.cell, url := d.url, image := ⟨content, d.url⟩ }] }

/-- The closure of the completion handler: into the cache, then into the view. -/
def runClosure (c : ImageClosure V I) (g : Gallery V I) : Gallery V I :=
  let cell := g.cells c.cell
  { g with
    imageCache := Function.update g.imageCache c.url.absoluteString (some c.image)
    cells := Function.update g.cells c.cell
      { cell with logoImageView := { cell.logoImageView with image := some c.image } } }

def step (g : Gallery V I) : GalleryLabel V D → Option (Gallery V I)
  | .prepareForReuse cell => some (g.prepareForReuse cell)
  | .configure cell viewModel =>
    if g.ready cell then some (g.configure platform cell viewModel) else none
  | .respond position data response error =>
    match g.inFlight[position]? with
    | none => none
    | some d =>
      let g := { g with inFlight := g.inFlight.eraseIdx position }
      some (g.respond platform d data response error)
  | .execute =>
    match g.mainQueue with
    | [] => none
    | c :: q => some ({ g with mainQueue := q }.runClosure c)
  | .evict key => some { g with imageCache := Function.update g.imageCache key none }

end Gallery

def galleryRuns [DecidableEq V] (platform : ImagePlatform D I) :
    Transition.System (Gallery V I) (GalleryLabel V D) where
  init := .init
  step := Gallery.step platform

/-! ## Whose logo is on screen -/

def Shows (platform : ImagePlatform D I) (link : Option String) (image : Option (UIImage I)) :
    Prop :=
  ∀ shown, image = some shown → link.bind platform.url = some shown.source

namespace Gallery

variable [DecidableEq V] {platform : ImagePlatform D I}

/-- Every logo is that of the link its cell was last configured with. -/
def ShowsConfigured (platform : ImagePlatform D I) (g : Gallery V I) : Prop :=
  ∀ cell, Shows platform (g.links cell) (g.cells cell).logoImageView.image

/-- What a step must find, for every logo to stay that of its link. A closure finds
its cell configured with a link of its own URL. A configured cell is served by the
cache, or finds no image in its view but one of the new link. -/
def OnTime (platform : ImagePlatform D I) (g : Gallery V I) : GalleryLabel V D → Prop
  | .execute => ∀ c ∈ g.mainQueue.head?, (g.links c.cell).bind platform.url = some c.url
  | .configure cell viewModel =>
    (∃ url, platform.url viewModel.logoAddress = some url ∧
      (g.imageCache url.absoluteString).isSome) ∨
    Shows platform (some viewModel.logoAddress) (g.cells cell).logoImageView.image
  | .prepareForReuse _ | .respond .. | .evict _ => True

structure Sound (g : Gallery V I) : Prop where
  cache : ∀ key image, g.imageCache key = some image → image.source.absoluteString = key
  queue : ∀ c ∈ g.mainQueue, c.image.source = c.url

omit [DecidableEq V] in
theorem sound_init : (init : Gallery V I).Sound := ⟨nofun, nofun⟩

theorem step_sound {g t : Gallery V I} {l : GalleryLabel V D} (h : g.Sound)
    (ht : g.step platform l = some t) : t.Sound := by
  cases l with
  | prepareForReuse cell => cases ht; exact ⟨h.cache, h.queue⟩
  | configure cell viewModel =>
    simp only [step] at ht
    split at ht
    · cases ht; exact ⟨h.cache, h.queue⟩
    · cases ht
  | respond position data response error =>
    simp only [step] at ht
    split at ht
    · cases ht
    · cases ht
      unfold respond
      split
      · exact ⟨h.cache, h.queue⟩
      · refine ⟨h.cache, fun c hc => ?_⟩
        rcases List.mem_append.1 hc with hc | hc
        · exact h.queue c hc
        · rw [List.mem_singleton.1 hc]
  | execute =>
    simp only [step] at ht
    cases hq : g.mainQueue with
    | nil => rw [hq] at ht; cases ht
    | cons c q =>
      rw [hq] at ht
      cases ht
      have hc : c.image.source = c.url := h.queue c (by rw [hq]; exact List.mem_cons_self)
      refine ⟨Keyed.forall_update h.cache fun image himage => ?_,
        fun c' hc' => h.queue c' (by rw [hq]; exact .tail _ hc')⟩
      cases himage
      rw [hc]
  | evict key =>
    cases ht
    exact ⟨Keyed.forall_update h.cache nofun, h.queue⟩

theorem showsConfigured_of_cell {g t : Gallery V I} (h : g.ShowsConfigured platform) (cell : V)
    (hother : ∀ other, other ≠ cell → t.links other = g.links other ∧
      (t.cells other).logoImageView.image = (g.cells other).logoImageView.image) :
    t.ShowsConfigured platform ↔
      Shows platform (t.links cell) (t.cells cell).logoImageView.image := by
  refine ⟨fun ht => ht cell, fun ht other => ?_⟩
  by_cases heq : other = cell
  · rw [heq]
    exact ht
  · rw [(hother other heq).1, (hother other heq).2]
    exact h other

theorem shows_downloaded {imageCache : ImageCache I} {link : String} {mode : ContentMode}
    {v : UIImageView I}
    (hcache : ∀ key image, imageCache key = some image → image.source.absoluteString = key) :
    Shows platform (some link) (v.downloaded platform imageCache link mode).1.image ↔
      (∃ url, platform.url link = some url ∧ (imageCache url.absoluteString).isSome) ∨
        Shows platform (some link) v.image := by
  unfold UIImageView.downloaded
  cases hurl : platform.url link with
  | none => simp
  | some url =>
    simp only [UIImageView.downloadedURL]
    cases himage : imageCache url.absoluteString with
    | none => simp [himage]
    | some image =>
      refine ⟨fun _ => .inl ⟨url, rfl, by rw [himage]; rfl⟩, fun _ shown hshown => ?_⟩
      cases hshown
      have hsource : image.source = url := by
        cases hs : image.source
        cases url
        have := hcache _ _ himage
        rw [hs] at this
        exact congrArg URL.mk this
      rw [hsource]
      exact hurl

/-- **One step keeps every logo right exactly when it is on time.** -/
theorem step_shows {g t : Gallery V I} {l : GalleryLabel V D} (hg : g.Sound)
    (h : g.ShowsConfigured platform) (ht : g.step platform l = some t) :
    t.ShowsConfigured platform ↔ g.OnTime platform l := by
  cases l with
  | prepareForReuse cell =>
    cases ht
    rw [showsConfigured_of_cell h cell]
    · simp [OnTime, prepareForReuse, TeamCell.prepareForReuse, Shows]
    · intro other hne
      simp [prepareForReuse, hne]
  | configure cell viewModel =>
    simp only [step] at ht
    split at ht
    · cases ht
      rw [showsConfigured_of_cell h cell]
      · simp only [configure, Function.update_self]
        exact shows_downloaded hg.cache
      · intro other hne
        simp [configure, hne]
    · cases ht
  | respond position data response error =>
    simp only [step] at ht
    split at ht
    · cases ht
    · cases ht
      unfold respond
      split <;> exact ⟨fun _ => trivial, fun _ => h⟩
  | execute =>
    simp only [step] at ht
    cases hq : g.mainQueue with
    | nil => rw [hq] at ht; cases ht
    | cons c q =>
      rw [hq] at ht
      cases ht
      have hc : c.image.source = c.url := hg.queue c (by rw [hq]; exact List.mem_cons_self)
      rw [showsConfigured_of_cell h c.cell]
      · simp [runClosure, OnTime, hq, Shows, hc]
      · intro other hne
        simp [runClosure, hne]
  | evict key =>
    cases ht
    exact ⟨fun _ => trivial, fun _ => h⟩

/-- **When logos never mix.** In a run from fresh cells every logo is that of its
cell's last link in all the states, if and only if every step is on time. -/
theorem shows_configured_iff (platform : ImagePlatform D I) (ls : List (GalleryLabel V D))
    (g : Gallery V I) (h : (galleryRuns platform).run .init ls = some g) :
    (galleryRuns platform).Throughout (ShowsConfigured platform) .init ls ↔
      (galleryRuns platform).Within (OnTime platform) .init ls :=
  Transition.System.throughout_iff_within (I := Sound) (fun _ _ _ hs ht => step_sound hs ht)
    (fun _ _ _ hs hp ht => step_shows hs hp ht) sound_init (fun _ => nofun) h

/-! ## A late download -/

def anyImage : ImagePlatform Unit Unit where
  url := fun link => some ⟨link⟩
  image := some

def lateDownload : List (GalleryLabel Unit Unit) :=
  [.configure () ⟨"dal.png", "Dallas Fuel", "DAL"⟩, .prepareForReuse (),
    .configure () ⟨"bos.png", "Boston Uprising", "BOS"⟩,
    .respond 0 (some ()) (some ⟨some 200, some "image/png"⟩) none, .execute]

def timelyDownloads : List (GalleryLabel Unit Unit) :=
  [.configure () ⟨"dal.png", "Dallas Fuel", "DAL"⟩,
    .respond 0 (some ()) (some ⟨some 200, some "image/png"⟩) none, .execute, .prepareForReuse (),
    .configure () ⟨"bos.png", "Boston Uprising", "BOS"⟩,
    .respond 0 (some ()) (some ⟨some 200, some "image/png"⟩) none, .execute]

theorem within_timelyDownloads :
    (galleryRuns anyImage).Within (OnTime anyImage) .init timelyDownloads := by
  refine ⟨.inr nofun, ?_⟩
  rintro _ ⟨⟩
  refine ⟨trivial, ?_⟩
  rintro _ ⟨⟩
  refine ⟨?_, ?_⟩
  · rintro c ⟨⟩
    rfl
  rintro _ ⟨⟩
  refine ⟨trivial, ?_⟩
  rintro _ ⟨⟩
  refine ⟨.inr nofun, ?_⟩
  rintro _ ⟨⟩
  refine ⟨trivial, ?_⟩
  rintro _ ⟨⟩
  refine ⟨?_, fun _ _ => trivial⟩
  rintro c ⟨⟩
  rfl

theorem shows_configured_timelyDownloads :
    (galleryRuns anyImage).Throughout (ShowsConfigured anyImage) .init timelyDownloads := by
  obtain ⟨g, hg⟩ : ∃ g, (galleryRuns anyImage).run .init timelyDownloads = some g := ⟨_, rfl⟩
  exact (shows_configured_iff anyImage timelyDownloads g hg).2 within_timelyDownloads

/-- The late download puts the first team's logo on the second team's cell. -/
theorem late_download_shows_other_logo :
    ¬ ∀ (V D I : Type) (_ : DecidableEq V) (platform : ImagePlatform D I)
      (ls : List (GalleryLabel V D)) (g : Gallery V I),
      (galleryRuns platform).run .init ls = some g → g.ShowsConfigured platform := by
  intro h
  obtain ⟨g, hg, hlink, himage⟩ : ∃ g, (galleryRuns anyImage).run .init lateDownload = some g ∧
      g.links () = some "bos.png" ∧
      (g.cells ()).logoImageView.image = some ⟨(), ⟨"dal.png"⟩⟩ := ⟨_, rfl, rfl, rfl⟩
  have hshows := h Unit Unit Unit inferInstance anyImage lateDownload g hg () _ himage
  rw [hlink] at hshows
  exact absurd hshows (by decide)

end Gallery

end OverwatchTeams
